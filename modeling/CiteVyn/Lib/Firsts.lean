import Mathlib.Data.List.Induction
import Mathlib.Data.List.Nodup
import Mathlib.Order.Basic

/-! # The keys of a dictionary that is filled in order

A key that is there keeps its place and a new one goes to the end, so the keys
are the first occurrences in what was inserted (`List.eraseDups`), in the order
of their positions. -/
namespace CiteVyn.Lib.Firsts

variable {κ : Type*} [DecidableEq κ]

def putKey (keys : List κ) (k : κ) : List κ := if k ∈ keys then keys else keys ++ [k]

theorem eraseDups_concat (l : List κ) (k : κ) : (l ++ [k]).eraseDups = putKey l.eraseDups k := by
  rw [List.eraseDups_append, putKey]
  by_cases hk : k ∈ l
  · simp [hk, List.removeAll]
  · simp [hk, List.removeAll, List.eraseDups_cons]

theorem foldl_putKey (l m : List κ) : m.foldl putKey l.eraseDups = (l ++ m).eraseDups := by
  induction m generalizing l with
  | nil => simp
  | cons k m ih =>
    rw [List.foldl_cons, ← eraseDups_concat, ih, List.append_assoc, List.singleton_append]

theorem foldl_putKey_nil (m : List κ) : m.foldl putKey [] = m.eraseDups := foldl_putKey [] m

/-- An earlier key has the earlier position. -/
theorem eraseDups_ordered (l : List κ) : l.eraseDups.Pairwise fun a b => l.idxOf a < l.idxOf b := by
  induction l using List.reverseRecOn with
  | nil => simp
  | append_singleton l k ih =>
    -- the positions in `l` stay
    have hold : l.eraseDups.Pairwise fun a b => (l ++ [k]).idxOf a < (l ++ [k]).idxOf b := by
      refine ih.imp_of_mem fun ha hb h => ?_
      rw [List.mem_eraseDups] at ha hb
      rwa [List.idxOf_append_of_mem ha, List.idxOf_append_of_mem hb]
    rw [eraseDups_concat, putKey]
    split
    · exact hold
    · rename_i hk
      rw [List.mem_eraseDups] at hk
      refine List.pairwise_append.mpr ⟨hold, List.pairwise_singleton _ _, fun a ha b hb => ?_⟩
      rw [List.mem_eraseDups] at ha
      rw [List.mem_singleton.mp hb, List.idxOf_append_of_mem ha, List.idxOf_append_of_notMem hk]
      exact Nat.lt_add_right _ (List.idxOf_lt_length_of_mem ha)

theorem nodup_eraseDups (l : List κ) : l.eraseDups.Nodup :=
  (eraseDups_ordered l).imp fun h => ne_of_apply_ne l.idxOf (Nat.ne_of_lt h)

/-- Of two keys the earlier one is in every prefix that has the later one. -/
theorem mem_prefix_of_idxOf_lt {l p : List κ} {a b : κ} (hp : p <+: l) (hb : b ∈ p) (h : l.idxOf a < l.idxOf b) :
    a ∈ p := by
  rw [hp.mem_iff_idxOf_lt_length] at hb ⊢
  exact Nat.lt_trans h hb

end CiteVyn.Lib.Firsts
