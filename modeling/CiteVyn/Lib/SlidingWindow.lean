import Mathlib.Algebra.Order.Group.Defs
import Mathlib.Algebra.Order.Sub.Basic
import Mathlib.Data.List.Basic

/-! # Sliding windows

A hit is recorded while fewer than a limit have been recorded in the window that
ends with it. Implementations forget the hits that no later window reaches; each
answers what a record of all the hits would answer. -/
namespace CiteVyn.Lib.SlidingWindow

/-! ## Answers

An implementation takes a check and says whether it passes. -/

section

variable {S S' C : Type*}

/-- What is answered, check by check. -/
def answers (check : S → C → Bool × S) : S → List C → List Bool
  | _, [] => []
  | s, c :: cs => (check s c).1 :: answers check (check s c).2 cs

/-- The state after the checks. -/
def after (check : S → C → Bool × S) : S → List C → S
  | s, [] => s
  | s, c :: cs => after check (check s c).2 cs

variable {check : S → C → Bool × S} {check' : S' → C → Bool × S'}

theorem answers_append (s : S) (cs cs' : List C) :
    answers check s (cs ++ cs') = answers check s cs ++ answers check (after check s cs) cs' := by
  induction cs generalizing s with
  | nil => rfl
  | cons c cs ih => simp [answers, after, ih]

theorem answers_length (s : S) (cs : List C) : (answers check s cs).length = cs.length := by
  induction cs generalizing s with
  | nil => rfl
  | cons c cs ih => simp [answers, ih]

/-- Implementations whose states stay related, given the checks to come, answer the same. -/
theorem answers_eq {R : S → S' → List C → Prop}
    (hstep : ∀ s s' c cs, R s s' (c :: cs) →
      (check s c).1 = (check' s' c).1 ∧ R (check s c).2 (check' s' c).2 cs)
    (cs : List C) {s : S} {s' : S'} (h : R s s' cs) : answers check s cs = answers check' s' cs := by
  induction cs generalizing s s' with
  | nil => rfl
  | cons c cs ih =>
    obtain ⟨hanswer, hnext⟩ := hstep s s' c cs h
    rw [answers, answers, hanswer, ih hnext]

/-- A check that is refused and leaves the state alone changes no other answer. -/
theorem answers_erase {s : S} {pre post : List C} {c : C}
    (hrefused : check (after check s pre) c = (false, after check s pre)) :
    (answers check s (pre ++ c :: post)).eraseIdx pre.length = answers check s (pre ++ post) := by
  rw [answers_append, answers_append, answers, hrefused,
    List.eraseIdx_append_of_length_le (answers_length s pre).le, answers_length, Nat.sub_self,
    List.eraseIdx_cons_zero]

end

/-! ## The record of all hits -/

variable {T : Type*} [AddCommGroup T] [LinearOrder T] [IsOrderedAddMonoid T]

/-- The hits in `(t - window, t]`. -/
def inWindow (window : T) (hits : List T) (t : T) : List T :=
  hits.filter fun hit => t - window < hit ∧ hit ≤ t

def admits (limit : ℕ) (window : T) (hits : List T) (now : T) : Bool :=
  (inWindow window hits now).length < limit

def record (limit : ℕ) (window : T) (hits : List T) (now : T) : List T :=
  if admits limit window hits now then hits ++ [now] else hits

/-- No window holds more hits than the limit. -/
def Bounded (limit : ℕ) (window : T) (hits : List T) : Prop :=
  ∀ t, (inWindow window hits t).length ≤ limit

omit [IsOrderedAddMonoid T] in
theorem Bounded.nil (limit : ℕ) (window : T) : Bounded limit window [] := fun _ => Nat.zero_le _

theorem Bounded.record {limit : ℕ} {window now : T} {hits : List T} (h : Bounded limit window hits)
    (hpast : ∀ hit ∈ hits, hit ≤ now) : Bounded limit window (record limit window hits now) := by
  unfold SlidingWindow.record
  split
  · rename_i hadmits
    intro t
    rw [inWindow, List.filter_append, List.length_append]
    by_cases hin : t - window < now ∧ now ≤ t
    · -- what is in a window that holds the new hit was in the window that ended with it
      have hle : (inWindow window hits t).length ≤ (inWindow window hits now).length := by
        rw [inWindow, inWindow, ← List.countP_eq_length_filter, ← List.countP_eq_length_filter]
        refine List.countP_mono_left fun hit hmem hthere => ?_
        rw [decide_eq_true_eq] at hthere ⊢
        exact ⟨(sub_le_sub_right hin.2 window).trans_lt hthere.1, hpast hit hmem⟩
      have hlt : (inWindow window hits now).length < limit := by simpa [admits] using hadmits
      rw [inWindow] at hle
      rw [List.filter_cons_of_pos (by simpa using hin), List.filter_nil, List.length_singleton]
      omega
    · rw [List.filter_cons_of_neg (by simpa using hin), List.filter_nil, List.length_nil, Nat.add_zero]
      exact h t
  · exact h

/-! ## Forgetting hits -/

/-- What is kept of the hits after a check at `last`: those past a cut that no later
window reaches below. -/
def Pruned (window last : T) (hits kept : List T) : Prop :=
  ∃ cut ≤ last - window, kept = hits.filter (cut < ·)

omit [IsOrderedAddMonoid T] in
theorem inWindow_of_past {window now : T} {hits : List T} (hpast : ∀ hit ∈ hits, hit ≤ now) :
    inWindow window hits now = hits.filter (now - window < ·) := by
  refine List.filter_congr fun hit hmem => ?_
  simp [hpast hit hmem]

omit [IsOrderedAddMonoid T] in
/-- The record answers by the hits that the window at `now` reaches. -/
theorem admits_of_past {limit : ℕ} {window now : T} {hits : List T}
    (hpast : ∀ hit ∈ hits, hit ≤ now) :
    admits limit window hits now = decide ((hits.filter (now - window < ·)).length < limit) := by
  rw [admits, inWindow_of_past hpast]

theorem Pruned.prune {window last now : T} {hits kept : List T} (h : Pruned window last hits kept)
    (hle : last ≤ now) : kept.filter (now - window < ·) = hits.filter (now - window < ·) := by
  obtain ⟨cut, hcut, rfl⟩ := h
  rw [List.filter_filter]
  refine List.filter_congr fun hit _ => ?_
  have hlt : now - window < hit → cut < hit :=
    fun hin => (hcut.trans (sub_le_sub_right hle window)).trans_lt hin
  by_cases hin : now - window < hit
  · simp [hin, hlt hin]
  · simp [hin]

omit [IsOrderedAddMonoid T] in
theorem pruned_filter (window now : T) (hits : List T) :
    Pruned window now hits (hits.filter (now - window < ·)) := ⟨now - window, le_rfl, rfl⟩

/-- The hit itself is in the window that ends with it. -/
theorem pruned_append {window now : T} (hwindow : 0 < window) (hits : List T) :
    Pruned window now (hits ++ [now]) (hits.filter (now - window < ·) ++ [now]) := by
  refine ⟨now - window, le_rfl, ?_⟩
  rw [List.filter_append, List.filter_cons_of_pos (by simpa using hwindow), List.filter_nil]

theorem Pruned.mono {window last now : T} {hits kept : List T} (h : Pruned window last hits kept)
    (hle : last ≤ now) : Pruned window now hits kept := by
  obtain ⟨cut, hcut, hkept⟩ := h
  exact ⟨cut, hcut.trans (sub_le_sub_right hle window), hkept⟩

/-- An implementation that prunes before it counts, and keeps the hit if it passes. -/
theorem pruned_record (limit : ℕ) {window now : T} {hits kept : List T} (hwindow : 0 < window)
    (hpast : ∀ hit ∈ hits, hit ≤ now) (hkept : kept = hits.filter (now - window < ·)) :
    admits limit window hits now = decide (kept.length < limit) ∧
      Pruned window now (record limit window hits now)
        (if limit ≤ kept.length then kept else kept ++ [now]) := by
  have hadmits : admits limit window hits now = decide (kept.length < limit) := by
    rw [admits_of_past hpast, hkept]
  refine ⟨hadmits, ?_⟩
  unfold record
  by_cases hfull : limit ≤ kept.length
  · rw [if_pos hfull, if_neg (by simpa [hadmits] using hfull), hkept]
    exact pruned_filter window now hits
  · rw [if_neg hfull, if_pos (by simpa [hadmits] using hfull), hkept]
    exact pruned_append hwindow hits

omit [AddCommGroup T] [IsOrderedAddMonoid T] in
/-- Hits in order of time are pruned from the front. -/
theorem dropWhile_eq_filter {cut : T} {hits : List T} (hsorted : hits.Pairwise (· ≤ ·)) :
    hits.dropWhile (· ≤ cut) = hits.filter (cut < ·) := by
  induction hits with
  | nil => rfl
  | cons hit hits ih =>
    obtain ⟨hle, hsorted⟩ := List.pairwise_cons.mp hsorted
    by_cases hcut : hit ≤ cut
    · rw [List.dropWhile_cons_of_pos (by simpa using hcut), List.filter_cons_of_neg (by simpa using hcut)]
      exact ih hsorted
    · have hlt := not_le.mp hcut
      rw [List.dropWhile_cons_of_neg (by simpa using hcut), List.filter_cons_of_pos (by simpa using hlt),
        List.filter_eq_self.mpr]
      intro later hmem
      simpa using hlt.trans_le (hle later hmem)

end CiteVyn.Lib.SlidingWindow
