import CiteVyn.Lib.Threads
import Mathlib.Data.List.Nodup

/-! # Claims before delivery

A key is claimed before what it stands for is delivered, and given back when the
delivery fails. A delivery has an id of its own and can stand for several keys. A key
has at most one claim at a time, so at most one delivery of it succeeds. -/
namespace CiteVyn.Lib.Claims
open CiteVyn.Lib.Threads

variable {W K M : Type*}

theorem keys_of (ks : List K) (m : M) : (ks.map fun k => (k, m)).map Prod.fst = ks := by
  simp [Function.comp_def]

/-- The ids that have been drawn, the claims, the delivery that each thread is at, and
the keys that have been delivered, each with the delivery. -/
structure Ledger (drawn : List M) (claims : List (K × M)) (held : W → Option (M × List K))
    (delivered : List (K × M)) : Prop where
  single : (claims.map Prod.fst).Nodup
  once : (delivered.map Prod.fst).Nodup
  kept : delivered ⊆ claims
  claims_drawn : ∀ p ∈ claims, p.2 ∈ drawn
  held_drawn : ∀ w m ks, held w = some (m, ks) → m ∈ drawn
  held_nodup : ∀ w m ks, held w = some (m, ks) → ks.Nodup
  held_claimed : ∀ w m ks, held w = some (m, ks) → ∀ k ∈ ks, (k, m) ∈ claims
  held_undelivered : ∀ w m ks, held w = some (m, ks) → ∀ k, (k, m) ∉ delivered
  held_once : ∀ w w' m ks ks', held w = some (m, ks) → held w' = some (m, ks') → w = w'

/-- Nothing is claimed yet. -/
theorem Ledger.nil : Ledger ([] : List M) ([] : List (K × M)) (idle : W → Option (M × List K)) [] where
  single := List.nodup_nil
  once := List.nodup_nil
  kept := fun _ h => h
  claims_drawn := fun _ h => by cases h
  held_drawn := fun _ _ _ h => by cases h
  held_nodup := fun _ _ _ h => by cases h
  held_claimed := fun _ _ _ h => by cases h
  held_undelivered := fun _ _ _ h => by cases h
  held_once := fun _ _ _ _ _ h => by cases h

variable {drawn : List M} {claims : List (K × M)} {held : W → Option (M × List K)}
  {delivered : List (K × M)}

/-- A key has one claim. -/
theorem Ledger.claim_unique (h : Ledger drawn claims held delivered) {k : K} {m m' : M}
    (hm : (k, m) ∈ claims) (hm' : (k, m') ∈ claims) : m = m' :=
  congrArg Prod.snd (List.inj_on_of_nodup_map h.single hm hm' rfl)

variable [DecidableEq W]

/-- A thread claims keys that nobody has claimed, for a delivery of its own. -/
theorem Ledger.claim (h : Ledger drawn claims held delivered) (w : W) {m : M} {ks : List K}
    (hnew : m ∉ drawn) (hks : ks.Nodup) (hfree : ∀ k ∈ ks, k ∉ claims.map Prod.fst) :
    Ledger (m :: drawn) (ks.map (fun k => (k, m)) ++ claims) (put held w (some (m, ks))) delivered := by
  have hcases : ∀ w' m' ks', put held w (some (m, ks)) w' = some (m', ks') →
      (w' = w ∧ m' = m ∧ ks' = ks) ∨ held w' = some (m', ks') := by
    intro w' m' ks' hput
    rcases put_cases hput with ⟨rfl, heq⟩ | ⟨_, hthere⟩
    · cases heq
      exact .inl ⟨rfl, rfl, rfl⟩
    · exact .inr hthere
  constructor
  · rw [List.map_append, keys_of, List.nodup_append]
    refine ⟨hks, h.single, ?_⟩
    rintro k hk _ hk' rfl
    exact hfree k hk hk'
  · exact h.once
  · exact fun p hp => List.mem_append_right _ (h.kept hp)
  · intro p hp
    rcases List.mem_append.mp hp with hp | hp
    · obtain ⟨k, -, rfl⟩ := List.mem_map.mp hp
      exact List.mem_cons_self
    · exact List.mem_cons_of_mem _ (h.claims_drawn p hp)
  · intro w' m' ks' hput
    rcases hcases w' m' ks' hput with ⟨-, rfl, -⟩ | hthere
    · exact List.mem_cons_self
    · exact List.mem_cons_of_mem _ (h.held_drawn w' m' ks' hthere)
  · intro w' m' ks' hput
    rcases hcases w' m' ks' hput with ⟨-, -, rfl⟩ | hthere
    · exact hks
    · exact h.held_nodup w' m' ks' hthere
  · intro w' m' ks' hput k hk
    rcases hcases w' m' ks' hput with ⟨-, rfl, rfl⟩ | hthere
    · exact List.mem_append_left _ (List.mem_map_of_mem hk)
    · exact List.mem_append_right _ (h.held_claimed w' m' ks' hthere k hk)
  · intro w' m' ks' hput k hk
    rcases hcases w' m' ks' hput with ⟨-, rfl, -⟩ | hthere
    · exact hnew (h.claims_drawn _ (h.kept hk))
    · exact h.held_undelivered w' m' ks' hthere k hk
  · intro w₁ w₂ m' ks₁ ks₂ h₁ h₂
    rcases hcases w₁ m' ks₁ h₁ with ⟨rfl, rfl, -⟩ | hthere₁ <;>
      rcases hcases w₂ _ ks₂ h₂ with ⟨rfl, hm, -⟩ | hthere₂
    · rfl
    · exact (hnew (h.held_drawn w₂ _ ks₂ hthere₂)).elim
    · exact (hnew (hm ▸ h.held_drawn w₁ m' ks₁ hthere₁)).elim
    · exact h.held_once w₁ w₂ m' ks₁ ks₂ hthere₁ hthere₂

/-- A thread ends, and the claims of its delivery stay. -/
theorem Ledger.drop (h : Ledger drawn claims held delivered) (w : W) :
    Ledger drawn claims (put held w none) delivered := by
  have hthere : ∀ w' p, put held w none w' = some p → held w' = some p := by
    intro w' p hput
    rcases put_cases hput with ⟨-, heq⟩ | ⟨_, hthere⟩
    · cases heq
    · exact hthere
  exact { h with
    held_drawn := fun w' m ks hk => h.held_drawn w' m ks (hthere w' _ hk)
    held_nodup := fun w' m ks hk => h.held_nodup w' m ks (hthere w' _ hk)
    held_claimed := fun w' m ks hk => h.held_claimed w' m ks (hthere w' _ hk)
    held_undelivered := fun w' m ks hk => h.held_undelivered w' m ks (hthere w' _ hk)
    held_once := fun w₁ w₂ m ks ks' h₁ h₂ => h.held_once w₁ w₂ m ks ks' (hthere w₁ _ h₁) (hthere w₂ _ h₂) }

/-- A delivery succeeds. -/
theorem Ledger.deliver (h : Ledger drawn claims held delivered) {w : W} {m : M} {ks : List K}
    (hw : held w = some (m, ks)) :
    Ledger drawn claims (put held w none) (ks.map (fun k => (k, m)) ++ delivered) := by
  refine { h.drop w with once := ?_, kept := ?_, held_undelivered := ?_ }
  · rw [List.map_append, keys_of, List.nodup_append]
    refine ⟨h.held_nodup w m ks hw, h.once, ?_⟩
    rintro k hk _ hk' rfl
    obtain ⟨⟨k', m'⟩, hmem, rfl⟩ := List.mem_map.mp hk'
    obtain rfl : m' = m := h.claim_unique (h.kept hmem) (h.held_claimed w m ks hw k' hk)
    exact h.held_undelivered w m' ks hw k' hmem
  · intro p hp
    rcases List.mem_append.mp hp with hp | hp
    · obtain ⟨k, hk, rfl⟩ := List.mem_map.mp hp
      exact h.held_claimed w m ks hw k hk
    · exact h.kept hp
  · intro w' m' ks' hput k hk
    rcases put_cases hput with ⟨-, heq⟩ | ⟨hne, hthere⟩
    · cases heq
    · rcases List.mem_append.mp hk with hk | hk
      · obtain ⟨k', -, heq⟩ := List.mem_map.mp hk
        obtain rfl : m = m' := congrArg Prod.snd heq
        exact hne (h.held_once w' w m ks' ks hthere hw)
      · exact h.held_undelivered w' m' ks' hthere k hk

/-- A delivery fails and its claims are given back. -/
theorem Ledger.release [DecidableEq M] (h : Ledger drawn claims held delivered) {w : W} {m : M} {ks : List K}
    (hw : held w = some (m, ks)) :
    Ledger drawn (claims.filter fun p => p.2 ≠ m) (put held w none) delivered := by
  refine { h.drop w with single := ?_, kept := ?_, claims_drawn := ?_, held_claimed := ?_ }
  · exact h.single.sublist (List.filter_sublist.map _)
  · rintro ⟨k, m'⟩ hp
    refine List.mem_filter.mpr ⟨h.kept hp, ?_⟩
    rw [decide_eq_true_eq]
    rintro rfl
    exact h.held_undelivered w _ ks hw k hp
  · exact fun p hp => h.claims_drawn p (List.mem_filter.mp hp).1
  · intro w' m' ks' hput k hk
    rcases put_cases hput with ⟨-, heq⟩ | ⟨hne, hthere⟩
    · cases heq
    · refine List.mem_filter.mpr ⟨h.held_claimed w' m' ks' hthere k hk, ?_⟩
      rw [decide_eq_true_eq]
      rintro rfl
      exact hne (h.held_once w' w _ ks' ks hthere hw)

omit [DecidableEq W] in
/-- Once a delivery's claims are given back, none of its keys is claimed. -/
theorem Ledger.released [DecidableEq M] (h : Ledger drawn claims held delivered) {w : W} {m : M} {ks : List K}
    (hw : held w = some (m, ks)) : ∀ k ∈ ks, k ∉ (claims.filter fun p => p.2 ≠ m).map Prod.fst := by
  intro k hk hmem
  obtain ⟨⟨k', m'⟩, hp, rfl⟩ := List.mem_map.mp hmem
  obtain ⟨hclaim, hne⟩ := List.mem_filter.mp hp
  rw [h.claim_unique hclaim (h.held_claimed w m ks hw k' hk)] at hne
  simp at hne

end CiteVyn.Lib.Claims
