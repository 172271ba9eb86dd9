import CiteVyn.Lib.Threads
import Mathlib.Data.List.Nodup

/-! # Vouchers

Keys that are issued once. A key is in the store, or one thread has taken it out,
or it is spent; one that a thread drops, or that is removed, is gone. -/
namespace CiteVyn.Lib.Vouchers
open CiteVyn.Lib.Threads

variable {W K : Type*}

/-- The keys issued so far, those in the store, the one that each thread has taken
and those that are spent. -/
structure Ledger (issued stored : List K) (taken : W → Option K) (spent : List K) : Prop where
  stored_nodup : stored.Nodup
  spent_nodup : spent.Nodup
  stored_issued : stored ⊆ issued
  spent_issued : spent ⊆ issued
  taken_issued : ∀ w k, taken w = some k → k ∈ issued
  spent_gone : ∀ k ∈ spent, k ∉ stored
  taken_gone : ∀ w k, taken w = some k → k ∉ stored
  taken_unspent : ∀ w k, taken w = some k → k ∉ spent
  taken_once : ∀ w w' k, taken w = some k → taken w' = some k → w = w'

/-- Nothing is issued yet. -/
theorem Ledger.nil : Ledger ([] : List K) [] (idle : W → Option K) [] where
  stored_nodup := List.nodup_nil
  spent_nodup := List.nodup_nil
  stored_issued := fun _ h => h
  spent_issued := fun _ h => h
  taken_issued := fun _ _ h => by cases h
  spent_gone := fun _ h => by cases h
  taken_gone := fun _ _ h => by cases h
  taken_unspent := fun _ _ h => by cases h
  taken_once := fun _ _ _ h => by cases h

variable {issued stored : List K} {taken : W → Option K} {spent : List K}

/-- More is issued than the store holds. -/
theorem Ledger.shrink {issued' stored' : List K} (h : Ledger issued stored taken spent)
    (hissued : issued ⊆ issued') (hstored : stored'.Sublist stored) :
    Ledger issued' stored' taken spent where
  stored_nodup := h.stored_nodup.sublist hstored
  spent_nodup := h.spent_nodup
  stored_issued := fun _ hk => hissued (h.stored_issued (hstored.subset hk))
  spent_issued := fun _ hk => hissued (h.spent_issued hk)
  taken_issued := fun w k hk => hissued (h.taken_issued w k hk)
  spent_gone := fun k hk hmem => h.spent_gone k hk (hstored.subset hmem)
  taken_gone := fun w k hk hmem => h.taken_gone w k hk (hstored.subset hmem)
  taken_unspent := h.taken_unspent
  taken_once := h.taken_once

theorem Ledger.issue (h : Ledger issued stored taken spent) {k : K} (hnew : k ∉ issued) :
    Ledger (k :: issued) (k :: stored) taken spent where
  stored_nodup := List.nodup_cons.mpr ⟨fun hk => hnew (h.stored_issued hk), h.stored_nodup⟩
  spent_nodup := h.spent_nodup
  stored_issued := List.cons_subset_cons k h.stored_issued
  spent_issued := fun _ hk => List.mem_cons_of_mem _ (h.spent_issued hk)
  taken_issued := fun w k' hk => List.mem_cons_of_mem _ (h.taken_issued w k' hk)
  spent_gone := by
    intro k' hk hmem
    rcases List.mem_cons.mp hmem with rfl | hmem
    · exact hnew (h.spent_issued hk)
    · exact h.spent_gone k' hk hmem
  taken_gone := by
    intro w k' hk hmem
    rcases List.mem_cons.mp hmem with rfl | hmem
    · exact hnew (h.taken_issued w _ hk)
    · exact h.taken_gone w k' hk hmem
  taken_unspent := h.taken_unspent
  taken_once := h.taken_once

variable [DecidableEq W]

/-- A thread takes a key out of the store. -/
theorem Ledger.take {stored' : List K} (h : Ledger issued stored taken spent) (w : W) {k : K}
    (hk : k ∈ stored) (hstored : stored'.Sublist stored) (hgone : k ∉ stored') :
    Ledger issued stored' (put taken w (some k)) spent := by
  have hshrunk := h.shrink (fun _ h => h) hstored
  have hcases : ∀ w' k', put taken w (some k) w' = some k' → (w' = w ∧ k' = k) ∨ taken w' = some k' := by
    intro w' k' hput
    rcases put_cases hput with ⟨rfl, heq⟩ | ⟨_, hthere⟩
    · exact .inl ⟨rfl, (Option.some.inj heq).symm⟩
    · exact .inr hthere
  refine { hshrunk with taken_issued := ?_, taken_gone := ?_, taken_unspent := ?_, taken_once := ?_ }
  · intro w' k' hput
    rcases hcases w' k' hput with ⟨-, rfl⟩ | hthere
    · exact h.stored_issued hk
    · exact h.taken_issued w' k' hthere
  · intro w' k' hput
    rcases hcases w' k' hput with ⟨-, rfl⟩ | hthere
    · exact hgone
    · exact hshrunk.taken_gone w' k' hthere
  · intro w' k' hput hmem
    rcases hcases w' k' hput with ⟨-, rfl⟩ | hthere
    · exact h.spent_gone k' hmem hk
    · exact h.taken_unspent w' k' hthere hmem
  · intro w₁ w₂ k' hput₁ hput₂
    rcases hcases w₁ k' hput₁ with ⟨rfl, rfl⟩ | hthere₁ <;> rcases hcases w₂ _ hput₂ with ⟨rfl, hk₂⟩ | hthere₂
    · rfl
    · exact (h.taken_gone w₂ _ hthere₂ hk).elim
    · exact (h.taken_gone w₁ k' hthere₁ (hk₂ ▸ hk)).elim
    · exact h.taken_once w₁ w₂ k' hthere₁ hthere₂

/-- A thread drops its key, if it has one. -/
theorem Ledger.drop (h : Ledger issued stored taken spent) (w : W) :
    Ledger issued stored (put taken w none) spent := by
  have hthere : ∀ w' k, put taken w none w' = some k → taken w' = some k := by
    intro w' k hput
    rcases put_cases hput with ⟨-, heq⟩ | ⟨_, hthere⟩
    · cases heq
    · exact hthere
  exact { h with
    taken_issued := fun w' k hk => h.taken_issued w' k (hthere w' k hk)
    taken_gone := fun w' k hk => h.taken_gone w' k (hthere w' k hk)
    taken_unspent := fun w' k hk => h.taken_unspent w' k (hthere w' k hk)
    taken_once := fun w₁ w₂ k h₁ h₂ => h.taken_once w₁ w₂ k (hthere w₁ k h₁) (hthere w₂ k h₂) }

/-- A thread spends its key. -/
theorem Ledger.spend (h : Ledger issued stored taken spent) {w : W} {k : K} (hk : taken w = some k) :
    Ledger issued stored (put taken w none) (k :: spent) := by
  refine { h.drop w with spent_nodup := ?_, spent_issued := ?_, spent_gone := ?_, taken_unspent := ?_ }
  · exact List.nodup_cons.mpr ⟨h.taken_unspent w k hk, h.spent_nodup⟩
  · intro k' hmem
    rcases List.mem_cons.mp hmem with rfl | hmem
    · exact h.taken_issued w _ hk
    · exact h.spent_issued hmem
  · intro k' hmem
    rcases List.mem_cons.mp hmem with rfl | hmem
    · exact h.taken_gone w _ hk
    · exact h.spent_gone k' hmem
  · intro w' k' hput hmem
    rcases put_cases hput with ⟨-, heq⟩ | ⟨hne, hthere⟩
    · cases heq
    · rcases List.mem_cons.mp hmem with rfl | hmem
      · exact hne (h.taken_once w' w _ hthere hk)
      · exact h.taken_unspent w' k' hthere hmem

/-- A key goes from the store to the spent ones in one step. -/
theorem Ledger.cash {stored' : List K} (h : Ledger issued stored taken spent) {w : W} {k : K}
    (hw : taken w = none) (hk : k ∈ stored) (hstored : stored'.Sublist stored) (hgone : k ∉ stored') :
    Ledger issued stored' taken (k :: spent) := by
  have hspent := (h.take w hk hstored hgone).spend (put_self taken w (some k))
  rwa [put_put, ← hw, put_there] at hspent

end CiteVyn.Lib.Vouchers
