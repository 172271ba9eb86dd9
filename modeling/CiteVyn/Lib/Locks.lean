import Mathlib.Data.List.Basic

/-! # Exclusive locks

The locks that are held, each with its owner. A lock is taken when no other
owner holds it and released with all the others of its owner. -/
namespace CiteVyn.Lib.Locks

variable {K O : Type*} [DecidableEq K] [DecidableEq O]

/-- No other owner holds `k`. -/
def free (locks : List (K × O)) (k : K) (o : O) : Bool :=
  locks.all fun p => p.1 ≠ k || p.2 = o

def acquire (locks : List (K × O)) (k : K) (o : O) : List (K × O) := (k, o) :: locks

def release (locks : List (K × O)) (o : O) : List (K × O) := locks.filter fun p => p.2 ≠ o

/-- No lock has two owners. -/
def Exclusive (locks : List (K × O)) : Prop :=
  ∀ k o o', (k, o) ∈ locks → (k, o') ∈ locks → o = o'

omit [DecidableEq K] [DecidableEq O] in
theorem exclusive_nil : Exclusive ([] : List (K × O)) := by
  intro k o o' h
  cases h

theorem free_iff {locks : List (K × O)} {k : K} {o : O} :
    free locks k o = true ↔ ∀ o', (k, o') ∈ locks → o' = o := by
  rw [free, List.all_eq_true]
  constructor
  · intro h o' hmem
    simpa using h _ hmem
  · rintro h ⟨k', o'⟩ hmem
    by_cases hk : k' = k
    · subst hk
      simpa using h o' hmem
    · simp [hk]

theorem Exclusive.acquire {locks : List (K × O)} {k : K} {o : O} (h : Exclusive locks)
    (hfree : free locks k o = true) : Exclusive (acquire locks k o) := by
  rw [free_iff] at hfree
  intro k' o₁ o₂ h₁ h₂
  rcases List.mem_cons.mp h₁ with h₁ | h₁ <;> rcases List.mem_cons.mp h₂ with h₂ | h₂
  · rw [Prod.mk.injEq] at h₁ h₂
    exact h₁.2.trans h₂.2.symm
  · rw [Prod.mk.injEq] at h₁
    exact h₁.2.trans (hfree o₂ (h₁.1 ▸ h₂)).symm
  · rw [Prod.mk.injEq] at h₂
    exact (hfree o₁ (h₂.1 ▸ h₁)).trans h₂.2.symm
  · exact h k' o₁ o₂ h₁ h₂

omit [DecidableEq K] in
theorem Exclusive.release {locks : List (K × O)} (h : Exclusive locks) (o : O) :
    Exclusive (release locks o) :=
  fun k o₁ o₂ h₁ h₂ => h k o₁ o₂ (List.mem_filter.mp h₁).1 (List.mem_filter.mp h₂).1

omit [DecidableEq K] [DecidableEq O] in
theorem mem_acquire {locks : List (K × O)} {k k' : K} {o o' : O} (h : (k', o') ∈ locks) :
    (k', o') ∈ acquire locks k o := List.mem_cons_of_mem _ h

omit [DecidableEq K] [DecidableEq O] in
theorem acquired (locks : List (K × O)) (k : K) (o : O) : (k, o) ∈ acquire locks k o :=
  List.mem_cons_self

omit [DecidableEq K] in
theorem mem_release {locks : List (K × O)} {k : K} {o o' : O} (hne : o' ≠ o)
    (h : (k, o') ∈ locks) : (k, o') ∈ release locks o :=
  List.mem_filter.mpr ⟨h, by simpa using hne⟩

end CiteVyn.Lib.Locks
