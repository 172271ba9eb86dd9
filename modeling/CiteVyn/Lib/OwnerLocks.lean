import CiteVyn.Lib.Locks
import CiteVyn.Lib.Threads

/-! # Rows that change under the locks of their owners

Every row has an owner. A thread that holds the lock of an owner may rely on what
it has found out about the rows of that owner: other threads change rows of owners
whose locks they hold, and rows of any owner only in ways that spoil nothing. -/
namespace CiteVyn.Lib.OwnerLocks
open CiteVyn.Lib.Locks CiteVyn.Lib.Threads

variable {K O P R : Type*} [DecidableEq K] [DecidableEq O]

/-! ## The rows of an owner -/

def rowsOf (owner : R → K) (rows : List R) (k : K) : List R := rows.filter fun r => owner r = k

@[simp] theorem rowsOf_nil (owner : R → K) (k : K) : rowsOf owner [] k = [] := rfl

theorem rowsOf_cons_self (owner : R → K) (r : R) (rows : List R) :
    rowsOf owner (r :: rows) (owner r) = r :: rowsOf owner rows (owner r) := by
  simp [rowsOf]

theorem rowsOf_cons_of_ne {owner : R → K} {r : R} {k : K} (h : owner r ≠ k) (rows : List R) :
    rowsOf owner (r :: rows) k = rowsOf owner rows k := by
  simp [rowsOf, h]

/-- An edit of rows that leaves them with their owners. -/
theorem rowsOf_map {owner : R → K} {edit : R → R} (h : ∀ r, owner (edit r) = owner r) (rows : List R) (k : K) :
    rowsOf owner (rows.map edit) k = (rowsOf owner rows k).map edit := by
  rw [rowsOf, rowsOf, List.filter_map]
  congr 2
  funext r
  simp [h]

/-- A deletion of rows. -/
theorem rowsOf_filter (owner : R → K) (keep : R → Bool) (rows : List R) (k : K) :
    rowsOf owner (rows.filter keep) k = (rowsOf owner rows k).filter keep := by
  rw [rowsOf, rowsOf, List.filter_filter, List.filter_filter]
  congr 1
  funext r
  rw [Bool.and_comm]

theorem mem_rowsOf {owner : R → K} {rows : List R} {k : K} {r : R} :
    r ∈ rowsOf owner rows k ↔ r ∈ rows ∧ owner r = k := by
  simp [rowsOf]

/-- An owner that no two rows share has one row at most. -/
theorem rowsOf_cases {owner : R → K} {rows : List R} (h : (rows.map owner).Nodup) (k : K) :
    rowsOf owner rows k = [] ∨ ∃ row ∈ rows, owner row = k ∧ rowsOf owner rows k = [row] := by
  have hnodup : ((rowsOf owner rows k).map owner).Nodup := h.sublist (List.filter_sublist.map _)
  rcases hfound : rowsOf owner rows k with _ | ⟨row, _ | ⟨other, rest⟩⟩
  · exact .inl rfl
  · have hrow := mem_rowsOf.mp (hfound ▸ List.mem_singleton_self row)
    exact .inr ⟨row, hrow.1, hrow.2, rfl⟩
  · have hrow := (mem_rowsOf.mp (hfound ▸ List.mem_cons_self)).2
    have hother := (mem_rowsOf.mp (hfound ▸ List.mem_cons_of_mem row List.mem_cons_self)).2
    rw [hfound] at hnodup
    exact absurd (List.mem_map.mpr ⟨other, List.mem_cons_self, hother.trans hrow.symm⟩) (List.nodup_cons.mp hnodup).1

/-! ## Threads that know their rows -/

/-- What a protocol says of its threads and of the rows. -/
structure Rules (K P R : Type*) where
  owner : R → K
  /-- the owner whose lock a thread at the place holds -/
  lock : P → Option K
  /-- what a thread at the place has found out about the rows of that owner -/
  knows : P → List R → Prop
  /-- what the rows of any owner meet -/
  whole : List R → Prop

/-- Locks are exclusive and held where they have to be, what threads have found out
is so, and the rows of every owner are whole. -/
structure Guarded (u : Rules K P R) (rows : List R) (locks : List (K × O)) (places : O → Option P) : Prop where
  exclusive : Exclusive locks
  locked : ∀ o p k, places o = some p → u.lock p = some k → (k, o) ∈ locks
  knows : ∀ o p k, places o = some p → u.lock p = some k → u.knows p (rowsOf u.owner rows k)
  whole : ∀ k, u.whole (rowsOf u.owner rows k)

variable {u : Rules K P R} {rows rows' : List R} {locks : List (K × O)} {places : O → Option P} {o : O}

omit [DecidableEq O] in
/-- No thread is running. -/
theorem Guarded.idle {rows : List R} (h : ∀ k, u.whole (rowsOf u.owner rows k)) :
    Guarded u rows ([] : List (K × O)) idle where
  exclusive := exclusive_nil
  locked _ _ _ h _ := by cases h
  knows _ _ _ h _ := by cases h
  whole := h

/-- A thread comes to a place whose lock it holds, having found out what it says. -/
theorem Guarded.goto (h : Guarded u rows locks places) {p : P} (hlock : ∀ k, u.lock p = some k → (k, o) ∈ locks)
    (hknows : ∀ k, u.lock p = some k → u.knows p (rowsOf u.owner rows k)) :
    Guarded u rows locks (put places o (some p)) where
  exclusive := h.exclusive
  locked := by
    intro o' p' k hplace hp'
    rcases put_cases hplace with ⟨rfl, hmoved⟩ | ⟨-, hthere⟩
    · exact hlock k (Option.some.inj hmoved ▸ hp')
    · exact h.locked o' p' k hthere hp'
  knows := by
    intro o' p' k hplace hp'
    rcases put_cases hplace with ⟨rfl, hmoved⟩ | ⟨-, hthere⟩
    · cases hmoved
      exact hknows k hp'
    · exact h.knows o' p' k hthere hp'
  whole := h.whole

/-- A thread that goes on at a place of the same lock. -/
theorem Guarded.move (h : Guarded u rows locks places) {p p' : P} (hp : places o = some p) (hlock : u.lock p' = u.lock p)
    (hknows : ∀ k, u.lock p = some k → u.knows p (rowsOf u.owner rows k) → u.knows p' (rowsOf u.owner rows k)) :
    Guarded u rows locks (put places o (some p')) :=
  h.goto (fun k hk => h.locked o p k hp (hlock ▸ hk)) fun k hk => hknows k (hlock ▸ hk) (h.knows o p k hp (hlock ▸ hk))

/-- A thread takes a lock that no other holds, and comes to a place of it. -/
theorem Guarded.acquire (h : Guarded u rows locks places) {k : K} {p : P} (hfree : free locks k o = true)
    (hp : u.lock p = some k) (hknows : u.knows p (rowsOf u.owner rows k)) :
    Guarded u rows (acquire locks k o) (put places o (some p)) := by
  have hheld : Guarded u rows (Locks.acquire locks k o) places :=
    { h with
      exclusive := h.exclusive.acquire hfree
      locked := fun o' p' k' hplace hp' => mem_acquire (h.locked o' p' k' hplace hp') }
  refine hheld.goto (fun k' hk' => ?_) fun k' hk' => ?_
  · obtain rfl : k = k' := Option.some.inj (hp.symm.trans hk')
    exact acquired locks k o
  · obtain rfl : k = k' := Option.some.inj (hp.symm.trans hk')
    exact hknows

/-- A thread ends, and its locks are released. -/
theorem Guarded.close (h : Guarded u rows locks places) (o : O) :
    Guarded u rows (release locks o) (put places o none) where
  exclusive := h.exclusive.release o
  locked := by
    intro o' p' k hplace hp'
    rcases put_cases hplace with ⟨-, hgone⟩ | ⟨hne, hthere⟩
    · cases hgone
    · exact mem_release hne (h.locked o' p' k hthere hp')
  knows := fun o' p' k hplace hp' => by
    rcases put_cases hplace with ⟨-, hgone⟩ | ⟨-, hthere⟩
    · cases hgone
    · exact h.knows o' p' k hthere hp'
  whole := h.whole

/-- A thread changes rows of the owner whose lock it holds, and ends. -/
theorem Guarded.finish (h : Guarded u rows locks places) {k : K} (hheld : (k, o) ∈ locks)
    (hothers : ∀ k', k' ≠ k → rowsOf u.owner rows' k' = rowsOf u.owner rows k')
    (hwhole : u.whole (rowsOf u.owner rows' k)) : Guarded u rows' (release locks o) (put places o none) :=
  { h.close o with
    knows := by
      intro o' p' k' hplace hp'
      rcases put_cases hplace with ⟨-, hgone⟩ | ⟨hne, hthere⟩
      · cases hgone
      · -- the lock of `k` is not this thread's
        have hk : k' ≠ k := by
          rintro rfl
          exact hne (h.exclusive _ _ _ (h.locked o' p' _ hthere hp') hheld)
        rw [hothers k' hk]
        exact h.knows o' p' k' hthere hp'
    whole := by
      intro k'
      by_cases hk : k' = k
      · rw [hk]
        exact hwhole
      · rw [hothers k' hk]
        exact h.whole k' }

omit [DecidableEq O] in
/-- Rows change without a lock, in a way that spoils nothing. -/
theorem Guarded.change (h : Guarded u rows locks places)
    (hknows : ∀ p k, u.knows p (rowsOf u.owner rows k) → u.knows p (rowsOf u.owner rows' k))
    (hwhole : ∀ k, u.whole (rowsOf u.owner rows k) → u.whole (rowsOf u.owner rows' k)) :
    Guarded u rows' locks places :=
  { h with
    knows := fun o p k hplace hp => hknows p k (h.knows o p k hplace hp)
    whole := fun k => hwhole k (h.whole k) }

end CiteVyn.Lib.OwnerLocks
