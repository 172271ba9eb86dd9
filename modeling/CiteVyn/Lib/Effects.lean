import Mathlib.Tactic.Common

/-! # Computations that change a state and may fail

What a failed computation has done to the state stays done. An invariant of the
state that each part of a computation keeps is kept by the whole, whichever way
it ends. -/
namespace CiteVyn.Lib.Effects

variable {S E A B : Type}

/-- What comes before a result. -/
theorem bind_eq_ok {x : Except E A} {f : A → Except E B} {b : B} (h : x >>= f = .ok b) :
    ∃ a, x = .ok a ∧ f a = .ok b := by
  cases x with
  | error e => cases h
  | ok a => exact ⟨a, rfl, h⟩

/-- What a result is made from. -/
theorem map_eq_ok {x : Except E A} {f : A → B} {b : B} (h : x.map f = .ok b) : ∃ a, x = .ok a ∧ f a = b := by
  cases x with
  | error e => cases h
  | ok a => exact ⟨a, rfl, Except.ok.inj h⟩

/-- Where nothing fails every item has its result. -/
theorem mapM_eq_pure {m : Type → Type} [Monad m] [LawfulMonad m] {f : A → m B} {g : A → B} {xs : List A}
    (h : ∀ x ∈ xs, f x = pure (g x)) : xs.mapM f = pure (xs.map g) := by
  induction xs with
  | nil => exact List.mapM_nil
  | cons x xs ih =>
    obtain ⟨hx, hxs⟩ := List.forall_mem_cons.mp h
    rw [List.mapM_cons, hx, pure_bind, ih hxs, pure_bind]
    rfl

/-! ## One item after another -/

/-- An item with `p` comes after items that are all `ok`. -/
def Reaches (ok p : A → Prop) : List A → Prop
  | [] => False
  | x :: xs => p x ∨ ok x ∧ Reaches ok p xs

theorem Reaches.congr {ok ok' p p' : A → Prop} (hok : ∀ x, ok x ↔ ok' x) (hp : ∀ x, p x ↔ p' x) (xs : List A) :
    Reaches ok p xs ↔ Reaches ok' p' xs := by
  rw [show ok = ok' from funext fun x => propext (hok x), show p = p' from funext fun x => propext (hp x)]

theorem mapM_cons_eq_ok {f : A → Except E B} {x : A} {xs : List A} {bs : List B} (h : (x :: xs).mapM f = .ok bs) :
    ∃ b bs', f x = .ok b ∧ xs.mapM f = .ok bs' ∧ bs = b :: bs' := by
  rw [List.mapM_cons] at h
  obtain ⟨b, hb, h⟩ := bind_eq_ok h
  obtain ⟨bs', hbs, h⟩ := bind_eq_ok h
  exact ⟨b, bs', hb, hbs, (Except.ok.inj h).symm⟩

theorem length_of_mapM {f : A → Except E B} : ∀ {xs : List A} {bs : List B}, xs.mapM f = .ok bs → bs.length = xs.length
  | [], bs, h => by
    obtain rfl := Except.ok.inj h
    rfl
  | x :: xs, bs, h => by
    obtain ⟨b, bs', -, hbs, rfl⟩ := mapM_cons_eq_ok h
    rw [List.length_cons, List.length_cons, length_of_mapM hbs]

/-- The results are those of the items, in their order. -/
theorem forall₂_of_mapM {f : A → Except E B} : ∀ {xs : List A} {bs : List B}, xs.mapM f = .ok bs →
    List.Forall₂ (fun x b => f x = .ok b) xs bs
  | [], bs, h => by
    obtain rfl := Except.ok.inj h
    exact .nil
  | x :: xs, bs, h => by
    obtain ⟨b, bs', hx, hbs, rfl⟩ := mapM_cons_eq_ok h
    exact .cons hx (forall₂_of_mapM hbs)

theorem mapM_eq_ok_iff {f : A → Except E B} (xs : List A) :
    (∃ bs, xs.mapM f = .ok bs) ↔ ∀ x ∈ xs, ∃ b, f x = .ok b := by
  induction xs with
  | nil => exact iff_of_true ⟨[], rfl⟩ fun x hx => absurd hx List.not_mem_nil
  | cons x xs ih =>
    rw [List.forall_mem_cons, ← ih, List.mapM_cons]
    cases f x with
    | error e => simp [bind, Except.bind]
    | ok b =>
      cases xs.mapM f with
      | error e => simp [bind, Except.bind]
      | ok bs => simp [bind, Except.bind, pure, Except.pure]

/-! ## Effects -/

abbrev Effect (S E A : Type) := ExceptT E (StateM S) A

/-- What a computation returns, and the state it leaves. -/
def perform (m : Effect S E A) (s : S) : Except E A × S := m s

/-- The invariant holds after the computation if it holds before. -/
def Keeps (P : S → Prop) (m : Effect S E A) : Prop := ∀ s, P s → P (perform m s).2

theorem Keeps.pure {P : S → Prop} (a : A) : Keeps P (pure a : Effect S E A) := fun _ h => h

theorem Keeps.throw {P : S → Prop} (e : E) : Keeps P (throw e : Effect S E A) := fun _ h => h

/-- A result that leaves the state alone. -/
theorem Keeps.ofExcept {P : S → Prop} (x : Except E A) : Keeps P (ofExcept x : Effect S E A) := by
  cases x with
  | error e => exact Keeps.throw e
  | ok a => exact Keeps.pure a

theorem perform_bind (m : Effect S E A) (f : A → Effect S E B) (s : S) :
    perform (m >>= f) s = match perform m s with
      | (.ok a, s') => perform (f a) s'
      | (.error e, s') => (.error e, s') := by
  show (ExceptT.bindCont f (m s).1) (m s).2 = _
  unfold perform
  obtain ⟨x, s'⟩ := m s
  cases x <;> rfl

theorem Keeps.bind {P : S → Prop} {m : Effect S E A} {f : A → Effect S E B} (hm : Keeps P m)
    (hf : ∀ a, Keeps P (f a)) : Keeps P (m >>= f) := by
  intro s h
  have hs := hm s h
  rw [perform_bind]
  split
  · rename_i a s' heq
    rw [heq] at hs
    exact hf a s' hs
  · rename_i e s' heq
    rw [heq] at hs
    exact hs

/-! ## Triples -/

/-- From a state that meets `P` the computation returns a result that meets `Q` with
the state it leaves, or fails with an error that meets `F` with it. -/
def Triple (P : S → Prop) (m : Effect S E A) (Q : A → S → Prop) (F : E → S → Prop) : Prop :=
  ∀ s, P s → match perform m s with
    | (.ok a, s') => Q a s'
    | (.error e, s') => F e s'

variable {P P' : S → Prop} {Q Q' : A → S → Prop} {F F' : E → S → Prop}

theorem Triple.pure {a : A} (h : ∀ s, P s → Q a s) : Triple P (pure a : Effect S E A) Q F := h

theorem Triple.throw {e : E} (h : ∀ s, P s → F e s) : Triple P (throw e : Effect S E A) Q F := h

theorem Triple.get {F : E → S → Prop} : Triple P (get : Effect S E S) (fun a s => P s ∧ a = s) F := fun _ hs => ⟨hs, rfl⟩

theorem Triple.bind {R : B → S → Prop} {m : Effect S E A} {f : A → Effect S E B} (hm : Triple P m Q F)
    (hf : ∀ a, Triple (Q a) (f a) R F) : Triple P (m >>= f) R F := by
  intro s hs
  have hfirst := hm s hs
  rw [perform_bind]
  rcases hresult : perform m s with ⟨_ | a, s'⟩
  · rw [hresult] at hfirst
    exact hfirst
  · rw [hresult] at hfirst
    exact hf a s' hfirst

theorem Triple.weaken {m : Effect S E A} (h : Triple P m Q F) (hP : ∀ s, P' s → P s) (hQ : ∀ a s, Q a s → Q' a s)
    (hF : ∀ e s, F e s → F' e s) : Triple P' m Q' F' := by
  intro s hs
  have hrun := h s (hP s hs)
  rcases hresult : perform m s with ⟨e | a, s'⟩
  · rw [hresult] at hrun
    exact hF e s' hrun
  · rw [hresult] at hrun
    exact hQ a s' hrun

end CiteVyn.Lib.Effects
