import Mathlib.Logic.Function.Basic

/-! # Threads over a shared state

The threads of a system, each at a place of its own or not running. A step
moves one of them. -/
namespace CiteVyn.Lib.Threads

variable {W T : Type*}

/-- No thread is running. -/
def idle : W → Option T := fun _ => none

variable [DecidableEq W]

/-- The threads with one of them at another place, or gone. -/
def put (threads : W → Option T) (w : W) (t : Option T) : W → Option T :=
  Function.update threads w t

@[simp] theorem put_self (threads : W → Option T) (w : W) (t : Option T) : put threads w t w = t := by
  simp [put]

theorem put_of_ne (threads : W → Option T) {w w' : W} (t : Option T) (h : w' ≠ w) :
    put threads w t w' = threads w' := by
  simp [put, h]

/-- A thread put where it is. -/
theorem put_there (threads : W → Option T) (w : W) : put threads w (threads w) = threads := by
  simp [put]

/-- A thread that moves twice. -/
theorem put_put (threads : W → Option T) (w : W) (t t' : Option T) :
    put (put threads w t) w t' = put threads w t' := by
  simp [put]

/-- What each thread has, after one of them has moved. -/
theorem put_bind {K : Type*} (threads : W → Option T) (w : W) (t : Option T) (f : T → Option K) :
    (fun w' => (put threads w t w').bind f) = put (fun w' => (threads w').bind f) w (t.bind f) := by
  funext w'
  by_cases h : w' = w
  · subst h
    simp
  · rw [put_of_ne _ _ h, put_of_ne _ _ h]

/-- A thread after a step is the one that has moved, or one that was there. -/
theorem put_cases {threads : W → Option T} {w w' : W} {t : Option T} {t' : T}
    (h : put threads w t w' = some t') :
    (w' = w ∧ t = some t') ∨ (w' ≠ w ∧ threads w' = some t') := by
  by_cases hw : w' = w
  · subst hw
    exact .inl ⟨rfl, by rwa [put_self] at h⟩
  · exact .inr ⟨hw, by rwa [put_of_ne _ _ hw] at h⟩

/-- Only the thread that moves is running after the step, if no other was before. -/
theorem eq_of_put {threads : W → Option T} {w w' : W} {t : Option T} {t' : T}
    (honly : ∀ w' t', threads w' = some t' → w' = w) (h : put threads w t w' = some t') : w' = w := by
  rcases put_cases h with ⟨hmoved, -⟩ | ⟨-, hthere⟩
  · exact hmoved
  · exact honly w' t' hthere

/-- What holds of every thread, and of the one that moves, holds of every thread
after the step. -/
theorem forall_put {threads : W → Option T} {P : W → T → Prop} {w : W} {t : Option T}
    (h : ∀ w' t', threads w' = some t' → P w' t') (ht : ∀ t', t = some t' → P w t') :
    ∀ w' t', put threads w t w' = some t' → P w' t' := by
  intro w' t' h'
  rcases put_cases h' with ⟨rfl, hmoved⟩ | ⟨_, hthere⟩
  · exact ht t' hmoved
  · exact h w' t' hthere

/-- What holds of the thread that moves. -/
theorem forall_moved {P : T → Prop} {t : T} (h : P t) : ∀ t', some t = some t' → P t' := fun _ heq =>
  Option.some.inj heq ▸ h

/-- Nothing is to be shown of a thread that ends. -/
theorem forall_gone {P : T → Prop} : ∀ t', (none : Option T) = some t' → P t' := fun _ heq => by cases heq

end CiteVyn.Lib.Threads
