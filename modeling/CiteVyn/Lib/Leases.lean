import Mathlib.Algebra.Order.Group.Int
import Mathlib.Data.List.Pairwise
import Mathlib.Order.Basic

/-! # Leases

A key that is set only if it is not there, and that goes by itself some time later. Each
grant comes after the one before it has run out. -/
namespace CiteVyn.Lib.Leases

structure Lease where
  grantedAt : Int
  duration : Nat
  deriving DecidableEq, Repr

/-- The key has gone. -/
def Lease.Over (l : Lease) (now : Int) : Prop := l.grantedAt + l.duration < now

instance (l : Lease) (now : Int) : Decidable (l.Over now) := inferInstanceAs (Decidable (_ < _))

/-- Nobody has the key at `now`. -/
def Free (held : Option Lease) (now : Int) : Prop := ∀ l, held = some l → l.Over now

instance : (held : Option Lease) → (now : Int) → Decidable (Free held now)
  | none, _ => isTrue fun _ h => by cases h
  | some l, now => decidable_of_iff (l.Over now) ⟨fun h _ heq => Option.some.inj heq ▸ h, fun h => h l rfl⟩

/-- The two grants do not overlap. -/
def Lease.Apart (l l' : Lease) : Prop := l.Over l'.grantedAt ∨ l'.Over l.grantedAt

theorem Lease.Over.mono {l : Lease} {now now' : Int} (h : l.Over now) (hle : now ≤ now') : l.Over now' :=
  lt_of_lt_of_le h hle

theorem Lease.Over.grantedAt_lt {l : Lease} {now : Int} (h : l.Over now) : l.grantedAt < now :=
  lt_of_le_of_lt (le_add_of_nonneg_right (Int.natCast_nonneg _)) h

/-- The grants so far, the latest first, and the key. -/
structure Granted (now : Int) (held : Option Lease) (grants : List Lease) : Prop where
  spaced : grants.Pairwise fun later earlier => earlier.Over later.grantedAt
  held : held = grants.head?
  past : ∀ l ∈ grants, l.grantedAt ≤ now

theorem Granted.nil (now : Int) : Granted now none [] where
  spaced := .nil
  held := rfl
  past := fun _ h => by cases h

variable {now now' : Int} {held : Option Lease} {grants : List Lease}

theorem Granted.tick (h : Granted now held grants) (hle : now ≤ now') : Granted now' held grants :=
  ⟨h.spaced, h.held, fun l hl => (h.past l hl).trans hle⟩

/-- Every grant is over when the key is free. -/
theorem Granted.over (h : Granted now held grants) (hfree : Free held now) : ∀ l ∈ grants, l.Over now := by
  cases grants with
  | nil => exact fun _ hl => by cases hl
  | cons last grants =>
    have hlast := hfree last h.held
    refine List.forall_mem_cons.mpr ⟨hlast, fun l hl => ?_⟩
    exact ((List.pairwise_cons.mp h.spaced).1 l hl).mono (h.past last List.mem_cons_self)

theorem Granted.grant (h : Granted now held grants) (hfree : Free held now) (duration : Nat) :
    Granted now (some ⟨now, duration⟩) (⟨now, duration⟩ :: grants) where
  spaced := List.pairwise_cons.mpr ⟨h.over hfree, h.spaced⟩
  held := rfl
  past := List.forall_mem_cons.mpr ⟨le_rfl, h.past⟩

/-- A grant is none of those before it. -/
theorem Granted.grant_new (h : Granted now held grants) (hfree : Free held now) (duration : Nat) :
    ⟨now, duration⟩ ∉ grants := fun hmem => lt_irrefl now (h.over hfree _ hmem).grantedAt_lt

instance : Std.Symm Lease.Apart := ⟨fun _ _ h => h.symm⟩

theorem Granted.apart (h : Granted now held grants) {l l' : Lease} (hl : l ∈ grants) (hl' : l' ∈ grants) (hne : l ≠ l') :
    l.Apart l' :=
  (h.spaced.imp fun hover => show Lease.Apart _ _ from .inr hover).forall hl hl' hne

end CiteVyn.Lib.Leases
