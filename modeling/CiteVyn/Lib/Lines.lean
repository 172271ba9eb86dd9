import Mathlib.Data.List.Basic

/-! # Texts written and read line by line

A text is written as items, each a few lines, and read from its last line to its
first. Where the lines of an item read as that item, the lines of all read as all. -/
namespace CiteVyn.Lib.Lines

variable {C I L S : Type*}

/-- What is read from the lines of an item, in a state that is ready for it. -/
structure Reads (read : L → S → S) (ready : S → Prop) (lines : List L) (add : S → S) : Prop where
  eq : ∀ s, ready s → lines.foldr read s = add s
  ready : ∀ s, ready s → ready (add s)

variable {read : L → S → S} {ready : S → Prop}

theorem Reads.nil : Reads read ready [] id := ⟨fun _ _ => rfl, fun _ h => h⟩

theorem Reads.append {lines lines' : List L} {add add' : S → S} (h : Reads read ready lines add)
    (h' : Reads read ready lines' add') : Reads read ready (lines ++ lines') (add ∘ add') where
  eq s hs := by
    rw [List.foldr_append, h'.eq s hs, h.eq _ (h'.ready s hs)]
    rfl
  ready s hs := h.ready _ (h'.ready s hs)

/-- The items are read one after the other. -/
theorem Reads.flatMap {write : I → List L} {add : I → S → S} {items : List I}
    (h : ∀ i ∈ items, Reads read ready (write i) (add i)) :
    Reads read ready (items.flatMap write) fun s => items.foldr add s := by
  induction items with
  | nil => exact Reads.nil
  | cons i items ih =>
    obtain ⟨hi, hitems⟩ := List.forall_mem_cons.mp h
    exact hi.append (ih hitems)

end CiteVyn.Lib.Lines
