import CiteVyn.Lib.Rewrite
import CiteVyn.Llm.CodeModes
import Mathlib.Data.List.Zip

/-! # Passes over a text and its mask

A rewriter of prose finds its places in the mask and edits the text. Here both are one list of
cells, so that a second pass can be asked about what the first one left: the line of a place
still starts a fence run or still does not. -/
namespace CiteVyn.Llm
open CiteVyn.Lib.Scan CiteVyn.Lib.Rewrite CiteVyn.Text

/-- A character of the text, and the character of the mask there: the same one, or the mask. -/
abbrev Cell := { c : Char × Char // c.2 = c.1 ∨ c.2 = codeMask }

namespace Cell

def text (c : Cell) : Char := c.val.1

def mask (c : Cell) : Char := c.val.2

def texts (s : List Cell) : Str := s.map text

def masks (s : List Cell) : Str := s.map mask

/-- Prose is its own mask. -/
def plain (c : Char) : Cell := ⟨(c, c), .inl rfl⟩

end Cell

open Cell

theorem mem_zip_mask {text : Str} {c : Char × Char} (h : c ∈ text.zip (maskCode text)) : c.2 = c.1 ∨ c.2 = codeMask := by
  have hz : (c.2, c.1) ∈ (maskCode text).zip text := by
    rw [← List.zip_swap, List.mem_map]
    exact ⟨c, h, rfl⟩
  exact List.forall₂_zip (maskOf_maskCode text) hz

def cells (text : Str) : List Cell := (text.zip (maskCode text)).attachWith _ fun _ h => mem_zip_mask h

def plainCells (s : Str) : List Cell := s.map plain

@[simp] theorem texts_append (a b : List Cell) : texts (a ++ b) = texts a ++ texts b := List.map_append

@[simp] theorem masks_append (a b : List Cell) : masks (a ++ b) = masks a ++ masks b := List.map_append

@[simp] theorem texts_cons (c : Cell) (s : List Cell) : texts (c :: s) = c.text :: texts s := rfl

@[simp] theorem masks_cons (c : Cell) (s : List Cell) : masks (c :: s) = c.mask :: masks s := rfl

@[simp] theorem texts_reverse (s : List Cell) : texts s.reverse = (texts s).reverse := List.map_reverse

@[simp] theorem masks_reverse (s : List Cell) : masks s.reverse = (masks s).reverse := List.map_reverse

@[simp] theorem texts_plainCells (s : Str) : texts (plainCells s) = s := by
  simp [texts, plainCells, text, plain, Function.comp_def]

@[simp] theorem masks_plainCells (s : Str) : masks (plainCells s) = s := by
  simp [masks, plainCells, mask, plain, Function.comp_def]

theorem cells_val (text : Str) : (cells text).map Subtype.val = text.zip (maskCode text) := by
  rw [cells, List.attachWith_map_subtype_val]

theorem texts_eq_map (s : List Cell) : texts s = (s.map Subtype.val).map Prod.fst := by
  rw [List.map_map]
  rfl

theorem masks_eq_map (s : List Cell) : masks s = (s.map Subtype.val).map Prod.snd := by
  rw [List.map_map]
  rfl

@[simp] theorem texts_cells (text : Str) : texts (cells text) = text := by
  rw [texts_eq_map, cells_val, List.map_fst_zip]
  rw [maskCode_length]

@[simp] theorem masks_cells (text : Str) : masks (cells text) = maskCode text := by
  rw [masks_eq_map, cells_val, List.map_snd_zip]
  rw [maskCode_length]

theorem cells_eq {text : Str} {s : List Cell} (ht : texts s = text) (hm : masks s = maskCode text) : cells text = s := by
  have hzip (l : List Cell) : l.map Subtype.val = (texts l).zip (masks l) :=
    List.zip_of_prod (texts_eq_map l).symm (masks_eq_map l).symm
  apply List.map_injective_iff.mpr Subtype.val_injective
  rw [hzip, hzip, texts_cells, masks_cells, ht, hm]

/-- Edits to prose are edits to the cells. -/
theorem cells_splice {text : Str} {es : List (Nat × Nat × Str)} (h : Edits (ProseEdit text (maskCode text)) 0 es) :
    cells (splice text 0 es) = splice (cells text) 0 (es.map fun x => (x.1, x.2.1, plainCells x.2.2)) := by
  have key (g : Cell → Char) (hg : ∀ c, g (plain c) = c) :
      (splice (cells text) 0 (es.map fun x => (x.1, x.2.1, plainCells x.2.2))).map g = splice ((cells text).map g) 0 es := by
    rw [splice_map, List.map_map]
    congr 1
    conv_rhs => rw [← List.map_id es]
    refine List.map_congr_left fun x _ => ?_
    have : (plainCells x.2.2).map g = x.2.2 := by simp [plainCells, Function.comp_def, hg]
    simp only [Function.comp_apply, this, id_eq]
  refine cells_eq ?_ ?_
  · rw [texts, key Cell.text fun _ => rfl]
    exact congrArg (fun s => splice s 0 es) (texts_cells text)
  · rw [masks, key Cell.mask fun _ => rfl, maskCode_splice h]
    exact congrArg (fun s => splice s 0 es) (masks_cells text)

/-- Where nothing is masked the mask is the text. -/
theorem texts_eq_masks {s : List Cell} (h : codeMask ∉ masks s) : texts s = masks s := by
  refine List.map_congr_left fun c hc => ?_
  rcases c.property with hm | hm
  · exact hm.symm
  · exact absurd (List.mem_map.mpr ⟨c, hc, hm⟩) h

/-! ## The line of a place -/

/-- The line up to a place. -/
def lineBefore (pre : List Cell) : Str := lastLine (texts pre).reverse

/-- The line around a place. -/
def lineAt (pre rest : List Cell) : Str := lineBefore pre ++ firstLine (texts rest)

/-- The line starts no fence run, whatever it goes on with. -/
def Settled (line : Str) : Prop := ∀ z, fenceRun (line ++ z) = none

/-- Prose that settles a line: it starts with neither white space nor a fence character. -/
structure Solid (w : List Cell) : Prop where
  line : '\n' ∉ texts w
  start : ∃ c, (texts w).head? = some c ∧ isSpace c = false ∧ isFenceChar c = false

/-- What comes before two places starts the line of a fence for both or for neither. -/
def SameStart (pre pre' : List Cell) : Prop :=
  lineBefore pre = lineBefore pre' ∨ (Settled (lineBefore pre) ∧ Settled (lineBefore pre'))

theorem Settled.append {line : Str} (h : Settled line) (s : Str) : Settled (line ++ s) := by
  intro z
  rw [List.append_assoc]
  exact h _

theorem settled_of_solid {p s : Str} {w w' : List Cell} (hw' : Solid w') (h : fenceRun (p ++ (texts w ++ s)) = none) :
    Settled (p ++ texts w') := by
  obtain ⟨c, hc, hs, hf⟩ := hw'.start
  intro z
  have hhead : (texts w' ++ z).head? = some c := by
    rw [List.head?_append, hc]
    rfl
  have := fenceRun_edit (p := p) (x := texts w ++ s) (z := []) hhead hs hf (by simpa using h)
  simpa using this

theorem lineBefore_cons (c : Cell) (pre : List Cell) :
    lineBefore (c :: pre) = if c.text = '\n' then [] else lineBefore pre ++ [c.text] := by
  unfold lineBefore
  rw [texts_cons, List.reverse_cons]
  split
  · rename_i hc
    rw [hc]
    exact lastLine_append_cons _ []
  · rename_i hc
    exact lastLine_append_of_not_mem (fun h => hc (List.mem_singleton.mp h).symm) _

theorem lineBefore_append {w : List Cell} (hw : '\n' ∉ texts w) (pre : List Cell) :
    lineBefore (w.reverse ++ pre) = lineBefore pre ++ texts w := by
  unfold lineBefore
  rw [texts_append, texts_reverse, List.reverse_append, List.reverse_reverse, lastLine_append_of_not_mem hw]

theorem lineAt_append {w : List Cell} (hw : '\n' ∉ texts w) (pre s : List Cell) :
    lineAt pre (w ++ s) = lineBefore pre ++ (texts w ++ firstLine (texts s)) := by
  rw [lineAt, texts_append, firstLine_append_of_not_mem hw]

theorem SameStart.cons {pre pre' : List Cell} (h : SameStart pre pre') (c : Cell) : SameStart (c :: pre) (c :: pre') := by
  unfold SameStart
  rw [lineBefore_cons, lineBefore_cons]
  split
  · exact .inl rfl
  · rcases h with h | ⟨h, h'⟩
    · exact .inl (by rw [h])
    · exact .inr ⟨h.append _, h'.append _⟩

/-- An edit on a line that starts no fence run settles the line, before and after it. -/
theorem SameStart.edit {pre pre' w s new : List Cell} (h : SameStart pre pre') (hw : Solid w) (hnew : Solid new)
    (hline : fenceRun (lineAt pre (w ++ s)) = none) : SameStart (w.reverse ++ pre) (new.reverse ++ pre') := by
  rw [lineAt_append hw.line] at hline
  refine .inr ⟨?_, ?_⟩
  · rw [lineBefore_append hw.line]
    exact settled_of_solid hw hline
  · rw [lineBefore_append hnew.line]
    rcases h with h | ⟨_, h⟩
    · rw [h] at hline
      exact settled_of_solid hnew hline
    · exact h.append _

theorem lineAt_cells {text : Str} {i j : Nat} (hij : i ≤ j) (h : '\n' ∉ slice text i j) :
    lineAt ((cells text).take i).reverse ((cells text).drop i) = lineAround text i j := by
  have htake : texts ((cells text).take i) = text.take i := by
    rw [texts, List.map_take]
    exact congrArg (List.take i) (texts_cells text)
  have hdrop : texts ((cells text).drop i) = text.drop i := by
    rw [texts, List.map_drop]
    exact congrArg (List.drop i) (texts_cells text)
  rw [lineAt, lineBefore, texts_reverse, List.reverse_reverse, htake, hdrop, lineAround, List.append_assoc,
    ← firstLine_append_of_not_mem h, slice_append_drop hij]

/-- A rewriter of prose: it edits only lines that start no fence run, from and to something
that settles them. -/
structure ProseRewriter (e : Rewriter Cell) : Prop where
  taking : Taking e
  edit : ∀ pre w s new, w ≠ [] → e pre (w ++ s) = some (w.length, new) →
    Solid w ∧ Solid new ∧ fenceRun (lineAt pre (w ++ s)) = none

theorem lineAt_nil (pre : List Cell) : lineAt pre [] = lineBefore pre := by
  rw [lineAt]
  exact List.append_nil _

theorem lineAt_newline {c : Cell} (hc : c.text = '\n') (pre s : List Cell) : lineAt pre (c :: s) = lineBefore pre := by
  rw [lineAt, texts_cons, hc, firstLine, List.takeWhile_cons_of_neg (by simp), List.append_nil]

theorem lineAt_cons {c : Cell} (hc : c.text ≠ '\n') (pre s : List Cell) : lineAt pre (c :: s) = lineAt (c :: pre) s := by
  have hnot : '\n' ∉ texts [c] := fun h => hc (List.mem_singleton.mp h).symm
  have := lineAt_append hnot pre s
  rw [List.singleton_append] at this
  rw [this, lineAt, lineBefore_cons, if_neg hc, List.append_assoc]
  rfl

theorem SameStart.fenceRun_before {pre pre' : List Cell} (h : SameStart pre pre') :
    fenceRun (lineBefore pre') = fenceRun (lineBefore pre) := by
  rcases h with h | ⟨h, h'⟩
  · rw [h]
  · have h1 := h []
    have h2 := h' []
    rw [List.append_nil] at h1 h2
    rw [h1, h2]

/-- **Fences stay.** The line of a place starts a fence run after the pass as it did before. -/
theorem ProseRewriter.fenceRun_lineAt {e : Rewriter Cell} (he : ProseRewriter e) (s pre pre' : List Cell)
    (h : SameStart pre pre') : fenceRun (lineAt pre' (rewriteFrom e pre 0 s)) = fenceRun (lineAt pre s) := by
  refine rewrite_rec he.taking (P := fun pre s => ∀ pre', SameStart pre pre' →
    fenceRun (lineAt pre' (rewriteFrom e pre 0 s)) = fenceRun (lineAt pre s)) ?_ ?_ ?_ s pre pre' h
  · intro pre pre' h
    rw [rewriteFrom, lineAt_nil, lineAt_nil, h.fenceRun_before]
  · intro pre c s hc ih pre' h
    rw [rewriteFrom_keep hc]
    by_cases hn : c.text = '\n'
    · rw [lineAt_newline hn, lineAt_newline hn, h.fenceRun_before]
    · rw [lineAt_cons hn, lineAt_cons hn, ih _ (h.cons c)]
  · intro pre w s new hw hedit ih pre' h
    obtain ⟨hsolid, hnew, hline⟩ := he.edit pre w s new hw hedit
    have hstart := h.edit hsolid hnew hline
    rw [rewriteFrom_edit hw hedit, hline, lineAt_append hnew.line, ← List.append_assoc,
      ← lineBefore_append hnew.line]
    -- the line is settled by what was written
    rw [lineAt_append hsolid.line] at hline
    rw [lineBefore_append hnew.line]
    rcases h with h | ⟨_, h⟩
    · rw [h] at hline
      exact settled_of_solid hnew hline _
    · exact h.append _ _

end CiteVyn.Llm
