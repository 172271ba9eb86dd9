import CiteVyn.Llm.Markers

/-! # The two modes of `_strip_code`

One mode masks code character by character, the other empties fenced lines and collapses spans.
Both go by the same lines: which of them are fenced is one list of flags, and an edit to prose
does not change it. -/
namespace CiteVyn.Llm
open CiteVyn.Lib.Scan CiteVyn.Text

/-! ## Fenced lines -/

/-- Which lines are replaced whole, from the fence that is open. -/
def fencedFrom : Option (Char × Nat) → List Str → List Bool
  | _, [] => []
  | some fence, line :: lines =>
    true :: fencedFrom (if closes line fence (longestBare fence.1 lines) then none else some fence) lines
  | none, line :: lines =>
    match fenceOpen line with
    | some (c, k, info) =>
      if simpleInfo c info || k ≤ longestBare c lines then true :: fencedFrom (some (c, k)) lines
      else false :: fencedFrom none lines
    | none => false :: fencedFrom none lines

/-- For each line of the text, whether `_strip_code` treats it as fenced. -/
def fencedLines (text : Str) : List Bool := fencedFrom none (splitLines text)

/-- What a line becomes, from whether it is fenced. -/
def strippedLine (keepOffsets fenced : Bool) (line : Str) : Str :=
  if fenced then blankLine keepOffsets line else proseLine keepOffsets line

theorem stripRest_fenced (keepOffsets : Bool) (lines : List Str) (st : Option (Char × Nat)) :
    stripRest keepOffsets st lines = List.zipWith (strippedLine keepOffsets) (fencedFrom st lines) lines := by
  induction lines generalizing st with
  | nil => cases st <;> rfl
  | cons line lines ih =>
    cases st with
    | some fence => simp only [stripRest, fencedFrom, List.zipWith_cons_cons, ih, strippedLine, if_true]
    | none =>
      cases ho : fenceOpen line with
      | none =>
        simp only [stripRest, fencedFrom, ho, List.zipWith_cons_cons, ih, strippedLine, Bool.false_eq_true, if_false]
      | some fence =>
        simp only [stripRest, fencedFrom, ho]
        split
        · simp only [List.zipWith_cons_cons, ih, strippedLine, if_true]
        · simp only [List.zipWith_cons_cons, ih, strippedLine, Bool.false_eq_true, if_false]

theorem fencedFrom_length (lines : List Str) (st : Option (Char × Nat)) :
    (fencedFrom st lines).length = lines.length := by
  induction lines generalizing st with
  | nil => cases st <;> rfl
  | cons line lines ih =>
    cases st with
    | some fence => simp only [fencedFrom, List.length_cons, ih]
    | none =>
      simp only [fencedFrom]
      split
      · split <;> simp only [List.length_cons, ih]
      · simp only [List.length_cons, ih]

/-- Two lines that a fence cannot tell apart. -/
def SameFence (line line' : Str) : Prop := line = line' ∨ (fenceRun line = none ∧ fenceRun line' = none)

theorem SameFence.trans {a b c : Str} (hab : SameFence a b) (hbc : SameFence b c) : SameFence a c := by
  rcases hab with rfl | ⟨ha, hb⟩
  · exact hbc
  · rcases hbc with rfl | ⟨_, hc⟩
    · exact .inr ⟨ha, hb⟩
    · exact .inr ⟨ha, hc⟩

theorem sameFence_trans {l₁ l₂ l₃ : List Str} (h : List.Forall₂ SameFence l₁ l₂) (h' : List.Forall₂ SameFence l₂ l₃) :
    List.Forall₂ SameFence l₁ l₃ := by
  induction h generalizing l₃ with
  | nil => exact h'
  | cons hline _ ih =>
    cases h' with
    | cons hline' hrest => exact .cons (hline.trans hline') (ih hrest)

theorem closes_eq_false {line : Str} (h : fenceRun line = none) (fence : Char × Nat) (n : Nat) :
    closes line fence n = false := by
  simp only [closes, h]

theorem longestBare_same {c : Char} {lines lines' : List Str} (h : List.Forall₂ SameFence lines lines') :
    longestBare c lines = longestBare c lines' := by
  induction h with
  | nil => rfl
  | cons hline _ ih =>
    rcases hline with rfl | ⟨h1, h2⟩
    · simp only [longestBare, ih]
    · simp only [longestBare, h1, h2, ih]

theorem fencedFrom_same {lines lines' : List Str} (h : List.Forall₂ SameFence lines lines')
    (st : Option (Char × Nat)) : fencedFrom st lines = fencedFrom st lines' := by
  induction h generalizing st with
  | nil => rfl
  | cons hline hrest ih =>
    have hbare := fun c => longestBare_same (c := c) hrest
    rcases hline with rfl | ⟨h1, h2⟩
    · cases st with
      | some fence => simp only [fencedFrom, hbare, ih]
      | none => simp only [fencedFrom, hbare, ih]
    · cases st with
      | some fence => simp only [fencedFrom, closes_eq_false h1, closes_eq_false h2, ih]
      | none => simp only [fencedFrom, fenceOpen_eq_none h1, fenceOpen_eq_none h2, ih]

/-! ## Edits to prose keep the fenced lines -/

/-- The lines of a text around a stretch that ends none. -/
theorem splitLines_around (a b : Str) :
    ∃ before after, ∀ x, '\n' ∉ x →
      splitLines (a ++ x ++ b) = before ++ (lastLine a ++ x ++ firstLine b) :: after := by
  obtain ⟨before, _, hbefore⟩ := splitLines_before a
  obtain ⟨after, _, hafter⟩ := splitLines_after b
  refine ⟨before, after, fun x hx => ?_⟩
  rw [List.append_assoc, hbefore, ← List.append_assoc, hafter]
  simp [newline_not_mem_lastLine, hx]

theorem lines_spliceFrom {text masked : Str} (es : List (Nat × Nat × Str)) (last : Nat) (done : Str)
    (h : Edits (ProseEdit text masked) last es) (hk : KeepsFenceFree (text.take last) done) :
    List.Forall₂ SameFence (splitLines (done ++ text.drop last)) (splitLines (done ++ splice text last es)) := by
  induction es generalizing last done with
  | nil => exact List.forall₂_same.mpr fun _ _ => .inl rfl
  | cons edit es ih =>
    obtain ⟨i, j, new⟩ := edit
    obtain ⟨hlast, he, hes⟩ := h
    obtain ⟨c, hc, hs, hf⟩ := he.start
    have hx : '\n' ∉ slice text i j := by
      rw [he.unmasked]
      exact he.old.line
    have hk' : KeepsFenceFree (text.take i) (done ++ slice text last i) :=
      take_append_slice (s := text) hlast ▸ hk.append (slice text last i)
    have hkj : KeepsFenceFree (text.take j) (done ++ slice text last i ++ new) := by
      rw [← take_append_slice he.le]
      exact hk'.edit hx he.fresh.line hc hs hf
    -- the line of the edit starts no fence run, before it and after it
    have hline : fenceRun (lastLine (done ++ slice text last i) ++ slice text i j ++ firstLine (text.drop j)) = none := by
      rw [List.append_assoc]
      refine hk' _ (by simp [hx, newline_not_mem_firstLine]) ?_
      simpa [lineAround] using he.line
    have hline' := fenceRun_edit hc hs hf hline
    obtain ⟨before, after, hlines⟩ := splitLines_around (done ++ slice text last i) (text.drop j)
    have hstep : List.Forall₂ SameFence (splitLines (done ++ text.drop last))
        (splitLines (done ++ slice text last i ++ new ++ text.drop j)) := by
      have hcut : done ++ text.drop last = done ++ slice text last i ++ slice text i j ++ text.drop j := by
        simp only [List.append_assoc, slice_append_drop he.le, slice_append_drop hlast]
      rw [hcut, hlines _ hx, hlines _ he.fresh.line]
      have hrefl : ∀ l : List Str, List.Forall₂ SameFence l l := fun l => List.forall₂_same.mpr fun _ _ => .inl rfl
      exact List.rel_append (hrefl before) (.cons (.inr ⟨hline, hline'⟩) (hrefl after))
    have hrest := ih j _ hes hkj
    have hsplice : done ++ splice text last ((i, j, new) :: es) =
        done ++ slice text last i ++ new ++ splice text j es := by
      simp only [splice, List.append_assoc]
    rw [hsplice]
    exact sameFence_trans hstep hrest

theorem fencedLines_splice {text : Str} {es : List (Nat × Nat × Str)}
    (h : Edits (ProseEdit text (maskCode text)) 0 es) : fencedLines (splice text 0 es) = fencedLines text := by
  have hk : KeepsFenceFree (text.take 0) [] := fun z _ hf => by simpa [lastLine] using hf
  have := lines_spliceFrom es 0 [] h hk
  simp only [List.nil_append, List.drop_zero] at this
  exact (fencedFrom_same this none).symm

/-! ## Lines and positions of the two modes -/

theorem newline_not_mem_splitLines (text : Str) : ∀ line ∈ splitLines text, '\n' ∉ line :=
  fun _ hline => (mem_splitOn hline).1

theorem newline_not_mem_strippedLine {line : Str} (h : '\n' ∉ line) (keepOffsets fenced : Bool) :
    '\n' ∉ strippedLine keepOffsets fenced line := by
  -- what stands for code ends no line
  have hmask : ∀ n, '\n' ∉ List.replicate n codeMask := fun n hn => by cases (List.mem_replicate.mp hn).2
  unfold strippedLine
  split
  · unfold blankLine
    split
    · exact hmask _
    · exact List.not_mem_nil
  · unfold proseLine sub
    intro hmem
    obtain ⟨piece, hpiece, hc⟩ := List.mem_flatMap.mp hmem
    cases piece with
    | gap c =>
      obtain rfl := List.mem_singleton.mp hc
      refine h ?_
      rw [← flatMap_text_pieces inlineCode line]
      exact List.mem_flatMap.mpr ⟨_, hpiece, List.mem_singleton_self _⟩
    | hit w =>
      simp only [Piece.render] at hc
      split at hc
      · exact hmask _ hc
      · exact absurd (List.mem_singleton.mp hc) (by decide)

/-- Each line of the text is one line of the result. -/
theorem splitLines_stripCode (text : Str) (keepOffsets : Bool) :
    splitLines (stripCode text keepOffsets) =
      List.zipWith (strippedLine keepOffsets) (fencedLines text) (splitLines text) := by
  rw [stripCode_eq, stripRest_fenced, joinLines, splitLines, fencedLines]
  apply List.splitOn_intercalate
  · intro line hline
    obtain ⟨i, hi, rfl⟩ := List.mem_iff_getElem.mp hline
    rw [List.getElem_zipWith]
    exact newline_not_mem_strippedLine (newline_not_mem_splitLines text _ (List.getElem_mem _)) _ _
  · intro hnil
    have hlen := congrArg List.length hnil
    rw [List.length_zipWith, fencedFrom_length, Nat.min_self, List.length_nil] at hlen
    exact List.splitOn_ne_nil '\n' text (List.length_eq_zero_iff.mp hlen)

theorem splitLines_stripCode_length (text : Str) (keepOffsets : Bool) :
    (splitLines (stripCode text keepOffsets)).length = (splitLines text).length := by
  rw [splitLines_stripCode, List.length_zipWith, fencedLines, fencedFrom_length, Nat.min_self]

/-- **The two modes agree.** The mask is as long as the text and differs from it only where it
masks; emptied and masked text have the same lines and hold the same markers. -/
theorem stripCode_modes (text : Str) :
    (stripCode text true).length = text.length ∧
      (∀ i : Nat, (stripCode text true)[i]? = text[i]? ∨ (stripCode text true)[i]? = some codeMask) ∧
        (splitLines (stripCode text true)).length = (splitLines (stripCode text false)).length ∧
          citations (stripCode text true) = citations (stripCode text false) := by
  refine ⟨maskCode_length text, fun i => ?_, ?_, (citations_stripCode text).symm⟩
  · have hmask := maskOf_maskCode text
    rcases Nat.lt_or_ge i text.length with hi | hi
    · have hi' : i < (maskCode text).length := by rw [maskCode_length]; exact hi
      have := (List.forall₂_iff_get.mp hmask).2 i hi' hi
      rw [← maskCode, List.getElem?_eq_getElem hi', List.getElem?_eq_getElem hi]
      rcases this with h | h
      · exact .inl (congrArg some h)
      · exact .inr (congrArg some h)
    · rw [← maskCode, List.getElem?_eq_none hi, List.getElem?_eq_none (by rw [maskCode_length]; exact hi)]
      exact .inl rfl
  · rw [splitLines_stripCode_length, splitLines_stripCode_length]

end CiteVyn.Llm
