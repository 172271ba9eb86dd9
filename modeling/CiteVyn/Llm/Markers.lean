import CiteVyn.Llm.CodeFrame

/-! # Citation markers

`_CITATION_RE`, `_cited_markers`, `_GROUPED_MARKER_RE` and
`expand_grouped_markers` of `app/llm/validation.py`. A marker cannot be split
by anything that is neither a bracket nor a digit, nor before an opening or
after a closing bracket: that is how the scans of two texts are compared. -/
namespace CiteVyn.Llm
open CiteVyn.Lib.Scan CiteVyn.Text

/-- `_CITATION_RE`. -/
def citation : Pattern Char := fun _ rest =>
  match rest with
  | [] => none
  | c :: cs =>
    let digits := cs.takeWhile isDecimal
    if c != '[' || digits.isEmpty || (cs.drop digits.length).head? != some ']' then none
    else some (digits.length + 2)

/-- Group 1 of a citation: what the brackets hold. -/
def citationDigits (marker : Str) : Str := (marker.drop 1).dropLast

/-- `_CITATION_RE.findall`. -/
def citations (text : Str) : List Str := (findall citation text).map citationDigits

/-- `_cited_markers`: the markers outside markdown code, or of the whole text
when there are none. -/
def citedMarkers (answerText : Str) : List Str :=
  let stripped := citations (stripCode answerText false)
  if stripped.isEmpty then citations answerText else stripped

/-- Where `_GROUPED_MARKER_RE` is after its opening bracket. -/
inductive GroupState where
  | start
  /-- In a number; whether a comma came before it. -/
  | number (comma : Bool)
  | beforeComma
  | afterComma
  deriving Repr, DecidableEq

/-- `_GROUPED_MARKER_RE` after its opening bracket: the offset past the closing
one. `[0-9]+`, then one or more times a comma, blanks around it, and
`[0-9]+`. -/
def groupEnd : GroupState → Nat → Str → Option Nat
  | _, _, [] => none
  | .start, n, c :: cs => if isAsciiDigit c then groupEnd (.number false) (n + 1) cs else none
  | .number comma, n, c :: cs =>
    if isAsciiDigit c then groupEnd (.number comma) (n + 1) cs
    else if c == ',' then groupEnd .afterComma (n + 1) cs
    else if isBlank c then groupEnd .beforeComma (n + 1) cs
    else if c == ']' && comma then some (n + 1)
    else none
  | .beforeComma, n, c :: cs =>
    if isBlank c then groupEnd .beforeComma (n + 1) cs
    else if c == ',' then groupEnd .afterComma (n + 1) cs
    else none
  | .afterComma, n, c :: cs =>
    if isBlank c then groupEnd .afterComma (n + 1) cs
    else if isAsciiDigit c then groupEnd (.number true) (n + 1) cs
    else none

/-- `_GROUPED_MARKER_RE`. -/
def groupedMarker : Pattern Char := fun _ rest =>
  match rest with
  | [] => none
  | c :: cs => if c == '[' then groupEnd .start 1 cs else none

/-- `_DIGITS_RE`. -/
def asciiDigits : Pattern Char := fun _ rest =>
  let n := (rest.takeWhile isAsciiDigit).length
  if n == 0 then none else some n

/-- `"".join(f"[{n}]" for n in _DIGITS_RE.findall(group))`. -/
def singleMarkers (group : Str) : Str :=
  (findall asciiDigits group).flatMap fun n => '[' :: n ++ [']']

/-- The edits `expand_grouped_markers` makes: every group outside code that is
not on a line starting with a fence run. -/
def groupEdits (text : Str) : List (Nat × Nat × Str) :=
  let masked := maskCode text
  (finditer groupedMarker masked).filterMap fun (i, j) =>
    if (fenceRun (lineAround text i j)).isSome then none
    else some (i, j, singleMarkers (slice masked i j))

/-- `expand_grouped_markers`. -/
def expandGroupedMarkers (text : Str) : Str := splice text 0 (groupEdits text)

example : expandGroupedMarkers "a [1, 2] `x[3,4]`".toList = "a [1][2] `x[3,4]`".toList := by
  decide +kernel

/-! ## Where a text can be cut without cutting a marker -/

/-- A character no marker holds. -/
def isMarkerFree (c : Char) : Bool := c != '[' && c != ']' && !isDecimal c

theorem isDecimal_close : isDecimal ']' = false := by decide

theorem citation_pre (p q s : Str) : citation p s = citation q s := rfl

theorem citation_append_of_stop {cs : Str} {d : Char} (hd : d ∈ cs) (hdec : isDecimal d = false)
    (pre b : Str) (c : Char) : citation pre (c :: cs ++ b) = citation pre (c :: cs) := by
  have hne : (cs.takeWhile isDecimal).length ≠ cs.length := by
    intro h
    have := List.IsPrefix.eq_of_length (List.takeWhile_prefix isDecimal) h
    rw [← this] at hd
    simp [List.mem_takeWhile_imp hd] at hdec
  have hle := (List.takeWhile_prefix isDecimal (l := cs)).length_le
  simp only [List.cons_append, citation, List.takeWhile_append, if_neg hne]
  rw [List.drop_append_of_le_length hle, List.head?_append_of_ne_nil]
  intro h
  exact hne (by have := congrArg List.length h; simp at this; omega)

/-- A marker is brackets around decimal digits, at least one. -/
theorem citation_spec {pre s : Str} {n : Nat} (h : citation pre s = some n) :
    ∃ ds rest, s = '[' :: ds ++ ']' :: rest ∧ ds ≠ [] ∧ ds.all isDecimal = true ∧
      n = ds.length + 2 := by
  cases s with
  | nil => cases h
  | cons c cs =>
    simp only [citation] at h
    split at h
    · cases h
    · rename_i hc
      simp only [Bool.or_eq_true, bne_iff_ne, ne_eq, not_or, Decidable.not_not,
        List.isEmpty_iff] at hc
      obtain ⟨⟨rfl, hne⟩, hclose⟩ := hc
      obtain ⟨rest, hrest⟩ := List.head?_eq_some_iff.mp hclose
      refine ⟨cs.takeWhile isDecimal, rest, ?_, hne, List.all_takeWhile, (Option.some.inj h).symm⟩
      have htake := List.prefix_iff_eq_take.mp (List.takeWhile_prefix isDecimal (l := cs))
      have hcs := List.take_append_drop (cs.takeWhile isDecimal).length cs
      rw [← htake, hrest] at hcs
      rw [List.cons_append, hcs]

theorem citation_le {pre s : Str} {n : Nat} (h : citation pre s = some n) : n ≤ s.length := by
  obtain ⟨ds, rest, rfl, _, _, rfl⟩ := citation_spec h
  simp

/-- No marker crosses into a text that starts with neither a digit nor `]`. -/
theorem separates_right {a b pre : Str}
    (hb : ∀ c, b.head? = some c → c ≠ ']' ∧ isDecimal c = false) : Separates citation pre a b := by
  intro p s _ hs
  refine ⟨?_, fun n hn => citation_le hn⟩
  obtain ⟨c, cs, rfl⟩ := List.exists_cons_of_ne_nil hs
  by_cases hall : ∃ d ∈ cs, isDecimal d = false
  · obtain ⟨d, hd, hdec⟩ := hall
    exact citation_append_of_stop hd hdec _ b c
  · have htake : cs.takeWhile isDecimal = cs := by
      rw [List.takeWhile_eq_self_iff]
      intro d hd
      by_contra h
      exact hall ⟨d, hd, by simpa using h⟩
    cases b with
    | nil => simp
    | cons d ds =>
      obtain ⟨h1, h2⟩ := hb d rfl
      have : (cs ++ d :: ds).takeWhile isDecimal = cs := by
        rw [List.takeWhile_append, htake, if_pos rfl]
        simp [h2]
      simp only [List.cons_append, citation, this, htake]
      simp [h1]

/-- No marker crosses out of a text that ends with neither a digit nor `[`. -/
theorem separates_left {a b pre : Str}
    (ha : ∀ c, a.getLast? = some c → c ≠ '[' ∧ isDecimal c = false) : Separates citation pre a b := by
  intro p s hps hs
  refine ⟨?_, fun n hn => citation_le hn⟩
  obtain ⟨c, cs, rfl⟩ := List.exists_cons_of_ne_nil hs
  obtain ⟨h1, h2⟩ := ha ((c :: cs).getLast hs) (by
    rw [hps, List.getLast?_append_of_ne_nil _ hs, List.getLast?_eq_some_getLast hs])
  cases cs with
  | nil =>
    have hc : c ≠ '[' := h1
    simp [citation, hc]
  | cons d ds =>
    exact citation_append_of_stop (List.getLast_mem (by simp)) (by simpa using h2) _ b c

theorem citations_append {a b : Str} (h : Separates citation [] a b) :
    citations (a ++ b) = citations a ++ citations b := by
  simp [citations, findall_append citation_pre h]

theorem citations_free {s : Str} (h : '[' ∉ s) : citations s = [] := by
  unfold citations findall pieces
  rw [hits_piecesFrom_nil s []]
  · rfl
  · intro p t hs ht
    obtain ⟨c, cs, rfl⟩ := List.exists_cons_of_ne_nil ht
    have hc : c ≠ '[' := by
      rintro rfl
      exact h (by simp [hs])
    simp [citation, hc]

/-- A stretch without brackets and digits splits the scan. -/
theorem citations_isolated {s : Str} (hs : s ≠ []) (h : s.all isMarkerFree = true) (p r : Str) :
    citations (p ++ s ++ r) = citations p ++ citations r := by
  have hmem (c : Char) (hc : c ∈ s) : c ≠ '[' ∧ c ≠ ']' ∧ isDecimal c = false := by
    simpa [isMarkerFree, and_assoc] using List.all_eq_true.mp h c hc
  rw [citations_append, citations_append, citations_free (s := s), List.append_nil]
  · exact fun hm => (hmem _ hm).1 rfl
  · refine separates_right fun c hc => ?_
    have := hmem c (List.mem_of_head? hc)
    exact this.2
  · refine separates_left fun c hc => ?_
    rw [List.getLast?_append_of_ne_nil _ hs] at hc
    have := hmem c (List.mem_of_getLast? hc)
    exact ⟨this.1, this.2.2⟩

/-! ## The two renderings of code hold the same markers -/

theorem citations_joinLines : ∀ lines : List Str, citations (joinLines lines) = lines.flatMap citations
  | [] => rfl
  | [line] => by simp [joinLines]
  | line :: next :: lines => by
    have ih := citations_joinLines (next :: lines)
    have := citations_isolated (s := ['\n']) (by simp) (by decide) line (joinLines (next :: lines))
    rw [ih] at this
    rw [List.flatMap_cons, ← this]
    simp [joinLines, List.intercalate_cons_cons]

theorem citations_replicate_mask (n : Nat) : citations (List.replicate n codeMask) = [] :=
  citations_free fun h => by cases (List.mem_replicate.mp h).2

/-- Whatever stretch without markers stands for each match, the markers
between the matches are read the same. -/
theorem citations_render {f g : Str → Str} : ∀ (ps : List (Piece Char)),
    (∀ w, .hit w ∈ ps → (f w ≠ [] ∧ (f w).all isMarkerFree = true) ∧
      (g w ≠ [] ∧ (g w).all isMarkerFree = true)) →
    ∀ p, citations (p ++ ps.flatMap (Piece.render f)) = citations (p ++ ps.flatMap (Piece.render g))
  | [], _, _ => rfl
  | .gap c :: ps, h, p => by
    have := citations_render ps (fun w hw => h w (List.mem_cons_of_mem _ hw)) (p ++ [c])
    simpa [Piece.render] using this
  | .hit w :: ps, h, p => by
    obtain ⟨⟨hf, hf'⟩, hg, hg'⟩ := h w List.mem_cons_self
    have ih := citations_render ps (fun w hw => h w (List.mem_cons_of_mem _ hw)) []
    simp only [List.nil_append] at ih
    simp only [List.flatMap_cons, Piece.render, ← List.append_assoc]
    rw [citations_isolated hf hf', citations_isolated hg hg', ih]

theorem citations_proseLine (line : Str) :
    citations (proseLine false line) = citations (proseLine true line) := by
  unfold proseLine sub
  have hspace : [' '].all isMarkerFree = true := by decide
  refine citations_render (pieces inlineCode line)
    (fun w hw => ⟨⟨List.cons_ne_nil _ _, hspace⟩, ?_, ?_⟩) []
  · obtain ⟨_, _, _, _, _, _, hne⟩ := exists_of_mem_hits _ _ _ (mem_hits_of_mem _ hw)
    simpa using hne
  · rw [List.all_eq_true]
    intro c hc
    obtain rfl := (List.mem_replicate.mp hc).2
    decide

theorem citations_blankLine (keepOffsets : Bool) (line : Str) :
    citations (blankLine keepOffsets line) = [] := by
  cases keepOffsets
  · rfl
  · exact citations_replicate_mask _

theorem citations_stripRest : ∀ (lines : List Str) (st : Option (Char × Nat)),
    (stripRest false st lines).flatMap citations = (stripRest true st lines).flatMap citations
  | [], st => by cases st <;> rfl
  | line :: lines, some fence => by
    simp only [stripRest, List.flatMap_cons, citations_blankLine, citations_stripRest lines]
  | line :: lines, none => by
    simp only [stripRest]
    split
    · split <;>
        simp only [List.flatMap_cons, citations_blankLine, citations_proseLine,
          citations_stripRest lines]
    · simp only [List.flatMap_cons, citations_proseLine, citations_stripRest lines]

/-- The stripped text and the mask hold the same markers. -/
theorem citations_stripCode (text : Str) :
    citations (stripCode text false) = citations (maskCode text) := by
  rw [maskCode, stripCode_eq, stripCode_eq, citations_joinLines, citations_joinLines,
    citations_stripRest]

/-! ## A text without code -/

/-- One line without backticks and tildes is all prose. -/
theorem stripCode_plain {text : Str} (ht : '`' ∉ text) (hw : '~' ∉ text) (hl : '\n' ∉ text) :
    stripCode text false = text := by
  have hfence : fenceRun text = none := by
    rw [fenceRun_eq_none_iff]
    intro c rest hc hs
    have hmem : c ∈ text := (List.dropWhile_suffix isSpace).subset (by
      rw [show text.dropWhile isSpace = lstrip text from rfl, hs]
      exact List.mem_cons_self)
    simp only [isFenceChar, Bool.or_eq_true, beq_iff_eq] at hc
    rcases hc with rfl | rfl
    · exact ht hmem
    · exact hw hmem
  have hprose : proseLine false text = text := by
    refine render_of_no_match _ text [] fun p t hpt htn => ?_
    obtain ⟨c, cs, rfl⟩ := List.exists_cons_of_ne_nil htn
    have hc : c ≠ '`' := by
      rintro rfl
      exact ht (by simp [hpt])
    simp only [inlineCode, List.takeWhile_cons, beq_iff_eq, hc, if_false, List.length_nil]
    split <;> rfl
  have hlines : splitLines text = [text] := List.splitOn_eq_singleton hl
  rw [stripCode_eq, hlines]
  simp [stripRest, fenceOpen_eq_none hfence, hprose, joinLines]

/-- A text that is one marker holds that marker. -/
theorem citedMarkers_marker {ds : Str} (hne : ds ≠ []) (hds : ds.all isDecimal = true) :
    citedMarkers ('[' :: ds ++ [']']) = [ds] := by
  have hmem (c : Char) (h1 : c ≠ '[') (h2 : c ≠ ']') (h3 : isDecimal c = false) :
      c ∉ '[' :: ds ++ [']'] := by
    intro hc
    simp only [List.cons_append, List.mem_cons, List.mem_append, List.not_mem_nil, or_false] at hc
    rcases hc with rfl | hc | rfl
    · exact h1 rfl
    · rw [List.all_eq_true.mp hds c hc] at h3
      cases h3
    · exact h2 rfl
  have htake : (ds ++ [']']).takeWhile isDecimal = ds := by
    rw [List.takeWhile_append_of_pos fun c hc => List.all_eq_true.mp hds c hc]
    simp [isDecimal_close]
  have hmatch : citation [] ('[' :: ds ++ [']']) = some (ds.length + 1 + 1) := by
    simp [citation, htake, hne]
  have hcit : citations ('[' :: ds ++ [']']) = [ds] := by
    unfold citations findall pieces
    rw [piecesFrom_hit (by simp) hmatch, List.take_of_length_le (by simp),
      List.drop_of_length_le (by simp)]
    simp [piecesFrom, hits, citationDigits]
  have hplain : stripCode ('[' :: ds ++ [']']) false = '[' :: ds ++ [']'] :=
    stripCode_plain (hmem _ (by decide) (by decide) (by decide))
      (hmem _ (by decide) (by decide) (by decide)) (hmem _ (by decide) (by decide) (by decide))
  simp only [citedMarkers, hplain, hcit, List.isEmpty_cons, Bool.false_eq_true, if_false]

end CiteVyn.Llm
