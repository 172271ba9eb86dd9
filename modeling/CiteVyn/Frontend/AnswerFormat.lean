import CiteVyn.Text.Occurrences
import Mathlib.Algebra.Ring.Nat

/-! # The Markdown subset of the chat

`lib/answerFormat.ts`: an answer as paragraphs and lists of spans. The parser runs over any
texts whose elements have a character. It reads every bracketed number outside its inline
code as a citation marker: neither bold nor a bullet nor the end of a line hides one. -/
namespace CiteVyn.Frontend.AnswerFormat
open CiteVyn.Text

/-- `Span`. A marker is kept by its digits, of which `markerValue` makes its `value`. -/
inductive Span (G : Type) where
  | text (value : List G)
  | code (value : List G)
  | marker (digits : List G)
  | bold (spans : List (Span G))

/-- `Block` -/
inductive Block (G : Type) where
  | para (spans : List (Span G))
  | list (items : List (List (Span G)))

/-- `String(Number(digits))`: exact for the integers that a double holds. -/
structure Numbers where
  string : Str → Str
  exact : ∀ ds, ds ≠ [] → ds.all isAsciiDigit → digitsValue ds < 2 ^ 53 → string ds = Nat.toDigits 10 (digitsValue ds)

section Parser
variable {G : Type} (ch : G → Char)

/-- Two asterisks come next. -/
def isStars : List G → Bool
  | c :: d :: _ => ch c = '*' && ch d = '*'
  | _ => false

/-- `line.indexOf("**")` -/
def indexOfStars : List G → Option Nat
  | [] => none
  | c :: rest => if isStars ch (c :: rest) then some 0 else (indexOfStars rest).map (· + 1)

/-- ``line.indexOf("`")`` -/
def indexOfTick (line : List G) : Option Nat := line.findIdx? fun c => ch c = '`'

def pushText (spans : List (Span G)) (value : List G) : List (Span G) :=
  match spans.getLast? with
  | some (.text last) => spans.dropLast ++ [.text (last ++ value)]
  | _ => spans ++ [.text value]

/-- `parseInline`, with the passes of its loop that are left and the spans so far. -/
def parseFrom : Nat → List (Span G) → List G → List (Span G)
  | 0, spans, _ => spans
  | _ + 1, spans, [] => spans
  | fuel + 1, spans, c :: rest =>
    if isStars ch (c :: rest) then
      match indexOfStars ch (rest.drop 1) with
      | some (n + 1) =>
        let inside := (rest.drop 1).take (n + 1)
        parseFrom fuel (spans ++ [.bold (parseFrom fuel [] inside)]) (rest.drop (n + 4))
      | _ => parseFrom fuel (pushText spans (c :: rest.take 1)) (rest.drop 1)
    else if ch c = '`' then
      match indexOfTick ch rest with
      | some (n + 1) => parseFrom fuel (spans ++ [.code (rest.take (n + 1))]) (rest.drop (n + 2))
      | _ => parseFrom fuel (pushText spans [c]) rest
    else if ch c = '[' then
      match bracketed ch isAsciiDigit (c :: rest) with
      | some digits => parseFrom fuel (spans ++ [.marker digits]) (rest.drop (digits.length + 1))
      | none => parseFrom fuel (pushText spans [c]) rest
    else parseFrom fuel (pushText spans [c]) rest

/-- `parseInline`: every pass takes something from the line. -/
def parseInline (line : List G) : List (Span G) := parseFrom ch line.length [] line

/-- `text.split("\n")`, with what is read of the current line, last element first. -/
def splitFrom : List G → List G → List (List G)
  | line, [] => [line.reverse]
  | line, c :: s => if ch c = '\n' then line.reverse :: splitFrom [] s else splitFrom (c :: line) s

/-- `BULLET`: what follows `^[ \t]*[-*][ \t]+` in a line. -/
def bullet (line : List G) : Option (List G) :=
  match line.dropWhile fun c => isBlank (ch c) with
  | c :: d :: rest =>
    if (ch c = '-' || ch c = '*') && isBlank (ch d) then some (rest.dropWhile fun c => isBlank (ch c)) else none
  | _ => none

/-- A block before its inline markup is read. -/
inductive Part (G : Type) where
  | para (text : List G)
  | list (items : List (List G))

/-- The variables of `parseAnswer`. -/
structure Layout (G : Type) where
  parts : List (Part G)
  para : List (List G)
  items : List (List G)

/-- `flushPara`, where `newline` joins the lines. -/
def Layout.flushPara (newline : G) (s : Layout G) : Layout G :=
  if s.para.isEmpty then s else { s with parts := s.parts ++ [.para ([newline].intercalate s.para)], para := [] }

def Layout.flushList (s : Layout G) : Layout G :=
  if s.items.isEmpty then s else { s with parts := s.parts ++ [.list s.items], items := [] }

def Layout.line (newline : G) (s : Layout G) (line : List G) : Layout G :=
  match bullet ch line with
  | some item =>
    let s := s.flushPara newline
    { s with items := s.items ++ [item] }
  | none =>
    let s := s.flushList
    { s with para := s.para ++ [line] }

/-- The parts of an answer. -/
def parts (newline : G) (text : List G) : List (Part G) :=
  (((splitFrom ch [] text).foldl (Layout.line ch newline) ⟨[], [], []⟩).flushPara newline |>.flushList).parts

def Part.parse : Part G → Block G
  | .para text => .para (parseInline ch text)
  | .list items => .list (items.map (parseInline ch))

/-- `parseAnswer`: each part is parsed when it is flushed. -/
def parseAnswer (newline : G) (text : List G) : List (Block G) := (parts ch newline text).map (Part.parse ch)

/-! ## Inline code -/

/-- What stands between two backticks in a line: they are paired from left to right, apart
inside bold, whose asterisks count before what is between them. -/
def codes : List G → List (List G)
  | [] => []
  | c :: rest =>
    if isStars ch (c :: rest) then
      match indexOfStars ch (rest.drop 1) with
      | some (n + 1) => codes ((rest.drop 1).take (n + 1)) ++ codes (rest.drop (n + 4))
      | _ => codes (rest.drop 1)
    else if ch c = '`' then
      match indexOfTick ch rest with
      | some (n + 1) => rest.take (n + 1) :: codes (rest.drop (n + 2))
      | _ => codes rest
    else codes rest
  termination_by s => s.length
  decreasing_by all_goals simp; try omega

/-- The paragraphs and the items of a part. -/
def Part.texts : Part G → List (List G)
  | .para text => [text]
  | .list items => items

/-- The bracketed numbers in inline code. -/
def quoted (newline : G) (text : List G) : List (List G) :=
  ((parts ch newline text).flatMap Part.texts).flatMap fun t => (codes ch t).flatMap (occurrences ch isAsciiDigit)

end Parser

/-! ## The markers of an answer -/

section Leaves
variable {G : Type}

mutual

/-- The spans of a span, bold ones opened. -/
def Span.leaves : Span G → List (Span G)
  | .bold spans => leaves spans
  | .text value => [.text value]
  | .code value => [.code value]
  | .marker digits => [.marker digits]

def leaves : List (Span G) → List (Span G)
  | [] => []
  | span :: spans => span.leaves ++ leaves spans

end

/-- The spans of a block. -/
def Block.leaves : Block G → List (Span G)
  | .para spans => AnswerFormat.leaves spans
  | .list items => items.flatMap AnswerFormat.leaves

/-- The digits of the markers. -/
def markers (spans : List (Span G)) : List (List G) :=
  spans.filterMap fun
    | .marker digits => some digits
    | _ => none

end Leaves

/-! ## The parser reads every bracketed number -/

section Reading
variable {G : Type} {ch : G → Char}

theorem leaves_append (a b : List (Span G)) : leaves (a ++ b) = leaves a ++ leaves b := by
  induction a with
  | nil => rfl
  | cons span a ih =>
    show span.leaves ++ leaves (a ++ b) = span.leaves ++ leaves a ++ leaves b
    rw [ih, List.append_assoc]

/-- The spans stand for a text with these bracketed numbers: each is a marker, or is among
those in code. -/
def Stands (spans : List (Span G)) (all code : List (List G)) : Prop := Reads (fun _ => true) all (markers spans) code

theorem Stands.append {a b : List (Span G)} {all all' code code' : List (List G)} (ha : Stands a all code)
    (hb : Stands b all' code') : Stands (a ++ b) (all ++ all') (code ++ code') := by
  unfold Stands markers at *
  rw [List.filterMap_append]
  exact Reads.append ha hb

theorem stands_nil : Stands ([] : List (Span G)) [] [] := Reads.nil

theorem stands_text (value : List G) : Stands [.text value] [] [] := Reads.nil

theorem stands_code (value : List G) :
    Stands [.code value] (occurrences ch isAsciiDigit value) (occurrences ch isAsciiDigit value) := reads_code _

theorem stands_marker (digits : List G) : Stands [.marker digits] [digits] [] := by
  show Reads (fun _ => true) [digits] ([digits].filter fun _ => true) []
  exact reads_prose [digits]

theorem stands_pushText {spans : List (Span G)} {all code : List (List G)} (value : List G)
    (h : Stands (leaves spans) all code) : Stands (leaves (pushText spans value)) all code := by
  unfold pushText
  split
  · rename_i last hlast
    have hspans : spans = spans.dropLast ++ [.text last] := (List.dropLast_append_getLast? _ hlast).symm
    have htext (v : List G) : leaves [Span.text v] = [.text v] := rfl
    rw [hspans, leaves_append, htext] at h
    rw [leaves_append, htext]
    unfold Stands markers at *
    rw [List.filterMap_append] at h ⊢
    exact h
  · rw [leaves_append]
    have := h.append (stands_text value)
    rwa [List.append_nil, List.append_nil] at this

theorem isStars_cons {c : G} {rest : List G} (h : isStars ch (c :: rest) = true) :
    ∃ d tail, rest = d :: tail ∧ ch c = '*' ∧ ch d = '*' := by
  cases rest with
  | nil => cases h
  | cons d tail =>
    simp only [isStars, Bool.and_eq_true, decide_eq_true_eq] at h
    exact ⟨d, tail, rfl, h⟩

theorem indexOfStars_spec {s : List G} {n : Nat} (h : indexOfStars ch s = some n) :
    ∃ e f, s = s.take n ++ e :: f :: s.drop (n + 2) ∧ n + 2 ≤ s.length ∧ ch e = '*' ∧ ch f = '*' := by
  induction s generalizing n with
  | nil => cases h
  | cons c s ih =>
    unfold indexOfStars at h
    split at h
    · rename_i hstars
      cases h
      obtain ⟨d, tail, rfl, hc, hd⟩ := isStars_cons hstars
      exact ⟨c, d, rfl, by simp only [List.length_cons]; omega, hc, hd⟩
    · obtain ⟨m, hm, rfl⟩ := Option.map_eq_some_iff.mp h
      obtain ⟨e, f, hs, hlength, he, hf⟩ := ih hm
      refine ⟨e, f, ?_, by rw [List.length_cons]; omega, he, hf⟩
      rw [List.take_succ_cons, List.cons_append, List.drop_succ_cons, ← hs]

theorem indexOfTick_spec {s : List G} {n : Nat} (h : indexOfTick ch s = some n) :
    ∃ e, s = s.take n ++ e :: s.drop (n + 1) ∧ n < s.length ∧ ch e = '`' := by
  unfold indexOfTick at h
  obtain ⟨hlt, he, -⟩ := List.findIdx?_eq_some_iff_getElem.mp h
  refine ⟨s[n], ?_, hlt, by simpa using he⟩
  rw [← List.drop_eq_getElem_cons hlt, List.take_append_drop]

theorem breaks_star {c : G} (h : ch c = '*') : Breaks ch isAsciiDigit c := by
  unfold Breaks
  rw [h]
  decide

theorem breaks_tick {c : G} (h : ch c = '`') : Breaks ch isAsciiDigit c := by
  unfold Breaks
  rw [h]
  decide

/-- Without a delimiter there is no inline code. -/
theorem codes_append_of_plain {a : List G} (h : ∀ c ∈ a, ch c ≠ '*' ∧ ch c ≠ '`') (b : List G) :
    codes ch (a ++ b) = codes ch b := by
  induction a with
  | nil => rfl
  | cons c a ih =>
    obtain ⟨⟨hstar, htick⟩, ha⟩ := List.forall_mem_cons.mp h
    have hstars : ¬ isStars ch (c :: (a ++ b)) = true := by
      intro heq
      obtain ⟨d, tail, -, hc, -⟩ := isStars_cons heq
      exact hstar hc
    rw [List.cons_append, codes, if_neg hstars, if_neg htick, ih ha]

/-- A marker has no delimiter. -/
theorem codes_bracketed {c : G} {rest digits : List G} (h : bracketed ch isAsciiDigit (c :: rest) = some digits) :
    codes ch (c :: rest) = codes ch (rest.drop (digits.length + 1)) := by
  obtain ⟨hopen, -, hdigits, hclose⟩ := bracketed_eq_some.mp h
  obtain ⟨d, hd, hchar⟩ := Option.map_eq_some_iff.mp hclose
  obtain ⟨hlt, hget⟩ := List.getElem?_eq_some_iff.mp hd
  have hrest : rest = digits ++ d :: rest.drop (digits.length + 1) := by
    have hstarts := List.takeWhile_prefix (fun c => isAsciiDigit (ch c)) (l := rest)
    rw [← hdigits] at hstarts
    rw [← hget, ← List.drop_eq_getElem_cons hlt]
    exact (List.prefix_iff_eq_append.mp hstarts).symm
  have hplain : ∀ e ∈ c :: digits ++ [d], ch e ≠ '*' ∧ ch e ≠ '`' := by
    intro e he
    rcases List.mem_append.mp he with he | he
    · rcases List.mem_cons.mp he with rfl | he
      · rw [hopen]
        decide
      · rw [hdigits] at he
        have hdigit := List.mem_takeWhile_imp he
        refine ⟨fun heq => ?_, fun heq => ?_⟩
        · rw [heq] at hdigit
          exact absurd hdigit (by decide)
        · rw [heq] at hdigit
          exact absurd hdigit (by decide)
    · rw [List.mem_singleton.mp he, hchar]
      decide
  have := codes_append_of_plain hplain (rest.drop (digits.length + 1))
  rwa [List.append_assoc, List.singleton_append, List.cons_append, ← hrest] at this

/-- A pass of the loop reads what it takes. -/
theorem parseFrom_stands (fuel : Nat) : ∀ (spans : List (Span G)) (s : List G) (all code : List (List G)), s.length ≤ fuel →
    Stands (leaves spans) all code →
      Stands (leaves (parseFrom ch fuel spans s)) (all ++ occurrences ch isAsciiDigit s)
        (code ++ (codes ch s).flatMap (occurrences ch isAsciiDigit)) := by
  induction fuel with
  | zero =>
    intro spans s all code hs h
    rw [List.length_eq_zero_iff.mp (Nat.le_zero.mp hs), occurrences_nil, codes, List.flatMap_nil, List.append_nil,
      List.append_nil]
    exact h
  | succ fuel ih =>
    intro spans s all code hs h
    cases s with
    | nil =>
      rw [occurrences_nil, codes, List.flatMap_nil, List.append_nil, List.append_nil]
      exact h
    | cons c rest =>
      rw [List.length_cons] at hs
      unfold parseFrom
      by_cases hstars : isStars ch (c :: rest) = true
      · rw [if_pos hstars, codes, if_pos hstars]
        obtain ⟨d, body, rfl, hc, hd⟩ := isStars_cons hstars
        rw [List.length_cons] at hs
        rw [occurrences_cons_of_ne (breaks_star hc).1, occurrences_cons_of_ne (breaks_star hd).1]
        split
        · rename_i n hclose
          rw [List.drop_succ_cons, List.drop_zero] at hclose ⊢
          obtain ⟨e, f, hbody, hlength, he, hf⟩ := indexOfStars_spec hclose
          have hinside : (body.take (n + 1)).length ≤ fuel := by
            rw [List.length_take]
            omega
          have hoccurrences : occurrences ch isAsciiDigit body =
              occurrences ch isAsciiDigit (body.take (n + 1)) ++ occurrences ch isAsciiDigit (body.drop (n + 3)) := by
            conv_lhs => rw [hbody]
            rw [occurrences_append_break (breaks_star he), occurrences_cons_of_ne (breaks_star hf).1]
          rw [List.drop_succ_cons, hoccurrences, List.flatMap_append, ← List.append_assoc, ← List.append_assoc]
          refine ih _ _ _ _ (by rw [List.length_drop]; omega) ?_
          have hbold : leaves [Span.bold (parseFrom ch fuel [] (body.take (n + 1)))] =
              leaves (parseFrom ch fuel [] (body.take (n + 1))) := List.append_nil _
          rw [leaves_append, hbold]
          have := ih [] (body.take (n + 1)) [] [] hinside stands_nil
          rw [List.nil_append, List.nil_append] at this
          exact h.append this
        · rename_i hnone
          rw [List.drop_succ_cons, List.drop_zero]
          exact ih _ _ _ _ (by omega) (stands_pushText _ h)
      rw [if_neg hstars]
      by_cases htick : ch c = '`'
      · rw [if_pos htick, codes, if_neg hstars, if_pos htick, occurrences_cons_of_ne (breaks_tick htick).1]
        split
        · rename_i n hclose
          obtain ⟨e, hrest, hlt, he⟩ := indexOfTick_spec hclose
          have hoccurrences : occurrences ch isAsciiDigit rest =
              occurrences ch isAsciiDigit (rest.take (n + 1)) ++ occurrences ch isAsciiDigit (rest.drop (n + 2)) := by
            conv_lhs => rw [hrest]
            rw [occurrences_append_break (breaks_tick he)]
          rw [hoccurrences, List.flatMap_cons, ← List.append_assoc, ← List.append_assoc]
          refine ih _ _ _ _ (by rw [List.length_drop]; omega) ?_
          rw [leaves_append]
          exact h.append (stands_code _)
        · exact ih _ _ _ _ (by omega) (stands_pushText _ h)
      rw [if_neg htick]
      by_cases hopen : ch c = '['
      · rw [if_pos hopen]
        split
        · rename_i digits hdigits
          rw [occurrences_bracketed (by decide) hdigits, codes_bracketed hdigits]
          have hmarker : Stands (leaves (spans ++ [.marker digits])) (all ++ [digits]) code := by
            rw [leaves_append]
            have := h.append (stands_marker digits)
            rwa [List.append_nil] at this
          have := ih _ (rest.drop (digits.length + 1)) _ _ (by rw [List.length_drop]; omega) hmarker
          rwa [List.append_assoc] at this
        · rename_i hnone
          rw [occurrences_cons, hnone, codes, if_neg hstars, if_neg htick]
          exact ih _ _ _ _ (by omega) (stands_pushText _ h)
      · rw [if_neg hopen, occurrences_cons_of_ne hopen, codes, if_neg hstars, if_neg htick]
        exact ih _ _ _ _ (by omega) (stands_pushText _ h)

theorem parseInline_stands (line : List G) :
    Stands (leaves (parseInline ch line)) (occurrences ch isAsciiDigit line)
      ((codes ch line).flatMap (occurrences ch isAsciiDigit)) :=
  parseFrom_stands line.length [] line [] [] le_rfl stands_nil

theorem breaks_newline {c : G} (h : ch c = '\n') : Breaks ch isAsciiDigit c := by
  unfold Breaks
  rw [h]
  decide

theorem splitFrom_occurrences (s : List G) : ∀ line,
    (splitFrom ch line s).flatMap (occurrences ch isAsciiDigit) = occurrences ch isAsciiDigit (line.reverse ++ s) := by
  induction s with
  | nil =>
    intro line
    rw [splitFrom, List.flatMap_singleton, List.append_nil]
  | cons c s ih =>
    intro line
    unfold splitFrom
    split
    · rename_i h
      rw [List.flatMap_cons, ih, occurrences_append_break (breaks_newline h)]
      rfl
    · rw [ih, List.reverse_cons, List.append_assoc]
      rfl

theorem isBlank_ne_open {c : Char} (h : isBlank c = true) : c ≠ '[' := by
  rintro rfl
  cases h

/-- A bullet has no bracket. -/
theorem bullet_occurrences {line item : List G} (h : bullet ch line = some item) :
    occurrences ch isAsciiDigit item = occurrences ch isAsciiDigit line := by
  have hblank (s : List G) : occurrences ch isAsciiDigit (s.dropWhile fun c => isBlank (ch c)) =
      occurrences ch isAsciiDigit s := by
    conv_rhs => rw [← List.takeWhile_append_dropWhile (p := fun c => isBlank (ch c)) (l := s)]
    refine (occurrences_append_of_ne (fun c hc => ?_) _).symm
    have := List.mem_takeWhile_imp hc
    exact isBlank_ne_open this
  unfold bullet at h
  rw [← hblank line]
  split at h
  · rename_i c d rest hline
    split at h
    · rename_i hmark
      cases h
      simp only [Bool.and_eq_true, Bool.or_eq_true, decide_eq_true_eq] at hmark
      have hc : ch c ≠ '[' := by
        intro heq
        rw [heq] at hmark
        exact absurd hmark.1 (by decide)
      rw [hline, hblank, occurrences_cons_of_ne hc, occurrences_cons_of_ne (isBlank_ne_open hmark.2)]
    · cases h
  · cases h

/-- The bracketed numbers of the parts, and of the lines that are still open. -/
def Layout.occurrences (ch : G → Char) (s : Layout G) : List (List G) :=
  (s.parts.flatMap Part.texts ++ s.para ++ s.items).flatMap (Text.occurrences ch isAsciiDigit)

/-- A paragraph and a list are not open at once. -/
def Layout.One (s : Layout G) : Prop := s.para = [] ∨ s.items = []

theorem flushPara_occurrences {newline : G} (hnewline : ch newline = '\n') {s : Layout G} (h : s.One) :
    (s.flushPara newline).occurrences ch = s.occurrences ch ∧ (s.flushPara newline).para = [] := by
  unfold Layout.flushPara
  by_cases hpara : s.para.isEmpty = true
  · rw [if_pos hpara]
    exact ⟨rfl, List.isEmpty_iff.mp hpara⟩
  · rw [if_neg hpara]
    have hitems : s.items = [] := h.resolve_left fun heq => hpara (List.isEmpty_iff.mpr heq)
    refine ⟨?_, rfl⟩
    unfold Layout.occurrences
    simp only [hitems, List.append_nil, List.flatMap_append, List.flatMap_singleton, Part.texts,
      occurrences_intercalate (breaks_newline hnewline)]

theorem flushList_occurrences (ch : G → Char) {s : Layout G} (h : s.One) :
    s.flushList.occurrences ch = s.occurrences ch ∧ s.flushList.items = [] := by
  unfold Layout.flushList
  by_cases hitems : s.items.isEmpty = true
  · rw [if_pos hitems]
    exact ⟨rfl, List.isEmpty_iff.mp hitems⟩
  · rw [if_neg hitems]
    have hpara : s.para = [] := h.resolve_right fun heq => hitems (List.isEmpty_iff.mpr heq)
    refine ⟨?_, rfl⟩
    unfold Layout.occurrences
    simp only [hpara, List.append_nil, List.flatMap_append, List.flatMap_singleton, Part.texts]

theorem line_occurrences {newline : G} (hnewline : ch newline = '\n') {s : Layout G} (h : s.One) (line : List G) :
    (s.line ch newline line).occurrences ch = s.occurrences ch ++ Text.occurrences ch isAsciiDigit line ∧
      (s.line ch newline line).One := by
  unfold Layout.line
  split
  · rename_i item hitem
    obtain ⟨hsame, hpara⟩ := flushPara_occurrences hnewline h
    refine ⟨?_, .inl hpara⟩
    rw [← hsame, ← bullet_occurrences hitem]
    unfold Layout.occurrences
    simp only [List.flatMap_append, List.flatMap_singleton, List.append_assoc]
  · obtain ⟨hsame, hitems⟩ := flushList_occurrences ch h
    refine ⟨?_, .inr hitems⟩
    rw [← hsame]
    unfold Layout.occurrences
    simp only [hitems, List.flatMap_append, List.flatMap_singleton, List.append_assoc, List.append_nil]

theorem lines_occurrences {newline : G} (hnewline : ch newline = '\n') (lines : List (List G)) : ∀ {s : Layout G}, s.One →
    (lines.foldl (Layout.line ch newline) s).occurrences ch =
        s.occurrences ch ++ lines.flatMap (Text.occurrences ch isAsciiDigit) ∧
      (lines.foldl (Layout.line ch newline) s).One := by
  induction lines with
  | nil =>
    intro s h
    exact ⟨(List.append_nil _).symm, h⟩
  | cons line lines ih =>
    intro s h
    obtain ⟨hline, hone⟩ := line_occurrences hnewline h line
    obtain ⟨hrest, hone'⟩ := ih hone
    exact ⟨by rw [List.foldl_cons, hrest, hline, List.flatMap_cons, List.append_assoc], hone'⟩

/-- The parts hold the bracketed numbers of the answer. -/
theorem parts_occurrences {newline : G} (hnewline : ch newline = '\n') (text : List G) :
    ((parts ch newline text).flatMap Part.texts).flatMap (Text.occurrences ch isAsciiDigit) =
      Text.occurrences ch isAsciiDigit text := by
  obtain ⟨hlines, hone⟩ := lines_occurrences hnewline (splitFrom ch [] text) (s := ⟨[], [], []⟩) (.inl rfl)
  obtain ⟨hpara, hempty⟩ := flushPara_occurrences hnewline hone
  obtain ⟨hlist, hitems⟩ := flushList_occurrences ch (s := Layout.flushPara newline _) (.inl hempty)
  have hpara' : (Layout.flushPara newline ((splitFrom ch [] text).foldl (Layout.line ch newline) ⟨[], [], []⟩)).flushList.para =
      [] := by
    unfold Layout.flushList
    split
    · exact hempty
    · exact hempty
  rw [hpara, hlines, splitFrom_occurrences] at hlist
  unfold Layout.occurrences at hlist
  rw [hpara', hitems, List.append_nil, List.append_nil] at hlist
  exact hlist

theorem texts_stand (ch : G → Char) (texts : List (List G)) :
    Stands (texts.flatMap fun t => leaves (parseInline ch t)) (texts.flatMap (Text.occurrences ch isAsciiDigit))
      (texts.flatMap fun t => (codes ch t).flatMap (Text.occurrences ch isAsciiDigit)) := by
  induction texts with
  | nil => exact stands_nil
  | cons t texts ih => exact (parseInline_stands t).append ih

theorem leaves_parse (parts : List (Part G)) :
    (parts.map (Part.parse ch)).flatMap Block.leaves = (parts.flatMap Part.texts).flatMap fun t => leaves (parseInline ch t) := by
  induction parts with
  | nil => rfl
  | cons part parts ih =>
    rw [List.map_cons, List.flatMap_cons, List.flatMap_cons, List.flatMap_append, ih]
    cases part with
    | para text =>
      unfold Part.parse Block.leaves Part.texts
      rw [List.flatMap_singleton]
    | list items =>
      show (items.map (parseInline ch)).flatMap leaves ++ _ = _
      rw [List.flatMap_map]
      rfl

/-- An answer reads every bracketed number, in order: as a marker, or in inline code. -/
theorem parseAnswer_stands (ch : G → Char) {newline : G} (hnewline : ch newline = '\n') (text : List G) :
    Stands ((parseAnswer ch newline text).flatMap Block.leaves) (Text.occurrences ch isAsciiDigit text)
      (quoted ch newline text) := by
  have := texts_stand ch ((parts ch newline text).flatMap Part.texts)
  rw [parts_occurrences hnewline, ← leaves_parse] at this
  exact this

end Reading

end CiteVyn.Frontend.AnswerFormat
