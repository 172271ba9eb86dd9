import CiteVyn.Frontend.AnswerFormat
import CiteVyn.Text.Integers
import Mathlib.Data.List.Chain

/-! # An answer, written back

What the chat shows of an answer is all of it and in its order: the spans of a paragraph or
of an item, written back, are the text they were read from but for zeros in front of a
marker's number, and the blocks are the lines of the answer. -/
namespace CiteVyn.Frontend.AnswerFormat
open CiteVyn.Text

section Writing
variable {G : Type} (ch : G → Char)

/-- `String(Number(m[1]))`, where a number is exact. -/
def markerValue (digits : List G) : Str := Nat.toDigits 10 (digitsValue (digits.map ch))

mutual

/-- A span in the Markdown it is read from. -/
def Span.write : Span G → Str
  | .text value => value.map ch
  | .code value => '`' :: value.map ch ++ ['`']
  | .marker digits => '[' :: markerValue ch digits ++ [']']
  | .bold spans => '*' :: '*' :: write spans ++ ['*', '*']

def write : List (Span G) → Str
  | [] => []
  | span :: spans => span.write ++ write spans

end

/-- The first text is the second one without some zeros in front of its markers' numbers. -/
inductive UpToZeros : Str → Str → Prop
  | nil : UpToZeros [] []
  | char (c : Char) {a b : Str} : UpToZeros a b → UpToZeros (c :: a) (c :: b)
  | marker (k : Nat) {digits a b : Str} : digits ≠ [] → (∀ d ∈ digits, isAsciiDigit d = true) → UpToZeros a b →
      UpToZeros ('[' :: digits ++ ']' :: a) ('[' :: (List.replicate k '0' ++ digits) ++ ']' :: b)

def Span.isText : Span G → Bool
  | .text _ => true
  | _ => false

/-- No text span is empty or next to another. -/
structure Tidy (spans : List (Span G)) : Prop where
  filled : ∀ value, .text value ∈ spans → value ≠ []
  apart : spans.IsChain fun a b => ¬(a.isText = true ∧ b.isText = true)

def NoBold (spans : List (Span G)) : Prop := ∀ inside, .bold inside ∉ spans

structure Clean (spans : List (Span G)) : Prop where
  tidy : Tidy spans
  bold : ∀ inside, .bold inside ∈ spans → Tidy inside ∧ NoBold inside

/-- The spans are what `parseInline` makes of a text, however many passes its loop may take. -/
structure Spells (spans : List (Span G)) (text : List G) : Prop where
  read : ∀ passes, text.length ≤ passes → parseFrom ch passes [] text = spans
  written : UpToZeros (write ch spans) (text.map ch)
  clean : Clean spans

/-- The lines that a block stands for: those of a paragraph, or one for each item. -/
def Block.Of (newline : G) : Block G → List (List G) → Prop
  | .para spans, lines =>
    lines ≠ [] ∧ (∀ line ∈ lines, bullet ch line = none) ∧ Spells ch spans ([newline].intercalate lines)
  | .list items, lines =>
    lines ≠ [] ∧ List.Forall₂ (fun item line => ∃ rest, bullet ch line = some rest ∧ Spells ch item rest) items lines

end Writing

section Reading
variable {G : Type} {ch : G → Char}

/-! ## Zeros in front -/

theorem UpToZeros.refl : ∀ s : Str, UpToZeros s s
  | [] => .nil
  | c :: s => .char c (UpToZeros.refl s)

theorem UpToZeros.append {a b a' b' : Str} (h : UpToZeros a b) (h' : UpToZeros a' b') : UpToZeros (a ++ a') (b ++ b') := by
  induction h with
  | nil => exact h'
  | char c _ ih => exact .char c ih
  | marker k hne hdigits _ ih =>
    have := UpToZeros.marker k hne hdigits ih
    simpa only [List.cons_append, List.append_assoc] using this

theorem isDigit_of_isAsciiDigit {c : Char} (h : isAsciiDigit c = true) : c.isDigit = true := by
  simp only [isAsciiDigit, Bool.and_eq_true, decide_eq_true_eq] at h
  rw [Char.isDigit, Bool.and_eq_true, decide_eq_true_eq, decide_eq_true_eq]
  exact h

theorem isAsciiDigit_of_isDigit {c : Char} (h : c.isDigit = true) : isAsciiDigit c = true := by
  rw [Char.isDigit, Bool.and_eq_true, decide_eq_true_eq, decide_eq_true_eq] at h
  simp only [isAsciiDigit, Bool.and_eq_true, decide_eq_true_eq]
  exact h

theorem digitChar_of_isDigit {c : Char} (h : c.isDigit = true) :
    ∃ d, d < 10 ∧ (decimalValue c).getD 0 = d ∧ c = d.digitChar := by
  have hrange : 48 ≤ c.toNat ∧ c.toNat ≤ 57 := by
    rw [Char.isDigit, Bool.and_eq_true, decide_eq_true_eq, decide_eq_true_eq] at h
    exact h
  refine ⟨c.toNat - 48, by omega, by rw [decimalValue_of_isDigit h]; rfl, Char.toNat_inj.mp ?_⟩
  rw [Nat.toNat_digitChar_of_lt_ten (by omega)]
  omega

/-- Digits are the number's own with zeros in front. -/
theorem zeros_of_digits {ds : Str} (hne : ds ≠ []) (h : ∀ c ∈ ds, isAsciiDigit c = true) :
    ∃ k, ds = List.replicate k '0' ++ Nat.toDigits 10 (digitsValue ds) := by
  induction ds using List.reverseRecOn with
  | nil => exact absurd rfl hne
  | append_singleton ds c ih =>
    obtain ⟨hds, hc⟩ := List.forall_mem_append.mp h
    obtain ⟨d, hd, hvalue, hchar⟩ := digitChar_of_isDigit (isDigit_of_isAsciiDigit (hc c List.mem_cons_self))
    have hstep : digitsValue (ds ++ [c]) = 10 * digitsValue ds + d := by
      rw [digitsValue, List.foldl_append, List.foldl_cons, List.foldl_nil, hvalue]
      rfl
    have hlast : Nat.toDigits 10 d = [c] := by rw [hchar, Nat.toDigits_of_lt_base hd]
    rw [hstep]
    by_cases hnil : ds = []
    · refine ⟨0, ?_⟩
      rw [hnil, show digitsValue [] = 0 from rfl, Nat.mul_zero, Nat.zero_add, hlast]
      rfl
    obtain ⟨k, hk⟩ := ih hnil hds
    by_cases hzero : digitsValue ds = 0
    · refine ⟨k + 1, ?_⟩
      rw [hzero, Nat.toDigits_zero] at hk
      rw [hzero, Nat.mul_zero, Nat.zero_add, hlast, List.replicate_succ']
      exact congrArg (· ++ [c]) hk
    · refine ⟨k, ?_⟩
      rw [← Nat.toDigits_append_toDigits (by decide) (Nat.pos_of_ne_zero hzero) hd, hlast, ← List.append_assoc, ← hk]

/-! ## What a pass takes is written back -/

theorem write_append (a b : List (Span G)) : write ch (a ++ b) = write ch a ++ write ch b := by
  induction a with
  | nil => rfl
  | cons span a ih =>
    show span.write ch ++ write ch (a ++ b) = span.write ch ++ write ch a ++ write ch b
    rw [ih, List.append_assoc]

theorem write_singleton (span : Span G) : write ch [span] = span.write ch := List.append_nil _

theorem write_pushText (spans : List (Span G)) (value : List G) :
    write ch (pushText spans value) = write ch spans ++ value.map ch := by
  unfold pushText
  split
  · rename_i last hlast
    have hspans : spans = spans.dropLast ++ [.text last] := (List.dropLast_append_getLast? _ hlast).symm
    conv_rhs => rw [hspans, write_append, write_singleton]
    rw [write_append, write_singleton, List.append_assoc]
    exact congrArg _ List.map_append
  · rw [write_append, write_singleton]
    rfl

theorem upToZeros_pushText {spans : List (Span G)} {source : Str} (h : UpToZeros (write ch spans) source) (value : List G) :
    UpToZeros (write ch (pushText spans value)) (source ++ value.map ch) := by
  rw [write_pushText]
  exact h.append (.refl _)

theorem upToZeros_marker {c : G} {rest digits : List G} (h : bracketed ch isAsciiDigit (c :: rest) = some digits) :
    UpToZeros ((Span.marker digits).write ch) ((c :: rest.take (digits.length + 1)).map ch) := by
  obtain ⟨d, tail, rfl, hc, hd, hne, hdigits⟩ := bracketed_split h
  have htake : (digits ++ d :: tail).take (digits.length + 1) = digits ++ [d] := by
    rw [List.append_cons]
    exact List.take_left' (by rw [List.length_append, List.length_singleton])
  have hall : ∀ e ∈ digits.map ch, isAsciiDigit e = true := by
    intro e he
    obtain ⟨g, hg, rfl⟩ := List.mem_map.mp he
    exact hdigits g hg
  obtain ⟨k, hk⟩ := zeros_of_digits (fun heq => hne (List.map_eq_nil_iff.mp heq)) hall
  have hvalue : ∀ e ∈ markerValue ch digits, isAsciiDigit e = true := fun e he =>
    isAsciiDigit_of_isDigit (isDigit_toDigits he)
  have := UpToZeros.marker k Nat.toDigits_ne_nil hvalue .nil
  rw [htake, List.map_cons, List.map_append, hc, List.map_singleton, hd, hk]
  exact this

theorem parseFrom_written (fuel : Nat) : ∀ (spans : List (Span G)) (s : List G) (source : Str), s.length ≤ fuel →
    UpToZeros (write ch spans) source → UpToZeros (write ch (parseFrom ch fuel spans s)) (source ++ s.map ch) := by
  induction fuel with
  | zero =>
    intro spans s source hs h
    rw [List.length_eq_zero_iff.mp (Nat.le_zero.mp hs), List.map_nil, List.append_nil]
    exact h
  | succ fuel ih =>
    intro spans s source hs h
    cases s with
    | nil =>
      rw [List.map_nil, List.append_nil]
      exact h
    | cons c rest =>
      rw [List.length_cons] at hs
      -- what is taken from the line, and what is left of it
      have pass {spans' : List (Span G)} {rest' : List G} (taken : List G) (hsplit : c :: rest = taken ++ rest')
          (hlen : rest'.length ≤ fuel) (hwritten : UpToZeros (write ch spans') (source ++ taken.map ch)) :
          UpToZeros (write ch (parseFrom ch fuel spans' rest')) (source ++ (c :: rest).map ch) := by
        rw [hsplit, List.map_append, ← List.append_assoc]
        exact ih _ _ _ hlen hwritten
      unfold parseFrom
      split
      · rename_i hstars
        obtain ⟨d, body, rfl, hc, hd⟩ := isStars_cons hstars
        rw [List.length_cons] at hs
        split
        · rename_i n hclose
          rw [List.drop_succ_cons, List.drop_zero] at hclose ⊢
          obtain ⟨e, f, hbody, hlength, he, hf⟩ := indexOfStars_spec hclose
          have hinside := ih [] (body.take (n + 1)) [] (by rw [List.length_take]; omega) .nil
          refine pass (c :: d :: body.take (n + 1) ++ [e, f]) ?_ (by rw [List.drop_succ_cons, List.length_drop]; omega) ?_
          · rw [List.drop_succ_cons, List.append_assoc, List.cons_append, List.cons_append]
            exact congrArg (c :: d :: ·) hbody
          · rw [write_append, write_singleton]
            refine h.append ?_
            have hstar : ∀ {a b : Str}, UpToZeros a b → UpToZeros ('*' :: '*' :: a ++ ['*', '*']) ('*' :: '*' :: b ++ ['*', '*']) :=
              fun hab => .char _ (.char _ (hab.append (.refl _)))
            have := hstar hinside
            rw [List.nil_append] at this
            simpa only [Span.write, List.map_append, List.map_cons, List.map_nil, hc, hd, he, hf] using this
        · rw [List.drop_succ_cons, List.drop_zero]
          exact pass [c, d] rfl (by omega) (upToZeros_pushText h _)
      split
      · rename_i htick
        split
        · rename_i n hclose
          obtain ⟨e, hrest, hlt, he⟩ := indexOfTick_spec hclose
          refine pass (c :: rest.take (n + 1) ++ [e]) ?_ (by rw [List.length_drop]; omega) ?_
          · rw [List.append_assoc]
            exact congrArg (c :: ·) hrest
          · rw [write_append, write_singleton]
            refine h.append ?_
            rw [List.map_append, List.map_cons, htick, List.map_singleton, he]
            exact .refl _
        · exact pass [c] rfl (by omega) (upToZeros_pushText h _)
      split
      · split
        · rename_i digits hdigits
          refine pass (c :: rest.take (digits.length + 1)) ?_ (by rw [List.length_drop]; omega) ?_
          · rw [List.cons_append, List.take_append_drop]
          · rw [write_append, write_singleton]
            exact h.append (upToZeros_marker hdigits)
        · exact pass [c] rfl (by omega) (upToZeros_pushText h _)
      · exact pass [c] rfl (by omega) (upToZeros_pushText h _)

/-! ## The spans -/

theorem tidy_nil : Tidy ([] : List (Span G)) where
  filled _ h := by cases h
  apart := .nil

theorem Tidy.push {spans : List (Span G)} (h : Tidy spans) {span : Span G} (hspan : span.isText = false) :
    Tidy (spans ++ [span]) where
  filled value hmem := by
    rcases List.mem_append.mp hmem with hmem | hmem
    · exact h.filled value hmem
    · rw [← List.mem_singleton.mp hmem] at hspan
      cases hspan
  apart := by
    refine List.isChain_append.mpr ⟨h.apart, .singleton _, fun a _ b hb hab => ?_⟩
    obtain rfl : span = b := Option.some.inj hb
    rw [hspan] at hab
    exact absurd hab.2 Bool.false_ne_true

/-- A text is added to the text before it, or stands alone. -/
theorem pushText_cases (spans : List (Span G)) (value : List G) :
    (∃ before last, spans = before ++ [.text last] ∧ pushText spans value = before ++ [.text (last ++ value)]) ∨
      (∀ last, spans.getLast? ≠ some (.text last)) ∧ pushText spans value = spans ++ [.text value] := by
  unfold pushText
  split
  · rename_i last hlast
    exact .inl ⟨_, last, (List.dropLast_append_getLast? _ hlast).symm, rfl⟩
  · rename_i hlast
    exact .inr ⟨hlast, rfl⟩

theorem mem_pushText {spans : List (Span G)} {value : List G} {span : Span G} (h : span ∈ pushText spans value) :
    span ∈ spans ∨ span.isText = true := by
  rcases pushText_cases spans value with ⟨before, last, rfl, heq⟩ | ⟨-, heq⟩
  · rw [heq] at h
    rcases List.mem_append.mp h with h | h
    · exact .inl (List.mem_append_left _ h)
    · rw [List.mem_singleton.mp h]
      exact .inr rfl
  · rw [heq] at h
    rcases List.mem_append.mp h with h | h
    · exact .inl h
    · rw [List.mem_singleton.mp h]
      exact .inr rfl

theorem Tidy.pushText {spans : List (Span G)} (h : Tidy spans) {value : List G} (hvalue : value ≠ []) :
    Tidy (pushText spans value) := by
  rcases pushText_cases spans value with ⟨before, last, rfl, heq⟩ | ⟨hlast, heq⟩
  · rw [heq]
    obtain ⟨hbefore, -, hjoin⟩ := List.isChain_append.mp h.apart
    refine ⟨fun v hv => ?_, List.isChain_append.mpr ⟨hbefore, .singleton _, fun a ha b hb hab => ?_⟩⟩
    · rcases List.mem_append.mp hv with hv | hv
      · exact h.filled v (List.mem_append_left _ hv)
      · rw [Span.text.inj (List.mem_singleton.mp hv)]
        exact fun hnil => hvalue (List.append_eq_nil_iff.mp hnil).2
    · exact hjoin a ha (.text last) rfl ⟨hab.1, rfl⟩
  · rw [heq]
    refine ⟨fun v hv => ?_, List.isChain_append.mpr ⟨h.apart, .singleton _, fun a ha b hb hab => ?_⟩⟩
    · rcases List.mem_append.mp hv with hv | hv
      · exact h.filled v hv
      · rw [Span.text.inj (List.mem_singleton.mp hv)]
        exact hvalue
    · cases a with
      | text last => exact hlast last ha
      | _ => exact absurd hab.1 Bool.false_ne_true

theorem clean_nil : Clean ([] : List (Span G)) := ⟨tidy_nil, fun _ h => by cases h⟩

theorem Clean.pushText {spans : List (Span G)} (h : Clean spans) {value : List G} (hvalue : value ≠ []) :
    Clean (pushText spans value) := by
  refine ⟨h.tidy.pushText hvalue, fun inside hmem => ?_⟩
  rcases mem_pushText hmem with hmem | htext
  · exact h.bold inside hmem
  · cases htext

theorem Clean.push {spans : List (Span G)} (h : Clean spans) {span : Span G} (hspan : span.isText = false)
    (hbold : ∀ inside, span = .bold inside → Tidy inside ∧ NoBold inside) : Clean (spans ++ [span]) := by
  refine ⟨h.tidy.push hspan, fun inside hmem => ?_⟩
  rcases List.mem_append.mp hmem with hmem | hmem
  · exact h.bold inside hmem
  · exact hbold inside (List.mem_singleton.mp hmem).symm

theorem noBold_pushText {spans : List (Span G)} (h : NoBold spans) (value : List G) : NoBold (pushText spans value) := by
  intro inside hmem
  rcases mem_pushText hmem with hmem | htext
  · exact h inside hmem
  · cases htext

theorem NoBold.push {spans : List (Span G)} (h : NoBold spans) {span : Span G} (hspan : ∀ inside, span ≠ .bold inside) :
    NoBold (spans ++ [span]) := by
  intro inside hmem
  rcases List.mem_append.mp hmem with hmem | hmem
  · exact h inside hmem
  · exact hspan inside (List.mem_singleton.mp hmem).symm

/-! ## Bold -/

theorem noStars_cons {c : G} {s : List G} (h : indexOfStars ch (c :: s) = none) :
    ¬isStars ch (c :: s) = true ∧ indexOfStars ch s = none := by
  unfold indexOfStars at h
  split at h
  · cases h
  · rename_i hstars
    exact ⟨hstars, Option.map_eq_none_iff.mp h⟩

theorem noStars_drop {s : List G} (h : indexOfStars ch s = none) : ∀ n, indexOfStars ch (s.drop n) = none := by
  induction s with
  | nil =>
    intro n
    rw [List.drop_nil]
    rfl
  | cons c s ih =>
    intro n
    cases n with
    | zero => exact h
    | succ n => exact ih (noStars_cons h).2 n

/-- Before the first two asterisks there are none. -/
theorem noStars_take {s : List G} {n : Nat} (h : indexOfStars ch s = some n) : indexOfStars ch (s.take n) = none := by
  induction s generalizing n with
  | nil => cases h
  | cons c s ih =>
    unfold indexOfStars at h
    split at h
    · obtain rfl := Option.some.inj h
      rfl
    · rename_i hstars
      obtain ⟨m, hm, rfl⟩ := Option.map_eq_some_iff.mp h
      have hnot : ¬isStars ch (c :: s.take m) = true := by
        intro hstars'
        obtain ⟨d, tail, htail, hc, hd⟩ := isStars_cons hstars'
        refine hstars ?_
        obtain ⟨e, s, rfl⟩ : ∃ e s', s = e :: s' := by
          cases s with
          | nil =>
            rw [List.take_nil] at htail
            cases htail
          | cons e s => exact ⟨e, s, rfl⟩
        cases m with
        | zero => cases htail
        | succ m =>
          obtain ⟨rfl, -⟩ := List.cons.inj htail
          rw [isStars, hc, hd]
          rfl
      rw [List.take_succ_cons, indexOfStars, if_neg hnot, ih hm]
      rfl

theorem noBold_parseFrom (fuel : Nat) : ∀ (spans : List (Span G)) (s : List G), indexOfStars ch s = none → NoBold spans →
    NoBold (parseFrom ch fuel spans s) := by
  induction fuel with
  | zero =>
    intro spans s _ h
    exact h
  | succ fuel ih =>
    intro spans s hs h
    cases s with
    | nil => exact h
    | cons c rest =>
      obtain ⟨hstars, hrest⟩ := noStars_cons hs
      unfold parseFrom
      rw [if_neg hstars]
      split
      · split
        · exact ih _ _ (noStars_drop hrest _) (h.push fun _ heq => by cases heq)
        · exact ih _ _ hrest (noBold_pushText h _)
      split
      · split
        · exact ih _ _ (noStars_drop hrest _) (h.push fun _ heq => by cases heq)
        · exact ih _ _ hrest (noBold_pushText h _)
      · exact ih _ _ hrest (noBold_pushText h _)

theorem parseFrom_clean (fuel : Nat) : ∀ (spans : List (Span G)) (s : List G), Clean spans →
    Clean (parseFrom ch fuel spans s) := by
  induction fuel with
  | zero =>
    intro spans s h
    exact h
  | succ fuel ih =>
    intro spans s h
    cases s with
    | nil => exact h
    | cons c rest =>
      unfold parseFrom
      split
      · split
        · rename_i n hclose
          refine ih _ _ (h.push rfl fun inside heq => ?_)
          obtain rfl := Span.bold.inj heq
          exact ⟨(ih _ _ clean_nil).tidy, noBold_parseFrom fuel _ _ (noStars_take hclose) fun _ hmem => by cases hmem⟩
        · exact ih _ _ (h.pushText (List.cons_ne_nil _ _))
      split
      · split
        · exact ih _ _ (h.push rfl fun _ heq => by cases heq)
        · exact ih _ _ (h.pushText (List.cons_ne_nil _ _))
      split
      · split
        · exact ih _ _ (h.push rfl fun _ heq => by cases heq)
        · exact ih _ _ (h.pushText (List.cons_ne_nil _ _))
      · exact ih _ _ (h.pushText (List.cons_ne_nil _ _))

/-- No pass is wanting where there may be one for each element of the text. -/
theorem parseFrom_passes (m : Nat) : ∀ (n : Nat) (spans : List (Span G)) (s : List G), s.length ≤ m → s.length ≤ n →
    parseFrom ch m spans s = parseFrom ch n spans s := by
  induction m with
  | zero =>
    intro n spans s hm _
    rw [List.length_eq_zero_iff.mp (Nat.le_zero.mp hm)]
    cases n with
    | zero => rfl
    | succ n => rfl
  | succ m ih =>
    intro n spans s hm hn
    cases s with
    | nil =>
      cases n with
      | zero => rfl
      | succ n => rfl
    | cons c rest =>
      rw [List.length_cons] at hm hn
      obtain ⟨n, rfl⟩ : ∃ k, n = k + 1 := ⟨n - 1, by omega⟩
      have hrest (k : Nat) : (rest.drop k).length ≤ m ∧ (rest.drop k).length ≤ n := by
        rw [List.length_drop]
        omega
      have hinside (k : Nat) : ((rest.drop 1).take k).length ≤ m ∧ ((rest.drop 1).take k).length ≤ n := by
        rw [List.length_take, List.length_drop]
        omega
      have hdrop (k : Nat) (spans : List (Span G)) : parseFrom ch m spans (rest.drop k) = parseFrom ch n spans (rest.drop k) :=
        ih n spans _ (hrest k).1 (hrest k).2
      have hwhole (spans : List (Span G)) : parseFrom ch m spans rest = parseFrom ch n spans rest := hdrop 0 spans
      unfold parseFrom
      split
      · split
        · rw [hdrop, ih n [] _ (hinside _).1 (hinside _).2]
        · exact hdrop 1 _
      split
      · split
        · exact hdrop _ _
        · exact hwhole _
      split
      · split
        · exact hdrop _ _
        · exact hwhole _
      · exact hwhole _

theorem spells_parseInline (line : List G) : Spells ch (parseInline ch line) line where
  read passes h := parseFrom_passes passes line.length [] line h le_rfl
  written := parseFrom_written line.length [] line [] le_rfl .nil
  clean := parseFrom_clean line.length [] line clean_nil

/-! ## The blocks -/

/-- The lines of an answer make the answer. -/
theorem splitFrom_intercalate {newline : G} (hnewline : ch newline = '\n') (s : List G) : ∀ line : List G,
    ([newline].intercalate (splitFrom ch line s)).map ch = (line.reverse ++ s).map ch := by
  induction s with
  | nil =>
    intro line
    rw [splitFrom, List.intercalate_singleton, List.append_nil]
  | cons c s ih =>
    intro line
    have hne : splitFrom ch [] s ≠ [] := by
      cases s with
      | nil => exact List.cons_ne_nil _ _
      | cons d s =>
        unfold splitFrom
        split
        · exact List.cons_ne_nil _ _
        · rename_i hd
          intro hnil
          have := ih []
          rw [splitFrom, if_neg hd, hnil] at this
          cases this
    unfold splitFrom
    split
    · rename_i hc
      obtain ⟨first, rest, hlines⟩ := List.exists_cons_of_ne_nil hne
      have hrest := ih []
      rw [hlines] at hrest ⊢
      rw [List.intercalate_cons_cons, List.map_append, List.map_append, hrest]
      simp [hc, hnewline]
    · rw [ih, List.reverse_cons, List.append_assoc]
      rfl

/-- The lines that a part stands for. -/
def Part.Of (ch : G → Char) (newline : G) : Part G → List (List G) → Prop
  | .para text, lines => lines ≠ [] ∧ (∀ line ∈ lines, bullet ch line = none) ∧ text = [newline].intercalate lines
  | .list items, lines => lines ≠ [] ∧ List.Forall₂ (fun item line => bullet ch line = some item) items lines

/-- The lines of the paragraph or of the list that is open. -/
inductive Layout.Opened (ch : G → Char) : Layout G → List (List G) → Prop
  | para {s : Layout G} {lines : List (List G)} : s.items = [] → s.para = lines → (∀ line ∈ lines, bullet ch line = none) →
      Opened ch s lines
  | items {s : Layout G} {lines : List (List G)} : s.para = [] →
      List.Forall₂ (fun item line => bullet ch line = some item) s.items lines → Opened ch s lines

/-- The lines read so far are those of the parts, and the open ones. -/
def Layout.Holds (ch : G → Char) (newline : G) (s : Layout G) (lines : List (List G)) : Prop :=
  ∃ groups opened, lines = groups.flatten ++ opened ∧ List.Forall₂ (Part.Of ch newline) s.parts groups ∧ s.Opened ch opened

variable {newline : G} {s : Layout G} {lines : List (List G)}

theorem Layout.Holds.flushPara (h : s.Holds ch newline lines) :
    (s.flushPara newline).Holds ch newline lines ∧ (s.flushPara newline).para = [] := by
  unfold Layout.flushPara
  by_cases hpara : s.para.isEmpty = true
  · rw [if_pos hpara]
    exact ⟨h, List.isEmpty_iff.mp hpara⟩
  · rw [if_neg hpara]
    refine ⟨?_, rfl⟩
    obtain ⟨groups, opened, rfl, hparts, hopened⟩ := h
    cases hopened with
    | para hitems hlines hplain =>
      refine ⟨groups ++ [opened], [], ?_, List.rel_append hparts (.cons ?_ .nil), .items rfl ?_⟩
      · rw [List.flatten_append, List.flatten_singleton, List.append_nil]
      · refine ⟨?_, hplain, by rw [hlines]⟩
        rintro rfl
        exact hpara (List.isEmpty_iff.mpr hlines)
      · rw [hitems]
        exact .nil
    | items hnil _ => exact absurd (List.isEmpty_iff.mpr hnil) hpara

theorem Layout.Holds.flushList (h : s.Holds ch newline lines) :
    s.flushList.Holds ch newline lines ∧ s.flushList.items = [] ∧ (s.para = [] → s.flushList.para = []) := by
  unfold Layout.flushList
  by_cases hitems : s.items.isEmpty = true
  · rw [if_pos hitems]
    exact ⟨h, List.isEmpty_iff.mp hitems, id⟩
  · rw [if_neg hitems]
    refine ⟨?_, rfl, id⟩
    obtain ⟨groups, opened, rfl, hparts, hopened⟩ := h
    cases hopened with
    | para hnil _ _ => exact absurd (List.isEmpty_iff.mpr hnil) hitems
    | items hpara hlist =>
      refine ⟨groups ++ [opened], [], ?_, List.rel_append hparts (.cons ⟨?_, hlist⟩ .nil), .para rfl hpara fun _ h => by cases h⟩
      · rw [List.flatten_append, List.flatten_singleton, List.append_nil]
      · rintro rfl
        exact hitems (List.isEmpty_iff.mpr (List.forall₂_nil_right_iff.mp hlist))

theorem Layout.Opened.eq_nil {opened : List (List G)} (h : s.Opened ch opened) (hpara : s.para = []) (hitems : s.items = []) :
    opened = [] := by
  cases h with
  | para _ hlines _ => rw [← hlines, hpara]
  | items _ hlist =>
    rw [hitems] at hlist
    cases hlist
    rfl

theorem Layout.Holds.line (h : s.Holds ch newline lines) (line : List G) :
    (s.line ch newline line).Holds ch newline (lines ++ [line]) := by
  unfold Layout.line
  split
  · rename_i item hitem
    obtain ⟨⟨groups, opened, rfl, hparts, hopened⟩, hpara⟩ := h.flushPara
    refine ⟨groups, opened ++ [line], List.append_assoc _ _ _, hparts, .items hpara ?_⟩
    cases hopened with
    | para hitems hlines hplain =>
      rw [← hlines, hpara]
      exact List.rel_append (by rw [hitems]; exact .nil) (.cons hitem .nil)
    | items _ hlist => exact List.rel_append hlist (.cons hitem .nil)
  · rename_i hnone
    obtain ⟨⟨groups, opened, rfl, hparts, hopened⟩, hitems, -⟩ := h.flushList
    refine ⟨groups, opened ++ [line], List.append_assoc _ _ _, hparts, ?_⟩
    have hlines : s.flushList.para = opened ∧ ∀ line ∈ opened, bullet ch line = none := by
      cases hopened with
      | para _ hlines hplain => exact ⟨hlines, hplain⟩
      | items hpara hlist =>
        rw [hitems] at hlist
        cases hlist
        exact ⟨hpara, fun _ h => by cases h⟩
    refine .para hitems (congrArg (· ++ [line]) hlines.1) (List.forall_mem_append.mpr ⟨hlines.2, fun l hl => ?_⟩)
    rw [List.mem_singleton.mp hl]
    exact hnone

theorem holds_lines (all : List (List G)) : ∀ {s : Layout G} {lines : List (List G)}, s.Holds ch newline lines →
    (all.foldl (Layout.line ch newline) s).Holds ch newline (lines ++ all) := by
  induction all with
  | nil =>
    intro s lines h
    rwa [List.append_nil]
  | cons line all ih =>
    intro s lines h
    rw [List.append_cons]
    exact ih (h.line line)

/-- The parts of an answer are its lines, in order. -/
theorem parts_of (ch : G → Char) (newline : G) (text : List G) :
    ∃ groups, groups.flatten = splitFrom ch [] text ∧ List.Forall₂ (Part.Of ch newline) (parts ch newline text) groups := by
  have hstart : Layout.Holds ch newline ⟨[], [], []⟩ [] := ⟨[], [], rfl, .nil, .items rfl .nil⟩
  obtain ⟨hflushed, hpara⟩ := (holds_lines (splitFrom ch [] text) hstart).flushPara
  obtain ⟨⟨groups, opened, hlines, hparts, hopened⟩, hitems, hkept⟩ := hflushed.flushList
  rw [hopened.eq_nil (hkept hpara) hitems, List.append_nil, List.nil_append] at hlines
  exact ⟨groups, hlines.symm, hparts⟩

theorem of_parse {part : Part G} {lines : List (List G)} (h : part.Of ch newline lines) :
    (part.parse ch).Of ch newline lines := by
  cases part with
  | para text =>
    obtain ⟨hne, hplain, rfl⟩ := h
    exact ⟨hne, hplain, spells_parseInline _⟩
  | list items =>
    refine ⟨h.1, List.forall₂_map_left_iff.mpr (h.2.imp fun item line hitem => ?_)⟩
    exact ⟨item, hitem, spells_parseInline item⟩

/-- The blocks of an answer are its lines in order, a paragraph for lines without a bullet
and an item for a line with one, and their spans, written back, are the text of these. -/
theorem parseAnswer_lossless (ch : G → Char) {newline : G} (hnewline : ch newline = '\n') (text : List G) :
    ([newline].intercalate (splitFrom ch [] text)).map ch = text.map ch ∧
      ∃ groups, groups.flatten = splitFrom ch [] text ∧
        List.Forall₂ (Block.Of ch newline) (parseAnswer ch newline text) groups := by
  refine ⟨splitFrom_intercalate hnewline text [], ?_⟩
  obtain ⟨groups, hlines, hparts⟩ := parts_of ch newline text
  exact ⟨groups, hlines, List.forall₂_map_left_iff.mpr (hparts.imp fun _ _ => of_parse)⟩

theorem parseAnswer_lossless_bullet :
    ∃ groups, groups.flatten = splitFrom id [] "a **b**\n- [07]".toList ∧
      List.Forall₂ (Block.Of id '\n') (parseAnswer id '\n' "a **b**\n- [07]".toList) groups :=
  (parseAnswer_lossless id rfl "a **b**\n- [07]".toList).2

end Reading

end CiteVyn.Frontend.AnswerFormat
