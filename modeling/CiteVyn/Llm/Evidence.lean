import CiteVyn.Llm.Groups

/-! # Rewriting "the provided evidence"

`rewrite_evidence_references` of `app/llm/validation.py`: a phrase headed by
"evidence" becomes "the sources I found", and the verb after it is made
plural. The file ends with what the citation scanner needs to know: the
rewrite edits prose only and touches no marker. -/
namespace CiteVyn.Llm
open CiteVyn.Lib.Scan CiteVyn.Text

/-! ## The closed lists -/

def premodifiers : List Str :=
  ["provided", "supplied", "given", "available", "retrieved", "above", "listed"].map String.toList

def pluralHeads : List Str := ["bullets", "items", "snippets", "excerpts"].map String.toList

def adverbs : List Str :=
  ["clearly", "only", "also", "explicitly", "specifically", "directly", "not"].map String.toList

def prepositions : List Str :=
  ["in", "of", "from", "within", "across", "on", "at", "by", "for", "with", "throughout", "among",
    "about", "under", "inside", "through", "into", "over"].map String.toList

/-- `_EVIDENCE_VERBS`. -/
def evidenceVerbs : List (Str × Str) :=
  [("mentions", "mention"), ("says", "say"), ("states", "state"), ("shows", "show"),
    ("lists", "list"), ("contains", "contain"), ("describes", "describe"),
    ("indicates", "indicate"), ("suggests", "suggest"), ("notes", "note"),
    ("includes", "include"), ("covers", "cover"), ("explains", "explain"),
    ("specifies", "specify"), ("confirms", "confirm"), ("provides", "provide"),
    ("does", "do"), ("doesn't", "don't"), ("is", "are"), ("isn't", "aren't"), ("has", "have"),
    ("hasn't", "haven't"), ("was", "were"), ("wasn't", "weren't")].map fun (singular, plural) =>
      (singular.toList, plural.toList)

def sourcesIFound : Str := "the sources I found".toList

/-- U+2019. -/
def curlyApostrophe : Char := '\u2019'

def isApostrophe (c : Char) : Bool := c == '\'' || c == curlyApostrophe

/-! ## The patterns -/

/-- How many blanks a text starts with. -/
def blanks (s : Str) : Nat := (s.takeWhile isBlank).length

/-- One of `words` at offset `n`, then blanks, at least one: the offset after
them. -/
def wordAndBlanks (words : List Str) (s : Str) (n : Nat) : Option Nat :=
  match words.find? fun w => literal w (s.drop n) with
  | none => none
  | some w =>
    let b := blanks (s.drop (n + w.length))
    if b == 0 then none else some (n + w.length + b)

/-- `_EVIDENCE_PHRASE_RE`: the length of the match and whether its group `head`
took part. -/
def evidencePhrase (u : Unicode) (pre rest : Str) : Option (Nat × Bool) :=
  let boundary (n : Nat) := u.wordBoundary ((rest.take n).reverse ++ pre) (rest.drop n)
  if !boundary 0 then none
  else
    match wordAndBlanks ["the".toList] rest 0 with
    | none => none
    | some n1 =>
      let n2 := (wordAndBlanks premodifiers rest n1).getD n1
      let n3 := n2 + 8
      if !literal "evidence".toList (rest.drop n2) || !boundary n3 then none
      else
        let n4 := n3 + blanks (rest.drop n3)
        match pluralHeads.find? fun w => literal w (rest.drop n4) with
        | none => some (n3, false)
        | some w =>
          if n4 == n3 || !boundary (n4 + w.length) then some (n3, false)
          else some (n4 + w.length, true)

def evidencePattern (u : Unicode) : Pattern Char := fun pre rest =>
  (evidencePhrase u pre rest).map Prod.fst

/-- One bracketed run of numbers of `_EVIDENCE_END_RE`: the offset after it. -/
def bracketedNumbers : Str → Option Nat
  | '[' :: d :: cs => if isAsciiDigit d then groupEnd (.number true) 2 cs else none
  | _ => none

/-- The text after the bracketed numbers `_EVIDENCE_END_RE` skips. -/
def afterNumbers : Nat → Str → Str
  | 0, s => s
  | fuel + 1, s =>
    match bracketedNumbers (s.dropWhile isBlank) with
    | none => s
    | some n => afterNumbers fuel ((s.dropWhile isBlank).drop n)

/-- `_EVIDENCE_END_RE.match`. Each bracketed run takes characters, so the length
of the text is fuel enough. -/
def evidenceEnd (s : Str) : Bool :=
  match (afterNumbers s.length s).dropWhile isBlank with
  | [] => true
  | c :: _ => [',', '.', ';', ':', ')', '!', '?'].contains c

/-- The group `verb` of `_EVIDENCE_VERB_RE`, by its length: letters, at most one
apostrophe between letters, and neither a letter nor an apostrophe after. -/
def verbLength (s : Str) : Option Nat :=
  let w := (s.takeWhile isLetterIgnoreCase).length
  if w == 0 then none
  else
    match s.drop w with
    | [] => some w
    | c :: cs =>
      if !isApostrophe c then some w
      else
        let t := (cs.takeWhile isLetterIgnoreCase).length
        if t == 0 || (cs.drop t).head?.any isApostrophe then none else some (w + 1 + t)

/-- `_EVIDENCE_VERB_RE.match`: start and end of its group `verb`. -/
def evidenceVerb (s : Str) : Option (Nat × Nat) :=
  let n := blanks s
  if n == 0 then none
  else
    let verbFrom (n : Nat) := (verbLength (s.drop n)).map fun k => (n, n + k)
    ((wordAndBlanks adverbs s n).bind verbFrom).or (verbFrom n)

/-- `_PREPOSITION_BEFORE_RE.search(masked, line_start, i)`, with the characters
before `i`, nearest first, and how many of them are on the line. -/
def prepositionBefore (u : Unicode) (pre : Str) (onLine : Nat) : Bool :=
  let b := blanks pre
  b != 0 && prepositions.any fun w =>
    let r := pre.drop b
    literal w.reverse r && b + w.length ≤ onLine &&
      u.wordBoundary (r.drop w.length) (r.take w.length).reverse

/-! ## The rewrite -/

/-- `like.isupper()`. -/
def isUpper (s : Str) : Bool := s.any isUpperAscii && !s.any isLowerAscii

/-- `word[:1].upper() + word[1:]`. -/
def capital : Str → Str
  | [] => []
  | c :: cs => upperAscii c :: cs

/-- `_match_case`. -/
def matchCase (word like : Str) : Str :=
  if 1 < like.length && isUpper like then upper word
  else if isUpper (like.take 1) then capital word
  else word

/-- `_verb_key`. -/
def verbKey (verb : Str) : Str :=
  (lower verb).map fun c => if c == curlyApostrophe then '\'' else c

/-- `_plural_verb`. -/
def pluralVerb (verb : Str) : Option Str :=
  match evidenceVerbs.lookup (verbKey verb) with
  | none => none
  | some plural =>
    let plural :=
      if verb.contains curlyApostrophe then
        plural.map fun c => if c == '\'' then curlyApostrophe else c
      else plural
    some (matchCase plural verb)

/-- `_follower_edit`. -/
def followerEdit (masked : Str) (pos : Nat) (pluralHead afterPreposition : Bool) :
    Option (Nat × Nat × Str) :=
  let s := masked.drop pos
  if evidenceEnd s then some (pos, pos, [])
  else
    match evidenceVerb s with
    | none => none
    | some (start, stop) =>
      let verb := slice s start stop
      let isPlural := (evidenceVerbs.map Prod.snd).contains (verbKey verb)
      if afterPreposition then
        if (evidenceVerbs.map Prod.fst).contains (verbKey verb) || isPlural then
          some (pos, pos, [])
        else none
      else if pluralHead then if isPlural then some (pos, pos, []) else none
      else (pluralVerb verb).map fun plural => (pos + start, pos + stop, plural)

/-- The loop body of `rewrite_evidence_references`: from the start of the
phrase to the end of its verb. -/
def evidenceEdit (u : Unicode) (text masked : Str) (i j : Nat) : Option (Nat × Nat × Str) :=
  let pre := (masked.take i).reverse
  let head := (evidencePhrase u pre (masked.drop i)).any Prod.snd
  let afterPreposition := prepositionBefore u pre (lastLine (text.take i)).length
  let edit :=
    if (fenceRun (lineAround text i j)).isSome then none
    else followerEdit masked j head afterPreposition
  edit.map fun (start, stop, verb) =>
    (i, stop, matchCase sourcesIFound ((text.drop i).take 1) ++ slice text j start ++ verb)

structure EvidencePhraseRewrite where
  text : Str
  rewrites : Nat
  skipped : Nat
  deriving Repr, DecidableEq

def evidenceEdits (u : Unicode) (text : Str) : List (Nat × Nat × Str) :=
  let masked := maskCode text
  (finditer (evidencePattern u) masked).filterMap fun (i, j) => evidenceEdit u text masked i j

/-- `rewrite_evidence_references`. -/
def rewriteEvidenceReferences (u : Unicode) (text : Str) : EvidencePhraseRewrite :=
  let edits := evidenceEdits u text
  { text := splice text 0 edits
    rewrites := edits.length
    skipped := (finditer (evidencePattern u) (maskCode text)).length - edits.length }

example : rewriteEvidenceReferences .ascii "The evidence SAYS it".toList =
    ⟨"The sources I found SAY it".toList, 1, 0⟩ := by decide +kernel

/-! ## The characters a rewrite takes and puts -/

/-- A character that is in no marker, opens no code, ends no line and is not
the mask. -/
def isProseChar (c : Char) : Bool := isMarkerFree c && c != '`' && c != '\n' && c != codeMask

/-- The decimal digits before U+0660 are the ASCII ones. -/
theorem isDecimal_eq_false {c : Char} (h : c.toNat < 48 ∨ (57 < c.toNat ∧ c.toNat < 0x660)) :
    isDecimal c = false := by
  have hfind : (decimalZeros.find? fun z => z ≤ c.toNat && c.toNat < z + 10) = none := by
    rw [List.find?_eq_none]
    intro z hz
    have hz' : z = 0x30 ∨ 0x660 ≤ z := by
      revert z
      decide
    simp only [Bool.and_eq_true, decide_eq_true_eq, not_and, not_lt]
    omega
  simp [isDecimal, decimalValue, hfind]

theorem toNat_ne {c d : Char} (h : c.toNat ≠ d.toNat) : c ≠ d := fun he => h (by rw [he])

theorem isProseChar_of_lt {c : Char} (h : c.toNat < 0x660) (h0 : c.toNat ≠ 0) (h1 : c.toNat ≠ 10)
    (h2 : ¬(48 ≤ c.toNat ∧ c.toNat ≤ 57)) (h3 : c.toNat ≠ 91) (h4 : c.toNat ≠ 93)
    (h5 : c.toNat ≠ 96) : isProseChar c = true := by
  have hd : isDecimal c = false := isDecimal_eq_false (by omega)
  have hne (d : Char) (hd : c.toNat ≠ d.toNat) : (c != d) = true := by simpa using toNat_ne hd
  simp only [isProseChar, isMarkerFree, hd, hne '[' h3, hne ']' h4, hne '`' h5, hne '\n' h1,
    hne codeMask h0, Bool.not_false, Bool.and_self]

theorem isProseChar_of_letter {c : Char} (h : isLetterIgnoreCase c = true) :
    isProseChar c = true := by
  by_cases hk : c = '\u212A'
  · subst hk
    decide
  have hr : (65 ≤ c.toNat ∧ c.toNat ≤ 90) ∨ (97 ≤ c.toNat ∧ c.toNat ≤ 122) ∨ c.toNat = 0x130 ∨
      c.toNat = 0x131 ∨ c.toNat = 0x17F := by
    simp only [isLetterIgnoreCase, isUpperAscii, isLowerAscii, Bool.or_eq_true, Bool.and_eq_true,
      decide_eq_true_eq, Char.le_def, beq_iff_eq] at h
    rcases h with ((((h | h) | rfl) | rfl) | rfl) | h
    · exact .inl h
    · exact .inr (.inl h)
    · decide
    · decide
    · decide
    · exact absurd h hk
  exact isProseChar_of_lt (by omega) (by omega) (by omega) (by omega) (by omega) (by omega)
    (by omega)

theorem isProseChar_of_blank {c : Char} (h : isBlank c = true) : isProseChar c = true := by
  simp only [isBlank, Bool.or_eq_true, beq_iff_eq] at h
  rcases h with rfl | rfl <;> decide

theorem isProseChar_of_apostrophe {c : Char} (h : isApostrophe c = true) :
    isProseChar c = true := by
  simp only [isApostrophe, Bool.or_eq_true, beq_iff_eq] at h
  rcases h with rfl | rfl <;> decide

theorem prose_of_all {s : Str} (hne : s ≠ []) (h : s.all isProseChar = true) : Prose s := by
  have hmem (c : Char) (hc : isProseChar c = false) : c ∉ s := fun hin => by
    rw [List.all_eq_true.mp h c hin] at hc
    cases hc
  exact ⟨hne, hmem _ (by decide), hmem _ (by decide), hmem _ (by decide)⟩

theorem all_isMarkerFree {s : Str} (h : s.all isProseChar = true) : s.all isMarkerFree = true := by
  rw [List.all_eq_true] at h ⊢
  intro c hc
  have := h c hc
  simp only [isProseChar, Bool.and_eq_true] at this
  exact this.1.1.1

/-! ## What the patterns match -/

/-- What a literal matches ends in the literal's last letter. -/
theorem literal_getLast : ∀ {w s : Str} {c : Char}, literal w s = true →
    (s.take w.length).getLast? = some c → ∃ p, w.getLast? = some p ∧ eqIgnoreCase p c = true
  | [], _, _, _, h => by cases h
  | _ :: _, [], _, h, _ => by cases h
  | [p], d :: s, c, h, hc => by
    obtain rfl : d = c := by simpa using hc
    exact ⟨p, rfl, by simpa [literal] using h⟩
  | p :: q :: w, d :: s, c, h, hc => by
    simp only [literal, Bool.and_eq_true] at h
    have hs : s ≠ [] := by
      rintro rfl
      cases h.2
    obtain ⟨x, xs, rfl⟩ := List.exists_cons_of_ne_nil hs
    have hc' : ((x :: xs).take (q :: w).length).getLast? = some c := by
      simpa [List.getLast?_cons_cons] using hc
    obtain ⟨r, hr, he⟩ := literal_getLast h.2 hc'
    exact ⟨r, by simpa [List.getLast?_cons_cons] using hr, he⟩

theorem take_blanks (s : Str) : (s.take (blanks s)).all isBlank = true := by
  exact take_takeWhile_all isBlank s

theorem blanks_le (s : Str) : blanks s ≤ s.length := (List.takeWhile_prefix isBlank).length_le

/-- A word and the blanks after it, cut off the text. -/
theorem wordAndBlanks_spec {words : List Str} {s : Str} {n m : Nat}
    (h : wordAndBlanks words s n = some m) :
    ∃ w k, w ∈ words ∧ literal w (s.drop n) = true ∧ m = n + w.length + k ∧ k ≠ 0 ∧
      k = blanks (s.drop (n + w.length)) := by
  unfold wordAndBlanks at h
  cases hf : words.find? fun w => literal w (s.drop n) with
  | none =>
    rw [hf] at h
    cases h
  | some w =>
    rw [hf] at h
    simp only [beq_iff_eq] at h
    split at h
    · cases h
    · rename_i hk
      have hlit : literal w (s.drop n) = true :=
        List.find?_some (p := fun w => literal w (s.drop n)) hf
      exact ⟨w, _, List.mem_of_find?_eq_some hf, hlit, (Option.some.inj h).symm, hk, rfl⟩

theorem wordAndBlanks_all {words : List Str} {s : Str} {n m : Nat}
    (hw : ∀ w ∈ words, w.all isLowerAscii = true) (h : wordAndBlanks words s n = some m) :
    n < m ∧ m ≤ s.length ∧ ((s.drop n).take (m - n)).all isProseChar = true := by
  obtain ⟨w, k, hmem, hlit, rfl, hk, hb⟩ := wordAndBlanks_spec h
  have hl := literal_length hlit
  have hle := blanks_le (s.drop (n + w.length))
  rw [← hb] at hle
  simp only [List.length_drop] at hl hle
  refine ⟨by omega, by omega, ?_⟩
  rw [show n + w.length + k - n = w.length + k by omega]
  refine all_take_add ?_ ?_
  · rw [List.all_eq_true]
    intro c hc
    exact isProseChar_of_letter (List.all_eq_true.mp (literal_all (hw w hmem) hlit) c hc)
  · rw [List.drop_drop, List.all_eq_true, hb]
    intro c hc
    exact isProseChar_of_blank (List.all_eq_true.mp (take_blanks _) c hc)

/-- Where a phrase can start: "the" in any case, then a blank. -/
def startsThe (s : Str) : Bool := literal "the".toList s && (s.drop 3).head?.any isBlank

theorem literal_prose (words : List Str) {w s : Str}
    (hw : ∀ w ∈ words, w.all isLowerAscii = true) (hmem : w ∈ words) (h : literal w s = true) :
    (s.take w.length).all isProseChar = true := by
  rw [List.all_eq_true]
  intro c hc
  exact isProseChar_of_letter (List.all_eq_true.mp (literal_all (hw w hmem) h) c hc)

theorem evidencePhrase_spec {u : Unicode} {pre rest : Str} {n : Nat} {head : Bool}
    (h : evidencePhrase u pre rest = some (n, head)) :
    startsThe rest = true ∧ n ≤ rest.length ∧ (rest.take n).all isProseChar = true := by
  unfold evidencePhrase at h
  simp only at h
  split at h
  · cases h
  cases hthe : wordAndBlanks ["the".toList] rest 0 with
  | none =>
    rw [hthe] at h
    cases h
  | some n1 =>
    rw [hthe] at h
    simp only at h
    obtain ⟨h01, h1, hall1⟩ := wordAndBlanks_all (by decide) hthe
    have hstart : startsThe rest = true := by
      obtain ⟨w, k, hw, hlit, _, hk, hb⟩ := wordAndBlanks_spec hthe
      obtain rfl : w = "the".toList := by simpa using hw
      simp only [List.drop_zero, Nat.zero_add] at hlit hb
      rw [startsThe, hlit, Bool.true_and]
      change k = blanks (rest.drop 3) at hb
      cases hd : rest.drop 3 with
      | nil =>
        rw [hd] at hb
        exact absurd hb hk
      | cons c cs =>
        rw [hd, blanks, List.takeWhile_cons] at hb
        split at hb
        · rename_i hc
          simpa using hc
        · exact absurd hb hk
    generalize hn2 : (wordAndBlanks premodifiers rest n1).getD n1 = n2 at h
    have h2 : n1 ≤ n2 ∧ n2 ≤ rest.length ∧ (rest.take n2).all isProseChar = true := by
      cases hpre : wordAndBlanks premodifiers rest n1 with
      | none =>
        rw [hpre] at hn2
        obtain rfl : n1 = n2 := hn2
        exact ⟨Nat.le_refl _, h1, by simpa using hall1⟩
      | some m =>
        rw [hpre] at hn2
        obtain rfl : m = n2 := hn2
        obtain ⟨hlt, hle, hall⟩ := wordAndBlanks_all (by decide) hpre
        refine ⟨hlt.le, hle, ?_⟩
        have := all_take_add (n := n1) (by simpa using hall1) hall
        rwa [Nat.add_sub_cancel' hlt.le] at this
    split at h
    · cases h
    rename_i hev
    simp only [Bool.or_eq_true, Bool.not_eq_true', not_or, Bool.not_eq_false] at hev
    have hev1 := literal_length hev.1
    have h3 : n2 + 8 ≤ rest.length := by
      simp only [List.length_drop] at hev1
      have : "evidence".toList.length = 8 := rfl
      omega
    have hall3 : (rest.take (n2 + 8)).all isProseChar = true :=
      all_take_add h2.2.2 (literal_prose ["evidence".toList] (by decide) (by simp) hev.1)
    split at h
    · obtain ⟨rfl, _⟩ := Prod.mk.inj (Option.some.inj h)
      exact ⟨hstart, h3, hall3⟩
    · rename_i w hw
      have hlit : literal w (rest.drop (n2 + 8 + blanks (rest.drop (n2 + 8)))) = true :=
        List.find?_some (p := fun w => literal w (rest.drop (n2 + 8 + blanks (rest.drop (n2 + 8))))) hw
      split at h
      · obtain ⟨rfl, _⟩ := Prod.mk.inj (Option.some.inj h)
        exact ⟨hstart, h3, hall3⟩
      · obtain ⟨rfl, _⟩ := Prod.mk.inj (Option.some.inj h)
        have hble := blanks_le (rest.drop (n2 + 8))
        have hl := literal_length hlit
        simp only [List.length_drop] at hble hl
        refine ⟨hstart, by omega, all_take_add (all_take_add hall3 ?_) ?_⟩
        · rw [List.all_eq_true]
          intro c hc
          exact isProseChar_of_blank (List.all_eq_true.mp (take_blanks _) c hc)
        · exact literal_prose pluralHeads (by decide) (List.mem_of_find?_eq_some hw) hlit

theorem evidencePattern_sound (u : Unicode) : Sound (evidencePattern u) := by
  intro pre s n h
  obtain ⟨⟨k, head⟩, hk, rfl⟩ := Option.map_eq_some_iff.mp h
  exact (evidencePhrase_spec hk).2.1

/-! ## No phrase starts inside a rewritten verb -/

/-- No phrase starts in `w` when `tail` follows it. -/
def NoPhraseIn (w tail : Str) : Prop :=
  ∀ p t, w = p ++ t → t ≠ [] → startsThe (t ++ tail) = false

theorem NoPhraseIn.append {a b tail : Str} (ha : NoPhraseIn a (b ++ tail))
    (hb : NoPhraseIn b tail) : NoPhraseIn (a ++ b) tail := by
  intro p t hpt ht
  rcases List.append_eq_append_iff.mp hpt with ⟨as, rfl, rfl⟩ | ⟨bs, rfl, rfl⟩
  · exact hb as t rfl ht
  · by_cases hbs : bs = []
    · subst hbs
      exact hb [] b rfl ht
    · have := ha p bs rfl hbs
      simpa using this

/-- The letters only their own two cases fold to. -/
theorem eqIgnoreCase_plain {p c : Char} (hi : p ≠ 'i') (hs : p ≠ 's') (hk : p ≠ 'k')
    (h : eqIgnoreCase p c = true) : c = p ∨ c = upperAscii p := by
  simp only [eqIgnoreCase, Bool.or_eq_true, Bool.and_eq_true, beq_iff_eq] at h
  rcases h with (((h | h) | ⟨h, _⟩) | ⟨h, _⟩) | ⟨h, _⟩
  · exact .inl h
  · exact .inr h.symm
  · exact absurd h hi
  · exact absurd h hs
  · exact absurd h hk

theorem startsThe_head {c : Char} {s : Str} (h : startsThe (c :: s) = true) : c = 't' ∨ c = 'T' := by
  simp only [startsThe, Bool.and_eq_true] at h
  have h1 := h.1
  rw [show "the".toList = ['t', 'h', 'e'] from rfl] at h1
  simp only [literal, Bool.and_eq_true] at h1
  exact eqIgnoreCase_plain (by decide) (by decide) (by decide) h1.1

theorem noPhraseIn_blanks {w : Str} (h : w.all isBlank = true) (tail : Str) : NoPhraseIn w tail := by
  intro p t hpt ht
  obtain ⟨c, cs, rfl⟩ := List.exists_cons_of_ne_nil ht
  by_contra hthe
  have hc : isBlank c = true := List.all_eq_true.mp h c (by simp [hpt])
  rcases startsThe_head (by simpa using hthe) with rfl | rfl <;> revert hc <;> decide

/-- In a word that does not end in "e" and is not followed by a letter, no
phrase starts: "the" needs a blank after it. -/
theorem noPhraseIn_word {w tail : Str} (hw : w.all (fun c => !isBlank c) = true)
    (hlast : ∀ c, w.getLast? = some c → c ≠ 'e' ∧ c ≠ 'E')
    (htail : ∀ c, tail.head? = some c → isLetterIgnoreCase c = false) : NoPhraseIn w tail := by
  intro p t hpt ht
  by_contra hthe
  simp only [startsThe, Bool.not_eq_false, Bool.and_eq_true,
    show "the".toList = ['t', 'h', 'e'] from rfl] at hthe
  have hletter (q : Char) (hq : isLowerAscii q = true) (tail' : Str) (h : tail' = tail)
      (ps : Str) : literal (q :: ps) tail' = false := by
    subst h
    cases htl : tail' with
    | nil => rfl
    | cons d ds =>
      have hd := htail d (by rw [htl]; rfl)
      simp only [literal, Bool.and_eq_false_iff]
      left
      by_contra he
      rw [eqIgnoreCase_letter hq (by simpa using he)] at hd
      cases hd
  rcases t with _ | ⟨a, _ | ⟨b, _ | ⟨c, _ | ⟨d, t⟩⟩⟩⟩
  · exact ht rfl
  · simp [literal, hletter 'h' (by decide) tail rfl] at hthe
  · simp [literal, hletter 'e' (by decide) tail rfl] at hthe
  · simp only [List.cons_append, List.nil_append, literal, Bool.and_eq_true] at hthe
    have := hlast c (by rw [hpt]; simp)
    rcases eqIgnoreCase_plain (by decide) (by decide) (by decide) hthe.1.2.2.1 with rfl | rfl
    · exact this.1 rfl
    · exact this.2 rfl
  · have hd := List.all_eq_true.mp hw d (by rw [hpt]; simp)
    have hb : isBlank d = true := by simpa using hthe.2
    rw [hb] at hd
    cases hd

/-- A character of a verb. -/
def isVerbChar (c : Char) : Bool := isLetterIgnoreCase c || isApostrophe c

theorem not_isBlank_of_letter {c : Char} (h : isLetterIgnoreCase c = true) : isBlank c = false := by
  by_contra hb
  simp only [isBlank, Bool.not_eq_false, Bool.or_eq_true, beq_iff_eq] at hb
  rcases hb with rfl | rfl <;> revert h <;> decide

/-- No phrase starts in one of the adverbs and the blanks after it. -/
theorem noPhraseIn_adverb {s : Str} {n m : Nat} (h : wordAndBlanks adverbs s n = some m) (tail : Str) :
    NoPhraseIn ((s.drop n).take (m - n)) tail := by
  obtain ⟨w, k, hmem, hlit, rfl, hk, hb⟩ := wordAndBlanks_spec h
  have hlower : ∀ w ∈ adverbs, w.all isLowerAscii = true := by decide
  have hends : ∀ w ∈ adverbs,
      w.getLast?.all (fun p => !eqIgnoreCase p 'e' && !eqIgnoreCase p 'E') = true := by decide
  have hblanks : ((s.drop (n + w.length)).take k).all isBlank = true := hb ▸ take_blanks _
  rw [show n + w.length + k - n = w.length + k by omega, List.take_add, List.drop_drop]
  refine NoPhraseIn.append (noPhraseIn_word ?_ ?_ ?_) (noPhraseIn_blanks hblanks _)
  · rw [List.all_eq_true]
    intro c hc
    simpa using not_isBlank_of_letter
      (List.all_eq_true.mp (literal_all (hlower w hmem) hlit) c hc)
  · intro c hc
    obtain ⟨p, hp, he⟩ := literal_getLast hlit hc
    have hends := hends w hmem
    rw [hp] at hends
    simp only [Option.all_some, Bool.and_eq_true, Bool.not_eq_true'] at hends
    constructor
    · rintro rfl
      rw [hends.1] at he
      cases he
    · rintro rfl
      rw [hends.2] at he
      cases he
  · intro c hc
    have hle := blanks_le (s.drop (n + w.length))
    rw [← hb] at hle
    rw [List.head?_append_of_ne_nil _ (by
      intro hnil
      have := congrArg List.length hnil
      simp only [List.length_take, List.length_nil] at this
      omega)] at hc
    by_contra hl
    have := List.all_eq_true.mp hblanks c (List.mem_of_head? hc)
    rw [not_isBlank_of_letter (by simpa using hl)] at this
    cases this

theorem verbLength_spec {s : Str} {k : Nat} (h : verbLength s = some k) :
    k ≤ s.length ∧ (s.take k).all isVerbChar = true ∧
      ∀ c, (s.drop k).head? = some c → isLetterIgnoreCase c = false := by
  have run (s : Str) : (s.takeWhile isLetterIgnoreCase).length ≤ s.length ∧
      (s.take (s.takeWhile isLetterIgnoreCase).length).all
        isVerbChar = true ∧
      ∀ c, (s.drop (s.takeWhile isLetterIgnoreCase).length).head? = some c →
        isLetterIgnoreCase c = false := by
    refine ⟨(List.takeWhile_prefix _).length_le, ?_, fun c hc => ?_⟩
    · rw [← List.prefix_iff_eq_take.mp (List.takeWhile_prefix isLetterIgnoreCase),
        List.all_eq_true]
      intro c hc
      simp [isVerbChar, List.mem_takeWhile_imp hc]
    · rw [drop_takeWhile_length] at hc
      have := List.head?_dropWhile_not isLetterIgnoreCase s
      rw [hc] at this
      simpa using this
  obtain ⟨hle, hall, hstop⟩ := run s
  unfold verbLength at h
  simp only at h
  split at h
  · cases h
  split at h
  · obtain rfl := Option.some.inj h
    exact ⟨hle, hall, hstop⟩
  · rename_i c cs hd
    split at h
    · obtain rfl := Option.some.inj h
      exact ⟨hle, hall, hstop⟩
    · rename_i hap
      split at h
      · cases h
      · obtain rfl := Option.some.inj h
        obtain ⟨hle', hall', hstop'⟩ := run cs
        have hcs : s.drop ((s.takeWhile isLetterIgnoreCase).length + 1) = cs := by
          rw [← List.drop_drop, hd, List.drop_one, List.tail_cons]
        have hlen := congrArg List.length hd
        simp only [List.length_drop, List.length_cons] at hlen
        refine ⟨by omega, all_take_add (all_take_add hall ?_) (hcs ▸ hall'), fun d hd' => ?_⟩
        · rw [hd]
          simpa [isVerbChar] using .inr (by simpa using hap)
        · rw [← List.drop_drop, hcs] at hd'
          exact hstop' d hd'

theorem isProseChar_of_verb {c : Char} (h : isVerbChar c = true) : isProseChar c = true := by
  rcases Bool.or_eq_true_iff.mp h with h | h
  · exact isProseChar_of_letter h
  · exact isProseChar_of_apostrophe h

theorem isVerbChar_upperAscii {c : Char} (h : isVerbChar c = true) :
    isVerbChar (upperAscii c) = true := by
  by_cases hl : isLowerAscii c = true
  · simp [isVerbChar, isLetterIgnoreCase, isUpperAscii_upperAscii hl]
  · have : upperAscii c = c := if_neg hl
    rwa [this]

theorem matchCase_all {word : Str} (like : Str) (h : word.all isVerbChar = true) :
    (matchCase word like).all isVerbChar = true := by
  unfold matchCase
  split
  · rw [List.all_eq_true] at h ⊢
    intro c hc
    obtain ⟨d, hd, rfl⟩ := List.mem_map.mp hc
    exact isVerbChar_upperAscii (h d hd)
  split
  · cases word with
    | nil => rfl
    | cons c cs =>
      simp only [capital, List.all_cons, Bool.and_eq_true] at h ⊢
      exact ⟨isVerbChar_upperAscii h.1, h.2⟩
  · exact h

theorem evidenceVerb_spec {s : Str} {start stop : Nat} (h : evidenceVerb s = some (start, stop)) :
    start ≤ stop ∧ stop ≤ s.length ∧ (s.take stop).all isProseChar = true ∧
      ((∀ c, (slice s start stop).getLast? = some c → c ≠ 'e' ∧ c ≠ 'E') →
        NoPhraseIn (s.take stop) (s.drop stop)) := by
  -- from the offset where the verb starts
  have verb (n : Nat) (hn : n ≤ s.length) (hp : (s.take n).all isProseChar = true)
      (hno : NoPhraseIn (s.take n) (s.drop n))
      (hv : ((verbLength (s.drop n)).map fun k => (n, n + k)) = some (start, stop)) :
      start ≤ stop ∧ stop ≤ s.length ∧ (s.take stop).all isProseChar = true ∧
        ((∀ c, (slice s start stop).getLast? = some c → c ≠ 'e' ∧ c ≠ 'E') →
          NoPhraseIn (s.take stop) (s.drop stop)) := by
    obtain ⟨k, hk, he⟩ := Option.map_eq_some_iff.mp hv
    obtain ⟨rfl, rfl⟩ := Prod.mk.inj he
    obtain ⟨hle, hall, hstop⟩ := verbLength_spec hk
    simp only [List.length_drop] at hle
    refine ⟨Nat.le_add_right _ _, by omega, all_take_add hp ?_, fun hlast => ?_⟩
    · rw [List.all_eq_true] at hall ⊢
      exact fun c hc => isProseChar_of_verb (hall c hc)
    · have hs : slice s n (n + k) = (s.drop n).take k := by
        rw [slice, List.drop_take, Nat.add_sub_cancel_left]
      rw [hs] at hlast
      rw [List.take_add]
      refine NoPhraseIn.append ?_ (noPhraseIn_word ?_ hlast (by rwa [List.drop_drop] at hstop))
      · rwa [← List.drop_drop, List.take_append_drop]
      · rw [List.all_eq_true] at hall ⊢
        intro c hc
        rcases Bool.or_eq_true_iff.mp (hall c hc) with hl | ha
        · simp [not_isBlank_of_letter hl]
        · simp only [isApostrophe, Bool.or_eq_true, beq_iff_eq] at ha
          rcases ha with rfl | rfl <;> decide
  have hblank : (s.take (blanks s)).all isProseChar = true := by
    rw [List.all_eq_true]
    exact fun c hc => isProseChar_of_blank (List.all_eq_true.mp (take_blanks s) c hc)
  have hno := noPhraseIn_blanks (take_blanks s) (s.drop (blanks s))
  unfold evidenceVerb at h
  simp only at h
  split at h
  · cases h
  rcases Option.or_eq_some_iff.mp h with h | ⟨_, h⟩
  · obtain ⟨m, hm, hv⟩ := Option.bind_eq_some_iff.mp h
    obtain ⟨hlt, hle, hall⟩ := wordAndBlanks_all (by decide) hm
    have hadd : blanks s + (m - blanks s) = m := by omega
    refine verb m hle ?_ ?_ hv
    · have := all_take_add hblank hall
      rwa [hadd] at this
    · have hcut : s.take m = s.take (blanks s) ++ (s.drop (blanks s)).take (m - blanks s) := by
        rw [← List.take_add, hadd]
      rw [hcut]
      refine NoPhraseIn.append (noPhraseIn_blanks (take_blanks s) _) (noPhraseIn_adverb hm _)
  · exact verb (blanks s) (blanks_le s) hblank hno h

theorem verbKey_append (a b : Str) : verbKey (a ++ b) = verbKey a ++ verbKey b := by
  simp [verbKey, lower]

/-- No mapped verb ends in "e". -/
theorem getLast_of_mapped {verb plural : Str} (h : (verbKey verb, plural) ∈ evidenceVerbs) :
    ∀ c, verb.getLast? = some c → c ≠ 'e' ∧ c ≠ 'E' := by
  have hends : ∀ e ∈ evidenceVerbs, e.1.getLast? ≠ some 'e' := by decide
  intro c hc
  obtain ⟨v, rfl⟩ := List.getLast?_eq_some_iff.mp hc
  have hkey := hends _ h
  simp only [verbKey_append] at hkey
  constructor
  · rintro rfl
    exact hkey (by rw [show verbKey ['e'] = ['e'] from by decide]; simp)
  · rintro rfl
    exact hkey (by rw [show verbKey ['E'] = ['e'] from by decide]; simp)

theorem pluralVerb_spec {verb plural : Str} (h : pluralVerb verb = some plural) :
    plural.all isProseChar = true ∧ ∀ c, verb.getLast? = some c → c ≠ 'e' ∧ c ≠ 'E' := by
  unfold pluralVerb at h
  cases hl : evidenceVerbs.lookup (verbKey verb) with
  | none =>
    rw [hl] at h
    cases h
  | some p =>
    rw [hl] at h
    obtain ⟨l₁, l₂, hmem, _⟩ := List.lookup_eq_some_iff.mp hl
    have hmem : (verbKey verb, p) ∈ evidenceVerbs := by rw [hmem]; simp
    refine ⟨?_, getLast_of_mapped hmem⟩
    have hp : p.all isVerbChar = true := by
      have table : ∀ e ∈ evidenceVerbs, e.2.all isVerbChar = true := by decide
      exact table _ hmem
    have hall : ∀ q : Str, q.all isVerbChar = true → (matchCase q verb).all isProseChar = true := by
      intro q hq
      have := matchCase_all verb hq
      rw [List.all_eq_true] at this ⊢
      exact fun c hc => isProseChar_of_verb (this c hc)
    obtain rfl := Option.some.inj h
    apply hall
    split
    · rw [List.all_eq_true] at hp ⊢
      intro c hc
      obtain ⟨d, hd, rfl⟩ := List.mem_map.mp hc
      split
      · decide
      · exact hp d hd
    · exact hp

/-- What the edit after a phrase ending at `pos` takes is plain prose in which
no phrase starts. -/
theorem followerEdit_spec {masked : Str} {pos start stop : Nat} {head prep : Bool} {new : Str}
    (hpos : pos ≤ masked.length) (h : followerEdit masked pos head prep = some (start, stop, new)) :
    pos ≤ start ∧ start ≤ stop ∧ stop ≤ masked.length ∧
      ((masked.drop pos).take (stop - pos)).all isProseChar = true ∧ new.all isProseChar = true ∧
      ∀ i, pos ≤ i → startsThe (masked.drop i) = true → stop ≤ i := by
  have nothing (h : (some (pos, pos, []) : Option (Nat × Nat × Str)) = some (start, stop, new)) :
      pos ≤ start ∧ start ≤ stop ∧ stop ≤ masked.length ∧
        ((masked.drop pos).take (stop - pos)).all isProseChar = true ∧ new.all isProseChar = true ∧
        ∀ i, pos ≤ i → startsThe (masked.drop i) = true → stop ≤ i := by
    simp only [Option.some.injEq, Prod.mk.injEq] at h
    obtain ⟨rfl, rfl, rfl⟩ := h
    exact ⟨Nat.le_refl _, Nat.le_refl _, hpos, by simp, rfl, fun i hi _ => hi⟩
  unfold followerEdit at h
  simp only at h
  split at h
  · exact nothing h
  split at h
  · cases h
  rename_i a b hverb
  split at h
  · split at h
    · exact nothing h
    · cases h
  split at h
  · split at h
    · exact nothing h
    · cases h
  obtain ⟨plural, hp, he⟩ := Option.map_eq_some_iff.mp h
  simp only [Prod.mk.injEq] at he
  obtain ⟨rfl, rfl, rfl⟩ := he
  obtain ⟨hplural, hlast⟩ := pluralVerb_spec hp
  obtain ⟨hab, hb, hall, hno⟩ := evidenceVerb_spec hverb
  simp only [List.length_drop] at hb
  refine ⟨by omega, by omega, by omega, by rwa [Nat.add_sub_cancel_left], hplural, ?_⟩
  intro i hi hthe
  by_contra hlt
  obtain ⟨d, rfl⟩ := Nat.exists_eq_add_of_le hi
  have hcut := hno hlast ((masked.drop pos).take d) (((masked.drop pos).take b).drop d) ?_ ?_
  · have heq : ((masked.drop pos).take b).drop d ++ (masked.drop pos).drop b = masked.drop (pos + d) := by
      rw [← List.drop_drop]
      exact slice_append_drop (s := masked.drop pos) (i := d) (j := b) (by omega)
    rw [heq, hthe] at hcut
    cases hcut
  · have := List.take_append_drop d ((masked.drop pos).take b)
    rw [List.take_take, Nat.min_eq_left (by omega)] at this
    exact this.symm
  · intro hnil
    have := congrArg List.length hnil
    simp only [List.length_drop, List.length_take, List.length_nil] at this
    omega

/-! ## The edits -/

/-- An edit of `rewrite_evidence_references`: plain prose becomes plain prose. -/
def PlainEdit (masked : Str) (i j : Nat) (new : Str) : Prop :=
  i < j ∧ (slice masked i j).all isProseChar = true ∧ slice masked i j ≠ [] ∧
    new.all isProseChar = true ∧ new ≠ []

theorem matchCase_sources (like : Str) (h : like.length ≤ 1) :
    (matchCase sourcesIFound like).all isProseChar = true ∧
      ∃ c, (matchCase sourcesIFound like).head? = some c ∧ isSpace c = false ∧
        isFenceChar c = false := by
  unfold matchCase
  rw [if_neg (by simp only [Bool.and_eq_true, decide_eq_true_eq]; omega)]
  split
  · exact ⟨by decide, 'T', by decide⟩
  · exact ⟨by decide, 't', by decide⟩

theorem evidenceEdits_spec (u : Unicode) (text : Str) :
    Edits (fun i j new => ProseEdit text (maskCode text) i j new ∧ PlainEdit (maskCode text) i j new)
      0 (evidenceEdits u text) := by
  refine Edits.of_ordered ?_ _ 0 0 (finditer_ordered (evidencePattern_sound u) (maskCode text))
    fun i j _ h => h
  intro i j i' k new hij hlen hmatch he
  obtain ⟨⟨start, stop, verb⟩, hedit, he⟩ := Option.map_eq_some_iff.mp he
  simp only [Prod.mk.injEq] at he
  obtain ⟨rfl, rfl, rfl⟩ := he
  split at hedit
  · cases hedit
  rename_i hfence
  obtain ⟨h1, h2, h3, hall, hverb, hnext⟩ := followerEdit_spec hlen hedit
  obtain ⟨⟨n, head⟩, hphrase, hn⟩ := Option.map_eq_some_iff.mp hmatch
  obtain rfl : n = j - i := hn
  obtain ⟨_, _, hphr⟩ := evidencePhrase_spec hphrase
  have hold : (slice (maskCode text) i stop).all isProseChar = true := by
    have := all_take_add hphr (m := stop - j)
      (by rwa [List.drop_drop, Nat.add_sub_cancel' hij.le])
    rwa [show j - i + (stop - j) = stop - i by omega, take_drop_eq_slice] at this
  have hne : slice (maskCode text) i stop ≠ [] := by
    intro hnil
    have := congrArg List.length hnil
    rw [slice_length h3, List.length_nil] at this
    omega
  have hkeep : (slice text j start).all isProseChar = true := by
    have hsub : (slice (maskCode text) j start).all isProseChar = true := by
      rw [List.all_eq_true] at hold ⊢
      exact fun c hc => hold c (slice_subset hij.le h2 hc)
    rwa [slice_eq_of_unmasked]
    intro hmem
    have := List.all_eq_true.mp hsub _ hmem
    revert this
    decide
  obtain ⟨hsrc, c, hc, hs, hf⟩ := matchCase_sources ((text.drop i).take 1) (List.length_take_le _ _)
  have hnew : (matchCase sourcesIFound ((text.drop i).take 1) ++ slice text j start ++ verb).all
      isProseChar = true := by
    simp only [List.all_append, Bool.and_eq_true]
    exact ⟨⟨hsrc, hkeep⟩, hverb⟩
  have hhead : (matchCase sourcesIFound ((text.drop i).take 1) ++ slice text j start ++
      verb).head? = some c := by
    rw [List.append_assoc, List.head?_append, hc]
    rfl
  have hnew0 : matchCase sourcesIFound ((text.drop i).take 1) ++ slice text j start ++ verb ≠ [] := by
    intro hnil
    rw [hnil] at hhead
    cases hhead
  have hprose := prose_of_all hne hold
  refine ⟨rfl, ⟨⟨by omega, maskCode_length text ▸ h3, hprose, slice_eq_of_unmasked hprose.mask,
    prose_of_all hnew0 hnew, ⟨c, hhead, hs, hf⟩, ?_⟩, by omega, hold, hne, hnew, hnew0⟩, ?_⟩
  · have hline : '\n' ∉ slice text j stop := fun hmem =>
      hprose.line (by
        rw [← slice_eq_of_unmasked hprose.mask]
        exact slice_subset hij.le (Nat.le_refl _) hmem)
    rw [lineAround_extend hij.le (h1.trans h2) hline]
    simpa using hfence
  · intro i₂ j₂ hmatch₂ hj
    obtain ⟨⟨_, _⟩, hphrase₂, _⟩ := Option.map_eq_some_iff.mp hmatch₂
    exact hnext i₂ hj (evidencePhrase_spec hphrase₂).1

theorem maskCode_rewrite (u : Unicode) (text : Str) :
    maskCode (rewriteEvidenceReferences u text).text =
      splice (maskCode text) 0 (evidenceEdits u text) :=
  maskCode_splice ((evidenceEdits_spec u text).imp fun _ _ _ h => h.1)

/-- The rewrite leaves the markers as they are, in code and outside it. -/
theorem citations_rewrite (u : Unicode) (text : Str) :
    citations (rewriteEvidenceReferences u text).text = citations text ∧
      citations (maskCode (rewriteEvidenceReferences u text).text) = citations (maskCode text) := by
  have plain {w : Str} (hne : w ≠ []) (h : w.all isProseChar = true) :
      citations w = [] ∧ ∀ p r, citations (p ++ w ++ r) = citations p ++ citations w ++ citations r := by
    have hw : citations w = [] := by
      simpa [citations] using citations_isolated hne (all_isMarkerFree h) [] []
    exact ⟨hw, fun p r => by rw [citations_isolated hne (all_isMarkerFree h), hw, List.append_nil]⟩
  have key (s : Str) (hs : ∀ i j new, ProseEdit text (maskCode text) i j new ∧
      PlainEdit (maskCode text) i j new → slice s i j = slice (maskCode text) i j) :
      citations s = citations (splice s 0 (evidenceEdits u text)) := by
    have := rel_splice (s := s) (R := Eq) citations (fun _ => rfl)
      (fun _ _ _ _ h h' => by rw [h, h']) (fun i j new h => ?_) (evidenceEdits u text) 0
      (evidenceEdits_spec u text)
    · simpa using this
    · obtain ⟨hij, hold, hne, hnew, hne'⟩ := h.2
      rw [hs i j _ h]
      exact ⟨hij.le, (plain hne hold).2, (plain hne' hnew).2,
        by rw [(plain hne hold).1, (plain hne' hnew).1]⟩
  exact ⟨(key text fun _ _ _ h => h.1.unmasked).symm,
    maskCode_rewrite u text ▸ (key _ fun _ _ _ _ => rfl).symm⟩

/-- **Validation and citations read the same markers before and after the
rewrite.** -/
theorem citedMarkers_rewrite (u : Unicode) (text : Str) :
    citedMarkers (rewriteEvidenceReferences u text).text = citedMarkers text := by
  obtain ⟨hraw, hmask⟩ := citations_rewrite u text
  simp only [citedMarkers, citations_stripCode, hraw, hmask]

end CiteVyn.Llm
