import CiteVyn.Llm.Lookbehind

/-! # "Evidence", reworded once and for all

A second pass of `rewrite_evidence_references` finds the phrases that the first one left, and
leaves them for the same reasons: nothing that was written is a phrase, and a phrase that is
read up to, or that comes after an edit, reads the same as before. -/
namespace CiteVyn.Llm
open CiteVyn.Lib.Scan CiteVyn.Lib.Rewrite CiteVyn.Text Cell

/-! ## What an edit takes and puts -/

/-- A text that ends in one of the last words. -/
def EndsInWord (s : Str) : Prop :=
  ∃ a d k v, s = a ++ d :: v ∧ isLetterIgnoreCase d = false ∧ k ∈ lastWords ∧ Spelled k v

theorem EndsInWord.wordEnd {u : Unicode} (hu : WordLetters u) {s : Str} (h : EndsInWord s) (z : Str) :
    WordEnd u (s.reverse ++ z) := by
  obtain ⟨a, d, k, v, rfl, hd, hk, hv⟩ := h
  have := wordEnd_of_spelled hu (z := a.reverse ++ z) hk hv hd
  simpa using this

theorem not_letter_of_blank {c : Char} (h : isBlank c = true) : isLetterIgnoreCase c = false := by
  by_contra hl
  rw [not_isBlank_of_letter (by simpa using hl)] at h
  cases h

/-- The character before the end of some blanks is a blank. -/
theorem take_blanks_last {s : Str} {n k : Nat} (hk : k ≠ 0) (hb : k = blanks (s.drop n)) :
    ∃ a d, s.take (n + k) = a ++ [d] ∧ isBlank d = true := by
  have hne : (s.drop n).take k ≠ [] := by
    intro hnil
    have hle := blanks_le (s.drop n)
    have := congrArg List.length hnil
    rw [List.length_take, List.length_nil] at this
    omega
  refine ⟨s.take n ++ ((s.drop n).take k).dropLast, ((s.drop n).take k).getLast hne, ?_, ?_⟩
  · rw [List.append_assoc, List.dropLast_append_getLast, List.take_add]
  · have := take_blanks (s.drop n)
    rw [← hb] at this
    exact List.all_eq_true.mp this _ (List.getLast_mem hne)

theorem wordAndBlanks_last {words : List Str} {s : Str} {n m : Nat} (h : wordAndBlanks words s n = some m) :
    ∃ a d, s.take m = a ++ [d] ∧ isBlank d = true := by
  obtain ⟨w, k, _, _, rfl, hk, hb⟩ := wordAndBlanks_spec h
  exact take_blanks_last hk hb

theorem endsInWord_literal {w s : Str} {n : Nat} (hw : w ∈ lastWords) (hlower : w.all isLowerAscii = true)
    (hlit : literal w (s.drop n) = true) (hlast : ∃ a d, s.take n = a ++ [d] ∧ isBlank d = true) :
    EndsInWord (s.take (n + w.length)) := by
  obtain ⟨a, d, ha, hd⟩ := hlast
  refine ⟨a, d, w, (s.drop n).take w.length, ?_, not_letter_of_blank hd, hw, spelled_literal hlower hlit⟩
  rw [List.take_add, ha, List.append_assoc]
  rfl

/-- A phrase ends in one of the last words. -/
theorem evidencePhrase_last {u : Unicode} {pre rest : Str} {n : Nat} {head : Bool}
    (h : evidencePhrase u pre rest = some (n, head)) : EndsInWord (rest.take n) := by
  unfold evidencePhrase at h
  simp only at h
  split at h
  · cases h
  cases hthe : wordAndBlanks ["the".toList] rest 0 with
  | none =>
    rw [hthe] at h
    cases h
  | some n1 =>
    rw [hthe] at h
    simp only at h
    have h2 : ∃ a d, rest.take ((wordAndBlanks premodifiers rest n1).getD n1) = a ++ [d] ∧ isBlank d = true := by
      cases hpre : wordAndBlanks premodifiers rest n1 with
      | none => exact wordAndBlanks_last hthe
      | some m => exact wordAndBlanks_last hpre
    generalize (wordAndBlanks premodifiers rest n1).getD n1 = n2 at h h2
    split at h
    · cases h
    rename_i hev
    simp only [Bool.or_eq_true, Bool.not_eq_true', not_or, Bool.not_eq_false] at hev
    have h3 : EndsInWord (rest.take (n2 + 8)) := endsInWord_literal (by decide +kernel) (by decide) hev.1 h2
    split at h
    · obtain ⟨rfl, _⟩ := Prod.mk.inj (Option.some.inj h)
      exact h3
    · rename_i w hw
      have hlit : literal w (rest.drop (n2 + 8 + blanks (rest.drop (n2 + 8)))) = true :=
        List.find?_some (p := fun w => literal w (rest.drop (n2 + 8 + blanks (rest.drop (n2 + 8))))) hw
      have hmem := List.mem_of_find?_eq_some hw
      split at h
      · obtain ⟨rfl, _⟩ := Prod.mk.inj (Option.some.inj h)
        exact h3
      · rename_i hgap
        obtain ⟨rfl, _⟩ := Prod.mk.inj (Option.some.inj h)
        simp only [Bool.or_eq_true, beq_iff_eq, not_or] at hgap
        refine endsInWord_literal ?_ (pluralHeads_readable w hmem).1 hlit (take_blanks_last (by omega) rfl)
        simp only [lastWords, List.mem_cons, List.mem_append]
        exact .inl (.inl (.inr (.inr hmem)))

/-- Before a verb there are blanks, and perhaps an adverb with blanks after it. -/
theorem evidenceVerb_parts {s : Str} {start stop : Nat} (h : evidenceVerb s = some (start, stop)) : blanks s ≠ 0 ∧
    (start = blanks s ∨ wordAndBlanks adverbs s (blanks s) = some start) ∧
    ∃ k, verbLength (s.drop start) = some k ∧ stop = start + k := by
  have verb {n : Nat} (hv : ((verbLength (s.drop n)).map fun k => (n, n + k)) = some (start, stop)) :
      start = n ∧ ∃ k, verbLength (s.drop start) = some k ∧ stop = start + k := by
    obtain ⟨k, hk, he⟩ := Option.map_eq_some_iff.mp hv
    obtain ⟨rfl, rfl⟩ := Prod.mk.inj he
    exact ⟨rfl, k, hk, rfl⟩
  unfold evidenceVerb at h
  simp only at h
  split at h
  · cases h
  rename_i hb
  refine ⟨by simpa using hb, ?_⟩
  rcases Option.or_eq_some_iff.mp h with h | ⟨_, h⟩
  · obtain ⟨m, hm, hv⟩ := Option.bind_eq_some_iff.mp h
    obtain ⟨rfl, hk⟩ := verb hv
    exact ⟨.inr hm, hk⟩
  · obtain ⟨hstart, hk⟩ := verb h
    exact ⟨.inl hstart, hk⟩

/-- What stands between a phrase and its verb: blanks, and what is said of an adverb and its blanks. -/
theorem evidenceVerb_kept {q : Str → Bool} {s : Str} {start stop : Nat} (h : evidenceVerb s = some (start, stop))
    (blank : ∀ w tail, w.all isBlank = true → NoneIn q w tail)
    (adverb : ∀ n m tail, wordAndBlanks adverbs s n = some m → NoneIn q ((s.drop n).take (m - n)) tail) (tail : Str) :
    NoneIn q (s.take start) tail := by
  obtain ⟨_, hstart, _⟩ := evidenceVerb_parts h
  rcases hstart with rfl | hm
  · exact blank _ tail (take_blanks s)
  · have hle : blanks s ≤ start := by
      obtain ⟨_, _, _, _, rfl, _⟩ := wordAndBlanks_spec hm
      omega
    rw [← Nat.add_sub_cancel' hle, List.take_add]
    exact (blank _ _ (take_blanks s)).append (adverb _ _ tail hm)

/-- A verb comes after a blank, and is followed by no letter. -/
theorem evidenceVerb_last {s : Str} {start stop : Nat} (h : evidenceVerb s = some (start, stop)) :
    (∃ a d, s.take start = a ++ [d] ∧ isBlank d = true) ∧
      ∀ c, (s.drop stop).head? = some c → isLetterIgnoreCase c = false := by
  obtain ⟨hb, hstart, k, hk, rfl⟩ := evidenceVerb_parts h
  refine ⟨?_, ?_⟩
  · rcases hstart with rfl | hm
    · have := take_blanks_last (s := s) (n := 0) hb rfl
      rwa [Nat.zero_add] at this
    · exact wordAndBlanks_last hm
  · have := (verbLength_spec hk).2.2
    rwa [List.drop_drop] at this

/-! ## Plural verbs -/

/-- What a plural verb can be written as. -/
def spellings (plural : Str) : List Str :=
  [plural, plural.map fun c => if c == '\'' then curlyApostrophe else c].flatMap fun p => [upper p, capital p, p]

theorem verbKey_spellings : ∀ e ∈ evidenceVerbs, ∀ p ∈ spellings e.2, verbKey p = e.2 := by decide +kernel

theorem matchCase_mem (word like : Str) : matchCase word like ∈ [upper word, capital word, word] := by
  unfold matchCase
  split
  · exact List.mem_cons_self
  split
  · exact List.mem_cons_of_mem _ List.mem_cons_self
  · exact List.mem_cons_of_mem _ (List.mem_cons_of_mem _ List.mem_cons_self)

/-- A verb of the table becomes its plural, in some spelling. -/
theorem pluralVerb_entry {verb new : Str} (h : pluralVerb verb = some new) :
    ∃ e ∈ evidenceVerbs, verbKey verb = e.1 ∧ new ∈ spellings e.2 := by
  unfold pluralVerb at h
  cases hl : evidenceVerbs.lookup (verbKey verb) with
  | none =>
    rw [hl] at h
    cases h
  | some p =>
    rw [hl] at h
    obtain ⟨l₁, l₂, hmem, _⟩ := List.lookup_eq_some_iff.mp hl
    refine ⟨(verbKey verb, p), by rw [hmem]; simp, rfl, ?_⟩
    obtain rfl := Option.some.inj h
    rw [spellings, List.mem_flatMap]
    split
    · exact ⟨_, List.mem_cons_of_mem _ List.mem_cons_self, matchCase_mem _ verb⟩
    · exact ⟨_, List.mem_cons_self, matchCase_mem _ verb⟩

theorem mem_lastWords_of_entry {e : Str × Str} (h : e ∈ evidenceVerbs) : e.1 ∈ lastWords ∧ e.2 ∈ lastWords := by
  simp only [lastWords, List.mem_append, List.mem_map]
  exact ⟨.inl (.inr ⟨e, h, rfl⟩), .inr ⟨e, h, rfl⟩⟩

theorem spelled_lastWord {k v : Str} (hk : k ∈ lastWords) (h : verbKey v = k) : Spelled k v := by
  have hall := (lastWords_spec k hk).1
  subst h
  exact spelled_verbKey hall

/-- No phrase starts in one of the last words, when no letter follows it. -/
theorem noPhraseIn_spelled {k v tail : Str} (hk : k ∈ lastWords) (h : Spelled k v)
    (htail : ∀ c, tail.head? = some c → isLetterIgnoreCase c = false) : NoPhraseIn v tail := by
  obtain ⟨hkey, _, hthe, _⟩ := lastWords_spec k hk
  intro p t hpt ht
  by_contra hstart
  rw [Bool.not_eq_false] at hstart
  have hstart' := hstart
  obtain ⟨hlit, hblank⟩ := Bool.and_eq_true_iff.mp hstart
  have hlower : "the".toList.all isLowerAscii = true := by decide
  rcases Nat.lt_trichotomy t.length 3 with hlt | heq | hgt
  · -- a letter of "the" would come after the word
    have hd := literal_drop hlit t.length
    rw [List.drop_left] at hd
    cases hr : "the".toList.drop t.length with
    | nil =>
      rw [List.drop_eq_nil_iff] at hr
      have : "the".toList.length = 3 := rfl
      omega
    | cons q qs =>
      cases tail with
      | nil =>
        rw [hr] at hd
        cases hd
      | cons c tail =>
        rw [hr, literal, Bool.and_eq_true] at hd
        have hq : isLowerAscii q = true := List.all_eq_true.mp hlower q (List.mem_of_mem_drop (hr ▸ List.mem_cons_self))
        have := htail c rfl
        rw [eqIgnoreCase_letter hq hd.1] at this
        cases this
  · have hf := literal_forall₂ hlit
    rw [show "the".toList.length = t.length from heq.symm, List.take_left] at hf
    have hsp : Spelled (k.drop p.length) t := by
      have := List.forall₂_drop p.length h
      rwa [hpt, List.drop_left] at this
    exact hthe (spelled_unique hlower hf hsp ▸ List.drop_suffix _ _)
  · obtain ⟨a, b, c, d, r, hcons, _, _, _, hd⟩ := startsThe_cons hstart'
    have hmem : d ∈ v := by
      rcases t with _ | ⟨_, _ | ⟨_, _ | ⟨_, _ | ⟨d', t⟩⟩⟩⟩
      · cases hgt
      · simp at hgt
      · simp at hgt
      · simp at hgt
      · simp only [List.cons_append, List.cons.injEq] at hcons
        rw [hpt, hcons.2.2.2.1]
        simp
    have := List.all_eq_true.mp h.all d hmem
    rcases hd with rfl | rfl <;> revert this <;> decide

/-! ## What is written is no phrase -/

/-- "the sources I found", as it starts where a phrase did. -/
theorem matchCase_like {like : Str} (h : like.length ≤ 1) :
    ∃ t, (t = 't' ∨ t = 'T') ∧ matchCase sourcesIFound like = t :: "he sources I found".toList := by
  unfold matchCase
  rw [if_neg (by simp only [Bool.and_eq_true, decide_eq_true_eq]; omega)]
  split
  · exact ⟨'T', .inr rfl, by decide⟩
  · exact ⟨'t', .inl rfl, by decide⟩

theorem evidencePhrase_sources (u : Unicode) {t : Char} (ht : t = 't' ∨ t = 'T') (pre tail : Str) :
    evidencePhrase u pre (t :: "he sources I found".toList ++ tail) = none := by
  have hthe : wordAndBlanks ["the".toList] (t :: "he sources I found".toList ++ tail) 0 = some 4 := by
    rcases ht with rfl | rfl <;> rfl
  have hpre : wordAndBlanks premodifiers (t :: "he sources I found".toList ++ tail) 4 = none := rfl
  have hev : literal "evidence".toList ((t :: "he sources I found".toList ++ tail).drop 4) = false := rfl
  unfold evidencePhrase
  simp only [hthe, hpre, Option.getD_none, hev, Bool.not_false, Bool.true_or, if_true, ite_self]

theorem noPhraseIn_sources (tail : Str) : NoPhraseIn "he sources I found".toList tail := by
  intro p t hpt ht
  obtain ⟨c, cs, rfl⟩ := List.exists_cons_of_ne_nil ht
  by_contra hthe
  have hc : c ∈ "he sources I found".toList := by rw [hpt]; simp
  have hall : ∀ c ∈ "he sources I found".toList, c ≠ 't' ∧ c ≠ 'T' := List.all_iff_forall_prop.mp (by decide +kernel)
  rcases startsThe_head (by simpa using hthe) with h | h
  · exact (hall c hc).1 h
  · exact (hall c hc).2 h

theorem evidencePhrase_of_not {u : Unicode} {pre s : Str} (h : startsThe s = false) : evidencePhrase u pre s = none := by
  cases hp : evidencePhrase u pre s with
  | none => rfl
  | some phrase =>
    have := (evidencePhrase_spec hp).1
    rw [h] at this
    cases this

/-- The rewrite of a phrase and its verb: what is taken is a phrase up to its end, what is put is
none, and both end in words of their own. -/
structure Rewording (u : Unicode) (old new rest : Str) : Prop where
  start : startsThe (old ++ rest) = true
  quiet : Quiet startsThe (old ++ rest) 1 old.length
  before : EndsInWord old
  after : EndsInWord new
  stop : ∀ c, rest.head? = some c → isLetterIgnoreCase c = false
  starts : ∀ tail, startsThe (new ++ tail) = true
  none : ∀ tail, (∀ c, tail.head? = some c → isLetterIgnoreCase c = false) → ∀ p t, new = p ++ t → t ≠ [] →
    ∀ pre, evidencePhrase u pre (t ++ tail) = none

theorem quiet_of_spec {s : Str} {n m k : Nat} (hn : Quiet startsThe s 1 n) (h : ∀ i, n ≤ i → startsThe (s.drop i) = true → m ≤ i)
    (hk : k ≤ m) : Quiet startsThe s 1 k := by
  intro x hx hlt
  by_contra hthe
  rw [Bool.not_eq_false] at hthe
  rcases Nat.lt_or_ge x n with hxn | hxn
  · rw [hn x hx hxn] at hthe
    cases hthe
  · have := h x hxn hthe
    omega

/-- Where what is written ends, no letter follows it. -/
theorem none_of_parts {u : Unicode} {like kept verb : Str} (hlike : like.length ≤ 1)
    (hkept : ∀ tail, NoPhraseIn kept tail)
    (hverb : ∀ tail, (∀ c, tail.head? = some c → isLetterIgnoreCase c = false) → NoPhraseIn verb tail) (tail : Str)
    (htail : ∀ c, tail.head? = some c → isLetterIgnoreCase c = false) (p t : Str)
    (hpt : matchCase sourcesIFound like ++ kept ++ verb = p ++ t) (ht : t ≠ []) (pre : Str) :
    evidencePhrase u pre (t ++ tail) = none := by
  obtain ⟨c, hc, hsrc⟩ := matchCase_like hlike
  rw [hsrc] at hpt
  cases p with
  | nil =>
    rw [List.nil_append] at hpt
    rw [← hpt, List.append_assoc, List.append_assoc]
    exact evidencePhrase_sources u hc pre _
  | cons a p =>
    refine evidencePhrase_of_not ?_
    have hno := ((noPhraseIn_sources (kept ++ (verb ++ tail))).append (hkept (verb ++ tail))).append (hverb tail htail)
    simp only [List.cons_append, List.cons.injEq] at hpt
    exact hno p t (by rw [← hpt.2]) ht

/-- What a phrase can be followed by, when its verb is not edited. -/
def isBreak (c : Char) : Bool := isBlank c || c == '[' || [',', '.', ';', ':', ')', '!', '?'].contains c

theorem isBreak_spec {c : Char} (h : isBreak c = true) : isLetterIgnoreCase c = false ∧ c ≠ codeMask := by
  simp only [isBreak, isBlank, List.contains_cons, List.contains_nil, Bool.or_false, Bool.or_eq_true, beq_iff_eq] at h
  have hall : ∀ c ∈ [' ', '\t', '[', ',', '.', ';', ':', ')', '!', '?'], isLetterIgnoreCase c = false ∧ c ≠ codeMask :=
    List.all_iff_forall_prop.mp (by decide +kernel)
  refine hall c ?_
  simp only [List.mem_cons, List.not_mem_nil, or_false]
  rcases h with ((h | h) | h) | h
  · exact .inl h
  · exact .inr (.inl h)
  · exact .inr (.inr (.inl h))
  · exact .inr (.inr (.inr h))

theorem evidenceEnd_head {s : Str} (h : evidenceEnd s = true) : ∀ c, s.head? = some c → isBreak c = true := by
  intro c hc
  by_contra hbreak
  simp only [isBreak, Bool.or_eq_true, not_or, Bool.not_eq_true, beq_eq_false_iff_ne] at hbreak
  obtain ⟨⟨hblank, hopen⟩, hstop⟩ := hbreak
  cases s with
  | nil => cases hc
  | cons d s =>
    obtain rfl := Option.some.inj hc
    have hdrop : (d :: s).dropWhile isBlank = d :: s := List.dropWhile_cons_of_neg (by simpa using hblank)
    unfold evidenceEnd at h
    rw [List.length_cons, afterNumbers, hdrop, bracketedNumbers_of_ne hopen, hdrop] at h
    exact Bool.false_ne_true (hstop.symm.trans h)

theorem evidenceVerb_head {s : Str} {verb : Nat × Nat} (h : evidenceVerb s = some verb) :
    ∀ c, s.head? = some c → isBreak c = true := by
  intro c hc
  have hb := (evidenceVerb_parts h).1
  cases s with
  | nil => cases hc
  | cons d s =>
    obtain rfl := Option.some.inj hc
    by_cases hblank : isBlank d = true
    · rw [isBreak, hblank]
      rfl
    · rw [blanks, List.takeWhile_cons_of_neg hblank] at hb
      exact absurd rfl hb

/-- Nothing after the phrase is edited, or its verb is. -/
theorem followerEdit_cases {s : Str} {pos start stop : Nat} {head prep : Bool} {verb : Str}
    (h : followerEdit s pos head prep = some (start, stop, verb)) :
    (start = pos ∧ stop = pos ∧ verb = [] ∧ ∀ c, (s.drop pos).head? = some c → isBreak c = true) ∨
      ∃ a b, head = false ∧ prep = false ∧ evidenceVerb (s.drop pos) = some (a, b) ∧ start = pos + a ∧ stop = pos + b ∧
        pluralVerb (slice (s.drop pos) a b) = some verb := by
  have nothing (hhead : ∀ c, (s.drop pos).head? = some c → isBreak c = true)
      (h : (some (pos, pos, []) : Option (Nat × Nat × Str)) = some (start, stop, verb)) :
      start = pos ∧ stop = pos ∧ verb = [] ∧ ∀ c, (s.drop pos).head? = some c → isBreak c = true := by
    simp only [Option.some.injEq, Prod.mk.injEq] at h
    exact ⟨h.1.symm, h.2.1.symm, h.2.2.symm, hhead⟩
  unfold followerEdit at h
  simp only at h
  split at h
  · rename_i hend
    exact .inl (nothing (evidenceEnd_head hend) h)
  split at h
  · cases h
  rename_i a b hverb
  split at h
  · split at h
    · exact .inl (nothing (evidenceVerb_head hverb) h)
    · cases h
  rename_i hprep
  split at h
  · split at h
    · exact .inl (nothing (evidenceVerb_head hverb) h)
    · cases h
  rename_i hhead
  obtain ⟨plural, hp, he⟩ := Option.map_eq_some_iff.mp h
  simp only [Prod.mk.injEq] at he
  obtain ⟨rfl, rfl, rfl⟩ := he
  exact .inr ⟨a, b, by simpa using hhead, by simpa using hprep, hverb, rfl, rfl, hp⟩

theorem matchCase_ends {like : Str} (h : like.length ≤ 1) : EndsInWord (matchCase sourcesIFound like) := by
  obtain ⟨t, _, hsrc⟩ := matchCase_like h
  refine ⟨t :: "he sources I".toList, ' ', "found".toList, "found".toList, hsrc, by decide, by decide +kernel, ?_⟩
  exact spelled_lastWord (by decide +kernel) (by decide)

theorem matchCase_starts {like : Str} (h : like.length ≤ 1) (kept tail : Str) :
    startsThe (matchCase sourcesIFound like ++ kept ++ tail) = true := by
  obtain ⟨t, ht, hsrc⟩ := matchCase_like h
  rw [hsrc]
  rcases ht with rfl | rfl <;> rfl

/-- What an edit takes and puts. -/
theorem rewording_of {u : Unicode} {pre rest like verb : Str} {n start k : Nat} {head prep : Bool}
    (hp : evidencePhrase u pre rest = some (n, head)) (hf : followerEdit rest n head prep = some (start, k, verb))
    (hlike : like.length ≤ 1) :
    Rewording u (rest.take k) (matchCase sourcesIFound like ++ slice rest n start ++ verb) (rest.drop k) := by
  obtain ⟨hstart, hle, _⟩ := evidencePhrase_spec hp
  obtain ⟨h1, h2, hk, _, _, hfree⟩ := followerEdit_spec hle hf
  have hlen : (rest.take k).length = k := List.length_take_of_le hk
  have start' : startsThe (rest.take k ++ rest.drop k) = true := by rwa [List.take_append_drop]
  have quiet' : Quiet startsThe (rest.take k ++ rest.drop k) 1 (rest.take k).length := by
    rw [List.take_append_drop, hlen]
    exact quiet_of_spec (evidencePhrase_quiet hp) hfree (Nat.le_refl k)
  rcases followerEdit_cases hf with ⟨rfl, rfl, rfl, hstop⟩ | ⟨a, b, _, _, hv, rfl, rfl, hplural⟩
  · have hkept : slice rest k k = [] := List.drop_eq_nil_of_le (List.length_take_le k rest)
    refine ⟨start', quiet', evidencePhrase_last hp, ?_, fun c hc => (isBreak_spec (hstop c hc)).1, fun tail => ?_,
      fun tail htail p t hpt ht pre => ?_⟩
    · rw [hkept, List.append_nil, List.append_nil]
      exact matchCase_ends hlike
    · rw [List.append_nil]
      exact matchCase_starts hlike _ _
    · refine none_of_parts hlike ?_ ?_ tail htail p t hpt ht pre
      · rw [hkept]
        exact fun tail p t hpt ht => absurd (List.append_eq_nil_iff.mp hpt.symm).2 ht
      · exact fun tail _ p t hpt ht => absurd (List.append_eq_nil_iff.mp hpt.symm).2 ht
  · obtain ⟨hblank, hstop⟩ := evidenceVerb_last hv
    have hkept (tail : Str) : NoPhraseIn ((rest.drop n).take a) tail :=
      evidenceVerb_kept hv (fun _ tail hw => noPhraseIn_blanks hw tail) (fun _ _ tail hm => noPhraseIn_adverb hm tail) tail
    obtain ⟨e, he, hkey, hspell⟩ := pluralVerb_entry hplural
    obtain ⟨he1, he2⟩ := mem_lastWords_of_entry he
    have hold := spelled_lastWord he1 hkey
    have hnew := spelled_lastWord he2 (verbKey_spellings e he verb hspell)
    have hslice : slice rest n (n + a) = (rest.drop n).take a := by
      rw [slice, List.drop_take, Nat.add_sub_cancel_left]
    obtain ⟨x, d, hx, hd⟩ := hblank
    have hcut : rest.take (n + b) = rest.take n ++ (x ++ d :: slice (rest.drop n) a b) := by
      rw [List.take_add, List.append_cancel_left_eq, ← take_append_slice (i := a) (j := b) (by omega), hx, List.append_assoc]
      rfl
    refine ⟨start', quiet', ?_, ?_, ?_, fun tail => ?_, fun tail htail p t hpt ht pre => ?_⟩
    · exact ⟨rest.take n ++ x, d, e.1, _, by rw [hcut, List.append_assoc], not_letter_of_blank hd, he1, hold⟩
    · refine ⟨matchCase sourcesIFound like ++ x, d, e.2, verb, ?_, not_letter_of_blank hd, he2, hnew⟩
      rw [hslice, hx]
      simp
    · rwa [List.drop_drop] at hstop
    · rw [List.append_assoc]
      exact matchCase_starts hlike _ _
    · refine none_of_parts hlike ?_ ?_ tail htail p t hpt ht pre
      · rw [hslice]
        exact hkept
      · exact fun tail htail => noPhraseIn_spelled he2 hnew htail

/-! ## The pass -/

/-- A phrase, found in the mask. -/
def phrasePlace (u : Unicode) : Pattern Cell := fun pre rest => evidencePattern u (masks pre) (masks rest)

/-- The loop body of `rewrite_evidence_references`. -/
def evidenceRewriter (u : Unicode) : Rewriter Cell := fun pre rest =>
  (evidencePhrase u (masks pre) (masks rest)).bind fun (n, head) =>
    if (fenceRun (lineAt pre rest)).isSome then none
    else
      (followerEdit (masks rest) n head (prepositionBefore u (masks pre) (lineBefore pre).length)).map
        fun (start, stop, verb) =>
          (stop, plainCells (matchCase sourcesIFound ((texts rest).take 1) ++ slice (masks rest) n start ++ verb))

theorem evidenceRewriter_eq {u : Unicode} {pre rest : List Cell} {k : Nat} {new : List Cell}
    (h : evidenceRewriter u pre rest = some (k, new)) : fenceRun (lineAt pre rest) = none ∧ ∃ n head start verb,
      evidencePhrase u (masks pre) (masks rest) = some (n, head) ∧
      followerEdit (masks rest) n head (prepositionBefore u (masks pre) (lineBefore pre).length) = some (start, k, verb) ∧
      new = plainCells (matchCase sourcesIFound ((texts rest).take 1) ++ slice (masks rest) n start ++ verb) := by
  obtain ⟨⟨n, head⟩, hp, h⟩ := Option.bind_eq_some_iff.mp h
  simp only at h
  split at h
  · cases h
  rename_i hfence
  obtain ⟨⟨start, stop, verb⟩, hf, he⟩ := Option.map_eq_some_iff.mp h
  obtain ⟨rfl, rfl⟩ := Prod.mk.inj he
  exact ⟨by simpa using hfence, n, head, start, verb, hp, hf, rfl⟩

theorem evidenceRewriter_prosaic {u : Unicode} {pre rest : List Cell} {k : Nat} {new : List Cell}
    (h : evidenceRewriter u pre rest = some (k, new)) : 0 < k ∧ k ≤ rest.length ∧
      ((masks rest).take k).all isProseChar = true ∧
      ∃ str, new = plainCells str ∧ str.all isProseChar = true ∧ Rewording u ((masks rest).take k) str ((masks rest).drop k) := by
  obtain ⟨_, n, head, start, verb, hp, hf, rfl⟩ := evidenceRewriter_eq h
  obtain ⟨_, hle, hphrase⟩ := evidencePhrase_spec hp
  obtain ⟨h1, h2, hk, hall, hverb, _⟩ := followerEdit_spec hle hf
  have hpos := evidencePhrase_pos hp
  have hold : ((masks rest).take k).all isProseChar = true := by
    have := all_take_add hphrase hall
    rwa [Nat.add_sub_cancel' (h1.trans h2)] at this
  have hkept : (slice (masks rest) n start).all isProseChar = true := by
    rw [List.all_eq_true] at hold ⊢
    exact fun c hc => hold c (slice_subset (i := 0) (l := k) (Nat.zero_le n) h2 hc)
  have hlike : ((texts rest).take 1).length ≤ 1 := List.length_take_le _ _
  refine ⟨by omega, ?_, hold, _, rfl, ?_, rewording_of hp hf hlike⟩
  · rwa [masks, List.length_map] at hk
  · rw [List.all_append, List.all_append, (matchCase_sources _ hlike).1, hkept, hverb]
    rfl

theorem evidenceRewriter_taking (u : Unicode) : Taking (evidenceRewriter u) := by
  intro pre rest k new h
  obtain ⟨hpos, hle, _⟩ := evidenceRewriter_prosaic h
  exact ⟨hpos, hle⟩

/-- An edit, seen in the mask. -/
theorem evidenceRewriter_edit {u : Unicode} {pre w s new : List Cell}
    (h : evidenceRewriter u pre (w ++ s) = some (w.length, new)) : fenceRun (lineAt pre (w ++ s)) = none ∧
      (masks w).all isProseChar = true ∧
      ∃ str, new = plainCells str ∧ str.all isProseChar = true ∧ Rewording u (masks w) str (masks s) := by
  have hlen : (masks w).length = w.length := List.length_map ..
  obtain ⟨hline, _⟩ := evidenceRewriter_eq h
  obtain ⟨_, _, hold, hnew⟩ := evidenceRewriter_prosaic h
  rw [masks_append, ← hlen, List.take_left] at hold hnew
  rw [List.drop_left] at hnew
  exact ⟨hline, hold, hnew⟩

/-- Prose that a phrase starts with. -/
theorem solid_of_startsThe {w : List Cell} (tail : Str) (hw : w ≠ []) (h : (masks w).all isProseChar = true)
    (hthe : startsThe (masks w ++ tail) = true) : Solid w := by
  have hmem : ∀ c ∈ masks w, isProseChar c = true := List.all_eq_true.mp h
  have htexts : texts w = masks w := texts_eq_masks fun hin => absurd (hmem _ hin) (by decide)
  obtain ⟨c, cs, rfl⟩ := List.exists_cons_of_ne_nil hw
  rw [masks_cons, List.cons_append] at hthe
  refine ⟨fun hin => absurd (hmem _ (htexts ▸ hin)) (by decide), c.mask, by rw [htexts]; rfl, ?_⟩
  rcases startsThe_head hthe with h | h
  · rw [h]
    decide
  · rw [h]
    decide

theorem ne_nil_of_starts {str : Str} (h : ∀ tail, startsThe (str ++ tail) = true) : plainCells str ≠ [] := by
  intro hnil
  have := h []
  rw [List.append_nil, ← masks_plainCells str, hnil] at this
  cases this

theorem evidenceRewriter_prose (u : Unicode) : ProseRewriter (evidenceRewriter u) where
  taking := evidenceRewriter_taking u
  edit := by
    intro pre w s new hw h
    obtain ⟨hline, hold, str, rfl, hnew, hr⟩ := evidenceRewriter_edit h
    refine ⟨solid_of_startsThe _ hw hold hr.start, ?_, hline⟩
    refine solid_of_startsThe [] (ne_nil_of_starts hr.starts) ?_ ?_
    · rwa [masks_plainCells]
    · rw [masks_plainCells]
      exact hr.starts []

/-- What comes before a place, before and after the pass. -/
structure SameBefore (u : Unicode) (pre pre' rest : List Cell) : Prop where
  start : SameStart pre pre'
  ends : Ends u (masks pre) (masks pre') (masks rest)

theorem SameBefore.cons {u : Unicode} {pre pre' s : List Cell} {c : Cell} (h : SameBefore u pre pre' (c :: s)) :
    SameBefore u (c :: pre) (c :: pre') s := ⟨h.start.cons c, h.ends.cons⟩

theorem SameBefore.edit {u : Unicode} (hu : WordLetters u) {pre pre' w s new : List Cell}
    (h : SameBefore u pre pre' (w ++ s)) (hw : w ≠ []) (he : evidenceRewriter u pre (w ++ s) = some (w.length, new)) :
    SameBefore u (w.reverse ++ pre) (new.reverse ++ pre') s := by
  obtain ⟨hsolid, hnew, hline⟩ := (evidenceRewriter_prose u).edit pre w s new hw he
  refine ⟨h.start.edit hsolid hnew hline, ?_⟩
  obtain ⟨_, _, str, rfl, _, hr⟩ := evidenceRewriter_edit he
  refine .inr ⟨[], masks (w.reverse ++ pre), masks ((plainCells str).reverse ++ pre'), rfl, rfl, ?_, ?_, hr.stop⟩
  · rw [masks_append, masks_reverse]
    exact hr.before.wordEnd hu _
  · rw [masks_append, masks_reverse, masks_plainCells]
    exact hr.after.wordEnd hu _

/-- The pass leaves the text, or changes it from some phrase on to some phrase. -/
theorem reworded_split (u : Unicode) (pre s : List Cell) : rewriteFrom (evidenceRewriter u) pre 0 s = s ∨
    ∃ g x y, s = g ++ x ∧ rewriteFrom (evidenceRewriter u) pre 0 s = g ++ y ∧ startsThe (masks x) = true ∧
      startsThe (masks y) = true := by
  refine rewrite_rec (evidenceRewriter_taking u) (P := fun pre s => rewriteFrom (evidenceRewriter u) pre 0 s = s ∨
    ∃ g x y, s = g ++ x ∧ rewriteFrom (evidenceRewriter u) pre 0 s = g ++ y ∧ startsThe (masks x) = true ∧
      startsThe (masks y) = true) ?_ ?_ ?_ s pre
  · exact fun pre => .inl rfl
  · intro pre c s hc ih
    rw [rewriteFrom_keep hc]
    rcases ih with h | ⟨g, x, y, hx, hy, hthe⟩
    · exact .inl (by rw [h])
    · exact .inr ⟨c :: g, x, y, by rw [hx, List.cons_append], by rw [hy, List.cons_append], hthe⟩
  · intro pre w s new hw he _
    obtain ⟨_, _, str, rfl, _, hr⟩ := evidenceRewriter_edit he
    refine .inr ⟨[], w ++ s, plainCells str ++ rewriteFrom (evidenceRewriter u) (w.reverse ++ pre) 0 s, rfl,
      rewriteFrom_edit hw he, ?_, ?_⟩
    · rw [masks_append]
      exact hr.start
    · rw [masks_append, masks_plainCells]
      exact hr.starts _

/-- After what was written no letter comes, as none came after what was taken. -/
theorem head_reworded {u : Unicode} {pre s : List Cell} (h : ∀ c, (masks s).head? = some c → isLetterIgnoreCase c = false) :
    ∀ c, (masks (rewriteFrom (evidenceRewriter u) pre 0 s)).head? = some c → isLetterIgnoreCase c = false := by
  rcases reworded_split u pre s with heq | ⟨g, x, y, hx, hy, hthe, _⟩
  · rwa [heq]
  · cases g with
    | nil =>
      obtain ⟨a, b, c, d, r, hcons, ha, _⟩ := startsThe_cons hthe
      rw [hx, List.nil_append, hcons] at h
      have := h a rfl
      rcases ha with rfl | rfl
      · exact absurd this (by decide)
      · exact absurd this (by decide)
    | cons c g =>
      rw [hy]
      rw [hx] at h
      exact h

theorem evidencePhrase_pre {u : Unicode} {p p' : Str} (h : p.head?.any u.isWord = p'.head?.any u.isWord) (s : Str) :
    evidencePhrase u p s = evidencePhrase u p' s := by
  have hbound (n : Nat) : u.wordBoundary ((s.take n).reverse ++ p) (s.drop n) =
      u.wordBoundary ((s.take n).reverse ++ p') (s.drop n) := by
    unfold Unicode.wordBoundary
    by_cases hnil : (s.take n).reverse = []
    · rw [hnil, List.nil_append, List.nil_append, h]
    · rw [List.head?_append_of_ne_nil _ hnil, List.head?_append_of_ne_nil _ hnil]
  unfold evidencePhrase
  simp only [hbound]

/-- A place that is passed over holds a phrase after the pass if and only if it did before, and
what follows it is off the list if it was. -/
theorem evidencePhrase_kept {u : Unicode} (hu : WordLetters u) {pre pre' : List Cell} {c : Cell} {s : List Cell}
    (h : SameBefore u pre pre' (c :: s)) :
    evidencePhrase u (masks pre') (masks (c :: rewriteFrom (evidenceRewriter u) (c :: pre) 0 s)) =
      evidencePhrase u (masks pre) (masks (c :: s)) := by
  have hword := h.ends.isWord hu
  rcases reworded_split u (c :: pre) s with heq | ⟨g, x, y, hx, hy, hthe, hthe'⟩
  · rw [heq]
    exact (evidencePhrase_pre hword _).symm
  · rw [hy, hx, ← List.cons_append, ← List.cons_append, masks_append, masks_append]
    exact (evidencePhrase_ahead hu (List.cons_ne_nil _ _) hthe hthe' hword).symm

theorem followerEdit_kept {u : Unicode} {pre : List Cell} {c : Cell} {s : List Cell} {n : Nat} {head prep : Bool}
    (hp : evidencePhrase u (masks pre) (masks (c :: s)) = some (n, head))
    (hf : followerEdit (masks (c :: s)) n head prep = none) :
    followerEdit (masks (c :: rewriteFrom (evidenceRewriter u) (c :: pre) 0 s)) n head prep = none := by
  rcases reworded_split u (c :: pre) s with heq | ⟨g, x, y, hx, hy, hthe, hthe'⟩
  · rwa [heq]
  · rw [hx, ← List.cons_append, masks_append] at hp hf
    rw [hy, ← List.cons_append, masks_append]
    exact followerEdit_ahead hthe hthe' (evidencePhrase_le (List.cons_ne_nil _ _) hthe hp) head prep hf

theorem evidenceRewriter_kept {u : Unicode} (hu : WordLetters u) {pre pre' : List Cell} {c : Cell} {s : List Cell}
    (h : SameBefore u pre pre' (c :: s)) (hc : evidenceRewriter u pre (c :: s) = none) :
    evidenceRewriter u pre' (c :: rewriteFrom (evidenceRewriter u) (c :: pre) 0 s) = none := by
  have hline := (evidenceRewriter_prose u).fenceRun_lineAt (c :: s) pre pre' h.start
  rw [rewriteFrom_keep hc] at hline
  have hphrase := evidencePhrase_kept hu h
  have hfollow {n : Nat} {head prep : Bool} (hp : evidencePhrase u (masks pre) (masks (c :: s)) = some (n, head))
    (hf : followerEdit (masks (c :: s)) n head prep = none) := followerEdit_kept hp hf
  generalize rewriteFrom (evidenceRewriter u) (c :: pre) 0 s = s' at hline hphrase hfollow ⊢
  unfold evidenceRewriter at hc ⊢
  rw [hphrase, hline]
  cases hp : evidencePhrase u (masks pre) (masks (c :: s)) with
  | none => rfl
  | some phrase =>
    obtain ⟨n, head⟩ := phrase
    rw [hp] at hc
    simp only [Option.bind_some] at hc ⊢
    split at hc
    · rename_i hf
      exact if_pos hf
    · rename_i hf
      rw [if_neg hf]
      rw [Option.map_eq_none_iff, prepositionBefore_line, h.ends.prepositionBefore_eq hu] at hc
      rw [Option.map_eq_none_iff, prepositionBefore_line]
      exact hfollow hp hc

/-- Nothing is found in what was written. -/
theorem none_of_rewording {u : Unicode} {old str rest : Str} (hr : Rewording u old str rest) {pre' s' : List Cell}
    (hs' : ∀ c, (masks s').head? = some c → isLetterIgnoreCase c = false) (p t : List Cell) (hpt : plainCells str = p ++ t)
    (ht : t ≠ []) : evidencePhrase u (masks (p.reverse ++ pre')) (masks (t ++ s')) = none := by
  have hcut := congrArg masks hpt
  rw [masks_plainCells, masks_append] at hcut
  rw [masks_append t]
  refine hr.none _ hs' _ _ hcut (fun hnil => ht ?_) _
  exact List.map_eq_nil_iff.mp hnil

theorem idle_reworded {u : Unicode} (hu : WordLetters u) (s : List Cell) :
    IdleIn (evidenceRewriter u) [] (rewriteFrom (evidenceRewriter u) [] 0 s) [] := by
  refine idle_rewrite (evidenceRewriter_taking u) (R := SameBefore u) ?_ ?_ s [] [] ⟨.inl rfl, .inl rfl⟩
  · intro pre pre' c s h hc
    exact ⟨h.cons, evidenceRewriter_kept hu h hc⟩
  · intro pre pre' w s new h hw he
    refine ⟨h.edit hu hw he, ?_⟩
    obtain ⟨_, _, str, rfl, _, hr⟩ := evidenceRewriter_edit he
    rw [idleIn_iff]
    intro p t hpt ht
    rw [evidenceRewriter, none_of_rewording hr (head_reworded hr.stop) p t hpt ht]
    rfl

/-- No phrase starts inside what an edit takes. -/
theorem evidenceRewriter_inside {u : Unicode} {pre w s new : List Cell} {c : Cell}
    (he : evidenceRewriter u pre (c :: w ++ s) = some ((c :: w).length, new)) (p t : List Cell) (hpt : w = p ++ t)
    (ht : t ≠ []) : startsThe (masks (t ++ s)) = false := by
  obtain ⟨_, _, str, rfl, _, hr⟩ := evidenceRewriter_edit he
  have hquiet := hr.quiet (p.length + 1) (by omega) ?_
  · have hdrop : (masks (c :: w) ++ masks s).drop (p.length + 1) = masks (t ++ s) := by
      rw [← masks_append, ← masks_drop, List.cons_append, List.drop_succ_cons, hpt, List.append_assoc, List.drop_left]
    rwa [hdrop] at hquiet
  · have hlen := congrArg List.length hpt
    have hpos := List.length_pos_iff.mpr ht
    rw [List.length_append] at hlen
    rw [masks, List.length_map, List.length_cons]
    omega

theorem places_reworded {u : Unicode} (hu : WordLetters u) (s : List Cell) :
    placesIn (phrasePlace u) [] (rewriteFrom (evidenceRewriter u) [] 0 s) [] + rewrites (evidenceRewriter u) [] 0 s =
      placesIn (phrasePlace u) [] s [] := by
  refine places_rewrite (evidenceRewriter_taking u) (R := SameBefore u) ?_ ?_ s [] [] ⟨.inl rfl, .inl rfl⟩
  · intro pre pre' c s h hc
    refine ⟨h.cons, ?_⟩
    rw [phrasePlace, phrasePlace, evidencePattern, evidencePattern, evidencePhrase_kept hu h]
  · intro pre pre' w s new h hw he
    refine ⟨h.edit hu hw he, ?_, ?_⟩
    · obtain ⟨_, n, head, _, _, hp, _⟩ := evidenceRewriter_eq he
      obtain ⟨c, w, rfl⟩ := List.exists_cons_of_ne_nil hw
      have hrest : placesIn (phrasePlace u) (c :: pre) w s = 0 := by
        refine placesIn_eq_zero fun p t hpt ht => ?_
        rw [phrasePlace, evidencePattern, evidencePhrase_of_not (evidenceRewriter_inside he p t hpt ht)]
        rfl
      rw [placesIn, hrest, phrasePlace, evidencePattern, hp]
      rfl
    · obtain ⟨_, _, str, rfl, _, hr⟩ := evidenceRewriter_edit he
      refine placesIn_eq_zero fun p t hpt ht => ?_
      rw [phrasePlace, evidencePattern, none_of_rewording hr (head_reworded hr.stop) p t hpt ht]
      rfl

/-! ## The loop over the phrases -/

/-- The edit after a phrase, counted from the phrase on. -/
theorem followerEdit_drop (masked : Str) (i n : Nat) (head prep : Bool) : followerEdit masked (i + n) head prep =
    (followerEdit (masked.drop i) n head prep).map fun (start, stop, verb) => (i + start, i + stop, verb) := by
  unfold followerEdit
  rw [List.drop_drop]
  simp only
  split
  · rfl
  split
  · rfl
  split
  · split
    · rfl
    · rfl
  split
  · split
    · rfl
    · rfl
  rw [Option.map_map]
  congr 1
  funext plural
  simp only [Function.comp_apply, Nat.add_assoc]

/-- An edit of a text, as one of its cells. -/
def cellEdit (e : Nat × Nat × Str) : Nat × Nat × List Cell := (e.1, e.2.1, plainCells e.2.2)

theorem texts_take (s : List Cell) (i : Nat) : texts (s.take i) = (texts s).take i := List.map_take

theorem texts_drop (s : List Cell) (i : Nat) : texts (s.drop i) = (texts s).drop i := List.map_drop

/-- The edit of a phrase is what the rewriter does there. -/
theorem evidenceEdit_eq {u : Unicode} {text : Str} {i j : Nat} {head : Bool} (hij : i < j)
    (h : evidencePhrase u ((maskCode text).take i).reverse ((maskCode text).drop i) = some (j - i, head)) :
    ((evidenceEdit u text (maskCode text) i j).map cellEdit) =
      (evidenceRewriter u ((cells text).take i).reverse ((cells text).drop i)).map fun e => (i, i + e.1, e.2) := by
  have hpre : masks ((cells text).take i).reverse = ((maskCode text).take i).reverse := by
    rw [masks_reverse, masks_take, masks_cells]
  have hrest : masks ((cells text).drop i) = (maskCode text).drop i := by rw [masks_drop, masks_cells]
  have htexts : texts ((cells text).drop i) = text.drop i := by rw [texts_drop, texts_cells]
  have hbefore : lineBefore ((cells text).take i).reverse = lastLine (text.take i) := by
    rw [lineBefore, texts_reverse, List.reverse_reverse, texts_take, texts_cells]
  obtain ⟨_, hle, hall⟩ := evidencePhrase_spec h
  rw [take_drop_eq_slice] at hall
  have hmask : codeMask ∉ slice (maskCode text) i j := fun hmem => absurd (List.all_eq_true.mp hall _ hmem) (by decide)
  have hline : '\n' ∉ slice text i j := by
    rw [slice_eq_of_unmasked hmask]
    exact fun hmem => absurd (List.all_eq_true.mp hall _ hmem) (by decide)
  unfold evidenceEdit evidenceRewriter
  simp only
  rw [hpre, hrest, htexts, hbefore, h, lineAt_cells hij.le hline, Option.bind_some, Option.any_some]
  simp only
  by_cases hf : (fenceRun (lineAround text i j)).isSome = true
  · rw [if_pos hf, if_pos hf]
    rfl
  · rw [if_neg hf, if_neg hf]
    have hshift := followerEdit_drop (maskCode text) i (j - i) head
      (prepositionBefore u ((maskCode text).take i).reverse (lastLine (text.take i)).length)
    rw [Nat.add_sub_cancel' hij.le] at hshift
    rw [hshift]
    cases he : followerEdit ((maskCode text).drop i) (j - i) head
        (prepositionBefore u ((maskCode text).take i).reverse (lastLine (text.take i)).length) with
    | none => rfl
    | some edit =>
      obtain ⟨start, stop, verb⟩ := edit
      obtain ⟨h1, h2, h3, hprose, _⟩ := followerEdit_spec hle he
      -- what is kept between the phrase and the verb is outside code
      have hkept : slice text j (i + start) = slice ((maskCode text).drop i) (j - i) start := by
        have hslice : slice ((maskCode text).drop i) (j - i) start = slice (maskCode text) j (i + start) := by
          rw [slice, slice, List.take_drop, List.drop_drop, Nat.add_sub_cancel' hij.le]
        rw [hslice]
        refine slice_eq_of_unmasked fun hmem => ?_
        rw [← hslice] at hmem
        have hsub : codeMask ∈ slice ((maskCode text).drop i) (j - i) stop := slice_subset (Nat.le_refl _) h2 hmem
        rw [← take_drop_eq_slice] at hsub
        exact absurd (List.all_eq_true.mp hprose _ hsub) (by decide)
      simp only [Option.map_some, cellEdit, hkept]

theorem evidenceRewriter_chooses (u : Unicode) (text : Str) :
    Chooses (phrasePlace u) (fun x => (evidenceEdit u text (maskCode text) x.1 x.2).map cellEdit) (evidenceRewriter u)
      (cells text) where
  sound := by
    intro pre s n h
    have := evidencePattern_sound u _ _ _ h
    rwa [masks, List.length_map] at this
  pos := by
    intro i n h
    obtain ⟨⟨k, head⟩, hk, rfl⟩ := Option.map_eq_some_iff.mp h
    exact evidencePhrase_pos hk
  free := by
    intro i h
    have hnone := Option.map_eq_none_iff.mp h
    rw [evidenceRewriter, hnone]
    rfl
  hit := by
    intro i j hij h
    obtain ⟨⟨n, head⟩, hp, hn⟩ := Option.map_eq_some_iff.mp h
    obtain rfl : n = j - i := hn
    have free {k : Nat} (hq : Quiet startsThe (masks ((cells text).drop i)) 1 k) (x : Nat) (hx : i < x) (hxk : x < i + k) :
        Free (phrasePlace u) (cells text) x := by
      have hquiet := hq (x - i) (by omega) (by omega)
      rw [← masks_drop, List.drop_drop, Nat.add_sub_cancel' hx.le] at hquiet
      rw [Free, phrasePlace, evidencePattern, evidencePhrase_of_not hquiet]
      rfl
    have hquiet := evidencePhrase_quiet hp
    refine ⟨fun x hx hxj => free hquiet x hx (by omega), ?_⟩
    have hedit := @evidenceEdit_eq u text i j head hij (by
      rwa [masks_reverse, masks_take, masks_drop, masks_cells] at hp)
    rw [hedit]
    cases he : evidenceRewriter u ((cells text).take i).reverse ((cells text).drop i) with
    | none => exact .inl ⟨rfl, rfl⟩
    | some edit =>
      obtain ⟨k, new⟩ := edit
      obtain ⟨_, n', _, start, _, hp', hf, _⟩ := evidenceRewriter_eq he
      obtain ⟨_, hk, _, str, rfl, _, hr⟩ := evidenceRewriter_prosaic he
      rw [hp] at hp'
      obtain ⟨rfl, rfl⟩ := Prod.mk.inj (Option.some.inj hp')
      obtain ⟨h1, h2, hle, _⟩ := followerEdit_spec (evidencePhrase_spec hp).2.1 hf
      rw [List.length_drop] at hk
      have hq := hr.quiet
      rw [List.take_append_drop, List.length_take_of_le hle] at hq
      refine .inr ⟨i + k, plainCells str, rfl, by omega, by omega, fun x hx hxk => free hq x hx hxk, ?_⟩
      rw [Nat.add_sub_cancel_left]

theorem cells_reworded (u : Unicode) (text : Str) :
    cells (rewriteEvidenceReferences u text).text = rewriteFrom (evidenceRewriter u) [] 0 (cells text) ∧
      (rewriteEvidenceReferences u text).rewrites = rewrites (evidenceRewriter u) [] 0 (cells text) ∧
      (rewriteEvidenceReferences u text).rewrites + (rewriteEvidenceReferences u text).skipped =
        placesIn (phrasePlace u) [] (cells text) [] := by
  have hfind : finditer (phrasePlace u) (cells text) = finditer (evidencePattern u) (maskCode text) := by
    rw [← masks_cells text]
    exact finditer_map Cell.mask (evidencePattern u) (cells text)
  have hedits : (finditer (phrasePlace u) (cells text)).filterMap
      (fun x => (evidenceEdit u text (maskCode text) x.1 x.2).map cellEdit) = (evidenceEdits u text).map cellEdit := by
    rw [hfind, evidenceEdits, List.map_filterMap]
  obtain ⟨h1, h2, h3⟩ := (evidenceRewriter_chooses u text).finditer
  rw [hedits] at h1 h2
  rw [List.length_map] at h2
  rw [hfind] at h3
  refine ⟨?_, h2, ?_⟩
  · rw [← h1, rewriteEvidenceReferences]
    exact cells_splice ((evidenceEdits_spec u text).imp fun _ _ _ h => h.1)
  · rw [← h3]
    have hle : (evidenceEdits u text).length ≤ (finditer (evidencePattern u) (maskCode text)).length :=
      List.length_filterMap_le _ _
    simp only [rewriteEvidenceReferences]
    omega

/-- An edit of the rewrite: a phrase becomes "the sources I found" and its verb plural, what stands
between them is kept, and all of it is outside code, on a line that starts no fence run. -/
structure IsReworded (u : Unicode) (text : Str) (i k : Nat) (new : Str) : Prop where
  inside : i < k ∧ k ≤ text.length
  prose : codeMask ∉ slice (maskCode text) i k
  line : fenceRun (lineAround text i k) = none
  words : ∃ j start verb, MatchAt (evidencePattern u) (maskCode text) i j ∧ i < j ∧ j ≤ start ∧ start ≤ k ∧
    new = matchCase sourcesIFound ((text.drop i).take 1) ++ slice text j start ++ verb ∧
    ((start = k ∧ verb = []) ∨ pluralVerb (slice (maskCode text) start k) = some verb)

theorem evidenceEdits_reworded (u : Unicode) (text : Str) : Edits (IsReworded u text) 0 (evidenceEdits u text) := by
  refine ((evidenceEdits_spec u text).and (R := fun i k new => ∃ j start verb,
    MatchAt (evidencePattern u) (maskCode text) i j ∧ i < j ∧ j ≤ start ∧ start ≤ k ∧
    new = matchCase sourcesIFound ((text.drop i).take 1) ++ slice text j start ++ verb ∧
    ((start = k ∧ verb = []) ∨ pluralVerb (slice (maskCode text) start k) = some verb)) fun e he => ?_).imp
    fun i k new h => ⟨⟨h.1.2.1, h.1.1.inside⟩, h.1.1.old.mask, h.1.1.line, h.2⟩
  obtain ⟨⟨i, j⟩, hmem, he⟩ := List.mem_filterMap.mp he
  obtain ⟨hij, hlen, hmatch⟩ := (finditer_ordered (evidencePattern_sound u) (maskCode text)).mem hmem
  obtain ⟨⟨start, stop, verb⟩, hedit, rfl⟩ := Option.map_eq_some_iff.mp he
  split at hedit
  · cases hedit
  obtain ⟨h1, h2, _⟩ := followerEdit_spec hlen hedit
  refine ⟨j, start, verb, hmatch, hij, h1, h2, rfl, ?_⟩
  rcases followerEdit_cases hedit with ⟨rfl, rfl, rfl, _⟩ | ⟨a, b, _, _, _, rfl, rfl, hplural⟩
  · exact .inl ⟨rfl, rfl⟩
  · refine .inr ?_
    rwa [slice, List.take_drop, List.drop_drop] at hplural

/-- **Rewording, once and for all.** A second pass finds nothing to do and skips what the first
skipped; the markers stay, and so do the fenced lines; and the first changes phrases and their
verbs only, each outside code and on a line that starts no fence run. -/
theorem rewriteEvidenceReferences_spec {u : Unicode} (hu : WordLetters u) (text : Str) :
    rewriteEvidenceReferences u (rewriteEvidenceReferences u text).text =
        { text := (rewriteEvidenceReferences u text).text
          rewrites := 0
          skipped := (rewriteEvidenceReferences u text).skipped } ∧
      citedMarkers (rewriteEvidenceReferences u text).text = citedMarkers text ∧
      (∃ es, Edits (IsReworded u text) 0 es ∧ (rewriteEvidenceReferences u text).text = splice text 0 es ∧
        (rewriteEvidenceReferences u text).rewrites = es.length) ∧
      fencedLines (rewriteEvidenceReferences u text).text = fencedLines text := by
  refine ⟨?_, citedMarkers_rewrite u text, ⟨evidenceEdits u text, evidenceEdits_reworded u text, rfl, rfl⟩, ?_⟩
  · obtain ⟨hcells, hcount, hplaces⟩ := cells_reworded u text
    obtain ⟨hcells', hcount', hplaces'⟩ := cells_reworded u (rewriteEvidenceReferences u text).text
    have hidle := idle_reworded hu (cells text)
    have hstay := places_reworded hu (cells text)
    rw [← hcells] at hidle hstay
    rw [rewriteFrom_idle hidle] at hcells'
    rw [rewrites_idle hidle] at hcount'
    have htext := congrArg texts hcells'
    rw [texts_cells, texts_cells] at htext
    have hskipped : (rewriteEvidenceReferences u (rewriteEvidenceReferences u text).text).skipped =
        (rewriteEvidenceReferences u text).skipped := by omega
    rw [← hcount', ← hskipped]
    generalize rewriteEvidenceReferences u (rewriteEvidenceReferences u text).text = r at htext ⊢
    rw [← htext]
  · exact fencedLines_splice ((evidenceEdits_spec u text).imp fun _ _ _ h => h.1)

theorem rewriteEvidenceReferences_spec_folding :
    rewriteEvidenceReferences foldingDatabase
        (rewriteEvidenceReferences foldingDatabase "The evidence says so [1].".toList).text =
      ⟨"The sources I found say so [1].".toList, 0, 0⟩ := by
  rw [(rewriteEvidenceReferences_spec wordLetters_folding "The evidence says so [1].".toList).1]
  decide +kernel

end CiteVyn.Llm
