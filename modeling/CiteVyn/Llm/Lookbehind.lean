import CiteVyn.Llm.Lookahead

/-! # Reading back from a phrase

A preposition counts before a phrase when it is a word of its own. Whatever was rewritten
further back ends in a word that is none, before and after, so the same prepositions count. -/
namespace CiteVyn.Llm
open CiteVyn.Lib.Scan CiteVyn.Text Cell

/-! ## Words in any case -/

/-- A word in any case, with either apostrophe. -/
def Spelled : Str → Str → Prop :=
  List.Forall₂ fun k c => (isLowerAscii k = true ∧ eqIgnoreCase k c = true) ∨ (k = '\'' ∧ isApostrophe c = true)

theorem spelled_literal {w s : Str} (hw : w.all isLowerAscii = true) (h : literal w s = true) :
    Spelled w (s.take w.length) := by
  have := literal_forall₂ h
  clear h
  generalize s.take w.length = v at this
  induction this with
  | nil => exact .nil
  | cons hc _ ih =>
    simp only [List.all_cons, Bool.and_eq_true] at hw
    exact .cons (.inl ⟨hw.1, hc⟩) (ih hw.2)

theorem Spelled.all {k v : Str} (h : Spelled k v) : v.all isVerbChar = true := by
  induction h with
  | nil => rfl
  | cons hc _ ih =>
    rw [List.all_cons, ih, Bool.and_true, isVerbChar, Bool.or_eq_true]
    rcases hc with ⟨hlow, hc⟩ | ⟨_, hc⟩
    · exact .inl (eqIgnoreCase_letter hlow hc)
    · exact .inr hc

theorem mem_uppers {c : Char} (h : isUpperAscii c = true) : c ∈ "ABCDEFGHIJKLMNOPQRSTUVWXYZ".toList := by
  have hn : 65 ≤ c.toNat ∧ c.toNat ≤ 90 := by
    simp only [isUpperAscii, Bool.and_eq_true, decide_eq_true_eq, Char.le_def] at h
    exact h
  have hc : c = Char.ofNat c.toNat := (Char.ofNat_toNat c).symm
  obtain ⟨h1, h2⟩ := hn
  generalize c.toNat = n at h1 h2 hc
  subst hc
  interval_cases n <;> decide

/-- A letter or an apostrophe of the verb table. -/
def isKeyChar (c : Char) : Bool := isLowerAscii c || c == '\''

theorem lowerChar_upper {c : Char} (h : isUpperAscii c = true) : lowerChar c = [Char.ofNat (c.toNat + 32)] := if_pos h

theorem lowerChar_other {c : Char} (h : isUpperAscii c ≠ true) (hk : c ≠ '\u212A') (hi : c ≠ '\u0130') :
    lowerChar c = [c] :=
  (if_neg h).trans ((if_neg (by simpa using hk)).trans (if_neg (by simpa using hi)))

/-- A character that the key of a verb keeps is that letter in one of its cases, or an
apostrophe. -/
theorem verbKey_char (c : Char) (h : (verbKey [c]).all isKeyChar = true) :
    ∃ k, verbKey [c] = [k] ∧ ((isLowerAscii k = true ∧ eqIgnoreCase k c = true) ∨ (k = '\'' ∧ isApostrophe c = true)) := by
  have hkey : verbKey [c] = (lowerChar c).map fun c => if c == curlyApostrophe then '\'' else c := by
    simp [verbKey, lower]
  by_cases hu : isUpperAscii c = true
  · have hall : "ABCDEFGHIJKLMNOPQRSTUVWXYZ".toList.all (fun c => (verbKey [c]).all fun k =>
        verbKey [c] == [k] && isLowerAscii k && eqIgnoreCase k c) = true := by decide +kernel
    have hc := List.all_eq_true.mp hall c (mem_uppers hu)
    cases hv : verbKey [c] with
    | nil =>
      rw [hkey, lowerChar_upper hu] at hv
      cases hv
    | cons k ks =>
      rw [hv, List.all_cons, Bool.and_eq_true, Bool.and_eq_true, Bool.and_eq_true, beq_iff_eq] at hc
      exact ⟨k, hc.1.1.1, .inl ⟨hc.1.1.2, hc.1.2⟩⟩
  by_cases hk : c = '\u212A'
  · subst hk
    exact ⟨'k', by decide, .inl (by decide)⟩
  by_cases hi : c = '\u0130'
  · subst hi
    exact absurd h (by decide)
  rw [lowerChar_other hu hk hi] at hkey
  by_cases hcurly : c = curlyApostrophe
  · subst hcurly
    exact ⟨'\'', by decide, .inr (by decide)⟩
  · have hkey : verbKey [c] = [c] := by
      rw [hkey, List.map_singleton, if_neg (by simpa using hcurly)]
    rw [hkey, List.all_cons, Bool.and_eq_true, isKeyChar, Bool.or_eq_true, beq_iff_eq] at h
    refine ⟨c, hkey, ?_⟩
    rcases h.1 with h | rfl
    · exact .inl ⟨h, by simp [eqIgnoreCase]⟩
    · exact .inr (by decide)

theorem spelled_verbKey {v : Str} (h : (verbKey v).all isKeyChar = true) : Spelled (verbKey v) v := by
  induction v with
  | nil => exact .nil
  | cons c v ih =>
    rw [← List.singleton_append, verbKey_append] at h ⊢
    rw [List.all_append, Bool.and_eq_true] at h
    obtain ⟨k, hk, hc⟩ := verbKey_char c h.1
    rw [hk]
    exact .cons hc (ih h.2)

theorem spelled_unique {w k v : Str} (hw : w.all isLowerAscii = true)
    (h : List.Forall₂ (fun p c => eqIgnoreCase p c = true) w v) (hk : Spelled k v) : w = k := by
  induction h generalizing k with
  | nil =>
    cases hk
    rfl
  | cons hc _ ih =>
    simp only [List.all_cons, Bool.and_eq_true] at hw
    cases hk with
    | cons hkc hk =>
      rw [ih hw.2 hk]
      rcases hkc with ⟨hlow, hkc⟩ | ⟨rfl, hap⟩
      · rw [eqIgnoreCase_unique hw.1 hlow hc hkc]
      · have hletter := eqIgnoreCase_letter hw.1 hc
        simp only [isApostrophe, Bool.or_eq_true, beq_iff_eq] at hap
        rcases hap with rfl | rfl
        · exact absurd hletter (by decide)
        · exact absurd hletter (by decide)

/-! ## The words at the end of a rewrite -/

/-- The words that a rewritten phrase, or its verb, ends in, before and after. -/
def lastWords : List Str :=
  "evidence".toList :: "found".toList :: pluralHeads ++ evidenceVerbs.map Prod.fst ++ evidenceVerbs.map Prod.snd

/-- None of them is a preposition, or ends in one after an apostrophe; none ends in "the". -/
theorem lastWords_spec : ∀ k ∈ lastWords, k.all isKeyChar = true ∧ k.getLast?.any isLowerAscii = true ∧
    ¬"the".toList <:+ k ∧
    ∀ w ∈ prepositions, w <:+ k → (k.take (k.length - w.length)).getLast?.any isLowerAscii = true := by
  decide +kernel

theorem prepositions_lower : ∀ w ∈ prepositions, w.all isLowerAscii = true ∧ w ≠ [] := by decide +kernel

/-- A text, from its end, that ends in a word which is no preposition. -/
structure WordEnd (u : Unicode) (z : Str) : Prop where
  letter : z.head?.any isLetterIgnoreCase = true
  whole : ∀ w ∈ prepositions, literal w.reverse z = true → u.wordBoundary (z.drop w.length) (z.take w.length).reverse = false

theorem Spelled.getLast {k v : Str} (h : Spelled k v) (hk : k.getLast?.any isLowerAscii = true) :
    v.getLast?.any isLetterIgnoreCase = true := by
  rw [← List.head?_reverse] at hk ⊢
  have := List.forall₂_reverse_iff.mpr h
  generalize k.reverse = k' at hk this
  generalize v.reverse = v' at this
  cases this with
  | nil => cases hk
  | cons hc _ =>
    rcases hc with ⟨hlow, hc⟩ | ⟨rfl, _⟩
    · exact eqIgnoreCase_letter hlow hc
    · cases hk

theorem any_isWord {u : Unicode} (hu : WordLetters u) {c : Option Char} (h : c.any isLetterIgnoreCase = true) :
    c.any u.isWord = true := by
  cases c with
  | none => cases h
  | some c => exact hu c h

theorem wordEnd_of_spelled {u : Unicode} (hu : WordLetters u) {k v z : Str} {d : Char} (hk : k ∈ lastWords)
    (h : Spelled k v) (hd : isLetterIgnoreCase d = false) : WordEnd u (v.reverse ++ d :: z) := by
  obtain ⟨_, hlast, _, hprep⟩ := lastWords_spec k hk
  have hletter := h.getLast hlast
  have hlen := h.length_eq
  have hne : v.reverse ≠ [] := by
    rw [Ne, List.reverse_eq_nil_iff]
    rintro rfl
    cases hletter
  refine ⟨by rwa [List.head?_append_of_ne_nil _ hne, List.head?_reverse], fun w hw hlit => ?_⟩
  obtain ⟨hlower, hw0⟩ := prepositions_lower w hw
  have hlower' : w.reverse.all isLowerAscii = true := by rwa [List.all_reverse]
  -- the preposition lies in the word
  have hle : w.length ≤ v.length := by
    by_contra hlt
    have hd' := literal_drop hlit v.length
    rw [← @List.length_reverse _ v, List.drop_left] at hd'
    cases hr : w.reverse.drop v.reverse.length with
    | nil =>
      rw [List.drop_eq_nil_iff, List.length_reverse, List.length_reverse] at hr
      omega
    | cons p ps =>
      rw [hr, literal, Bool.and_eq_true] at hd'
      have hp : isLowerAscii p = true := List.all_eq_true.mp hlower' p (List.mem_of_mem_drop (hr ▸ List.mem_cons_self))
      rw [eqIgnoreCase_letter hp hd'.1] at hd
      cases hd
  have htake : (v.reverse ++ d :: z).take w.length = (v.drop (v.length - w.length)).reverse := by
    rw [List.take_append_of_le_length (by rwa [List.length_reverse]), List.take_reverse]
  have hdrop : (v.reverse ++ d :: z).drop w.length = (v.take (v.length - w.length)).reverse ++ d :: z := by
    rw [List.drop_append_of_le_length (by rwa [List.length_reverse]), List.drop_reverse]
  have hend : w = k.drop (v.length - w.length) := by
    have := literal_forall₂ hlit
    rw [List.length_reverse, htake, List.forall₂_reverse_iff] at this
    exact spelled_unique hlower this (List.forall₂_drop _ h)
  have hbefore := hprep w hw (by rw [hend]; exact List.drop_suffix _ _)
  rw [hlen] at hbefore
  have hprev : (v.take (v.length - w.length)).getLast?.any isLetterIgnoreCase = true :=
    Spelled.getLast (List.forall₂_take _ h) hbefore
  have hne' : (v.take (v.length - w.length)).reverse ≠ [] := by
    intro hnil
    rw [List.reverse_eq_nil_iff] at hnil
    rw [hnil] at hprev
    cases hprev
  have hfirst : (v.drop (v.length - w.length)).head?.any isLetterIgnoreCase = true := by
    have hsp : Spelled w (v.drop (v.length - w.length)) := by
      have := List.forall₂_drop (v.length - w.length) h
      rwa [← hend] at this
    generalize v.drop (v.length - w.length) = t at hsp
    cases hsp with
    | nil => exact absurd rfl hw0
    | cons hc _ =>
      simp only [List.all_cons, Bool.and_eq_true] at hlower
      rcases hc with ⟨hlow, hc⟩ | ⟨rfl, _⟩
      · exact eqIgnoreCase_letter hlow hc
      · exact absurd hlower.1 (by decide)
  rw [hdrop, htake, List.reverse_reverse, Unicode.wordBoundary, List.head?_append_of_ne_nil _ hne', List.head?_reverse,
    any_isWord hu hprev, any_isWord hu hfirst]
  rfl

/-! ## Prepositions -/

/-- What comes before a place, before and after the pass: the same, or the same back to words
that end there. The text goes on from those words with no letter. -/
def Ends (u : Unicode) (p p' rest : Str) : Prop :=
  p = p' ∨ ∃ g z z', p = g.reverse ++ z ∧ p' = g.reverse ++ z' ∧ WordEnd u z ∧ WordEnd u z' ∧
    ∀ c, (g ++ rest).head? = some c → isLetterIgnoreCase c = false

theorem Ends.cons {u : Unicode} {p p' s : Str} {c : Char} (h : Ends u p p' (c :: s)) : Ends u (c :: p) (c :: p') s := by
  rcases h with rfl | ⟨g, z, z', rfl, rfl, hz, hz', hg⟩
  · exact .inl rfl
  · exact .inr ⟨g ++ [c], z, z', by simp, by simp, hz, hz', by simpa using hg⟩

theorem Ends.isWord {u : Unicode} (hu : WordLetters u) {p p' s : Str} (h : Ends u p p' s) :
    p.head?.any u.isWord = p'.head?.any u.isWord := by
  rcases h with rfl | ⟨g, z, z', rfl, rfl, hz, hz', _⟩
  · rfl
  by_cases hg : g.reverse = []
  · rw [hg, List.nil_append, List.nil_append, any_isWord hu hz.letter, any_isWord hu hz'.letter]
  · rw [List.head?_append_of_ne_nil _ hg, List.head?_append_of_ne_nil _ hg]

/-- A preposition before a place, with the blanks between them. -/
theorem prepositionBefore_iff {u : Unicode} {p : Str} {onLine : Nat} : prepositionBefore u p onLine = true ↔
    blanks p ≠ 0 ∧ ∃ w ∈ prepositions, literal w.reverse (p.drop (blanks p)) = true ∧ blanks p + w.length ≤ onLine ∧
      u.wordBoundary ((p.drop (blanks p)).drop w.length) ((p.drop (blanks p)).take w.length).reverse = true := by
  simp only [prepositionBefore, Bool.and_eq_true, bne_iff_ne, List.any_eq_true, decide_eq_true_eq, and_assoc]

theorem blanks_letter {z : Str} (h : z.head?.any isLetterIgnoreCase = true) (a : Str) : blanks (a ++ z) = blanks a := by
  rw [blanks, takeWhile_ahead, blanks]
  intro c hc
  rw [hc] at h
  exact not_isBlank_of_letter h

theorem literal_reverse_lower {w : Str} (hw : w ∈ prepositions) : w.reverse.all isLowerAscii = true ∧ w.reverse ≠ [] := by
  obtain ⟨h, h0⟩ := prepositions_lower w hw
  exact ⟨by rwa [List.all_reverse], by simpa using h0⟩

/-- A preposition that a word end is not part of. -/
theorem preposition_inside {u : Unicode} {g z : Str} (hz : WordEnd u z)
    (hg : ∀ c, g.head? = some c → isLetterIgnoreCase c = false) {w : Str} (hw : w ∈ prepositions)
    (h : literal w.reverse ((g.reverse ++ z).drop (blanks (g.reverse ++ z))) = true)
    (hb : u.wordBoundary (((g.reverse ++ z).drop (blanks (g.reverse ++ z))).drop w.length)
      (((g.reverse ++ z).drop (blanks (g.reverse ++ z))).take w.length).reverse = true) :
    blanks g.reverse + w.length ≤ g.length := by
  obtain ⟨hlower, _⟩ := literal_reverse_lower hw
  have hle := blanks_le g.reverse
  rw [List.length_reverse] at hle
  rw [blanks_letter hz.letter, List.drop_append_of_le_length (by rwa [List.length_reverse])] at h hb
  by_contra hlt
  rcases Nat.eq_or_lt_of_le hle with heq | hlt'
  · -- nothing but blanks: the word would be the end of the text before
    have hnil : g.reverse.drop (blanks g.reverse) = [] := List.drop_eq_nil_of_le (by rw [List.length_reverse]; omega)
    rw [hnil, List.nil_append] at h hb
    rw [hz.whole w hw h] at hb
    cases hb
  · -- the word would contain the first character of the gap
    obtain ⟨c, g, rfl⟩ := List.exists_cons_of_ne_nil (show g ≠ [] by rintro rfl; cases hlt')
    have hc := hg c rfl
    generalize blanks (c :: g).reverse = n at h hlt hlt'
    have hcut : (c :: g).reverse.drop n = g.reverse.drop n ++ [c] := by
      rw [List.reverse_cons, List.drop_append_of_le_length]
      rw [List.length_cons] at hlt'
      rw [List.length_reverse]
      omega
    rw [hcut, List.append_assoc, List.singleton_append] at h
    have hd := literal_drop h (g.reverse.drop n).length
    rw [List.drop_left] at hd
    cases hr : w.reverse.drop (g.reverse.drop n).length with
    | nil =>
      rw [List.drop_eq_nil_iff, List.length_drop, List.length_reverse, List.length_reverse] at hr
      simp only [List.length_cons] at hlt hlt'
      omega
    | cons p ps =>
      rw [hr, literal, Bool.and_eq_true] at hd
      have hp : isLowerAscii p = true := List.all_eq_true.mp hlower p (List.mem_of_mem_drop (hr ▸ List.mem_cons_self))
      rw [eqIgnoreCase_letter hp hd.1] at hc
      cases hc

/-- The same prepositions count before a place that was passed over. -/
theorem prepositionBefore_ends {u : Unicode} (hu : WordLetters u) {p p' rest : Str} (h : Ends u p p' rest)
    (hp : prepositionBefore u p p.length = true) : prepositionBefore u p' p'.length = true := by
  rcases h with rfl | ⟨g, z, z', rfl, rfl, hz, hz', hg⟩
  · exact hp
  obtain ⟨hb, w, hw, hlit, _, hbound⟩ := prepositionBefore_iff.mp hp
  have hg' : ∀ c, g.head? = some c → isLetterIgnoreCase c = false := by
    intro c hc
    refine hg c ?_
    rw [List.head?_append, hc]
    rfl
  have hle := preposition_inside hz hg' hw hlit hbound
  rw [blanks_letter hz.letter] at hb hlit hbound
  have hblanks : blanks g.reverse ≤ g.reverse.length := blanks_le _
  have hlen : w.length ≤ (g.reverse.drop (blanks g.reverse)).length := by
    rw [List.length_drop, List.length_reverse]
    omega
  rw [List.drop_append_of_le_length hblanks] at hlit hbound
  refine prepositionBefore_iff.mpr ?_
  rw [blanks_letter hz'.letter, List.drop_append_of_le_length hblanks]
  refine ⟨hb, w, hw, ?_, ?_, ?_⟩
  · rw [literal_take_append (by rwa [List.length_reverse]) z' z]
    exact hlit
  · rw [List.length_append, List.length_reverse]
    omega
  · rw [List.drop_append_of_le_length hlen, List.take_append_of_le_length hlen] at hbound ⊢
    rw [← hbound, Unicode.wordBoundary, Unicode.wordBoundary]
    by_cases hnil : (g.reverse.drop (blanks g.reverse)).drop w.length = []
    · rw [hnil, List.nil_append, List.nil_append, any_isWord hu hz.letter, any_isWord hu hz'.letter]
    · rw [List.head?_append_of_ne_nil _ hnil, List.head?_append_of_ne_nil _ hnil]

theorem Ends.symm {u : Unicode} {p p' rest : Str} (h : Ends u p p' rest) : Ends u p' p rest := by
  rcases h with h | ⟨g, z, z', hp, hp', hz, hz', hg⟩
  · exact .inl h.symm
  · exact .inr ⟨g, z', z, hp', hp, hz', hz, hg⟩

theorem Ends.prepositionBefore_eq {u : Unicode} (hu : WordLetters u) {p p' rest : Str} (h : Ends u p p' rest) :
    prepositionBefore u p p.length = prepositionBefore u p' p'.length :=
  Bool.eq_iff_iff.mpr ⟨prepositionBefore_ends hu h, prepositionBefore_ends hu h.symm⟩

/-- A preposition found outside code is on the line. -/
theorem prepositionBefore_line (u : Unicode) (pre : List Cell) :
    prepositionBefore u (masks pre) (lineBefore pre).length = prepositionBefore u (masks pre) (masks pre).length := by
  have hline {n : Nat} (hn : n ≤ (masks pre).length) (h : ((masks pre).take n).all isProseChar = true) :
      n ≤ (lineBefore pre).length := by
    have hprose : ∀ c ∈ masks (pre.take n), isProseChar c = true := by
      rw [masks_take]
      exact List.all_eq_true.mp h
    have hmask : codeMask ∉ masks (pre.take n) := fun hmem => absurd (hprose _ hmem) (by decide)
    have hnew : '\n' ∉ texts (pre.take n) := by
      rw [texts_eq_masks hmask]
      exact fun hmem => absurd (hprose _ hmem) (by decide)
    have hpre : pre = ((pre.take n).reverse).reverse ++ pre.drop n := by
      rw [List.reverse_reverse, List.take_append_drop]
    rw [hpre, lineBefore_append (by rwa [texts_reverse, List.mem_reverse]), List.length_append, texts, List.length_map,
      List.length_reverse, List.length_take]
    rw [masks, List.length_map] at hn
    omega
  rw [Bool.eq_iff_iff, prepositionBefore_iff, prepositionBefore_iff]
  refine and_congr_right fun _ => exists_congr fun w => and_congr_right fun hw => and_congr_right fun hlit =>
    and_congr_left fun _ => ?_
  obtain ⟨hlower, _⟩ := literal_reverse_lower hw
  have hn : blanks (masks pre) + w.length ≤ (masks pre).length := by
    have := literal_length hlit
    have hb := blanks_le (masks pre)
    rw [List.length_reverse, List.length_drop] at this
    omega
  refine iff_of_true (hline hn (all_take_add ?_ ?_)) hn
  · rw [List.all_eq_true]
    exact fun c hc => isProseChar_of_blank (List.all_eq_true.mp (take_blanks _) c hc)
  · have := literal_all hlower hlit
    rw [List.length_reverse] at this
    rw [List.all_eq_true] at this ⊢
    exact fun c hc => isProseChar_of_letter (this c hc)

end CiteVyn.Llm
