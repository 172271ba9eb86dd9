import CiteVyn.Llm.PassOrder
import CiteVyn.Llm.Validation

/-! # Rewording and refusals

The validator takes an answer that says "do not have credible source material" for a refusal.
Rewording makes one of an answer that says it of the evidence, in the singular: the verb "does"
becomes "do". No other rewording makes a refusal or unmakes one. -/
namespace CiteVyn.Llm
open CiteVyn.Lib.Scan CiteVyn.Lib.Rewrite CiteVyn.Text Cell

/-! ## Refusals, place by place -/

/-- The refusal is read at the start of the text. -/
def Refuses (s : Str) : Prop := noAnswerSubstring <+: lower s

theorem lower_append (a b : Str) : lower (a ++ b) = lower a ++ lower b := List.flatMap_append

theorem lower_cons (c : Char) (s : Str) : lower (c :: s) = lowerChar c ++ lower s := List.flatMap_cons

theorem lowerChar_kinds (c : Char) :
    (∃ x, lowerChar c = [x] ∧ (c = x ∨ c = upperAscii x ∨ x = 'k')) ∨ lowerChar c = ['i', '\u0307'] := by
  by_cases hu : isUpperAscii c = true
  · have hall : "ABCDEFGHIJKLMNOPQRSTUVWXYZ".toList.all (fun c => upperAscii (Char.ofNat (c.toNat + 32)) == c) = true := by
      rw [String.toList_ofList]
      decide
    have hup := List.all_eq_true.mp hall c (mem_uppers hu)
    exact .inl ⟨_, lowerChar_upper hu, .inr (.inl (eq_of_beq hup).symm)⟩
  by_cases hk : c = '\u212A'
  · exact .inl ⟨'k', by rw [hk]; rfl, .inr (.inr rfl)⟩
  by_cases hi : c = '\u0130'
  · exact .inr (by rw [hi]; rfl)
  · exact .inl ⟨c, lowerChar_other hu hk hi, .inl rfl⟩

/-- The character under the first one of a lowered text. -/
theorem lower_head {x : Char} {q s : Str} (hx : x ≠ 'i' ∧ x ≠ 'k') (h : x :: q <+: lower s) :
    ∃ c s', s = c :: s' ∧ (c = x ∨ c = upperAscii x) ∧ q <+: lower s' := by
  cases s with
  | nil =>
    have := List.eq_nil_of_prefix_nil h
    cases this
  | cons c s =>
    rw [lower_cons] at h
    rcases lowerChar_kinds c with ⟨y, hy, hc⟩ | hi
    · rw [hy, List.singleton_append, List.cons_prefix_cons] at h
      obtain ⟨rfl, hq⟩ := h
      refine ⟨c, s, rfl, ?_, hq⟩
      rcases hc with hc | hc | hc
      · exact .inl hc
      · exact .inr hc
      · exact absurd hc hx.2
    · rw [hi, List.cons_append, List.cons_prefix_cons] at h
      exact absurd h.1 hx.1

/-- A word is read in a lowered text from the start of one of its characters. -/
theorem lower_infix {x : Char} {q text : Str} (hx : x ≠ '\u0307') :
    x :: q <:+: lower text ↔ ∃ p s, text = p ++ s ∧ x :: q <+: lower s := by
  constructor
  · intro h
    induction text with
    | nil => exact absurd (List.eq_nil_of_infix_nil h) (List.cons_ne_nil _ _)
    | cons c t ih =>
      have later (h : x :: q <:+: lower t) : ∃ p s, c :: t = p ++ s ∧ x :: q <+: lower s := by
        obtain ⟨p, s, rfl, hs⟩ := ih h
        exact ⟨c :: p, s, rfl, hs⟩
      have here (h : x :: q <+: lower (c :: t)) : ∃ p s, c :: t = p ++ s ∧ x :: q <+: lower s := ⟨[], c :: t, rfl, h⟩
      have hl := lower_cons c t
      rcases lowerChar_kinds c with ⟨y, hy, _⟩ | hi
      · rw [hy, List.singleton_append] at hl
        rw [hl, List.infix_cons_iff, ← hl] at h
        exact h.elim here later
      · rw [hi, List.cons_append, List.singleton_append] at hl
        rw [hl, List.infix_cons_iff, List.infix_cons_iff, ← hl] at h
        rcases h with h | h | h
        · exact here h
        · exact absurd (List.cons_prefix_cons.mp h).1 hx
        · exact later h
  · rintro ⟨p, s, rfl, h⟩
    rw [lower_append]
    exact h.isInfix.trans (List.suffix_append _ _).isInfix

theorem noAnswerSubstring_cons :
    noAnswerSubstring = 'd' :: 'o' :: ' ' :: "not have credible source material".toList := by
  rw [String.toList_ofList]
  exact String.toList_ofList

theorem Refuses.head {s : Str} (h : Refuses s) : ∃ c s', s = c :: s' ∧ (c = 'd' ∨ c = 'D') := by
  rw [Refuses, noAnswerSubstring_cons] at h
  obtain ⟨c, s', hs, hc, _⟩ := lower_head (by decide) h
  exact ⟨c, s', hs, hc⟩

theorem lowerChar_space {c : Char} (h : isSpace c = true) : lowerChar c = [c] := by
  refine lowerChar_other (fun hu => ?_) ?_ ?_
  · have hall : "ABCDEFGHIJKLMNOPQRSTUVWXYZ".toList.all (fun c => !isSpace c) = true := by
      rw [String.toList_ofList]
      decide
    have := List.all_eq_true.mp hall c (mem_uppers hu)
    rw [h] at this
    cases this
  · rintro rfl
    exact absurd h (by decide)
  · rintro rfl
    exact absurd h (by decide)

theorem lower_spaces {s : Str} (h : ∀ c ∈ s, isSpace c = true) : lower s = s := by
  induction s with
  | nil => rfl
  | cons c s ih =>
    obtain ⟨hc, hs⟩ := List.forall_mem_cons.mp h
    rw [lower_cons, lowerChar_space hc, ih hs]
    rfl

/-- A refusal does not end in white space. -/
theorem refuses_append {s b : Str} (hb : ∀ c ∈ b, isSpace c = true) (h : Refuses (s ++ b)) : Refuses s := by
  rw [Refuses, lower_append, lower_spaces hb] at h
  rcases Nat.le_total noAnswerSubstring.length (lower s).length with hle | hle
  · exact List.prefix_of_prefix_length_le h (List.prefix_append _ _) hle
  · obtain ⟨r, hr⟩ := List.prefix_of_prefix_length_le (List.prefix_append _ _) h hle
    rw [← hr, List.prefix_append_right_inj] at h
    cases hlast : r.getLast? with
    | none =>
      rw [List.getLast?_eq_none_iff.mp hlast, List.append_nil] at hr
      rw [Refuses, ← hr]
    | some c =>
      have hc : c = 'l' := by
        have : noAnswerSubstring.getLast? = some c := by rw [← hr, List.getLast?_append, hlast]; rfl
        rw [show noAnswerSubstring.getLast? = some 'l' from by decide] at this
        exact (Option.some.inj this).symm
      have := hb c (h.subset (List.mem_of_getLast? hlast))
      rw [hc] at this
      exact absurd this (by decide)

/-- Stripping leaves the refusals. -/
theorem refuses_strip (text : Str) :
    (∃ p s, strip text = p ++ s ∧ Refuses s) ↔ ∃ p s, text = p ++ s ∧ Refuses s := by
  obtain ⟨a, b, htext, ha, hb⟩ := strip_cut text
  constructor
  · rintro ⟨p, s, hs, h⟩
    refine ⟨a ++ p, s ++ b, ?_, ?_⟩
    · rw [htext, hs]
      simp
    · rw [Refuses, lower_append]
      exact h.trans (List.prefix_append _ _)
  · rintro ⟨p, s, hs, h⟩
    obtain ⟨c, s', hcons, hc⟩ := h.head
    have no_space {w : Str} (hw : ∀ c ∈ w, isSpace c = true) (hmem : c ∈ w) : False := by
      have := hw c hmem
      rcases hc with rfl | rfl
      · exact absurd this (by decide)
      · exact absurd this (by decide)
    rw [htext, List.append_assoc] at hs
    -- the refusal does not start before what is left
    obtain ⟨p', hp'⟩ : ∃ p', strip text ++ b = p' ++ s := by
      rcases List.append_eq_append_iff.mp hs with ⟨p', _, hp'⟩ | ⟨d, hd, hs⟩
      · exact ⟨p', hp'⟩
      · cases d with
        | nil => exact ⟨[], hs.symm⟩
        | cons x d =>
          rw [hcons, List.cons_append] at hs
          obtain ⟨rfl, _⟩ := List.cons.inj hs
          exact (no_space ha (by rw [hd]; simp)).elim
    rcases List.append_eq_append_iff.mp hp' with ⟨b', _, hb'⟩ | ⟨t, ht, hs⟩
    · exact (no_space hb (by rw [hb', hcons]; simp)).elim
    · rw [hs] at h
      exact ⟨p', t, ht, refuses_append hb h⟩

theorem isNoAnswerRefusal_iff (text : Str) : isNoAnswerRefusal text = true ↔ ∃ p s, text = p ++ s ∧ Refuses s := by
  have hcontains (s : Str) : contains noAnswerSubstring (lower s) = true ↔ ∃ p t, s = p ++ t ∧ Refuses t := by
    unfold Refuses
    rw [contains_iff, noAnswerSubstring_cons]
    exact lower_infix (by decide)
  rw [← refuses_strip, ← hcontains, isNoAnswerRefusal, Bool.or_eq_true, beq_iff_eq]
  refine or_iff_right_of_imp fun h => ?_
  have hrefusal : noAnswerRefusal = _ := String.toList_ofList
  have hsubstring : noAnswerSubstring = _ := String.toList_ofList
  rw [h, hrefusal, hsubstring]
  decide +kernel

/-! ## Where a refusal can start -/

/-- "do" in any case, and a space: what a refusal starts with. -/
def startsDo : Str → Bool
  | c :: d :: e :: _ => (c == 'd' || c == 'D') && (d == 'o' || d == 'O') && e == ' '
  | _ => false

theorem Refuses.startsDo {s : Str} (h : Refuses s) : startsDo s = true := by
  rw [Refuses, noAnswerSubstring_cons] at h
  obtain ⟨c, s, rfl, hc, h⟩ := lower_head (by decide) h
  obtain ⟨d, s, rfl, hd, h⟩ := lower_head (by decide) h
  obtain ⟨e, s, rfl, he, _⟩ := lower_head (by decide) h
  have he : e = ' ' := he.elim id id
  rw [he]
  rcases hc with rfl | rfl
  · rcases hd with rfl | rfl
    · rfl
    · rfl
  · rcases hd with rfl | rfl
    · rfl
    · rfl

theorem startsDo_cons {s : Str} (h : startsDo s = true) : ∃ c d r, s = c :: d :: ' ' :: r ∧ (c = 'd' ∨ c = 'D') ∧
    (d = 'o' ∨ d = 'O') := by
  rcases s with _ | ⟨c, _ | ⟨d, _ | ⟨e, s⟩⟩⟩
  · cases h
  · cases h
  · cases h
  · simp only [startsDo, Bool.and_eq_true, Bool.or_eq_true, beq_iff_eq] at h
    obtain ⟨⟨hc, hd⟩, rfl⟩ := h
    exact ⟨c, d, s, rfl, hc, hd⟩

theorem noDo_blanks {w : Str} (hw : w.all isBlank = true) (tail : Str) : NoneIn startsDo w tail := by
  intro p t hpt ht
  obtain ⟨c, t, rfl⟩ := List.exists_cons_of_ne_nil ht
  by_contra h
  obtain ⟨c', d, r, hcons, hc, _⟩ := startsDo_cons (by simpa using h)
  obtain ⟨rfl, _⟩ := List.cons.inj hcons
  have := List.all_eq_true.mp hw c (by rw [hpt]; simp)
  rcases hc with rfl | rfl
  · exact absurd this (by decide)
  · exact absurd this (by decide)

/-- In a word that does not end in "do" no refusal starts, nor after its last letter. -/
theorem noDo_spelled {k v tail : Str} (h : Spelled k v) (hdo : ¬"do".toList <:+ k)
    (hend : k.getLast? ≠ some 'd' ∨ ∀ c, tail.head? = some c → isLetterIgnoreCase c = false) : NoneIn startsDo v tail := by
  have spelled {w t : Str} (hw : w.all isLowerAscii = true) (p : Str) (hpt : v = p ++ t)
      (hf : List.Forall₂ (fun p c => eqIgnoreCase p c = true) w t) : w <:+ k := by
    have hsp : Spelled (k.drop p.length) t := by
      have := List.forall₂_drop p.length h
      rwa [hpt, List.drop_left] at this
    exact spelled_unique hw hf hsp ▸ List.drop_suffix _ _
  intro p t hpt ht
  by_contra hstart
  obtain ⟨c, d, r, hcons, hc, hd⟩ := startsDo_cons (by simpa using hstart)
  have hc : eqIgnoreCase 'd' c = true := by rcases hc with rfl | rfl <;> rfl
  have hd' : eqIgnoreCase 'o' d = true := by rcases hd with rfl | rfl <;> rfl
  rcases t with _ | ⟨c', _ | ⟨d', _ | ⟨e, t⟩⟩⟩
  · exact ht rfl
  · -- the word ends in "d", and a letter follows
    rw [List.singleton_append, List.cons.injEq] at hcons
    obtain ⟨rfl, hcons⟩ := hcons
    rcases hend with hend | hend
    · obtain ⟨a, ha⟩ := spelled (w := ['d']) rfl p hpt (.cons hc .nil)
      rw [← ha, List.getLast?_append] at hend
      exact hend rfl
    · have := hend d (by rw [hcons]; rfl)
      rw [eqIgnoreCase_letter (p := 'o') rfl hd'] at this
      cases this
  · simp only [List.cons_append, List.cons.injEq] at hcons
    obtain ⟨rfl, rfl, _⟩ := hcons
    exact hdo (spelled (w := ['d', 'o']) rfl p hpt (.cons hc (.cons hd' .nil)))
  · have he : e = ' ' := by
      simp only [List.cons_append, List.cons.injEq] at hcons
      exact hcons.2.2.1
    have := List.all_eq_true.mp h.all e (by rw [hpt]; simp)
    rw [he] at this
    exact absurd this (by decide)

/-- The words that "do" does not end. -/
def Undone (words : List Str) : Prop := ∀ w ∈ words, w.all isLowerAscii = true ∧ ¬"do".toList <:+ w

/-- None of the words of a phrase ends in "do", nor of the adverbs after it. -/
theorem words_undone : Undone ["the".toList] ∧ Undone premodifiers ∧ Undone adverbs ∧
    (∀ w ∈ "evidence".toList :: pluralHeads, w.all isLowerAscii = true ∧ ¬"do".toList <:+ w ∧ w.getLast? ≠ some 'd') ∧
    ∀ w ∈ adverbs, w ≠ [] := by
  unfold Undone
  decide +kernel

theorem noDo_wordAndBlanks {words : List Str} (hw : Undone words) {s : Str} {n m : Nat} (tail : Str)
    (h : wordAndBlanks words s n = some m) : NoneIn startsDo ((s.drop n).take (m - n)) tail := by
  obtain ⟨w, k, hmem, hlit, rfl, hk, hb⟩ := wordAndBlanks_spec h
  obtain ⟨hlower, hdo⟩ := hw w hmem
  have hblanks : ((s.drop (n + w.length)).take k).all isBlank = true := by
    rw [hb]
    exact take_blanks _
  rw [show n + w.length + k - n = w.length + k by omega, List.take_add, List.drop_drop]
  refine (noDo_spelled (spelled_literal hlower hlit) hdo (.inr fun c hc => ?_)).append
    (noDo_blanks hblanks tail)
  rw [List.head?_append_of_ne_nil] at hc
  · exact not_letter_of_blank (List.all_eq_true.mp hblanks c (List.mem_of_head? hc))
  · intro hnil
    have hle := blanks_le (s.drop (n + w.length))
    have := congrArg List.length hnil
    rw [List.length_take, List.length_nil] at this
    omega

/-- No refusal starts in a phrase, whatever follows it. -/
theorem evidencePhrase_noDo {u : Unicode} {pre rest : Str} {n : Nat} {head : Bool}
    (h : evidencePhrase u pre rest = some (n, head)) (tail : Str) : NoneIn startsDo (rest.take n) tail := by
  have undone {words : List Str} (hw : Undone words) {n m : Nat} (hm : wordAndBlanks words rest n = some m) :
      n ≤ m ∧ ∀ tail, NoneIn startsDo (slice rest n m) tail := by
    refine ⟨(wordAndBlanks_le hm).1.le, fun tail => ?_⟩
    rw [← take_drop_eq_slice]
    exact noDo_wordAndBlanks hw tail hm
  have added (n k : Nat) (h : ∀ tail, NoneIn startsDo ((rest.drop n).take k) tail) :
      n ≤ n + k ∧ ∀ tail, NoneIn startsDo (slice rest n (n + k)) tail := by
    refine ⟨Nat.le_add_right n k, fun tail => ?_⟩
    rw [← take_drop_eq_slice, Nat.add_sub_cancel_left]
    exact h tail
  have hall := (evidencePhrase_pieces (i := 0) (Q := fun j k => j ≤ k ∧ ∀ tail, NoneIn startsDo (slice rest j k) tail) h
    (fun n => ⟨Nat.le_refl n, fun tail => ?_⟩) ?_ ?_ ?_ ?_ ?_).2 tail
  · exact hall
  · rw [show slice rest n n = [] from List.drop_eq_nil_of_le (List.length_take_le n rest)]
    exact fun p t hpt ht => absurd (List.append_eq_nil_iff.mp hpt.symm).2 ht
  · intro j k l hjk hkl
    refine ⟨hjk.1.trans hkl.1, fun tail => ?_⟩
    rw [← slice_append_slice hjk.1 hkl.1]
    exact (hjk.2 _).append (hkl.2 tail)
  · exact fun m => undone words_undone.1
  · exact fun n m => undone words_undone.2.1
  · exact fun n => added n _ fun tail => noDo_blanks (take_blanks (rest.drop n)) tail
  · intro w hw n hlit
    obtain ⟨hlower, hdo, hd⟩ := words_undone.2.2.2.1 w hw
    exact added n _ fun tail => noDo_spelled (spelled_literal hlower hlit) hdo (.inl hd)

/-! ## What an edit writes -/

/-- What follows "do" in a refusal. -/
def notHave : Str := " not have credible source material".toList

theorem noAnswerSubstring_eq : noAnswerSubstring = "do".toList ++ notHave := by
  have hnot : notHave = _ := String.toList_ofList
  rw [hnot]
  exact String.toList_ofList

theorem evidenceVerb_start {s : Str} {start stop : Nat} (h : evidenceVerb s = some (start, stop)) : 0 < start := by
  obtain ⟨hb, hstart, _⟩ := evidenceVerb_parts h
  rcases hstart with rfl | hm
  · omega
  · have := (wordAndBlanks_le hm).1
    omega

theorem sources_noDo {like tail : Str} (h : like.length ≤ 1)
    (htail : ∀ c, tail.head? = some c → isLetterIgnoreCase c = false) :
    NoneIn startsDo (matchCase sourcesIFound like) tail := by
  obtain ⟨t, ht, hsrc⟩ := matchCase_like h
  have htails : ∀ v ∈ (t :: "he sources I found".toList).tails, v.head? ≠ some 'D' ∧ (v.head? = some 'd' → v = ['d']) := by
    rw [String.toList_ofList]
    rcases ht with rfl | rfl
    · decide
    · decide
  intro p w hpw hw
  by_contra hstart
  obtain ⟨c, d, r, hcons, hc, hd⟩ := startsDo_cons (by simpa using hstart)
  obtain ⟨x, w, rfl⟩ := List.exists_cons_of_ne_nil hw
  obtain ⟨hupper, hlower⟩ := htails (x :: w) ((List.mem_tails _ _).mpr ⟨p, by rw [← hpw, hsrc]⟩)
  rw [List.cons_append, List.cons.injEq] at hcons
  obtain ⟨rfl, hcons⟩ := hcons
  rcases hc with rfl | rfl
  · have hnil : w = [] := (List.cons.inj (hlower rfl)).2
    rw [hnil, List.nil_append] at hcons
    have := htail d (by rw [hcons]; rfl)
    rcases hd with rfl | rfl
    · exact absurd this (by decide)
    · exact absurd this (by decide)
  · exact hupper rfl

/-- Before its verb an edit starts no refusal. -/
theorem kept_noDo {s : Str} {a b : Nat} (hv : evidenceVerb s = some (a, b)) {like : Str} (h : like.length ≤ 1) (tail : Str) :
    NoneIn startsDo (matchCase sourcesIFound like ++ s.take a) tail := by
  have hkept := evidenceVerb_kept (q := startsDo) hv (fun _ tail hw => noDo_blanks hw tail)
    (fun _ _ tail hm => noDo_wordAndBlanks words_undone.2.2.1 tail hm) tail
  refine (sources_noDo h fun c hc => ?_).append hkept
  have hpos := evidenceVerb_start hv
  have hhead := evidenceVerb_head hv
  cases s with
  | nil => cases hv
  | cons d s =>
    obtain ⟨a, rfl⟩ := Nat.exists_eq_succ_of_ne_zero hpos.ne'
    exact (isBreak_spec (hhead c hc)).1

/-- A verb whose plural is not "do" starts no refusal, before and after. -/
theorem verbs_noDo : (∀ e ∈ evidenceVerbs, (¬"do".toList <:+ e.1 ∧ e.1.getLast? ≠ some 'd') ∧
      (e.2 ≠ "do".toList → ¬"do".toList <:+ e.2 ∧ e.2.getLast? ≠ some 'd') ∧
      (e.1 = "does".toList ↔ e.2 = "do".toList)) ∧
    (∀ w ∈ spellings "do".toList, lower w = "do".toList ∧ w.head? ≠ none) ∧
    evidenceVerbs.lookup "does".toList ≠ none := by decide +kernel

/-- A singular "does" becomes a plural "do", and only it. -/
theorem refuses_do {verb : Str} (h : verb ∈ spellings "do".toList) (s : Str) : Refuses (verb ++ s) ↔ notHave <+: lower s := by
  rw [Refuses, lower_append, (verbs_noDo.2.1 verb h).1, noAnswerSubstring_eq, List.prefix_append_right_inj]

/-! ## Reading a refusal up to a phrase -/

/-- No end of the word goes on with "th". -/
def Clear (p : Str) : Prop := ∀ v ∈ p.tails, v ≠ ['t'] ∧ ¬['t', 'h'] <+: v

theorem noAnswerSubstring_clear : Clear noAnswerSubstring := by
  unfold Clear noAnswerSubstring
  rw [String.toList_ofList]
  decide

theorem notHave_clear : Clear notHave := by
  unfold Clear notHave
  rw [String.toList_ofList]
  decide

theorem lower_startsThe {x : Str} (h : startsThe x = true) : ∃ r, lower x = 't' :: 'h' :: r := by
  obtain ⟨a, b, c, d, r, rfl, ha, hb, _⟩ := startsThe_cons h
  refine ⟨lower (c :: d :: r), ?_⟩
  rw [lower_cons, lower_cons]
  rcases ha with rfl | rfl
  · rcases hb with rfl | rfl <;> rfl
  · rcases hb with rfl | rfl <;> rfl

/-- Such a word is read before a phrase, whatever the phrase. -/
theorem lower_ahead {p x y : Str} (hp : Clear p) (hx : startsThe x = true) (g : Str) (h : p <+: lower (g ++ x)) :
    p <+: lower (g ++ y) := by
  induction g generalizing p with
  | nil =>
    obtain ⟨r, hr⟩ := lower_startsThe hx
    rw [List.nil_append, hr] at h
    rcases p with _ | ⟨a, _ | ⟨b, p⟩⟩
    · exact List.nil_prefix
    · obtain ⟨rfl, _⟩ := List.cons_prefix_cons.mp h
      exact absurd rfl (hp _ ((List.mem_tails _ _).mpr List.suffix_rfl)).1
    · rw [List.cons_prefix_cons, List.cons_prefix_cons] at h
      obtain ⟨rfl, rfl, _⟩ := h
      exact absurd ⟨p, rfl⟩ (hp _ ((List.mem_tails _ _).mpr List.suffix_rfl)).2
  | cons c g ih =>
    rw [List.cons_append, lower_cons] at h ⊢
    rcases Nat.le_total p.length (lowerChar c).length with hle | hle
    · exact (List.prefix_of_prefix_length_le h (List.prefix_append _ _) hle).trans (List.prefix_append _ _)
    · obtain ⟨q, rfl⟩ := List.prefix_of_prefix_length_le (List.prefix_append _ _) h hle
      rw [List.prefix_append_right_inj] at h ⊢
      refine ih (fun v hv => hp v ?_) h
      rw [List.mem_tails] at hv ⊢
      exact hv.trans (List.suffix_append _ _)

theorem texts_startsThe {x : List Cell} (h : startsThe (masks x) = true) : startsThe (texts x) = true := by
  obtain ⟨a, b, c, d, r, hcons, ha, hb, hc, hd⟩ := startsThe_cons h
  have same {c : Cell} (h : c.mask ≠ codeMask) : c.text = c.mask := by
    rcases c.property with hm | hm
    · exact hm.symm
    · exact absurd hm h
  rcases x with _ | ⟨a', _ | ⟨b', _ | ⟨c', _ | ⟨d', x⟩⟩⟩⟩
  · cases hcons
  · cases hcons
  · cases hcons
  · cases hcons
  · simp only [masks_cons, List.cons.injEq] at hcons
    obtain ⟨rfl, rfl, rfl, rfl, _⟩ := hcons
    rw [texts_cons, texts_cons, texts_cons, texts_cons, same, same, same, same]
    · rcases ha with ha | ha <;> rcases hb with hb | hb <;> rcases hc with hc | hc <;> rcases hd with hd | hd <;>
        rw [ha, hb, hc, hd] <;> rfl
    · rcases hd with hd | hd <;> rw [hd] <;> decide
    · rcases hc with hc | hc <;> rw [hc] <;> decide
    · rcases hb with hb | hb <;> rw [hb] <;> decide
    · rcases ha with ha | ha <;> rw [ha] <;> decide

/-- A refusal is read at a place that is passed over as it was before the pass. -/
theorem lower_reworded {p : Str} (hp : Clear p) (u : Unicode) (pre a s : List Cell) :
    p <+: lower (texts (a ++ rewriteFrom (evidenceRewriter u) pre 0 s)) ↔ p <+: lower (texts (a ++ s)) := by
  rcases reworded_split u pre s with heq | ⟨g, x, y, hx, hy, hthe, hthe'⟩
  · rw [heq]
  · rw [hx] at hy ⊢
    rw [hy, ← List.append_assoc, ← List.append_assoc, texts_append, texts_append (a ++ g)]
    exact ⟨lower_ahead hp (texts_startsThe hthe') _, lower_ahead hp (texts_startsThe hthe) _⟩

/-! ## The pass -/

/-- "The evidence does not have credible source material", with the phrase as the subject of the
verb: what is reworded here becomes a refusal. -/
def Turns (u : Unicode) (pre rest : List Cell) : Prop := ∃ n a b,
  evidencePhrase u (masks pre) (masks rest) = some (n, false) ∧ fenceRun (lineAt pre rest) = none ∧
  prepositionBefore u (masks pre) (lineBefore pre).length = false ∧ evidenceVerb ((masks rest).drop n) = some (a, b) ∧
  verbKey (slice ((masks rest).drop n) a b) = "does".toList ∧ notHave <+: lower (texts (rest.drop (n + b)))

/-- A refusal starts here. -/
def RefusesAt (_ rest : List Cell) : Prop := Refuses (texts rest)

theorem verbLength_head {s : Str} {k : Nat} (h : verbLength s = some k) : ∃ c r, s = c :: r ∧ isLetterIgnoreCase c = true := by
  cases s with
  | nil => cases h
  | cons c r =>
    by_cases hc : isLetterIgnoreCase c = true
    · exact ⟨c, r, rfl, hc⟩
    · unfold verbLength at h
      rw [List.takeWhile_cons_of_neg hc] at h
      cases h

/-- Where a verb is read the phrase is not at its end. -/
theorem evidenceVerb_not_end {s : Str} {start stop : Nat} (h : evidenceVerb s = some (start, stop)) :
    evidenceEnd s = false := by
  obtain ⟨hb, hstart, k, hk, _⟩ := evidenceVerb_parts h
  obtain ⟨c, r, hcons, hc⟩ : ∃ c r, s.dropWhile isBlank = c :: r ∧ isLetterIgnoreCase c = true := by
    rw [← drop_takeWhile_length]
    rcases hstart with rfl | hm
    · exact verbLength_head hk
    · obtain ⟨w, _, hmem, hlit, _⟩ := wordAndBlanks_spec hm
      obtain ⟨hlower, _⟩ := words_undone.2.2.1 w hmem
      have hne := words_undone.2.2.2.2 w hmem
      obtain ⟨p, w, rfl⟩ := List.exists_cons_of_ne_nil hne
      rw [blanks] at hlit
      cases hd : s.drop (s.takeWhile isBlank).length with
      | nil =>
        rw [hd] at hlit
        cases hlit
      | cons c r =>
        rw [hd, literal, Bool.and_eq_true] at hlit
        rw [List.all_cons, Bool.and_eq_true] at hlower
        exact ⟨c, r, rfl, eqIgnoreCase_letter hlower.1 hlit.1⟩
  have hopen : c ≠ '[' := by
    rintro rfl
    exact absurd hc (by decide)
  have hne : s.length ≠ 0 := by
    intro h0
    rw [List.eq_nil_of_length_eq_zero h0] at hcons
    cases hcons
  obtain ⟨fuel, hfuel⟩ := Nat.exists_eq_succ_of_ne_zero hne
  have hstop : [',', '.', ';', ':', ')', '!', '?'].contains c = false := by
    by_contra hstop
    rw [Bool.not_eq_false] at hstop
    have := (isBreak_spec (c := c) (by rw [isBreak, hstop, Bool.or_true])).1
    rw [hc] at this
    cases this
  unfold evidenceEnd
  rw [hfuel, Nat.succ_eq_add_one, afterNumbers, hcons, bracketedNumbers_of_ne hopen, hcons]
  exact hstop

/-- What turns into a refusal is reworded. -/
theorem Turns.edit {u : Unicode} {pre rest : List Cell} (h : Turns u pre rest) : ∃ n a b verb,
    evidencePhrase u (masks pre) (masks rest) = some (n, false) ∧ evidenceVerb ((masks rest).drop n) = some (a, b) ∧
      verbKey (slice ((masks rest).drop n) a b) = "does".toList ∧
      followerEdit (masks rest) n false (prepositionBefore u (masks pre) (lineBefore pre).length) =
        some (n + a, n + b, verb) ∧ notHave <+: lower (texts (rest.drop (n + b))) := by
  obtain ⟨n, a, b, hp, _, hprep, hv, hdoes, hnot⟩ := h
  cases hplural : pluralVerb (slice ((masks rest).drop n) a b) with
  | none =>
    rw [pluralVerb_isNone, hdoes] at hplural
    exact absurd hplural verbs_noDo.2.2
  | some verb =>
    refine ⟨n, a, b, verb, hp, hv, hdoes, ?_, hnot⟩
    unfold followerEdit
    simp only [evidenceVerb_not_end hv, hv, hprep, hplural, Bool.false_eq_true, if_false, Option.map_some]

theorem Turns.rewritten {u : Unicode} {pre rest : List Cell} (h : Turns u pre rest) : evidenceRewriter u pre rest ≠ none := by
  obtain ⟨n, a, b, verb, hp, _, _, hf, _⟩ := h.edit
  obtain ⟨_, _, _, _, hline, _⟩ := h
  unfold evidenceRewriter
  rw [hp, Option.bind_some]
  simp only [hline, Option.isSome_none, Bool.false_eq_true, if_false, hf, Option.map_some]
  exact Option.some_ne_none _

/-- Where nothing starts with "do" there is no refusal. -/
theorem somewhere_refuses {w s : List Cell} (h : NoneIn startsDo (texts w) (texts s)) (pre : List Cell) :
    Somewhere RefusesAt pre (w ++ s) ↔ Somewhere RefusesAt (w.reverse ++ pre) s := by
  refine somewhere_append fun p t hpt ht href => ?_
  have := h (texts p) (texts t) (by rw [← texts_append, hpt]) fun hnil => ht (List.map_eq_nil_iff.mp hnil)
  rw [← texts_append, Refuses.startsDo href] at this
  cases this

theorem not_refuses_o {c : Char} {s : Str} (hc : c = 'o' ∨ c = 'O') : ¬Refuses (c :: s) := by
  intro h
  obtain ⟨d, s', hcons, hd⟩ := h.head
  obtain ⟨rfl, _⟩ := List.cons.inj hcons
  rcases hc with rfl | rfl
  · exact absurd hd (by decide)
  · exact absurd hd (by decide)

/-- The verb "do" is the start of a refusal, or there is none in it. -/
theorem somewhere_do {verb : Str} (h : verb ∈ spellings "do".toList) (pre s : List Cell) :
    Somewhere RefusesAt pre (plainCells verb ++ s) ↔
      notHave <+: lower (texts s) ∨ Somewhere RefusesAt ((plainCells verb).reverse ++ pre) s := by
  have hshape : ∀ w ∈ spellings "do".toList, ∃ c d, w = [c, d] ∧ (d = 'o' ∨ d = 'O') := by
    intro w hw
    have hall : ∀ w ∈ spellings "do".toList, w = ['D', 'O'] ∨ w = ['D', 'o'] ∨ w = ['d', 'o'] := by decide
    rcases hall w hw with rfl | rfl | rfl
    · exact ⟨_, _, rfl, .inr rfl⟩
    · exact ⟨_, _, rfl, .inl rfl⟩
    · exact ⟨_, _, rfl, .inl rfl⟩
  obtain ⟨c, d, rfl, hd⟩ := hshape verb h
  have hfirst : RefusesAt pre (plainCells [c, d] ++ s) ↔ notHave <+: lower (texts s) := by
    rw [RefusesAt, texts_append, texts_plainCells]
    exact refuses_do h _
  have hsecond : ¬RefusesAt (plain c :: pre) (plain d :: s) := not_refuses_o hd
  rw [← hfirst]
  change Somewhere RefusesAt pre (plain c :: plain d :: s) ↔ _
  rw [somewhere_cons, somewhere_cons]
  exact or_congr Iff.rfl (or_iff_right hsecond)

/-- After a break no letter comes, neither before the pass nor after it. -/
theorem head_break {u : Unicode} {pre s : List Cell} (h : ∀ c, (masks s).head? = some c → isBreak c = true) :
    ∀ c, (texts (rewriteFrom (evidenceRewriter u) pre 0 s)).head? = some c → isLetterIgnoreCase c = false := by
  have cell {d : Cell} (hd : isBreak d.mask = true) : isLetterIgnoreCase d.text = false := by
    obtain ⟨hletter, hmask⟩ := isBreak_spec hd
    rcases d.property with hm | hm
    · rw [← hletter]
      exact congrArg isLetterIgnoreCase hm.symm
    · exact absurd hm hmask
  intro c hc
  rcases reworded_split u pre s with heq | ⟨g, x, y, hx, hy, hthe, _⟩
  · rw [heq] at hc
    cases s with
    | nil => cases hc
    | cons d s =>
      obtain rfl := Option.some.inj hc
      exact cell (h _ rfl)
  · cases g with
    | nil =>
      rw [hx, List.nil_append] at h
      obtain ⟨a, _, _, _, _, hcons, ha, _⟩ := startsThe_cons hthe
      have := h a (by rw [hcons]; rfl)
      rcases ha with rfl | rfl
      · exact absurd this (by decide)
      · exact absurd this (by decide)
    | cons d g =>
      rw [hy] at hc
      obtain rfl := Option.some.inj hc
      exact cell (h _ (by rw [hx]; rfl))

/-- An edit writes a refusal if and only if it turns what it takes into one; it takes none. -/
theorem edit_refuses {u : Unicode} {pre w s new : List Cell} (he : evidenceRewriter u pre (w ++ s) = some (w.length, new))
    (pre' : List Cell) : (∀ tail, NoneIn startsDo (texts w) tail) ∧
      (Somewhere RefusesAt pre' (new ++ rewriteFrom (evidenceRewriter u) (w.reverse ++ pre) 0 s) ↔
        Turns u pre (w ++ s) ∨
          Somewhere RefusesAt (new.reverse ++ pre') (rewriteFrom (evidenceRewriter u) (w.reverse ++ pre) 0 s)) := by
  obtain ⟨_, hprose, _⟩ := evidenceRewriter_edit he
  obtain ⟨hline, n, head, start, verb, hp, hf, rfl⟩ := evidenceRewriter_eq he
  have hlike : ((texts (w ++ s)).take 1).length ≤ 1 := List.length_take_le _ _
  have htexts : texts w = masks w := texts_eq_masks fun hmem => absurd (List.all_eq_true.mp hprose _ hmem) (by decide)
  have hcut : (masks (w ++ s)).take w.length = masks w := by
    rw [masks_append]
    exact List.take_left' (List.length_map ..)
  have hdrop : (masks (w ++ s)).drop w.length = masks s := by
    rw [masks_append]
    exact List.drop_left' (List.length_map ..)
  have hphrase := evidencePhrase_noDo hp
  rcases followerEdit_cases hf with ⟨rfl, hk, rfl, hbreak⟩ | ⟨a, b, rfl, hprep, hv, rfl, hk, hplural⟩
  · -- the phrase alone is reworded
    have hold : texts w = (masks (w ++ s)).take start := by rw [htexts, ← hcut, hk]
    have hnew : matchCase sourcesIFound ((texts (w ++ s)).take 1) ++ slice (masks (w ++ s)) start start ++ [] =
        matchCase sourcesIFound ((texts (w ++ s)).take 1) := by
      rw [show slice (masks (w ++ s)) start start = [] from List.drop_eq_nil_of_le (List.length_take_le _ _), List.append_nil,
        List.append_nil]
    have hnot : ¬Turns u pre (w ++ s) := by
      intro h
      obtain ⟨n, a, b, verb, hp', hv, _, hf', _⟩ := h.edit
      rw [hp] at hp'
      obtain ⟨rfl, rfl⟩ := Prod.mk.inj (Option.some.inj hp')
      rw [hf] at hf'
      have hstart := (Prod.mk.inj (Option.some.inj hf')).1
      have := evidenceVerb_start hv
      omega
    rw [← hk, hdrop] at hbreak
    refine ⟨fun tail => hold ▸ hphrase tail, ?_⟩
    rw [hnew, or_iff_right hnot]
    refine somewhere_refuses ?_ _
    rw [texts_plainCells]
    exact sources_noDo hlike (head_break hbreak)
  · -- the verb after it is made plural
    obtain ⟨e, hmem, hkey, hspell⟩ := pluralVerb_entry hplural
    obtain ⟨⟨hdo1, hd1⟩, hplain, hdoes⟩ := verbs_noDo.1 e hmem
    obtain ⟨he1, he2⟩ := mem_lastWords_of_entry hmem
    have hab := (evidenceVerb_spec hv).1
    have hslice : slice (masks (w ++ s)) n (n + a) = ((masks (w ++ s)).drop n).take a := by
      rw [← take_drop_eq_slice, Nat.add_sub_cancel_left]
    have hold : texts w = (masks (w ++ s)).take n ++
        (((masks (w ++ s)).drop n).take a ++ slice ((masks (w ++ s)).drop n) a b) := by
      rw [take_append_slice hab, ← List.take_add, ← hk, hcut, htexts]
    have hnew : plainCells (matchCase sourcesIFound ((texts (w ++ s)).take 1) ++ slice (masks (w ++ s)) n (n + a) ++ verb) =
        plainCells (matchCase sourcesIFound ((texts (w ++ s)).take 1) ++ ((masks (w ++ s)).drop n).take a) ++
          plainCells verb := by rw [hslice, plainCells, List.map_append]; rfl
    have hkept (tail : Str) := kept_noDo hv hlike tail
    have hrest : (w ++ s).drop (n + b) = s := List.drop_left' hk
    refine ⟨fun tail => ?_, ?_⟩
    · rw [hold]
      refine (hphrase _).append (NoneIn.append ?_ ?_)
      · exact evidenceVerb_kept hv (fun _ tail hw => noDo_blanks hw tail)
          (fun _ _ tail hm => noDo_wordAndBlanks words_undone.2.2.1 tail hm) _
      · exact noDo_spelled (spelled_lastWord he1 hkey) hdo1 (.inl hd1)
    have hturn : Turns u pre (w ++ s) ↔ e.2 = "do".toList ∧ notHave <+: lower (texts s) := by
      rw [← hdoes, ← hkey]
      constructor
      · intro h
        obtain ⟨n', a', b', _, hp', hv', hdoes', _, hnot⟩ := h.edit
        rw [hp] at hp'
        obtain ⟨rfl, _⟩ := Prod.mk.inj (Option.some.inj hp')
        rw [hv] at hv'
        obtain ⟨rfl, rfl⟩ := Prod.mk.inj (Option.some.inj hv')
        rw [hrest] at hnot
        exact ⟨hdoes', hnot⟩
      · intro h
        exact ⟨n, a, b, hp, hline, hprep, hv, h.1, by rw [hrest]; exact h.2⟩
    rw [hnew, hturn, List.append_assoc, somewhere_refuses (by rw [texts_plainCells]; exact hkept _), List.reverse_append,
      List.append_assoc]
    by_cases hdo : e.2 = "do".toList
    · have hahead := lower_reworded notHave_clear u (w.reverse ++ pre) [] s
      rw [List.nil_append, List.nil_append] at hahead
      rw [somewhere_do (hdo ▸ hspell), hahead]
      exact or_congr (and_iff_right hdo).symm Iff.rfl
    · have hverb := spelled_lastWord he2 (verbKey_spellings e hmem verb hspell)
      obtain ⟨hdo2, hd2⟩ := hplain hdo
      rw [somewhere_refuses (by rw [texts_plainCells]; exact noDo_spelled hverb hdo2 (.inl hd2))]
      exact (or_iff_right fun h => hdo h.1).symm

theorem evidenceRewriter_nil (u : Unicode) (pre : List Cell) : evidenceRewriter u pre [] = none := by
  have : evidencePhrase u (masks pre) (masks []) = none := evidencePhrase_of_not rfl
  rw [evidenceRewriter, this]
  rfl

theorem refusals_reworded (u : Unicode) (s pre : List Cell) : ∀ pre',
    Somewhere RefusesAt pre' (rewriteFrom (evidenceRewriter u) pre 0 s) ↔
      Somewhere RefusesAt pre s ∨ Somewhere (Turns u) pre s := by
  have not_refuses (pre : List Cell) : ¬RefusesAt pre [] := by
    intro h
    obtain ⟨c, s', hcons, _⟩ := Refuses.head h
    cases hcons
  refine rewrite_rec (evidenceRewriter_taking u) (P := fun pre s => ∀ pre',
    Somewhere RefusesAt pre' (rewriteFrom (evidenceRewriter u) pre 0 s) ↔
      Somewhere RefusesAt pre s ∨ Somewhere (Turns u) pre s) ?_ ?_ ?_ s pre
  · intro pre pre'
    rw [rewriteFrom, somewhere_nil, somewhere_nil, somewhere_nil]
    exact iff_of_false (not_refuses pre') (not_or.mpr ⟨not_refuses pre, fun h => h.rewritten (evidenceRewriter_nil u pre)⟩)
  · intro pre c s hc ih pre'
    have hnot : ¬Turns u pre (c :: s) := fun h => h.rewritten hc
    have hsame : RefusesAt pre' (c :: rewriteFrom (evidenceRewriter u) (c :: pre) 0 s) ↔ RefusesAt pre (c :: s) :=
      lower_reworded noAnswerSubstring_clear u (c :: pre) [c] s
    rw [rewriteFrom_keep hc, somewhere_cons, somewhere_cons, somewhere_cons, hsame, ih, or_assoc, or_iff_right hnot]
  · intro pre w s new hw he ih pre'
    obtain ⟨hnone, hiff⟩ := edit_refuses he pre'
    have hturns : Somewhere (Turns u) pre (w ++ s) ↔ Turns u pre (w ++ s) ∨ Somewhere (Turns u) (w.reverse ++ pre) s := by
      obtain ⟨c, w, rfl⟩ := List.exists_cons_of_ne_nil hw
      rw [List.cons_append, somewhere_cons, somewhere_append, List.reverse_cons, List.append_assoc]
      · rfl
      · intro p t hpt ht h
        obtain ⟨n, a, b, _, hp, _⟩ := h.edit
        rw [evidencePhrase_of_not (evidenceRewriter_inside he p t hpt ht)] at hp
        cases hp
    rw [rewriteFrom_edit hw he, hiff, ih, somewhere_refuses (hnone _), hturns, or_left_comm]

/-! ## The validator on a reworded answer -/

/-- The answer says, outside code and fence lines, that "the evidence" (or another phrase that is
rewritten) "does not have credible source material": the phrase, at offset `i`, has no plural head and
comes after no preposition, and its verb is "does". -/
def SaysDoesNotHave (u : Unicode) (text : Str) : Prop := ∃ i n a b,
  evidencePhrase u ((maskCode text).take i).reverse ((maskCode text).drop i) = some (n, false) ∧
    fenceRun (lineAround text i (i + n)) = none ∧
    prepositionBefore u ((maskCode text).take i).reverse (lastLine (text.take i)).length = false ∧
    evidenceVerb ((maskCode text).drop (i + n)) = some (a, b) ∧
    verbKey (slice ((maskCode text).drop (i + n)) a b) = "does".toList ∧ notHave <+: lower (text.drop (i + n + b))

theorem somewhere_turns (u : Unicode) (text : Str) : Somewhere (Turns u) [] (cells text) ↔ SaysDoesNotHave u text := by
  rw [somewhere_iff]
  refine exists_congr fun i => exists_congr fun n => exists_congr fun a => exists_congr fun b => ?_
  rw [List.append_nil, lineBefore, masks_reverse, masks_take, masks_drop, masks_cells, texts_reverse, List.reverse_reverse,
    texts_take, texts_cells, List.drop_drop, texts_drop, texts_drop, texts_cells, List.drop_drop, ← Nat.add_assoc]
  refine and_congr_right fun hp => ?_
  obtain ⟨_, _, hall⟩ := evidencePhrase_spec hp
  have hslice : ((maskCode text).drop i).take n = slice (maskCode text) i (i + n) := by
    rw [← take_drop_eq_slice, Nat.add_sub_cancel_left]
  rw [hslice] at hall
  have hmask : codeMask ∉ slice (maskCode text) i (i + n) := fun hmem =>
    absurd (List.all_eq_true.mp hall _ hmem) (by decide)
  rw [lineAt_cells (Nat.le_add_right i n)]
  rw [slice_eq_of_unmasked hmask]
  exact fun hmem => absurd (List.all_eq_true.mp hall _ hmem) (by decide)

/-- A reworded answer is a refusal if it was one, or said of the evidence what a refusal says. -/
theorem isNoAnswerRefusal_rewrite (u : Unicode) (text : Str) :
    isNoAnswerRefusal (rewriteEvidenceReferences u text).text = true ↔
      isNoAnswerRefusal text = true ∨ SaysDoesNotHave u text := by
  have places (text : Str) : isNoAnswerRefusal text = true ↔ Somewhere RefusesAt [] (cells text) := by
    rw [isNoAnswerRefusal_iff, somewhere_iff]
    constructor
    · rintro ⟨p, s, rfl, h⟩
      exact ⟨p.length, by rwa [RefusesAt, texts_drop, texts_cells, List.drop_left]⟩
    · rintro ⟨i, h⟩
      rw [RefusesAt, texts_drop, texts_cells] at h
      exact ⟨text.take i, text.drop i, (List.take_append_drop i text).symm, h⟩
  rw [places, places, (cells_reworded u text).1, refusals_reworded, somewhere_turns]

theorem citation_marker {ds : Str} (hne : ds ≠ []) (hds : ds.all isDecimal = true) (pre rest : Str) :
    citation pre ('[' :: ds ++ ']' :: rest) = some (ds.length + 2) := by
  have htake : (ds ++ ']' :: rest).takeWhile isDecimal = ds := by
    rw [List.takeWhile_append_of_pos (List.all_eq_true.mp hds), List.takeWhile_cons_of_neg (by decide), List.append_nil]
  have hempty : ds.isEmpty = false := by simpa using hne
  simp [citation, htake, hempty]

/-- Without a marker in the text there is none outside its code. -/
theorem citations_mask_nil {text : Str} (h : citations text = []) : citations (maskCode text) = [] := by
  by_contra hne
  obtain ⟨m, hm⟩ := List.exists_mem_of_ne_nil _ hne
  obtain ⟨w, hw, _⟩ := List.mem_map.mp hm
  obtain ⟨pre, t, n, hn, ⟨p, hp⟩, _⟩ := exists_of_mem_hits _ _ _ hw
  obtain ⟨ds, rest, ht, hds0, hds, _⟩ := citation_spec hn
  have hmasks : masks ((cells text).drop p.length) = '[' :: ds ++ ']' :: rest := by
    rw [masks_drop, masks_cells, ← hp, List.drop_left, ht]
  have hcut : masks (((cells text).drop p.length).take (ds.length + 2)) = '[' :: ds ++ [']'] := by
    rw [masks_take, hmasks, show '[' :: ds ++ ']' :: rest = ('[' :: ds ++ [']']) ++ rest by simp]
    exact List.take_left' (by simp)
  have hunmasked : codeMask ∉ masks (((cells text).drop p.length).take (ds.length + 2)) := by
    rw [hcut]
    intro hmem
    simp only [List.cons_append, List.mem_cons, List.mem_append, List.not_mem_nil, or_false] at hmem
    rcases hmem with hmem | hmem | hmem
    · exact absurd hmem (by decide)
    · exact absurd (List.all_eq_true.mp hds _ hmem) (by decide)
    · exact absurd hmem (by decide)
  have htexts := texts_eq_masks hunmasked
  rw [hcut, texts_take, texts_drop, texts_cells] at htexts
  have htext : text.drop p.length = '[' :: ds ++ ']' :: (text.drop p.length).drop (ds.length + 2) := by
    conv_lhs => rw [← List.take_append_drop (ds.length + 2) (text.drop p.length), htexts]
    simp
  have hnil : findall citation text = [] := List.map_eq_nil_iff.mp h
  have hnone := no_match_of_hits_nil text [] hnil (text.take p.length) (text.drop p.length)
    (List.take_append_drop _ _).symm (by rw [htext]; exact List.cons_ne_nil _ _) (ds.length + 1)
  rw [htext, citation_marker hds0 hds] at hnone
  exact hnone rfl

theorem citedMarkers_eq_nil (text : Str) : citedMarkers text = [] ↔ citations text = [] := by
  unfold citedMarkers
  simp only [citations_stripCode, List.isEmpty_iff]
  split
  · rfl
  · rename_i hne
    exact iff_of_false hne fun h => hne (citations_mask_nil h)

/-- The empty verdict is the one on no index and no evidence. -/
theorem judgeIndices_empty (count : Nat) (cited single : List Nat) :
    judgeIndices count cited single = { valid := true } ↔ count = 0 ∧ cited = [] ∧ single = [] := by
  constructor
  · intro h
    obtain ⟨hc, hs⟩ := judgeIndices_cited count cited single
    rw [h] at hc hs
    refine ⟨?_, hc.symm, hs.symm⟩
    subst hc hs
    unfold judgeIndices at h
    by_contra hne
    obtain ⟨count, rfl⟩ := Nat.exists_eq_succ_of_ne_zero hne
    have := congrArg CitationValidationResult.uncitedIndices h
    simp [sortedSet, List.range'_succ] at this
  · rintro ⟨rfl, rfl, rfl⟩
    rfl

/-- **Validating a reworded answer.** The verdict is the one on the original, unless the answer was
no refusal and says that "the evidence does not have credible source material": then it is a
refusal's, which is the original's only if no marker is shown and there is no evidence. -/
theorem validateCitations_reworded_iff {ε : Type} (u : Unicode) (text : Str) (evidence : List ε) :
    validateCitations (rewriteEvidenceReferences u text).text evidence = validateCitations text evidence ↔
      isNoAnswerRefusal text = true ∨ ¬SaysDoesNotHave u text ∨
        (evidence = [] ∧ citations (expandGroupedMarkers text) = []) := by
  have href := isNoAnswerRefusal_rewrite u text
  by_cases hr : isNoAnswerRefusal text = true
  · rw [validateCitations_refusal hr, validateCitations_refusal (href.mpr (.inl hr))]
    exact iff_of_true rfl (.inl hr)
  rw [or_iff_right hr]
  by_cases hd : SaysDoesNotHave u text
  · rw [validateCitations_refusal (href.mpr (.inr hd)), or_iff_right (not_not_intro hd), ← citedMarkers_eq_nil]
    rw [Bool.not_eq_true] at hr
    have hsingle : citedMarkers (expandGroupedMarkers text) = [] → citedMarkers text = [] := by
      intro hnil
      by_contra hne
      exact (citedMarkers_expand text).2 hne hnil
    by_cases hl : hasTooLong text = true
    · rw [validateCitations_tooLong hr hl]
      refine iff_of_false (fun h => by cases h) fun h => ?_
      rw [hasTooLong, h.2, hsingle h.2] at hl
      cases hl
    · rw [Bool.not_eq_true, hasTooLong, Bool.or_eq_false_iff] at hl
      rw [validateCitations, if_neg (by simp [hr]), indexSet_citedMarkers, indexSet_citedMarkers, hl.1, hl.2]
      change Except.ok _ = Except.ok (judgeIndices _ _ _) ↔ _
      have hsorted (ms : List Str) : sortedSet (ms.map digitsValue) = [] ↔ ms = [] := by
        rw [List.eq_nil_iff_forall_not_mem]
        simp [List.eq_nil_iff_forall_not_mem]
      rw [Except.ok.injEq, eq_comm, judgeIndices_empty, hsorted, hsorted, List.length_eq_zero_iff]
      exact and_congr_right fun _ => and_iff_left_of_imp hsingle
  · have hr' : ¬isNoAnswerRefusal (rewriteEvidenceReferences u text).text = true := fun h => (href.mp h).elim hr hd
    rw [validateCitations, validateCitations, if_neg hr, if_neg hr', citedMarkers_expand_rewrite, citedMarkers_rewrite]
    exact iff_of_true rfl (.inl hd)

/-- An answer that rewording makes a refusal: its index is lost. -/
theorem validateCitations_reworded_ne :
    validateCitations (rewriteEvidenceReferences foldingDatabase
        "The evidence does not have credible source material [1].".toList).text [()] ≠
      validateCitations "The evidence does not have credible source material [1].".toList [()] := by
  rw [String.toList_ofList]
  decide +kernel

end CiteVyn.Llm
