import CiteVyn.Lib.Marks
import CiteVyn.Mcp.Clean
import CiteVyn.Text.Case

/-! # No URL in the body of an answer

Each URL pattern looks one character behind, reads a word and takes the tail after it. No word
holds a bracket, so none meets `[link removed]`, and none ends in white space or holds the mark of
a cut, so the passes after the substitutions put no word together. -/
namespace CiteVyn.Mcp
open CiteVyn.Lib.Marks CiteVyn.Lib.Scan CiteVyn.Text

/-- No white space is alphanumeric. -/
def Spaced (u : Unicode) : Prop := ∀ c, isSpace c = true → u.isAlnum c = false

/-- A character of a URL, its white space aside. -/
def isSolid (c : Char) : Bool := isTailChar c && c != '…'

/-- A URL pattern: `f` holds of what may not come before a word. -/
structure UrlPattern (m : Pattern Char) (f : Char → Bool) (Word : Str → Prop) : Prop where
  spec : ∀ pre s n, m pre s = some n ↔ pre.head?.any f = false ∧
    ∃ w t, Word w ∧ s = w ++ t ∧ n = w.length + (t.takeWhile isTailChar).length
  blank : ∀ c, isSpace c = true → f c = false
  start : ∀ w, Word w → ∃ c t, w = c :: t ∧ isSolid c = true
  stop : ∀ w, Word w → ∃ t c, w = t ++ [c] ∧ isSolid c = true
  chars : ∀ w, Word w → ∀ c ∈ w, isSolid c = true ∨ isSpace c = true
  sign : ∀ w, Word w → ∃ c ∈ w, c = ':' ∨ c = '/' ∨ c = '.'
  pump : ∀ w v, Word w → Pumped '\n' w v → Word v

/-! ## What holds of every URL pattern -/

section
variable {m q : Pattern Char} {f g : Char → Bool} {Word Word' : Str → Prop} {s : Str}

theorem UrlPattern.proper (hm : UrlPattern m f Word) : Proper m := by
  constructor
  · intro pre s n h
    obtain ⟨_, w, t, hw, _, rfl⟩ := (hm.spec pre s n).mp h
    obtain ⟨c, t, rfl, _⟩ := hm.start w hw
    exact Nat.add_pos_left (Nat.succ_pos _) _
  · intro pre s n h
    obtain ⟨_, w, t, _, rfl, rfl⟩ := (hm.spec pre s n).mp h
    rw [List.length_append]
    exact Nat.add_le_add_left (List.takeWhile_prefix isTailChar).length_le _

theorem UrlPattern.reads (hm : UrlPattern m f Word) : Reads m (fun before => before.any f = false) Word := by
  intro pre s
  rw [Option.ne_none_iff_exists']
  constructor
  · intro ⟨n, h⟩
    obtain ⟨hf, w, t, hw, rfl, _⟩ := (hm.spec pre s n).mp h
    exact ⟨hf, w, hw, List.prefix_append w t⟩
  · intro ⟨hf, w, hw, t, ht⟩
    exact ⟨_, (hm.spec pre s _).mpr ⟨hf, w, t, hw, ht.symm, rfl⟩⟩

/-- What a match ends before is no tail. -/
theorem UrlPattern.tail (hm : UrlPattern m f Word) {pre w s : Str} (h : m pre (w ++ s) = some w.length) :
    ∀ c ∈ s.head?, isTailChar c = false := by
  obtain ⟨_, v, t, _, heq, hlen⟩ := (hm.spec _ _ _).mp h
  have hs : s = t.dropWhile isTailChar := by
    have := congrArg (List.drop w.length) heq
    rwa [List.drop_left, hlen, ← List.drop_drop, List.drop_left, drop_takeWhile_length] at this
  intro c hc
  have := List.head?_dropWhile_not isTailChar t
  rw [← hs, hc] at this
  simpa using this

theorem UrlPattern.not_mem (hm : UrlPattern m f Word) {w : Str} {c : Char} (hw : Word w) (hsolid : isSolid c = false)
    (hspace : isSpace c = false) : c ∉ w := by
  intro hc
  rcases hm.chars w hw c hc with h | h
  · exact absurd (hsolid.symm.trans h) nofun
  · exact absurd (hspace.symm.trans h) nofun

/-- **A pattern stays without a match**, or is left without one by its own substitution. -/
theorem UrlPattern.clear_sub (hq : UrlPattern q g Word') (hm : UrlPattern m f Word) (h : q = m ∨ Clear m s) :
    Clear m (sub q (fun _ => linkRemoved) s) := by
  refine clear_sub_mark '[' ']' "link removed".toList hq.proper hm.reads
    (fun w hw => hm.not_mem hw (by decide) (by decide)) (fun w hw => hm.not_mem hw (by decide) (by decide)) ?_ ?_ ?_
  · intro w hw
    obtain ⟨c, hc, hsign⟩ := hm.sign w hw
    refine ⟨c, hc, ?_⟩
    rcases hsign with rfl | rfl | rfl <;> decide
  · intro pre w s hmatch v hv hvs
    obtain ⟨c, v, rfl, hc⟩ := hm.start v hv
    have hhead : s.head? = some c := by
      obtain ⟨t, rfl⟩ := hvs
      rfl
    have := hq.tail hmatch c hhead
    rw [isSolid, this] at hc
    cases hc
  · intro p t hpt ht hnone
    rcases h with rfl | h
    · exact hnone
    · exact h p t hpt ht

theorem blankLines_runs : Runs blankLines '\n' := by
  intro pre w s hw h
  simp only [blankLines] at h
  split at h
  · cases h
  · rename_i hlen
    have hpre : w = ((w ++ s).takeWhile (· == '\n')) := by
      refine (List.prefix_of_prefix_length_le (List.prefix_append w s) (List.takeWhile_prefix _) ?_).eq_of_length ?_
      · exact (Option.some.inj h).ge
      · exact (Option.some.inj h).symm
    have hall : ∀ c ∈ w, c = '\n' := by
      intro c hc
      rw [hpre] at hc
      have := List.mem_takeWhile_imp (p := (· == '\n')) hc
      exact beq_iff_eq.mp this
    refine ⟨w.length - 2, List.eq_replicate_iff.mpr ⟨?_, hall⟩⟩
    rw [← hpre] at hlen
    omega

theorem blankLines_proper : Proper blankLines := by
  constructor
  · intro pre s n h
    simp only [blankLines] at h
    split at h
    · cases h
    · have := Option.some.inj h
      omega
  · intro pre s n h
    simp only [blankLines] at h
    split at h
    · cases h
    · rw [← Option.some.inj h]
      exact (List.takeWhile_prefix _).length_le

theorem UrlPattern.clear_collapse (hm : UrlPattern m f Word) (h : Clear m s) : Clear m (collapse s) := by
  refine h.shorten blankLines_proper blankLines_runs hm.reads (fun w hw => ?_) hm.pump
  obtain ⟨c, t, rfl, hc⟩ := hm.start w hw
  refine ⟨c, t, rfl, fun heq => ?_⟩
  rw [heq] at hc
  exact absurd hc (by decide)

theorem UrlPattern.clear_strip (hm : UrlPattern m f Word) (h : Clear m s) : Clear m (strip s) := by
  obtain ⟨a, b, hs, ha, _⟩ := strip_cut s
  rw [hs, List.append_assoc] at h
  have hsuffix := h.suffix hm.reads fun c hc => hm.blank c (ha c (List.mem_of_getLast? hc))
  have := hsuffix.before [] hm.reads (fun w t _ _ hw => by rwa [List.append_nil] at hw) ?_
  · rwa [List.append_nil] at this
  · intro w p t hw hpt hwt
    obtain ⟨rfl, rfl⟩ := List.append_eq_nil_iff.mp hpt.symm
    obtain ⟨c, v, rfl, _⟩ := hm.start w hw
    exact absurd (List.prefix_nil.mp hwt) (List.cons_ne_nil c v)

theorem cutMark_not_solid : ∀ c ∈ cutMark, isSolid c = false := List.forall_iff_forall_mem.mp (by decide)

theorem UrlPattern.clear_cap (hm : UrlPattern m f Word) (h : Clear m s) : Clear m (cap s) := by
  unfold cap
  split
  · have hprefix : rstrip (s.take maxAnswerChars) <+: s :=
      (List.rdropWhile_prefix isSpace (s.take maxAnswerChars)).trans (List.take_prefix _ _)
    obtain ⟨b, hb⟩ := hprefix
    rw [← hb] at h
    refine h.before _ hm.reads ?_ ?_
    · intro w t hw _ hwt
      rcases List.prefix_or_prefix_of_prefix hwt (List.prefix_append t cutMark) with hwt | ⟨r, rfl⟩
      · exact hwt
      · -- a word does not end in the mark
        rw [List.prefix_append_right_inj] at hwt
        obtain ⟨v, c, hv, hc⟩ := hm.stop _ hw
        rcases List.eq_nil_or_concat r with rfl | ⟨r, d, rfl⟩
        · rw [List.append_nil]
        · rw [List.concat_eq_append, ← List.append_assoc] at hv
          obtain ⟨_, hd⟩ := List.append_inj' hv rfl
          obtain rfl : d = c := by simpa using hd
          have := cutMark_not_solid d (hwt.subset (by simp))
          exact absurd (this.symm.trans hc) nofun
    · intro w p t hw hpt hwt
      obtain ⟨c, v, rfl, hc⟩ := hm.start w hw
      have := cutMark_not_solid c (hpt ▸ List.mem_append_right p (hwt.subset List.mem_cons_self))
      exact absurd (this.symm.trans hc) nofun
  · exact h

end

/-! ## The words of the four patterns -/

theorem takeWhile_append_stop {q : Char → Bool} {l r : Str} (hl : ∀ c ∈ l, q c = true) (hr : ∀ c ∈ r.head?, q c = false) :
    (l ++ r).takeWhile q = l := by
  cases r with
  | nil => rw [List.append_nil, List.takeWhile_eq_self_iff.mpr hl]
  | cons c r => exact takeWhile_append_of_all hl (hr c rfl)

/-- `[A-Za-z][A-Za-z0-9+.-]*\s*://` -/
def SchemeWord (w : Str) : Prop :=
  ∃ a b, w = a ++ (b ++ "://".toList) ∧ a.head?.any (fun c => isUpperAscii c || isLowerAscii c) = true ∧
    (∀ c ∈ a, isSchemeChar c = true) ∧ ∀ c ∈ b, isSpace c = true

/-- `(?i)(?:javascript|vbscript|data|mailto|file)\s*:` -/
def BareWord (w : Str) : Prop :=
  ∃ scheme ∈ bareSchemes, ∃ a b, w = a ++ (b ++ [':']) ∧ a.length = scheme.length ∧ literal scheme a = true ∧
    ∀ c ∈ b, isSpace c = true

/-- `//[A-Za-z0-9]` -/
def SchemelessWord (w : Str) : Prop := ∃ c, w = ['/', '/', c] ∧ isAsciiAlnum c = true

/-- `(?i)www\.[A-Za-z0-9]` -/
def WwwWord (w : Str) : Prop :=
  ∃ a c, w = a ++ ['.', c] ∧ a.length = 3 ∧ literal "www".toList a = true ∧
    (isLetterIgnoreCase c || isAsciiDigit c) = true

theorem isSolid_iff {c : Char} : isSolid c = true ↔
    isSpace c = false ∧ c ∉ ['<', '>', '(', ')', '[', ']', '"', '\'', '…'] := by
  rw [isSolid, isTailChar]
  simp only [Bool.and_eq_true, Bool.not_eq_true', List.contains_eq_mem, decide_eq_false_iff_not, bne_iff_ne,
    List.mem_cons, List.not_mem_nil, or_false, not_or, and_assoc]

theorem solid_letter {c : Char} (h : isLetterIgnoreCase c = true) : isSolid c = true := by
  refine isSolid_iff.mpr ⟨isSpace_letter h, fun hc => ?_⟩
  have hall : ['<', '>', '(', ')', '[', ']', '"', '\'', '…'].all (fun c => !isLetterIgnoreCase c) = true := by decide
  have := List.all_eq_true.mp hall c hc
  rw [h] at this
  cases this

theorem solid_digit {c : Char} (h : isAsciiDigit c = true) : isSolid c = true := by
  refine isSolid_iff.mpr ⟨?_, fun hc => ?_⟩
  · simp only [isAsciiDigit, Bool.and_eq_true, decide_eq_true_eq, Char.le_def] at h
    obtain ⟨h1, h2⟩ := h
    rw [UInt32.le_iff_toNat_le] at h1 h2
    change 48 ≤ c.toNat at h1
    change c.toNat ≤ 57 at h2
    simp only [isSpace, Bool.or_eq_false_iff, Bool.and_eq_false_iff, decide_eq_false_iff_not, beq_eq_false_iff_ne]
    omega
  · have hall : ['<', '>', '(', ')', '[', ']', '"', '\'', '…'].all (fun c => !isAsciiDigit c) = true := by decide
    have := List.all_eq_true.mp hall c hc
    rw [h] at this
    cases this

theorem letter_of_ascii {c : Char} (h : (isUpperAscii c || isLowerAscii c) = true) : isLetterIgnoreCase c = true := by
  simp only [isLetterIgnoreCase, h, Bool.true_or]

theorem solid_alnum {c : Char} (h : isAsciiAlnum c = true) : isSolid c = true := by
  rw [isAsciiAlnum, Bool.or_eq_true] at h
  rcases h with h | h
  · exact solid_letter (letter_of_ascii h)
  · exact solid_digit h

theorem solid_scheme {c : Char} (h : isSchemeChar c = true) : isSolid c = true := by
  simp only [isSchemeChar, Bool.or_eq_true, beq_iff_eq] at h
  rcases h with ((h | rfl) | rfl) | rfl
  · exact solid_alnum h
  all_goals decide

theorem isSpace_of_solid {c : Char} (h : isSolid c = true) : isSpace c = false := (isSolid_iff.mp h).1

theorem not_solid_of_space {c : Char} (h : isSpace c = true) : isSolid c = false := by
  rw [isSolid, isTailChar, h]
  rfl

theorem newline_not_solid {w : Str} (h : ∀ c ∈ w, isSolid c = true) : '\n' ∉ w :=
  fun hmem => absurd (h _ hmem) (by decide)

/-- A word of solid characters has no run to make longer. -/
theorem pumped_solid {w v : Str} (h : ∀ c ∈ w, isSolid c = true) (hv : Pumped '\n' w v) : v = w := by
  rw [← List.append_nil w] at hv
  obtain ⟨y, rfl, hy⟩ := hv.append_left (newline_not_solid h)
  cases hy
  exact List.append_nil w

/-- Solid characters, white space and a sign: the white space is all that can be longer. -/
theorem pumped_spaced {a b sign v : Str} (ha : ∀ c ∈ a, isSolid c = true) (hb : ∀ c ∈ b, isSpace c = true)
    (hsign : ∀ c ∈ sign, isSolid c = true) (hne : sign.head? ≠ some '\n') (h : Pumped '\n' (a ++ (b ++ sign)) v) :
    ∃ b', v = a ++ (b' ++ sign) ∧ ∀ c ∈ b', isSpace c = true := by
  obtain ⟨y, rfl, hy⟩ := h.append_left (newline_not_solid ha)
  obtain ⟨b', z, rfl, hb', hz⟩ := hy.append_all (P := fun c => isSpace c = true) (by decide) hb hne
  obtain rfl := pumped_solid hsign hz
  exact ⟨b', rfl, hb'⟩

theorem isSpace_not_scheme {c : Char} (h : isSpace c = true) : isSchemeChar c = false := by
  by_contra hc
  have := isSpace_of_solid (solid_scheme (by simpa using hc))
  exact absurd (this.symm.trans h) nofun

/-! ## The four patterns -/

theorem signLength (t : Str) : ("://".toList ++ t).drop 3 = t := rfl

theorem schemeSpan_url : UrlPattern schemeSpan (fun _ => false) SchemeWord where
  spec pre s n := by
    have hany : pre.head?.any (fun _ => false) = false := by cases pre <;> rfl
    constructor
    · intro h
      refine ⟨hany, ?_⟩
      simp only [schemeSpan] at h
      split at h
      · cases h
      · rename_i hletter
        split at h
        · rename_i hsign
          obtain ⟨t, ht⟩ := List.isPrefixOf_iff_prefix.mp hsign
          rw [← List.drop_drop, drop_takeWhile_length, drop_takeWhile_length] at ht
          have hs : s = (s.takeWhile isSchemeChar ++ ((s.dropWhile isSchemeChar).takeWhile isSpace ++ "://".toList)) ++ t := by
            rw [List.append_assoc, List.append_assoc, ht, List.takeWhile_append_dropWhile, List.takeWhile_append_dropWhile]
          refine ⟨_, t, ⟨_, _, rfl, ?_, fun c hc => List.mem_takeWhile_imp hc, fun c hc => List.mem_takeWhile_imp hc⟩, hs, ?_⟩
          · cases s with
            | nil => exact absurd rfl hletter
            | cons c s =>
              have hc : (isUpperAscii c || isLowerAscii c) = true := by
                rwa [Bool.not_eq_true, Bool.not_eq_false', List.head?_cons, Option.any_some] at hletter
              have : isSchemeChar c = true := by simp only [isSchemeChar, isAsciiAlnum, hc, Bool.true_or]
              rw [List.takeWhile_cons_of_pos this]
              exact hc
          · rw [← Option.some.inj h, ← List.drop_drop, drop_takeWhile_length, drop_takeWhile_length, ← ht, signLength,
              List.length_append, List.length_append, Nat.add_assoc (List.length _)]
            rfl
        · cases h
    · rintro ⟨_, _, t, ⟨a, b, rfl, hletter, ha, hb⟩, rfl, rfl⟩
      have hstop : ∀ c ∈ (b ++ "://".toList ++ t).head?, isSchemeChar c = false := by
        intro c hc
        cases b with
        | nil =>
          obtain rfl : ':' = c := by simpa using hc
          decide
        | cons d b =>
          obtain rfl : d = c := by simpa using hc
          exact isSpace_not_scheme (hb d List.mem_cons_self)
      have hscheme : (a ++ (b ++ "://".toList ++ t)).takeWhile isSchemeChar = a := takeWhile_append_stop ha hstop
      have hspaces : (b ++ ("://".toList ++ t)).takeWhile isSpace = b := by
        refine takeWhile_append_stop hb fun c hc => ?_
        obtain rfl : ':' = c := by simpa using hc
        decide
      have hhead : (a ++ (b ++ "://".toList ++ t)).head?.any (fun c => isUpperAscii c || isLowerAscii c) = true := by
        cases a with
        | nil => cases hletter
        | cons c a => exact hletter
      have hsign : "://".toList.isPrefixOf ("://".toList ++ t) = true :=
        List.isPrefixOf_iff_prefix.mpr (List.prefix_append _ _)
      simp only [schemeSpan]
      rw [List.append_assoc, hhead, hscheme, List.drop_left, List.append_assoc, hspaces, ← List.append_assoc a,
        List.drop_left' (List.length_append ..), if_neg (by decide), if_pos hsign, signLength,
        List.length_append, List.length_append, Nat.add_assoc a.length]
      rfl
  blank _ _ := rfl
  start := by
    rintro w ⟨a, b, rfl, hletter, ha, _⟩
    cases a with
    | nil => cases hletter
    | cons c a => exact ⟨c, a ++ (b ++ "://".toList), rfl, solid_scheme (ha c List.mem_cons_self)⟩
  stop := by
    rintro w ⟨a, b, rfl, _⟩
    exact ⟨a ++ (b ++ [':', '/']), '/', by simp, by decide⟩
  chars := by
    rintro w ⟨a, b, rfl, _, ha, hb⟩ c hc
    rcases List.mem_append.mp hc with hc | hc
    · exact .inl (solid_scheme (ha c hc))
    · rcases List.mem_append.mp hc with hc | hc
      · exact .inr (hb c hc)
      · exact .inl (List.all_eq_true.mp (by decide) c hc)
  sign := by
    rintro w ⟨a, b, rfl, _⟩
    exact ⟨':', by simp, .inl rfl⟩
  pump := by
    rintro w v ⟨a, b, rfl, hletter, ha, hb⟩ h
    obtain ⟨b', rfl, hb'⟩ := pumped_spaced (fun c hc => solid_scheme (ha c hc)) hb
      (List.all_eq_true.mp (by decide)) (by decide) h
    exact ⟨a, b', rfl, hletter, ha, hb'⟩

theorem schemeless_url {u : UnicodeData} (hu : Spaced u.toUnicode) :
    UrlPattern (schemeless u) (fun c => u.isWord c || c == '/' || c == ':') SchemelessWord where
  spec pre s n := by
    constructor
    · intro h
      unfold schemeless at h
      split at h
      · cases h
      · rename_i hbehind
        refine ⟨by simpa using hbehind, ?_⟩
        split at h
        · rename_i c tail
          split at h
          · rename_i hc
            refine ⟨['/', '/', c], tail, ⟨c, rfl, hc⟩, rfl, (Option.some.inj h).symm⟩
          · cases h
        · cases h
    · rintro ⟨hbehind, _, t, ⟨c, rfl, hc⟩, rfl, rfl⟩
      show (if (pre.head?.any fun c => u.isWord c || c == '/' || c == ':') = true then none
        else if isAsciiAlnum c = true then some (3 + (t.takeWhile isTailChar).length) else none) = _
      rw [hbehind, if_neg Bool.false_ne_true, if_pos hc]
      rfl
  blank c h := by
    have halnum := hu c h
    have hne : ∀ d, isSpace d = false → (c == d) = false := by
      intro d hd
      rw [beq_eq_false_iff_ne]
      rintro rfl
      exact absurd (hd.symm.trans h) nofun
    rw [Unicode.isWord, halnum, hne '_' (by decide), hne '/' (by decide), hne ':' (by decide)]
    rfl
  start := by
    rintro w ⟨c, rfl, _⟩
    exact ⟨'/', _, rfl, by decide⟩
  stop := by
    rintro w ⟨c, rfl, hc⟩
    exact ⟨['/', '/'], c, rfl, solid_alnum hc⟩
  chars := by
    rintro w ⟨c, rfl, hc⟩ d hd
    simp only [List.mem_cons, List.not_mem_nil, or_false] at hd
    rcases hd with rfl | rfl | rfl
    · exact .inl (by decide)
    · exact .inl (by decide)
    · exact .inl (solid_alnum hc)
  sign := by
    rintro w ⟨c, rfl, _⟩
    exact ⟨'/', List.mem_cons_self, .inr (.inl rfl)⟩
  pump := by
    rintro w v ⟨c, rfl, hc⟩ h
    refine ⟨c, pumped_solid ?_ h, hc⟩
    intro d hd
    simp only [List.mem_cons, List.not_mem_nil, or_false] at hd
    rcases hd with rfl | rfl | rfl
    · decide
    · decide
    · exact solid_alnum hc

/-- No two of the schemes start alike. -/
theorem bareSchemes_unique {v w s : Str} (hv : v ∈ bareSchemes) (hw : w ∈ bareSchemes) (h : literal v s = true)
    (h' : literal w s = true) : v = w := by
  have hall : ∀ v ∈ bareSchemes, ∀ w ∈ bareSchemes, v.head? = w.head? → v = w := by decide
  have hlower : ∀ v ∈ bareSchemes, v.all isLowerAscii = true ∧ v ≠ [] := by decide
  refine hall v hv w hw ?_
  obtain ⟨hv, hvne⟩ := hlower v hv
  obtain ⟨hw, hwne⟩ := hlower w hw
  obtain ⟨p, v, rfl⟩ := List.exists_cons_of_ne_nil hvne
  obtain ⟨q, w, rfl⟩ := List.exists_cons_of_ne_nil hwne
  cases s with
  | nil => cases h
  | cons c s =>
    rw [literal, Bool.and_eq_true] at h h'
    rw [List.all_cons, Bool.and_eq_true] at hv hw
    exact congrArg some (eqIgnoreCase_unique hv.1 hw.1 h.1 h'.1)

theorem literal_letters {w a : Str} (hw : w.all isLowerAscii = true) (hlen : a.length = w.length) (h : literal w a = true) :
    ∀ c ∈ a, isLetterIgnoreCase c = true := by
  have := literal_all hw h
  rw [← hlen, List.take_length] at this
  exact List.all_eq_true.mp this

theorem bareScheme_url : UrlPattern bareScheme (fun c => isLetterIgnoreCase c || isSchemeChar c) BareWord where
  spec pre s n := by
    constructor
    · intro h
      unfold bareScheme at h
      split at h
      · cases h
      · rename_i hbehind
        refine ⟨by simpa using hbehind, ?_⟩
        split at h
        · cases h
        · rename_i scheme hscheme
          have hmem := List.mem_of_find?_eq_some hscheme
          have hlit := List.find?_some hscheme
          have hlen := literal_length hlit
          dsimp only at h
          split at h
          · rename_i tail htail
            rw [← List.drop_drop, drop_takeWhile_length] at htail
            have hs : s = (s.take scheme.length ++ ((s.drop scheme.length).takeWhile isSpace ++ [':'])) ++ tail := by
              rw [List.append_assoc, List.append_assoc, List.singleton_append, ← htail, List.takeWhile_append_dropWhile,
                List.take_append_drop]
            refine ⟨_, tail, ⟨scheme, hmem, _, _, rfl, List.length_take_of_le hlen, literal_itself hlit, fun c hc =>
              List.mem_takeWhile_imp hc⟩, hs, ?_⟩
            rw [← Option.some.inj h, List.length_append, List.length_append, List.length_take_of_le hlen,
              Nat.add_assoc scheme.length]
            rfl
          · cases h
    · rintro ⟨hbehind, _, t, ⟨scheme, hmem, a, b, rfl, hlen, hlit, hb⟩, rfl, rfl⟩
      have hlit' := literal_after hlit (b ++ [':'] ++ t)
      have hfind : bareSchemes.find? (literal · (a ++ (b ++ [':'] ++ t))) = some scheme := by
        cases h : bareSchemes.find? (literal · (a ++ (b ++ [':'] ++ t))) with
        | none => exact absurd hlit' (List.find?_eq_none.mp h scheme hmem)
        | some other =>
          have hother : literal other (a ++ (b ++ [':'] ++ t)) = true :=
            List.find?_some (p := (literal · (a ++ (b ++ [':'] ++ t)))) h
          exact congrArg some (bareSchemes_unique (List.mem_of_find?_eq_some h) hmem hother hlit')
      have hspaces : (b ++ (':' :: t)).takeWhile isSpace = b := by
        refine takeWhile_append_stop hb fun c hc => ?_
        obtain rfl : ':' = c := by simpa using hc
        decide
      unfold bareScheme
      rw [hbehind, if_neg Bool.false_ne_true, List.append_assoc, hfind]
      dsimp only
      rw [← hlen, List.drop_left, List.append_assoc, List.singleton_append, hspaces, ← List.append_assoc,
        List.drop_left' (List.length_append ..)]
      simp only [List.length_append, List.length_singleton, Nat.add_assoc]
  blank c h := by
    rw [isSpace_not_scheme h, Bool.or_false]
    by_contra hc
    have := isSpace_letter (Bool.not_eq_false _ ▸ hc)
    exact absurd (this.symm.trans h) nofun
  start := by
    rintro w ⟨scheme, hmem, a, b, rfl, hlen, hlit, _⟩
    have hlower : ∀ v ∈ bareSchemes, v.all isLowerAscii = true ∧ v.length ≠ 0 := by decide
    obtain ⟨hlow, hne⟩ := hlower scheme hmem
    cases a with
    | nil => exact absurd hlen.symm hne
    | cons c a => exact ⟨c, a ++ (b ++ [':']), rfl, solid_letter (literal_letters hlow hlen hlit c List.mem_cons_self)⟩
  stop := by
    rintro w ⟨scheme, _, a, b, rfl, _⟩
    exact ⟨a ++ b, ':', by simp, by decide⟩
  chars := by
    rintro w ⟨scheme, hmem, a, b, rfl, hlen, hlit, hb⟩ c hc
    have hlower : ∀ v ∈ bareSchemes, v.all isLowerAscii = true := by decide
    rcases List.mem_append.mp hc with hc | hc
    · exact .inl (solid_letter (literal_letters (hlower scheme hmem) hlen hlit c hc))
    · rcases List.mem_append.mp hc with hc | hc
      · exact .inr (hb c hc)
      · obtain rfl := List.mem_singleton.mp hc
        exact .inl (by decide)
  sign := by
    rintro w ⟨scheme, _, a, b, rfl, _⟩
    exact ⟨':', by simp, .inl rfl⟩
  pump := by
    rintro w v ⟨scheme, hmem, a, b, rfl, hlen, hlit, hb⟩ h
    have hlower : ∀ v ∈ bareSchemes, v.all isLowerAscii = true := by decide
    obtain ⟨b', rfl, hb'⟩ := pumped_spaced
      (fun c hc => solid_letter (literal_letters (hlower scheme hmem) hlen hlit c hc)) hb
      (List.all_eq_true.mp (by decide)) (by decide) h
    exact ⟨scheme, hmem, a, b', rfl, hlen, hlit, hb'⟩

theorem www_url {u : UnicodeData} (hu : Spaced u.toUnicode) : UrlPattern (www u) (fun c => u.isWord c || c == '.') WwwWord where
  spec pre s n := by
    constructor
    · intro h
      unfold www at h
      split at h
      · cases h
      · rename_i hguard
        rw [Bool.or_eq_true, not_or, Bool.not_eq_true, Bool.not_eq_true, Bool.not_eq_false'] at hguard
        obtain ⟨hbehind, hlit⟩ := hguard
        refine ⟨hbehind, ?_⟩
        have hlen := literal_length hlit
        split at h
        · rename_i c tail htail
          split at h
          · rename_i hc
            have hs : s = (s.take 3 ++ ['.', c]) ++ tail := by
              rw [List.append_assoc, List.cons_append, List.singleton_append, ← htail, List.take_append_drop]
            refine ⟨_, tail, ⟨_, c, rfl, List.length_take_of_le hlen, literal_itself hlit, hc⟩, hs, ?_⟩
            rw [← Option.some.inj h, List.length_append, List.length_take_of_le (show 3 ≤ s.length from hlen)]
            rfl
          · cases h
        · cases h
    · rintro ⟨hbehind, _, t, ⟨a, c, rfl, hlen, hlit, hc⟩, rfl, rfl⟩
      unfold www
      rw [hbehind, List.append_assoc, literal_after hlit, List.drop_left' hlen, List.length_append, hlen]
      exact if_pos hc
  blank c h := by
    have halnum := hu c h
    have hne : ∀ d, isSpace d = false → (c == d) = false := by
      intro d hd
      rw [beq_eq_false_iff_ne]
      rintro rfl
      exact absurd (hd.symm.trans h) nofun
    rw [Unicode.isWord, halnum, hne '_' (by decide), hne '.' (by decide)]
    rfl
  start := by
    rintro w ⟨a, c, rfl, hlen, hlit, _⟩
    cases a with
    | nil => cases hlen
    | cons d a =>
      exact ⟨d, a ++ ['.', c], rfl, solid_letter (literal_letters (by decide) hlen hlit d List.mem_cons_self)⟩
  stop := by
    rintro w ⟨a, c, rfl, _, _, hc⟩
    exact ⟨a ++ ['.'], c, by simp, (Bool.or_eq_true _ _ |>.mp hc).elim solid_letter solid_digit⟩
  chars := by
    rintro w ⟨a, c, rfl, hlen, hlit, hc⟩ d hd
    simp only [List.mem_append, List.mem_cons, List.not_mem_nil, or_false] at hd
    rcases hd with hd | rfl | rfl
    · exact .inl (solid_letter (literal_letters (by decide) hlen hlit d hd))
    · exact .inl (by decide)
    · exact .inl ((Bool.or_eq_true _ _ |>.mp hc).elim solid_letter solid_digit)
  sign := by
    rintro w ⟨a, c, rfl, _⟩
    exact ⟨'.', by simp, .inr (.inr rfl)⟩
  pump := by
    rintro w v ⟨a, c, rfl, hlen, hlit, hc⟩ h
    refine ⟨a, c, pumped_solid ?_ h, hlen, hlit, hc⟩
    intro d hd
    simp only [List.mem_append, List.mem_cons, List.not_mem_nil, or_false] at hd
    rcases hd with hd | rfl | rfl
    · exact solid_letter (literal_letters (by decide) hlen hlit d hd)
    · decide
    · exact (Bool.or_eq_true _ _ |>.mp hc).elim solid_letter solid_digit

/-! ## The body -/

/-- It is one of the URL patterns, for some words. -/
def IsUrlPattern (m : Pattern Char) : Prop := ∃ f Word, UrlPattern m f Word

theorem urlPatterns_url {u : UnicodeData} (hu : Spaced u.toUnicode) : ∀ m ∈ urlPatterns u, IsUrlPattern m := by
  intro m hm
  simp only [urlPatterns, List.mem_cons, List.not_mem_nil, or_false] at hm
  rcases hm with rfl | rfl | rfl | rfl
  · exact ⟨_, _, schemeSpan_url⟩
  · exact ⟨_, _, bareScheme_url⟩
  · exact ⟨_, _, schemeless_url hu⟩
  · exact ⟨_, _, www_url hu⟩

/-- Each substitution clears its own pattern and leaves those before it clear. -/
theorem clear_foldl {ps : List (Pattern Char)} (hps : ∀ m ∈ ps, IsUrlPattern m) :
    ∀ (done : List (Pattern Char)) (text : Str), (∀ m ∈ done, IsUrlPattern m ∧ Clear m text) →
      ∀ m ∈ done ++ ps, Clear m (ps.foldl (fun text pattern => sub pattern (fun _ => linkRemoved) text) text) := by
  induction ps with
  | nil =>
    intro done text hdone m hm
    rw [List.append_nil] at hm
    exact (hdone m hm).2
  | cons q ps ih =>
    intro done text hdone m hm
    have hq := hps q List.mem_cons_self
    refine ih (fun m hm => hps m (List.mem_cons_of_mem _ hm)) (done ++ [q]) _ ?_ m (by simpa using hm)
    intro m hm
    obtain ⟨_, _, hq⟩ := hq
    rcases List.mem_append.mp hm with hm | hm
    · obtain ⟨hurl, hclear⟩ := hdone m hm
      obtain ⟨f, Word, hm⟩ := hurl
      exact ⟨⟨f, Word, hm⟩, hq.clear_sub hm (.inr hclear)⟩
    · obtain rfl := List.mem_singleton.mp hm
      exact ⟨⟨_, _, hq⟩, hq.clear_sub hq (.inl rfl)⟩

theorem dropUrls_clear {u : UnicodeData} (hu : Spaced u.toUnicode) (text : Str) :
    ∀ m ∈ urlPatterns u, Clear m (dropUrls u text) :=
  clear_foldl (urlPatterns_url hu) [] text fun _ hm => absurd hm List.not_mem_nil

/-- **No URL in the body** of an answer without a nonce and an appendix, whatever its text. -/
theorem body_urlless (u : UnicodeData) (hu : Spaced u.toUnicode) (text : Str) :
    cleanAnswer u text [] [] = referenceNote ++ cleanBody u text [] [] ∧
      ∀ m ∈ urlPatterns u, findall m (cleanBody u text [] []) = [] := by
  refine ⟨by rw [cleanAnswer, if_pos (by rfl)], fun m hm => ?_⟩
  obtain ⟨f, Word, hurl⟩ := urlPatterns_url hu m hm
  rw [cleanBody, if_pos (by rfl), dropMarkers, if_pos (by rfl), plainText]
  exact (hurl.clear_cap (hurl.clear_strip (hurl.clear_collapse (dropUrls_clear hu _ m hm)))).findall

theorem spaced_ascii : Spaced .ascii := by
  intro c hc
  by_contra halnum
  have hsolid : isSolid c = true := solid_alnum ((Bool.not_eq_false _).mp halnum)
  exact absurd ((not_solid_of_space hc).symm.trans hsolid) nofun

/-- Three spans: one in parentheses, one before line breaks, and one that begins a line. -/
theorem body_urlless_spans :
    cleanAnswer .ascii "(see http://a.example) x://y\n\n\n\nwww.b.example".toList [] [] =
        referenceNote ++ cleanBody .ascii "(see http://a.example) x://y\n\n\n\nwww.b.example".toList [] [] ∧
      ∀ m ∈ urlPatterns .ascii,
        findall m (cleanBody .ascii "(see http://a.example) x://y\n\n\n\nwww.b.example".toList [] []) = [] :=
  body_urlless .ascii spaced_ascii _

end CiteVyn.Mcp
