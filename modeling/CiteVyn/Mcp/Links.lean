import CiteVyn.Lib.Cuts
import CiteVyn.Mcp.Clean
import Mathlib.Data.List.TakeWhile

/-! # Links in the body of an answer

The markup loop leaves no Markdown image and no link. Two later passes can put
one together: an unclosed comment opener is removed, and a URL becomes
`[link removed]`, which reads as a label when an opening parenthesis follows.
This file says exactly when the body holds a link. -/
namespace CiteVyn.Mcp
open CiteVyn.Lib.Scan CiteVyn.Lib.Cuts CiteVyn.Text

/-! ## A text holds a link -/

/-- The text ends in a link. -/
def LinkEnd (x : Str) : Prop :=
  ∃ p l b, x = p ++ '[' :: (l ++ ']' :: '(' :: (b ++ [')'])) ∧ ∀ c ∈ l, isLabelChar c = true

theorem linkTarget_eq_some {s : Str} {n : Nat} (h : linkTarget s = some n) :
    ∃ b r, s = '(' :: (b ++ ')' :: r) := by
  unfold linkTarget at h
  split at h
  · rename_i cs
    simp only [drop_takeWhile_length] at h
    split at h
    · rename_i hhead
      cases hd : cs.dropWhile (· != ')') with
      | nil => simp [hd] at hhead
      | cons c r =>
        obtain rfl : c = ')' := by simpa [hd] using hhead
        exact ⟨cs.takeWhile (· != ')'), r, by rw [← hd, List.takeWhile_append_dropWhile]⟩
    · cases h
  · cases h

theorem linkTarget_isSome (b r : Str) : ∃ n, linkTarget ('(' :: (b ++ ')' :: r)) = some n := by
  have hmem : ((b ++ ')' :: r).dropWhile (· != ')')).head? = some ')' := by
    induction b with
    | nil => simp
    | cons c b ih =>
      by_cases hc : c = ')'
      · simp [hc]
      · rw [List.cons_append, List.dropWhile_cons_of_pos (by simpa using hc)]
        exact ih
  exact ⟨_, by rw [linkTarget, drop_takeWhile_length, hmem, if_pos (by decide)]⟩

theorem LinkEnd.eq_append {x : Str} (h : LinkEnd x) : ∃ a, x = a ++ [')'] := by
  obtain ⟨p, l, b, rfl, _⟩ := h
  exact ⟨p ++ '[' :: (l ++ ']' :: '(' :: b), by simp⟩

/-- A link matches at the start of a text. -/
theorem mdLink_iff (pre t : Str) : (∃ n, mdLink pre t = some (n + 1)) ↔
    ∃ l b r, t = '[' :: (l ++ ']' :: '(' :: (b ++ ')' :: r)) ∧ ∀ c ∈ l, isLabelChar c = true := by
  constructor
  · rintro ⟨n, h⟩
    unfold mdLink at h
    split at h
    · rename_i cs
      simp only [drop_takeWhile_length] at h
      split at h
      · rename_i tail htail
        cases hn : linkTarget tail with
        | none => simp [hn] at h
        | some k =>
          obtain ⟨b, r, rfl⟩ := linkTarget_eq_some hn
          refine ⟨cs.takeWhile isLabelChar, b, r, ?_, fun c hc => List.mem_takeWhile_imp hc⟩
          rw [← htail, List.takeWhile_append_dropWhile]
      · cases h
    · cases h
  · rintro ⟨l, b, r, rfl, hl⟩
    obtain ⟨k, hk⟩ := linkTarget_isSome b r
    have htake := takeWhile_append_of_all (r := '(' :: (b ++ ')' :: r)) (c := ']') hl (by decide)
    exact ⟨k + (l.length + 1), by simp only [mdLink, htake, List.drop_left, hk, Option.map_some]; rfl⟩

theorem search_mdLink_iff (s : Str) : search mdLink s = true ↔ ∃ x, x <+: s ∧ LinkEnd x := by
  constructor
  · intro h
    obtain ⟨w, hw⟩ := List.exists_mem_of_ne_nil (findall mdLink s) (by simpa [search] using h)
    obtain ⟨pre, t, n, hn, ⟨p, rfl⟩, _⟩ := exists_of_mem_hits _ _ _ hw
    obtain ⟨l, b, r, rfl, hl⟩ := (mdLink_iff pre t).mp ⟨_, hn⟩
    exact ⟨p ++ '[' :: (l ++ ']' :: '(' :: (b ++ [')'])), ⟨r, by simp⟩, p, l, b, rfl, hl⟩
  · rintro ⟨_, ⟨r, rfl⟩, p, l, b, rfl, hl⟩
    obtain ⟨n, hn⟩ := (mdLink_iff (p.reverse ++ []) _).mpr ⟨l, b, r, rfl, hl⟩
    by_contra hno
    have hnil : findall mdLink (p ++ '[' :: (l ++ ']' :: '(' :: (b ++ ')' :: r))) = [] := by
      simpa [search] using hno
    exact no_match_of_hits_nil _ _ hnil p _ rfl (by simp) n hn

/-- An image holds a link: from its last opening bracket on. -/
theorem mdLink_of_mdImage {s : Str} (h : search mdImage s = true) : search mdLink s = true := by
  obtain ⟨w, hw⟩ := List.exists_mem_of_ne_nil (findall mdImage s) (by simpa [search] using h)
  obtain ⟨pre, t, n, hn, ⟨p, rfl⟩, -⟩ := exists_of_mem_hits _ _ _ hw
  unfold mdImage at hn
  split at hn
  · rename_i cs
    simp only [drop_takeWhile_length] at hn
    split at hn
    · rename_i tail htail
      cases hk : linkTarget tail with
      | none => simp [hk] at hn
      | some k =>
        obtain ⟨b, r, rfl⟩ := linkTarget_eq_some hk
        -- the last opening bracket of the image, its own or one in its label
        obtain ⟨l, y, hy, hl⟩ := List.eq_append_cons_of_mem
          (show '[' ∈ ('[' :: cs.takeWhile (· != ']')).reverse by simp)
        have hy : '[' :: cs.takeWhile (· != ']') = y.reverse ++ '[' :: l.reverse := by
          rw [← List.reverse_reverse ('[' :: _), hy]
          simp
        refine (search_mdLink_iff _).mpr
          ⟨p ++ ('!' :: y.reverse) ++ '[' :: (l.reverse ++ ']' :: '(' :: (b ++ [')'])), ⟨r, ?_⟩,
            p ++ '!' :: y.reverse, l.reverse, b, rfl, fun c hc => ?_⟩
        · rw [← List.takeWhile_append_dropWhile (p := (· != ']')) (l := cs), htail]
          have : '!' :: '[' :: (cs.takeWhile (· != ']') ++ ']' :: '(' :: (b ++ ')' :: r)) =
              '!' :: ((y.reverse ++ '[' :: l.reverse) ++ ']' :: '(' :: (b ++ ')' :: r)) := by
            rw [← hy]
            rfl
          rw [this]
          simp
        · have hopen : c ≠ '[' := fun h => hl (h ▸ List.mem_reverse.mp hc)
          have hclose : c ≠ ']' := by
            have hmem : c ∈ '[' :: cs.takeWhile (· != ']') := by
              rw [hy]
              simp [List.mem_reverse.mp hc]
            rcases List.mem_cons.mp hmem with h | h
            · exact absurd h hopen
            · simpa using List.mem_takeWhile_imp h
          simp [isLabelChar, hopen, hclose]
    · cases hn
  · cases hn

/-! ## Line breaks and the length cap keep links -/

theorem blankLines_cons {c : Char} (hc : c ≠ '\n') (pre s : Str) : blankLines pre (c :: s) = none := by
  simp [blankLines, hc]

theorem collapse_append_cons {c : Char} (hc : c ≠ '\n') (a b : Str) :
    collapse (a ++ c :: b) = collapse a ++ c :: collapse b := by
  have hsep : Separates blankLines [] a (c :: b) := by
    intro p s _ _
    have htake : ∀ s : Str, (s ++ c :: b).takeWhile (· == '\n') = s.takeWhile (· == '\n') := by
      intro s
      induction s with
      | nil => simp [hc]
      | cons d s ih =>
        rw [List.cons_append, List.takeWhile_cons, List.takeWhile_cons, ih]
    refine ⟨by simp only [blankLines, htake], fun n hn => ?_⟩
    simp only [blankLines] at hn
    split at hn
    · cases hn
    · obtain rfl := Option.some.inj hn
      exact (List.takeWhile_prefix _).length_le
  have hpre : ∀ p q s, blankLines p s = blankLines q s := fun _ _ _ => rfl
  simp only [collapse, sub, pieces]
  rw [piecesFrom_append a [] 0 (Nat.zero_le _) hsep, List.flatMap_append,
    piecesFrom_gap (by simp [blankLines_cons hc]), piecesFrom_pre hpre b _ [] 0]
  rfl

theorem mem_collapse {c : Char} {x : Str} (h : c ∈ collapse x) : c = '\n' ∨ c ∈ x := by
  obtain ⟨pc, hpc, hc⟩ := List.mem_flatMap.mp h
  cases pc with
  | gap d =>
    right
    rw [← flatMap_text_pieces blankLines x]
    exact List.mem_flatMap.mpr ⟨_, hpc, hc⟩
  | hit w =>
    left
    simpa [Piece.render] using hc

theorem collapse_split_from {c : Char} (hc : c ≠ '\n') {s' : Str} :
    ∀ (x a p' : Str), (∀ d ∈ a, d = '\n') → collapse (a ++ x) = p' ++ c :: s' →
      ∃ p s, a ++ x = p ++ c :: s ∧ collapse p = p' ∧ collapse s = s' := by
  intro x
  have hblank : ∀ (a p z : Str), (∀ d ∈ a, d = '\n') → collapse a ≠ p ++ c :: z := by
    intro a p z ha h
    rcases mem_collapse (c := c) (x := a) (by rw [h]; simp) with h | h
    · exact hc h
    · exact hc (ha c h)
  induction x with
  | nil =>
    intro a p' ha h
    rw [List.append_nil] at h
    exact absurd h (hblank a p' s' ha)
  | cons d x ih =>
    intro a p' ha h
    by_cases hd : d = '\n'
    · obtain ⟨p, s, hx, hp, hs⟩ := ih (a ++ [d]) p' (by
        intro e he
        rcases List.mem_append.mp he with he | he
        · exact ha e he
        · exact (List.mem_singleton.mp he).trans hd) (by simpa using h)
      exact ⟨p, s, by simpa using hx, hp, hs⟩
    · rw [collapse_append_cons hd] at h
      rcases List.append_eq_append_iff.mp h with ⟨z, hp', hz⟩ | ⟨z, ha', hz⟩
      · cases z with
        | nil =>
          rw [List.nil_append, List.cons.injEq] at hz
          exact ⟨a, x, by rw [hz.1], by simpa using hp'.symm, hz.2⟩
        | cons e z =>
          rw [List.cons_append, List.cons.injEq] at hz
          obtain ⟨p, s, hx, hp, hs⟩ := ih [] z (by simp) hz.2
          rw [List.nil_append] at hx
          exact ⟨a ++ d :: p, s, by rw [hx]; simp, by rw [collapse_append_cons hd, hp, hp', hz.1], hs⟩
      · cases z with
        | nil =>
          rw [List.nil_append, List.cons.injEq] at hz
          exact ⟨a, x, by rw [hz.1], by simpa using ha', hz.2.symm⟩
        | cons e z =>
          rw [List.cons_append, List.cons.injEq] at hz
          exact absurd (hz.1 ▸ ha') (hblank a p' z ha)

theorem collapse_split {c : Char} (hc : c ≠ '\n') {x p' s' : Str}
    (h : collapse x = p' ++ c :: s') :
    ∃ p s, x = p ++ c :: s ∧ collapse p = p' ∧ collapse s = s' :=
  collapse_split_from hc x [] p' (by simp) h

theorem collapse_eq_nil {x : Str} (h : collapse x = []) : x = [] := by
  cases x with
  | nil => rfl
  | cons c x =>
    simp only [collapse, sub, pieces, piecesFrom] at h
    split at h <;> simp [Piece.render] at h

theorem collapse_cons {c : Char} (hc : c ≠ '\n') (b : Str) : collapse (c :: b) = c :: collapse b :=
  collapse_append_cons hc [] b

theorem collapse_split_cons {c : Char} (hc : c ≠ '\n') {x s' : Str} (h : collapse x = c :: s') :
    ∃ s, x = c :: s ∧ collapse s = s' := by
  obtain ⟨p, s, hx, hp, hs⟩ := collapse_split_from hc x [] [] (by simp) h
  rw [collapse_eq_nil hp] at hx
  exact ⟨s, hx, hs⟩

theorem collapse_label {l : Str} :
    (∀ c ∈ collapse l, isLabelChar c = true) ↔ ∀ c ∈ l, isLabelChar c = true := by
  constructor
  · intro h c hc
    by_cases hnl : c = '\n'
    · rw [hnl]
      decide
    · obtain ⟨p, s, rfl⟩ := List.append_of_mem hc
      exact h c (by rw [collapse_append_cons hnl]; simp)
  · intro h c hc
    rcases mem_collapse hc with rfl | hc
    · decide
    · exact h c hc

theorem linkEnd_collapse {x : Str} : LinkEnd (collapse x) ↔ LinkEnd x := by
  constructor
  · rintro ⟨p', l', b', h, hl'⟩
    obtain ⟨p, s1, rfl, _, h1⟩ := collapse_split (by decide) h
    obtain ⟨l, s2, rfl, rfl, h2⟩ := collapse_split (by decide) h1
    obtain ⟨s3, rfl, h3⟩ := collapse_split_cons (by decide) h2
    obtain ⟨b, s4, rfl, _, h4⟩ := collapse_split (by decide) h3
    exact ⟨p, l, b, by rw [collapse_eq_nil h4], collapse_label.mp hl'⟩
  · rintro ⟨p, l, b, rfl, hl⟩
    refine ⟨collapse p, collapse l, collapse b, ?_, collapse_label.mpr hl⟩
    rw [collapse_append_cons (by decide), collapse_append_cons (by decide),
      collapse_cons (by decide), collapse_append_cons (by decide)]
    rfl

/-- A link by the end of a prefix, before the line breaks are collapsed and
after. -/
theorem linkEnd_prefixes_collapse (P : Str → Prop) (s : Str) :
    (∃ y, y <+: collapse s ∧ LinkEnd y ∧ P y) ↔ ∃ x, x <+: s ∧ LinkEnd x ∧ P (collapse x) := by
  constructor
  · rintro ⟨y, ⟨r', hr⟩, hy, hP⟩
    obtain ⟨a, rfl⟩ := hy.eq_append
    obtain ⟨x, r, rfl, hx, _⟩ := collapse_split (show ')' ≠ '\n' by decide)
      (hr.symm.trans (List.append_assoc a [')'] r'))
    have hcol : collapse (x ++ [')']) = a ++ [')'] := by
      rw [collapse_append_cons (by decide), hx]
      rfl
    exact ⟨x ++ [')'], ⟨r, by simp⟩, linkEnd_collapse.mp (hcol ▸ hy), hcol ▸ hP⟩
  · rintro ⟨x, ⟨r, rfl⟩, hx, hP⟩
    refine ⟨collapse x, ?_, linkEnd_collapse.mpr hx, hP⟩
    obtain ⟨a, rfl⟩ := hx.eq_append
    rw [List.append_assoc, List.singleton_append, collapse_append_cons (by decide),
      collapse_append_cons (by decide)]
    exact ⟨collapse r, by simp [collapse, sub, pieces, piecesFrom]⟩

theorem linkEnd_append {p x : Str} (h : LinkEnd x) : LinkEnd (p ++ x) := by
  obtain ⟨p', l, b, rfl, hl⟩ := h
  exact ⟨p ++ p', l, b, by simp, hl⟩

theorem linkEnd_lstrip {x : Str} (h : LinkEnd x) : LinkEnd (lstrip x) := by
  obtain ⟨p, l, b, rfl, hl⟩ := h
  rw [lstrip_append]
  split
  · exact ⟨[], l, b, List.dropWhile_cons_of_neg (by decide), hl⟩
  · exact ⟨lstrip p, l, b, rfl, hl⟩

theorem linkEnd_prefixes_rstrip (P : Str → Prop) (s : Str) :
    (∃ y, y <+: rstrip s ∧ LinkEnd y ∧ P y) ↔ ∃ y, y <+: s ∧ LinkEnd y ∧ P y := by
  constructor
  · rintro ⟨y, hpre, h⟩
    exact ⟨y, hpre.trans (rstrip_isPrefix s), h⟩
  · rintro ⟨y, ⟨r, rfl⟩, hy, hP⟩
    refine ⟨y, ?_, hy, hP⟩
    obtain ⟨a, rfl⟩ := hy.eq_append
    rw [List.append_assoc, List.singleton_append, rstrip_append_cons (by decide)]
    exact ⟨rstrip r, by simp⟩

theorem linkEnd_prefixes_lstrip (P : Str → Prop) (s : Str) :
    (∃ y, y <+: lstrip s ∧ LinkEnd y ∧ P y) ↔ ∃ z, z <+: s ∧ LinkEnd z ∧ P (lstrip z) := by
  constructor
  · rintro ⟨y, ⟨r, hr⟩, hy, hP⟩
    have hself : lstrip (s.takeWhile isSpace ++ y) = y := by
      obtain ⟨c, y, rfl⟩ := List.exists_cons_of_ne_nil (l := y) (by
        rintro rfl
        obtain ⟨a, ha⟩ := hy.eq_append
        simp at ha)
      have hhead := List.head?_dropWhile_not isSpace s
      rw [← lstrip, ← hr] at hhead
      have hc : isSpace c = false := by simpa using hhead
      have hblank : lstrip (s.takeWhile isSpace) = [] :=
        List.dropWhile_eq_nil_iff.mpr fun d hd => List.mem_takeWhile_imp hd
      rw [lstrip_append, hblank, List.isEmpty_nil, if_pos rfl, lstrip,
        List.dropWhile_cons_of_neg (by simp [hc])]
    refine ⟨s.takeWhile isSpace ++ y, ⟨r, ?_⟩, linkEnd_append hy, hself.symm ▸ hP⟩
    rw [List.append_assoc, hr]
    exact List.takeWhile_append_dropWhile
  · rintro ⟨z, ⟨r, rfl⟩, hz, hP⟩
    refine ⟨lstrip z, ⟨r, ?_⟩, linkEnd_lstrip hz, hP⟩
    obtain ⟨a, ha⟩ := (linkEnd_lstrip hz).eq_append
    rw [lstrip_append, ha, if_neg (by simp)]

/-- A link of the capped text ends within the cap. -/
theorem linkEnd_prefixes_cap (s : Str) : (∃ y, y <+: cap s ∧ LinkEnd y) ↔
    ∃ y, y <+: s ∧ LinkEnd y ∧ y.length ≤ maxAnswerChars := by
  unfold cap
  split
  · constructor
    · rintro ⟨y, hy, hlink⟩
      obtain ⟨a, rfl⟩ := hlink.eq_append
      have hmark : ')' ∉ cutMark := by decide
      have hbody : a ++ [')'] <+: rstrip (s.take maxAnswerChars) := by
        obtain ⟨r, hr⟩ := hy
        rcases List.append_eq_append_iff.mp hr with ⟨z, hz, _⟩ | ⟨z, hz, hz'⟩
        · exact ⟨z, hz.symm⟩
        · rcases List.eq_nil_or_concat z with rfl | ⟨z, c, rfl⟩
          · exact ⟨[], by simpa using hz⟩
          · rw [List.concat_eq_append, ← List.append_assoc] at hz
            obtain rfl : ')' = c := (List.cons.inj (List.append_inj' hz rfl).2).1
            exact absurd (by rw [hz']; simp) hmark
      have hle := (hbody.trans (rstrip_isPrefix _)).length_le
      rw [List.length_take] at hle
      exact ⟨_, (hbody.trans (rstrip_isPrefix _)).trans (List.take_prefix _ _), hlink, by omega⟩
    · rintro ⟨y, hy, hlink, hle⟩
      have htake : y <+: s.take maxAnswerChars := List.prefix_take_iff.mpr ⟨hy, hle⟩
      obtain ⟨y', hy', hlink', rfl⟩ := (linkEnd_prefixes_rstrip (· = y) _).mpr ⟨y, htake, hlink, rfl⟩
      exact ⟨y', hy'.trans (List.prefix_append _ _), hlink'⟩
  · rename_i hle
    constructor
    · rintro ⟨y, hy, hlink⟩
      exact ⟨y, hy, hlink, hy.length_le.trans (by omega)⟩
    · rintro ⟨y, hy, hlink, _⟩
      exact ⟨y, hy, hlink⟩

/-! ## The URL pass over tokens -/

/-- The text after the markup pass, with its URLs cut out. -/
def urlTokens (u : UnicodeData) (text : Str) : List (Tok Char) :=
  (urlPatterns u).foldl (fun ts pattern => cutTokens pattern linkRemoved ts)
    (run (stripMarkup (visible u (u.nfkc text))))

/-- A character of a URL span that no placeholder has: no bracket. -/
def isSpanChar (c : Char) : Bool := c != '[' && c != ']'

theorem all_imp {q r : Char → Bool} (hqr : ∀ c, q c = true → r c = true) {s : Str}
    (h : s.all q = true) : s.all r = true :=
  List.all_eq_true.mpr fun c hc => hqr c (List.all_eq_true.mp h c hc)

theorem isSpanChar_of {q : Char → Bool} (hopen : q '[' = false) (hclose : q ']' = false) (c : Char)
    (hc : q c = true) : isSpanChar c = true := by
  have h1 : c ≠ '[' := by
    rintro rfl
    simp [hopen] at hc
  have h2 : c ≠ ']' := by
    rintro rfl
    simp [hclose] at hc
  simp [isSpanChar, h1, h2]

theorem take_span {q : Char → Bool} (hopen : q '[' = false) (hclose : q ']' = false) (s : Str) :
    (s.take (s.takeWhile q).length).all isSpanChar = true :=
  all_imp (isSpanChar_of hopen hclose) (take_takeWhile_all q s)

/-- A scan that starts in the placeholder and eats no bracket stops in it, so
no colon follows. -/
theorem no_colon_after {p t rest x : Str} {k : Nat} (hnew : linkRemoved = p ++ t) (ht : t ≠ [])
    (hk : ((t ++ rest).take k).all isSpanChar = true) : (t ++ rest).drop k ≠ ':' :: x := by
  intro h
  obtain ⟨t', hlast⟩ : ∃ t', t = t' ++ [']'] := by
    rcases List.eq_nil_or_concat t with rfl | ⟨t', c, rfl⟩
    · exact absurd rfl ht
    · have : linkRemoved.getLast? = some ']' := by decide
      rw [hnew, List.concat_eq_append, ← List.append_assoc, List.getLast?_concat] at this
      obtain rfl := Option.some.inj this
      exact ⟨t', by simp⟩
  by_cases hle : k ≤ t'.length
  · have hmem : ':' ∈ t := by
      rw [hlast, List.append_assoc, List.drop_append_of_le_length hle] at h
      rw [hlast]
      cases hd : t'.drop k with
      | nil => simp [hd] at h
      | cons c z =>
        rw [hd, List.cons_append, List.cons.injEq] at h
        exact List.mem_append_left _ (List.drop_subset k t' (by rw [hd, h.1]; simp))
    have hno : ':' ∉ linkRemoved := by decide
    exact hno (hnew ▸ List.mem_append_right p hmem)
  · have hmem : ']' ∈ (t ++ rest).take k := by
      obtain ⟨j, rfl⟩ : ∃ j, k = t'.length + 1 + j := ⟨k - (t'.length + 1), by omega⟩
      rw [hlast, List.take_add, List.take_left' (by simp)]
      simp
    have := List.all_eq_true.mp hk _ hmem
    revert this
    decide

theorem linkRemoved_eq : linkRemoved = '[' :: linkRemoved.tail := by decide

/-- A pattern whose matches hold no bracket avoids the placeholder, if none
starts in it. -/
theorem avoids_of_span {m : Pattern Char}
    (hspan : ∀ pre s n, m pre s = some n → (s.take n).all isSpanChar = true)
    (hstarts : ∀ pre p t rest, linkRemoved = p ++ t → t ≠ [] → m pre (t ++ rest) = none) :
    Avoids m linkRemoved := by
  rw [linkRemoved_eq]
  refine Avoids.of_head (fun pre p t rest h => ?_) fun pre s n hn hmem => ?_
  · rw [← linkRemoved_eq] at h
    exact hstarts _ p t rest h
  · have := List.all_eq_true.mp (hspan pre s n hn) _ hmem
    revert this
    decide

/-- A colon behind characters that are no brackets. -/
theorem avoids_of_colon {m : Pattern Char}
    (hspec : ∀ pre s n, m pre s = some n → (s.take n).all isSpanChar = true ∧
      ∃ k x, (s.take k).all isSpanChar = true ∧ s.drop k = ':' :: x) : Avoids m linkRemoved := by
  refine avoids_of_span (fun pre s n h => (hspec pre s n h).1) fun pre p t rest hnew ht => ?_
  cases h : m pre (t ++ rest) with
  | none => rfl
  | some n =>
    obtain ⟨_, k, x, hk, hx⟩ := hspec _ _ n h
    exact absurd hx (no_colon_after hnew ht hk)

theorem avoids_schemeSpan : Avoids schemeSpan linkRemoved := by
  refine avoids_of_colon fun pre s n h => ?_
  simp only [schemeSpan] at h
  split at h
  · cases h
  split at h
  · rename_i hcolon
    obtain rfl := Option.some.inj h
    obtain ⟨x, hx⟩ := List.isPrefixOf_iff_prefix.mp hcolon
    have hscheme := take_span (q := isSchemeChar) (by decide) (by decide) s
    have hbefore := all_take_add hscheme (take_span (q := isSpace) (by decide) (by decide)
      (s.drop (s.takeWhile isSchemeChar).length))
    refine ⟨all_take_add (all_take_add hbefore ?_) ?_, _, '/' :: '/' :: x, hbefore, hx.symm⟩
    · rw [← hx, List.take_left' (by decide)]
      decide
    · rw [List.drop_drop]
      exact take_span (by decide) (by decide) _
  · cases h

theorem avoids_bareScheme : Avoids bareScheme linkRemoved := by
  refine avoids_of_colon fun pre s n h => ?_
  simp only [bareScheme] at h
  split at h
  · cases h
  split at h
  · cases h
  rename_i w hw
  split at h
  · rename_i tail htail
    obtain rfl := Option.some.inj h
    have hlower : w.all isLowerAscii = true := by
      have : ∀ w ∈ bareSchemes, w.all isLowerAscii = true := by decide
      exact this w (List.mem_of_find?_eq_some hw)
    have hword : (s.take w.length).all isSpanChar = true :=
      all_imp (isSpanChar_of (by decide) (by decide))
        (literal_all hlower (by simpa using List.find?_some hw))
    have hbefore := all_take_add hword (take_span (q := isSpace) (by decide) (by decide)
      (s.drop w.length))
    refine ⟨all_take_add (all_take_add hbefore ?_) ?_, _, tail, hbefore, htail⟩
    · rw [htail]
      simp [isSpanChar]
    · rw [← List.drop_drop, htail]
      exact take_span (by decide) (by decide) tail
  · cases h

/-- The placeholder starts with what its suffixes start with. -/
theorem head_mem_linkRemoved {p t : Str} {c : Char} (h : linkRemoved = p ++ c :: t) :
    c ∈ linkRemoved := by
  rw [h]
  simp

theorem avoids_schemeless (u : UnicodeData) : Avoids (schemeless u) linkRemoved := by
  have hshape : ∀ pre s n, schemeless u pre s = some n →
      ∃ c tail, s = '/' :: '/' :: c :: tail ∧ isAsciiAlnum c = true ∧
        n = (tail.takeWhile isTailChar).length + 3 := by
    intro pre s n h
    unfold schemeless at h
    split at h
    · cases h
    split at h
    · rename_i c tail
      split at h
      · exact ⟨c, tail, rfl, ‹_›, (Option.some.inj h).symm.trans (Nat.add_comm _ _)⟩
      · cases h
    · cases h
  refine avoids_of_span (fun pre s n h => ?_) fun pre p t rest hnew ht => ?_
  · obtain ⟨c, tail, rfl, hc, rfl⟩ := hshape pre s n h
    have hspan := isSpanChar_of (q := isAsciiAlnum) (by decide) (by decide) c hc
    have htail := take_span (q := isTailChar) (by decide) (by decide) tail
    simp only [List.take_succ_cons, List.all_cons, hspan, htail]
    decide
  · obtain ⟨c, t, rfl⟩ := List.exists_cons_of_ne_nil ht
    cases h : schemeless u pre (c :: t ++ rest) with
    | none => rfl
    | some n =>
      obtain ⟨_, _, hs, _⟩ := hshape _ _ n h
      have hc := head_mem_linkRemoved hnew
      rw [(List.cons.inj hs).1] at hc
      exact absurd hc (by decide)

theorem avoids_www (u : UnicodeData) : Avoids (www u) linkRemoved := by
  have hshape : ∀ pre s n, www u pre s = some n → literal "www".toList s = true ∧
      ∃ c tail, s.drop 3 = '.' :: c :: tail ∧
        (isLetterIgnoreCase c || isAsciiDigit c) = true ∧
        n = 3 + ((tail.takeWhile isTailChar).length + 2) := by
    intro pre s n h
    unfold www at h
    split at h
    · cases h
    rename_i hlit
    simp only [Bool.or_eq_true, not_or, Bool.not_eq_true', Bool.not_eq_false] at hlit
    split at h
    · rename_i c tail hdrop
      split at h
      · refine ⟨hlit.2, c, tail, hdrop, ‹_›, ?_⟩
        have := Option.some.inj h
        omega
      · cases h
    · cases h
  refine avoids_of_span (fun pre s n h => ?_) fun pre p t rest hnew ht => ?_
  · obtain ⟨hlit, c, tail, hdrop, hc, rfl⟩ := hshape pre s n h
    have hspan : isSpanChar c = true :=
      isSpanChar_of (q := fun c => isLetterIgnoreCase c || isAsciiDigit c) (by decide) (by decide)
        c hc
    have hword : (s.take 3).all isSpanChar = true :=
      all_imp (isSpanChar_of (by decide) (by decide)) (literal_all (by decide) hlit)
    refine all_take_add hword ?_
    have htail := take_span (q := isTailChar) (by decide) (by decide) tail
    simp only [hdrop, List.take_succ_cons, List.all_cons, hspan, htail]
    decide
  · obtain ⟨c, t, rfl⟩ := List.exists_cons_of_ne_nil ht
    cases h : www u pre (c :: t ++ rest) with
    | none => rfl
    | some n =>
      obtain ⟨hlit, _⟩ := hshape _ _ n h
      have hno : (linkRemoved.all fun c => !eqIgnoreCase 'w' c) = true := by decide
      have hw : eqIgnoreCase 'w' c = true := by
        have : (eqIgnoreCase 'w' c && literal "ww".toList (t ++ rest)) = true := hlit
        exact (Bool.and_eq_true_iff.mp this).1
      have hc := List.all_eq_true.mp hno c (head_mem_linkRemoved hnew)
      rw [hw] at hc
      cases hc

/-- The tokens of the URL pass render to its text. -/
theorem join_urlTokens (u : UnicodeData) (text : Str) : join linkRemoved (urlTokens u text) =
    dropUrls u (stripMarkup (visible u (u.nfkc text))) := by
  have hfold : ∀ (ms : List (Pattern Char)), (∀ m ∈ ms, Avoids m linkRemoved) →
      ∀ ts : List (Tok Char), join linkRemoved
        (ms.foldl (fun ts pattern => cutTokens pattern linkRemoved ts) ts) =
          ms.foldl (fun text pattern => sub pattern (fun _ => linkRemoved) text)
            (join linkRemoved ts) := by
    intro ms
    induction ms with
    | nil => exact fun _ _ => rfl
    | cons m ms ih =>
      intro hms ts
      rw [List.foldl_cons, List.foldl_cons, ih (fun m' hm => hms m' (List.mem_cons_of_mem _ hm)),
        join_cutTokens (hms m List.mem_cons_self)]
  rw [urlTokens, hfold, join_run, dropUrls]
  intro m hm
  simp only [urlPatterns, List.mem_cons, List.not_mem_nil, or_false] at hm
  rcases hm with rfl | rfl | rfl | rfl
  · exact avoids_schemeSpan
  · exact avoids_bareScheme
  · exact avoids_schemeless u
  · exact avoids_www u

/-! ## When the body holds a link -/

/-- Tokens that end in a link: a URL that an opening parenthesis follows, or a
link that the text has before the URL pass. -/
def OpensLink (q : List (Tok Char)) : Prop :=
  (∃ (p : List (Tok Char)) (w : Str) (b : List (Tok Char)), q = p ++ Tok.cut w :: Tok.kept '(' :: (b ++ [Tok.kept ')'])) ∨
    ∃ (p : List (Tok Char)) (l : Str) (b : List (Tok Char)),
      q = p ++ run ('[' :: l) ++ Tok.kept ']' :: Tok.kept '(' :: (b ++ [Tok.kept ')']) ∧ ∀ c ∈ l, isLabelChar c = true

theorem linkEnd_of_opensLink {q : List (Tok Char)} (h : OpensLink q) :
    LinkEnd (join linkRemoved q) := by
  rcases h with ⟨p, w, b, rfl⟩ | ⟨p, l, b, rfl, hl⟩
  · have hlabel : ∀ x, linkRemoved ++ x = '[' :: ("link removed".toList ++ ']' :: x) :=
      fun _ => rfl
    have hfree : "link removed".toList.all isLabelChar = true := by decide
    refine ⟨join linkRemoved p, "link removed".toList, join linkRemoved b, ?_, List.all_eq_true.mp hfree⟩
    simp only [join_append, join_cut, join_kept, join_nil, hlabel]
  · refine ⟨join linkRemoved p, l, join linkRemoved b, ?_, hl⟩
    simp only [join_append, join_run, join_kept, join_nil, List.append_assoc, List.cons_append]

/-- A link by the end of a prefix, in the text and in its tokens. -/
theorem linkEnd_prefixes_join (P : Str → Prop) (ts : List (Tok Char)) :
    (∃ x, x <+: join linkRemoved ts ∧ LinkEnd x ∧ P x) ↔
      ∃ q, q <+: ts ∧ OpensLink q ∧ P (join linkRemoved q) := by
  constructor
  · rintro ⟨x, ⟨r, hr⟩, ⟨p, l, b, rfl, hl⟩, hP⟩
    have hlast : linkRemoved = "[link removed".toList ++ [']'] := by decide
    have hopen : '(' ∉ linkRemoved := by decide
    have hclose : ')' ∉ linkRemoved := by decide
    obtain ⟨q1, r1, rfl, hq1, _⟩ := join_split_kept hclose ts
      (x := p ++ '[' :: (l ++ ']' :: '(' :: b)) (y := r) (by rw [← hr]; simp)
    obtain ⟨q2, b', rfl, hq2, hb⟩ := join_split_kept hopen q1
      (x := (p ++ '[' :: l) ++ [']']) (y := b) (by rw [hq1]; simp)
    refine ⟨q2 ++ .kept '(' :: (b' ++ [.kept ')']), ⟨r1, by simp⟩, ?_, ?_⟩
    · rw [hlast] at hq2
      rcases join_concat q2 hq2 with ⟨q3, rfl, hq3⟩ | ⟨q3, w, rfl, _⟩
      · have hlabel : ']' ∉ '[' :: l := by
          intro h
          rcases List.mem_cons.mp h with h | h
          · cases h
          · exact absurd (hl _ h) (by decide)
        obtain ⟨q4, rfl, _⟩ := join_split_run hlabel hq3
        exact .inr ⟨q4, l, b', by simp, hl⟩
      · exact .inl ⟨q3, w, b', by simp⟩
    · convert hP using 1
      rw [join_append, hq2, join_kept, join_append, hb]
      simp
  · rintro ⟨q, ⟨r, rfl⟩, hq, hP⟩
    exact ⟨_, ⟨join linkRemoved r, by simp⟩, linkEnd_of_opensLink hq, hP⟩

/-- The passes after the markup pass put a link together within the cap. -/
def Assembled (u : UnicodeData) (text : Str) : Prop :=
  ∃ q, q <+: urlTokens u text ∧ OpensLink q ∧
    (lstrip (collapse (join linkRemoved q))).length ≤ maxAnswerChars

theorem search_body_iff (u : UnicodeData) (text : Str) :
    search mdLink (cleanBody u text [] []) = true ↔ Assembled u text := by
  have hbody : cleanBody u text [] [] =
      cap (rstrip (lstrip (collapse (join linkRemoved (urlTokens u text))))) := by
    simp only [cleanBody, dropMarkers, plainText, strip, join_urlTokens, List.isEmpty_nil, if_true]
  rw [search_mdLink_iff, hbody, linkEnd_prefixes_cap]
  have hrstrip := linkEnd_prefixes_rstrip (fun y => y.length ≤ maxAnswerChars)
    (lstrip (collapse (join linkRemoved (urlTokens u text))))
  have hlstrip := linkEnd_prefixes_lstrip (fun y => y.length ≤ maxAnswerChars)
    (collapse (join linkRemoved (urlTokens u text)))
  have hcollapse := linkEnd_prefixes_collapse (fun y => (lstrip y).length ≤ maxAnswerChars)
    (join linkRemoved (urlTokens u text))
  have hjoin := linkEnd_prefixes_join (fun y => (lstrip (collapse y)).length ≤ maxAnswerChars)
    (urlTokens u text)
  exact hrstrip.trans (hlstrip.trans (hcollapse.trans hjoin))

/-- **The body holds no image and no link** exactly when neither a URL with an
opening parenthesis behind it nor the removal of `<!--` assembles one. -/
theorem body_linkless_iff (u : UnicodeData) (text : Str) :
    (search mdImage (cleanBody u text [] []) = false ∧
      search mdLink (cleanBody u text [] []) = false) ↔ ¬Assembled u text := by
  rw [← search_body_iff]
  constructor
  · rintro ⟨_, hlink⟩
    simp [hlink]
  · intro hno
    have hlink : search mdLink (cleanBody u text [] []) = false := by simpa using hno
    refine ⟨?_, hlink⟩
    by_contra himage
    have := mdLink_of_mdImage (by simpa using himage)
    rw [hlink] at this
    cases this

/-- A URL, then text in parentheses. -/
theorem body_link_assembled :
    search mdLink (cleanBody .ascii "See https://a.b(c) for it.".toList [] []) = true := by
  decide +kernel

end CiteVyn.Mcp
