import CiteVyn.Core.Logging
import CiteVyn.Lib.LongRuns
import CiteVyn.Text.Case
import Mathlib.Data.List.TakeWhile

/-! # What the sweeps of a log value leave

After the Bearer sweep no credential is left, after the entropy sweep no long run, and
neither sweep nor a cut brings the other's matches back. What one call of `redact_value`
returns is therefore what the next one returns too, as long as it is not too long to be
scanned. -/
namespace CiteVyn.Core
open CiteVyn.Lib.Scan CiteVyn.Lib.LongRuns CiteVyn.Text

/-- `sys.maxsize`: no `str` is longer. -/
def maxSize : Nat := 2 ^ 63 - 1

/-! ## Runs -/

/-- There is no run of 32 or more characters of `[A-Za-z0-9+/=_-]`. -/
def NoRun (s : Str) : Prop := NoLong isEntropyChar 32 s

/-- A character of a run inside a segment. -/
def isSegmentChar (c : Char) : Bool := isEntropyChar c && c != '/'

theorem noRun_secretValue : NoRun secretValue := noLong_of_length (by decide)

theorem noRun_sweep (s : Str) : NoRun (sweep s) := noLong_sub (by decide) (fun _ => noRun_secretValue) s

theorem sweep_of_noRun {s : Str} (h : NoRun s) : sweep s = s := sub_of_noLong (by decide) h

theorem NoRun.segments {s : Str} (h : NoRun s) : NoLong isSegmentChar 32 s :=
  fun r hr hall => h r hr fun c hc => (Bool.and_eq_true _ _ ▸ hall c hc : _ ∧ _).1

theorem infix_intercalate {sep part : Str} : ∀ {parts : List Str}, part ∈ parts → part <:+: sep.intercalate parts
  | [p], h => by
    rw [List.mem_singleton.mp h, List.intercalate_singleton]
  | p :: q :: parts, h => by
    rw [List.intercalate_cons_cons]
    rcases List.mem_cons.mp h with rfl | h
    · exact ⟨[], sep ++ sep.intercalate (q :: parts), by simp⟩
    · exact (infix_intercalate h).trans (List.suffix_append _ _).isInfix

/-- The segments of a text have no run if nothing but the separators breaks one up. -/
theorem noRun_of_segments {s : Str} (h : NoLong isSegmentChar 32 s) : ∀ part ∈ s.splitOn '/', NoRun part := by
  intro part hpart r hr hall
  have hinfix : part <:+: s := by
    have hinfix : part <:+: ['/'].intercalate (s.splitOn '/') := infix_intercalate hpart
    rwa [List.intercalate_splitOn] at hinfix
  refine h r (hr.trans hinfix) fun c hc => ?_
  rw [isSegmentChar, hall c hc, Bool.true_and, bne_iff_ne]
  rintro rfl
  exact (mem_splitOn hpart).1 (hr.subset hc)

theorem noLong_intercalate {p : Char → Bool} {n : Nat} {c : Char} (hc : p c = false) (hn : 0 < n) :
    ∀ {parts : List Str}, (∀ part ∈ parts, NoLong p n part) → NoLong p n (List.intercalate [c] parts)
  | [], _ => noLong_of_length hn
  | [part], h => by
    rw [List.intercalate_singleton]
    exact h part List.mem_cons_self
  | part :: next :: parts, h => by
    rw [List.intercalate_cons_cons, List.append_assoc]
    obtain ⟨hpart, hrest⟩ := List.forall_mem_cons.mp h
    exact noLong_append_cons hc hpart (noLong_intercalate hc hn hrest)

/-! ## Markers -/

theorem natStr_length {n : Nat} (h : n ≤ maxSize) : (natStr n).length ≤ 19 := by
  refine (Nat.length_toDigits_le_iff (by decide) (by decide)).mpr (Nat.lt_of_le_of_lt h ?_)
  decide

/-- A marker around a number. -/
theorem noLong_marker {p : Char → Bool} (hp : p '…' = false ∧ p '<' = false) {a b : Str} (ha : NoLong p 32 a)
    (hb : NoLong p 32 b) : NoLong p 32 (a ++ '…' :: '<' :: b) :=
  noLong_append_cons hp.1 ha (noLong_append_cons (a := []) hp.2 (noLong_of_length (by decide)) hb)

theorem noRun_counted {n : Nat} (h : n ≤ maxSize) (unit : Str) (hunit : unit.length < 32) : NoRun (natStr n ++ ' ' :: unit) :=
  noLong_append_cons rfl (noLong_of_length (Nat.lt_of_le_of_lt (natStr_length h) (by decide))) (noLong_of_length hunit)

theorem lengthMarker_eq (n : Nat) : lengthMarker n = secretValue ++ '…' :: '<' :: (natStr n ++ ' ' :: "chars>".toList) := by
  rw [lengthMarker, List.append_assoc, List.append_assoc]
  rfl

theorem noRun_lengthMarker {n : Nat} (h : n ≤ maxSize) : NoRun (lengthMarker n) := by
  rw [lengthMarker_eq]
  exact noLong_marker ⟨rfl, rfl⟩ noRun_secretValue (noRun_counted h _ (by decide))

theorem lengthMarker_length {n : Nat} (h : n ≤ maxSize) : (lengthMarker n).length ≤ maxModelId := by
  have := natStr_length h
  rw [lengthMarker_eq]
  simp only [List.length_append, List.length_cons]
  have hsecret : secretValue.length = 10 := by decide
  have hunit : "chars>".toList.length = 6 := by decide
  rw [hsecret, hunit]
  unfold maxModelId
  omega

/-- What a path with too many segments becomes. -/
theorem segmentMarker_eq (n : Nat) : '/' :: (secretValue ++ "…<".toList ++ natStr n ++ " segments>".toList) =
    ('/' :: secretValue) ++ '…' :: '<' :: (natStr n ++ ' ' :: "segments>".toList) := by
  rw [List.append_assoc, List.append_assoc]
  rfl

theorem noLong_segmentMarker {n : Nat} (h : n ≤ maxSize) :
    NoLong isSegmentChar 32 (('/' :: secretValue) ++ '…' :: '<' :: (natStr n ++ ' ' :: "segments>".toList)) :=
  noLong_marker ⟨rfl, rfl⟩ (noLong_of_length (by decide)) (noRun_counted h _ (by decide)).segments

theorem truncatedMark_eq : truncatedMark = '…' :: "<truncated>".toList := rfl

theorem noLong_truncated {p : Char → Bool} (hp : p '…' = false) {s : Str} (h : NoLong p 32 s) (limit : Nat) :
    NoLong p 32 (truncated limit s) := by
  unfold truncated
  split
  · rw [truncatedMark_eq]
    exact noLong_append_cons hp (h.part (List.take_prefix _ _).isInfix) (noLong_of_length (by decide))
  · exact h

theorem truncated_length (limit : Nat) (s : Str) : (truncated limit s).length ≤ limit + truncatedMark.length := by
  unfold truncated
  split
  · rw [List.length_append, List.length_take]
    omega
  · omega

theorem truncated_truncated (limit : Nat) (s : Str) : truncated limit (truncated limit s) = truncated limit s := by
  unfold truncated
  split
  · rename_i h
    have hlen : (s.take limit).length = limit := List.length_take_of_le h.le
    rw [if_pos, List.take_left' hlen]
    rw [List.length_append, hlen]
    exact Nat.lt_add_of_pos_right (by decide)
  · rfl

theorem count_truncated (limit : Nat) (s : Str) : (truncated limit s).count '/' ≤ s.count '/' := by
  unfold truncated
  split
  · have hmark : truncatedMark.count '/' = 0 := by decide
    rw [List.count_append, hmark]
    exact (List.take_sublist limit s).count_le '/'
  · exact Nat.le_refl _

/-! ## Bearer credentials -/

/-- The text begins with a credential: the word, white space and a character of a token. -/
def Bears (t : Str) : Prop := ∃ b ws c r, t = b ++ (ws ++ c :: r) ∧ b.length = 6 ∧ literal "bearer".toList b = true ∧
  ws ≠ [] ∧ (∀ d ∈ ws, isSpace d = true) ∧ isBearerChar c = true

def NoBearer (s : Str) : Prop := ∀ t, t <:+ s → ¬Bears t

/-- No part of a credential. -/
def foreign (c : Char) : Bool := !isSpace c && !isBearerChar c

theorem isBearerChar_letter {c : Char} (h : isLetterIgnoreCase c = true) : isBearerChar c = true := by
  rw [isBearerChar, h]
  rfl

theorem isSpace_of_isBearerChar {c : Char} (h : isBearerChar c = true) : isSpace c = false := by
  rw [isBearerChar, Bool.or_eq_true, Bool.or_eq_true] at h
  rcases h with (h | h) | h
  · exact isSpace_letter h
  · simp only [isAsciiDigit, Bool.and_eq_true, decide_eq_true_eq, Char.le_def] at h
    obtain ⟨hlo, hhi⟩ : 48 ≤ c.toNat ∧ c.toNat ≤ 57 := h
    simp only [isSpace, Bool.or_eq_false_iff, Bool.and_eq_false_iff, decide_eq_false_iff_not, beq_eq_false_iff_ne]
    omega
  · have hall : "._~+/=-".toList.all (fun c => !isSpace c) = true := by decide
    have := List.all_eq_true.mp hall c (List.contains_iff_mem.mp h)
    rwa [Bool.not_eq_true'] at this

theorem Bears.letter {c : Char} {t : Str} (h : Bears (c :: t)) : isLetterIgnoreCase c = true := by
  obtain ⟨b, ws, d, r, ht, hlen, hb, -⟩ := h
  cases b with
  | nil => cases hlen
  | cons e b =>
    obtain ⟨rfl, -⟩ := List.cons.inj ht
    have := literal_all (w := "bearer".toList) (by decide) hb
    rw [String.toList_ofList] at this
    exact List.all_eq_true.mp this c List.mem_cons_self

theorem Bears.append {t : Str} (h : Bears t) (u : Str) : Bears (t ++ u) := by
  obtain ⟨b, ws, c, r, rfl, h⟩ := h
  exact ⟨b, ws, c, r ++ u, by simp, h⟩

/-- What begins with a credential has the whole of it before any character that is no part of one. -/
theorem Bears.before {x y : Str} {d : Char} (hd : foreign d = true) (h : Bears (x ++ d :: y)) : Bears x := by
  obtain ⟨b, ws, c, r, ht, hlen, hb, hne, hws, hc⟩ := h
  rw [foreign, Bool.and_eq_true, Bool.not_eq_true', Bool.not_eq_true'] at hd
  have hletters := List.all_eq_true.mp (literal_all (w := "bearer".toList) (by decide) hb)
  have hall : ∀ e ∈ b ++ (ws ++ [c]), e ≠ d := by
    rintro e he rfl
    rcases List.mem_append.mp he with he | he
    · have hmem : e ∈ b.take ("bearer".toList).length := by
        rw [show ("bearer".toList).length = b.length from hlen.symm, List.take_length]
        exact he
      rw [isBearerChar_letter (hletters e hmem)] at hd
      cases hd.2
    · rcases List.mem_append.mp he with he | he
      · rw [hws e he] at hd
        cases hd.1
      · rw [List.mem_singleton.mp he, hc] at hd
        cases hd.2
  have ht : x ++ d :: y = (b ++ (ws ++ [c])) ++ r := by rw [ht]; simp
  rcases List.append_eq_append_iff.mp ht with ⟨z, hz, hdz⟩ | ⟨z, hz, -⟩
  · cases z with
    | nil =>
      rw [List.append_nil] at hz
      exact ⟨b, ws, c, [], hz.symm, hlen, hb, hne, hws, hc⟩
    | cons e z =>
      obtain ⟨rfl, -⟩ := List.cons.inj hdz
      exact absurd rfl (hall d (by rw [hz]; simp))
  · exact ⟨b, ws, c, z, by rw [hz]; simp, hlen, hb, hne, hws, hc⟩

theorem bearer_eq_none {t pre : Str} (h : ¬Bears t) : bearer pre t = none := by
  unfold bearer
  split
  · rename_i hlit
    simp only
    split
    · rfl
    · rename_i hparts
      simp only [Bool.or_eq_true, List.isEmpty_iff, not_or] at hparts
      obtain ⟨hspaces, htoken⟩ := hparts
      have hlen : 6 ≤ t.length := literal_length (w := "bearer".toList) hlit
      obtain ⟨c, token, hcons⟩ := List.exists_cons_of_ne_nil htoken
      obtain ⟨r, hr⟩ := List.takeWhile_prefix (l := t.drop (6 + ((t.drop 6).takeWhile isSpace).length)) isBearerChar
      refine absurd ⟨t.take 6, (t.drop 6).takeWhile isSpace, c, token ++ r, ?_, List.length_take_of_le hlen, ?_,
        hspaces, fun d hd => List.mem_takeWhile_imp hd, ?_⟩ h
      · rw [hcons] at hr
        obtain ⟨rest, hrest⟩ := List.takeWhile_prefix (l := t.drop 6) isSpace
        have hdrop : rest = t.drop (6 + ((t.drop 6).takeWhile isSpace).length) := by
          have hcut := congrArg (List.drop ((t.drop 6).takeWhile isSpace).length) hrest
          rwa [List.drop_left' rfl, List.drop_drop] at hcut
        rw [← List.cons_append, hr, ← hdrop, hrest, List.take_append_drop]
      · exact literal_itself (w := "bearer".toList) hlit
      · exact List.mem_takeWhile_imp (hcons ▸ List.mem_cons_self)
  · rfl

theorem bearer_of_bears {t pre : Str} (h : Bears t) : ∃ n, bearer pre t = some (n + 1) := by
  obtain ⟨b, ws, c, r, rfl, hlen, hb, hne, hws, hc⟩ := h
  have hlit : literal "bearer".toList (b ++ (ws ++ c :: r)) = true := literal_after hb _
  have hspace : ¬isSpace c = true := by
    rw [isSpace_of_isBearerChar hc]
    exact Bool.false_ne_true
  have hspaces : (ws ++ c :: r).takeWhile isSpace = ws := by
    rw [List.takeWhile_append_of_pos hws, List.takeWhile_cons_of_neg hspace, List.append_nil]
  have hdrop : (b ++ (ws ++ c :: r)).drop 6 = ws ++ c :: r := List.drop_left' hlen
  have hdrop' : (b ++ (ws ++ c :: r)).drop (6 + ws.length) = c :: r := by
    rw [← List.drop_drop, hdrop, List.drop_left' rfl]
  unfold bearer
  simp only [hlit, if_true, hdrop, hspaces, hdrop', List.takeWhile_cons_of_pos hc, List.isEmpty_cons, Bool.or_false,
    List.isEmpty_eq_false_iff.mpr hne, Bool.false_eq_true, if_false]
  exact ⟨_, rfl⟩

theorem bears_iff (t : Str) : (bearer [] t).isSome = true ↔ Bears t := by
  constructor
  · intro h
    by_contra hno
    rw [bearer_eq_none hno] at h
    cases h
  · intro h
    obtain ⟨n, hn⟩ : ∃ n, bearer [] t = some (n + 1) := bearer_of_bears h
    rw [hn]
    rfl

theorem noBearer_iff (s : Str) : NoBearer s ↔ s.tails.all (fun t => (bearer [] t).isNone) = true := by
  rw [List.all_eq_true]
  refine forall_congr' fun t => ?_
  rw [List.mem_tails, ← bears_iff, Bool.not_eq_true, Option.isSome_eq_false_iff]

theorem NoBearer.tail {s t : Str} (h : NoBearer s) (ht : t <:+ s) : NoBearer t := fun u hu => h u (hu.trans ht)

theorem NoBearer.take {s : Str} (h : NoBearer s) (n : Nat) : NoBearer (s.take n) := by
  rintro t ⟨x, hx⟩ ht
  refine h (t ++ s.drop n) ⟨x, ?_⟩ (ht.append _)
  rw [← List.append_assoc, hx, List.take_append_drop]

theorem NoBearer.cons {c : Char} {s : Str} (h : NoBearer s) (hc : ¬Bears (c :: s)) : NoBearer (c :: s) := by
  intro t ht
  rcases List.suffix_cons_iff.mp ht with rfl | ht
  · exact hc
  · exact h t ht

/-- Text with no white space. -/
theorem noBearer_of_no_space {s : Str} (h : s.all (fun c => !isSpace c) = true) : NoBearer s := by
  rintro t ⟨x, rfl⟩ ⟨b, ws, c, r, rfl, -, -, hne, hws, -⟩
  obtain ⟨d, ws, rfl⟩ := List.exists_cons_of_ne_nil hne
  have hd := List.all_eq_true.mp h d (by simp)
  rw [hws d List.mem_cons_self] at hd
  cases hd

theorem noBearer_append_cons {a b : Str} {d : Char} (hd : foreign d = true) (ha : NoBearer a) (hb : NoBearer b) :
    NoBearer (a ++ d :: b) := by
  rintro t ⟨x, hx⟩ ht
  rcases List.append_eq_append_iff.mp hx with ⟨z, hax, rfl⟩ | ⟨z, hxz, hz⟩
  · exact ha z ⟨x, hax.symm⟩ (ht.before hd)
  · cases z with
    | nil =>
      rw [List.nil_append] at hz
      rw [← hz] at ht
      obtain ⟨b', ws, c, r, hnil, hlen, -⟩ := Bears.before (x := []) hd ht
      rw [(List.append_eq_nil_iff.mp hnil.symm).1] at hlen
      cases hlen
    | cons e z =>
      obtain ⟨-, hz⟩ := List.cons.inj hz
      exact hb t ⟨z, hz.symm⟩ ht

theorem NoBearer.truncated {s : Str} (h : NoBearer s) (limit : Nat) : NoBearer (truncated limit s) := by
  unfold Core.truncated
  split
  · rw [truncatedMark_eq]
    exact noBearer_append_cons (by decide) (h.take limit) (noBearer_of_no_space (by decide))
  · exact h

/-! ## The sweeps bring no credential back -/

theorem secretValue_eq : secretValue = '[' :: ("REDACTED".toList ++ [']']) := by decide

theorem secretValue_append (s : Str) : secretValue ++ s = '[' :: ("REDACTED".toList ++ ']' :: s) := by
  rw [secretValue_eq, List.cons_append, List.append_assoc, List.singleton_append]

theorem noBearer_secret {s : Str} (h : NoBearer s) : NoBearer (secretValue ++ s) := by
  rw [secretValue_append]
  have hword : NoBearer "REDACTED".toList := noBearer_of_no_space (by decide)
  exact noBearer_append_cons (a := []) rfl (noBearer_of_no_space rfl)
    (noBearer_append_cons rfl hword h)

/-- A credential in a swept text was there before: it ends before the first value in brackets. -/
theorem bears_render {ps : List (Piece Char)} : ∀ {x : Str},
    Bears (x ++ ps.flatMap (Piece.render fun _ => secretValue)) → Bears (x ++ ps.flatMap Piece.text) := by
  induction ps with
  | nil => exact id
  | cons piece ps ih =>
    intro x h
    cases piece with
    | gap c =>
      rw [List.flatMap_cons, ← List.append_assoc] at h ⊢
      exact ih h
    | hit w =>
      rw [List.flatMap_cons, Piece.render, secretValue_eq, List.cons_append] at h
      exact (h.before rfl).append _

theorem noBearer_render {ps : List (Piece Char)} (h : NoBearer (ps.flatMap Piece.text)) :
    NoBearer (ps.flatMap (Piece.render fun _ => secretValue)) := by
  induction ps with
  | nil => exact h
  | cons piece ps ih =>
    rw [List.flatMap_cons] at h ⊢
    have hrest := ih (h.tail (List.suffix_append _ _))
    cases piece with
    | gap c => exact hrest.cons fun hb => h _ List.suffix_rfl (bears_render (x := [c]) hb)
    | hit w => exact noBearer_secret hrest

/-- A text swept segment by segment, as the pieces of one scan. -/
theorem pieces_intercalate (m : Pattern Char) (f : Str → Str) : ∀ parts : List Str, ∃ ps : List (Piece Char),
    ps.flatMap Piece.text = List.intercalate ['/'] parts ∧
      ps.flatMap (Piece.render f) = List.intercalate ['/'] (parts.map (sub m f))
  | [] => ⟨[], rfl, rfl⟩
  | [part] => ⟨pieces m part, by rw [flatMap_text_pieces, List.intercalate_singleton],
      by rw [List.map_singleton, List.intercalate_singleton, sub]⟩
  | part :: next :: parts => by
    obtain ⟨ps, htext, hrender⟩ := pieces_intercalate m f (next :: parts)
    refine ⟨pieces m part ++ .gap '/' :: ps, ?_, ?_⟩
    · rw [List.flatMap_append, flatMap_text_pieces, List.flatMap_cons, htext, List.intercalate_cons_cons]
      simp [Piece.text]
    · rw [List.map_cons] at hrender
      rw [List.flatMap_append, List.flatMap_cons, hrender, List.map_cons, List.map_cons, List.intercalate_cons_cons,
        List.append_assoc]
      rfl

/-! ## No credential is left -/

/-- What the Bearer sweep puts in place of a credential. -/
def bearerValue : Str := "Bearer ".toList ++ secretValue

theorem bearerValue_append (s : Str) :
    bearerValue ++ s = "Bearer ".toList ++ '[' :: ("REDACTED".toList ++ ']' :: s) :=
  (List.append_assoc _ _ _).trans (congrArg ("Bearer ".toList ++ ·) (secretValue_append s))

/-- A credential that is read up to the start of a replaced one is read up to the start of the one
that was replaced. -/
theorem bears_seam {g y s : Str} {e : Char} (h : Bears (g ++ (bearerValue ++ y))) (he : isBearerChar e = true) :
    Bears (g ++ e :: s) := by
  rw [bearerValue_append, ← List.append_assoc] at h
  obtain ⟨b, ws, c, r, ht, hlen, hb, hne, hws, hc⟩ := h.before (by decide)
  have ht : g ++ "Bearer ".toList = (b ++ (ws ++ [c])) ++ r := by rw [ht]; simp
  rcases List.append_eq_append_iff.mp ht with ⟨z, hz, hbz⟩ | ⟨z, hz, -⟩
  · rcases List.eq_nil_or_concat' z with rfl | ⟨z, d, rfl⟩
    · rw [List.append_nil] at hz
      exact ⟨b, ws, c, e :: s, by rw [← hz]; simp, hlen, hb, hne, hws, hc⟩
    · rw [← List.append_assoc, ← List.append_assoc] at hz
      obtain ⟨hbws, -⟩ := List.append_inj' hz rfl
      rcases List.eq_nil_or_concat' z with rfl | ⟨z, d', rfl⟩
      · rw [List.append_nil] at hbws
        exact ⟨b, ws, e, s, by rw [← hbws]; simp, hlen, hb, hne, hws, he⟩
      · -- the white space would have to be one of the letters of "Bearer"
        obtain ⟨ws, w, rfl⟩ := (List.eq_nil_or_concat' ws).resolve_left hne
        rw [← List.append_assoc, ← List.append_assoc] at hbws
        obtain ⟨-, hw⟩ := List.append_inj' hbws rfl
        obtain rfl := (List.cons.inj hw).1
        have hspace := hws w (by simp)
        have hall : ∀ z ∈ "Bearer ".toList.inits, z.dropLast.all (fun c => !isSpace c) = true := by decide
        have hz : (z ++ [w] ++ [d]) ∈ "Bearer ".toList.inits := (List.mem_inits _ _).mpr ⟨r, hbz.symm⟩
        have hletters := hall _ hz
        rw [List.dropLast_concat, List.all_append, Bool.and_eq_true, List.all_cons, hspace] at hletters
        cases hletters.2
  · exact ⟨b, ws, c, z ++ e :: s, by rw [hz]; simp, hlen, hb, hne, hws, hc⟩

theorem noBearer_bearerValue {s : Str} (h : NoBearer s) : NoBearer (bearerValue ++ s) := by
  have hword : NoBearer "Bearer ".toList := (noBearer_iff _).mpr (by decide)
  have hsecret : NoBearer "REDACTED".toList := noBearer_of_no_space (by decide)
  rw [bearerValue_append]
  exact noBearer_append_cons (by decide) hword (noBearer_append_cons (by decide) hsecret h)

/-- The Bearer sweep leaves no credential. -/
theorem noBearer_sub (s : Str) : NoBearer (sub bearer (fun _ => bearerValue) s) := by
  refine (pieces_rec (m := bearer) (fun _ _ _ => rfl) (P := fun s ps => NoBearer (ps.flatMap (Piece.render fun _ => bearerValue)) ∧
    (ps.flatMap (Piece.render fun _ => bearerValue) = s ∨ ∃ g e s' y, s = g ++ e :: s' ∧ isBearerChar e = true ∧
      ps.flatMap (Piece.render fun _ => bearerValue) = g ++ (bearerValue ++ y))) ?_ ?_ ?_ s).1
  · exact ⟨noBearer_of_no_space rfl, .inl rfl⟩
  · intro c s ps hno ⟨hrest, hsame⟩
    rw [List.flatMap_cons]
    have hnot : ¬Bears (c :: s) := fun hb => (bearer_of_bears hb).elim hno
    constructor
    · refine hrest.cons fun hb => hnot ?_
      rcases hsame with heq | ⟨g, e, s', y, rfl, he, hout⟩
      · rwa [heq] at hb
      · rw [hout] at hb
        exact bears_seam (g := c :: g) hb he
    · rcases hsame with heq | ⟨g, e, s', y, rfl, he, hout⟩
      · exact .inl (congrArg (c :: ·) heq)
      · exact .inr ⟨c :: g, e, s', y, rfl, he, congrArg (c :: ·) hout⟩
  · intro s n ps hne hn ⟨hrest, _⟩
    rw [List.flatMap_cons]
    refine ⟨noBearer_bearerValue hrest, .inr ?_⟩
    obtain ⟨c, s, rfl⟩ := List.exists_cons_of_ne_nil hne
    have hb : Bears (c :: s) := (bears_iff _).mp (by rw [hn]; rfl)
    exact ⟨[], c, s, _, rfl, isBearerChar_letter hb.letter, rfl⟩

theorem sub_of_noBearer {s : Str} (f : Str → Str) (h : NoBearer s) : sub bearer f s = s :=
  render_of_no_match f s [] fun p t hs _ => bearer_eq_none (h t ⟨p, hs.symm⟩)

/-! ## Sizes -/

theorem count_render {c : Char} {v : Str} (hc : c ∉ v) (ps : List (Piece Char)) :
    (ps.flatMap (Piece.render fun _ => v)).count c ≤ (ps.flatMap Piece.text).count c := by
  induction ps with
  | nil => exact Nat.le_refl _
  | cons piece ps ih =>
    rw [List.flatMap_cons, List.flatMap_cons, List.count_append, List.count_append]
    cases piece with
    | gap d => exact Nat.add_le_add_left ih _
    | hit w =>
      rw [Piece.render, List.count_eq_zero_of_not_mem hc]
      omega

theorem length_render {v : Str} (hv : 0 < v.length) : ∀ ps : List (Piece Char), (∀ w ∈ hits ps, w ≠ []) →
    (ps.flatMap (Piece.render fun _ => v)).length ≤ v.length * (ps.flatMap Piece.text).length
  | [], _ => Nat.zero_le _
  | .gap c :: ps, h => by
    have ih := length_render hv ps h
    simp only [List.flatMap_cons, List.length_append, Piece.render, Piece.text, List.length_singleton, Nat.mul_add,
      Nat.mul_one]
    omega
  | .hit w :: ps, h => by
    obtain ⟨hw, hps⟩ := List.forall_mem_cons.mp h
    have ih := length_render hv ps hps
    have hlen : v.length * 1 ≤ v.length * w.length := Nat.mul_le_mul_left _ (List.length_pos_iff.mpr hw)
    simp only [List.flatMap_cons, List.length_append, Piece.render, Piece.text, Nat.mul_add]
    omega

theorem length_sub_bearer (s : Str) : (sub bearer (fun _ => bearerValue) s).length ≤ 17 * s.length := by
  have h := length_render (show 0 < bearerValue.length by decide) (pieces bearer s) fun w hw => by
    obtain ⟨_, _, _, _, _, _, hne⟩ := exists_of_mem_hits s [] 0 hw
    exact hne
  rw [flatMap_text_pieces] at h
  exact h

/-! ## What a redacted text is -/

theorem not_letter_of_isDigit {c : Char} (h : c.isDigit = true) : isLetterIgnoreCase c = false := by
  simp only [Char.isDigit, Bool.and_eq_true, decide_eq_true_eq] at h
  obtain ⟨hlo, hhi⟩ : 48 ≤ c.toNat ∧ c.toNat ≤ 57 := h
  have hne (d : Char) (hd : 57 < d.toNat) : (c == d) = false := by
    rw [beq_eq_false_iff_ne]
    rintro rfl
    omega
  have hle {d : Char} (hd : 57 < d.toNat) : ¬d ≤ c := by
    rw [Char.le_def, UInt32.le_iff_toNat_le]
    exact Nat.not_le.mpr (Nat.lt_of_le_of_lt hhi hd)
  rw [isLetterIgnoreCase, isUpperAscii, isLowerAscii, decide_eq_false (hle (d := 'A') (by decide)),
    decide_eq_false (hle (d := 'a') (by decide)), hne _ (by decide), hne _ (by decide), hne _ (by decide), hne _ (by decide)]
  rfl

theorem noBearer_counted (n : Nat) {unit : Str} (h : NoBearer (' ' :: unit)) : NoBearer (natStr n ++ ' ' :: unit) := by
  have hdigits : ∀ c ∈ natStr n, c.isDigit = true := fun c hc => Nat.isDigit_of_mem_toDigits (by decide) (by decide) hc
  generalize natStr n = digits at hdigits
  induction digits with
  | nil => exact h
  | cons c digits ih =>
    obtain ⟨hc, hdigits⟩ := List.forall_mem_cons.mp hdigits
    refine (ih hdigits).cons fun hb => ?_
    have := hb.letter
    rw [not_letter_of_isDigit hc] at this
    cases this

theorem noBearer_marker {a b : Str} (ha : NoBearer a) (hb : NoBearer b) : NoBearer (a ++ '…' :: '<' :: b) :=
  noBearer_append_cons (by decide) ha
    (noBearer_append_cons (a := []) (by decide) (noBearer_of_no_space rfl) hb)

/-- What is known of a text after its redaction under a key. -/
structure Redacted (key t : Str) : Prop where
  noBearer : NoBearer t
  opaqueId : lower key ∈ opaqueIdKeys →
    t.length ≤ maxOpaqueId + truncatedMark.length ∧ truncated maxOpaqueId t = t
  modelId : lower key ∈ modelIdKeys → t.length ≤ maxModelId
  path : lower key ∈ pathKeys → t.length ≤ maxPath + truncatedMark.length ∧ truncated maxPath t = t ∧
    t.count '/' ≤ maxPathSegments ∧ NoLong isSegmentChar 32 t
  run : lower key ∉ pathKeys → lower key ∉ opaqueIdKeys → lower key ∉ modelIdKeys → NoRun t

/-! ## One call and the next -/

theorem keys_apart : (∀ k ∈ opaqueIdKeys, k ∉ pathKeys ∧ k ∉ modelIdKeys) ∧ ∀ k ∈ modelIdKeys, k ∉ pathKeys := by decide

/-- A text that is known to be redacted is redacted to itself, or to its length. -/
theorem Redacted.again {key t : Str} (h : Redacted key t) :
    redactText key t = if maxScannedChars < t.length then lengthMarker t.length else t := by
  have hbearer : sub bearer (fun _ => "Bearer ".toList ++ secretValue) t = t := sub_of_noBearer _ h.noBearer
  have hcount : ¬(decide (lower key ∈ pathKeys) && decide (maxPathSegments < t.count '/')) = true := by
    rw [Bool.and_eq_true, decide_eq_true_eq, decide_eq_true_eq, not_and, Nat.not_lt]
    exact fun hpath => (h.path hpath).2.2.1
  unfold redactText
  simp only [hbearer]
  rw [if_neg hcount]
  by_cases hlong : maxScannedChars < t.length
  · rw [if_pos hlong, if_pos hlong]
  rw [if_neg hlong, if_neg hlong]
  by_cases hopaque : lower key ∈ opaqueIdKeys
  · rw [if_pos hopaque, (h.opaqueId hopaque).2]
  rw [if_neg hopaque]
  by_cases hmodel : lower key ∈ modelIdKeys
  · rw [if_pos hmodel, if_neg (Nat.not_lt.mpr (h.modelId hmodel))]
  rw [if_neg hmodel]
  by_cases hpath : lower key ∈ pathKeys
  · obtain ⟨-, htruncated, -, hruns⟩ := h.path hpath
    have hsegments : (t.splitOn '/').map sweep = t.splitOn '/' :=
      (List.map_congr_left fun part hpart => sweep_of_noRun (noRun_of_segments hruns part hpart)).trans (List.map_id _)
    rw [if_pos hpath, hsegments, List.intercalate_splitOn, htruncated]
  · rw [if_neg hpath, sweep_of_noRun (h.run hpath hopaque hmodel)]

theorem truncated_of_length {limit : Nat} {s : Str} (h : s.length ≤ limit) : truncated limit s = s :=
  if_neg (Nat.not_lt.mpr h)

/-- A marker without a separator is redacted under every key. -/
theorem redacted_lengthMarker (key : Str) {n : Nat} (hn : n ≤ maxSize) : Redacted key (lengthMarker n) := by
  have hlength := lengthMarker_length hn
  have hrun := noRun_lengthMarker hn
  have hsmall : (lengthMarker n).length ≤ maxPath := hlength.trans (by decide)
  have hbearer : NoBearer (lengthMarker n) := by
    rw [lengthMarker_eq]
    exact noBearer_marker (noBearer_of_no_space (by decide)) (noBearer_counted n ((noBearer_iff _).mpr (by decide)))
  exact
    { noBearer := hbearer
      opaqueId := fun _ => ⟨hsmall.trans (Nat.le_add_right _ _), truncated_of_length hsmall⟩
      modelId := fun _ => hlength
      path := fun _ => ⟨hsmall.trans (Nat.le_add_right _ _), truncated_of_length hsmall,
        List.count_le_length.trans hlength, hrun.segments⟩
      run := fun _ _ _ => hrun }

/-- So is the marker of a path. -/
theorem redacted_segmentMarker {key : Str} (hpath : lower key ∈ pathKeys) {n : Nat} (hn : n ≤ maxSize) :
    Redacted key ('/' :: (secretValue ++ "…<".toList ++ natStr n ++ " segments>".toList)) := by
  rw [segmentMarker_eq]
  have hlength : ('/' :: secretValue ++ '…' :: '<' :: (natStr n ++ ' ' :: "segments>".toList)).length ≤ 42 := by
    have hsecret : secretValue.length = 10 := by decide
    have hunit : "segments>".toList.length = 9 := by decide
    have := natStr_length hn
    simp only [List.length_append, List.length_cons, hsecret, hunit]
    omega
  exact
    { noBearer := noBearer_marker (noBearer_of_no_space (by decide)) (noBearer_counted n ((noBearer_iff _).mpr (by decide)))
      opaqueId := fun hopaque => absurd hpath (keys_apart.1 _ hopaque).1
      modelId := fun hmodel => absurd hpath (keys_apart.2 _ hmodel)
      path := fun _ => ⟨hlength.trans (by decide), truncated_of_length (hlength.trans (by decide)),
        List.count_le_length.trans (hlength.trans (by decide)), noLong_segmentMarker hn⟩
      run := fun hno => absurd hpath hno }

theorem redacted_redactText (key : Str) {s : Str} (hs : s.length ≤ maxSize) : Redacted key (redactText key s) := by
  have hbearer := noBearer_sub s
  have hlength := length_sub_bearer s
  have hslash : (sub bearer (fun _ => bearerValue) s).count '/' ≤ s.count '/' := by
    have h := count_render (c := '/') (v := bearerValue) (by decide) (pieces bearer s)
    rwa [flatMap_text_pieces] at h
  unfold redactText
  simp only
  split
  · rename_i hmany
    rw [Bool.and_eq_true, decide_eq_true_eq] at hmany
    exact redacted_segmentMarker hmany.1 (List.count_le_length.trans hs)
  rename_i hfew
  split
  · exact redacted_lengthMarker key hs
  rename_i hscanned
  change Redacted key (if lower key ∈ opaqueIdKeys then truncated maxOpaqueId (sub bearer (fun _ => bearerValue) s)
    else if lower key ∈ modelIdKeys then
      if maxModelId < (sub bearer (fun _ => bearerValue) s).length then
        lengthMarker (sub bearer (fun _ => bearerValue) s).length
      else sub bearer (fun _ => bearerValue) s
    else if lower key ∈ pathKeys then
      truncated maxPath (List.intercalate ['/'] (((sub bearer (fun _ => bearerValue) s).splitOn '/').map sweep))
    else sweep (sub bearer (fun _ => bearerValue) s))
  generalize sub bearer (fun _ => bearerValue) s = redacted at *
  split
  · rename_i hopaque
    obtain ⟨hpath, hmodel⟩ := keys_apart.1 _ hopaque
    exact
      { noBearer := hbearer.truncated _
        opaqueId := fun _ => ⟨truncated_length _ _, truncated_truncated _ _⟩
        modelId := fun h => absurd h hmodel
        path := fun h => absurd h hpath
        run := fun _ h => absurd hopaque h }
  rename_i hopaque
  split
  · rename_i hmodel
    split
    · refine redacted_lengthMarker key (hlength.trans ?_)
      have hs : s.length ≤ 8192 := Nat.not_lt.mp hscanned
      unfold maxSize
      omega
    · rename_i hcap
      exact
        { noBearer := hbearer
          opaqueId := fun h => absurd h hopaque
          modelId := fun _ => Nat.not_lt.mp hcap
          path := fun h => absurd h (keys_apart.2 _ hmodel)
          run := fun _ _ h => absurd hmodel h }
  rename_i hmodel
  split
  · rename_i hpath
    have hcount : s.count '/' ≤ maxPathSegments := by
      by_contra h
      exact hfew (by rw [decide_eq_true hpath, decide_eq_true (Nat.lt_of_not_le h)]; rfl)
    have hruns : NoLong isSegmentChar 32 (List.intercalate ['/'] ((redacted.splitOn '/').map sweep)) :=
      noLong_intercalate rfl (by decide) (List.forall_mem_map.mpr fun part _ => (noRun_sweep part).segments)
    obtain ⟨ps, htext, hrender⟩ := pieces_intercalate highEntropy (fun _ => secretValue) (redacted.splitOn '/')
    change ps.flatMap _ = List.intercalate ['/'] ((redacted.splitOn '/').map sweep) at hrender
    rw [List.intercalate_splitOn] at htext
    rw [← hrender] at hruns ⊢
    have hswept : NoBearer (ps.flatMap (Piece.render fun _ => secretValue)) := noBearer_render (htext ▸ hbearer)
    have hslashes := count_render (c := '/') (v := secretValue) (by decide) ps
    rw [htext] at hslashes
    refine
      { noBearer := hswept.truncated _
        opaqueId := fun h => absurd h hopaque
        modelId := fun h => absurd h hmodel
        path := fun _ => ⟨truncated_length _ _, truncated_truncated _ _, ?_, noLong_truncated rfl hruns _⟩
        run := fun h => absurd hpath h }
    exact (count_truncated _ _).trans (hslashes.trans (hslash.trans hcount))
  · rename_i hpath
    have hswept : NoBearer (sweep redacted) := by
      refine @noBearer_render (pieces highEntropy redacted) ?_
      rwa [flatMap_text_pieces]
    exact
      { noBearer := hswept
        opaqueId := fun h => absurd h hopaque
        modelId := fun h => absurd h hmodel
        path := fun h => absurd h hpath
        run := fun _ _ _ => noRun_sweep redacted }

/-! ## Values -/

theorem redactValue_str (key s : Str) : redactValue key (.str s) = masked key (.str (redactText key s)) := by
  rw [redactValue]

theorem masked_of_shown {key : Str} (h : ¬Hides key) (value : Value) : masked key value = value := by
  obtain ⟨hraw, hsecret⟩ := not_or.mp h
  rw [masked, if_neg hraw, if_neg hsecret]

/-- What a text shows under a key that does not hide it: no long run, or no long segment, and no
more than the cap of the key; and what is too long, or has too many segments, shows its size. -/
theorem redactValue_masks (key s : Str) (hkey : ¬Hides key) (hs : s.length ≤ maxSize) :
    ∃ out, redactValue key (.str s) = .str out ∧
      (lower key ∉ pathKeys → lower key ∉ opaqueIdKeys → lower key ∉ modelIdKeys → NoRun out) ∧
      (lower key ∈ pathKeys →
        (∀ part ∈ out.splitOn '/', NoRun part) ∧ out.length ≤ maxPath + truncatedMark.length) ∧
      (lower key ∈ opaqueIdKeys → out.length ≤ maxOpaqueId + truncatedMark.length) ∧
      (lower key ∈ modelIdKeys → out.length ≤ maxModelId) ∧
      (lower key ∈ pathKeys → maxPathSegments < s.count '/' →
        ∀ t : Str, t.count '/' = s.count '/' → redactValue key (.str t) = .str out) ∧
      (maxScannedChars < s.length → (lower key ∈ pathKeys → s.count '/' ≤ maxPathSegments) →
        ∀ t : Str, t.length = s.length → (lower key ∈ pathKeys → t.count '/' ≤ maxPathSegments) →
          redactValue key (.str t) = .str out) := by
  have hshown (t : Str) : redactValue key (.str t) = .str (redactText key t) := by
    rw [redactValue_str, masked_of_shown hkey]
  have h := redacted_redactText key hs
  refine ⟨redactText key s, hshown s, h.run, ?_, fun hopaque => (h.opaqueId hopaque).1, h.modelId, ?_, ?_⟩
  · intro hpath
    obtain ⟨hlength, -, -, hruns⟩ := h.path hpath
    exact ⟨noRun_of_segments hruns, hlength⟩
  · intro hpath hmany t ht
    have hmarked (u : Str) (hu : maxPathSegments < u.count '/') : redactText key u =
        '/' :: (secretValue ++ "…<".toList ++ natStr (u.count '/') ++ " segments>".toList) := by
      unfold redactText
      simp only [decide_eq_true hpath, decide_eq_true hu, Bool.and_self, if_true]
    rw [hshown, hmarked t (ht ▸ hmany), hmarked s hmany, ht]
  · intro hlong hfew t ht hfew'
    have hmarked (u : Str) (hu : maxScannedChars < u.length) (hcount : lower key ∈ pathKeys → u.count '/' ≤ maxPathSegments) :
        redactText key u = lengthMarker u.length := by
      have hno : ¬(decide (lower key ∈ pathKeys) && decide (maxPathSegments < u.count '/')) = true := by
        rw [Bool.and_eq_true, decide_eq_true_eq, decide_eq_true_eq, not_and, Nat.not_lt]
        exact hcount
      unfold redactText
      simp only
      rw [if_neg hno, if_pos hu]
    rw [hshown, hmarked t (ht ▸ hlong) hfew', hmarked s hlong hfew, ht]

theorem redactValue_masks_path : ∃ out,
    redactValue "path".toList (.str "/a/0123456789abcdef0123456789abcdef/b".toList) = .str out ∧
      ∀ part ∈ out.splitOn '/', NoRun part := by
  obtain ⟨out, hout, -, hpath, -⟩ := redactValue_masks "path".toList
    "/a/0123456789abcdef0123456789abcdef/b".toList (by unfold Hides; decide +kernel) (by rw [String.toList_ofList]; decide)
  exact ⟨out, hout, (hpath (by decide)).1⟩

/-- Redacting again changes nothing, but for a text that has become too long to be scanned; only
a key of no list lets a text become that long. -/
theorem redactValue_again (key s : Str) (hs : s.length ≤ maxSize) :
    ∃ out, redactValue key (.str s) = .str out ∧
      (out.length ≤ maxScannedChars → redactValue key (redactValue key (.str s)) = redactValue key (.str s)) ∧
      (maxScannedChars < out.length → redactValue key (redactValue key (.str s)) = .str (lengthMarker out.length) ∧
        ¬Hides key ∧ lower key ∉ pathKeys ∧ lower key ∉ opaqueIdKeys ∧ lower key ∉ modelIdKeys) := by
  by_cases hkey : Hides key
  · have hsame (v : Value) : redactValue key v = redactValue key (.str s) := redactValue_of_hides hkey _ _
    obtain ⟨out, hout, hsmall⟩ : ∃ out, redactValue key (.str s) = .str out ∧ out.length ≤ maxScannedChars := by
      rw [redactValue_str, masked]
      split
      · exact ⟨textValue, rfl, by decide⟩
      · rename_i hraw
        rw [if_pos (hkey.resolve_left hraw)]
        exact ⟨secretValue, rfl, by decide⟩
    exact ⟨out, hout, fun _ => hsame _, fun h => absurd hsmall (Nat.not_le.mpr h)⟩
  · have hshown (t : Str) : redactValue key (.str t) = .str (redactText key t) := by
      rw [redactValue_str, masked_of_shown hkey]
    have h := redacted_redactText key hs
    refine ⟨redactText key s, hshown s, fun hsmall => ?_, fun hlong => ⟨?_, hkey, fun hpath => ?_, fun hopaque => ?_,
      fun hmodel => ?_⟩⟩
    · rw [hshown, hshown, h.again, if_neg (Nat.not_lt.mpr hsmall)]
    · rw [hshown, hshown, h.again, if_pos hlong]
    · exact absurd ((h.path hpath).1.trans (by decide)) (Nat.not_le.mpr hlong)
    · exact absurd ((h.opaqueId hopaque).1.trans (by decide)) (Nat.not_le.mpr hlong)
    · exact absurd ((h.modelId hmodel).trans (by decide)) (Nat.not_le.mpr hlong)

/-- Credentials of one character. -/
def credentials (n : Nat) : Str := (List.replicate n "Bearer x ".toList).flatten

theorem credentials_succ (n : Nat) : credentials (n + 1) =
    'B' :: 'e' :: 'a' :: 'r' :: 'e' :: 'r' :: ' ' :: 'x' :: ' ' :: credentials n := by
  rw [credentials, List.replicate_succ, List.flatten_cons, String.toList_ofList]
  rfl

theorem length_credentials (n : Nat) : (credentials n).length = 9 * n := by
  induction n with
  | zero => rfl
  | succ n ih =>
    rw [credentials_succ]
    simp only [List.length_cons, ih]
    omega

theorem length_replaced (n : Nat) : (List.replicate n (bearerValue ++ [' '])).flatten.length = 18 * n := by
  induction n with
  | zero => rfl
  | succ n ih =>
    have hvalue : (bearerValue ++ [' ']).length = 18 := by decide
    rw [List.replicate_succ, List.flatten_cons, List.length_append, ih, hvalue]
    omega

/-- Each credential is replaced on its own. -/
theorem render_credentials : ∀ (n : Nat) (pre : Str),
    (piecesFrom bearer pre 0 (credentials n)).flatMap (Piece.render fun _ => bearerValue) =
      (List.replicate n (bearerValue ++ [' '])).flatten
  | 0, _ => rfl
  | n + 1, pre => by
    have hmatch : bearer pre (credentials (n + 1)) = some (7 + 1) := by
      rw [credentials_succ]
      rfl
    have hspace (pre : Str) (s : Str) : ∀ k, bearer pre (' ' :: s) ≠ some (k + 1) := by
      intro k hk
      rw [bearer_eq_none fun hb => absurd hb.letter (by decide)] at hk
      cases hk
    have hne : credentials (n + 1) ≠ [] := by
      rw [credentials_succ]
      exact List.cons_ne_nil _ _
    rw [piecesFrom_hit hne hmatch, List.flatMap_cons, credentials_succ, List.replicate_succ, List.flatten_cons,
      List.append_assoc]
    refine congrArg (bearerValue ++ ·) ?_
    simp only [List.drop_succ_cons, List.drop_zero]
    rw [piecesFrom_gap (hspace _ _), List.flatMap_cons, render_credentials n]
    rfl

/-- The Bearer sweep makes such a text longer. -/
theorem redactText_credentials {key : Str} (hkey : lower key ∉ pathKeys ∧ lower key ∉ opaqueIdKeys ∧ lower key ∉ modelIdKeys)
    {n : Nat} (hn : 9 * n ≤ maxScannedChars) : redactText key (credentials n) = (List.replicate n (bearerValue ++ [' '])).flatten := by
  obtain ⟨hpath, hopaque, hmodel⟩ := hkey
  have hruns : NoRun (List.replicate n (bearerValue ++ [' '])).flatten := by
    clear hn
    induction n with
    | zero => exact noLong_of_length (by decide)
    | succ n ih =>
      rw [List.replicate_succ, List.flatten_cons, List.append_assoc]
      exact noLong_append_cons rfl (noLong_of_length (by decide)) ih
  have hsub : sub bearer (fun _ => "Bearer ".toList ++ secretValue) (credentials n) =
      (List.replicate n (bearerValue ++ [' '])).flatten := render_credentials n []
  unfold redactText
  simp only [hsub, decide_eq_false hpath, Bool.false_and, Bool.false_eq_true, if_false]
  rw [if_neg (length_credentials n ▸ Nat.not_lt.mpr hn), if_neg hopaque, if_neg hmodel, if_neg hpath, sweep_of_noRun hruns]

/-- A text of 8100 characters is scanned, and what comes of it is not. -/
theorem redactValue_again_ne : redactValue "method".toList (redactValue "method".toList (.str (credentials 900))) ≠
    redactValue "method".toList (.str (credentials 900)) := by
  have hkey : ¬Hides "method".toList := by
    unfold Hides
    decide +kernel
  have hlisted : lower "method".toList ∉ pathKeys ∧ lower "method".toList ∉ opaqueIdKeys ∧
      lower "method".toList ∉ modelIdKeys := by decide
  have hlength := length_replaced 900
  have hsize : (credentials 900).length ≤ maxSize := by
    rw [length_credentials]
    decide
  have hfirst := redactText_credentials hlisted (n := 900) (by decide)
  have hagain := (redacted_redactText "method".toList hsize).again
  rw [hfirst] at hagain
  generalize (List.replicate 900 (bearerValue ++ [' '])).flatten = out at hlength hfirst hagain
  rw [hlength, if_pos (by decide)] at hagain
  have hmarker := lengthMarker_length (n := 18 * 900) (by decide)
  rw [redactValue_str, masked_of_shown hkey, redactValue_str, masked_of_shown hkey, hfirst, hagain]
  intro heq
  rw [Value.str.inj heq, hlength] at hmarker
  exact absurd hmarker (by decide)

/-- A path with a credential is the same after both. -/
theorem redactValue_again_path : ∃ out,
    redactValue "path".toList (.str "/v1/x Bearer abc".toList) = .str out ∧
      (out.length ≤ maxScannedChars → redactValue "path".toList (redactValue "path".toList (.str "/v1/x Bearer abc".toList)) =
        redactValue "path".toList (.str "/v1/x Bearer abc".toList)) := by
  obtain ⟨out, hout, hsame, -⟩ := redactValue_again "path".toList "/v1/x Bearer abc".toList (by decide)
  exact ⟨out, hout, hsame⟩

end CiteVyn.Core
