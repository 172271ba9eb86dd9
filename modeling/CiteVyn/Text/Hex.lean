import CiteVyn.Lib.Scan
import CiteVyn.Text.Values
import Mathlib.Tactic.Ring

/-! # Hexadecimal text

`int(s, 16)` and the text of a `uuid.UUID`, as the standard library reads and writes
them. -/
namespace CiteVyn.Text
open CiteVyn.Lib.Scan

/-- The white space that `int` skips once the text is ASCII. -/
def isSpaceAscii (c : Char) : Bool := [' ', '\t', '\n', '\x0b', '\x0c', '\r'].contains c

/-- `int` turns other white space into spaces and other decimal digits into ASCII ones first. -/
def asciiDigit (c : Char) : Char :=
  if c.toNat < 127 then c
  else if isSpace c then ' '
  else ((decimalValue c).map Nat.digitChar).getD c

def hexDigitValue (c : Char) : Option Nat :=
  if 48 ≤ c.toNat ∧ c.toNat ≤ 57 then some (c.toNat - 48)
  else if 97 ≤ c.toNat ∧ c.toNat ≤ 102 then some (c.toNat - 87)
  else if 65 ≤ c.toNat ∧ c.toNat ≤ 70 then some (c.toNat - 55)
  else none

/-- Digits with single underscores between them; `digit` when the last character was one. -/
def readDigits : Bool → Nat → Str → Option Nat
  | digit, n, [] => if digit then some n else none
  | digit, n, c :: cs =>
    if c = '_' then if digit then readDigits false n cs else none
    else (hexDigitValue c).bind fun d => readDigits true (16 * n + d) cs

/-- What comes after the sign; `0x` may stand first, and an underscore after it. -/
def unsigned16 (s : Str) : Option Nat :=
  if s.head? = some '0' ∧ (s[1]? = some 'x' ∨ s[1]? = some 'X') then
    readDigits false 0 (if s[2]? = some '_' then s.drop 3 else s.drop 2)
  else readDigits false 0 s

/-- `int(s, 16)`, none for a `ValueError`. -/
def int16 (s : Str) : Option Int :=
  match (((s.map asciiDigit).dropWhile isSpaceAscii).reverse.dropWhile isSpaceAscii).reverse with
  | '-' :: rest => (unsigned16 rest).map fun n => -(n : Int)
  | '+' :: rest => (unsigned16 rest).map Int.ofNat
  | rest => (unsigned16 rest).map Int.ofNat

/-- `s.strip(chars)`. -/
def stripChars (chars s : Str) : Str :=
  ((s.dropWhile chars.contains).reverse.dropWhile chars.contains).reverse

/-- `uuid.UUID(s)`, by its `int`; none for a `ValueError`. -/
def readUuid (s : Str) : Option Nat :=
  let h := replace "uuid:".toList [] (replace "urn:".toList [] s)
  let h := replace ['-'] [] (stripChars ['{', '}'] h)
  if h.length ≠ 32 then none
  else (int16 h).bind fun n => if 0 ≤ n ∧ n < 2 ^ 128 then some n.toNat else none

/-- `str` of the `uuid.UUID` with this `int`. -/
def uuidText (n : Nat) : Str :=
  let h := hex 32 n
  h.take 8 ++ '-' :: (slice h 8 12 ++ '-' :: (slice h 12 16 ++ '-' :: (slice h 16 20 ++ '-' :: h.drop 20)))

/-! ## Writing and reading -/

@[simp] theorem hex_length (width n : Nat) : (hex width n).length = width := by simp [hex]

theorem hex_succ (width n : Nat) : hex (width + 1) n = hexDigit (n / 16 ^ width % 16) :: hex width n := by
  simp [hex, List.range_succ]

theorem hexDigitValue_hexDigit {d : Nat} (h : d < 16) : hexDigitValue (hexDigit d) = some d := by
  have hall : ∀ d < 16, hexDigitValue (hexDigit d) = some d := by decide
  exact hall d h

/-- `int` takes a lower-case digit as it stands. -/
theorem isLowerHex_plain {c : Char} (h : isLowerHex c = true) : asciiDigit c = c ∧ isSpaceAscii c = false := by
  have hrange : (48 ≤ c.toNat ∧ c.toNat ≤ 57) ∨ (97 ≤ c.toNat ∧ c.toNat ≤ 102) := by
    simpa [isLowerHex, Char.isDigit, Char.le_def, UInt32.le_iff_toNat_le] using h
  have hne : ∀ d : Char, ¬((48 ≤ d.toNat ∧ d.toNat ≤ 57) ∨ (97 ≤ d.toNat ∧ d.toNat ≤ 102)) → c ≠ d := by
    rintro d hd rfl
    exact hd hrange
  refine ⟨if_pos (by omega), ?_⟩
  rw [isSpaceAscii, Bool.eq_false_iff, Ne, List.contains_iff_mem]
  simp only [List.mem_cons, List.not_mem_nil, or_false, not_or]
  exact ⟨hne _ (by decide), hne _ (by decide), hne _ (by decide), hne _ (by decide), hne _ (by decide), hne _ (by decide)⟩

theorem not_mem_hex {width n : Nat} {c : Char} (h : isLowerHex c = false) : c ∉ hex width n := fun hmem =>
  Bool.false_ne_true (h.symm.trans (isLowerHex_of_mem_hex hmem))

theorem readDigits_hex (width : Nat) : ∀ (digit : Bool) (m n : Nat), (digit = true ∨ 0 < width) →
    readDigits digit m (hex width n) = some (m * 16 ^ width + n % 16 ^ width) := by
  induction width with
  | zero =>
    intro digit m n h
    have hdigit : digit = true := h.resolve_right (lt_irrefl 0)
    simp [hex, readDigits, hdigit, Nat.mod_one]
  | succ width ih =>
    intro digit m n _
    have hunder : hexDigit (n / 16 ^ width % 16) ≠ '_' := by
      intro heq
      have hmem : '_' ∈ hex (width + 1) n := by
        rw [hex_succ, heq]
        exact List.mem_cons_self
      exact not_mem_hex (by decide) hmem
    rw [hex_succ, readDigits, if_neg hunder, hexDigitValue_hexDigit (Nat.mod_lt _ (by decide)),
      Option.bind_some, ih _ _ _ (.inl rfl), Nat.mod_pow_succ]
    congr 1
    ring

/-- What the scans of `int` pass over in a text of lower-case digits: nothing. -/
theorem int16_hex {width n : Nat} (hwidth : 0 < width) : int16 (hex width n) = some ((n % 16 ^ width : Nat) : Int) := by
  have hplain : ∀ c ∈ hex width n, asciiDigit c = c ∧ isSpaceAscii c = false := fun c hc =>
    isLowerHex_plain (isLowerHex_of_mem_hex hc)
  have hmap : (hex width n).map asciiDigit = hex width n :=
    (List.map_congr_left fun c hc => (hplain c hc).1).trans (List.map_id _)
  have hdrop : ∀ s : Str, (∀ c ∈ s, isSpaceAscii c = false) → s.dropWhile isSpaceAscii = s := fun s hs =>
    List.dropWhile_eq_self_iff.mpr fun hlen => by simp [hs _ (List.getElem_mem hlen)]
  have hstripped : (((hex width n).map asciiDigit).dropWhile isSpaceAscii).reverse.dropWhile isSpaceAscii =
      (hex width n).reverse := by
    rw [hmap, hdrop _ fun c hc => (hplain c hc).2]
    exact hdrop _ fun c hc => (hplain c (List.mem_reverse.mp hc)).2
  have hunsigned : unsigned16 (hex width n) = some (n % 16 ^ width) := by
    rw [unsigned16, if_neg, readDigits_hex width false 0 n (.inr hwidth), Nat.zero_mul, Nat.zero_add]
    rintro ⟨-, hx | hx⟩
    · exact not_mem_hex (by decide) (List.mem_of_getElem? hx)
    · exact not_mem_hex (by decide) (List.mem_of_getElem? hx)
  rw [int16, hstripped, List.reverse_reverse]
  split
  · rename_i rest heq
    exact absurd (heq ▸ List.mem_cons_self) (not_mem_hex (by decide : isLowerHex '-' = false))
  · rename_i rest heq
    exact absurd (heq ▸ List.mem_cons_self) (not_mem_hex (by decide : isLowerHex '+' = false))
  · rw [hunsigned]
    rfl

theorem hex_pieces (h : Str) :
    h.take 8 ++ (slice h 8 12 ++ (slice h 12 16 ++ (slice h 16 20 ++ h.drop 20))) = h := by
  have hcut : ∀ i j, i ≤ j → slice h i j ++ h.drop j = h.drop i := by
    intro i j hij
    rw [slice, List.drop_take]
    conv_rhs => rw [← List.take_append_drop (j - i) (h.drop i), List.drop_drop, Nat.add_sub_cancel' hij]
  rw [hcut 16 20 (by decide), hcut 12 16 (by decide), hcut 8 12 (by decide), List.take_append_drop]

theorem mem_uuidText {n : Nat} {c : Char} (h : c ∈ uuidText n) : c = '-' ∨ c ∈ hex 32 n := by
  have hslice : ∀ i j, slice (hex 32 n) i j ⊆ hex 32 n := fun i j => fun c hc =>
    List.mem_of_mem_take (List.mem_of_mem_drop hc)
  simp only [uuidText, List.mem_append, List.mem_cons] at h
  rcases h with h | h | h | h | h | h | h | h | h
  · exact .inr (List.mem_of_mem_take h)
  · exact .inl h
  · exact .inr (hslice _ _ h)
  · exact .inl h
  · exact .inr (hslice _ _ h)
  · exact .inl h
  · exact .inr (hslice _ _ h)
  · exact .inl h
  · exact .inr (List.mem_of_mem_drop h)

theorem not_mem_uuidText {n : Nat} {c : Char} (h : isLowerHex c = false) (hdash : c ≠ '-') : c ∉ uuidText n := by
  intro hmem
  rcases mem_uuidText hmem with heq | hmem
  · exact hdash heq
  · exact not_mem_hex h hmem

@[simp] theorem uuidText_length (n : Nat) : (uuidText n).length = 36 := by
  simp [uuidText, slice]

theorem stripChars_of_not_mem {chars s : Str} (h : ∀ c ∈ chars, c ∉ s) : stripChars chars s = s := by
  have hdrop : ∀ t : Str, t ⊆ s → t.dropWhile chars.contains = t := fun t ht =>
    List.dropWhile_eq_self_iff.mpr fun hlen => by
      rw [List.contains_iff_mem]
      exact fun hmem => h _ hmem (ht (List.getElem_mem hlen))
  rw [stripChars, hdrop s fun _ hc => hc, hdrop _ fun _ hc => List.mem_reverse.mp hc, List.reverse_reverse]

theorem filter_uuidText (n : Nat) : (uuidText n).flatMap (fun c => if c == '-' then [] else [c]) = hex 32 n := by
  have hkeep : ∀ s : Str, s ⊆ hex 32 n → s.flatMap (fun c => if c == '-' then [] else [c]) = s := by
    intro s hs
    refine (List.flatMap_congr fun c hc => ?_).trans (List.flatMap_pure_eq_map id s |>.trans (List.map_id s))
    rw [if_neg]
    · rfl
    · intro heq
      exact not_mem_hex (by decide) (eq_of_beq heq ▸ hs hc)
  have hslice : ∀ i j, slice (hex 32 n) i j ⊆ hex 32 n := fun i j => fun c hc =>
    List.mem_of_mem_take (List.mem_of_mem_drop hc)
  simp only [uuidText, List.flatMap_append, List.flatMap_cons, BEq.rfl, if_true, List.nil_append]
  rw [hkeep _ fun _ hc => List.mem_of_mem_take hc, hkeep _ (hslice 8 12), hkeep _ (hslice 12 16),
    hkeep _ (hslice 16 20), hkeep _ fun _ hc => List.mem_of_mem_drop hc, hex_pieces]

/-- An id is read back from its text. -/
theorem readUuid_uuidText {n : Nat} (h : n < 2 ^ 128) : readUuid (uuidText n) = some n := by
  have hu : 'u' ∉ uuidText n := not_mem_uuidText (by decide) (by decide)
  have hbraces : stripChars ['{', '}'] (uuidText n) = uuidText n :=
    stripChars_of_not_mem (List.forall_mem_cons.mpr ⟨not_mem_uuidText (by decide) (by decide),
      List.forall_mem_singleton.mpr (not_mem_uuidText (by decide) (by decide))⟩)
  have hurn : replace "urn:".toList [] (uuidText n) = uuidText n := replace_of_not_mem _ _ hu
  have huuid : replace "uuid:".toList [] (uuidText n) = uuidText n := replace_of_not_mem _ _ hu
  have hsmall : n % 16 ^ 32 = n := Nat.mod_eq_of_lt (by omega)
  rw [readUuid, hurn, huuid, hbraces, replace_singleton, filter_uuidText, if_neg (by simp),
    int16_hex (by decide), hsmall, Option.bind_some, if_pos ⟨by omega, by exact_mod_cast h⟩, Int.toNat_natCast]

example : readUuid "{12345678-1234-5678-1234-567812345678}".toList = some 0x12345678123456781234567812345678 := by
  decide +kernel

end CiteVyn.Text
