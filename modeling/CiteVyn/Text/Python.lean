import Mathlib.Data.List.Basic
import Mathlib.Data.List.DropRight
import Mathlib.Data.List.Infix
import Mathlib.Tactic.Common

/-! # Python's `str`, as far as the program reads it

A `str` is the list of its characters. The white space and the decimal
digits are Python's (`str.isspace`, which is also `\s`, and category `Nd`,
which is `\d` and what `int` accepts), from Unicode 16, the version of the
interpreter the images are built on. Case is exact on ASCII: every use in
the program compares the result with ASCII text, and the only other
characters whose lower case holds an ASCII letter are spelled out. -/
namespace CiteVyn.Text

abbrev Str := List Char

instance lawfulBEq_str : LawfulBEq Str := inferInstance

/-! ## White space -/

/-- `str.isspace`, and `\s`. -/
def isSpace (c : Char) : Bool :=
  let n := c.toNat
  (9 ≤ n && n ≤ 13) || (28 ≤ n && n ≤ 32) || n == 0x85 || n == 0xA0 || n == 0x1680 ||
    (0x2000 ≤ n && n ≤ 0x200A) || n == 0x2028 || n == 0x2029 || n == 0x202F || n == 0x205F ||
    n == 0x3000

/-- `[ \t]`. -/
def isBlank (c : Char) : Bool := c == ' ' || c == '\t'

def lstrip (s : Str) : Str := s.dropWhile isSpace

def rstrip (s : Str) : Str := (s.reverse.dropWhile isSpace).reverse

/-- `str.strip()`. -/
def strip (s : Str) : Str := rstrip (lstrip s)

/-! ## Digits -/

/-- The zeros of the runs of ten decimal digits. -/
def decimalZeros : List Nat :=
  [0x30, 0x660, 0x6F0, 0x7C0, 0x966, 0x9E6, 0xA66, 0xAE6, 0xB66, 0xBE6, 0xC66, 0xCE6, 0xD66,
    0xDE6, 0xE50, 0xED0, 0xF20, 0x1040, 0x1090, 0x17E0, 0x1810, 0x1946, 0x19D0, 0x1A80, 0x1A90,
    0x1B50, 0x1BB0, 0x1C40, 0x1C50, 0xA620, 0xA8D0, 0xA900, 0xA9D0, 0xA9F0, 0xAA50, 0xABF0,
    0xFF10, 0x104A0, 0x10D30, 0x10D40, 0x11066, 0x110F0, 0x11136, 0x111D0, 0x112F0, 0x11450,
    0x114D0, 0x11650, 0x116C0, 0x116D0, 0x116DA, 0x11730, 0x118E0, 0x11950, 0x11BF0, 0x11C50,
    0x11D50, 0x11DA0, 0x11F50, 0x16130, 0x16A60, 0x16AC0, 0x16B50, 0x16D70, 0x1CCF0, 0x1D7CE,
    0x1D7D8, 0x1D7E2, 0x1D7EC, 0x1D7F6, 0x1E140, 0x1E2F0, 0x1E4F0, 0x1E5F1, 0x1E950, 0x1FBF0]

/-- The decimal digit value of a character. -/
def decimalValue (c : Char) : Option Nat :=
  (decimalZeros.find? fun z => z ≤ c.toNat && c.toNat < z + 10).map (c.toNat - ·)

/-- `\d`. -/
def isDecimal (c : Char) : Bool := (decimalValue c).isSome

/-- The characters with a digit value that are no decimal digits. -/
def otherDigits : List (Nat × Nat) :=
  [(0xB2, 0xB3), (0xB9, 0xB9), (0x1369, 0x1371), (0x19DA, 0x19DA), (0x2070, 0x2070),
    (0x2074, 0x2079), (0x2080, 0x2089), (0x2460, 0x2468), (0x2474, 0x247C), (0x2488, 0x2490),
    (0x24EA, 0x24EA), (0x24F5, 0x24FD), (0x24FF, 0x24FF), (0x2776, 0x277E), (0x2780, 0x2788),
    (0x278A, 0x2792), (0x10A40, 0x10A43), (0x10E60, 0x10E68), (0x11052, 0x1105A),
    (0x1F100, 0x1F10A)]

/-- `str.isdigit`. -/
def isDigitText (s : Str) : Bool :=
  !s.isEmpty && s.all fun c =>
    isDecimal c || otherDigits.any fun r => r.1 ≤ c.toNat && c.toNat ≤ r.2

/-- `[0-9]`. -/
def isAsciiDigit (c : Char) : Bool := '0' ≤ c && c ≤ '9'

/-- `sys.get_int_max_str_digits()`, which the program leaves at its default. -/
def intMaxStrDigits : Nat := 4300

inductive IntError where
  /-- `ValueError`: not a decimal literal. -/
  | invalidLiteral
  /-- `ValueError`: more digits than `intMaxStrDigits`. -/
  | tooManyDigits
  deriving Repr, DecidableEq

/-- The value of a run of digits, most significant first. -/
def digitsValue (ds : Str) : Nat :=
  ds.foldl (fun n c => 10 * n + (decimalValue c).getD 0) 0

/-- `int(s)` on a text of decimal digits. -/
def int (s : Str) : Except IntError Nat :=
  if s.isEmpty || !s.all isDecimal then .error .invalidLiteral
  else if intMaxStrDigits < s.length then .error .tooManyDigits
  else .ok (digitsValue s)

/-! ## Case -/

/-- `c.lower()`: `K` (the Kelvin sign) and `İ` are the only characters outside
ASCII whose lower case holds an ASCII letter. -/
def lowerChar (c : Char) : Str :=
  if 'A' ≤ c && c ≤ 'Z' then [Char.ofNat (c.toNat + 32)]
  else if c == '\u212A' then ['k']
  else if c == '\u0130' then ['i', '\u0307']
  else [c]

def lower (s : Str) : Str := s.flatMap lowerChar

def upperAscii (c : Char) : Char :=
  if 'a' ≤ c && c ≤ 'z' then Char.ofNat (c.toNat - 32) else c

def upper (s : Str) : Str := s.map upperAscii

def isUpperAscii (c : Char) : Bool := 'A' ≤ c && c ≤ 'Z'

def isLowerAscii (c : Char) : Bool := 'a' ≤ c && c ≤ 'z'

/-- A literal lower-case ASCII letter of a pattern under `re.IGNORECASE`: its
two cases, and `İ`, `ı`, `ſ` and `K`, which fold to `i`, `s` and `k`. -/
def eqIgnoreCase (p c : Char) : Bool :=
  c == p || upperAscii p == c || (p == 'i' && (c == '\u0130' || c == '\u0131')) ||
    (p == 's' && c == '\u017F') || (p == 'k' && c == '\u212A')

/-- A literal of a pattern under `re.IGNORECASE`, at the start of a text. -/
def literal : Str → Str → Bool
  | [], _ => true
  | _ :: _, [] => false
  | p :: ps, c :: cs => eqIgnoreCase p c && literal ps cs

/-- `[A-Za-z]` under `re.IGNORECASE`. -/
def isLetterIgnoreCase (c : Char) : Bool :=
  isUpperAscii c || isLowerAscii c || c == '\u0130' || c == '\u0131' || c == '\u017F' ||
    c == '\u212A'

/-- `sub in s`. -/
def contains (needle s : Str) : Bool := s.tails.any needle.isPrefixOf

/-- Texts in the order of their code points. -/
def textLe : Str → Str → Bool
  | [], _ => true
  | _ :: _, [] => false
  | c :: s, d :: t => c.toNat < d.toNat || (c == d && textLe s t)

/-- `s.rpartition(sep)[2]`: what comes after the last `sep`, or all of it. -/
def afterLast (sep s : Str) : Str :=
  (s.tails.reverse.find? sep.isPrefixOf).elim s fun t => t.drop sep.length

/-! ## Words

Python's `\w` is `str.isalnum` or the underscore. `isalnum` follows the
interpreter's Unicode database, which is a parameter: no more is asked of it
than that the letters that fold to ASCII ones are alphanumeric. -/

/-- The part of the interpreter's Unicode database left open. -/
structure Unicode where
  isAlnum : Char → Bool

/-- The database cut down to ASCII: exact on ASCII text. -/
def Unicode.ascii : Unicode where
  isAlnum c := isUpperAscii c || isLowerAscii c || isAsciiDigit c

/-- `\w`. -/
def Unicode.isWord (u : Unicode) (c : Char) : Bool := u.isAlnum c || c == '_'

/-- `\b` between what is before (nearest first) and what is after. -/
def Unicode.wordBoundary (u : Unicode) (pre rest : Str) : Bool :=
  (pre.head?.any u.isWord) != (rest.head?.any u.isWord)

/-! ## Facts the scanners use -/

theorem drop_takeWhile_length (q : Char → Bool) (s : Str) :
    s.drop (s.takeWhile q).length = s.dropWhile q := by
  have : (s.takeWhile q ++ s.dropWhile q).drop (s.takeWhile q).length = s.dropWhile q :=
    List.drop_left
  rwa [List.takeWhile_append_dropWhile] at this

theorem rstrip_append_cons {c : Char} (hc : isSpace c = false) (p s : Str) :
    rstrip (p ++ c :: s) = p ++ c :: rstrip s := by
  unfold rstrip
  rw [List.reverse_append, List.reverse_cons, List.append_assoc, List.dropWhile_append]
  split
  · rename_i h
    rw [List.isEmpty_iff.mp h, List.singleton_append, List.dropWhile_cons_of_neg (by simp [hc])]
    simp
  · simp

theorem lstrip_lstrip (s : Str) : lstrip (lstrip s) = lstrip s := List.dropWhile_idempotent _ _

/-- The parts of a text are without the separator, and of what the text has. -/
theorem mem_splitOn {sep : Char} : ∀ {text part : Str}, part ∈ text.splitOn sep → sep ∉ part ∧ part ⊆ text := by
  intro text
  induction text with
  | nil =>
    intro part h
    rw [List.splitOn_nil, List.mem_singleton] at h
    rw [h]
    exact ⟨List.not_mem_nil, List.Subset.refl _⟩
  | cons c text ih =>
    intro part h
    rw [List.splitOn_cons_eq_if_modifyHead] at h
    split at h
    · rcases List.mem_cons.mp h with rfl | h
      · exact ⟨List.not_mem_nil, List.nil_subset _⟩
      · exact ⟨(ih h).1, List.subset_cons_of_subset c (ih h).2⟩
    · rename_i hc
      obtain ⟨first, rest, hsplit⟩ := List.exists_cons_of_ne_nil (List.splitOn_ne_nil sep text)
      rw [hsplit] at ih h
      rw [List.modifyHead_cons, List.mem_cons] at h
      rcases h with rfl | h
      · have hfirst := ih (List.mem_cons_self (a := first))
        rw [List.mem_cons, not_or]
        exact ⟨⟨fun he => hc (by rw [he, BEq.rfl]), hfirst.1⟩, List.cons_subset_cons c hfirst.2⟩
      · have hrest := ih (List.mem_cons_of_mem first h)
        exact ⟨hrest.1, List.subset_cons_of_subset c hrest.2⟩

theorem rstrip_rstrip (s : Str) : rstrip (rstrip s) = rstrip s := by
  rw [rstrip, rstrip, List.reverse_reverse, List.dropWhile_idempotent]

/-- Text without a blank at its start keeps none there. -/
theorem lstrip_rstrip {s : Str} (h : lstrip s = s) : lstrip (rstrip s) = rstrip s := by
  cases s with
  | nil => rfl
  | cons c s =>
    have hc : isSpace c = false := by
      by_contra hspace
      rw [Bool.not_eq_false] at hspace
      have hlength := congrArg List.length h
      rw [lstrip, List.dropWhile_cons_of_pos hspace] at hlength
      have := (List.dropWhile_sublist (l := s) isSpace).length_le
      rw [List.length_cons] at hlength
      omega
    have := rstrip_append_cons hc [] s
    rw [List.nil_append] at this
    rw [this, lstrip, List.nil_append, List.dropWhile_cons_of_neg]
    rw [hc]
    exact Bool.false_ne_true

/-- `strip` has nothing left to do once it is done. -/
theorem strip_strip (s : Str) : strip (strip s) = strip s := by
  rw [strip, strip, lstrip_rstrip (lstrip_lstrip s), rstrip_rstrip]

/-- A map that keeps blanks and makes none. -/
theorem strip_map {f : Char → Char} (h : ∀ c, isSpace (f c) = isSpace c) (s : Str) :
    strip (s.map f) = (strip s).map f := by
  have hf : isSpace ∘ f = isSpace := funext h
  rw [strip, lstrip, rstrip, List.dropWhile_map, hf, ← List.map_reverse, List.dropWhile_map, hf, ← List.map_reverse]
  rfl

theorem toLower_toNat (c : Char) :
    c.toLower.toNat = if 65 ≤ c.toNat ∧ c.toNat ≤ 90 then c.toNat + 32 else c.toNat := by
  unfold Char.toLower
  split
  · rename_i h
    have hrange : 65 ≤ c.toNat ∧ c.toNat ≤ 90 := by simpa [UInt32.le_iff_toNat_le] using h
    rw [if_pos hrange]
    change (c.val + 32).toNat = c.toNat + 32
    rw [UInt32.toNat_add]
    change (c.toNat + 32) % 2 ^ 32 = c.toNat + 32
    omega
  · rename_i h
    rw [if_neg (by simpa [UInt32.le_iff_toNat_le] using h)]

theorem isSpace_toLower (c : Char) : isSpace c.toLower = isSpace c := by
  simp only [isSpace, toLower_toNat]
  split
  · simp; grind
  · rfl

theorem toLower_toLower (c : Char) : c.toLower.toLower = c.toLower := by
  apply Char.toNat_inj.mp
  rw [toLower_toNat c.toLower, toLower_toNat c]
  split_ifs <;> omega

theorem rstrip_isPrefix (s : Str) : rstrip s <+: s := by
  unfold rstrip
  rw [← List.reverse_suffix, List.reverse_reverse]
  exact List.dropWhile_suffix _

theorem lstrip_append (p s : Str) :
    lstrip (p ++ s) = if (lstrip p).isEmpty then lstrip s else lstrip p ++ s := by
  unfold lstrip
  exact List.dropWhile_append

theorem isLowerAscii_toNat {c : Char} (h : isLowerAscii c = true) : 97 ≤ c.toNat ∧ c.toNat ≤ 122 := by
  simp only [isLowerAscii, Bool.and_eq_true, decide_eq_true_eq, Char.le_def] at h
  exact h

theorem upperAscii_toNat {c : Char} (h : isLowerAscii c = true) : (upperAscii c).toNat = c.toNat - 32 := by
  have hn := isLowerAscii_toNat h
  have hv : (c.toNat - 32).isValidChar := .inl (by omega)
  have h' : (decide ('a' ≤ c) && decide (c ≤ 'z')) = true := h
  rw [upperAscii, if_pos h', Char.ofNat, dif_pos hv]
  unfold Char.ofNatAux Char.toNat
  simp

theorem isUpperAscii_upperAscii {c : Char} (h : isLowerAscii c = true) :
    isUpperAscii (upperAscii c) = true := by
  have hn := isLowerAscii_toNat h
  have hu := upperAscii_toNat h
  simp only [isUpperAscii, Bool.and_eq_true, decide_eq_true_eq, Char.le_def]
  change 65 ≤ (upperAscii c).toNat ∧ (upperAscii c).toNat ≤ 90
  omega

theorem eqIgnoreCase_letter {p c : Char} (hp : isLowerAscii p = true) (h : eqIgnoreCase p c = true) :
    isLetterIgnoreCase c = true := by
  have hup := isUpperAscii_upperAscii hp
  simp only [eqIgnoreCase, Bool.or_eq_true, Bool.and_eq_true, beq_iff_eq] at h
  rcases h with (((rfl | rfl) | ⟨_, rfl | rfl⟩) | ⟨_, rfl⟩) | ⟨_, rfl⟩
  · simp [isLetterIgnoreCase, hp]
  · simp [isLetterIgnoreCase, hup]
  all_goals decide

theorem literal_length : ∀ {w s : Str}, literal w s = true → w.length ≤ s.length
  | [], _, _ => Nat.zero_le _
  | _ :: _, [], h => by cases h
  | _ :: _, _ :: _, h => by
    simp only [literal, Bool.and_eq_true] at h
    simpa using literal_length h.2

theorem literal_all : ∀ {w s : Str}, w.all isLowerAscii = true → literal w s = true →
    (s.take w.length).all isLetterIgnoreCase = true
  | [], _, _, _ => rfl
  | _ :: _, [], _, h => by cases h
  | _ :: _, _ :: _, hw, h => by
    simp only [literal, List.all_cons, Bool.and_eq_true] at h hw
    simp [eqIgnoreCase_letter hw.1 h.1, literal_all hw.2 h.2]

theorem all_take_add {p : Char → Bool} {s : Str} {n m : Nat} (h : (s.take n).all p = true)
    (h' : ((s.drop n).take m).all p = true) : (s.take (n + m)).all p = true := by
  rw [List.take_add, List.all_append, h, h', Bool.and_self]

theorem take_takeWhile_all (q : Char → Bool) (s : Str) :
    (s.take (s.takeWhile q).length).all q = true := by
  rw [← List.prefix_iff_eq_take.mp (List.takeWhile_prefix q)]
  exact List.all_takeWhile

theorem tails_append (s t : Str) : ∃ longer, (s ++ t).tails = longer ++ t.tails := by
  induction s with
  | nil => exact ⟨[], rfl⟩
  | cons c s ih =>
    obtain ⟨longer, hlonger⟩ := ih
    exact ⟨(c :: (s ++ t)) :: longer, by rw [List.cons_append, List.tails_cons, hlonger, List.cons_append]⟩

/-- What comes after a separator whose first character does not come again. -/
theorem afterLast_append {c : Char} {w : Str} (s : Str) {t : Str} (h : c ∉ w ++ t) :
    afterLast (c :: w) (s ++ (c :: w) ++ t) = t := by
  obtain ⟨longer, hlonger⟩ := tails_append s (c :: (w ++ t))
  have hnone : (w ++ t).tails.reverse.find? (c :: w).isPrefixOf = none := by
    refine List.find?_eq_none.mpr fun x hx hstarts => ?_
    have hx := (List.mem_tails _ _).mp (List.mem_reverse.mp hx)
    exact h (hx.subset ((List.isPrefixOf_iff_prefix.mp hstarts).subset List.mem_cons_self))
  have hfind : (s ++ (c :: w) ++ t).tails.reverse.find? (c :: w).isPrefixOf = some (c :: (w ++ t)) := by
    rw [List.append_assoc, List.cons_append, hlonger, List.tails_cons, List.reverse_append, List.reverse_cons,
      List.append_assoc, List.find?_append, hnone, Option.none_or, List.singleton_append, List.find?_cons_of_pos]
    exact List.isPrefixOf_iff_prefix.mpr (List.cons_prefix_cons.mpr ⟨rfl, List.prefix_append w t⟩)
  rw [afterLast, hfind]
  simp

theorem contains_iff {needle s : Str} : contains needle s = true ↔ needle <:+: s := by
  rw [contains, List.any_eq_true, List.infix_iff_prefix_suffix]
  refine exists_congr fun t => ?_
  rw [List.mem_tails, List.isPrefixOf_iff_prefix, and_comm]

theorem takeWhile_append_of_all {q : Char → Bool} {l r : Str} {c : Char}
    (hl : ∀ c ∈ l, q c = true) (hc : q c = false) : (l ++ c :: r).takeWhile q = l := by
  rw [List.takeWhile_append_of_pos hl, List.takeWhile_cons_of_neg (by simp [hc]), List.append_nil]

/-- What `strip` takes off is white space. -/
theorem strip_cut (text : Str) : ∃ a b, text = a ++ strip text ++ b ∧ (∀ c ∈ a, isSpace c = true) ∧ ∀ c ∈ b, isSpace c = true := by
  have left (s : Str) : ∃ a, s = a ++ lstrip s ∧ ∀ c ∈ a, isSpace c = true :=
    ⟨s.takeWhile isSpace, List.takeWhile_append_dropWhile.symm, fun c hc => List.mem_takeWhile_imp hc⟩
  obtain ⟨a, ha, hspace⟩ := left text
  obtain ⟨b, hb, hspace'⟩ := left (lstrip text).reverse
  refine ⟨a, b.reverse, ?_, hspace, fun c hc => hspace' c (List.mem_reverse.mp hc)⟩
  have : lstrip text = strip text ++ b.reverse := by
    have := congrArg List.reverse hb
    rwa [List.reverse_reverse, List.reverse_append] at this
  rw [List.append_assoc, ← this, ← ha]

end CiteVyn.Text
