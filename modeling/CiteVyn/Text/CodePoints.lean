import CiteVyn.Text.Python

/-! # Texts with surrogates

A Python `str` is a list of code points, and a surrogate is one of them: a text that comes
from bytes decoded with `surrogatepass`, or from a `\u` escape, can hold one, and then it
has no strict UTF-8. `Str` is the text without. -/
namespace CiteVyn.Text

abbrev CodePoint := Fin 0x110000

abbrev PyStr := List CodePoint

def isSurrogate (c : CodePoint) : Bool := 0xD800 ≤ c.val && c.val < 0xE000

/-- A character among the code points. -/
def codeOf (c : Char) : CodePoint := ⟨c.toNat, by
  rcases c.valid with h | h
  · exact Nat.lt_trans h (by decide)
  · exact h.2⟩

/-- A text among the texts of code points. -/
def codes (s : Str) : PyStr := s.map codeOf

/-- The character, unless the code point is a surrogate. -/
def CodePoint.char? (c : CodePoint) : Option Char :=
  if h : c.val.isValidChar then some (Char.ofNatAux c.val h) else none

theorem isSurrogate_codeOf (c : Char) : isSurrogate (codeOf c) = false := by
  unfold isSurrogate codeOf
  rcases c.valid with h | h
  · have : ¬ 0xD800 ≤ c.toNat := Nat.not_le.mpr h
    simp [this]
  · have : ¬ c.toNat < 0xE000 := Nat.not_lt.mpr h.1
    simp [this]

/-- `str.strip` leaves nothing: there is only white space, and a surrogate is none. -/
def PyStr.isBlank (s : PyStr) : Bool := s.all fun c => c.char?.any isSpace

/-! ## Bytes to code points -/

def codePoint? (n : Nat) : Option CodePoint := if h : n < 0x110000 then some ⟨n, h⟩ else none

/-- One code point and what is decoded after it. -/
def prepend (n : Nat) (rest : Option PyStr) : Option PyStr :=
  (codePoint? n).bind fun c => rest.map (c :: ·)

/-- A continuation byte. -/
def isTail (b : UInt8) : Bool := 0x80 ≤ b && b < 0xC0

def tailBits (b : UInt8) : Nat := b.toNat - 0x80

/-- `bytes.decode("utf-8", "surrogatepass")`. -/
def decodeUtf8 : List UInt8 → Option PyStr
  | [] => some []
  | a :: rest =>
    if a < 0x80 then prepend a.toNat (decodeUtf8 rest)
    else
      match rest with
      | [] => none
      | b :: rest =>
        if 0xC2 ≤ a && a < 0xE0 && isTail b then
          prepend ((a.toNat - 0xC0) * 0x40 + tailBits b) (decodeUtf8 rest)
        else
          match rest with
          | [] => none
          | c :: rest =>
            if 0xE0 ≤ a && a < 0xF0 && isTail b && isTail c && !(a == 0xE0 && b < 0xA0) then
              prepend ((a.toNat - 0xE0) * 0x1000 + tailBits b * 0x40 + tailBits c) (decodeUtf8 rest)
            else
              match rest with
              | [] => none
              | d :: rest =>
                if 0xF0 ≤ a && a < 0xF5 && isTail b && isTail c && isTail d && !(a == 0xF0 && b < 0x90) then
                  prepend ((a.toNat - 0xF0) * 0x40000 + tailBits b * 0x1000 + tailBits c * 0x40 + tailBits d)
                    (decodeUtf8 rest)
                else none

/-- The 16-bit units of a text, of which an odd byte is no part. -/
def units16 (big : Bool) : List UInt8 → Option (List Nat)
  | [] => some []
  | [_] => none
  | a :: b :: rest =>
    (units16 big rest).map fun us => (if big then a.toNat * 0x100 + b.toNat else b.toNat * 0x100 + a.toNat) :: us

def isHigh (n : Nat) : Bool := 0xD800 ≤ n && n < 0xDC00

def isLow (n : Nat) : Bool := 0xDC00 ≤ n && n < 0xE000

/-- What a pair of surrogates stands for. -/
def joined (high low : Nat) : Nat := 0x10000 + (high - 0xD800) * 0x400 + (low - 0xDC00)

/-- Pairs are joined, and a surrogate of its own passes. -/
def decodeUnits : List Nat → Option PyStr
  | [] => some []
  | [n] => prepend n (some [])
  | m :: n :: rest =>
    if isHigh m && isLow n then prepend (joined m n) (decodeUnits rest) else prepend m (decodeUnits (n :: rest))

/-- `bytes.decode("utf-16-be", "surrogatepass")`, or `"utf-16-le"`. -/
def decodeUtf16 (big : Bool) (bs : List UInt8) : Option PyStr := (units16 big bs).bind decodeUnits

/-- `bytes.decode("utf-32-be", "surrogatepass")`, or `"utf-32-le"`. -/
def decodeUtf32 (big : Bool) : List UInt8 → Option PyStr
  | [] => some []
  | a :: b :: c :: d :: rest =>
    let bytes := if big then [a, b, c, d] else [d, c, b, a]
    prepend (bytes.foldl (fun n b => n * 0x100 + b.toNat) 0) (decodeUtf32 big rest)
  | _ => none

/-! ## Code points to bytes -/

/-- The bytes of one code point. -/
def utf8Bytes (c : CodePoint) : List UInt8 :=
  let n := c.val
  if n < 0x80 then [.ofNat n]
  else if n < 0x800 then [.ofNat (0xC0 + n / 0x40), .ofNat (0x80 + n % 0x40)]
  else if n < 0x10000 then [.ofNat (0xE0 + n / 0x1000), .ofNat (0x80 + n / 0x40 % 0x40), .ofNat (0x80 + n % 0x40)]
  else
    [.ofNat (0xF0 + n / 0x40000), .ofNat (0x80 + n / 0x1000 % 0x40), .ofNat (0x80 + n / 0x40 % 0x40),
      .ofNat (0x80 + n % 0x40)]

/-- `str.encode("utf-8")`: a surrogate is a `UnicodeEncodeError`. -/
def encodeUtf8 (s : PyStr) : Option (List UInt8) := if s.any isSurrogate then none else some (s.flatMap utf8Bytes)

theorem encodeUtf8_isSome (s : PyStr) : (encodeUtf8 s).isSome ↔ ∀ c ∈ s, isSurrogate c = false := by
  unfold encodeUtf8
  split
  · rename_i h
    obtain ⟨c, hc, hs⟩ := List.any_eq_true.mp h
    refine ⟨fun h => by simp at h, fun h => ?_⟩
    rw [h c hc] at hs
    cases hs
  · rename_i h
    refine ⟨fun _ c hc => ?_, fun _ => rfl⟩
    by_contra hs
    exact h (List.any_eq_true.mpr ⟨c, hc, by simpa using hs⟩)

/-- A text has no surrogate. -/
def Clean (s : PyStr) : Prop := ∀ c ∈ s, isSurrogate c = false

instance (s : PyStr) : Decidable (Clean s) := inferInstanceAs (Decidable (∀ c ∈ s, _))

@[simp] theorem clean_nil : Clean [] := fun _ h => by cases h

@[simp] theorem clean_cons (c : CodePoint) (s : PyStr) : Clean (c :: s) ↔ isSurrogate c = false ∧ Clean s :=
  List.forall_mem_cons

@[simp] theorem clean_append (s t : PyStr) : Clean (s ++ t) ↔ Clean s ∧ Clean t := List.forall_mem_append

@[simp] theorem clean_codes (s : Str) : Clean (codes s) := by
  intro c hc
  obtain ⟨d, -, rfl⟩ := List.mem_map.mp hc
  exact isSurrogate_codeOf d

end CiteVyn.Text
