import CiteVyn.Text.Python

/-! # `base64.urlsafe_b64decode`

The decoder as `binascii.a2b_base64` has it when it is not strict: characters outside the
alphabet are passed over, and it stops at a padding that completes a group. -/
namespace CiteVyn.Text.Base64

/-- The six bits of a character; `-` and `_` are translated to `+` and `/`. -/
def sextet (c : Char) : Option Nat :=
  let n := c.toNat
  if 0x41 ≤ n && n < 0x5B then some (n - 0x41)
  else if 0x61 ≤ n && n < 0x7B then some (n - 0x61 + 26)
  else if 0x30 ≤ n && n < 0x3A then some (n - 0x30 + 52)
  else if c == '+' || c == '-' then some 62
  else if c == '/' || c == '_' then some 63
  else none

/-- The group that is read: how many characters are in, the bits that are left of the last
one, and the paddings since. -/
structure Group where
  filled : Nat
  left : Nat
  pads : Nat
  deriving DecidableEq, Repr

/-- One more character in the group, and the byte that it completes. -/
def Group.push (g : Group) (bits : Nat) : List UInt8 × Group :=
  match g.filled with
  | 0 => ([], ⟨1, bits, 0⟩)
  | 1 => ([.ofNat (g.left * 4 + bits / 16)], ⟨2, bits % 16, 0⟩)
  | 2 => ([.ofNat (g.left * 16 + bits / 4)], ⟨3, bits % 4, 0⟩)
  | _ => ([.ofNat (g.left * 64 + bits)], ⟨0, 0, 0⟩)

/-- `a2b_base64`; none is a `binascii.Error`. -/
def decodeFrom (g : Group) : Str → Option (List UInt8)
  | [] => if g.filled = 0 then some [] else none
  | c :: rest =>
    if c = '=' then
      if 2 ≤ g.filled && 4 ≤ g.filled + g.pads + 1 then some []
      else decodeFrom { g with pads := if 2 ≤ g.filled then g.pads + 1 else g.pads } rest
    else
      match sextet c with
      | none => decodeFrom g rest
      | some bits => (decodeFrom (g.push bits).2 rest).map ((g.push bits).1 ++ ·)

/-- `urlsafe_b64decode` of a text; none is a `ValueError`. -/
def urlsafeB64decode (s : Str) : Option (List UInt8) :=
  if s.all (·.toNat < 128) then decodeFrom ⟨0, 0, 0⟩ s else none

example : urlsafeB64decode "e=3=0===".toList = some [0x7B, 0x7D] := by decide

end CiteVyn.Text.Base64
