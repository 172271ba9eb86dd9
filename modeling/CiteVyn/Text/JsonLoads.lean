import CiteVyn.Text.Json

/-! # `json.loads` as it is by default

The decoder of bytes where nothing is asked of the constants: `NaN` and the infinities are
floats. What it raises is told apart, since not every caller takes every `ValueError`. -/
namespace CiteVyn.Text.JsonLoads
open CiteVyn.Lib.Effects CiteVyn.Text.Json

/-- What stops the decoder. -/
inductive LoadsError where
  | jsonDecodeError
  /-- `UnicodeDecodeError`, and the `ValueError` of an integer with too many digits -/
  | valueError
  | recursionError
  /-- the bound on the calls is used up, which it never is -/
  | fuel
  deriving DecidableEq, Repr

def readString (s : PyStr) : Except LoadsError (PyStr × PyStr) :=
  match scanUnits s with
  | none => .error .jsonDecodeError
  | some (us, rest) => .ok (joinPairs us, rest)

/-- `int` of a literal. -/
def readInt (negative : Bool) (digits : PyStr) : Except LoadsError JsonValue :=
  if maxStrDigits < digits.length then .error .valueError
  else .ok (.int (if negative then -(Json.digitsValue digits : Int) else Json.digitsValue digits))

/-- A number without its sign. -/
def readUnsigned (negative : Bool) (s : PyStr) : Except LoadsError (JsonValue × PyStr) :=
  match scanInteger s with
  | none => .error .jsonDecodeError
  | some (integer, rest) =>
    let (fraction, rest) := scanFraction rest
    let (exponent, rest) := scanExponent rest
    if fraction.isEmpty && exponent.isEmpty then (readInt negative integer).map fun value => (value, rest)
    else .ok (.float ((if negative then [codeOf '-'] else []) ++ integer ++ fraction ++ exponent), rest)

def readNumber : PyStr → Except LoadsError (JsonValue × PyStr)
  | c :: rest => if c = codeOf '-' then readUnsigned true rest else readUnsigned false (c :: rest)
  | [] => .error .jsonDecodeError

/-- The three constants that JSON does not have. -/
def constants : List String := ["NaN", "Infinity", "-Infinity"]

/-- A constant at the start of the text. -/
def readConstant (s : PyStr) : Option (JsonValue × PyStr) :=
  (constants.find? fun w => (codes w.toList).isPrefixOf s).map fun w =>
    (.float (codes w.toList), s.drop w.toList.length)

def readToken (s : PyStr) : Except LoadsError (JsonValue × PyStr) :=
  match scanLiteral s with
  | some result => .ok result
  | none =>
    match readConstant s with
    | some result => .ok result
    | none => readNumber s

def reader : Reader LoadsError where
  string := readString
  token := readToken
  syntaxError := .jsonDecodeError
  recursionError := .recursionError
  fuel := .fuel

/-- `json.loads` of bytes, where `limit` containers may be open. -/
def loads (limit : Nat) (bs : List UInt8) : Except LoadsError JsonValue :=
  match decodeBytes bs with
  | none => .error .valueError
  | some s => reader.decode limit s

/-! ## What it returns -/

theorem readString_length {s text rest : PyStr} (h : readString s = .ok (text, rest)) : rest.length < s.length := by
  unfold readString at h
  split at h
  · cases h
  · rename_i us rest' hunits
    cases h
    exact scanUnits_length hunits

/-- A token of which nothing is built: an integer of it is small. -/
structure IsLeaf (value : JsonValue) : Prop where
  small : value.small
  not_dict : ∀ ms, value ≠ .dict ms
  not_list : ∀ items, value ≠ .list items

theorem isLeaf_float (text : PyStr) : IsLeaf (.float text) where
  small i h := by cases h
  not_dict ms h := by cases h
  not_list items h := by cases h

theorem readInt_spec {negative : Bool} {digits : PyStr} {value : JsonValue} (hdigits : ∀ d ∈ digits, isDigit d)
    (h : readInt negative digits = .ok value) : IsLeaf value := by
  unfold readInt at h
  split at h
  · cases h
  · rename_i hlength
    have hint : intOf negative digits = .ok value := by
      rw [intOf, if_neg hlength]
      cases h
      rfl
    refine ⟨intOf_small hdigits hint, fun ms hms => ?_, fun items hitems => ?_⟩
    · rw [hms] at h
      cases h
    · rw [hitems] at h
      cases h

theorem readUnsigned_spec {negative : Bool} {s rest : PyStr} {value : JsonValue}
    (h : readUnsigned negative s = .ok (value, rest)) : rest.length < s.length ∧ IsLeaf value := by
  unfold readUnsigned at h
  split at h
  · cases h
  · rename_i integer after hinteger
    obtain ⟨hlength, hdigits⟩ := scanInteger_spec hinteger
    have hfraction := scanFraction_length after
    have hexponent := scanExponent_length (scanFraction after).2
    dsimp only at h
    split at h
    · obtain ⟨v, hint, heq⟩ := map_eq_ok h
      cases heq
      exact ⟨by omega, readInt_spec hdigits hint⟩
    · cases h
      exact ⟨by omega, isLeaf_float _⟩

theorem readNumber_spec {s rest : PyStr} {value : JsonValue} (h : readNumber s = .ok (value, rest)) :
    rest.length < s.length ∧ IsLeaf value := by
  unfold readNumber at h
  split at h
  · split at h
    · obtain ⟨hlength, htoken⟩ := readUnsigned_spec h
      exact ⟨hlength.trans (Nat.lt_succ_self _), htoken⟩
    · exact readUnsigned_spec h
  · cases h

theorem readConstant_spec {s rest : PyStr} {value : JsonValue} (h : readConstant s = some (value, rest)) :
    rest.length < s.length ∧ IsLeaf value := by
  obtain ⟨w, hw, heq⟩ := Option.map_eq_some_iff.mp h
  cases heq
  have hstarts : (codes w.toList).isPrefixOf s = true := by simpa using List.find?_some hw
  have hstart := (List.isPrefixOf_iff_prefix.mp hstarts).length_le
  have hpos : ∀ w ∈ constants, 0 < w.toList.length := by decide
  have := hpos w (List.mem_of_find?_eq_some hw)
  rw [codes, List.length_map] at hstart
  refine ⟨?_, isLeaf_float _⟩
  rw [List.length_drop]
  omega

theorem readToken_spec {s rest : PyStr} {value : JsonValue} (h : readToken s = .ok (value, rest)) :
    rest.length < s.length ∧ IsLeaf value := by
  unfold readToken at h
  split at h
  · rename_i result hliteral
    cases h
    obtain ⟨hlength, hsmall, hdict, hlist⟩ := scanLiteral_spec hliteral
    exact ⟨hlength, hsmall, hdict, hlist⟩
  · split at h
    · rename_i result hconstant
      cases h
      exact readConstant_spec hconstant
    · exact readNumber_spec h

theorem readToken_ne_fuel (s : PyStr) : readToken s ≠ .error .fuel := by
  have hint (negative : Bool) (digits : PyStr) : readInt negative digits ≠ .error .fuel := by
    unfold readInt
    split
    · exact error_ne_error (by decide)
    · exact ok_ne_error _
  have hunsigned (negative : Bool) (s : PyStr) : readUnsigned negative s ≠ .error .fuel := by
    unfold readUnsigned
    split
    · exact error_ne_error (by decide)
    · dsimp only
      split
      · exact ne_of_map (hint _ _)
      · exact ok_ne_error _
  unfold readToken
  split
  · exact ok_ne_error _
  · split
    · exact ok_ne_error _
    · unfold readNumber
      split
      · split
        · exact hunsigned _ _
        · exact hunsigned _ _
      · exact error_ne_error (by decide)

theorem reader_lawful : reader.Lawful IsLeaf where
  string_length := readString_length
  token_length h := (readToken_spec h).1
  token_ok h := (readToken_spec h).2
  string_fuel s := by
    show readString s ≠ .error .fuel
    unfold readString
    split
    · exact error_ne_error (by decide)
    · exact ok_ne_error _
  token_fuel := readToken_ne_fuel
  syntax_fuel h := by cases h
  recursion_fuel h := by cases h

/-- The decoder is never cut short. -/
theorem loads_ne_fuel (limit : Nat) (bs : List UInt8) : loads limit bs ≠ .error .fuel := by
  unfold loads
  split
  · exact error_ne_error (by decide)
  · exact Reader.decode_ne_fuel reader_lawful limit _

/-- What is returned is built of tokens. -/
theorem loads_built {limit : Nat} {bs : List UInt8} {v : JsonValue} (h : loads limit bs = .ok v) :
    Built IsLeaf v := by
  unfold loads at h
  split at h
  · cases h
  · exact Reader.decode_built reader_lawful h

end CiteVyn.Text.JsonLoads
