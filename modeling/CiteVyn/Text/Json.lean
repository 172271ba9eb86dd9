import CiteVyn.Text.JsonScan
import Mathlib.Algebra.Ring.Nat

/-! # `json.loads` and `json.dumps`

The decoder and the encoder of Python's `json` as the program calls them: `loads` of bytes
with a `parse_constant` that raises `ValueError`, and `dumps` with `ensure_ascii=False`. -/
namespace CiteVyn.Text.Json
open CiteVyn.Lib.Effects

/-- What stops the decoder. -/
inductive ScanError where
  /-- `JSONDecodeError`, `UnicodeDecodeError` and the other `ValueError`s -/
  | valueError
  | recursionError
  /-- the bound on the calls below is used up, which it never is -/
  | fuel
  deriving DecidableEq, Repr

/-- `int` takes and `str` gives so many digits. -/
def maxStrDigits : Nat := 4300

/-! ## Strings -/

/-- One code point of a string, and whether a `\u` escape stands for it. -/
structure Unit16 where
  escaped : Bool
  value : CodePoint
  deriving DecidableEq, Repr

def hexValue (c : CodePoint) : Option Nat :=
  let n := c.val
  if 0x30 ≤ n && n < 0x3A then some (n - 0x30)
  else if 0x41 ≤ n && n < 0x47 then some (n - 0x41 + 10)
  else if 0x61 ≤ n && n < 0x67 then some (n - 0x61 + 10)
  else none

/-- `_decode_uXXXX`. -/
def hex4 (a b c d : CodePoint) : Option CodePoint :=
  (hexValue a).bind fun a => (hexValue b).bind fun b => (hexValue c).bind fun c => (hexValue d).bind fun d =>
    codePoint? (((a * 16 + b) * 16 + c) * 16 + d)

/-- `BACKSLASH`. -/
def backslash (c : CodePoint) : Option CodePoint :=
  match CodePoint.char? c with
  | some '"' => some (codeOf '"')
  | some '\\' => some (codeOf '\\')
  | some '/' => some (codeOf '/')
  | some 'b' => some 8
  | some 'f' => some 12
  | some 'n' => some 10
  | some 'r' => some 13
  | some 't' => some 9
  | _ => none

/-- The string up to its closing quote, and what comes after. -/
def scanUnits : PyStr → Option (List Unit16 × PyStr)
  | [] => none
  | c :: rest =>
    if c = codeOf '"' then some ([], rest)
    else if c = codeOf '\\' then
      match rest with
      | [] => none
      | e :: rest =>
        if e = codeOf 'u' then
          match rest with
          | a :: b :: c :: d :: rest =>
            (hex4 a b c d).bind fun value => (scanUnits rest).map fun (us, rest) => (⟨true, value⟩ :: us, rest)
          | _ => none
        else (backslash e).bind fun value => (scanUnits rest).map fun (us, rest) => (⟨false, value⟩ :: us, rest)
    else if c.val < 0x20 then none
    else (scanUnits rest).map fun (us, rest) => (⟨false, c⟩ :: us, rest)

/-- Two escapes that are a pair of surrogates. -/
def isPair (x y : Unit16) : Bool := x.escaped && y.escaped && isHigh x.value.val && isLow y.value.val

/-- A pair of escapes is one code point; any other surrogate stays. -/
def joinPairs : List Unit16 → PyStr
  | [] => []
  | [x] => [x.value]
  | x :: y :: rest =>
    if isPair x y then
      (codePoint? (joined x.value.val y.value.val)).toList ++ joinPairs rest
    else x.value :: joinPairs (y :: rest)

/-- `scanstring`, after the opening quote. -/
def scanString (s : PyStr) : Except ScanError (PyStr × PyStr) :=
  match scanUnits s with
  | none => .error .valueError
  | some (us, rest) => .ok (joinPairs us, rest)

/-! ## Numbers -/

def isDigit (c : CodePoint) : Bool := 0x30 ≤ c.val && c.val < 0x3A

def digitsValue (ds : PyStr) : Nat := ds.foldl (fun n d => n * 10 + (d.val - 0x30)) 0

/-- `0|[1-9][0-9]*` -/
def scanInteger : PyStr → Option (PyStr × PyStr)
  | c :: rest =>
    if c = codeOf '0' then some ([c], rest)
    else if isDigit c then some (c :: rest.takeWhile isDigit, rest.dropWhile isDigit)
    else none
  | [] => none

/-- `(\.[0-9]+)?` -/
def scanFraction : PyStr → PyStr × PyStr
  | c :: d :: rest =>
    if c = codeOf '.' && isDigit d then (c :: d :: rest.takeWhile isDigit, rest.dropWhile isDigit)
    else ([], c :: d :: rest)
  | s => ([], s)

/-- `[-+]?` -/
def scanSign : PyStr → PyStr × PyStr
  | c :: rest => if c = codeOf '-' || c = codeOf '+' then ([c], rest) else ([], c :: rest)
  | [] => ([], [])

/-- `([eE][-+]?[0-9]+)?` -/
def scanExponent : PyStr → PyStr × PyStr
  | c :: rest =>
    let (sign, after) := scanSign rest
    if (c = codeOf 'e' || c = codeOf 'E') && after.head?.any isDigit then
      (c :: sign ++ after.takeWhile isDigit, after.dropWhile isDigit)
    else ([], c :: rest)
  | [] => ([], [])

/-- `int` of a literal: too many digits are a `ValueError`. -/
def intOf (negative : Bool) (digits : PyStr) : Except ScanError JsonValue :=
  if maxStrDigits < digits.length then .error .valueError
  else .ok (.int (if negative then -(digitsValue digits : Int) else digitsValue digits))

/-- A number without its sign. -/
def scanUnsigned (negative : Bool) (s : PyStr) : Except ScanError (JsonValue × PyStr) :=
  match scanInteger s with
  | none => .error .valueError
  | some (integer, rest) =>
    let (fraction, rest) := scanFraction rest
    let (exponent, rest) := scanExponent rest
    if fraction.isEmpty && exponent.isEmpty then (intOf negative integer).map fun value => (value, rest)
    else .ok (.float ((if negative then [codeOf '-'] else []) ++ integer ++ fraction ++ exponent), rest)

def scanNumber : PyStr → Except ScanError (JsonValue × PyStr)
  | c :: rest => if c = codeOf '-' then scanUnsigned true rest else scanUnsigned false (c :: rest)
  | [] => .error .valueError

/-! ## Values -/

/-- The literals; `parse_constant` refuses the other three. -/
def scanLiteral (s : PyStr) : Option (JsonValue × PyStr) :=
  let literal (w : String) := (codes w.toList).isPrefixOf s
  if literal "null" then some (.null, s.drop 4)
  else if literal "true" then some (.bool true, s.drop 4)
  else if literal "false" then some (.bool false, s.drop 5)
  else none

mutual

/-- `scan_once`, with the calls that are left and the containers that may still be open. -/
def scanValue : Nat → Nat → PyStr → Except ScanError (JsonValue × PyStr)
  | 0, _, _ => .error .fuel
  | _, _, [] => .error .valueError
  | fuel + 1, depth, c :: rest =>
    if c = codeOf '"' then (scanString rest).map fun (s, rest) => (.str s, rest)
    else if c = codeOf '[' then
      if depth = 0 then .error .recursionError
      else if (skip rest).head? = some (codeOf ']') then .ok (.list [], (skip rest).tail)
      else (scanItems fuel (depth - 1) (skip rest)).map fun (items, rest) => (.list items, rest)
    else if c = codeOf '{' then
      if depth = 0 then .error .recursionError
      else if (skip rest).head? = some (codeOf '}') then .ok (.dict [], (skip rest).tail)
      else (scanMembers fuel (depth - 1) (skip rest)).map fun (members, rest) => (.dict members, rest)
    else
      match scanLiteral (c :: rest) with
      | some result => .ok result
      | none => scanNumber (c :: rest)

/-- The items of a list, up to its end. -/
def scanItems : Nat → Nat → PyStr → Except ScanError (List JsonValue × PyStr)
  | 0, _, _ => .error .fuel
  | fuel + 1, depth, s =>
    (scanValue fuel depth s).bind fun (item, rest) =>
      match skip rest with
      | c :: rest =>
        if c = codeOf ',' then (scanItems fuel depth (skip rest)).map fun (items, rest) => (item :: items, rest)
        else if c = codeOf ']' then .ok ([item], rest)
        else .error .valueError
      | [] => .error .valueError

/-- The members of an object, up to its end. -/
def scanMembers : Nat → Nat → PyStr → Except ScanError (List (PyStr × JsonValue) × PyStr)
  | 0, _, _ => .error .fuel
  | _, _, [] => .error .valueError
  | fuel + 1, depth, q :: s =>
    if q ≠ codeOf '"' then .error .valueError
    else
      (scanString s).bind fun (key, rest) =>
        match skip rest with
        | colon :: rest =>
          if colon ≠ codeOf ':' then .error .valueError
          else
            (scanValue fuel depth (skip rest)).bind fun (value, rest) =>
              match skip rest with
              | c :: rest =>
                if c = codeOf ',' then
                  (scanMembers fuel depth (skip rest)).map fun (members, rest) => ((key, value) :: members, rest)
                else if c = codeOf '}' then .ok ([(key, value)], rest)
                else .error .valueError
              | [] => .error .valueError
        | [] => .error .valueError

end

/-- `JSONDecoder.decode`, where `limit` containers may be open. -/
def decode (limit : Nat) (s : PyStr) : Except ScanError JsonValue :=
  (scanValue (fuelFor s) limit (skip s)).bind fun (value, rest) =>
    if (skip rest).isEmpty then .ok value else .error .valueError

def startsWith (bs : List UInt8) (w : List UInt8) : Bool := w.isPrefixOf bs

/-- The encoding that `detect_encoding` finds, and the text in it. -/
def decodeBytes (bs : List UInt8) : Option PyStr :=
  if startsWith bs [0x00, 0x00, 0xFE, 0xFF] then decodeUtf32 true (bs.drop 4)
  else if startsWith bs [0xFF, 0xFE, 0x00, 0x00] then decodeUtf32 false (bs.drop 4)
  else if startsWith bs [0xFE, 0xFF] then decodeUtf16 true (bs.drop 2)
  else if startsWith bs [0xFF, 0xFE] then decodeUtf16 false (bs.drop 2)
  else if startsWith bs [0xEF, 0xBB, 0xBF] then decodeUtf8 (bs.drop 3)
  else
    match bs with
    | a :: b :: c :: d :: _ =>
      if a = 0 then if b = 0 then decodeUtf32 true bs else decodeUtf16 true bs
      else if b = 0 then if c = 0 && d = 0 then decodeUtf32 false bs else decodeUtf16 false bs
      else decodeUtf8 bs
    | [a, b] => if a = 0 then decodeUtf16 true bs else if b = 0 then decodeUtf16 false bs else decodeUtf8 bs
    | _ => decodeUtf8 bs

/-- `json.loads`. -/
def loads (limit : Nat) (bs : List UInt8) : Except ScanError JsonValue :=
  match decodeBytes bs with
  | none => .error .valueError
  | some s => decode limit s

/-! ## What is scanned is taken from the text -/

theorem scanUnits_length {s rest : PyStr} {us : List Unit16} (h : scanUnits s = some (us, rest)) :
    rest.length < s.length := by
  fun_induction scanUnits s generalizing us rest with
  | case1 => cases h
  | case2 rest' =>
    obtain ⟨-, rfl⟩ := Prod.mk.inj (Option.some.inj h)
    exact Nat.lt_succ_self _
  | case3 => cases h
  | case4 _ a b c d rest' ih =>
    obtain ⟨value, -, h⟩ := Option.bind_eq_some_iff.mp h
    obtain ⟨⟨us', rest''⟩, hrest, heq⟩ := Option.map_eq_some_iff.mp h
    obtain ⟨-, rfl⟩ := Prod.mk.inj heq
    have := ih hrest
    simp only [List.length_cons]
    omega
  | case5 => cases h
  | case6 _ e rest' _ ih =>
    obtain ⟨value, -, h⟩ := Option.bind_eq_some_iff.mp h
    obtain ⟨⟨us', rest''⟩, hrest, heq⟩ := Option.map_eq_some_iff.mp h
    obtain ⟨-, rfl⟩ := Prod.mk.inj heq
    have := ih hrest
    simp only [List.length_cons]
    omega
  | case7 => cases h
  | case8 c rest' _ _ _ ih =>
    obtain ⟨⟨us', rest''⟩, hrest, heq⟩ := Option.map_eq_some_iff.mp h
    obtain ⟨-, rfl⟩ := Prod.mk.inj heq
    have := ih hrest
    simp only [List.length_cons]
    omega

theorem scanString_length {s text rest : PyStr} (h : scanString s = .ok (text, rest)) : rest.length < s.length := by
  unfold scanString at h
  split at h
  · cases h
  · rename_i us rest' hunits
    cases h
    exact scanUnits_length hunits

theorem scanInteger_spec {s integer rest : PyStr} (h : scanInteger s = some (integer, rest)) :
    rest.length < s.length ∧ ∀ d ∈ integer, isDigit d := by
  unfold scanInteger at h
  split at h
  · split at h
    · rename_i c rest' hzero
      cases h
      refine ⟨Nat.lt_succ_self _, fun d hd => ?_⟩
      rw [List.mem_singleton.mp hd, hzero]
      decide
    · split at h
      · rename_i c rest' _ hdigit
        cases h
        refine ⟨Nat.lt_succ_of_le (List.length_dropWhile_le _ _), fun d hd => ?_⟩
        rcases List.mem_cons.mp hd with rfl | hd
        · exact hdigit
        · exact List.mem_takeWhile_imp hd
      · cases h
  · cases h

theorem scanFraction_length (s : PyStr) : (scanFraction s).2.length ≤ s.length := by
  unfold scanFraction
  split
  · split
    · exact (List.length_dropWhile_le _ _).trans (by simp only [List.length_cons]; omega)
    · exact le_rfl
  · exact le_rfl

theorem scanSign_length (s : PyStr) : (scanSign s).2.length ≤ s.length := by
  unfold scanSign
  split
  · split
    · exact Nat.le_succ _
    · exact le_rfl
  · exact le_rfl

theorem scanExponent_length (s : PyStr) : (scanExponent s).2.length ≤ s.length := by
  unfold scanExponent
  split
  · rename_i c rest
    have := scanSign_length rest
    dsimp only
    split
    · exact (List.length_dropWhile_le _ _).trans (by simp only [List.length_cons]; omega)
    · exact le_rfl
  · exact le_rfl

/-- An integer has no more digits than `str` gives. -/
def JsonValue.small (value : JsonValue) : Prop := ∀ i, value = .int i → i.natAbs < 10 ^ maxStrDigits

theorem digitsValue_lt {ds : PyStr} (h : ∀ d ∈ ds, isDigit d) : digitsValue ds < 10 ^ ds.length := by
  have hfold : ∀ (ds : PyStr) (n : Nat), (∀ d ∈ ds, isDigit d) →
      ds.foldl (fun n d => n * 10 + (d.val - 0x30)) n < (n + 1) * 10 ^ ds.length := by
    intro ds
    induction ds with
    | nil =>
      intro n _
      simp
    | cons d ds ih =>
      intro n h
      obtain ⟨hd, h⟩ := List.forall_mem_cons.mp h
      have hdigit : d.val - 0x30 < 10 := by
        simp only [isDigit, Bool.and_eq_true, decide_eq_true_eq] at hd
        omega
      rw [List.foldl_cons, List.length_cons, Nat.pow_succ, Nat.mul_comm (10 ^ ds.length) 10, ← Nat.mul_assoc]
      refine (ih _ h).trans_le (Nat.mul_le_mul_right _ ?_)
      omega
  simpa [digitsValue] using hfold ds 0 h

theorem intOf_small {negative : Bool} {digits : PyStr} {value : JsonValue} (hdigits : ∀ d ∈ digits, isDigit d)
    (h : intOf negative digits = .ok value) : value.small := by
  unfold intOf at h
  split at h
  · cases h
  · rename_i hlength
    cases h
    rintro i ⟨⟩
    have hvalue : digitsValue digits < 10 ^ maxStrDigits :=
      (digitsValue_lt hdigits).trans_le (Nat.pow_le_pow_right (by decide) (Nat.not_lt.mp hlength))
    split
    · simpa using hvalue
    · simpa using hvalue

theorem scanUnsigned_spec {negative : Bool} {s rest : PyStr} {value : JsonValue}
    (h : scanUnsigned negative s = .ok (value, rest)) : rest.length < s.length ∧ value.small := by
  unfold scanUnsigned at h
  split at h
  · cases h
  · rename_i integer after hinteger
    obtain ⟨hlength, hdigits⟩ := scanInteger_spec hinteger
    have hfraction := scanFraction_length after
    have hexponent := scanExponent_length (scanFraction after).2
    dsimp only at h
    split at h
    · cases hint : intOf negative integer with
      | error e =>
        rw [hint] at h
        cases h
      | ok v =>
        rw [hint] at h
        cases h
        exact ⟨by omega, intOf_small hdigits hint⟩
    · cases h
      exact ⟨by omega, fun i hi => (by cases hi)⟩

theorem scanNumber_spec {s rest : PyStr} {value : JsonValue} (h : scanNumber s = .ok (value, rest)) :
    rest.length < s.length ∧ value.small := by
  unfold scanNumber at h
  split at h
  · split at h
    · obtain ⟨hlength, hsmall⟩ := scanUnsigned_spec h
      exact ⟨hlength.trans (Nat.lt_succ_self _), hsmall⟩
    · exact scanUnsigned_spec h
  · cases h

/-- A number is no object. -/
theorem scanNumber_ne_dict {s rest : PyStr} {ms : List (PyStr × JsonValue)} : scanNumber s ≠ .ok (.dict ms, rest) := by
  have hunsigned (negative : Bool) (s : PyStr) : scanUnsigned negative s ≠ .ok (.dict ms, rest) := by
    intro h
    unfold scanUnsigned at h
    split at h
    · cases h
    · dsimp only at h
      split at h
      · obtain ⟨v, hint, heq⟩ := map_eq_ok h
        cases heq
        unfold intOf at hint
        split at hint
        · cases hint
        · cases hint
      · cases h
  unfold scanNumber
  split
  · split
    · exact hunsigned _ _
    · exact hunsigned _ _
  · exact fun h => by cases h

theorem scanLiteral_spec {s rest : PyStr} {value : JsonValue} (h : scanLiteral s = some (value, rest)) :
    rest.length < s.length ∧ value.small ∧ (∀ ms, value ≠ .dict ms) ∧ ∀ items, value ≠ .list items := by
  have hshorter (w : String) (hw : w.toList ≠ []) (hstart : (codes w.toList).isPrefixOf s = true) :
      (s.drop w.toList.length).length < s.length := by
    have hle : w.toList.length ≤ s.length := by
      simpa only [codes, List.length_map] using (List.isPrefixOf_iff_prefix.mp hstart).length_le
    have hpos := List.length_pos_iff.mpr hw
    rw [List.length_drop]
    omega
  have hscalar {v : JsonValue} (hv : v = .null ∨ ∃ b, v = .bool b) :
      v.small ∧ (∀ ms, v ≠ .dict ms) ∧ ∀ items, v ≠ .list items := by
    rcases hv with rfl | ⟨b, rfl⟩
    · exact ⟨nofun, nofun, nofun⟩
    · exact ⟨nofun, nofun, nofun⟩
  unfold scanLiteral at h
  dsimp only at h
  split at h
  · rename_i hnull
    cases h
    exact ⟨hshorter "null" (by decide) hnull, hscalar (.inl rfl)⟩
  · split at h
    · rename_i htrue
      cases h
      exact ⟨hshorter "true" (by decide) htrue, hscalar (.inr ⟨true, rfl⟩)⟩
    · split at h
      · rename_i hfalse
        cases h
        exact ⟨hshorter "false" (by decide) hfalse, hscalar (.inr ⟨false, rfl⟩)⟩
      · cases h

/-! ## The decoder as a scanner -/

theorem scanString_ne_fuel (s : PyStr) : scanString s ≠ .error .fuel := by
  unfold scanString
  split
  · exact fun h => by cases h
  · exact fun h => by cases h

theorem scanNumber_ne_fuel (s : PyStr) : scanNumber s ≠ .error .fuel := by
  have hunsigned (negative : Bool) (s : PyStr) : scanUnsigned negative s ≠ .error .fuel := by
    unfold scanUnsigned
    split
    · exact fun h => by cases h
    · dsimp only
      split
      · refine ne_of_map ?_
        unfold intOf
        split
        · exact fun h => by cases h
        · exact fun h => by cases h
      · exact fun h => by cases h
  unfold scanNumber
  split
  · split
    · exact hunsigned _ _
    · exact hunsigned _ _
  · exact fun h => by cases h

/-- A literal or a number. -/
def scanToken (s : PyStr) : Except ScanError (JsonValue × PyStr) :=
  match scanLiteral s with
  | some result => .ok result
  | none => scanNumber s

def reader : Reader ScanError where
  string := scanString
  token := scanToken
  syntaxError := .valueError
  recursionError := .recursionError
  fuel := .fuel

/-- What a token can be: an integer of it is small. -/
def JsonValue.IsToken (value : JsonValue) : Prop := value.small ∧ ∀ ms, value ≠ .dict ms

theorem scanToken_spec {s rest : PyStr} {value : JsonValue} (h : scanToken s = .ok (value, rest)) :
    rest.length < s.length ∧ value.IsToken := by
  unfold scanToken at h
  split at h
  · rename_i result hliteral
    cases h
    obtain ⟨hlength, hsmall, hdict, -⟩ := scanLiteral_spec hliteral
    exact ⟨hlength, hsmall, hdict⟩
  · obtain ⟨hlength, hsmall⟩ := scanNumber_spec h
    exact ⟨hlength, hsmall, fun ms hms => scanNumber_ne_dict (hms ▸ h)⟩

theorem reader_lawful : reader.Lawful JsonValue.IsToken where
  string_length := scanString_length
  token_length h := (scanToken_spec h).1
  token_ok h := (scanToken_spec h).2
  string_fuel := scanString_ne_fuel
  token_fuel s := by
    show scanToken s ≠ .error .fuel
    unfold scanToken
    split
    · exact ok_ne_error _
    · exact scanNumber_ne_fuel s
  syntax_fuel h := by cases h
  recursion_fuel h := by cases h

theorem scan_eq (fuel : Nat) : (∀ depth s, scanValue fuel depth s = reader.value fuel depth s) ∧
    (∀ depth s, scanItems fuel depth s = reader.items fuel depth s) ∧
    ∀ depth s, scanMembers fuel depth s = reader.members fuel depth s := by
  induction fuel with
  | zero =>
    refine ⟨fun depth s => ?_, fun depth s => ?_, fun depth s => ?_⟩
    · unfold scanValue Reader.value
      rfl
    · unfold scanItems Reader.items
      rfl
    · unfold scanMembers Reader.members
      rfl
  | succ fuel ih =>
    obtain ⟨hvalue, hitems, hmembers⟩ := ih
    refine ⟨fun depth s => ?_, fun depth s => ?_, fun depth s => ?_⟩
    · cases s with
      | nil =>
        unfold scanValue Reader.value
        rfl
      | cons c rest =>
        unfold scanValue Reader.value
        simp only [hitems, hmembers]
        rfl
    · unfold scanItems Reader.items
      simp only [hvalue, hitems]
      rfl
    · cases s with
      | nil =>
        unfold scanMembers Reader.members
        rfl
      | cons c rest =>
        unfold scanMembers Reader.members
        simp only [hvalue, hmembers]
        rfl

theorem decode_eq (limit : Nat) (s : PyStr) : decode limit s = reader.decode limit s := by
  rw [decode, (scan_eq _).1, Reader.decode]
  rfl

/-- The decoder is never cut short. -/
theorem loads_ne_fuel (limit : Nat) (bs : List UInt8) : loads limit bs ≠ .error .fuel := by
  unfold loads
  split
  · exact fun h => by cases h
  · rw [decode_eq]
    exact Reader.decode_ne_fuel reader_lawful limit _

/-- The integers that `loads` returns can be written again. -/
theorem loads_small {limit : Nat} {bs : List UInt8} {ms : List (PyStr × JsonValue)} (h : loads limit bs = .ok (.dict ms)) :
    ∀ m ∈ ms, m.2.small := by
  have hsmall : ∀ {v : JsonValue}, Built JsonValue.IsToken v → v.small := by
    intro v hv
    cases hv with
    | token h => exact h.1
    | str s => exact fun i hi => by cases hi
    | list h => exact fun i hi => by cases hi
    | dict h => exact fun i hi => by cases hi
  unfold loads at h
  split at h
  · cases h
  · rw [decode_eq] at h
    cases Reader.decode_built reader_lawful h with
    | token htoken => exact absurd rfl (htoken.2 ms)
    | dict hms => exact fun m hm => hsmall (hms m hm)

end CiteVyn.Text.Json
