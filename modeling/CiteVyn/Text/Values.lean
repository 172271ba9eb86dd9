import CiteVyn.Text.Python
import Mathlib.Algebra.Ring.Int.Defs
import Mathlib.Algebra.Ring.Nat

/-! # Python values, and `str` and `repr` of them

The values that reach the program as data: decoded JSON, and the fields of a
log record. A `dict` lists its items in the order of insertion. -/
namespace CiteVyn.Text

/-- A `float`, by the shortest decimal that reads back as it: `0.digits` times
ten to the `point`. -/
inductive PyFloat where
  | nan
  | inf (negative : Bool)
  | finite (negative : Bool) (digits : List (Fin 10)) (point : Int)
  deriving DecidableEq, Repr

inductive Value where
  | none
  | bool (b : Bool)
  | int (n : Int)
  | float (x : PyFloat)
  | str (s : Str)
  | list (items : List Value)
  | tuple (items : List Value)
  | dict (items : List (Str × Value))
  /-- a value of another type: the name of the type, what `str` makes of it, and
  its length if it has one -/
  | object (typeName text : Str) (size : Option Nat)
  deriving Repr

/-- What `repr` asks of the interpreter's Unicode database: `str.isprintable`,
of which only the line ends outside ASCII are fixed. -/
structure Printing where
  printable : Char → Bool
  lineEnds : ∀ c ∈ ['\u0085', '\u2028', '\u2029'], printable c = false

/-- Exact on ASCII text. -/
def Printing.ascii : Printing where
  printable _ := false
  lineEnds _ _ := rfl

/-! ## Numbers -/

def hexDigit (n : Nat) : Char := "0123456789abcdef".toList.getD n '0'

/-- `%0*x`. -/
def hex (width n : Nat) : Str := (List.range width).reverse.map fun i => hexDigit (n / 16 ^ i % 16)

/-- `[0-9a-f]` -/
def isLowerHex (c : Char) : Bool := c.isDigit || ('a' ≤ c && c ≤ 'f')

theorem isLowerHex_lt {c : Char} (h : isLowerHex c = true) : c.toNat < 128 := by
  simp only [isLowerHex, Char.isDigit, Bool.or_eq_true, Bool.and_eq_true, decide_eq_true_eq] at h
  rcases h with h | h
  · exact Nat.lt_of_le_of_lt h.2 (by decide)
  · exact Nat.lt_of_le_of_lt h.2 (by decide)

theorem isLowerHex_of_mem_hex {width n : Nat} {c : Char} (h : c ∈ hex width n) : isLowerHex c = true := by
  obtain ⟨i, -, rfl⟩ := List.mem_map.mp h
  have hdigit : ∀ k < 16, isLowerHex (hexDigit k) = true := by decide
  exact hdigit _ (Nat.mod_lt _ (by decide))

/-- `str` of an `int`; more than 4300 digits raise. -/
def intStr (n : Int) : Option Str :=
  let digits := Nat.toDigits 10 n.natAbs
  if intMaxStrDigits < digits.length then none
  else some (if n < 0 then '-' :: digits else digits)

def PyFloat.digitStr (digits : List (Fin 10)) : Str := digits.map fun d => Nat.digitChar d.val

/-- `0.digits` times ten to the `point`, without an exponent. -/
def PyFloat.positional (digits : List (Fin 10)) (point : Int) : Str :=
  let ds := digitStr digits
  if point ≤ 0 then "0.".toList ++ List.replicate point.natAbs '0' ++ ds
  else if ds.length ≤ point.natAbs then
    ds ++ List.replicate (point.natAbs - ds.length) '0' ++ ".0".toList
  else ds.take point.natAbs ++ '.' :: ds.drop point.natAbs

/-- The same with an exponent of at least two digits. -/
def PyFloat.scientific (digits : List (Fin 10)) (point : Int) : Str :=
  let ds := digitStr digits
  let e := Nat.toDigits 10 (point - 1).natAbs
  ds.take 1 ++ (if ds.length ≤ 1 then [] else '.' :: ds.drop 1) ++
    'e' :: (if point < 1 then '-' else '+') :: (if e.length < 2 then '0' :: e else e)

/-- `float.__repr__`, which is also `str`. -/
def PyFloat.repr : PyFloat → Str
  | nan => "nan".toList
  | inf negative => if negative then "-inf".toList else "inf".toList
  | finite negative digits point =>
    (if negative then ['-'] else []) ++
      if -4 < point && point ≤ 16 then positional digits point else scientific digits point

/-- `int` of a `float`; `nan` and the infinities raise. -/
def PyFloat.toInt : PyFloat → Option Int
  | finite negative digits point =>
    let whole := (List.range point.toNat).foldl
      (fun n i => 10 * n + ((digits[i]?).map Fin.val).getD 0) 0
    some (if negative then -(whole : Int) else whole)
  | _ => none

def PyFloat.isZero : PyFloat → Bool
  | finite _ digits _ => digits.all (· = 0)
  | _ => false

/-! ## Text -/

/-- One character of a `repr`. -/
def reprChar (p : Printing) (quote c : Char) : Str :=
  if c == quote || c == '\\' then ['\\', c]
  else if c == '\t' then "\\t".toList
  else if c == '\n' then "\\n".toList
  else if c == '\r' then "\\r".toList
  else if c.toNat < 32 || c.toNat == 127 then "\\x".toList ++ hex 2 c.toNat
  else if c.toNat < 127 || p.printable c then [c]
  else if c.toNat < 0x100 then "\\x".toList ++ hex 2 c.toNat
  else if c.toNat < 0x10000 then "\\u".toList ++ hex 4 c.toNat
  else "\\U".toList ++ hex 8 c.toNat

/-- `repr` of a `str`. -/
def reprStr (p : Printing) (s : Str) : Str :=
  let quote := if s.contains '\'' && !s.contains '"' then '"' else '\''
  quote :: (s.flatMap (reprChar p quote) ++ [quote])

mutual

/-- `repr`. -/
def reprValue (p : Printing) : Value → Option Str
  | .none => some "None".toList
  | .bool b => some (if b then "True".toList else "False".toList)
  | .int n => intStr n
  | .float x => some x.repr
  | .str s => some (reprStr p s)
  | .list items => (reprItems p items).map fun items => '[' :: (List.intercalate ", ".toList items ++ [']'])
  | .tuple [item] => (reprValue p item).map fun item => '(' :: (item ++ ",)".toList)
  | .tuple items => (reprItems p items).map fun items => '(' :: (List.intercalate ", ".toList items ++ [')'])
  | .dict items => (reprFields p items).map fun items => '{' :: (List.intercalate ", ".toList items ++ ['}'])
  | .object _ text _ => some text

def reprItems (p : Printing) : List Value → Option (List Str)
  | [] => some []
  | item :: items => do
    let item ← reprValue p item
    let items ← reprItems p items
    return item :: items

def reprFields (p : Printing) : List (Str × Value) → Option (List Str)
  | [] => some []
  | (key, value) :: items => do
    let value ← reprValue p value
    let items ← reprFields p items
    return (reprStr p key ++ ": ".toList ++ value) :: items

end

/-- `str`. -/
def pyStr (p : Printing) : Value → Option Str
  | .str s => some s
  | value => reprValue p value

/-! ## Reading a value -/

/-- Truth of a value. -/
def Value.truthy : Value → Bool
  | none => false
  | bool b => b
  | int n => n ≠ 0
  | float x => !x.isZero
  | str s => !s.isEmpty
  | list items | tuple items => !items.isEmpty
  | dict items => !items.isEmpty
  | object _ _ size => size ≠ some 0

/-- `.get` of a `dict`; any other value is read as an empty one (`_as_dict`). -/
def Value.get (value : Value) (key : String) : Value :=
  match value with
  | dict items => ((items.find? fun item => item.1 = key.toList).map Prod.snd).getD none
  | _ => none

/-- The value, if it is a `str`. -/
def Value.str? : Value → Option Str
  | str s => some s
  | _ => Option.none

/-! ## Numbers out of values -/

/-- What `int` and `float` raise. -/
inductive NumberError where
  | type
  | value
  | overflow
  deriving DecidableEq, Repr

/-- Digits with single underscores between them, less the underscores. -/
def digitRun (s : Str) : Option Str :=
  let runs := s.splitOn '_'
  if runs.all fun run => !run.isEmpty && run.all isDecimal then some runs.flatten else none

/-- A text less its sign, and whether that is a minus. -/
def unsigned : Str → Bool × Str
  | '-' :: s => (true, s)
  | '+' :: s => (false, s)
  | s => (false, s)

/-- `int` of a `str`. -/
def intLiteral (s : Str) : Option Int := do
  let (negative, s) := unsigned (strip s)
  let digits ← digitRun s
  let n ← (int digits).toOption
  return if negative then -(n : Int) else n

/-- `int`. -/
def Value.toInt : Value → Except NumberError Int
  | bool b => .ok b.toNat
  | int n => .ok n
  | float (.finite negative digits point) =>
    .ok (((PyFloat.finite negative digits point).toInt).getD 0)
  | float .nan => .error .value
  | float (.inf _) => .error .overflow
  | str s => (intLiteral s).elim (.error .value) .ok
  | _ => .error .type

/-- Digits with a point before, after or among them. -/
def isPointed (s : Str) : Bool :=
  match s.splitOn '.' with
  | [whole] => (digitRun whole).isSome
  | [whole, part] =>
    (!whole.isEmpty || !part.isEmpty) && (whole.isEmpty || (digitRun whole).isSome) &&
      (part.isEmpty || (digitRun part).isSome)
  | _ => false

/-- `float` accepts the text. -/
def isFloatLiteral (s : Str) : Bool :=
  let s := (unsigned (strip s)).2
  let mantissa := s.takeWhile fun c => c ≠ 'e' && c ≠ 'E'
  lower s ∈ ["inf".toList, "infinity".toList, "nan".toList] ||
    isPointed mantissa && match s.drop mantissa.length with
      | [] => true
      | _ :: exponent => (digitRun (unsigned exponent).2).isSome

/-- `float`, less the rounding: the value it is made of. -/
def Value.toFloat : Value → Except NumberError Value
  | int n => if n.natAbs < 2 ^ 1024 - 2 ^ 970 then .ok (.int n) else .error .overflow
  | str s => if isFloatLiteral s then .ok (.str s) else .error .value
  | bool b => .ok (.bool b)
  | float x => .ok (.float x)
  | _ => .error .type

end CiteVyn.Text
