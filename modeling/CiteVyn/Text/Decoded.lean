import CiteVyn.Text.Integers
import CiteVyn.Text.JsonLoads
import CiteVyn.Text.Values

/-! # Decoded bodies as values

What `json.loads` of the bytes of a body gives to a program that reads it field by field. -/
namespace CiteVyn.Text
open CiteVyn.Text.Json CiteVyn.Text.JsonLoads

/-- A text of code points; U+FFFD stands for a lone surrogate, which is no digit and no white
space either. -/
def textOf (s : PyStr) : Str := s.map fun c => c.char?.getD '\uFFFD'

/-- `items[key] = value`: a key that is there keeps its place. -/
def setItem (items : List (PyStr × Value)) (key : PyStr) (value : Value) : List (PyStr × Value) :=
  if items.any (·.1 = key) then items.map fun item => if item.1 = key then (key, value) else item
  else items ++ [(key, value)]

/-- The `dict` of the members of an object. -/
def dictOf (members : List (PyStr × Value)) : Value :=
  .dict ((members.foldl (fun items m => setItem items m.1 m.2) []).map fun item => (textOf item.1, item.2))

section
variable (float : PyStr → PyFloat)

mutual

/-- A decoded value, where `float` reads the literals. -/
def valueOf : JsonValue → Value
  | .null => .none
  | .bool b => .bool b
  | .int i => .int i
  | .float literal => .float (float literal)
  | .str s => .str (textOf s)
  | .list items => .list (itemsOf items)
  | .dict members => dictOf (membersOf members)

def itemsOf : List JsonValue → List Value
  | [] => []
  | item :: items => valueOf item :: itemsOf items

def membersOf : List (PyStr × JsonValue) → List (PyStr × Value)
  | [] => []
  | (key, value) :: members => (key, valueOf value) :: membersOf members

end

end

/-! ## A decoded value can be printed -/

variable {float : PyStr → PyFloat} {p : Printing}

end CiteVyn.Text
