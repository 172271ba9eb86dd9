import CiteVyn.Llm.Clients
import CiteVyn.Text.Decoded
import Mathlib.Algebra.Order.BigOperators.Group.List

/-! # What the clients make of a reply

`complete` of the Gemini and OpenRouter clients on the bytes of a response: it returns a text
that is not blank or raises `LLMUnavailable`, exactly on the bodies it can read. -/
namespace CiteVyn.Llm
open CiteVyn.Cost CiteVyn.Lib.Effects CiteVyn.Text CiteVyn.Text.Json CiteVyn.Text.JsonLoads

/-- `json.loads(response.content)`, where `limit` containers may be open and `float` reads the
literals. -/
def load (float : PyStr → PyFloat) (limit : Nat) (body : List UInt8) : Loaded :=
  match JsonLoads.loads limit body with
  | .ok value => .value (valueOf float value)
  | .error .jsonDecodeError => .notJson
  | .error _ => .raises

def IsDict (value : Value) : Prop := ∃ items, value = .dict items

/-- `int` takes every count that is there. -/
def CountsRead (usage : Value) (keys : List String) : Prop :=
  ∀ key ∈ keys, ∀ value, field usage key = .ok (some value) → ∃ n, value.toInt = .ok n

/-- A usage block that is not empty is an object, whose counts are numbers, and none of the two
sums is below zero. -/
def Counted (api : Api) (usage : Value) : Prop :=
  usage.truthy = true → IsDict usage ∧
    (CountsRead usage api.inputKeys ∧ 0 ≤ (api.inputKeys.map (countAt usage)).sum) ∧
      CountsRead usage api.outputKeys ∧ 0 ≤ (api.outputKeys.map (countAt usage)).sum

theorem field_dict (items : List (Str × Value)) (key : String) :
    field (.dict items) key = .ok ((items.find? fun item => item.1 = key.toList).map Prod.snd) := rfl

theorem field_not_dict {value : Value} (h : ¬ IsDict value) (key : String) : field value key = .error .other := by
  cases value with
  | dict items => exact absurd ⟨items, rfl⟩ h
  | _ => rfl

theorem postJson_eq (status : Nat) (body : Loaded) : postJson (.response status body) =
    if 400 ≤ status then .error .unavailable else
      match body with
      | .value data => .ok data
      | .notJson => .error .unavailable
      | .raises => .error .other := rfl

end CiteVyn.Llm
