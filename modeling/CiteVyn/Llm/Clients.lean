import CiteVyn.Cost.Meter
import CiteVyn.Lib.Effects
import CiteVyn.Text.Values

/-! # The clients of the model providers

`post_json` of `app/llm/_http.py`, `complete` of the Gemini, OpenRouter and
Anthropic clients, and the fallback from one client to another. -/
namespace CiteVyn.Llm
open CiteVyn.Cost CiteVyn.Lib.Effects CiteVyn.Text

/-! ## One request -/

/-- What `json.loads` makes of a body. -/
inductive Loaded where
  | value (v : Value)
  /-- `JSONDecodeError` -/
  | notJson
  /-- it raises something else -/
  | raises
  deriving Repr

/-- What an HTTP request meets. -/
inductive Exchange where
  | timeout
  | transportError
  | response (status : Nat) (body : Loaded)
  deriving Repr

/-- How a call fails: with `LLMUnavailable` or `EmbedderUnavailable`, or with
another exception. -/
inductive Failure where
  | unavailable
  | other
  deriving DecidableEq, Repr

/-- `post_json`. -/
def postJson : Exchange → Except Failure Value
  | .timeout | .transportError => .error .unavailable
  | .response status body =>
    if 400 ≤ status then .error .unavailable
    else
      match body with
      | .value v => .ok v
      | .notJson => .error .unavailable
      | .raises => .error .other

/-- `.get` of a value that need not be a `dict`: it raises, or finds a value or not. -/
def field (value : Value) (key : String) : Except Failure (Option Value) :=
  match value with
  | .dict items => .ok ((items.find? fun item => item.1 = key.toList).map Prod.snd)
  | _ => .error .other

/-! ## Token counts -/

inductive Api where
  | gemini
  | openRouter
  | anthropic
  deriving DecidableEq, Repr

/-- The field of a response that holds the token counts. -/
def Api.usageKey : Api → String
  | gemini => "usageMetadata"
  | openRouter | anthropic => "usage"

/-- The counts of the tokens that were read. -/
def Api.inputKeys : Api → List String
  | gemini => ["promptTokenCount"]
  | openRouter => ["prompt_tokens"]
  | anthropic => ["input_tokens"]

/-- The counts of the tokens that were made, thoughts included. -/
def Api.outputKeys : Api → List String
  | gemini => ["candidatesTokenCount", "thoughtsTokenCount"]
  | openRouter => ["completion_tokens"]
  | anthropic => ["output_tokens"]

/-- `LLMProvider`. -/
def Api.provider : Api → Str
  | gemini => "gemini".toList
  | openRouter => "router".toList
  | anthropic => "anthropic".toList

/-- `int(usage.get(key, 0))`, summed over the keys. -/
def countTokens (usage : Value) : List String → Except Failure Int
  | [] => .ok 0
  | key :: keys => do
    let count ← field usage key
    let n ← (count.getD (.int 0)).toInt.mapError fun _ => .other
    let rest ← countTokens usage keys
    return n + rest

/-- `data.get(key) or {}`. -/
def usageOf (api : Api) (data : Value) : Except Failure Value := do
  let raw ← field data api.usageKey
  return if (raw.getD .none).truthy then raw.getD .none else .dict []

/-- The `LLMResult` for a text; a count below zero fails its validation. -/
def resultOf (api : Api) (data : Value) (text model : Str) : Except Failure LLMResult := do
  let usage ← usageOf api data
  let inputTokens ← countTokens usage api.inputKeys
  let outputTokens ← countTokens usage api.outputKeys
  if 0 ≤ inputTokens ∧ 0 ≤ outputTokens then
    return ⟨text, inputTokens.toNat, outputTokens.toNat, model, api.provider⟩
  else throw .other

/-- The count under a key, or nothing. -/
def countAt (usage : Value) (key : String) : Int :=
  match (usage.get key).toInt with
  | .ok n => n
  | .error _ => 0

/-- The tokens that a response reports as billed. -/
def Api.reported (api : Api) (body : Loaded) : Nat :=
  match body with
  | .value data =>
    ((api.inputKeys ++ api.outputKeys).map (countAt (data.get api.usageKey))).sum.toNat
  | _ => 0

/-! ## Gemini -/

/-- `_extract_text`. -/
def geminiText : List Value → Except Failure Str
  | [] => .ok []
  | candidate :: _ => do
    let content ← field candidate "content"
    match (content.getD .none).get "parts" with
    | .list parts => return parts.flatMap fun part => ((part.get "text").str?).getD []
    | _ => return []

/-- `GeminiLLMClient.complete`, from the decoded body on. -/
def geminiComplete (model : Str) (data : Value) : Except Failure LLMResult := do
  match ← field data "candidates" with
  | some (.list candidates) =>
    let text ← geminiText candidates
    if (strip text).isEmpty then throw .unavailable else resultOf .gemini data text model
  | _ => throw .unavailable

/-! ## OpenRouter -/

/-- `_extract_text`. -/
def openRouterText : List Value → Except Failure Str
  | [] => .ok []
  | choice :: _ => do
    let message ← field choice "message"
    return (((message.getD .none).get "content").str?).getD []

/-- `str(data.get("model", model))`. -/
def modelOf (p : Printing) (model : Str) (data : Value) : Except Failure Str := do
  match ← field data "model" with
  | some value => (pyStr p value).elim (throw .other) pure
  | none => return model

/-- `OpenRouterLLMClient.complete`, from the decoded body on. -/
def openRouterComplete (p : Printing) (model : Str) (data : Value) : Except Failure LLMResult := do
  match ← field data "choices" with
  | some (.list choices) =>
    let text ← openRouterText choices
    if (strip text).isEmpty then throw .unavailable else
      let model ← modelOf p model data
      resultOf .openRouter data text model
  | _ => throw .unavailable

/-! ## Anthropic -/

/-- `_extract_text`. -/
def anthropicText : List Value → Except Failure Str
  | [] => .ok []
  | block :: blocks => do
    let kind ← field block "type"
    match kind.bind Value.str?, (block.get "text").str? with
    | some kind, some text =>
      if kind = "text".toList then return text else anthropicText blocks
    | _, _ => anthropicText blocks

/-- `AnthropicLLMClient.complete`, from the decoded body on. -/
def anthropicComplete (p : Printing) (model : Str) (data : Value) : Except Failure LLMResult := do
  match ← field data "content" with
  | some (.list content) =>
    let text ← anthropicText content
    let model ← modelOf p model data
    resultOf .anthropic data text model
  | _ => throw .unavailable

/-! ## Clients -/

/-- An `LLMClient`, of a model or of two clients. -/
inductive LLMClient where
  | single (api : Api) (model : Str)
  | fallback (primary secondary : LLMClient)
  deriving DecidableEq, Repr

/-- One call of a client of one provider: what its requests met, and whether it
returned a result. -/
structure Visit (A : Type) where
  api : A
  exchanges : List Exchange
  returned : Bool

/-- `complete` of a client of one provider. -/
def Api.complete (api : Api) (p : Printing) (model : Str) (exchange : Exchange) :
    Except Failure LLMResult := do
  let data ← postJson exchange
  match api with
  | gemini => geminiComplete model data
  | openRouter => openRouterComplete p model data
  | anthropic => anthropicComplete p model data

/-- `complete`, on what its requests meet; a call whose request is never
answered is cancelled. -/
def LLMClient.complete (p : Printing) :
    LLMClient → List Exchange → Except Failure LLMResult × List (Visit Api) × List Exchange
  | single api _, [] => (.error .other, [⟨api, [], false⟩], [])
  | single api model, exchange :: exchanges =>
    let result := api.complete p model exchange
    (result, [⟨api, [exchange], result.isOk⟩], exchanges)
  | fallback primary secondary, exchanges =>
    match primary.complete p exchanges with
    | (.error .unavailable, visits, exchanges) =>
      let (result, visits', exchanges) := secondary.complete p exchanges
      (result, visits ++ visits', exchanges)
    | done => done

/-! ## What a result reports -/

/-- A key that is there or not, as it is read either way. -/
theorem get_of_field {value : Value} {key : String} {found : Option Value}
    (h : field value key = .ok found) : value.get key = found.getD .none := by
  cases value with
  | dict items =>
    obtain rfl := Except.ok.inj h
    rfl
  | _ => cases h

theorem countTokens_eq {usage : Value} : ∀ {keys : List String} {n : Int},
    countTokens usage keys = .ok n → (keys.map (countAt usage)).sum = n
  | [], n, h => Except.ok.inj h
  | key :: keys, n, h => by
    obtain ⟨count, hcount, h⟩ := bind_eq_ok h
    obtain ⟨m, hm, h⟩ := bind_eq_ok h
    obtain ⟨rest, hrest, h⟩ := bind_eq_ok h
    obtain rfl := Except.ok.inj h
    rw [List.map_cons, List.sum_cons, countTokens_eq hrest, countAt, get_of_field hcount]
    cases count with
    | none =>
      obtain rfl : 0 = m := Except.ok.inj hm
      rfl
    | some value =>
      rw [Option.getD_some] at hm ⊢
      cases hv : value.toInt with
      | error e =>
        rw [hv] at hm
        cases hm
      | ok k =>
        rw [hv] at hm
        obtain rfl := Except.ok.inj hm
        rfl

/-- An empty usage block counts nothing, and so does one that is not there. -/
theorem get_usageOf {api : Api} {data usage : Value} (h : usageOf api data = .ok usage) (key : String) :
    usage.get key = (data.get api.usageKey).get key := by
  obtain ⟨raw, hraw, h⟩ := bind_eq_ok h
  obtain rfl := Except.ok.inj h
  rw [get_of_field hraw]
  split
  · rfl
  · rename_i hfalsy
    cases hv : raw.getD .none with
    | dict items =>
      cases items with
      | nil => rfl
      | cons item items => simp [hv, Value.truthy] at hfalsy
    | _ => rfl

theorem resultOf_reported {api : Api} {data : Value} {text model : Str} {r : LLMResult}
    (h : resultOf api data text model = .ok r) :
    api.reported (.value data) = r.inputTokens + r.outputTokens := by
  obtain ⟨usage, husage, h⟩ := bind_eq_ok h
  obtain ⟨inputTokens, hinput, h⟩ := bind_eq_ok h
  obtain ⟨outputTokens, houtput, h⟩ := bind_eq_ok h
  have hsame : countAt usage = countAt (data.get api.usageKey) := by
    funext key
    rw [countAt, countAt, get_usageOf husage key]
  split at h
  · rename_i hnonneg
    obtain rfl := Except.ok.inj h
    show ((api.inputKeys ++ api.outputKeys).map (countAt (data.get api.usageKey))).sum.toNat =
      inputTokens.toNat + outputTokens.toNat
    rw [List.map_append, List.sum_append, ← hsame, countTokens_eq hinput, countTokens_eq houtput]
    exact Int.toNat_add hnonneg.1 hnonneg.2
  · cases h

theorem postJson_eq_ok {exchange : Exchange} {data : Value} (h : postJson exchange = .ok data) :
    ∃ status, exchange = .response status (.value data) := by
  unfold postJson at h
  split at h
  · cases h
  · cases h
  · rename_i status body
    split at h
    · cases h
    · split at h
      · obtain rfl := Except.ok.inj h
        exact ⟨status, rfl⟩
      · cases h
      · cases h

theorem geminiComplete_eq_ok {model : Str} {data : Value} {r : LLMResult}
    (h : geminiComplete model data = .ok r) : ∃ text, resultOf .gemini data text model = .ok r := by
  obtain ⟨found, _, h⟩ := bind_eq_ok h
  split at h
  · obtain ⟨text, _, h⟩ := bind_eq_ok h
    split at h
    · cases h
    · exact ⟨text, h⟩
  · cases h

theorem openRouterComplete_eq_ok {p : Printing} {model : Str} {data : Value} {r : LLMResult}
    (h : openRouterComplete p model data = .ok r) :
    ∃ text model, resultOf .openRouter data text model = .ok r := by
  obtain ⟨found, _, h⟩ := bind_eq_ok h
  split at h
  · obtain ⟨text, _, h⟩ := bind_eq_ok h
    split at h
    · cases h
    · obtain ⟨model, _, h⟩ := bind_eq_ok h
      exact ⟨text, model, h⟩
  · cases h

theorem anthropicComplete_eq_ok {p : Printing} {model : Str} {data : Value} {r : LLMResult}
    (h : anthropicComplete p model data = .ok r) :
    ∃ text model, resultOf .anthropic data text model = .ok r := by
  obtain ⟨found, _, h⟩ := bind_eq_ok h
  split at h
  · obtain ⟨text, _, h⟩ := bind_eq_ok h
    obtain ⟨model, _, h⟩ := bind_eq_ok h
    exact ⟨text, model, h⟩
  · cases h

/-- A client that returns has counted the tokens of the decoded body. -/
theorem reported_of_complete {api : Api} {p : Printing} {model : Str} {exchange : Exchange}
    {r : LLMResult} (h : api.complete p model exchange = .ok r) :
    ∃ status body, exchange = .response status body ∧
      api.reported body = r.inputTokens + r.outputTokens := by
  obtain ⟨data, hdata, hparse⟩ := bind_eq_ok h
  obtain ⟨status, rfl⟩ := postJson_eq_ok hdata
  refine ⟨status, .value data, rfl, ?_⟩
  cases api with
  | gemini =>
    obtain ⟨text, hr⟩ := geminiComplete_eq_ok hparse
    exact resultOf_reported hr
  | openRouter =>
    obtain ⟨text, model, hr⟩ := openRouterComplete_eq_ok hparse
    exact resultOf_reported hr
  | anthropic =>
    obtain ⟨text, model, hr⟩ := anthropicComplete_eq_ok hparse
    exact resultOf_reported hr

/-! ## What a visit was billed -/

/-- What a request was billed, if it was answered with 200. -/
def Exchange.billed (reported : Loaded → Nat) : Exchange → Nat
  | .response status body => if status = 200 then reported body else 0
  | _ => 0

/-- What the requests of a visit were billed. -/
def Visit.billed {A : Type} (reported : A → Loaded → Nat) (v : Visit A) : Nat :=
  (v.exchanges.map (Exchange.billed (reported v.api))).sum

/-- What the visits were billed. -/
def billedTokens {A : Type} (reported : A → Loaded → Nat) (visits : List (Visit A)) : Nat :=
  (visits.map (Visit.billed reported)).sum

/-- The visits that returned a result. -/
def returned {A : Type} (visits : List (Visit A)) : List (Visit A) := visits.filter Visit.returned

theorem billedTokens_append {A : Type} (reported : A → Loaded → Nat) (vs ws : List (Visit A)) :
    billedTokens reported (vs ++ ws) = billedTokens reported vs + billedTokens reported ws := by
  simp [billedTokens]

theorem returned_append {A : Type} (vs ws : List (Visit A)) :
    returned (vs ++ ws) = returned vs ++ returned ws := List.filter_append ..

theorem Exchange.billed_le (reported : Loaded → Nat) (status : Nat) (body : Loaded) :
    (Exchange.response status body).billed reported ≤ reported body := by
  rw [Exchange.billed]
  split
  · exact le_rfl
  · exact Nat.zero_le _

/-- The tokens of a result, or nothing. -/
def tokensOf : Except Failure LLMResult → Nat
  | .ok r => r.inputTokens + r.outputTokens
  | .error _ => 0

/-- The visits of a call that returned were billed no more tokens than its result
has, and there are none if the call raised. -/
theorem complete_billed (p : Printing) (client : LLMClient) (exchanges : List Exchange) :
    billedTokens Api.reported (returned (client.complete p exchanges).2.1) ≤
      tokensOf (client.complete p exchanges).1 := by
  induction client generalizing exchanges with
  | single api model =>
    cases exchanges with
    | nil => exact le_rfl
    | cons exchange exchanges =>
      rw [LLMClient.complete]
      cases h : api.complete p model exchange with
      | error e => exact Nat.zero_le _
      | ok r =>
        obtain ⟨status, body, rfl, hr⟩ := reported_of_complete h
        have hle := Exchange.billed_le api.reported status body
        rw [hr] at hle
        simpa [billedTokens, returned, Visit.billed, Except.isOk, Except.toBool, tokensOf] using hle
  | fallback primary secondary ihp ihs =>
    have hp := ihp exchanges
    rw [LLMClient.complete]
    split
    · rename_i visits rest hfailed
      rw [hfailed] at hp
      show billedTokens _ (returned (visits ++ (secondary.complete p rest).2.1)) ≤ _
      rw [returned_append, billedTokens_append, Nat.le_zero.mp hp, Nat.zero_add]
      exact ihs rest
    · exact hp

end CiteVyn.Llm
