import CiteVyn.Text.Python

/-! # What a paid call is recorded as

`build_call` of `app/cost/meter.py`, the token counts of `app/cost/metered.py`
and the collector of `app/cost/usage.py`. Money is counted in millionths of a
dollar, which is what the column `cost_usd` keeps. -/
namespace CiteVyn.Cost
open CiteVyn.Text

/-- Microseconds since the epoch, UTC. -/
abbrev Time := Int

/-- `LLMResult`; its token counts are checked not to be negative. -/
structure LLMResult where
  text : Str
  inputTokens : Nat
  outputTokens : Nat
  model : Str
  provider : Str
  deriving DecidableEq, Repr

/-! ## Prices -/

/-- `TokenPrice`, in millionths of a dollar for a million tokens. -/
structure TokenPrice where
  inputPer1m : Nat
  outputPer1m : Nat
  deriving DecidableEq, Repr

/-- `cost_for`, rounded as the column is. -/
def TokenPrice.costFor (price : TokenPrice) (inputTokens outputTokens : Nat) : Nat :=
  (inputTokens * price.inputPer1m + outputTokens * price.outputPer1m + 500000) / 1000000

/-- `price_for`: what a provider takes for a model, if that is known. -/
abbrev PriceBook := Str → Str → Option TokenPrice

/-- `canonical_provider`. -/
def canonicalProvider (provider : Str) : Str :=
  if provider = "openrouter".toList then "router".toList else provider

/-! ## Rows -/

inductive CallKind where
  | llm
  | embedding
  deriving DecidableEq, Repr

/-- `ProviderCall`. -/
structure ProviderCall where
  occurredAt : Time
  kind : CallKind
  provider : Str
  model : Str
  inputTokens : Nat
  outputTokens : Nat
  attempts : Nat
  costUsd : Nat
  inputPricePer1m : Option Nat
  outputPricePer1m : Option Nat
  priced : Bool
  tokensEstimated : Bool
  deriving DecidableEq, Repr

/-- `build_call`. -/
def buildCall (priceFor : PriceBook) (kind : CallKind) (provider model : Str)
    (inputTokens outputTokens attempts : Nat) (tokensEstimated : Bool) (now : Time) :
    ProviderCall :=
  let price := priceFor provider model
  { occurredAt := now
    kind, provider, model, inputTokens, outputTokens
    attempts := max 1 attempts
    costUsd := (price.map fun price => price.costFor inputTokens outputTokens).getD 0
    inputPricePer1m := price.map TokenPrice.inputPer1m
    outputPricePer1m := price.map TokenPrice.outputPer1m
    priced := price.isSome
    tokensEstimated }

/-! ## Token counts -/

/-- `_CHARS_PER_TOKEN`. -/
def charsPerToken : Nat := 4

/-- `_resolve_tokens`: input tokens, output tokens, and whether they are a guess. -/
def resolveTokens (result : LLMResult) (promptChars maxTokens : Nat) : Nat × Nat × Bool :=
  if 0 < result.inputTokens || 0 < result.outputTokens then
    (result.inputTokens, result.outputTokens, false)
  else
    (max 1 (promptChars / charsPerToken),
      if result.text.isEmpty then maxTokens else max 1 (result.text.length / charsPerToken), true)

/-- `EmbeddingUsage`. -/
structure EmbeddingUsage where
  inputTokens : Nat
  requests : Nat
  reportedRequests : Nat
  deriving DecidableEq, Repr

/-- What `collect_embedding_usage` installs. -/
def EmbeddingUsage.new : EmbeddingUsage := ⟨0, 0, 0⟩

/-- `fully_reported`. -/
def EmbeddingUsage.fullyReported (usage : EmbeddingUsage) : Bool :=
  0 < usage.requests && usage.reportedRequests = usage.requests

/-- `report_embedding_usage`. -/
def EmbeddingUsage.report (usage : EmbeddingUsage) (inputTokens : Option Int) (requests : Nat) :
    EmbeddingUsage :=
  let usage := { usage with requests := usage.requests + max 1 requests }
  match inputTokens with
  | none => usage
  | some tokens =>
    if tokens ≤ 0 then usage
    else { usage with
      inputTokens := usage.inputTokens + tokens.toNat
      reportedRequests := usage.reportedRequests + 1 }

/-- `_resolve_embedding_tokens`. -/
def resolveEmbeddingTokens (usage : EmbeddingUsage) (chars : Nat) : Nat × Bool :=
  let estimate := max 1 (chars / charsPerToken)
  if usage.fullyReported then (usage.inputTokens, false)
  else (max estimate usage.inputTokens, true)

/-- The row that `_meter` of `MeteredLLMClient` builds. -/
def llmCall (priceFor : PriceBook) (result : LLMResult) (promptChars maxTokens : Nat) (now : Time) :
    ProviderCall :=
  let (inputTokens, outputTokens, estimated) := resolveTokens result promptChars maxTokens
  buildCall priceFor .llm result.provider result.model inputTokens outputTokens 1 estimated now

/-- The row that `_meter` of `MeteredEmbedder` builds. -/
def embeddingCall (priceFor : PriceBook) (provider model : Str) (usage : EmbeddingUsage)
    (chars : Nat) (now : Time) : ProviderCall :=
  let (inputTokens, estimated) := resolveEmbeddingTokens usage chars
  buildCall priceFor .embedding (canonicalProvider provider) model inputTokens 0
    (max 1 usage.requests) estimated now

/-! ## What was billed is recorded -/

theorem llmCall_tokens (priceFor : PriceBook) (result : LLMResult) (promptChars maxTokens : Nat)
    (now : Time) :
    result.inputTokens ≤ (llmCall priceFor result promptChars maxTokens now).inputTokens ∧
      result.outputTokens ≤ (llmCall priceFor result promptChars maxTokens now).outputTokens := by
  by_cases h : 0 < result.inputTokens ∨ 0 < result.outputTokens
  · simp [llmCall, resolveTokens, buildCall, h]
  · have hin : result.inputTokens = 0 := by omega
    have hout : result.outputTokens = 0 := by omega
    rw [hin, hout]
    exact ⟨Nat.zero_le _, Nat.zero_le _⟩

theorem embeddingCall_tokens (priceFor : PriceBook) (provider model : Str) (usage : EmbeddingUsage)
    (chars : Nat) (now : Time) :
    usage.inputTokens ≤ (embeddingCall priceFor provider model usage chars now).inputTokens := by
  show usage.inputTokens ≤ (resolveEmbeddingTokens usage chars).1
  rw [resolveEmbeddingTokens]
  split
  · exact le_rfl
  · exact le_max_right _ _

end CiteVyn.Cost
