import CiteVyn.Lib.Effects
import CiteVyn.Llm.Clients

/-! # The clients of the embedding providers

`embed` and `embed_documents` of `app/embeddings/openrouter.py` and
`app/embeddings/gemini.py`. Each request is tried again while its provider is
unavailable, and every answer with a body reports what it was billed. -/
namespace CiteVyn.Embeddings
open CiteVyn.Cost CiteVyn.Lib.Effects CiteVyn.Llm CiteVyn.Text

/-! ## Requests -/

/-- `_UNAVAILABLE_STATUSES`. -/
def unavailableStatuses : List Nat := [408, 429, 500, 502, 503, 504]

/-- `_MAX_INPUT_CHARS`. -/
def maxInputChars : Nat := 8000

/-- A call under way: the usage collected, what its requests have met, and what
the next ones will. -/
structure Session where
  usage : EmbeddingUsage
  met : List Exchange
  coming : List Exchange

abbrev Client (A : Type) := Effect Session Failure A

/-- The next request is sent; if it is never answered the call is cancelled. -/
def send : Client Exchange := fun s =>
  match s.coming with
  | [] => (.error .other, s)
  | exchange :: coming => (.ok exchange, { s with met := s.met ++ [exchange], coming })

/-- `report_embedding_usage`. -/
def reportEmbeddingUsage (inputTokens : Option Int) (requests : Nat) : Client Unit := fun s =>
  (.ok (), { s with usage := s.usage.report inputTokens requests })

/-- `_post` with the attempts that are left; `tokens` reads the billed tokens of
a body. -/
def post (tokens : Value → Except Failure (Option Int)) : Nat → Nat → Client Value
  | 0, _ => throw .unavailable
  | left + 1, attempt => do
    match ← send with
    | .timeout => post tokens left (attempt + 1)
    | .transportError => throw .unavailable
    | .response status body =>
      if status ∈ unavailableStatuses then post tokens left (attempt + 1)
      else if 400 ≤ status then throw .unavailable
      else
        match body with
        | .value body =>
          let count ← ofExcept (tokens body)
          reportEmbeddingUsage count (attempt + 1)
          return body
        | .notJson => throw .unavailable
        | .raises => throw .other

/-- `_guard_input`. -/
def guardInput (text : Str) : Client Unit :=
  if (strip text).isEmpty || maxInputChars < text.length then throw .unavailable else pure ()

/-- The slices of at most `size` texts. -/
def batches (size : Nat) (texts : List Str) : List (List Str) :=
  (List.range ((texts.length + size - 1) / size)).map fun i => (texts.drop (i * size)).take size

/-- `_extract_vector` and `_extract_values`: the numbers under a key of an item. -/
def extractVector (key : String) (dim : Nat) (item : Value) : Except Failure (List Value) :=
  match item.get key with
  | .list values =>
    if values.isEmpty then throw .unavailable else do
      let vector ← values.mapM fun v => v.toFloat.mapError fun e =>
        if e = .overflow then Failure.other else .unavailable
      if vector.length = dim then return vector else throw .unavailable
  | _ => throw .unavailable

structure Config where
  dim : Nat
  maxRetries : Nat
  deriving DecidableEq, Repr

/-- The vectors of one slice after the other. -/
def embedAll (embedSlice : List Str → Client (List (List Value))) :
    List (List Str) → Client (List (List Value))
  | [] => return []
  | inputs :: slices => do
    let vectors ← embedSlice inputs
    let out ← embedAll embedSlice slices
    return vectors ++ out

/-- The inputs are guarded, one after the other. -/
def guardAll : List Str → Client Unit
  | [] => return ()
  | text :: texts => do
    guardInput text
    guardAll texts

/-! ## OpenRouter -/

/-- A count of a usage block that is a positive `int`. -/
def positiveCount (usage : Value) (key : String) : Option Int :=
  match usage.get key with
  | .int n => if 0 < n then some n else none
  | _ => none

/-- The billed count of a usage block. -/
def billedCount (usage : Value) : Option Int :=
  (positiveCount usage "prompt_tokens").or (positiveCount usage "total_tokens")

/-- `_prompt_tokens`. -/
def promptTokens (body : Value) : Except Failure (Option Int) := do
  let usage ← field body "usage"
  return billedCount (usage.getD .none)

/-- The `index` of a row; `none` sends the rows back as they came. -/
def indexOf (row : Value) : Except Failure (Option Int) := do
  let index ← field row "index"
  match (index.getD .none).toInt with
  | .ok n => return some n
  | .error .overflow => throw .other
  | .error _ => return none

/-- The indices of the rows up to one that has none. -/
def indicesOf : List Value → Except Failure (Option (List Int))
  | [] => return some []
  | row :: rows => do
    match ← indexOf row with
    | none => return none
    | some n => return (← indicesOf rows).map (n :: ·)

/-- `_order_by_index`. -/
def orderByIndex (rows : List Value) (count : Nat) : Except Failure (List Value) := do
  match ← indicesOf rows with
  | none => return rows
  | some indices =>
    if indices.isPerm ((List.range count).map Int.ofNat) then
      return (indices.zip rows).foldl (fun ordered p => ordered.set p.1.toNat p.2)
        (List.replicate count .none)
    else return rows

/-- `_embed_inputs`. -/
def embedInputs (c : Config) (inputs : List Str) : Client (List (List Value)) := do
  let data ← post promptTokens (c.maxRetries + 1) 0
  match ← ofExcept (field data "data") with
  | some (.list rows) =>
    if rows.length ≠ inputs.length then throw .unavailable
    else
      let ordered ← ofExcept (orderByIndex rows inputs.length)
      ofExcept (ordered.mapM (extractVector "embedding" c.dim))
  | _ => throw .unavailable

/-- `_EMBED_BATCH_SIZE` of the OpenRouter client. -/
def openRouterBatchSize : Nat := 96

/-- `OpenRouterEmbedder.embed`. -/
def openRouterEmbed (c : Config) (text : Str) : Client (List (List Value)) := do
  guardInput text
  embedInputs c [text]

/-- `OpenRouterEmbedder.embed_documents`. -/
def openRouterEmbedDocuments (c : Config) (texts : List Str) : Client (List (List Value)) := do
  guardAll texts
  embedAll (embedInputs c) (batches openRouterBatchSize texts)

/-! ## Gemini -/

/-- `GeminiEmbedder.embed`. -/
def geminiEmbed (c : Config) (text : Str) : Client (List (List Value)) := do
  guardInput text
  let data ← post (fun _ => .ok none) (c.maxRetries + 1) 0
  let embedding ← ofExcept (field data "embedding")
  let vector ← ofExcept (extractVector "values" c.dim (embedding.getD .none))
  return [vector]

/-- `_embed_batch`. -/
def embedBatch (c : Config) (batch : List Str) : Client (List (List Value)) := do
  let data ← post (fun _ => .ok none) (c.maxRetries + 1) 0
  match ← ofExcept (field data "embeddings") with
  | some (.list embeddings) =>
    if embeddings.length ≠ batch.length then throw .unavailable
    else ofExcept (embeddings.mapM (extractVector "values" c.dim))
  | _ => throw .unavailable

/-- `_EMBED_BATCH_SIZE` of the Gemini client. -/
def geminiBatchSize : Nat := 100

/-- `GeminiEmbedder.embed_documents`. -/
def geminiEmbedDocuments (c : Config) (texts : List Str) : Client (List (List Value)) := do
  guardAll texts
  embedAll (embedBatch c) (batches geminiBatchSize texts)

/-! ## Embedders -/

inductive EmbeddingApi where
  | openRouter
  | gemini
  deriving DecidableEq, Repr

/-- The tokens that a response reports as billed; Gemini's report none. -/
def EmbeddingApi.reported : EmbeddingApi → Loaded → Nat
  | openRouter, .value body => ((billedCount (body.get "usage")).getD 0).toNat
  | _, _ => 0

/-- `embed`, as the one vector of a list. -/
def EmbeddingApi.embed : EmbeddingApi → Config → Str → Client (List (List Value))
  | openRouter => openRouterEmbed
  | gemini => geminiEmbed

def EmbeddingApi.embedDocuments : EmbeddingApi → Config → List Str → Client (List (List Value))
  | openRouter => openRouterEmbedDocuments
  | gemini => geminiEmbedDocuments

/-! ## Every answer is reported -/

/-- No answer was billed that is not in the usage. -/
def Reported (api : EmbeddingApi) (s : Session) : Prop :=
  (s.met.map (Exchange.billed api.reported)).sum ≤ s.usage.inputTokens

theorem report_inputTokens (usage : EmbeddingUsage) (count : Option Int) (requests : Nat) :
    (usage.report count requests).inputTokens = usage.inputTokens + (count.getD 0).toNat := by
  cases count with
  | none => rfl
  | some tokens =>
    simp only [EmbeddingUsage.report, Option.getD_some]
    split
    · rename_i h
      simp [Int.toNat_of_nonpos h]
    · rfl

/-- The billed tokens of a body are those that its client reads. -/
def Reads (api : EmbeddingApi) (tokens : Value → Except Failure (Option Int)) : Prop :=
  ∀ body, match tokens body with
    | .ok count => api.reported (.value body) = (count.getD 0).toNat
    | .error _ => api.reported (.value body) = 0

theorem reads_promptTokens : Reads .openRouter promptTokens := by
  intro body
  rw [promptTokens]
  cases h : field body "usage" with
  | error e =>
    cases body with
    | dict items => cases h
    | _ => rfl
  | ok usage =>
    show EmbeddingApi.reported .openRouter (.value body) = ((billedCount (usage.getD .none)).getD 0).toNat
    rw [← get_of_field h]
    rfl

theorem reads_none : Reads .gemini fun _ => .ok none := fun _ => rfl

theorem sum_billed_append (reported : Loaded → Nat) (met : List Exchange) (exchange : Exchange) :
    ((met ++ [exchange]).map (Exchange.billed reported)).sum =
      (met.map (Exchange.billed reported)).sum + exchange.billed reported := by
  simp

/-- An answer that reports nothing is not billed. -/
theorem keeps_post {api : EmbeddingApi} {tokens : Value → Except Failure (Option Int)}
    (hreads : Reads api tokens) (left attempt : Nat) :
    Keeps (Reported api) (post tokens left attempt) := by
  induction left generalizing attempt with
  | zero => exact Keeps.throw _
  | succ left ih =>
    intro s hs
    rw [post, perform_bind]
    cases hcoming : s.coming with
    | nil => simpa [perform, send, hcoming] using hs
    | cons exchange coming =>
      have hsend : perform send s =
          (.ok exchange, { s with met := s.met ++ [exchange], coming }) := by
        simp [perform, send, hcoming]
      rw [hsend]
      -- a request that is not billed changes nothing
      have hfree : exchange.billed api.reported = 0 →
          Reported api { s with met := s.met ++ [exchange], coming } := fun h => by
        rw [Reported, sum_billed_append, h]
        exact hs
      cases exchange with
      | timeout => exact ih _ _ (hfree rfl)
      | transportError => exact hfree rfl
      | response status body =>
        simp only
        split
        · rename_i hbusy
          have hne : status ≠ 200 := by
            rintro rfl
            simp [unavailableStatuses] at hbusy
          exact ih _ _ (hfree (if_neg hne))
        · split
          · rename_i hfour
            exact hfree (if_neg (by omega))
          · cases body with
            | notJson => exact hfree (by cases api <;> exact ite_self 0)
            | raises => exact hfree (by cases api <;> exact ite_self 0)
            | value body =>
              have hle := Exchange.billed_le api.reported status (.value body)
              have hread := hreads body
              simp only
              rw [perform_bind]
              cases htokens : tokens body with
              | error e =>
                rw [htokens] at hread
                exact hfree (Nat.le_zero.mp (hread ▸ hle))
              | ok count =>
                rw [htokens] at hread
                show (List.map _ (s.met ++ _)).sum ≤ (s.usage.report count (attempt + 1)).inputTokens
                rw [sum_billed_append, report_inputTokens]
                exact Nat.add_le_add hs (hread ▸ hle)

theorem keeps_guardInput {P : Session → Prop} (text : Str) : Keeps P (guardInput text) := by
  unfold guardInput
  split
  · exact Keeps.throw _
  · exact Keeps.pure _

theorem keeps_guardAll {P : Session → Prop} : ∀ texts : List Str, Keeps P (guardAll texts)
  | [] => Keeps.pure _
  | text :: texts => (keeps_guardInput text).bind fun _ => keeps_guardAll texts

theorem keeps_embedAll {P : Session → Prop} {embedSlice : List Str → Client (List (List Value))}
    (h : ∀ inputs, Keeps P (embedSlice inputs)) : ∀ slices, Keeps P (embedAll embedSlice slices)
  | [] => Keeps.pure _
  | inputs :: slices =>
    (h inputs).bind fun _ => (keeps_embedAll h slices).bind fun _ => Keeps.pure _

theorem keeps_embedInputs (c : Config) (inputs : List Str) :
    Keeps (Reported .openRouter) (embedInputs c inputs) := by
  refine (keeps_post reads_promptTokens _ _).bind fun data => (Keeps.ofExcept _).bind fun found => ?_
  split
  · split
    · exact Keeps.throw _
    · exact (Keeps.ofExcept _).bind fun _ => Keeps.ofExcept _
  · exact Keeps.throw _

theorem keeps_embedBatch (c : Config) (batch : List Str) :
    Keeps (Reported .gemini) (embedBatch c batch) := by
  refine (keeps_post reads_none _ _).bind fun data => (Keeps.ofExcept _).bind fun found => ?_
  split
  · split
    · exact Keeps.throw _
    · exact Keeps.ofExcept _
  · exact Keeps.throw _

theorem keeps_embed (api : EmbeddingApi) (c : Config) (text : Str) :
    Keeps (Reported api) (api.embed c text) := by
  cases api with
  | openRouter => exact (keeps_guardInput text).bind fun _ => keeps_embedInputs c [text]
  | gemini =>
    exact (keeps_guardInput text).bind fun _ => (keeps_post reads_none _ _).bind fun _ =>
      (Keeps.ofExcept _).bind fun _ => (Keeps.ofExcept _).bind fun _ => Keeps.pure _

theorem keeps_embedDocuments (api : EmbeddingApi) (c : Config) (texts : List Str) :
    Keeps (Reported api) (api.embedDocuments c texts) := by
  cases api with
  | openRouter => exact (keeps_guardAll texts).bind fun _ => keeps_embedAll (keeps_embedInputs c) _
  | gemini => exact (keeps_guardAll texts).bind fun _ => keeps_embedAll (keeps_embedBatch c) _

end CiteVyn.Embeddings
