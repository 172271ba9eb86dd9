import CiteVyn.Cost.Admission
import CiteVyn.Embeddings.Clients

/-! # Metered calls

`MeteredLLMClient` and `MeteredEmbedder` of `app/cost/metered.py`. A call is
recorded after it has returned; a call that raises is not, whatever its
requests were billed. -/
namespace CiteVyn.Cost
open CiteVyn.Embeddings CiteVyn.Lib.Effects CiteVyn.Llm CiteVyn.Text

/-- The clients that are metered. -/
structure Providers extends Deployment where
  printing : Printing
  llm : LLMClient
  embedder : EmbeddingApi
  config : Config

inductive Call where
  | complete (system user : Str) (maxTokens : Nat)
  | embed (text : Str)
  | embedDocuments (texts : List Str)
  deriving DecidableEq, Repr

/-- A call, when its budget is checked and when it is recorded, and what its
requests meet. -/
structure Turn where
  call : Call
  checkedAt : Time
  recordedAt : Time
  exchanges : List Exchange

structure Ledger where
  /-- the rows of `provider_calls`, the last one first -/
  rows : List ProviderCall
  completions : List (Visit Api)
  embeddings : List (Visit EmbeddingApi)

/-- `enforce_budget` on the spend of the day does not raise. -/
def Ledger.allows (p : Providers) (l : Ledger) (now : Time) : Bool :=
  (enforceBudget p.settings (some (spendSince l.rows (utcDayStart now)))).isSome

def Ledger.record (l : Ledger) (row : ProviderCall) : Ledger := { l with rows := row :: l.rows }

/-- `MeteredLLMClient.complete`. -/
def meterComplete (p : Providers) (l : Ledger) (t : Turn) (promptChars maxTokens : Nat) : Ledger :=
  if l.allows p t.checkedAt then
    let done := p.llm.complete p.printing t.exchanges
    let l := { l with completions := l.completions ++ done.2.1 }
    match done.1 with
    | .ok result => l.record (llmCall p.priceFor result promptChars maxTokens t.recordedAt)
    | .error _ => l
  else l

/-- `MeteredEmbedder._run`, which checks the budget for a query and not for ingest. -/
def meterEmbed (p : Providers) (l : Ledger) (t : Turn) (isIngest : Bool) (chars : Nat)
    (call : Client (List (List Value))) : Ledger :=
  let done := perform call ⟨.new, [], t.exchanges⟩
  let visited := { l with embeddings := l.embeddings ++ [⟨p.embedder, done.2.met, done.1.isOk⟩] }
  if chars = 0 then visited
  else if isIngest || l.allows p t.checkedAt then
    match done.1 with
    | .ok _ => visited.record
        (embeddingCall p.priceFor p.embeddingProvider p.embeddingModel done.2.usage chars t.recordedAt)
    | .error _ => visited
  else l

/-- One call through the wrappers. -/
def meter (p : Providers) (l : Ledger) (t : Turn) : Ledger :=
  match t.call with
  | .complete system user maxTokens => meterComplete p l t (system.length + user.length) maxTokens
  | .embed text => meterEmbed p l t false text.length (p.embedder.embed p.config text)
  | .embedDocuments texts =>
    meterEmbed p l t true (texts.map List.length).sum (p.embedder.embedDocuments p.config texts)

def Ledger.new : Ledger := ⟨[], [], []⟩

/-- One call after the other. -/
def metered (p : Providers) (turns : List Turn) : Ledger := turns.foldl (meter p) .new

/-! ## What is billed and what is recorded -/

/-- The input and output tokens of the rows. -/
def Ledger.recorded (l : Ledger) : Nat :=
  (l.rows.map fun row => row.inputTokens + row.outputTokens).sum

/-- The tokens that all answers reported as billed. -/
def Ledger.billed (l : Ledger) : Nat :=
  billedTokens Api.reported l.completions + billedTokens EmbeddingApi.reported l.embeddings

/-- Those of the clients' calls that returned. -/
def Ledger.billedReturned (l : Ledger) : Nat :=
  billedTokens Api.reported (returned l.completions) +
    billedTokens EmbeddingApi.reported (returned l.embeddings)

/-- How many calls of the clients have returned. -/
def Ledger.returns (l : Ledger) : Nat :=
  (returned l.completions).length + (returned l.embeddings).length

/-- What holds after every call. -/
structure Ledger.Covers (l : Ledger) : Prop where
  tokens : l.billedReturned ≤ l.recorded
  rows : l.rows.length ≤ l.returns

theorem recorded_record (l : Ledger) (row : ProviderCall) :
    (l.record row).recorded = row.inputTokens + row.outputTokens + l.recorded := rfl

/-- A call of a client that returns has one visit that did. -/
theorem returned_complete {p : Printing} {client : LLMClient} {exchanges : List Exchange}
    {r : LLMResult} (h : (client.complete p exchanges).1 = .ok r) :
    1 ≤ (returned (client.complete p exchanges).2.1).length := by
  induction client generalizing exchanges with
  | single api model =>
    cases exchanges with
    | nil => cases h
    | cons exchange exchanges =>
      have hok : api.complete p model exchange = .ok r := h
      simp [LLMClient.complete, returned, hok, Except.isOk, Except.toBool]
  | fallback primary secondary ihp ihs =>
    rw [LLMClient.complete] at h ⊢
    split at h
    · rename_i visits rest hfailed
      have hone : 1 ≤ (returned (secondary.complete p rest).2.1).length := ihs h
      show 1 ≤ (returned (visits ++ (secondary.complete p rest).2.1)).length
      rw [returned_append, List.length_append]
      omega
    · exact ihp h

theorem covers_complete {p : Providers} {l : Ledger} (hl : l.Covers) (t : Turn)
    (promptChars maxTokens : Nat) : (meterComplete p l t promptChars maxTokens).Covers := by
  unfold meterComplete
  split
  · have hbilled := complete_billed p.printing p.llm t.exchanges
    have hreturned := @returned_complete p.printing p.llm t.exchanges
    simp only
    generalize p.llm.complete p.printing t.exchanges = done at hbilled hreturned
    obtain ⟨result, visits, rest⟩ := done
    obtain ⟨htokens, hrows⟩ := hl
    simp only [Ledger.billedReturned, Ledger.returns] at htokens hrows
    cases result with
    | error e =>
      constructor
      · have : tokensOf (.error e) = 0 := rfl
        simp only [Ledger.billedReturned, returned_append, billedTokens_append]
        show _ ≤ l.recorded
        simp only at hbilled
        omega
      · simp only [Ledger.returns, returned_append, List.length_append]
        omega
    | ok r =>
      obtain ⟨hin, hout⟩ := llmCall_tokens p.priceFor r promptChars maxTokens t.recordedAt
      have hone := hreturned rfl
      constructor
      · rw [recorded_record]
        show billedTokens _ (returned (l.completions ++ visits)) + billedTokens _ (returned l.embeddings) ≤
          _ + l.recorded
        rw [returned_append, billedTokens_append]
        have hle : billedTokens Api.reported (returned visits) ≤ r.inputTokens + r.outputTokens := hbilled
        omega
      · show l.rows.length + 1 ≤
          (returned (l.completions ++ visits)).length + (returned l.embeddings).length
        rw [returned_append, List.length_append]
        simp only at hone
        omega
  · exact hl

/-- A call of an embedder, which has reported what it was billed. -/
theorem covers_embed {p : Providers} {l : Ledger} (hl : l.Covers) (t : Turn) (isIngest : Bool)
    {chars : Nat} {call : Client (List (List Value))} (hkeeps : Keeps (Reported p.embedder) call)
    (hempty : chars = 0 → (perform call ⟨.new, [], t.exchanges⟩).2.met = []) :
    (meterEmbed p l t isIngest chars call).Covers := by
  have hreported := hkeeps ⟨.new, [], t.exchanges⟩ (Nat.zero_le _)
  unfold meterEmbed
  simp only
  generalize perform call ⟨.new, [], t.exchanges⟩ = done at hreported hempty
  obtain ⟨result, session⟩ := done
  obtain ⟨htokens, hrows⟩ := hl
  simp only [Ledger.billedReturned, Ledger.returns] at htokens hrows
  -- the visit alone
  have hvisit : billedTokens EmbeddingApi.reported (returned [⟨p.embedder, session.met, result.isOk⟩]) ≤
      session.usage.inputTokens := by
    cases hok : result.isOk with
    | false => simp [returned, billedTokens]
    | true => simpa [returned, billedTokens, Visit.billed, Reported] using hreported
  have hnew : (Ledger.mk l.rows l.completions
      (l.embeddings ++ [⟨p.embedder, session.met, result.isOk⟩])).billedReturned =
        l.billedReturned + billedTokens EmbeddingApi.reported
          (returned [⟨p.embedder, session.met, result.isOk⟩]) := by
    simp only [Ledger.billedReturned, returned_append, billedTokens_append]
    omega
  split
  · rename_i hzero
    have hmet : session.met = [] := hempty hzero
    constructor
    · rw [hnew]
      have hnone : billedTokens EmbeddingApi.reported
          (returned [⟨p.embedder, session.met, result.isOk⟩]) = 0 := by
        cases result.isOk <;> simp [returned, billedTokens, Visit.billed, hmet]
      rw [hnone]
      exact htokens
    · simp only [Ledger.returns, returned_append, List.length_append]
      omega
  · split
    · cases result with
      | error e =>
        constructor
        · rw [hnew]
          exact htokens
        · simp only [Ledger.returns, returned_append, List.length_append]
          omega
      | ok vectors =>
        have hle := embeddingCall_tokens p.priceFor p.embeddingProvider p.embeddingModel session.usage
          chars t.recordedAt
        constructor
        · rw [recorded_record]
          show (Ledger.mk l.rows l.completions (l.embeddings ++ [_])).billedReturned ≤ _ + l.recorded
          rw [hnew]
          have hsum := Nat.add_le_add htokens (hvisit.trans hle)
          exact hsum.trans (by rw [Nat.add_comm]; exact Nat.add_le_add_right (Nat.le_add_right _ _) _)
        · show l.rows.length + 1 ≤ (returned l.completions).length +
            (returned (l.embeddings ++ [⟨p.embedder, session.met, true⟩])).length
          rw [returned_append, List.length_append]
          show _ ≤ _ + (_ + 1)
          omega
    · exact ⟨htokens, hrows⟩

/-- Nothing is sent for an empty text. -/
theorem met_embed_nil (api : EmbeddingApi) (c : Config) (s : Session) :
    (perform (api.embed c []) s).2 = s := by
  cases api <;> rfl

/-- Nothing is sent for documents without a text. -/
theorem met_embedDocuments_nil (api : EmbeddingApi) (c : Config) {texts : List Str}
    (h : (texts.map List.length).sum = 0) (s : Session) :
    (perform (api.embedDocuments c texts) s).2 = s := by
  cases texts with
  | nil => cases api <;> rfl
  | cons text texts =>
    have hlength : text.length = 0 := by
      rw [List.map_cons, List.sum_cons] at h
      omega
    obtain rfl := List.eq_nil_of_length_eq_zero hlength
    cases api <;> rfl

theorem covers_meter {p : Providers} {l : Ledger} (hl : l.Covers) (t : Turn) :
    (meter p l t).Covers := by
  unfold meter
  split
  · exact covers_complete hl t _ _
  · rename_i text _
    refine covers_embed hl t false (keeps_embed _ _ _) fun h => ?_
    obtain rfl := List.eq_nil_of_length_eq_zero h
    rw [met_embed_nil]
  · refine covers_embed hl t true (keeps_embedDocuments _ _ _) fun h => ?_
    rw [met_embedDocuments_nil _ _ h]

/-- **What a returned call was billed is recorded**: after any sequence of calls
the recorded tokens are at least those that the answers of the client calls that
returned reported; and only a call that returned has a row. -/
theorem returned_recorded (p : Providers) (turns : List Turn) :
    (metered p turns).billedReturned ≤ (metered p turns).recorded ∧
      (metered p turns).rows.length ≤ (metered p turns).returns := by
  have hcovers : (metered p turns).Covers := by
    refine List.foldlRecOn turns (meter p) ⟨le_rfl, le_rfl⟩ ?_
    intro l hl t _
    exact covers_meter hl t
  exact ⟨hcovers.tokens, hcovers.rows⟩

/-! ## A call that is billed and raises -/

def geminiAlone : Providers where
  toDeployment := oneSlot
  printing := .ascii
  llm := .single .gemini "gemini-3.6-flash".toList
  embedder := .openRouter
  config := ⟨1536, 2⟩

/-- The whole budget of the answer is thought away. -/
def noText : Exchange :=
  .response 200 (.value (.dict [("candidates".toList, .list [.dict []]),
    ("usageMetadata".toList, .dict [("promptTokenCount".toList, .int 100),
      ("thoughtsTokenCount".toList, .int 64)])]))

theorem raised_unrecorded :
    (metered geminiAlone [⟨.complete "s".toList "u".toList 64, 0, 0, [noText]⟩]).billed = 164 ∧
      (metered geminiAlone [⟨.complete "s".toList "u".toList 64, 0, 0, [noText]⟩]).recorded = 0 := by
  decide +kernel

end CiteVyn.Cost
