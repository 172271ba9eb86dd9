import CiteVyn.Answer.Citations

/-! # `Orchestrator.ask`

The answer pipeline of `app/answer/orchestrator.py`, from the routed question
on: refusals, cache, retrieval, generation, validation, the second chance
without the exact-term arm, and the grounded answer. What lies outside (the
retriever, the model, the cache store, the active index row) is an
environment that answers every call; what routing decided is an input. -/
namespace CiteVyn.Answer
open CiteVyn.Lib.Scan CiteVyn.Text CiteVyn.Llm

inductive Domain where
  | claudeApi
  | claudeCode
  | codex
  | geminiApi
  | citevyn
  | unsupported
  | general
  deriving Repr, DecidableEq

def Domain.value : Domain → String
  | .claudeApi => "claude_api"
  | .claudeCode => "claude_code"
  | .codex => "codex"
  | .geminiApi => "gemini_api"
  | .citevyn => "citevyn"
  | .unsupported => "unsupported"
  | .general => "general"

/-- `is_unsupported`. -/
def isUnsupported (domain : Domain) : Bool := domain == .unsupported

inductive Intent where
  | faq
  | exactLookup
  | howTo
  | clarify
  | noAnswer
  | greeting
  | unsupported
  deriving Repr, DecidableEq

/-- `should_skip_retrieval`. -/
def shouldSkipRetrieval (intent : Intent) : Bool := intent == .unsupported || intent == .clarify

inductive VectorDegrade where
  | none
  | mismatch
  | unavailable
  | ambiguousIndex
  deriving Repr, DecidableEq

inductive RetrievalStrategy where
  | none
  | cache
  | exactLookup
  | hybridReranked
  deriving Repr, DecidableEq

structure RetrievalResult where
  hits : List EvidenceHit
  vectorDegrade : VectorDegrade
  deriving Repr, DecidableEq

structure Settings where
  answerWhenGrounded : Bool
  comparisonAnswers : Bool
  unsupportedRefusal : Str
  noAnswerFallback : Str
  greetingResponse : Str
  retrievalMaxCandidates : Nat
  retrievalTopK : Nat
  answerPolicyVersion : String

/-- `MAX_MULTIHOP_DOMAINS`. -/
def maxMultihopDomains : Nat := 3

/-- The pre-image of `build_cache_key`; its digest is taken as injective. -/
structure CacheKey where
  normalizedQuestion : Str
  productArea : String
  sourceVersionHash : String
  answerPolicyVersion : String
  embedderIdentity : String
  deriving Repr, DecidableEq

structure CachedAnswer where
  answer : Str
  citations : List Citation
  confidence : Confidence
  sourceVersionHash : String
  answerPolicyVersion : String
  deriving Repr, DecidableEq

/-- A call of `retrieve` or `retrieve_multi`. -/
inductive RetrieveCall where
  | retrieve (question : Str) (productArea : Option String) (intent : Intent) (limit topK : Nat)
  | retrieveMulti (question : Str) (productAreas : List String) (intent : Intent) (limit topK : Nat)
  deriving Repr, DecidableEq

/-- A call of `AnswerGenerator.generate`. -/
structure GenerateCall where
  question : Str
  evidence : List EvidenceHit
  instruction : Option String
  deriving Repr, DecidableEq

/-- The two generation paths of one run. -/
inductive Attempt where
  | first
  | retry
  deriving Repr, DecidableEq

/-- Everything `ask` calls outside itself. The retriever and the model may
answer the two attempts differently; the error is `LLMUnavailable`. -/
structure Env where
  retrieve : Attempt → RetrieveCall → RetrievalResult
  generate : Attempt → GenerateCall → Except String Str
  activeIndex : String × String
  cacheGet : CacheKey → Option CachedAnswer
  embedderIdentity : String
  unicode : Unicode

/-- What `ask` has decided when retrieval starts: whether the question is a bare
greeting, its domain and intent, the product areas it names and the query. -/
structure Route where
  greeting : Bool
  domain : Domain
  intent : Intent
  multiDomains : List Domain
  retrievalQuery : Str
  deriving Repr, DecidableEq

structure Suggestion where
  title : String
  url : String
  productArea : String
  deriving Repr, DecidableEq

structure AnswerResponse where
  answer : Str
  citations : List Citation := []
  docsAsOf : Option String := none
  domain : Domain
  intent : Intent
  confidence : Confidence := .none
  cacheHit : Bool := false
  retrievalStrategy : RetrievalStrategy := .none
  unsupported : Bool := false
  noAnswer : Bool := false
  sourceVersionHash : String := ""
  answerPolicyVersion : String := ""
  suggestions : List Suggestion := []
  deriving Repr, DecidableEq

/-- A run that answers: the response, and what it persists (the retrieved
evidence, the outcome and reason of the audit event, the cache row). -/
structure Outcome where
  response : AnswerResponse
  evidence : List EvidenceHit := []
  outcome : String
  reason : Option String := none
  cachePut : Option (CacheKey × CachedAnswer) := none
  deriving Repr, DecidableEq

/-- How a run ends without a response. -/
inductive AskError where
  /-- `OrchestratorError`. -/
  | orchestrator (message : String)
  /-- The `ValueError` of `int` on a marker. -/
  | value (error : IntError)
  /-- `IndexError`. -/
  | index
  deriving Repr, DecidableEq

/-! ## The responses -/

/-- `_MAX_SUGGESTIONS`. -/
def maxSuggestions : Nat := 3

/-- `build_suggestions`, with the sources seen so far. -/
def suggestionsFrom (seen : List String) : List EvidenceHit → List Suggestion
  | [] => []
  | hit :: evidence =>
    if seen.contains hit.sourceName then suggestionsFrom seen evidence
    else
      { title := hit.documentTitle, url := hit.sourceUrl, productArea := hit.productArea } ::
        suggestionsFrom (hit.sourceName :: seen) evidence

def buildSuggestions (evidence : List EvidenceHit) : List Suggestion :=
  (suggestionsFrom [] evidence).take maxSuggestions

/-- `_respond_greeting`. -/
def respondGreeting (s : Settings) (domain : Domain) : Outcome where
  response :=
    { answer := s.greetingResponse
      domain := if isUnsupported domain then .general else domain
      intent := .greeting }
  outcome := "greeting"

/-- `_respond_unsupported`. -/
def respondUnsupported (s : Settings) (domain : Domain) : Outcome where
  response :=
    { answer := s.unsupportedRefusal
      domain
      intent := .unsupported
      unsupported := true
      noAnswer := true }
  outcome := "unsupported"
  reason := some "unsupported_domain"

/-- `_respond_cache_hit`. -/
def respondCacheHit (domain : Domain) (intent : Intent) (cached : CachedAnswer) : Outcome where
  response :=
    { answer := cached.answer
      citations := cached.citations
      docsAsOf := docsAsOf cached.citations
      domain
      intent
      confidence := cached.confidence
      cacheHit := true
      retrievalStrategy := .cache
      sourceVersionHash := cached.sourceVersionHash
      answerPolicyVersion := cached.answerPolicyVersion }
  outcome := "cache_hit"

def suggestionsFor (intent : Intent) (evidence : List EvidenceHit) : List Suggestion :=
  if intent == .unsupported then [] else buildSuggestions evidence

/-- `_respond_no_answer`. -/
def respondNoAnswer (s : Settings) (domain : Domain) (intent : Intent) (reason : String)
    (evidence : List EvidenceHit) : Outcome where
  response :=
    { answer := s.noAnswerFallback
      domain
      intent
      noAnswer := true
      suggestions := suggestionsFor intent evidence }
  evidence := evidence
  outcome := "no_answer"
  reason := some reason

/-- `_respond_validation_failed`. -/
def respondValidationFailed (s : Settings) (domain : Domain) (intent : Intent) (reason : String)
    (evidence : List EvidenceHit) (strategy : RetrievalStrategy) : Outcome where
  response :=
    { answer := s.noAnswerFallback
      domain
      intent
      retrievalStrategy := strategy
      noAnswer := true
      suggestions := suggestionsFor intent evidence }
  evidence := evidence
  outcome := "citation_validation_failed"
  reason := some reason

/-! ## The pipeline -/

/-- `_strategy_for`. -/
def strategyFor (intent : Intent) (evidence : List EvidenceHit) : RetrievalStrategy :=
  if evidence.isEmpty then .none
  else if intent == .exactLookup && evidence.all (·.retrievalType == .exact) then .exactLookup
  else .hybridReranked

/-- `_FLAG_TOKEN_RE`. -/
def flagToken (u : Unicode) : Pattern Char := fun pre rest =>
  let dashes := (rest.takeWhile (· == '-')).length
  let tail := rest.drop dashes
  if pre.head?.any (!isSpace ·) || dashes == 0 || 2 < dashes then none
  else if !tail.head?.any fun c => isUpperAscii c || isLowerAscii c then none
  else some (dashes + (tail.takeWhile fun c => u.isWord c || c == '-').length)

/-- `str.split()`. -/
def splitWords (s : Str) : List Str :=
  (s.splitOnP isSpace).filter (!·.isEmpty)

/-- `_strip_flag_tokens`. -/
def stripFlagTokens (u : Unicode) (question : Str) : Str :=
  [' '].intercalate (splitWords (sub (flagToken u) (fun _ => [' ']) question))

/-- `_searched`. -/
def searched (domains : List Domain) : List String :=
  (domains.map Domain.value).take maxMultihopDomains

/-- `_policy_version`. -/
def policyVersion (s : Settings) : String :=
  if s.comparisonAnswers then s.answerPolicyVersion ++ "+cmp" else s.answerPolicyVersion

/-- The intent `ask` works with. -/
def effectiveIntent (route : Route) : Intent :=
  if isUnsupported route.domain then .unsupported else route.intent

def answerGlobally (s : Settings) (route : Route) : Bool :=
  s.answerWhenGrounded && effectiveIntent route == .unsupported

def multiHop (route : Route) : Bool := 2 ≤ route.multiDomains.length

/-- `"+".join(sorted(d.value for d in multi_domains))`, or the domain. -/
def cacheProductArea (route : Route) : String :=
  if multiHop route then
    "+".intercalate ((route.multiDomains.map Domain.value).insertionSort (· ≤ ·))
  else route.domain.value

def cacheKey (s : Settings) (env : Env) (route : Route) : CacheKey where
  normalizedQuestion := lower (strip route.retrievalQuery)
  productArea := cacheProductArea route
  sourceVersionHash := env.activeIndex.2
  answerPolicyVersion := policyVersion s
  embedderIdentity := env.embedderIdentity

/-- The retrieval of an attempt: the retry searches as a plain question, without
the flag tokens. -/
def retrieveCall (s : Settings) (env : Env) (route : Route) (attempt : Attempt) : RetrieveCall :=
  let (query, intent) :=
    match attempt with
    | .first => (route.retrievalQuery, effectiveIntent route)
    | .retry =>
      let stripped := stripFlagTokens env.unicode route.retrievalQuery
      (if stripped.isEmpty then route.retrievalQuery else stripped, .faq)
  if multiHop route then
    .retrieveMulti query (route.multiDomains.map Domain.value) intent s.retrievalMaxCandidates
      s.retrievalTopK
  else
    .retrieve query (if answerGlobally s route then none else some route.domain.value) intent
      s.retrievalMaxCandidates s.retrievalTopK

def retrieval (s : Settings) (env : Env) (route : Route) (attempt : Attempt) : RetrievalResult :=
  env.retrieve attempt (retrieveCall s env route attempt)

/-- `_generate`: always against the original question. -/
def generation (s : Settings) (env : Env) (route : Route) (attempt : Attempt) :
    Except String Str :=
  env.generate attempt
    { question := route.retrievalQuery
      evidence := (retrieval s env route attempt).hits
      instruction :=
        if s.comparisonAnswers && multiHop route then
          some (comparisonInstruction (searched route.multiDomains))
        else none }

/-- The four values that travel together, and the label derived from them. -/
structure Grounding where
  evidence : List EvidenceHit
  vectorDegrade : VectorDegrade
  text : Str
  validation : CitationValidationResult
  strategy : RetrievalStrategy

/-- `_retry_without_exact_lookup`. -/
def retryWithoutExactLookup (s : Settings) (env : Env) (route : Route) :
    Except AskError (Option Grounding) :=
  let result := retrieval s env route .retry
  if result.hits.isEmpty then .ok none
  else
    match generation s env route .retry with
    | .error _ => .ok none
    | .ok text =>
      match validateCitations text result.hits with
      | .error e => .error (.value e)
      | .ok validation =>
        if !validation.valid || validation.singlyCitedIndices.isEmpty then .ok none
        else
          .ok (some
            { evidence := result.hits
              vectorDegrade := result.vectorDegrade
              text
              validation
              strategy := strategyFor .faq result.hits })

/-- The text served for an answer: groups split, "evidence" reworded, and the
note on the named products it cites nothing for. -/
def composeAnswer (s : Settings) (env : Env) (route : Route) (g : Grounding) : Str :=
  let answerText := (rewriteEvidenceReferences env.unicode (expandGroupedMarkers g.text)).text
  if multiHop route && s.comparisonAnswers && g.vectorDegrade == .none then
    let note := missingNote
      (missingAreas (searched route.multiDomains) g.evidence g.validation.singlyCitedIndices)
    if note.isEmpty then answerText else rstrip answerText ++ ['\n', '\n'] ++ note.toList
  else answerText

/-- The end of `ask` with `_persist_and_respond`: a degraded answer is not
cached. -/
def groundedAnswer (s : Settings) (env : Env) (route : Route) (g : Grounding) :
    Except AskError Outcome :=
  match visibleCitations g.evidence (sortedSet g.validation.citedIndices) with
  | none => .error .index
  | some citations =>
    let answer := composeAnswer s env route g
    let confidence := confidenceFor g.validation.singlyCitedIndices g.evidence.length
    let cached : CachedAnswer :=
      { answer
        citations
        confidence
        sourceVersionHash := env.activeIndex.2
        answerPolicyVersion := policyVersion s }
    .ok
      { response :=
          { answer
            citations
            docsAsOf := docsAsOf citations
            domain := route.domain
            intent := effectiveIntent route
            confidence
            retrievalStrategy := g.strategy
            sourceVersionHash := env.activeIndex.2
            answerPolicyVersion := policyVersion s }
        evidence := g.evidence
        outcome := "answer"
        cachePut := if g.vectorDegrade == .none then some (cacheKey s env route, cached) else none }

/-- The no-answer response of an attempt that cited nothing. -/
def respondUngrounded (s : Settings) (route : Route) (g : Grounding) : Outcome :=
  respondNoAnswer s route.domain (effectiveIntent route)
    (if isNoAnswerRefusal g.text then "no_answer" else "uncited_answer") g.evidence

/-- From the first attempt's verdict on: the second chance, then the answer or
the refusal. -/
def afterValidation (s : Settings) (env : Env) (route : Route) (g : Grounding) :
    Except AskError Outcome := do
  let retried ←
    if g.validation.singlyCitedIndices.isEmpty && g.strategy == .exactLookup then
      retryWithoutExactLookup s env route
    else .ok none
  let g := retried.getD g
  if g.validation.singlyCitedIndices.isEmpty then .ok (respondUngrounded s route g)
  else groundedAnswer s env route g

/-- From the first retrieval on. -/
def answerFromEvidence (s : Settings) (env : Env) (route : Route) : Except AskError Outcome :=
  let intent := effectiveIntent route
  let result := retrieval s env route .first
  if result.hits.isEmpty then
    if result.vectorDegrade == .unavailable then
      .error (.orchestrator
        "retrieval degraded: embedding provider unavailable — no evidence retrieved")
    else if answerGlobally s route then .ok (respondUnsupported s route.domain)
    else .ok (respondNoAnswer s route.domain intent "weak_evidence" [])
  else
    let strategy := strategyFor intent result.hits
    match generation s env route .first with
    | .error message => .error (.orchestrator message)
    | .ok text =>
      match validateCitations text result.hits with
      | .error e => .error (.value e)
      | .ok validation =>
        if !validation.valid then
          .ok (respondValidationFailed s route.domain intent
            (validation.reason.getD "citation_validation_failed") result.hits strategy)
        else
          afterValidation s env route
            { evidence := result.hits
              vectorDegrade := result.vectorDegrade
              text
              validation
              strategy }

/-- `Orchestrator.ask`. -/
def ask (s : Settings) (env : Env) (route : Route) : Except AskError Outcome :=
  if route.greeting then .ok (respondGreeting s route.domain)
  else
    let intent := effectiveIntent route
    if intent == .unsupported && !answerGlobally s route then
      .ok (respondUnsupported s route.domain)
    else
      match env.cacheGet (cacheKey s env route) with
      | some cached => .ok (respondCacheHit route.domain intent cached)
      | none =>
        if shouldSkipRetrieval intent && !answerGlobally s route then
          .ok (respondNoAnswer s route.domain intent "no_answer" [])
        else answerFromEvidence s env route

/-! ## What a fresh answer is built from -/

/-- A text that grounds nothing over `count` bullets: the refusal, no single
marker, or a marker out of range. -/
def Ungrounded (text : Str) (count : Nat) : Prop :=
  isNoAnswerRefusal text = true ∨ citedMarkers text = [] ∨ ¬AllInRange text count

/-- The response is built from one attempt alone: its evidence, its text, its
verdict and its degrade reason. -/
structure GroundedBy (s : Settings) (env : Env) (route : Route) (attempt : Attempt) (g : Grounding)
    (o : Outcome) : Prop where
  evidence : g.evidence = (retrieval s env route attempt).hits
  vectorDegrade : g.vectorDegrade = (retrieval s env route attempt).vectorDegrade
  generated : generation s env route attempt = .ok g.text
  validated : validateCitations g.text g.evidence = .ok g.validation
  grounded : ¬Ungrounded g.text g.evidence.length
  citations : visibleCitations g.evidence (sortedSet g.validation.citedIndices) =
    some o.response.citations
  answer : o.response.answer = composeAnswer s env route g
  confidence : o.response.confidence =
    confidenceFor g.validation.singlyCitedIndices g.evidence.length
  trace : o.evidence = g.evidence
  cached : ∀ key value, o.cachePut = some (key, value) →
    g.vectorDegrade = .none ∧ value.answer = o.response.answer ∧
      value.citations = o.response.citations

/-- A valid verdict with a single index is a grounded text. -/
theorem grounded_of_valid {text : Str} {evidence : List EvidenceHit}
    {r : CitationValidationResult} (h : validateCitations text evidence = .ok r)
    (hvalid : r.valid = true) (hne : r.singlyCitedIndices ≠ []) :
    ¬Ungrounded text evidence.length := by
  rcases validateCitations_cases h with ⟨_, rfl⟩ | ⟨href, _, hv⟩
  · exact absurd rfl hne
  rintro (hr | hu | hout)
  · rw [hr] at href
    cases href
  · refine hne ?_
    rw [hv.single, singleNumbers, hu]
    rfl
  · exact hout (hv.valid.mp hvalid)

/-- A readable text that grounds nothing has no valid verdict with a single
index. -/
theorem rejected_of_ungrounded {text : Str} {evidence : List EvidenceHit}
    (h : Ungrounded text evidence.length)
    (hread : isNoAnswerRefusal text = false → hasTooLong text = false) :
    ∃ r, validateCitations text evidence = .ok r ∧
      (!r.valid || r.singlyCitedIndices.isEmpty) = true := by
  cases href : isNoAnswerRefusal text with
  | true => exact ⟨_, validateCitations_refusal href, rfl⟩
  | false =>
    obtain ⟨r, hr, hv⟩ := validateCitations_verdict evidence href (hread href)
    refine ⟨r, hr, ?_⟩
    rcases h with h | h | h
    · rw [h] at href
      cases href
    · rw [hv.single, singleNumbers, h]
      simp [sortedSet]
    · have : r.valid = false := by
        by_contra hvalid
        exact h (hv.valid.mp (by simpa using hvalid))
      simp [this]

theorem retry_some {s : Settings} {env : Env} {route : Route} {g : Grounding}
    (h : retryWithoutExactLookup s env route = .ok (some g)) :
    g.evidence = (retrieval s env route .retry).hits ∧
      g.vectorDegrade = (retrieval s env route .retry).vectorDegrade ∧
      generation s env route .retry = .ok g.text ∧
      validateCitations g.text g.evidence = .ok g.validation ∧
      g.validation.valid = true ∧ g.validation.singlyCitedIndices ≠ [] := by
  unfold retryWithoutExactLookup at h
  simp only at h
  split at h
  · cases h
  cases hgen : generation s env route .retry with
  | error e =>
    rw [hgen] at h
    cases h
  | ok text =>
    rw [hgen] at h
    simp only at h
    cases hval : validateCitations text (retrieval s env route .retry).hits with
    | error e =>
      rw [hval] at h
      cases h
    | ok validation =>
      rw [hval] at h
      simp only at h
      split at h
      · cases h
      · rename_i hkeep
        simp only [Bool.or_eq_true, Bool.not_eq_true', not_or, Bool.not_eq_false] at hkeep
        obtain rfl := Option.some.inj (Except.ok.inj h)
        exact ⟨rfl, rfl, rfl, hval, hkeep.1, by simpa using hkeep.2⟩

/-- What a retry can fail by. -/
def RetryFails (s : Settings) (env : Env) (route : Route) : Prop :=
  (retrieval s env route .retry).hits = [] ∨
    (∃ message, generation s env route .retry = .error message) ∨
    ∃ text, generation s env route .retry = .ok text ∧
      Ungrounded text (retrieval s env route .retry).hits.length

/-- The retry's text can be read: a text that is not the refusal and grounds
nothing has no marker longer than `int` takes. -/
def RetryReadable (s : Settings) (env : Env) (route : Route) : Prop :=
  (retrieval s env route .retry).hits ≠ [] → ∀ text, generation s env route .retry = .ok text →
    Ungrounded text (retrieval s env route .retry).hits.length →
      isNoAnswerRefusal text = false → hasTooLong text = false

theorem retry_none {s : Settings} {env : Env} {route : Route} (hfail : RetryFails s env route)
    (hread : RetryReadable s env route) : retryWithoutExactLookup s env route = .ok none := by
  unfold retryWithoutExactLookup
  simp only
  split
  · rfl
  · rename_i hne
    have hne : (retrieval s env route .retry).hits ≠ [] := by simpa using hne
    rcases hfail with hnil | ⟨message, hgen⟩ | ⟨text, hgen, hu⟩
    · exact absurd hnil hne
    · rw [hgen]
    · obtain ⟨r, hr, hrej⟩ := rejected_of_ungrounded hu (hread hne text hgen hu)
      rw [hgen]
      simp only [hr, if_pos hrej]

theorem retry_error {s : Settings} {env : Env} {route : Route} {text : Str}
    (hne : (retrieval s env route .retry).hits ≠ [])
    (hgen : generation s env route .retry = .ok text) (href : isNoAnswerRefusal text = false)
    (hlong : hasTooLong text = true) :
    retryWithoutExactLookup s env route = .error (.value .tooManyDigits) := by
  unfold retryWithoutExactLookup
  simp only [List.isEmpty_iff, hne, if_false, hgen, validateCitations_tooLong href hlong]

/-! ## Every run -/

/-- The run gets as far as a valid verdict `g` on the first attempt. -/
structure Reaches (s : Settings) (env : Env) (route : Route) (g : Grounding) : Prop where
  greeting : route.greeting = false
  supported : (effectiveIntent route == .unsupported && !answerGlobally s route) = false
  uncached : env.cacheGet (cacheKey s env route) = none
  retrieves : (shouldSkipRetrieval (effectiveIntent route) && !answerGlobally s route) = false
  found : (retrieval s env route .first).hits ≠ []
  evidence : g.evidence = (retrieval s env route .first).hits
  vectorDegrade : g.vectorDegrade = (retrieval s env route .first).vectorDegrade
  generated : generation s env route .first = .ok g.text
  validated : validateCitations g.text g.evidence = .ok g.validation
  valid : g.validation.valid = true
  strategy : g.strategy = strategyFor (effectiveIntent route) g.evidence

theorem ask_of_reaches {s : Settings} {env : Env} {route : Route} {g : Grounding}
    (h : Reaches s env route g) : ask s env route = afterValidation s env route g := by
  obtain ⟨evidence, degrade, text, validation, strategy⟩ := g
  obtain ⟨h1, h2, h3, h4, h5, h6, h7, h8, h9, h10, h11⟩ := h
  simp only at h6 h7 h8 h9 h10 h11
  subst h6 h7 h11
  simp only [ask, h1, h2, h3, h4, answerFromEvidence, List.isEmpty_iff, h5, h8, h9, h10,
    Bool.false_eq_true, if_false, Bool.not_true]

/-- A response to a question that is no greeting, which is neither a refusal
nor cached, comes from the end of the pipeline. -/
theorem reaches_of_fresh {s : Settings} {env : Env} {route : Route} {o : Outcome}
    (h : ask s env route = .ok o) (hg : route.greeting = false)
    (hn : o.response.noAnswer = false) (hc : o.response.cacheHit = false) :
    ∃ g, Reaches s env route g ∧ afterValidation s env route g = .ok o := by
  have refused {o' : Outcome} (h : Except.ok o' = (Except.ok o : Except AskError Outcome))
      (h' : o'.response.noAnswer = true) : False := by
    obtain rfl := Except.ok.inj h
    rw [h'] at hn
    cases hn
  have hask := h
  simp only [ask, hg, Bool.false_eq_true, if_false] at h
  split at h
  · exact (refused h rfl).elim
  rename_i hsup
  split at h
  · obtain rfl := Except.ok.inj h
    cases hc
  rename_i hun
  split at h
  · exact (refused h rfl).elim
  rename_i hskip
  unfold answerFromEvidence at h
  simp only at h
  split at h
  · split at h
    · cases h
    split at h
    · exact (refused h rfl).elim
    · exact (refused h rfl).elim
  rename_i hfound
  split at h
  · cases h
  rename_i text hgen
  split at h
  · cases h
  rename_i validation hval
  split at h
  · exact (refused h rfl).elim
  rename_i hvalid
  refine ⟨_, ⟨hg, by simpa using hsup, hun, by simpa using hskip, by simpa using hfound, rfl, rfl,
    hgen, hval, by simpa using hvalid, rfl⟩, h⟩

theorem groundedAnswer_spec {s : Settings} {env : Env} {route : Route} {g : Grounding}
    {o : Outcome} (h : groundedAnswer s env route g = .ok o) :
    visibleCitations g.evidence (sortedSet g.validation.citedIndices) = some o.response.citations ∧
      o.response.answer = composeAnswer s env route g ∧
      o.response.confidence = confidenceFor g.validation.singlyCitedIndices g.evidence.length ∧
      o.evidence = g.evidence ∧
      ∀ key value, o.cachePut = some (key, value) → g.vectorDegrade = .none ∧
        value.answer = o.response.answer ∧ value.citations = o.response.citations := by
  unfold groundedAnswer at h
  split at h
  · cases h
  · rename_i citations hcit
    obtain rfl := Except.ok.inj h
    refine ⟨hcit, rfl, rfl, rfl, fun key value hput => ?_⟩
    simp only at hput
    split at hput
    · rename_i hd
      obtain ⟨_, rfl⟩ := Prod.mk.inj (Option.some.inj hput)
      exact ⟨by simpa using hd, rfl, rfl⟩
    · cases hput

/-- A fresh answer is served only from one grounded attempt. -/
def ServesGrounded (s : Settings) (env : Env) (route : Route) : Prop :=
  ∀ o, ask s env route = .ok o → route.greeting = false → o.response.noAnswer = false →
    o.response.unsupported = false → o.response.cacheHit = false →
      ∃ attempt g, GroundedBy s env route attempt g o

/-- A retry that fails leaves the no-answer response of the first attempt. -/
def KeepsNoAnswer (s : Settings) (env : Env) (route : Route) : Prop :=
  ∀ g, Reaches s env route g → g.validation.singlyCitedIndices = [] → g.strategy = .exactLookup →
    RetryFails s env route → ask s env route = .ok (respondUngrounded s route g)

theorem serves_grounded (s : Settings) (env : Env) (route : Route) :
    ServesGrounded s env route := by
  intro o h hg hn _ hc
  obtain ⟨g, hr, hafter⟩ := reaches_of_fresh h hg hn hc
  unfold afterValidation at hafter
  -- the answer of a grounding that keeps a single index
  have serve (attempt : Attempt) (g : Grounding)
      (he : g.evidence = (retrieval s env route attempt).hits)
      (hd : g.vectorDegrade = (retrieval s env route attempt).vectorDegrade)
      (hgen : generation s env route attempt = .ok g.text)
      (hval : validateCitations g.text g.evidence = .ok g.validation)
      (hvalid : g.validation.valid = true)
      (hserve : (if g.validation.singlyCitedIndices.isEmpty then .ok (respondUngrounded s route g)
        else groundedAnswer s env route g) = Except.ok o) :
      GroundedBy s env route attempt g o := by
    split at hserve
    · obtain rfl := Except.ok.inj hserve
      cases hn
    · rename_i hne
      obtain ⟨h1, h2, h3, h4, h5⟩ := groundedAnswer_spec hserve
      exact ⟨he, hd, hgen, hval, grounded_of_valid hval hvalid (by simpa using hne), h1, h2, h3,
        h4, h5⟩
  split at hafter
  · cases hretry : retryWithoutExactLookup s env route with
    | error e =>
      rw [hretry] at hafter
      cases hafter
    | ok retried =>
      rw [hretry] at hafter
      cases retried with
      | none =>
        exact ⟨.first, g, serve .first g hr.evidence hr.vectorDegrade hr.generated hr.validated
          hr.valid hafter⟩
      | some g' =>
        obtain ⟨he, hd, hgen, hval, hvalid, _⟩ := retry_some hretry
        exact ⟨.retry, g', serve .retry g' he hd hgen hval hvalid hafter⟩
  · exact ⟨.first, g, serve .first g hr.evidence hr.vectorDegrade hr.generated hr.validated
      hr.valid hafter⟩

/-- **Grounding gate.** A fresh answer is built from one grounded attempt, and a
failed retry leaves the original no-answer: in exactly the runs whose retry,
where there is one, can be read. -/
theorem ask_grounded_iff (s : Settings) (env : Env) (route : Route) :
    (ServesGrounded s env route ∧ KeepsNoAnswer s env route) ↔
      ∀ g, Reaches s env route g → g.validation.singlyCitedIndices = [] →
        g.strategy = .exactLookup → RetryReadable s env route := by
  constructor
  · rintro ⟨_, hkeep⟩ g hr hs hx hne text hgen hu href
    by_contra hlong
    have hask := hkeep g hr hs hx (.inr (.inr ⟨text, hgen, hu⟩))
    rw [ask_of_reaches hr, afterValidation,
      retry_error hne hgen href (by simpa using hlong)] at hask
    simp only [hs, hx, List.isEmpty_nil, BEq.rfl, Bool.and_self, if_true] at hask
    cases hask
  · intro hread
    refine ⟨serves_grounded s env route, fun g hr hs hx hfail => ?_⟩
    rw [ask_of_reaches hr, afterValidation, retry_none hfail (hread g hr hs hx)]
    simp only [hs, hx, List.isEmpty_nil, BEq.rfl, Bool.and_self, if_true]
    exact if_pos (by rw [Option.getD_none, hs]; rfl)

/-! ## A retry that cannot be read -/

/-- A marker of more zeros than `int` takes: index 0, out of every range. -/
def longZero : Str := '[' :: List.replicate (intMaxStrDigits + 1) '0' ++ [']']

theorem citedMarkers_longZero :
    citedMarkers longZero = [List.replicate (intMaxStrDigits + 1) '0'] := by
  refine citedMarkers_marker (by simp) ?_
  rw [List.all_replicate]
  decide

theorem digitsValue_zeros : ∀ n : Nat, digitsValue (List.replicate n '0') = 0
  | 0 => rfl
  | n + 1 => by
    have hz : 10 * 0 + (decimalValue '0').getD 0 = 0 := by decide
    rw [digitsValue, List.replicate_succ, List.foldl_cons, hz]
    exact digitsValue_zeros n

theorem longZero_ungrounded (count : Nat) : Ungrounded longZero count := by
  refine .inr (.inr fun h => ?_)
  have h0 : (0 : Nat) ∈ singleNumbers longZero := by
    rw [singleNumbers, citedMarkers_longZero]
    simp [digitsValue_zeros]
  exact absurd (h.2 0 h0).1 (by decide)

theorem longZero_not_refusal : isNoAnswerRefusal longZero = false := by
  have hmem : ∀ c ∈ longZero, c = '[' ∨ c = '0' ∨ c = ']' := by
    intro c hc
    simp only [longZero, List.cons_append, List.mem_cons, List.mem_append, List.mem_replicate,
      List.not_mem_nil, or_false] at hc
    rcases hc with rfl | ⟨_, rfl⟩ | rfl <;> simp
  have hstrip : ∀ c ∈ strip longZero, c = '[' ∨ c = '0' ∨ c = ']' := fun c hc =>
    hmem c ((List.dropWhile_suffix isSpace).subset ((rstrip_isPrefix _).subset hc))
  have hlower : 'd' ∉ lower (strip longZero) := by
    intro hd
    obtain ⟨c, hc, hd⟩ := List.mem_flatMap.mp hd
    rcases hstrip c hc with rfl | rfl | rfl <;> revert hd <;> decide
  have hne : strip longZero ≠ noAnswerRefusal := by
    intro h
    have := hstrip 'I' (by rw [h]; decide)
    revert this
    decide
  have hsub : contains noAnswerSubstring (lower (strip longZero)) = false := by
    by_contra hsub
    have hmem := contains_iff.mp (by simpa using hsub)
    exact hlower (hmem.subset (by decide))
  simp [isNoAnswerRefusal, hne, hsub]

def flagHit : EvidenceHit :=
  { chunkId := "c1", productArea := "codex", sourceName := "codex-cli", documentTitle := "CLI",
    sourceUrl := "https://docs", retrievalType := .exact }

def flagSettings : Settings where
  answerWhenGrounded := false
  comparisonAnswers := false
  unsupportedRefusal := []
  noAnswerFallback := []
  greetingResponse := []
  retrievalMaxCandidates := 20
  retrievalTopK := 5
  answerPolicyVersion := "v1"

/-- The first answer cites nothing, the retry answers with the long marker. -/
def flagEnv : Env where
  retrieve _ _ := { hits := [flagHit], vectorDegrade := .none }
  generate
    | .first, _ => .ok "I cannot tell.".toList
    | .retry, _ => .ok longZero
  activeIndex := ("v1", "h1")
  cacheGet _ := none
  embedderIdentity := "stub"
  unicode := .ascii

def flagRoute : Route where
  greeting := false
  domain := .codex
  intent := .exactLookup
  multiDomains := [.codex]
  retrievalQuery := "Is there a config file option for --model?".toList

/-- The run ends in the `ValueError` of `int`, not in the first no-answer. -/
theorem ask_retry_unreadable :
    ask flagSettings flagEnv flagRoute = .error (.value .tooManyDigits) ∧
      ¬(ServesGrounded flagSettings flagEnv flagRoute ∧
        KeepsNoAnswer flagSettings flagEnv flagRoute) := by
  have hval : validateCitations "I cannot tell.".toList [flagHit] =
      .ok { valid := true, uncitedIndices := [1] } := by decide +kernel
  have hreach : Reaches flagSettings flagEnv flagRoute
      { evidence := [flagHit]
        vectorDegrade := .none
        text := "I cannot tell.".toList
        validation := { valid := true, uncitedIndices := [1] }
        strategy := .exactLookup } :=
    ⟨rfl, by decide, rfl, by decide, by decide, rfl, rfl, rfl, hval, rfl, by decide⟩
  have hlong : hasTooLong longZero = true := by
    have : (citedMarkers longZero).any tooLong = true := by
      rw [citedMarkers_longZero]
      simp [tooLong]
    simp [hasTooLong, this]
  have hretry : retryWithoutExactLookup flagSettings flagEnv flagRoute =
      .error (.value .tooManyDigits) :=
    retry_error (by decide) rfl longZero_not_refusal hlong
  constructor
  · rw [ask_of_reaches hreach, afterValidation, hretry]
    rfl
  · rintro ⟨_, hkeep⟩
    have hask := hkeep _ hreach rfl rfl (.inr (.inr ⟨longZero, rfl, longZero_ungrounded 1⟩))
    rw [ask_of_reaches hreach, afterValidation, hretry] at hask
    cases hask

end CiteVyn.Answer
