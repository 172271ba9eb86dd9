import CiteVyn.Lib.Effects
import CiteVyn.Retrieval.Hybrid
import Mathlib.Data.Finset.Card

/-! # What is not cached

A retrieval reports a degrade reason when its evidence draws on more than one
index, when more than one is active and it is bound to none, or when the vector
arm was kept from running or failed; the orchestrator caches no answer built
from such a retrieval. -/
namespace CiteVyn.Retrieval
open CiteVyn.Answer CiteVyn.Lib.Effects CiteVyn.Services CiteVyn.Text

variable {V : Type} [LinearOrder V]

/-! ## Why an answer must not be cached -/

omit [LinearOrder V] in
/-- The evidence draws on two known index versions. -/
def Spans (hits : List (EvidenceHit V)) : Prop :=
  ∃ h ∈ hits, ∃ h' ∈ hits, ∃ v w, h.indexVersion = some v ∧ h'.indexVersion = some w ∧ v ≠ w

/-- The retriever is bound to no index while more than one is active. -/
def Unbound (r : HybridRetriever V) (table : IndexTable V) : Prop :=
  r.activeIndexVersion = none ∧ 1 < (activeRows table.tables).length

/-- The vector arm is consulted: the exact arm did not answer an exact lookup. -/
def Consulted (out : Outside V) (question : Str) (productArea : Option String) (intent : Intent)
    (topK : Nat) : Prop :=
  ∀ area ∈ productArea, intent = .exactLookup → out.exact question area topK = []

/-- The vector arm was to be consulted, and was skipped for the provenance of the
index or failed for its provider. -/
def ArmLost (r : HybridRetriever V) (table : IndexTable V) (out : Outside V) (question : Str)
    (productArea : Option String) (intent : Intent) (limit topK : Nat) : Prop :=
  Consulted out question productArea intent topK ∧
    (vectorArmDegrade r table ≠ .none ∨ ∃ e, out.vector question productArea limit = .error e)

/-- The arm of an area that the call searches is lost. -/
def ArmLostIn (r : HybridRetriever V) (table : IndexTable V) (out : Nat → Outside V) :
    RetrieveCall → Prop
  | .retrieve question productArea intent limit topK =>
    ArmLost r table (out 0) question productArea intent limit topK
  | .retrieveMulti question productAreas intent limit topK =>
    ∃ (i : Nat) (area : String), (productAreas.take maxMultihopDomains)[i]? = some area ∧
      ArmLost r table (out i) question (some area) intent limit topK

def Degraded (r : HybridRetriever V) (table : IndexTable V) (out : Nat → Outside V)
    (call : RetrieveCall) : Prop :=
  Spans (retrieverCall r table out call).hits ∨ Unbound r table ∨ ArmLostIn r table out call

/-! ## The reasons, one by one -/

theorem evidenceSpansIndexes_iff {hits : List (EvidenceHit V)} :
    evidenceSpansIndexes hits = true ↔ Spans hits := by
  rw [evidenceSpansIndexes, decide_eq_true_eq, ← List.card_toFinset, Finset.one_lt_card]
  simp only [List.mem_toFinset, List.mem_filterMap]
  constructor
  · intro h
    obtain ⟨v, ⟨hit, hmem, hv⟩, w, ⟨hit', hmem', hw⟩, hne⟩ := h
    exact ⟨hit, hmem, hit', hmem', v, w, hv, hw, hne⟩
  · intro h
    obtain ⟨hit, hmem, hit', hmem', v, w, hv, hw, hne⟩ := h
    exact ⟨v, ⟨hit, hmem, hv⟩, w, ⟨hit', hmem', hw⟩, hne⟩

theorem activeIndexAmbiguous_iff {r : HybridRetriever V} {table : IndexTable V} :
    activeIndexAmbiguous r table = true ↔ Unbound r table := by
  unfold activeIndexAmbiguous Unbound
  cases r.activeIndexVersion with
  | some v => simp
  | none => simp [resolveActiveIndex_ambiguous_iff]

/-- The combined reason is none when every reason is. -/
theorem combineDegrades_eq_none {degrades : List VectorDegrade} :
    combineDegrades degrades = .none ↔ ∀ d ∈ degrades, d = .none := by
  unfold combineDegrades
  cases hfind : degradePrecedence.find? fun reason => degrades.any fun d => d = reason with
  | none =>
    refine ⟨fun _ d hd => ?_, fun _ => rfl⟩
    have hnot := List.find?_eq_none.mp hfind
    by_contra hne
    have hmem : d ∈ degradePrecedence := by cases d <;> first | exact absurd rfl hne | decide
    exact hnot d hmem (List.any_eq_true.mpr ⟨d, hd, by simp⟩)
  | some reason =>
    have hany := List.find?_some (p := fun reason => degrades.any fun d => d = reason) hfind
    obtain ⟨d, hd, heq⟩ := List.any_eq_true.mp hany
    obtain rfl : d = reason := of_decide_eq_true heq
    have hmem := List.mem_of_find?_eq_some hfind
    constructor
    · intro hnone
      rw [Option.getD_some] at hnone
      subst hnone
      exact absurd hmem (by decide)
    · intro hall
      exact hall d hd

theorem finalize_hits (r : HybridRetriever V) (table : IndexTable V) (hits : List (EvidenceHit V))
    (degrade : VectorDegrade) : (finalize r table hits degrade).hits = hits := by
  unfold finalize
  split <;> rfl

theorem finalize_eq_none {r : HybridRetriever V} {table : IndexTable V} {hits : List (EvidenceHit V)}
    {degrade : VectorDegrade} : (finalize r table hits degrade).vectorDegrade = .none ↔
      degrade = .none ∧ ¬Spans hits ∧ ¬Unbound r table := by
  rw [← evidenceSpansIndexes_iff, ← activeIndexAmbiguous_iff, finalize]
  cases evidenceSpansIndexes hits <;> cases activeIndexAmbiguous r table <;>
    cases degrade <;> simp

omit [LinearOrder V] in
theorem safeVectorRetrieve_eq_none {out : Outside V} {question : Str} {productArea : Option String}
    {limit : Nat} {armDegrade : VectorDegrade} :
    (safeVectorRetrieve out question productArea limit armDegrade).2 = .none ↔
      armDegrade = .none ∧ ∀ e, out.vector question productArea limit ≠ .error e := by
  unfold safeVectorRetrieve
  split
  · rename_i h
    simp [h]
  · rename_i h
    rw [not_ne_iff] at h
    cases hvector : out.vector question productArea limit <;> simp [h]

/-- The end of a retrieval that consulted the vector arm. -/
theorem finalize_vector_eq_none {r : HybridRetriever V} {table : IndexTable V} {out : Outside V}
    {question : Str} {productArea : Option String} {limit : Nat} {hits : List (EvidenceHit V)} :
    (finalize r table hits
      (safeVectorRetrieve out question productArea limit (vectorArmDegrade r table)).2).vectorDegrade =
        .none ↔
      ¬Spans hits ∧ ¬Unbound r table ∧ ¬(vectorArmDegrade r table ≠ .none ∨
        ∃ e, out.vector question productArea limit = .error e) := by
  rw [finalize_eq_none, safeVectorRetrieve_eq_none, not_or, not_ne_iff, not_exists]
  tauto

/-- **A retrieval reports no reason** when there is none. -/
theorem retrieve_eq_none {r : HybridRetriever V} {table : IndexTable V} {out : Outside V}
    {question : Str} {productArea : Option String} {intent : Intent} {limit topK : Nat} :
    (retrieve r table out question productArea intent limit topK).vectorDegrade = .none ↔
      ¬Spans (retrieve r table out question productArea intent limit topK).hits ∧
      ¬Unbound r table ∧ ¬ArmLost r table out question productArea intent limit topK := by
  unfold ArmLost
  cases productArea with
  | none =>
    have hconsulted : Consulted out question none intent topK := nofun
    simp only [retrieve, retrieveGlobal, finalize_hits, hconsulted, true_and]
    exact finalize_vector_eq_none
  | some area =>
    by_cases hintent : intent = .exactLookup
    · by_cases hexact : out.exact question area topK = []
      · have hconsulted : Consulted out question (some area) intent topK := by
          intro a ha _
          obtain rfl := Option.mem_some_iff.mp ha
          exact hexact
        simp only [retrieve, if_pos hintent, hexact, List.isEmpty_nil, if_true, finalize_hits,
          hconsulted, true_and]
        exact finalize_vector_eq_none
      · -- the exact arm answers, and the vector arm is not consulted
        have hconsulted : ¬Consulted out question (some area) intent topK :=
          fun h => hexact (h area rfl hintent)
        have hempty : (out.exact question area topK).isEmpty = false := by simpa using hexact
        simp only [retrieve, if_pos hintent, hempty, Bool.false_eq_true, if_false, finalize_hits,
          hconsulted, false_and, not_false_eq_true, and_true]
        rw [finalize_eq_none]
        tauto
    · have hconsulted : Consulted out question (some area) intent topK :=
        fun _ _ h => absurd h hintent
      simp only [retrieve, if_neg hintent, finalize_hits, hconsulted, true_and]
      exact finalize_vector_eq_none

/-- The retrievals of the areas of a call. -/
theorem mem_retrieveAreas {r : HybridRetriever V} {table : IndexTable V} {out : Nat → Outside V}
    {question : Str} {areas : List String} {intent : Intent} {limit topK : Nat}
    {result : RetrievalResult V} :
    result ∈ retrieveAreas r table out question areas intent limit topK ↔
      ∃ (i : Nat) (area : String), areas[i]? = some area ∧
        retrieve r table (out i) question (some area) intent limit topK = result := by
  rw [retrieveAreas, List.mem_iff_getElem?]
  simp only [List.getElem?_mapIdx, Option.map_eq_some_iff]

/-- **Several areas report no reason** when none of them has one and the merged
evidence has none of its own. -/
theorem retrieveMulti_eq_none {r : HybridRetriever V} {table : IndexTable V} {out : Nat → Outside V}
    {question : Str} {productAreas : List String} {intent : Intent} {limit topK : Nat} :
    (retrieveMulti r table out question productAreas intent limit topK).vectorDegrade = .none ↔
      (∀ result ∈ retrieveAreas r table out question (productAreas.take maxMultihopDomains) intent
        limit topK, result.vectorDegrade = .none) ∧
      ¬Spans (retrieveMulti r table out question productAreas intent limit topK).hits ∧
      ¬Unbound r table := by
  simp only [retrieveMulti, finalize_hits]
  rw [finalize_eq_none, combineDegrades_eq_none, List.forall_mem_map]

theorem degraded_of_call {r : HybridRetriever V} {table : IndexTable V} {out : Nat → Outside V}
    {call : RetrieveCall} (h : Degraded r table out call) :
    (retrieverCall r table out call).vectorDegrade ≠ .none := by
  intro hnone
  cases call with
  | retrieve question productArea intent limit topK =>
    obtain ⟨hspans, hbound, harm⟩ := retrieve_eq_none.mp hnone
    exact h.elim hspans (Or.rec hbound harm)
  | retrieveMulti question productAreas intent limit topK =>
    obtain ⟨hareas, hspans, hbound⟩ := retrieveMulti_eq_none.mp hnone
    rcases h with h | h | ⟨i, area, harea, harm⟩
    · exact hspans h
    · exact hbound h
    · have hresult := hareas _ (mem_retrieveAreas.mpr ⟨i, area, harea, rfl⟩)
      exact (retrieve_eq_none.mp hresult).2.2 harm

/-! ## The orchestrator -/

omit [LinearOrder V] in
def EvidenceHit.toAnswer (hit : EvidenceHit V) : Answer.EvidenceHit where
  chunkId := hit.chunkId
  productArea := hit.productArea
  sourceName := hit.sourceName
  documentTitle := hit.documentTitle
  sourceUrl := hit.sourceUrl
  contentAsOf := hit.contentAsOf
  retrievalType := hit.retrievalType

omit [LinearOrder V] in
def RetrievalResult.toAnswer (result : RetrievalResult V) : Answer.RetrievalResult where
  hits := result.hits.map EvidenceHit.toAnswer
  vectorDegrade := result.vectorDegrade

/-- The outside of a run, with the hybrid retriever for its retrievals. -/
def withRetriever (env : Env) (r : HybridRetriever V) (table : IndexTable V)
    (out : Answer.Attempt → Nat → Outside V) : Env :=
  { env with
    retrieve := fun attempt call => (retrieverCall r table (out attempt) call).toAnswer }

/-- A run that writes a cache row answers from evidence. -/
theorem fresh_of_cachePut {s : Settings} {env : Env} {route : Route} {o : Outcome}
    (h : ask s env route = .ok o) (hput : o.cachePut ≠ none) : route.greeting = false ∧
      o.response.noAnswer = false ∧ o.response.unsupported = false ∧ o.response.cacheHit = false := by
  have refused {o' : Outcome} (h : Except.ok o' = (Except.ok o : Except AskError Outcome))
      (h' : o'.cachePut = none) : False := by
    obtain rfl := Except.ok.inj h
    exact hput h'
  unfold ask at h
  split at h
  · exact (refused h rfl).elim
  rename_i hgreeting
  refine ⟨by simpa using hgreeting, ?_⟩
  simp only at h
  split at h
  · exact (refused h rfl).elim
  split at h
  · exact (refused h rfl).elim
  split at h
  · exact (refused h rfl).elim
  unfold answerFromEvidence at h
  simp only at h
  split at h
  · split at h
    · cases h
    split at h
    · exact (refused h rfl).elim
    · exact (refused h rfl).elim
  split at h
  · cases h
  split at h
  · cases h
  split at h
  · exact (refused h rfl).elim
  -- whichever attempt is served, only the grounded answer writes a row
  have served {g : Grounding} (h : (if g.validation.singlyCitedIndices.isEmpty then
      .ok (respondUngrounded s route g) else groundedAnswer s env route g) = Except.ok o) :
      o.response.noAnswer = false ∧ o.response.unsupported = false ∧ o.response.cacheHit = false := by
    split at h
    · exact (refused h rfl).elim
    · unfold groundedAnswer at h
      split at h
      · cases h
      · obtain rfl := Except.ok.inj h
        exact ⟨rfl, rfl, rfl⟩
  unfold afterValidation at h
  split at h
  · obtain ⟨retried, _, h⟩ := bind_eq_ok h
    exact served h
  · exact served h

/-- **No degraded answer is cached.** A call of the retriever reports a reason
when its evidence draws on two known indexes, when more than one is active and
it is bound to none, or when the vector arm of an area it searches was skipped
or failed; over several areas it reports none only if every area does. And a run
of the orchestrator on the retriever writes a cache row only for an answer that
one of its attempts grounds, and none if that attempt's retrieval was degraded. -/
theorem degraded_not_cached (r : HybridRetriever V) (table : IndexTable V) :
    (∀ (out : Nat → Outside V) (call : RetrieveCall), Degraded r table out call →
      (retrieverCall r table out call).vectorDegrade ≠ .none) ∧
    (∀ (out : Nat → Outside V) (question : Str) (productAreas : List String) (intent : Intent)
      (limit topK : Nat),
      (retrieveMulti r table out question productAreas intent limit topK).vectorDegrade = .none →
      ∀ result ∈ retrieveAreas r table out question (productAreas.take maxMultihopDomains) intent
        limit topK, result.vectorDegrade = .none) ∧
    ∀ (s : Settings) (env : Env) (route : Route) (out : Answer.Attempt → Nat → Outside V) (o : Outcome),
      ask s (withRetriever env r table out) route = .ok o →
      (o.cachePut ≠ none → ∃ attempt g,
        GroundedBy s (withRetriever env r table out) route attempt g o) ∧
      ∀ attempt g, GroundedBy s (withRetriever env r table out) route attempt g o →
        Degraded r table (out attempt) (retrieveCall s (withRetriever env r table out) route attempt) →
        o.cachePut = none := by
  refine ⟨fun out call h => degraded_of_call h, ?_, ?_⟩
  · intro out question productAreas intent limit topK hnone
    exact (retrieveMulti_eq_none.mp hnone).1
  · intro s env route out o hask
    constructor
    · intro hput
      obtain ⟨hgreeting, hnoAnswer, hunsupported, hhit⟩ := fresh_of_cachePut hask hput
      exact serves_grounded s _ route o hask hgreeting hnoAnswer hunsupported hhit
    · intro attempt g hgrounded hdegraded
      cases hput : o.cachePut with
      | none => rfl
      | some entry =>
        have hnone := (hgrounded.cached entry.1 entry.2 hput).1
        rw [hgrounded.vectorDegrade] at hnone
        exact absurd hnone (degraded_of_call hdegraded)

/-- Two active versions, and a retriever that is bound to neither. -/
def twoActive : IndexTable Nat where
  tables :=
    { indexVersions :=
        [(1, { status := .active, promotedAt := some 1 }), (2, { status := .active, promotedAt := some 2 })]
      auditEvents := [] }
  stamp _ := ⟨none, none, none⟩

def exactOnly : Outside Nat where
  exact _ area _ := [⟨"c1", area, "codex", "Codex", "https://docs", none, 1, some 1⟩]
  keyword _ _ _ := []
  vector _ _ _ := .ok []
  rerank _ hits topK := hits.take topK

/-- The evidence is of one index, and the answer is not cached all the same. -/
theorem degraded_not_cached_twoActive :
    (retrieverCall ⟨none, none⟩ twoActive (fun _ => exactOnly)
      (.retrieve "--model".toList (some "codex") .exactLookup 20 6)).vectorDegrade ≠ .none :=
  (degraded_not_cached ⟨none, none⟩ twoActive).1 _ _ (.inr (.inl ⟨rfl, by decide⟩))

end CiteVyn.Retrieval
