import CiteVyn.Answer.Orchestrator
import CiteVyn.Services.IndexResolution

/-! # The hybrid retriever

`app/retrieval/hybrid.py`: the three arms, their merge, the reranker's list, and
the reason for which an answer must not be cached. What the arms and the
reranker return is the outside's; what the retriever makes of it is here. -/
namespace CiteVyn.Retrieval
open CiteVyn.Answer CiteVyn.Lib.OrderBy CiteVyn.Services CiteVyn.Text

/-- `RetrievedChunk`, with the fields that the retriever or the answer path reads. -/
structure RetrievedChunk (V : Type*) where
  chunkId : String
  productArea : String
  sourceName : String
  documentTitle : String
  sourceUrl : String
  contentAsOf : Option String := none
  score : Rat := 0
  indexVersion : Option V := none
  deriving DecidableEq

structure EvidenceHit (V : Type*) extends RetrievedChunk V where
  retrievalType : RetrievalType := .hybrid
  rank : Nat := 0
  deriving DecidableEq

structure RetrievalResult (V : Type*) where
  hits : List (EvidenceHit V)
  vectorDegrade : VectorDegrade
  deriving DecidableEq

/-- `EmbedderIdentity` of the settings, every part of it known. -/
structure EmbedderIdentity where
  provider : Str
  model : Str
  dim : Nat
  deriving DecidableEq, Repr

/-- The columns that stamp an index. -/
structure Stamp where
  provider : Option Str
  model : Option Str
  dim : Option Nat
  deriving DecidableEq, Repr

/-- `EmbedderIdentity | IndexStampStatus | None`. -/
inductive IndexStamp where
  | identity (stamp : Stamp)
  | ambiguous
  | none
  deriving DecidableEq, Repr

/-- `index_versions`, as a retrieval reads it. -/
structure IndexTable (V : Type*) where
  tables : Tables V
  stamp : V → Stamp

/-- `EmbedderUnavailable`. -/
structure EmbedderUnavailable where
  statusCode : Option Nat
  deriving DecidableEq, Repr

/-- What the arms and the reranker return during one call. -/
structure Outside (V : Type*) where
  exact : Str → String → Nat → List (RetrievedChunk V)
  keyword : Str → String → Nat → List (RetrievedChunk V)
  vector : Str → Option String → Nat → Except EmbedderUnavailable (List (RetrievedChunk V))
  rerank : Str → List (EvidenceHit V) → Nat → List (EvidenceHit V)

/-- The arguments of `HybridRetriever` beside its arms. -/
structure HybridRetriever (V : Type*) where
  activeIndexVersion : Option V
  embedderIdentity : Option EmbedderIdentity

/-! ## Degrade reasons -/

/-- `_DEGRADE_PRECEDENCE`. -/
def degradePrecedence : List VectorDegrade := [.ambiguousIndex, .mismatch, .unavailable]

/-- `_combine_degrades`. -/
def combineDegrades (degrades : List VectorDegrade) : VectorDegrade :=
  (degradePrecedence.find? fun reason => degrades.any fun d => d = reason).getD .none

/-- `is_index_embedder_mismatch`. -/
def isIndexEmbedderMismatch (configured : EmbedderIdentity) : IndexStamp → Bool
  | .ambiguous => true
  | .none => false
  | .identity stamp =>
    match stamp.provider with
    | none => false
    | some _ => stamp ≠ ⟨configured.provider, configured.model, configured.dim⟩

section Provenance
variable {V : Type*} [LinearOrder V]

/-- `_active_index_stamp`. -/
def activeIndexStamp (r : HybridRetriever V) (table : IndexTable V) : IndexStamp :=
  match r.activeIndexVersion with
  | some v =>
    match table.tables.get v with
    | none => .none
    | some _ => .identity (table.stamp v)
  | none =>
    let resolution := resolveActiveIndex table.tables
    if resolution.state = .ambiguous then .ambiguous
    else
      match resolution.row with
      | none => .none
      | some row => .identity (table.stamp row.indexVersion)

/-- `_vector_arm_degrade`. -/
def vectorArmDegrade (r : HybridRetriever V) (table : IndexTable V) : VectorDegrade :=
  match r.embedderIdentity with
  | none => .none
  | some configured =>
    let stamp := activeIndexStamp r table
    if isIndexEmbedderMismatch configured stamp then
      match stamp with
      | .ambiguous => .ambiguousIndex
      | _ => .mismatch
    else .none

/-- `_active_index_ambiguous`. -/
def activeIndexAmbiguous (r : HybridRetriever V) (table : IndexTable V) : Bool :=
  match r.activeIndexVersion with
  | some _ => false
  | none => (resolveActiveIndex table.tables).state = .ambiguous

end Provenance

/-! ## Merging -/

section Merging
variable {V : Type*}

/-- `_to_evidence`. -/
def toEvidence (chunk : RetrievedChunk V) (retrievalType : RetrievalType) (rank : Nat)
    (baseScore : Option Rat) : EvidenceHit V :=
  { chunk with
    score := baseScore.getD chunk.score
    retrievalType
    rank }

def addScore (byChunk : List (EvidenceHit V)) (chunkId : String) (score : Rat) :
    List (EvidenceHit V) :=
  byChunk.map fun hit =>
    if hit.chunkId = chunkId then { hit with score := hit.score + score } else hit

/-- `by_chunk[hit.chunk_id] = hit`: a key that is there keeps its place. -/
def putHit (byChunk : List (EvidenceHit V)) (hit : EvidenceHit V) : List (EvidenceHit V) :=
  if byChunk.any fun h => h.chunkId = hit.chunkId then
    byChunk.map fun h => if h.chunkId = hit.chunkId then hit else h
  else byChunk ++ [hit]

/-- The chunk of a later arm: it adds to the score of a hit that is there. -/
def putOrAdd (retrievalType : RetrievalType) (score : RetrievedChunk V → Rat)
    (byChunk : List (EvidenceHit V)) (chunk : RetrievedChunk V) : List (EvidenceHit V) :=
  if byChunk.any fun h => h.chunkId = chunk.chunkId then addScore byChunk chunk.chunkId (score chunk)
  else putHit byChunk (toEvidence chunk retrievalType 0 (some (score chunk)))

/-- `_merge`. -/
def merge (exact keyword vector : List (RetrievedChunk V)) : List (EvidenceHit V) :=
  let byChunk := exact.foldl
    (fun byChunk chunk => putHit byChunk (toEvidence chunk .exact 0 (some 1))) []
  let byChunk := keyword.foldl (putOrAdd .keyword fun _ => 1 / 2) byChunk
  vector.foldl (putOrAdd .vector RetrievedChunk.score) byChunk

/-- `hit.rank = idx` from 1 on. -/
def ranked (hits : List (EvidenceHit V)) : List (EvidenceHit V) :=
  hits.mapIdx fun i hit => { hit with rank := i + 1 }

/-- The first hit of each chunk. -/
def firstOfEachChunk (seen : List String) : List (EvidenceHit V) → List (EvidenceHit V)
  | [] => []
  | hit :: hits =>
    if hit.chunkId ∈ seen then firstOfEachChunk seen hits
    else hit :: firstOfEachChunk (hit.chunkId :: seen) hits

/-- `_round_robin_merge`. -/
def roundRobinMerge (perAreaHits : List (List (EvidenceHit V))) : List (EvidenceHit V) :=
  let ranks := (perAreaHits.map List.length).foldl max 0
  firstOfEachChunk [] ((List.range ranks).flatMap fun rank =>
    perAreaHits.filterMap fun hits => hits[rank]?)

def areaCount (kept : List (EvidenceHit V)) (area : String) : Nat :=
  (kept.filter fun h => h.productArea = area).length

/-- The last hit of an area that has more than one. -/
def spareIndex (kept : List (EvidenceHit V)) : Option Nat :=
  (List.range kept.length).reverse.find? fun i =>
    (kept[i]?.any fun h => 1 < areaCount kept h.productArea)

def keepArea (merged : List (EvidenceHit V)) (topK : Nat) (kept : List (EvidenceHit V))
    (area : String) : List (EvidenceHit V) :=
  if kept.any fun h => h.productArea = area then kept
  else
    match merged.find? fun h => h.productArea = area with
    | none => kept
    | some best =>
      match spareIndex kept with
      | some i => kept.set i best
      | none => if kept.length < topK then kept ++ [best] else kept

/-- `_keep_each_area`. -/
def keepEachArea (reranked merged : List (EvidenceHit V)) (areas : List String) (topK : Nat) :
    List (EvidenceHit V) :=
  areas.foldl (keepArea merged topK) reranked

end Merging

/-! ## Retrieving -/

section Retrieving
variable {V : Type*} [LinearOrder V]

/-- `_warn_if_evidence_spans_indexes`. -/
def evidenceSpansIndexes (hits : List (EvidenceHit V)) : Bool :=
  1 < (hits.filterMap fun h => h.indexVersion).dedup.length

/-- `_finalize`. -/
def finalize (r : HybridRetriever V) (table : IndexTable V) (hits : List (EvidenceHit V))
    (degrade : VectorDegrade) : RetrievalResult V :=
  if degrade = .none && (evidenceSpansIndexes hits || activeIndexAmbiguous r table) then
    ⟨hits, .ambiguousIndex⟩
  else ⟨hits, degrade⟩

/-- `_safe_vector_retrieve`. -/
def safeVectorRetrieve (out : Outside V) (question : Str) (productArea : Option String) (limit : Nat)
    (armDegrade : VectorDegrade) : List (RetrievedChunk V) × VectorDegrade :=
  if armDegrade ≠ .none then ([], armDegrade)
  else
    match out.vector question productArea limit with
    | .error _ => ([], .unavailable)
    | .ok hits => (hits, .none)

/-- `_retrieve_global`. -/
def retrieveGlobal (r : HybridRetriever V) (table : IndexTable V) (out : Outside V) (question : Str)
    (limit topK : Nat) : RetrievalResult V :=
  let (hits, degrade) := safeVectorRetrieve out question none limit (vectorArmDegrade r table)
  let evidence := hits.mapIdx fun i hit => toEvidence hit .vector (i + 1) none
  finalize r table (ranked (out.rerank question evidence topK)) degrade

/-- The merged and reranked list of a scoped retrieval. -/
def rankedMerge (out : Outside V) (question : Str) (limit topK : Nat)
    (exact keyword vector : List (RetrievedChunk V)) : List (EvidenceHit V) :=
  let merged := orderBy (fun h : EvidenceHit V => OrderDual.toDual h.score)
    (merge exact keyword vector)
  ranked (out.rerank question (merged.take limit) topK)

/-- `HybridRetriever.retrieve`. -/
def retrieve (r : HybridRetriever V) (table : IndexTable V) (out : Outside V) (question : Str)
    (productArea : Option String) (intent : Intent) (limit topK : Nat) : RetrievalResult V :=
  match productArea with
  | none => retrieveGlobal r table out question limit topK
  | some area =>
    let vector := fun _ : Unit =>
      safeVectorRetrieve out question (some area) limit (vectorArmDegrade r table)
    if intent = .exactLookup then
      let exactHits := out.exact question area topK
      if exactHits.isEmpty then
        let (vectorHits, degrade) := vector ()
        let hits := rankedMerge out question limit topK [] (out.keyword question area limit) vectorHits
        finalize r table hits degrade
      else
        let evidence := exactHits.mapIdx fun i hit => toEvidence hit .exact (i + 1) none
        finalize r table (evidence.take topK) .none
    else
      let (vectorHits, degrade) := vector ()
      let hits := rankedMerge out question limit topK (out.exact question area limit)
        (out.keyword question area limit) vectorHits
      finalize r table hits degrade

/-- The areas of a call with what each returned. -/
def retrieveAreas (r : HybridRetriever V) (table : IndexTable V) (out : Nat → Outside V)
    (question : Str) (areas : List String) (intent : Intent) (limit topK : Nat) :
    List (RetrievalResult V) :=
  areas.mapIdx fun i area => retrieve r table (out i) question (some area) intent limit topK

/-- `HybridRetriever.retrieve_multi`: an outside for each area, and the last
one's reranker for the merged list. -/
def retrieveMulti (r : HybridRetriever V) (table : IndexTable V) (out : Nat → Outside V)
    (question : Str) (productAreas : List String) (intent : Intent) (limit topK : Nat) :
    RetrievalResult V :=
  let areas := productAreas.take maxMultihopDomains
  let perArea := retrieveAreas r table out question areas intent limit topK
  let merged := roundRobinMerge (perArea.map RetrievalResult.hits)
  let reranked := keepEachArea ((out areas.length).rerank question merged topK) merged areas topK
  finalize r table (ranked reranked) (combineDegrades (perArea.map RetrievalResult.vectorDegrade))

/-- The retriever behind a call of the orchestrator. -/
def retrieverCall (r : HybridRetriever V) (table : IndexTable V) (out : Nat → Outside V) :
    RetrieveCall → RetrievalResult V
  | .retrieve question productArea intent limit topK =>
    retrieve r table (out 0) question productArea intent limit topK
  | .retrieveMulti question productAreas intent limit topK =>
    retrieveMulti r table out question productAreas intent limit topK

end Retrieving

end CiteVyn.Retrieval
