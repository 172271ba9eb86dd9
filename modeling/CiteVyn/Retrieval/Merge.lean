import CiteVyn.Lib.Firsts
import CiteVyn.Retrieval.Hybrid
import Mathlib.Tactic.Ring

/-! # What the reranker is given

The three arms find the same chunks, with a score from each; `_merge` adds the
scores up in the hits it made first. -/
namespace CiteVyn.Retrieval
open CiteVyn.Answer CiteVyn.Lib.Firsts CiteVyn.Lib.OrderBy CiteVyn.Text

variable {V : Type*}

/-- The chunks of a list. -/
abbrev ids (chunks : List (RetrievedChunk V)) : List String := chunks.map RetrievedChunk.chunkId

abbrev hitIds (hits : List (EvidenceHit V)) : List String := hits.map fun h => h.chunkId

theorem ids_append (chunks chunks' : List (RetrievedChunk V)) : ids (chunks ++ chunks') = ids chunks ++ ids chunks' :=
  List.map_append

/-! ## The keys of `by_chunk` -/

theorem any_chunkId {hits : List (EvidenceHit V)} {id : String} :
    (hits.any fun h => h.chunkId = id) = true ↔ id ∈ hitIds hits := by
  simp

@[simp] theorem hitIds_addScore (byChunk : List (EvidenceHit V)) (id : String) (score : Rat) :
    hitIds (addScore byChunk id score) = hitIds byChunk := by
  rw [addScore, hitIds, List.map_map]
  apply List.map_congr_left
  intro hit _
  dsimp only [Function.comp_apply]
  split <;> rfl

@[simp] theorem hitIds_putHit (byChunk : List (EvidenceHit V)) (hit : EvidenceHit V) :
    hitIds (putHit byChunk hit) = putKey (hitIds byChunk) hit.chunkId := by
  unfold putHit putKey
  by_cases h : hit.chunkId ∈ hitIds byChunk
  · rw [if_pos (any_chunkId.mpr h), if_pos h, hitIds, List.map_map]
    apply List.map_congr_left
    intro other _
    dsimp only [Function.comp_apply]
    split
    · rename_i heq
      exact heq.symm
    · rfl
  · rw [if_neg (mt any_chunkId.mp h), if_neg h, hitIds, List.map_append, List.map_singleton]

@[simp] theorem hitIds_putOrAdd (retrievalType : RetrievalType) (score : RetrievedChunk V → Rat)
    (byChunk : List (EvidenceHit V)) (chunk : RetrievedChunk V) :
    hitIds (putOrAdd retrievalType score byChunk chunk) = putKey (hitIds byChunk) chunk.chunkId := by
  unfold putOrAdd
  split
  · rename_i h
    rw [hitIds_addScore, putKey, if_pos (any_chunkId.mp h)]
  · exact hitIds_putHit _ _

/-- A loop over an arm's chunks puts their keys. -/
theorem hitIds_foldl {put : List (EvidenceHit V) → RetrievedChunk V → List (EvidenceHit V)}
    (hput : ∀ byChunk chunk, hitIds (put byChunk chunk) = putKey (hitIds byChunk) chunk.chunkId)
    (chunks : List (RetrievedChunk V)) (byChunk : List (EvidenceHit V)) :
    hitIds (chunks.foldl put byChunk) = (ids chunks).foldl putKey (hitIds byChunk) := by
  induction chunks generalizing byChunk with
  | nil => rfl
  | cons chunk chunks ih =>
    rw [List.foldl_cons, ih, hput]
    rfl

/-- `by_chunk` after the first loop. -/
def afterExact (exact : List (RetrievedChunk V)) : List (EvidenceHit V) :=
  exact.foldl (fun byChunk chunk => putHit byChunk (toEvidence chunk .exact 0 (some 1))) []

/-- `by_chunk` after the second. -/
def afterKeyword (exact keyword : List (RetrievedChunk V)) : List (EvidenceHit V) :=
  keyword.foldl (putOrAdd .keyword fun _ => 1 / 2) (afterExact exact)

theorem merge_eq (exact keyword vector : List (RetrievedChunk V)) :
    merge exact keyword vector =
      vector.foldl (putOrAdd .vector RetrievedChunk.score) (afterKeyword exact keyword) := rfl

theorem hitIds_afterExact (exact : List (RetrievedChunk V)) : hitIds (afterExact exact) = (ids exact).eraseDups :=
  (hitIds_foldl (fun byChunk chunk => hitIds_putHit byChunk (toEvidence chunk .exact 0 (some 1))) exact []).trans
    (foldl_putKey_nil _)

theorem hitIds_afterKeyword (exact keyword : List (RetrievedChunk V)) :
    hitIds (afterKeyword exact keyword) = (ids (exact ++ keyword)).eraseDups := by
  rw [afterKeyword, hitIds_foldl (hitIds_putOrAdd _ _), hitIds_afterExact, foldl_putKey, ids_append]

/-- The chunks in the order in which the arms found them. -/
theorem hitIds_merge (exact keyword vector : List (RetrievedChunk V)) :
    hitIds (merge exact keyword vector) = (ids (exact ++ keyword ++ vector)).eraseDups := by
  rw [merge_eq, hitIds_foldl (hitIds_putOrAdd _ _), hitIds_afterKeyword, foldl_putKey, ← ids_append]

/-! ## Scores and labels -/

/-- What an arm without repeats adds to the score of a chunk. -/
def armScore (score : RetrievedChunk V → Rat) (chunks : List (RetrievedChunk V)) (id : String) : Rat :=
  ((chunks.find? fun c => c.chunkId = id).map score).getD 0

theorem armScore_of_not_mem {score : RetrievedChunk V → Rat} {chunks : List (RetrievedChunk V)} {id : String}
    (h : id ∉ ids chunks) : armScore score chunks id = 0 := by
  have hnone : (chunks.find? fun c => c.chunkId = id) = none := by
    rw [List.find?_eq_none]
    intro c hc heq
    exact h (List.mem_map.mpr ⟨c, hc, of_decide_eq_true heq⟩)
  rw [armScore, hnone]
  rfl

theorem armScore_const {score : Rat} {chunks : List (RetrievedChunk V)} {id : String} :
    armScore (fun _ => score) chunks id = if id ∈ ids chunks then score else 0 := by
  split
  · rename_i h
    obtain ⟨c, hc, rfl⟩ := List.mem_map.mp h
    have hsome : (chunks.find? fun c' => c'.chunkId = c.chunkId).isSome := by
      rw [List.find?_isSome]
      exact ⟨c, hc, by simp⟩
    obtain ⟨c', hc'⟩ := Option.isSome_iff_exists.mp hsome
    rw [armScore, hc']
    rfl
  · rename_i h
    exact armScore_of_not_mem h

/-- What a loop over an arm leaves of a hit: it was there and has the arm's score
in addition, or it is the arm's. -/
def FromArm (retrievalType : RetrievalType) (score : RetrievedChunk V → Rat) (chunks : List (RetrievedChunk V))
    (byChunk : List (EvidenceHit V)) (hit : EvidenceHit V) : Prop :=
  (∃ old ∈ byChunk, hit.chunkId = old.chunkId ∧ hit.retrievalType = old.retrievalType ∧
      hit.score = old.score + armScore score chunks hit.chunkId) ∨
    hit.chunkId ∉ hitIds byChunk ∧ hit.chunkId ∈ ids chunks ∧ hit.retrievalType = retrievalType ∧
      hit.score = armScore score chunks hit.chunkId

theorem mem_putOrAdd {retrievalType : RetrievalType} {score : RetrievedChunk V → Rat}
    {byChunk : List (EvidenceHit V)} {chunk : RetrievedChunk V} {hit : EvidenceHit V}
    (h : hit ∈ putOrAdd retrievalType score byChunk chunk) :
    (∃ old ∈ byChunk, hit.chunkId = old.chunkId ∧ hit.retrievalType = old.retrievalType ∧
        hit.score = old.score + if old.chunkId = chunk.chunkId then score chunk else 0) ∨
      chunk.chunkId ∉ hitIds byChunk ∧ hit.chunkId = chunk.chunkId ∧ hit.retrievalType = retrievalType ∧
        hit.score = score chunk := by
  unfold putOrAdd at h
  split at h
  · obtain ⟨old, hold, rfl⟩ := List.mem_map.mp h
    refine .inl ⟨old, hold, ?_⟩
    split <;> simp
  · rename_i hnew
    rw [any_chunkId] at hnew
    have hput : hit ∈ byChunk ++ [toEvidence chunk retrievalType 0 (some (score chunk))] := by
      rwa [putHit, if_neg (mt any_chunkId.mp (show (toEvidence chunk retrievalType 0 (some (score chunk))).chunkId ∉
        hitIds byChunk from hnew))] at h
    rcases List.mem_append.mp hput with hold | hmem
    · have hne : hit.chunkId ≠ chunk.chunkId := by
        intro heq
        exact hnew (heq ▸ List.mem_map_of_mem hold)
      exact .inl ⟨hit, hold, rfl, rfl, by rw [if_neg hne, add_zero]⟩
    · rw [List.mem_singleton.mp hmem]
      exact .inr ⟨hnew, rfl, rfl, rfl⟩

theorem armScore_cons {score : RetrievedChunk V → Rat} {chunk : RetrievedChunk V} {chunks : List (RetrievedChunk V)}
    (hnodup : (ids (chunk :: chunks)).Nodup) (id : String) :
    armScore score (chunk :: chunks) id =
      (if id = chunk.chunkId then score chunk else 0) + armScore score chunks id := by
  split
  · rename_i heq
    rw [heq, armScore_of_not_mem (List.nodup_cons.mp hnodup).1, armScore, List.find?_cons_of_pos (by simp)]
    simp
  · rename_i hne
    rw [zero_add, armScore, List.find?_cons_of_neg (by simpa using Ne.symm hne), armScore]

/-- The loop over an arm without repeats. -/
theorem fromArm_foldl {retrievalType : RetrievalType} {score : RetrievedChunk V → Rat}
    {chunks : List (RetrievedChunk V)} {byChunk : List (EvidenceHit V)} {hit : EvidenceHit V}
    (hnodup : (ids chunks).Nodup) (h : hit ∈ chunks.foldl (putOrAdd retrievalType score) byChunk) :
    FromArm retrievalType score chunks byChunk hit := by
  induction chunks generalizing byChunk with
  | nil => exact .inl ⟨hit, h, rfl, rfl, by simp [armScore]⟩
  | cons chunk chunks ih =>
    have hrest := (List.nodup_cons.mp hnodup).2
    rcases ih hrest h with ⟨mid, hmid, hid, htype, hscore⟩ | ⟨hnew, hmem, htype, hscore⟩
    · rcases mem_putOrAdd hmid with ⟨old, hold, hid', htype', hscore'⟩ | ⟨hnew, hid', htype', hscore'⟩
      · refine .inl ⟨old, hold, hid.trans hid', htype.trans htype', ?_⟩
        rw [hscore, hscore', armScore_cons hnodup, hid, hid']
        ring
      · refine .inr ⟨by rwa [hid, hid'], by simp [hid, hid'], htype.trans htype', ?_⟩
        rw [hscore, hscore', armScore_cons hnodup, hid, hid', if_pos rfl]
    · rw [hitIds_putOrAdd, putKey] at hnew
      have hold : hit.chunkId ∉ hitIds byChunk ∧ hit.chunkId ≠ chunk.chunkId := by
        split at hnew
        · rename_i hin
          exact ⟨hnew, fun heq => hnew (heq ▸ hin)⟩
        · exact ⟨fun hin => hnew (List.mem_append_left _ hin), fun heq => hnew (by simp [heq])⟩
      refine .inr ⟨hold.1, List.mem_cons_of_mem _ hmem, htype, ?_⟩
      rw [hscore, armScore_cons hnodup, if_neg hold.2, zero_add]

/-- The strongest arm that found the chunk. -/
def strongestArm (exact keyword : List (RetrievedChunk V)) (id : String) : RetrievalType :=
  if id ∈ ids exact then .exact else if id ∈ ids keyword then .keyword else .vector

/-- The sum of what the arms give the chunk. -/
def totalScore (exact keyword vector : List (RetrievedChunk V)) (id : String) : Rat :=
  (if id ∈ ids exact then 1 else 0) + (if id ∈ ids keyword then 1 / 2 else 0) +
    armScore RetrievedChunk.score vector id

theorem mem_putHit {byChunk : List (EvidenceHit V)} {new hit : EvidenceHit V} (h : hit ∈ putHit byChunk new) :
    hit ∈ byChunk ∨ hit = new := by
  unfold putHit at h
  split at h
  · obtain ⟨old, hold, heq⟩ := List.mem_map.mp h
    split at heq
    · exact .inr heq.symm
    · exact .inl (heq ▸ hold)
  · exact (List.mem_append.mp h).imp_right List.mem_singleton.mp

theorem mem_afterExact {exact : List (RetrievedChunk V)} {hit : EvidenceHit V} (h : hit ∈ afterExact exact) :
    hit.chunkId ∈ ids exact ∧ hit.retrievalType = .exact ∧ hit.score = 1 := by
  have hfold : ∀ (byChunk : List (EvidenceHit V)), hit ∈ exact.foldl
      (fun byChunk chunk => putHit byChunk (toEvidence chunk .exact 0 (some 1))) byChunk →
      hit ∈ byChunk ∨ hit.chunkId ∈ ids exact ∧ hit.retrievalType = .exact ∧ hit.score = 1 := by
    clear h
    induction exact with
    | nil => exact fun _ h => .inl h
    | cons chunk exact ih =>
      intro byChunk h
      rcases ih _ h with h | ⟨hmem, htype, hscore⟩
      · rcases mem_putHit h with hold | rfl
        · exact .inl hold
        · exact .inr ⟨List.mem_cons_self, rfl, rfl⟩
      · exact .inr ⟨List.mem_cons_of_mem _ hmem, htype, hscore⟩
  exact (hfold [] h).resolve_left List.not_mem_nil

/-- The scores of a chunk that the vector arm has not found. -/
theorem totalScore_nil (exact keyword : List (RetrievedChunk V)) (id : String) :
    totalScore exact keyword [] id = (if id ∈ ids exact then 1 else 0) + if id ∈ ids keyword then 1 / 2 else 0 := by
  rw [totalScore, armScore_of_not_mem (by simp), add_zero]

theorem mem_afterKeyword {exact keyword : List (RetrievedChunk V)} (hkeyword : (ids keyword).Nodup)
    {hit : EvidenceHit V} (h : hit ∈ afterKeyword exact keyword) :
    hit.score = totalScore exact keyword [] hit.chunkId ∧
      hit.retrievalType = strongestArm exact keyword hit.chunkId := by
  rcases fromArm_foldl hkeyword h with ⟨old, hold, hid, htype, hscore⟩ | ⟨hnew, hmem, htype, hscore⟩
  · obtain ⟨hmem, htype', hscore'⟩ := mem_afterExact hold
    rw [← hid] at hmem
    constructor
    · rw [hscore, hscore', armScore_const, totalScore_nil, if_pos hmem]
    · rw [htype, htype', strongestArm, if_pos hmem]
  · rw [hitIds_afterExact, List.mem_eraseDups] at hnew
    constructor
    · rw [hscore, armScore_const, totalScore_nil, if_neg hnew, zero_add]
    · rw [htype, strongestArm, if_neg hnew, if_pos hmem]

theorem mem_merge {exact keyword vector : List (RetrievedChunk V)} (hkeyword : (ids keyword).Nodup)
    (hvector : (ids vector).Nodup) {hit : EvidenceHit V} (h : hit ∈ merge exact keyword vector) :
    hit.score = totalScore exact keyword vector hit.chunkId ∧
      hit.retrievalType = strongestArm exact keyword hit.chunkId := by
  rcases fromArm_foldl hvector (merge_eq exact keyword vector ▸ h) with
    ⟨old, hold, hid, htype, hscore⟩ | ⟨hnew, hmem, htype, hscore⟩
  · obtain ⟨hscore', htype'⟩ := mem_afterKeyword hkeyword hold
    refine ⟨?_, by rw [htype, htype', hid]⟩
    rw [hscore, hscore', ← hid, totalScore_nil, totalScore]
  · rw [hitIds_afterKeyword, List.mem_eraseDups, ids_append, List.mem_append, not_or] at hnew
    constructor
    · rw [hscore, totalScore, if_neg hnew.1, if_neg hnew.2, zero_add, zero_add]
    · rw [htype, strongestArm, if_neg hnew.1, if_neg hnew.2]

/-! ## The order and the cut -/

/-- Every chunk found, the highest score first. -/
def sortedMerge (exact keyword vector : List (RetrievedChunk V)) : List (EvidenceHit V) :=
  orderBy (fun h : EvidenceHit V => OrderDual.toDual h.score) (merge exact keyword vector)

/-- What the hybrid path passes to the reranker. -/
def candidates (limit : Nat) (exact keyword vector : List (RetrievedChunk V)) : List (EvidenceHit V) :=
  (sortedMerge exact keyword vector).take limit

theorem rankedMerge_eq (out : Outside V) (question : Str) (limit topK : Nat)
    (exact keyword vector : List (RetrievedChunk V)) :
    rankedMerge out question limit topK exact keyword vector =
      ranked (out.rerank question (candidates limit exact keyword vector) topK) := rfl

/-- Where a chunk is first found, going through the exact arm, the keyword arm and
the vector arm. -/
def foundAt (exact keyword vector : List (RetrievedChunk V)) (id : String) : Nat :=
  (ids (exact ++ keyword ++ vector)).idxOf id

theorem sortedMerge_sorted (exact keyword vector : List (RetrievedChunk V)) :
    (sortedMerge exact keyword vector).Pairwise fun a b =>
      b.score < a.score ∨ a.score = b.score ∧
        foundAt exact keyword vector a.chunkId < foundAt exact keyword vector b.chunkId := by
  have hfound : (merge exact keyword vector).Pairwise fun a b =>
      foundAt exact keyword vector a.chunkId < foundAt exact keyword vector b.chunkId := by
    have hordered := eraseDups_ordered (ids (exact ++ keyword ++ vector))
    rw [← hitIds_merge] at hordered
    have hpairwise := List.pairwise_map.mp hordered
    exact hpairwise
  refine (orderBy_stable hfound).imp fun h => ?_
  exact h.imp OrderDual.toDual_lt_toDual.mp fun h => ⟨OrderDual.toDual_inj.mp h.1, h.2⟩

theorem hitIds_sortedMerge_perm (exact keyword vector : List (RetrievedChunk V)) :
    (hitIds (sortedMerge exact keyword vector)).Perm (ids (exact ++ keyword ++ vector)).eraseDups := by
  rw [← hitIds_merge]
  exact (orderBy_perm _ _).map _

theorem nodup_candidates (limit : Nat) (exact keyword vector : List (RetrievedChunk V)) :
    (hitIds (candidates limit exact keyword vector)).Nodup := by
  have hnodup := (hitIds_sortedMerge_perm exact keyword vector).nodup_iff.mpr (nodup_eraseDups _)
  exact hnodup.sublist ((List.take_sublist limit _).map _)

/-- The candidates for the reranker: each chunk once, with the sum of its scores and
the label of the strongest arm, the highest scores first and equal scores in the order of
the arms. They are a prefix of all that was found, so nothing left out is above them. -/
theorem candidates_merged (limit : Nat) {exact keyword vector : List (RetrievedChunk V)}
    (hkeyword : (ids keyword).Nodup) (hvector : (ids vector).Nodup) :
    (hitIds (candidates limit exact keyword vector)).Nodup ∧
      (∀ hit ∈ candidates limit exact keyword vector,
        hit.score = totalScore exact keyword vector hit.chunkId ∧
          hit.retrievalType = strongestArm exact keyword hit.chunkId) ∧
      (candidates limit exact keyword vector).Pairwise (fun a b =>
        b.score < a.score ∨ a.score = b.score ∧
          foundAt exact keyword vector a.chunkId < foundAt exact keyword vector b.chunkId) ∧
      candidates limit exact keyword vector = (sortedMerge exact keyword vector).take limit ∧
      (∀ id, id ∈ hitIds (sortedMerge exact keyword vector) ↔ id ∈ ids exact ∨ id ∈ ids keyword ∨ id ∈ ids vector) ∧
      ∀ hit ∈ candidates limit exact keyword vector, ∀ left ∈ (sortedMerge exact keyword vector).drop limit,
        left.score ≤ hit.score := by
  have hsorted := sortedMerge_sorted exact keyword vector
  have hperm := hitIds_sortedMerge_perm exact keyword vector
  have hsub : (candidates limit exact keyword vector).Sublist (sortedMerge exact keyword vector) :=
    List.take_sublist limit _
  refine ⟨nodup_candidates limit exact keyword vector, ?_, hsorted.sublist hsub, rfl, ?_, ?_⟩
  · intro hit hhit
    exact mem_merge hkeyword hvector (mem_orderBy.mp (hsub.subset hhit))
  · intro id
    rw [hperm.mem_iff, List.mem_eraseDups, ids_append, ids_append, List.mem_append, List.mem_append, or_assoc]
  · intro hit hhit left hleft
    rw [← List.take_append_drop limit (sortedMerge exact keyword vector)] at hsorted
    rcases (List.pairwise_append.mp hsorted).2.2 hit hhit left hleft with h | h
    · exact h.le
    · exact h.1.ge

def exampleChunk (chunkId : String) (score : Rat) : RetrievedChunk Nat :=
  { chunkId, productArea := "codex", sourceName := "codex-cli", documentTitle := "CLI", sourceUrl := "", score }

/-- The chunk of two terms, one of them found again, and one of the vector arm alone. -/
theorem candidates_merged_example :
    (hitIds (candidates 2 [exampleChunk "a" 1, exampleChunk "a" 1] [exampleChunk "b" (1 / 2), exampleChunk "a" (1 / 2)]
        [exampleChunk "c" (3 / 4), exampleChunk "b" (1 / 2)])).Nodup ∧
      (sortedMerge [exampleChunk "a" 1, exampleChunk "a" 1] [exampleChunk "b" (1 / 2), exampleChunk "a" (1 / 2)]
        [exampleChunk "c" (3 / 4), exampleChunk "b" (1 / 2)]).map (fun h => (h.chunkId, h.score, h.retrievalType)) =
        [("a", 3 / 2, .exact), ("b", 1, .keyword), ("c", 3 / 4, .vector)] :=
  ⟨(candidates_merged 2 (by decide) (by decide)).1, by decide +kernel⟩

end CiteVyn.Retrieval
