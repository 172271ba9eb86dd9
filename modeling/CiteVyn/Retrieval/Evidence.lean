import CiteVyn.Retrieval.Exact
import CiteVyn.Retrieval.Keyword
import CiteVyn.Retrieval.RoundRobin

/-! # A chunk is evidence once

`HybridRetriever.retrieve` over the tables: the arms of `exact.py`, `keyword.py` and
`vector.py`, and the reranker. The merge and the vector arm have each chunk once; the
exact arm has a chunk for each of its terms that the question is, and an exact lookup
returns what it has. -/
namespace CiteVyn.Retrieval
open CiteVyn.Answer CiteVyn.Lib.OrderBy CiteVyn.Text CiteVyn.Worker CiteVyn.Worker.Ingestion

/-! ## The vector arm -/

/-- What `VectorRetriever` is given beside its session. A distance is that of a stored
vector from the question's. -/
structure VectorArm where
  postgres : Bool
  embed : Option (Str → Except EmbedderUnavailable (Embedding → Rat))
  globalConfidence : Option (Rat × Rat)

/-- `is_confident_global_result`. -/
def isConfidentGlobalResult (minTopScore minMargin : Rat) : List Rat → Bool
  | [] => false
  | [top] => minTopScore ≤ top
  | top :: second :: _ => minTopScore ≤ top && minMargin ≤ top - second

/-- `max(0.0, 1.0 - dist)`. -/
def similarity (distance : Rat) : Rat := max 0 (1 - distance)

/-- `VectorRetriever.retrieve`. -/
def vectorRetrieve (v : VectorArm) (db : Database String) (plan : Plan (ChunkOfDocument × Rat)) (version : Option Str)
    (question : Str) (productArea : Option String) (limit : Nat) :
    Except EmbedderUnavailable (List (RetrievedChunk Str)) :=
  match v.embed with
  | none => .ok []
  | some embed =>
    if !v.postgres then .ok []
    else
      (embed question).map fun distance =>
        let scored := (scopeOf db version productArea).filterMap fun row =>
          row.chunk.chunk.embedding.map fun embedding => (row, distance embedding)
        let rows := (orderBy Prod.snd (plan.order scored)).take limit
        let trusted :=
          match productArea, v.globalConfidence with
          | none, some (minTopScore, minMargin) =>
            isConfidentGlobalResult minTopScore minMargin (rows.map fun row : ChunkOfDocument × Rat => similarity row.2)
          | _, _ => true
        if trusted then
          rows.map fun row : ChunkOfDocument × Rat => toRetrieved (similarity row.2) row.1.chunk row.1.document
        else []

/-! ## The retriever over the tables -/

/-- A database whose chunks have the keys of their table. -/
structure Corpus where
  db : Database String
  chunkKeys : (db.chunks.map ChunkRow.chunkId).Nodup

theorem chunkKeys_run {v : Str} {u : Unicode} {p : Printing} {env : Env String} {db : Database String} {source : SourceSpec}
    (h : (db.chunks.map ChunkRow.chunkId).Nodup) : ((run v u p env db source).2.chunks.map ChunkRow.chunkId).Nodup := by
  have hends : Ends v u p env source db (run v u p env db source) := run_ends
  generalize run v u p env db source = ended at hends
  cases hends with
  | notCreated => exact h
  | notRecorded => exact h
  | failed => exact h
  | completed _ _ hstaged => exact hstaged.keys
  | lost _ hstaged => exact hstaged.keys

def Corpus.empty : Corpus := ⟨Database.empty, List.nodup_nil⟩

/-- The corpus after a run of the worker. -/
def Corpus.ingest (v : Str) (u : Unicode) (p : Printing) (c : Corpus) (run : SourceSpec × Env String) : Corpus :=
  ⟨(Ingestion.run v u p run.2 c.db run.1).2, chunkKeys_run c.chunkKeys⟩

/-- What the planner chooses in the queries of one call. -/
structure Plans where
  exact : Plan ExactRow
  vector : Plan (ChunkOfDocument × Rat)

/-- The arms of `HybridRetriever` and its reranker. -/
def armsOf (f : CaseFold) (u : Unicode) (v : VectorArm) (db : Database String) (version : Option Str) (plans : Plans) :
    Outside Str where
  exact question area limit := exactRetrieve f db plans.exact version question (some area) limit
  keyword question area limit := keywordRetrieve f u db version question (some area) limit
  vector question productArea limit := vectorRetrieve v db plans.vector version question productArea limit
  rerank := identityRerank

/-! ## One chunk, one place -/

theorem nodup_chunkJoin (c : Corpus) : ((chunkJoin c.db).map fun row => row.chunk.chunkId).Nodup := by
  have hsub : ((chunkJoin c.db).map fun row => row.chunk.chunkId).Sublist (c.db.chunks.map ChunkRow.chunkId) := by
    unfold chunkJoin
    induction c.db.chunks with
    | nil => exact List.Sublist.refl _
    | cons chunk chunks ih =>
      rw [List.filterMap_cons]
      cases c.db.documents.find? fun d => d.documentId = chunk.documentId with
      | none => exact ih.cons _
      | some d => exact ih.cons_cons _
  exact c.chunkKeys.sublist hsub

theorem nodup_vectorRetrieve {v : VectorArm} {c : Corpus} {plan : Plan (ChunkOfDocument × Rat)} {version : Option Str}
    {question : Str} {productArea : Option String} {limit : Nat} {chunks : List (RetrievedChunk Str)}
    (h : vectorRetrieve v c.db plan version question productArea limit = .ok chunks) : (ids chunks).Nodup := by
  unfold vectorRetrieve at h
  split at h
  · cases h
    exact List.nodup_nil
  split at h
  · cases h
    exact List.nodup_nil
  obtain ⟨distance, -, h⟩ := CiteVyn.Lib.Effects.map_eq_ok h
  dsimp only at h
  -- the rows of the query are rows of the scope, in another order and with a limit
  have hscope : ((scopeOf c.db version productArea).map fun row => row.chunk.chunkId).Nodup :=
    (nodup_chunkJoin c).sublist (List.filter_sublist.map _)
  have hscored : (((scopeOf c.db version productArea).filterMap fun row =>
      row.chunk.chunk.embedding.map fun embedding => (row, distance embedding)).map fun row => row.1.chunk.chunkId).Nodup := by
    refine hscope.sublist ?_
    induction scopeOf c.db version productArea with
    | nil => exact List.Sublist.refl _
    | cons row rows ih =>
      rw [List.filterMap_cons]
      cases row.chunk.chunk.embedding with
      | none => exact ih.cons _
      | some embedding => exact ih.cons_cons _
  generalize ((scopeOf c.db version productArea).filterMap fun row =>
      row.chunk.chunk.embedding.map fun embedding => (row, distance embedding)) = scored at h hscored
  have hrows : (((orderBy Prod.snd (plan.order scored)).take limit).map fun row => row.1.chunk.chunkId).Nodup := by
    have hperm : ((orderBy Prod.snd (plan.order scored)).map fun row => row.1.chunk.chunkId).Perm
        (scored.map fun row => row.1.chunk.chunkId) := ((orderBy_perm _ _).trans (plan.perm scored)).map _
    exact (hperm.nodup_iff.mpr hscored).sublist ((List.take_sublist limit _).map _)
  generalize (match productArea, v.globalConfidence with
    | none, some (minTopScore, minMargin) => isConfidentGlobalResult minTopScore minMargin
        (((orderBy Prod.snd (plan.order scored)).take limit).map fun row : ChunkOfDocument × Rat => similarity row.2)
    | _, _ => true) = trusted at h
  cases trusted with
  | true =>
    rw [← h, if_pos rfl, ids, List.map_map]
    exact hrows
  | false =>
    rw [← h, if_neg Bool.false_ne_true]
    exact List.nodup_nil

/-! ## The exact arm has a chunk for each term -/

abbrev rowIds (rows : List ExactRow) : List String := rows.map fun row => row.chunk.chunkId

section
variable {f : CaseFold} {db : Database String} {version : Option Str} {question : Str} {area : String}

/-- No plan makes the exact arm return a chunk twice: no chunk matches twice in the area,
nor out of it where a window can be without the area. -/
def ExactOnce (rows : List ExactRow) (area : String) (topK : Nat) : Prop :=
  (rowIds (inside area rows)).Nodup ∧
    (inside area rows = [] ∨ 4 * topK ≤ (outside area rows).length → (rowIds (outside area rows)).Nodup)

theorem ids_exactRetrieve_some (plan : Plan ExactRow) (limit : Nat) (hquestion : strip question ≠ []) :
    ids (exactRetrieve f db plan version question (some area) limit) =
      (rowIds (if inside area ((plan.order (exactMatches f db version question)).take (limit * 4)) = [] then
          (plan.order (exactMatches f db version question)).take (limit * 4)
        else inside area ((plan.order (exactMatches f db version question)).take (limit * 4)))).take limit := by
  rw [exactRetrieve_some plan limit hquestion, ids, List.map_map, rowIds, List.map_take]
  rfl

/-- Two rows of one chunk in front, which the area keeps or both drops. -/
theorem exists_repeated {rows : List ExactRow} (h : ¬ (rowIds rows).Nodup) :
    ∃ first second rest, (first :: second :: rest).Perm rows ∧ first.chunk.chunkId = second.chunk.chunkId := by
  rw [List.nodup_iff_count_le_one] at h
  push Not at h
  obtain ⟨id, hcount⟩ := h
  have hfilter : 1 < (rows.filter fun row => row.chunk.chunkId == id).length := by
    rw [← List.countP_eq_length_filter]
    rwa [rowIds, List.count, List.countP_map] at hcount
  have hid : ∀ row ∈ rows.filter fun row => row.chunk.chunkId == id, row.chunk.chunkId = id :=
    fun row hrow => beq_iff_eq.mp (List.mem_filter.mp hrow).2
  have hperm := List.filter_append_perm (fun row : ExactRow => row.chunk.chunkId == id) rows
  generalize (rows.filter fun row => row.chunk.chunkId == id) = same at hfilter hid hperm
  match same, hfilter, hid, hperm with
  | first :: second :: rest, _, hid, hperm =>
    exact ⟨first, second, _, hperm, (hid first (by simp)).trans (hid second (by simp)).symm⟩

theorem not_nodup_of_front {first second : ExactRow} {rest : List ExactRow} {n : Nat} (hn : 2 ≤ n)
    (hsame : first.chunk.chunkId = second.chunk.chunkId) :
    ¬ ((rowIds (first :: second :: rest)).take n).Nodup := by
  obtain ⟨n, rfl⟩ := Nat.exists_eq_add_of_le' hn
  rw [rowIds, List.map_cons, List.map_cons, List.take_succ_cons, List.take_succ_cons, hsame]
  exact fun h => (List.nodup_cons.mp h).1 List.mem_cons_self

/-- A plan that repeats a chunk, where one can be repeated. -/
theorem exists_plan_repeating {topK : Nat} (htopK : 2 ≤ topK) (hquestion : strip question ≠ [])
    (h : ¬ ExactOnce (exactMatches f db version question) area topK) :
    ∃ plan, ¬ (ids (exactRetrieve f db plan version question (some area) topK)).Nodup := by
  generalize hmatches : exactMatches f db version question = rows at h
  have hsplit := outside_append_inside area rows
  by_cases hinside : (rowIds (inside area rows)).Nodup
  · -- the repeated chunk is out of the area, and so is the whole window
    have hout : (inside area rows = [] ∨ 4 * topK ≤ (outside area rows).length) ∧
        ¬ (rowIds (outside area rows)).Nodup := by
      by_contra hnot
      exact h ⟨hinside, fun hfull => by_contra fun hnodup => hnot ⟨hfull, hnodup⟩⟩
    obtain ⟨first, second, rest, hperm, hsame⟩ := exists_repeated hout.2
    refine ⟨Plan.swapped ((hperm.append_right (inside area rows)).trans hsplit), ?_⟩
    rw [ids_exactRetrieve_some _ _ hquestion, hmatches, Plan.order_swapped]
    have hwindow : inside area ((first :: second :: rest ++ inside area rows).take (topK * 4)) = [] := by
      refine inside_eq_nil_iff.mpr fun row hrow => ?_
      have hmem : row ∈ first :: second :: rest := by
        rcases hout.1 with hnone | hfull
        · rw [hnone, List.append_nil] at hrow
          exact List.mem_of_mem_take hrow
        · rw [List.take_append_of_le_length (by rw [hperm.length_eq]; omega)] at hrow
          exact List.mem_of_mem_take hrow
      have hrow' := (List.mem_filter.mp (hperm.mem_iff.mp hmem)).2
      simpa using hrow'
    rw [if_pos hwindow]
    obtain ⟨n, hn⟩ : ∃ n, topK * 4 = n + 2 := Nat.exists_eq_add_of_le' (by omega)
    rw [hn, List.cons_append, List.cons_append, List.take_succ_cons, List.take_succ_cons]
    exact not_nodup_of_front htopK hsame
  · -- it is in the area, and in front
    obtain ⟨first, second, rest, hperm, hsame⟩ := exists_repeated hinside
    refine ⟨Plan.swapped ((hperm.append_right (outside area rows)).trans (List.perm_append_comm.trans hsplit)), ?_⟩
    rw [ids_exactRetrieve_some _ _ hquestion, hmatches, Plan.order_swapped]
    have hmem : ∀ row ∈ first :: second :: rest, inArea area row.chunk = true :=
      fun row hrow => (List.mem_filter.mp (hperm.mem_iff.mp hrow)).2
    obtain ⟨n, hn⟩ : ∃ n, topK * 4 = n + 2 := Nat.exists_eq_add_of_le' (by omega)
    have hfront : inside area (first :: second :: (rest ++ outside area rows).take n) =
        first :: second :: inside area ((rest ++ outside area rows).take n) := by
      simp [inside, hmem first, hmem second]
    rw [hn, List.cons_append, List.cons_append, List.take_succ_cons, List.take_succ_cons, hfront,
      if_neg (List.cons_ne_nil _ _)]
    exact not_nodup_of_front htopK hsame

theorem nodup_exactRetrieve {topK : Nat} (h : ExactOnce (exactMatches f db version question) area topK)
    (plan : Plan ExactRow) : (ids (exactRetrieve f db plan version question (some area) topK)).Nodup := by
  by_cases hquestion : strip question = []
  · simp [exactRetrieve, hquestion]
  rw [ids_exactRetrieve_some plan topK hquestion]
  generalize exactMatches f db version question = rows at h
  refine List.Nodup.sublist (List.take_sublist topK _) ?_
  -- a part of the window is a part of the matches
  have hpart : ∀ part : List ExactRow → List ExactRow, (∀ {l l'}, l.Sublist l' → (part l).Sublist (part l')) →
      (∀ {l l'}, l.Perm l' → (part l).Perm (part l')) → (rowIds (part rows)).Nodup →
      (rowIds (part ((plan.order rows).take (topK * 4)))).Nodup := by
    intro part hsub hperm hnodup
    have hrows := ((hperm (plan.perm rows)).map fun row => row.chunk.chunkId).nodup_iff.mpr hnodup
    exact hrows.sublist ((hsub (List.take_sublist _ _)).map _)
  split
  · rename_i hnone
    have hout := hpart (outside area) (fun h => h.filter _) (fun h => h.filter _)
      (h.2 ((outside_of_window hnone).imp_right fun hfull => by omega))
    rwa [outside_of_inside_nil hnone] at hout
  · exact hpart (inside area) (fun h => h.filter _) (fun h => h.filter _) h.1

/-- The exact arm returns no chunk twice, under every plan. -/
theorem nodup_exactRetrieve_iff {topK : Nat} :
    (∀ plan, (ids (exactRetrieve f db plan version question (some area) topK)).Nodup) ↔
      topK ≤ 1 ∨ strip question = [] ∨ ExactOnce (exactMatches f db version question) area topK := by
  constructor
  · intro h
    by_contra hnot
    obtain ⟨htopK, hquestion, hrepeated⟩ := not_or.mp hnot |>.imp_right not_or.mp
    obtain ⟨plan, hplan⟩ := exists_plan_repeating (by omega) hquestion hrepeated
    exact hplan (h plan)
  · intro h plan
    rcases h with htopK | hquestion | hrows
    · have hlength : (ids (exactRetrieve f db plan version question (some area) topK)).length ≤ 1 := by
        by_cases hquestion : strip question = []
        · simp [exactRetrieve, hquestion]
        · rw [ids_exactRetrieve_some plan topK hquestion]
          exact (List.length_take_le _ _).trans htopK
      rcases hids : ids (exactRetrieve f db plan version question (some area) topK) with _ | ⟨id, _ | ⟨id', rest⟩⟩
      · exact List.nodup_nil
      · exact List.nodup_singleton id
      · rw [hids, List.length_cons, List.length_cons] at hlength
        omega
    · simp [exactRetrieve, hquestion]
    · exact nodup_exactRetrieve hrows plan

end

/-! ## The retriever -/

/-- The call is one in which no plan repeats a chunk: it is no exact lookup in an area, or
of one chunk, or no chunk matches twice. -/
def Unrepeated (f : CaseFold) (db : Database String) (version : Option Str) (question : Str)
    (productArea : Option String) (intent : Intent) (topK : Nat) : Prop :=
  intent = .exactLookup → ∀ area ∈ productArea,
    topK ≤ 1 ∨ strip question = [] ∨ ExactOnce (exactMatches f db version question) area topK

section
variable {V : Type*}

theorem hitIds_finalize [LinearOrder V] (r : HybridRetriever V) (table : IndexTable V) (hits : List (EvidenceHit V)) (degrade : VectorDegrade) :
    hitIds (finalize r table hits degrade).hits = hitIds hits := by
  unfold finalize
  split <;> rfl

theorem hitIds_mapIdx (chunks : List (RetrievedChunk V)) (retrievalType : RetrievalType) (rank : Nat → Nat) :
    hitIds (chunks.mapIdx fun i chunk => toEvidence chunk retrievalType (rank i) none) = ids chunks := by
  apply List.ext_getElem
  · simp
  · intro i hi hi'
    simp [toEvidence]

theorem nodup_rankedMerge {out : Outside V} (hrerank : out.rerank = identityRerank) (question : Str) (limit topK : Nat)
    (exact keyword vector : List (RetrievedChunk V)) :
    (hitIds (rankedMerge out question limit topK exact keyword vector)).Nodup := by
  rw [rankedMerge_eq, hitIds_ranked, hrerank]
  exact (nodup_candidates limit exact keyword vector).sublist ((List.take_sublist topK _).map _)

end

theorem length_exactRetrieve_le {f : CaseFold} {db : Database String} {plan : Plan ExactRow} {version : Option Str}
    {question : Str} {area : String} {topK : Nat} :
    (exactRetrieve f db plan version question (some area) topK).length ≤ topK := by
  by_cases hquestion : strip question = []
  · simp [exactRetrieve, hquestion]
  · rw [exactRetrieve_some plan topK hquestion, List.length_map]
    exact List.length_take_le _ _

/-- The evidence has a chunk twice under some plan if and only if the call is an exact
lookup and a chunk matches twice where it can be chosen. -/
theorem retrieve_nodup_iff (f : CaseFold) (u : Unicode) (v : VectorArm) (c : Corpus) (r : HybridRetriever Str)
    (table : IndexTable Str) (question : Str) (productArea : Option String) (intent : Intent) (limit topK : Nat) :
    (∀ plans, (hitIds (retrieve r table (armsOf f u v c.db r.activeIndexVersion plans) question productArea intent limit
        topK).hits).Nodup) ↔
      Unrepeated f c.db r.activeIndexVersion question productArea intent topK := by
  cases productArea with
  | none =>
    refine iff_of_true (fun plans => ?_) fun _ area harea => by cases harea
    rw [retrieve, retrieveGlobal]
    -- the vector arm alone
    have hvector : (ids (safeVectorRetrieve (armsOf f u v c.db r.activeIndexVersion plans) question none limit
        (vectorArmDegrade r table)).1).Nodup := by
      unfold safeVectorRetrieve
      split
      · exact List.nodup_nil
      split
      · exact List.nodup_nil
      · rename_i chunks hchunks
        exact nodup_vectorRetrieve hchunks
    rw [hitIds_finalize, hitIds_ranked]
    refine List.Nodup.sublist ((List.take_sublist topK _).map _) ?_
    rw [← hitIds, hitIds_mapIdx _ _ (· + 1)]
    exact hvector
  | some area =>
    by_cases hintent : intent = .exactLookup
    · have hhits : ∀ plans, (hitIds (retrieve r table (armsOf f u v c.db r.activeIndexVersion plans) question (some area)
          intent limit topK).hits).Nodup ↔
          (ids (exactRetrieve f c.db plans.exact r.activeIndexVersion question (some area) topK)).Nodup := by
        intro plans
        rw [retrieve]
        dsimp only
        rw [if_pos hintent]
        split
        · rename_i hempty
          refine iff_of_true ?_ ?_
          · rw [hitIds_finalize]
            exact nodup_rankedMerge rfl _ _ _ _ _ _
          · rw [show exactRetrieve f c.db plans.exact r.activeIndexVersion question (some area) topK = [] from
              List.isEmpty_iff.mp hempty]
            exact List.nodup_nil
        · rw [hitIds_finalize, List.take_of_length_le (by rw [List.length_mapIdx]; exact length_exactRetrieve_le),
            hitIds_mapIdx _ _ (· + 1)]
          rfl
      have hplans : (∀ plans, (hitIds (retrieve r table (armsOf f u v c.db r.activeIndexVersion plans) question (some area)
          intent limit topK).hits).Nodup) ↔ ∀ plan, (ids (exactRetrieve f c.db plan r.activeIndexVersion question
            (some area) topK)).Nodup := by
        constructor
        · exact fun h plan => (hhits ⟨plan, .asStored⟩).mp (h _)
        · exact fun h plans => (hhits plans).mpr (h plans.exact)
      rw [hplans, nodup_exactRetrieve_iff, Unrepeated]
      constructor
      · intro h _ area' harea
        cases harea
        exact h
      · exact fun h => h hintent area rfl
    · refine iff_of_true (fun plans => ?_) fun h => absurd h hintent
      rw [retrieve]
      dsimp only
      rw [if_neg hintent, hitIds_finalize]
      exact nodup_rankedMerge rfl _ _ _ _ _ _

/-- The two pages, ingested. -/
def twoPages : Corpus := examplePages.foldl (Corpus.ingest exampleVersion .ascii .ascii) .empty

/-- A chunk with a parameter and its environment variable is two citations. -/
theorem retrieve_twice :
    hitIds (retrieve ⟨some exampleVersion, none⟩ ⟨⟨[], []⟩, fun _ => ⟨none, none, none⟩⟩
        (armsOf .ascii .ascii ⟨true, none, none⟩ twoPages.db (some exampleVersion) ⟨.asStored, .asStored⟩)
        "max_tokens".toList (some "claude_api") .exactLookup 20 6).hits =
      ["chunk-a0", "chunk-a0", "chunk-a1", "chunk-a1"] := by
  decide +kernel

end CiteVyn.Retrieval
