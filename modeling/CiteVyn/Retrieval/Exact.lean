import CiteVyn.Retrieval.Corpus

/-! # The exact-term arm

`ExactRetriever.retrieve` of `app/retrieval/exact.py`. Its query has no order and a
limit, so which matches are cut off is the planner's choice. -/
namespace CiteVyn.Retrieval
open CiteVyn.Answer CiteVyn.Text CiteVyn.Worker CiteVyn.Worker.Ingestion

/-- A row of `exact_terms` with those of `chunks` and `documents` it refers to. -/
structure ExactRow where
  term : TermRow String
  chunk : ChunkRow String
  document : DocumentRow String
  deriving DecidableEq

/-- `select(ExactTerm, Chunk, Document).join(...)`, over the keys of `chunks` and `documents`. -/
def exactJoin (db : Database String) : List ExactRow :=
  db.terms.filterMap fun term =>
    (db.chunks.find? fun c => c.chunkId = term.chunkId).bind fun chunk =>
      (db.documents.find? fun d => d.documentId = term.documentId).map (⟨term, chunk, ·⟩)

/-- The rows of the query, before its limit. -/
def exactMatches (f : CaseFold) (db : Database String) (version : Option Str) (question : Str) : List ExactRow :=
  (exactJoin db).filter fun row =>
    f.lower row.term.term.termText = f.lower (strip question) && servable version row.document

/-- `ExactRetriever.retrieve`. -/
def exactRetrieve (f : CaseFold) (db : Database String) (plan : Plan ExactRow) (version : Option Str) (question : Str)
    (productArea : Option String) (limit : Nat) : List (RetrievedChunk Str) :=
  if (strip question).isEmpty then []
  else
    let rows := (plan.order (exactMatches f db version question)).take (limit * 4)
    let chosen :=
      match productArea with
      | some area =>
        let inDomain := rows.filter fun row : ExactRow => inArea area row.chunk
        if inDomain.isEmpty then rows else inDomain
      | none => rows
    (chosen.take limit).map fun row : ExactRow => toRetrieved 1 row.chunk row.document

section
variable {f : CaseFold} {db : Database String} {version : Option Str} {question : Str} {area : String}

/-- The matches in the area. -/
def inside (area : String) (rows : List ExactRow) : List ExactRow := rows.filter fun row => inArea area row.chunk

/-- The matches out of it. -/
def outside (area : String) (rows : List ExactRow) : List ExactRow := rows.filter fun row => !inArea area row.chunk

theorem inside_eq_nil_iff {rows : List ExactRow} : inside area rows = [] ↔ ∀ row ∈ rows, inArea area row.chunk = false := by
  simp [inside]

theorem outside_of_inside_nil {rows : List ExactRow} (h : inside area rows = []) : outside area rows = rows :=
  List.filter_eq_self.mpr fun row hrow => by simp [inside_eq_nil_iff.mp h row hrow]

theorem outside_append_inside (area : String) (rows : List ExactRow) :
    (outside area rows ++ inside area rows).Perm rows := by
  have h := List.filter_append_perm (fun row : ExactRow => inArea area row.chunk) rows
  exact List.perm_append_comm.trans h

/-- A full window of matches, none of which is in the area: there are that many out of it. -/
theorem outside_of_window {plan : Plan ExactRow} {rows : List ExactRow} {n : Nat}
    (h : inside area ((plan.order rows).take n) = []) : inside area rows = [] ∨ n ≤ (outside area rows).length := by
  rcases Nat.lt_or_ge (outside area rows).length n with hlt | hge
  · refine .inl ?_
    -- the window is everything
    have hwindow : ((plan.order rows).take n).length ≤ (outside area rows).length :=
      calc ((plan.order rows).take n).length = (outside area ((plan.order rows).take n)).length := by
            rw [outside_of_inside_nil h]
        _ ≤ (outside area (plan.order rows)).length := ((List.take_sublist n _).filter _).length_le
        _ = (outside area rows).length := ((plan.perm rows).filter _).length_eq
    have hall : (plan.order rows).take n = plan.order rows := by
      rw [List.length_take] at hwindow
      exact List.take_of_length_le (by omega)
    rw [hall, inside_eq_nil_iff] at h
    exact inside_eq_nil_iff.mpr fun row hrow => h row ((plan.perm rows).mem_iff.mpr hrow)
  · exact .inr hge

/-- The chosen rows of an area: those in it, if the window has one. -/
theorem exactRetrieve_some (plan : Plan ExactRow) (limit : Nat) (hquestion : strip question ≠ []) :
    exactRetrieve f db plan version question (some area) limit =
      ((if inside area ((plan.order (exactMatches f db version question)).take (limit * 4)) = [] then
          (plan.order (exactMatches f db version question)).take (limit * 4)
        else inside area ((plan.order (exactMatches f db version question)).take (limit * 4))).take limit).map
        fun row : ExactRow => toRetrieved 1 row.chunk row.document := by
  rw [exactRetrieve, if_neg (by simpa using hquestion)]
  simp only [inside, List.isEmpty_iff]
  rfl

/-- Under every plan the chunks are those of the area, where it has a match, if and only
if the matches out of the area do not fill the window. -/
theorem exactRetrieve_prefers_iff (f : CaseFold) (db : Database String) (version : Option Str) (question : Str)
    (area : String) (limit : Nat) (hlimit : 1 ≤ limit) :
    ((∃ row ∈ exactMatches f db version question, inArea area row.chunk = true) →
        ∀ plan, ∀ chunk ∈ exactRetrieve f db plan version question (some area) limit, chunk.productArea = area) ↔
      strip question = [] ∨ (∀ row ∈ exactMatches f db version question, inArea area row.chunk = false) ∨
        (outside area (exactMatches f db version question)).length < 4 * limit := by
  constructor
  · intro h
    by_contra hnot
    obtain ⟨hquestion, hsome, hfull⟩ := not_or.mp hnot |>.imp_right not_or.mp
    push Not at hsome
    obtain ⟨row, hrow, hin⟩ := hsome
    have hpref := h ⟨row, hrow, by simpa using hin⟩ 
      (Plan.swapped (outside_append_inside area (exactMatches f db version question)))
    rw [exactRetrieve_some _ _ hquestion, Plan.order_swapped, List.take_append_of_le_length (by omega)] at hpref
    have hnone : inside area ((outside area (exactMatches f db version question)).take (limit * 4)) = [] := by
      refine inside_eq_nil_iff.mpr fun row hrow => ?_
      have := (List.mem_filter.mp (List.mem_of_mem_take hrow)).2
      simpa using this
    rw [if_pos hnone] at hpref
    -- the first row out of the area is returned
    cases hout : outside area (exactMatches f db version question) with
    | nil => simp [hout] at hfull; omega
    | cons first rest =>
      have hfirst : inArea area first.chunk = false := by
        have hmem : first ∈ outside area (exactMatches f db version question) := hout ▸ List.mem_cons_self
        simpa using (List.mem_filter.mp hmem).2
      have harea := hpref (toRetrieved 1 first.chunk first.document) (by
        rw [hout]
        obtain ⟨n, rfl⟩ := Nat.exists_eq_add_of_le' hlimit
        simp [Nat.add_mul])
      rw [productArea_toRetrieved, hfirst] at harea
      cases harea
  · rintro hcond ⟨row, hrow, hin⟩ plan chunk hchunk
    by_cases hquestion : strip question = []
    · simp [exactRetrieve, hquestion] at hchunk
    rw [exactRetrieve_some _ _ hquestion] at hchunk
    have hwindow : inside area ((plan.order (exactMatches f db version question)).take (limit * 4)) ≠ [] := by
      intro hnone
      rcases outside_of_window hnone with hnone | hfull
      · rw [inside_eq_nil_iff.mp hnone row hrow] at hin
        cases hin
      · rcases hcond with h | h | h
        · exact hquestion h
        · rw [h row hrow] at hin
          cases hin
        · omega
    rw [if_neg hwindow] at hchunk
    obtain ⟨found, hfound, rfl⟩ := List.mem_map.mp hchunk
    exact productArea_toRetrieved.mpr (List.mem_filter.mp (List.mem_of_mem_take hfound)).2

end

/-- Four matches of another product fill the window of one chunk. -/
theorem exactRetrieve_other_area :
    (∃ row ∈ exactMatches .ascii exampleCorpus (some exampleVersion) "max_tokens".toList,
        inArea "gemini_api" row.chunk = true) ∧
      (exactRetrieve .ascii exampleCorpus .asStored (some exampleVersion) "max_tokens".toList (some "gemini_api")
        1).map RetrievedChunk.productArea = ["claude_api"] := by
  decide +kernel

/-- They do not fill that of two. -/
theorem exactRetrieve_prefers_two :
    (outside "gemini_api" (exactMatches .ascii exampleCorpus (some exampleVersion) "max_tokens".toList)).length = 4 ∧
      ∀ plan, ∀ chunk ∈ exactRetrieve .ascii exampleCorpus plan (some exampleVersion) "max_tokens".toList
        (some "gemini_api") 2, chunk.productArea = "gemini_api" := by
  have hlength : (outside "gemini_api" (exactMatches .ascii exampleCorpus (some exampleVersion)
      "max_tokens".toList)).length = 4 := by decide +kernel
  refine ⟨hlength, (exactRetrieve_prefers_iff .ascii exampleCorpus (some exampleVersion) "max_tokens".toList
    "gemini_api" 2 (by decide)).mpr (.inr (.inr ?_)) (by decide +kernel)⟩
  rw [hlength]
  decide

end CiteVyn.Retrieval
