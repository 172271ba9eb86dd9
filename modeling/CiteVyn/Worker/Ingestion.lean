import CiteVyn.Lib.Effects
import CiteVyn.Worker.ExactTerms
import CiteVyn.Worker.Runner
import CiteVyn.Text.Values

/-! # The rows of an ingestion

`IngestionRunner.run` of `app/worker/runner.py` over the tables: the document, its chunks
and their exact terms are replaced in one transaction, which the row of the job shares.
`CiteVyn.Worker.Runner` has the same run over documents that hold their chunks. -/
namespace CiteVyn.Worker.Ingestion
open CiteVyn.Lib.Effects CiteVyn.Text CiteVyn.Worker.ExactTerms

variable {Id : Type}

/-! ## The tables -/

inductive JobStatus where
  | pending
  | running
  | completed
  | failed
  deriving DecidableEq, Repr

inductive JobStage where
  | fetching
  | parsing
  | chunking
  | embedding
  | indexing
  deriving DecidableEq, Repr

structure IngestionJob (Id : Type) where
  jobId : Id
  sourceName : Str
  status : JobStatus
  stage : JobStage
  startedAt : Int
  completedAt : Option Int
  errorType : Option Str
  errorMessage : Option Str
  retryable : Bool
  deriving DecidableEq, Repr

structure DocumentRow (Id : Type) where
  documentId : Id
  indexVersion : Str
  sourceName : Str
  productArea : Str
  sourceUrl : Str
  title : Str
  identityChecksum : Sha256
  lastFetchedAt : Int
  lastIndexedAt : Option Int
  contentAsOf : Option Str
  status : DocumentStatus
  deriving DecidableEq, Repr

structure ChunkRow (Id : Type) where
  chunkId : Id
  documentId : Id
  chunk : Chunk
  deriving DecidableEq, Repr

structure TermRow (Id : Type) where
  termId : Id
  term : ExtractedTerm
  productArea : Str
  documentId : Id
  chunkId : Id
  deriving DecidableEq, Repr

structure Database (Id : Type) where
  jobs : List (IngestionJob Id)
  documents : List (DocumentRow Id)
  chunks : List (ChunkRow Id)
  terms : List (TermRow Id)
  deriving DecidableEq, Repr

def Database.empty : Database Id := ⟨[], [], [], []⟩

/-! ## A run -/

/-- The calls of the database, in their order. -/
inductive Call where
  | createJob
  | fetching
  | parsing
  | chunking
  | findDocument
  | insertDocument
  | deleteTerms
  | deleteChunks
  | deleted
  | embedding
  | indexing
  deriving DecidableEq, Repr

/-- An exception, by its class name and its text. -/
structure Failure where
  errorType : Str
  message : Str
  deriving DecidableEq, Repr

inductive Commit where
  | ok
  | refused (f : Failure)
  /-- the database has committed, and the reply is lost -/
  | lost (f : Failure)
  deriving DecidableEq, Repr

/-- What the outside answers to one run. -/
structure Env (Id : Type) where
  jobId : Id
  documentId : Id
  chunkId : Nat → Id
  termId : Nat → Id
  startedAt : Int
  fetchedAt : Int
  indexedAt : Int
  completedAt : Int
  fetched : Except Failure Str
  vectors : Except Failure (List (Option Embedding))
  /-- the error that a call of the database raises -/
  database : Call → Option Failure
  /-- what it raises for a key that is there -/
  conflict : Failure
  commit : Commit
  /-- the error of the commit that records a failure -/
  record : Option Failure

structure RunResult (Id : Type) where
  jobId : Id
  sourceName : Str
  status : JobStatus
  documentId : Option Id
  chunkCount : Nat
  termCount : Nat
  errorType : Option Str
  errorMessage : Option Str
  deriving DecidableEq, Repr

def raiseIf (f : Option Failure) : Except Failure Unit :=
  match f with
  | none => .ok ()
  | some f => .error f

def Env.call (env : Env Id) (c : Call) : Except Failure Unit := raiseIf (env.database c)

/-- A call that inserts rows, which the keys of the table allow or not. -/
def Env.insert (env : Env Id) (c : Call) (allowed : Bool) : Except Failure Unit :=
  (env.call c).bind fun _ => if allowed then .ok () else .error env.conflict

def createJob (env : Env Id) (source : SourceSpec) : IngestionJob Id :=
  ⟨env.jobId, source.name, .pending, .fetching, env.startedAt, none, none, none, false⟩

def setStage (job : IngestionJob Id) (stage : JobStage) : IngestionJob Id :=
  { job with status := if job.status = .pending then .running else job.status, stage := stage }

def markFailed (env : Env Id) (job : IngestionJob Id) (f : Failure) : IngestionJob Id :=
  { job with
    status := .failed
    stage := .indexing
    completedAt := some env.completedAt
    errorType := some f.errorType
    errorMessage := some f.message
    retryable := false }

def markCompleted (env : Env Id) (job : IngestionJob Id) : IngestionJob Id :=
  { job with
    status := .completed
    stage := .indexing
    completedAt := some env.completedAt
    errorType := none
    errorMessage := none
    retryable := false }

/-- The `ParseError` of a source without sections. -/
def zeroSections (p : Printing) (source : SourceSpec) : Failure where
  errorType := "ParseError".toList
  message := "source ".toList ++ reprStr p source.name ++
    " parsed to zero '## ' sections; refusing to replace its existing chunks with none".toList

/-- The `ValueError` of `zip(drafts, vectors, strict=True)`. -/
def zipError (drafts vectors : Nat) : Failure where
  errorType := "ValueError".toList
  message :=
    if vectors < drafts then "zip() argument 2 is shorter than argument 1".toList
    else "zip() argument 2 is longer than argument 1".toList

variable (v : Str)

/-- `_find_document_for_source`: the one that was fetched last. -/
def findDocument (db : Database Id) (source : SourceSpec) : Option (DocumentRow Id) :=
  (db.documents.filter fun d => d.sourceName = source.name && d.indexVersion = v).maxOn? DocumentRow.lastFetchedAt

/-- `source.source_url or source.location`. -/
def urlOf (source : SourceSpec) : Str := if source.sourceUrl.isEmpty then source.location else source.sourceUrl

/-- `_upsert_document` where the source has a document. -/
def refreshed (env : Env Id) (source : SourceSpec) (d : DocumentRow Id) : DocumentRow Id :=
  { d with
    lastFetchedAt := env.fetchedAt
    lastIndexedAt := some env.indexedAt
    status := .active
    title := source.title
    sourceUrl := urlOf source
    identityChecksum := ⟨source.name ++ source.title⟩
    contentAsOf := source.contentAsOf }

/-- `_upsert_document` where it has none. -/
def newRow (env : Env Id) (source : SourceSpec) : DocumentRow Id where
  documentId := env.documentId
  indexVersion := v
  sourceName := source.name
  productArea := source.productArea
  sourceUrl := urlOf source
  title := source.title
  identityChecksum := ⟨source.name ++ source.title⟩
  lastFetchedAt := env.fetchedAt
  lastIndexedAt := some env.indexedAt
  contentAsOf := source.contentAsOf
  status := .active

variable [DecidableEq Id]

def upsertDocument (env : Env Id) (source : SourceSpec) (db : Database Id) :
    Except Failure (DocumentRow Id × Database Id) :=
  (env.call .findDocument).bind fun _ =>
    match findDocument v db source with
    | some d =>
      .ok (refreshed env source d,
        { db with documents := db.documents.map fun r =>
            if r.documentId = d.documentId then refreshed env source d else r })
    | none =>
      (env.insert .insertDocument (!(db.documents.map DocumentRow.documentId).contains env.documentId)).map fun _ =>
        (newRow v env source, { db with documents := db.documents ++ [newRow v env source] })

/-- `_delete_existing_chunks`; the terms of a chunk go with it. -/
def deleteExistingChunks (env : Env Id) (documentId : Id) (db : Database Id) : Except Failure (Database Id) :=
  (env.call .deleteTerms).bind fun _ => (env.call .deleteChunks).bind fun _ => (env.call .deleted).map fun _ =>
    let gone := (db.chunks.filter fun c => c.documentId = documentId).map ChunkRow.chunkId
    { db with
      chunks := db.chunks.filter fun c => c.documentId ≠ documentId
      terms := db.terms.filter fun t => t.documentId ≠ documentId && !gone.contains t.chunkId }

/-- The rows of the drafts and their vectors. -/
def chunkRows (env : Env Id) (source : SourceSpec) (documentId : Id) (drafts : List ChunkDraft)
    (vectors : List (Option Embedding)) : List (ChunkRow Id) :=
  (drafts.zipWith (fun draft vector => toChunk source vector draft) vectors).mapIdx fun i chunk =>
    ⟨env.chunkId i, documentId, chunk⟩

/-- `_materialize_chunks`, up to the flush of the chunks. -/
def materializeRows (env : Env Id) (source : SourceSpec) (drafts : List ChunkDraft) (db : Database Id) :
    Except Failure (List (ChunkRow Id) × Database Id) :=
  (upsertDocument v env source db).bind fun (document, db) =>
    (deleteExistingChunks env document.documentId db).bind fun db => env.vectors.bind fun vectors =>
      if vectors.length ≠ drafts.length then .error (zipError drafts.length vectors.length)
      else
        let rows := chunkRows env source document.documentId drafts vectors
        (env.insert .embedding ((db.chunks ++ rows).map ChunkRow.chunkId).Nodup).map fun _ =>
          (rows, { db with chunks := db.chunks ++ rows })

/-- What stands after the first `". "`, if it is there. -/
def afterStop : Str → Option Str
  | '.' :: ' ' :: rest => some rest
  | _ :: rest => afterStop rest
  | [] => none

/-- The text that the terms of a chunk are taken from. -/
def bodyOf (text : Str) : Str := (afterStop text).getD text

/-- The terms of a chunk. -/
def termsOf (u : Unicode) (chunk : Chunk) : List ExtractedTerm := extractTerms u (bodyOf chunk.chunkText)

/-- `_materialize_terms`. -/
def termRows (u : Unicode) (env : Env Id) (source : SourceSpec) (chunks : List (ChunkRow Id)) : List (TermRow Id) :=
  (chunks.flatMap fun c => (termsOf u c.chunk).map fun term => (c, term)).mapIdx fun i (c, term) =>
    ⟨env.termId i, term, source.productArea, c.documentId, c.chunkId⟩

/-- The keys of `exact_terms`. -/
def termKeys (terms : List (TermRow Id)) : Bool :=
  (terms.map TermRow.termId).Nodup &&
    (terms.map fun t => (t.term.termText, t.productArea, t.chunkId)).Nodup

variable (u : Unicode) (p : Printing)

/-- The drafts of the source, with the stages up to them. -/
def draftStages (env : Env Id) (source : SourceSpec) : Except Failure (List ChunkDraft) :=
  env.fetched.bind fun raw => (env.call .fetching).bind fun _ => (env.call .parsing).bind fun _ =>
    let drafts := draftsOf source raw
    if drafts.isEmpty then .error (zeroSections p source) else (env.call .chunking).map fun _ => drafts

/-- What is in the transaction after its last flush. -/
structure Rows (Id : Type) where
  chunks : List (ChunkRow Id)
  terms : List (TermRow Id)
  db : Database Id

/-- The stages of a run, after the one that creates the job. -/
def stages (env : Env Id) (source : SourceSpec) (db : Database Id) : Except Failure (Rows Id) :=
  (draftStages p env source).bind fun drafts => (materializeRows v env source drafts db).bind fun (chunks, db) =>
    let terms := termRows u env source chunks
    (env.insert .indexing (termKeys (db.terms ++ terms))).map fun _ =>
      ⟨chunks, terms, { db with terms := db.terms ++ terms }⟩

/-- A database with one more job. -/
def Database.addJob (db : Database Id) (job : IngestionJob Id) : Database Id := { db with jobs := db.jobs ++ [job] }

/-- The handler of `run`: after the rollback the job's row is inserted again. -/
def failRun (env : Env Id) (job : IngestionJob Id) (f : Failure) (db : Database Id) :
    Except Failure (RunResult Id) × Database Id :=
  if (db.jobs.map IngestionJob.jobId).contains job.jobId then (.error env.conflict, db)
  else
    match env.record with
    | none =>
      (.ok ⟨job.jobId, job.sourceName, .failed, none, 0, 0, some f.errorType, some f.message⟩,
        db.addJob (markFailed env job f))
    | some g => (.error g, db)

def completedResult (job : IngestionJob Id) (rows : Rows Id) : RunResult Id :=
  ⟨job.jobId, job.sourceName, .completed, rows.chunks.head?.map ChunkRow.documentId, rows.chunks.length,
    rows.terms.length, none, none⟩

/-- `IngestionRunner.run`, on the committed tables. -/
def run (env : Env Id) (db : Database Id) (source : SourceSpec) : Except Failure (RunResult Id) × Database Id :=
  match env.insert .createJob (!(db.jobs.map IngestionJob.jobId).contains env.jobId) with
  | .error f => (.error f, db)
  | .ok () =>
    let job := [.fetching, .parsing, .chunking, .embedding, .indexing].foldl setStage (createJob env source)
    match stages v u p env source db with
    | .error f => failRun env job f db
    | .ok rows =>
      match env.commit with
      | .ok => (.ok (completedResult job rows), rows.db.addJob (markCompleted env job))
      | .refused f => failRun env job f db
      | .lost f => failRun env job f (rows.db.addJob (markCompleted env job))

/-! ## What a run has been answered -/

theorem raiseIf_ok {f : Option Failure} (h : raiseIf f = .ok ()) : f = none := by
  cases f with
  | none => rfl
  | some f => cases h

omit [DecidableEq Id] in
theorem insert_ok {env : Env Id} {c : Call} {allowed : Bool} (h : env.insert c allowed = .ok ()) :
    env.database c = none ∧ allowed = true := by
  obtain ⟨_, hcall, h⟩ := bind_eq_ok h
  refine ⟨raiseIf_ok hcall, ?_⟩
  cases allowed with
  | true => rfl
  | false => cases h

/-- The document that a run of the source writes. -/
def written (env : Env Id) (source : SourceSpec) (db : Database Id) : DocumentRow Id :=
  match findDocument v db source with
  | some d => refreshed env source d
  | none => newRow v env source

/-- The documents after the run. -/
def writtenDocuments (env : Env Id) (source : SourceSpec) (db : Database Id) : List (DocumentRow Id) :=
  match findDocument v db source with
  | some d => db.documents.map fun r => if r.documentId = d.documentId then refreshed env source d else r
  | none => db.documents ++ [newRow v env source]

section

variable {v : Str} {u : Unicode} {p : Printing} {env : Env Id} {source : SourceSpec} {db db' : Database Id}

/-- The document is found, or it is new and so is its id. -/
theorem upsertDocument_ok {d : DocumentRow Id} (h : upsertDocument v env source db = .ok (d, db')) :
    env.database .findDocument = none ∧ d = written v env source db ∧
      db' = { db with documents := writtenDocuments v env source db } ∧
      (findDocument v db source = none → env.database .insertDocument = none ∧
        env.documentId ∉ db.documents.map DocumentRow.documentId) := by
  obtain ⟨_, hcall, h⟩ := bind_eq_ok h
  refine ⟨raiseIf_ok hcall, ?_⟩
  unfold written writtenDocuments
  cases hfind : findDocument v db source with
  | some old =>
    rw [hfind] at h
    cases h
    exact ⟨rfl, rfl, fun h => by cases h⟩
  | none =>
    rw [hfind] at h
    obtain ⟨_, hinsert, h⟩ := map_eq_ok h
    cases h
    obtain ⟨hcall, hnew⟩ := insert_ok hinsert
    exact ⟨rfl, rfl, fun _ => ⟨hcall, by simpa using hnew⟩⟩

theorem deleteExistingChunks_ok {documentId : Id} (h : deleteExistingChunks env documentId db = .ok db') :
    (env.database .deleteTerms = none ∧ env.database .deleteChunks = none ∧ env.database .deleted = none) ∧
      db'.jobs = db.jobs ∧ db'.documents = db.documents ∧
      db'.chunks = (db.chunks.filter fun c => c.documentId ≠ documentId) ∧
      ∃ kept : TermRow Id → Bool, db'.terms = db.terms.filter kept ∧ ∀ t, kept t → t.documentId ≠ documentId := by
  obtain ⟨_, hterms, h⟩ := bind_eq_ok h
  obtain ⟨_, hchunks, h⟩ := bind_eq_ok h
  obtain ⟨_, hdeleted, rfl⟩ := map_eq_ok h
  refine ⟨⟨raiseIf_ok hterms, raiseIf_ok hchunks, raiseIf_ok hdeleted⟩, rfl, rfl, rfl, _, rfl, ?_⟩
  intro t ht
  exact of_decide_eq_true (Bool.and_eq_true_iff.mp ht).1

/-- The calls that every run makes after its first. -/
def Always (c : Call) : Prop := c ≠ .createJob ∧ c ≠ .insertDocument

/-- What a run that goes through its stages has been answered, and what it has written. -/
structure Staged (v : Str) (u : Unicode) (env : Env Id) (source : SourceSpec) (db : Database Id) (raw : Str)
    (vectors : List (Option Embedding)) (rows : Rows Id) : Prop where
  fetched : env.fetched = .ok raw
  sections : draftsOf source raw ≠ []
  embedded : env.vectors = .ok vectors
  length : vectors.length = (draftsOf source raw).length
  called : ∀ c, Always c → env.database c = none
  inserted : findDocument v db source = none →
    env.database .insertDocument = none ∧ env.documentId ∉ db.documents.map DocumentRow.documentId
  chunks : rows.chunks = chunkRows env source (written v env source db).documentId (draftsOf source raw) vectors
  terms : rows.terms = termRows u env source rows.chunks
  jobs : rows.db.jobs = db.jobs
  documents : rows.db.documents = writtenDocuments v env source db
  allChunks : rows.db.chunks =
    (db.chunks.filter fun c => c.documentId ≠ (written v env source db).documentId) ++ rows.chunks
  allTerms : ∃ kept : TermRow Id → Bool, rows.db.terms = db.terms.filter kept ++ rows.terms ∧
    ∀ t, kept t → t.documentId ≠ (written v env source db).documentId
  keys : (rows.db.chunks.map ChunkRow.chunkId).Nodup

theorem stages_ok {rows : Rows Id} (h : stages v u p env source db = .ok rows) :
    ∃ raw vectors, Staged v u env source db raw vectors rows := by
  obtain ⟨drafts, hdrafts, h⟩ := bind_eq_ok h
  obtain ⟨raw, hraw, hdrafts⟩ := bind_eq_ok hdrafts
  obtain ⟨_, hfetching, hdrafts⟩ := bind_eq_ok hdrafts
  obtain ⟨_, hparsing, hdrafts⟩ := bind_eq_ok hdrafts
  obtain ⟨⟨chunks, db₂⟩, hchunks, h⟩ := bind_eq_ok h
  obtain ⟨⟨d, db₁⟩, hupsert, hchunks⟩ := bind_eq_ok hchunks
  obtain ⟨db₁', hdelete, hchunks⟩ := bind_eq_ok hchunks
  obtain ⟨vectors, hvectors, hchunks⟩ := bind_eq_ok hchunks
  obtain ⟨_, hindexing, rfl⟩ := map_eq_ok h
  dsimp only at hdrafts hdelete hchunks
  split at hdrafts
  · cases hdrafts
  rename_i hsections
  obtain ⟨_, hchunking, rfl⟩ := map_eq_ok hdrafts
  split at hchunks
  · cases hchunks
  rename_i hlength
  obtain ⟨_, hembedding, hrows⟩ := map_eq_ok hchunks
  cases hrows
  obtain ⟨hfind, rfl, rfl, hinserted⟩ := upsertDocument_ok hupsert
  obtain ⟨⟨hdeleteTerms, hdeleteChunks, hdeleted⟩, hjobs, hdocuments, hkept, kept, hterms, hothers⟩ :=
    deleteExistingChunks_ok hdelete
  obtain ⟨hembedding, hkeys⟩ := insert_ok hembedding
  refine ⟨raw, vectors, ?_⟩
  exact {
    fetched := hraw
    sections := by simpa using hsections
    embedded := hvectors
    length := not_not.mp hlength
    called := by
      intro c hc
      cases c with
      | createJob => exact absurd rfl hc.1
      | insertDocument => exact absurd rfl hc.2
      | fetching => exact raiseIf_ok hfetching
      | parsing => exact raiseIf_ok hparsing
      | chunking => exact raiseIf_ok hchunking
      | findDocument => exact hfind
      | deleteTerms => exact hdeleteTerms
      | deleteChunks => exact hdeleteChunks
      | deleted => exact hdeleted
      | embedding => exact hembedding
      | indexing => exact (insert_ok hindexing).1
    inserted := hinserted
    chunks := rfl
    terms := rfl
    jobs := hjobs
    documents := hdocuments
    allChunks := by rw [hkept]
    allTerms := ⟨kept, by rw [hterms], hothers⟩
    keys := of_decide_eq_true hkeys }

/-! ## What a run leaves -/

omit [DecidableEq Id] in
theorem chunkRows_documentId {documentId : Id} {drafts : List ChunkDraft} {vectors : List (Option Embedding)} :
    ∀ c ∈ chunkRows env source documentId drafts vectors, c.documentId = documentId := by
  intro c hc
  obtain ⟨i, hi, rfl⟩ := List.mem_mapIdx.mp hc
  rfl

omit [DecidableEq Id] in
theorem termRows_mem {chunks : List (ChunkRow Id)} :
    ∀ t ∈ termRows u env source chunks, ∃ c ∈ chunks, t.documentId = c.documentId ∧ t.chunkId = c.chunkId := by
  intro t ht
  obtain ⟨i, hi, rfl⟩ := List.mem_mapIdx.mp ht
  obtain ⟨c, hc, hpair⟩ := List.mem_flatMap.mp (List.getElem_mem hi)
  obtain ⟨term, -, hterm⟩ := List.mem_map.mp hpair
  rw [← hterm]
  exact ⟨c, hc, rfl, rfl⟩

/-- New rows among rows of which none is kept. -/
theorem filter_append_new {A : Type} (key : A → Id) {k : Id} {old new : List A} (hold : ∀ a ∈ old, key a ≠ k)
    (hnew : ∀ a ∈ new, key a = k) :
    ((old ++ new).filter fun a => key a = k) = new ∧ ((old ++ new).filter fun a => key a ≠ k) = old := by
  rw [List.filter_append, List.filter_append]
  constructor
  · rw [List.filter_eq_nil_iff.mpr fun a ha => by simpa using hold a ha,
      List.filter_eq_self.mpr fun a ha => by simpa using hnew a ha, List.nil_append]
  · rw [List.filter_eq_self.mpr fun a ha => by simpa using hold a ha,
      List.filter_eq_nil_iff.mpr fun a ha => by simpa using hnew a ha, List.append_nil]

/-- The rows of the source are those of the run, as a whole; the chunks of the others stay. -/
structure Replaced (v : Str) (u : Unicode) (env : Env Id) (source : SourceSpec) (db : Database Id) (raw : Str)
    (vectors : List (Option Embedding)) (db' : Database Id) : Prop where
  documents : db'.documents = writtenDocuments v env source db
  chunks : (db'.chunks.filter fun c => c.documentId = (written v env source db).documentId) =
    chunkRows env source (written v env source db).documentId (draftsOf source raw) vectors
  otherChunks : (db'.chunks.filter fun c => c.documentId ≠ (written v env source db).documentId) =
    db.chunks.filter fun c => c.documentId ≠ (written v env source db).documentId
  terms : (db'.terms.filter fun t => t.documentId = (written v env source db).documentId) =
    termRows u env source
      (chunkRows env source (written v env source db).documentId (draftsOf source raw) vectors)

theorem Staged.replaced {raw : Str} {vectors : List (Option Embedding)} {rows : Rows Id}
    (h : Staged v u env source db raw vectors rows) : Replaced v u env source db raw vectors rows.db := by
  have hold : ∀ c ∈ db.chunks.filter fun c => c.documentId ≠ (written v env source db).documentId,
      c.documentId ≠ (written v env source db).documentId := fun c hc => of_decide_eq_true (List.mem_filter.mp hc).2
  have hrows : ∀ c ∈ rows.chunks, c.documentId = (written v env source db).documentId := h.chunks ▸ chunkRows_documentId
  have hchunks := filter_append_new ChunkRow.documentId hold hrows
  obtain ⟨kept, hterms, hothers⟩ := h.allTerms
  have hnew : ∀ t ∈ rows.terms, t.documentId = (written v env source db).documentId := by
    intro t ht
    obtain ⟨c, hc, hid, -⟩ := termRows_mem t (h.terms ▸ ht)
    rw [hid]
    exact chunkRows_documentId c (h.chunks ▸ hc)
  exact {
    documents := h.documents
    chunks := by rw [h.allChunks, hchunks.1, h.chunks]
    otherChunks := by rw [h.allChunks, hchunks.2]
    terms := by
      rw [hterms, (filter_append_new TermRow.documentId (fun t ht => hothers t (List.mem_filter.mp ht).2) hnew).1, h.terms, h.chunks] }

/-- The job of a run, before its end is written. -/
def runningJob (env : Env Id) (source : SourceSpec) : IngestionJob Id :=
  [.fetching, .parsing, .chunking, .embedding, .indexing].foldl setStage (createJob env source)

/-- What a run fails with, once its job is there. -/
def FailsWith (v : Str) (u : Unicode) (p : Printing) (env : Env Id) (source : SourceSpec) (db : Database Id)
    (f : Failure) : Prop :=
  stages v u p env source db = .error f ∨ (∃ rows, stages v u p env source db = .ok rows) ∧ env.commit = .refused f

/-- How a run ends: it raises and has written nothing, it records its failure and nothing
else, or it replaces the rows of the source and records that. -/
inductive Ends (v : Str) (u : Unicode) (p : Printing) (env : Env Id) (source : SourceSpec) (db : Database Id) :
    Except Failure (RunResult Id) × Database Id → Prop
  | notCreated {f} (h : env.insert .createJob (!(db.jobs.map IngestionJob.jobId).contains env.jobId) = .error f) :
    Ends v u p env source db (.error f, db)
  | notRecorded {f g} (h : FailsWith v u p env source db f) (hrecord : env.record = some g) :
    Ends v u p env source db (.error g, db)
  | failed {f result} (hnew : env.jobId ∉ db.jobs.map IngestionJob.jobId) (h : FailsWith v u p env source db f)
    (hstatus : result.status = .failed) (herror : result.errorType = some f.errorType) :
    Ends v u p env source db (.ok result, db.addJob (markFailed env (runningJob env source) f))
  | completed {raw vectors rows result} (hnew : env.jobId ∉ db.jobs.map IngestionJob.jobId)
    (hcommit : env.commit = .ok) (h : Staged v u env source db raw vectors rows)
    (hstatus : result.status = .completed) :
    Ends v u p env source db (.ok result, rows.db.addJob (markCompleted env (runningJob env source)))
  | lost {f g raw vectors rows} (hcommit : env.commit = .lost f) (h : Staged v u env source db raw vectors rows) :
    Ends v u p env source db (.error g, rows.db.addJob (markCompleted env (runningJob env source)))

omit [DecidableEq Id] in
@[simp] theorem runningJob_jobId : (runningJob env source).jobId = env.jobId := rfl

omit [DecidableEq Id] in
@[simp] theorem runningJob_sourceName : (runningJob env source).sourceName = source.name := rfl

theorem failRun_ends {f : Failure} (hnew : env.jobId ∉ db.jobs.map IngestionJob.jobId)
    (h : FailsWith v u p env source db f) :
    Ends v u p env source db (failRun env (runningJob env source) f db) := by
  unfold failRun
  rw [if_neg (by simpa using hnew)]
  cases hrecord : env.record with
  | none => exact .failed hnew h rfl rfl
  | some g => exact .notRecorded h hrecord

theorem run_ends : Ends v u p env source db (run v u p env db source) := by
  unfold run
  split
  · rename_i f hcreate
    exact .notCreated hcreate
  · rename_i hcreate
    have hnew : env.jobId ∉ db.jobs.map IngestionJob.jobId := by simpa using (insert_ok hcreate).2
    show Ends v u p env source db (match stages v u p env source db with
      | .error f => failRun env (runningJob env source) f db
      | .ok rows => match env.commit with
        | .ok => (.ok (completedResult (runningJob env source) rows),
            rows.db.addJob (markCompleted env (runningJob env source)))
        | .refused f => failRun env (runningJob env source) f db
        | .lost f => failRun env (runningJob env source) f
            (rows.db.addJob (markCompleted env (runningJob env source))))
    cases hstages : stages v u p env source db with
    | error f => exact failRun_ends hnew (.inl hstages)
    | ok rows =>
      obtain ⟨raw, vectors, hstaged⟩ := stages_ok hstages
      cases hcommit : env.commit with
      | ok => exact .completed hnew hcommit hstaged rfl
      | refused f => exact failRun_ends hnew (.inr ⟨⟨rows, hstages⟩, hcommit⟩)
      | lost f =>
        dsimp only [failRun]
        rw [if_pos (by simp [Database.addJob, markCompleted])]
        exact .lost hcommit hstaged

end

/-- A run that returns has added one job. Where it failed, the rows of the documents, chunks
and terms are as before; where it completed, everything has answered and the rows of the
source are replaced as a whole. A run that raises has written nothing, unless the reply to
its commit is lost; it raises if its job cannot be created, or its failure not recorded. -/
theorem run_atomic (v : Str) (u : Unicode) (p : Printing) (env : Env Id) (source : SourceSpec) (db : Database Id) :
    (∀ e db', run v u p env db source = (.error e, db') →
      db' = db ∧ (env.insert .createJob (!(db.jobs.map IngestionJob.jobId).contains env.jobId) = .error e ∨
          env.record = some e ∧ ∃ f, FailsWith v u p env source db f) ∨
        ∃ f, env.commit = .lost f) ∧
      ∀ result db', run v u p env db source = (.ok result, db') →
        ∃ job, db'.jobs = db.jobs ++ [job] ∧ job.jobId ∉ db.jobs.map IngestionJob.jobId ∧
          job.sourceName = source.name ∧
          (job.status = .failed ∧ db'.documents = db.documents ∧ db'.chunks = db.chunks ∧ db'.terms = db.terms ∧
              (∃ f, FailsWith v u p env source db f ∧ job.errorType = some f.errorType ∧
                job.errorMessage = some f.message) ∨
            job.status = .completed ∧ env.commit = .ok ∧
              ∃ raw vectors rows, Staged v u env source db raw vectors rows ∧
                Replaced v u env source db raw vectors db') := by
  have hends : Ends v u p env source db (run v u p env db source) := run_ends
  constructor
  · intro e db' hrun
    rw [hrun] at hends
    cases hends with
    | notCreated h => exact .inl ⟨rfl, .inl h⟩
    | notRecorded h hrecord => exact .inl ⟨rfl, .inr ⟨hrecord, _, h⟩⟩
    | lost hcommit h => exact .inr ⟨_, hcommit⟩
  · intro result db' hrun
    rw [hrun] at hends
    cases hends with
    | failed hnew h hstatus herror =>
      exact ⟨_, rfl, hnew, rfl, .inl ⟨rfl, rfl, rfl, rfl, _, h, rfl, rfl⟩⟩
    | @completed raw vectors rows _ hnew hcommit h hstatus =>
      refine ⟨markCompleted env (runningJob env source), ?_, hnew, rfl, .inr ⟨rfl, hcommit, raw, vectors, rows, h, ?_⟩⟩
      · rw [Database.addJob, h.jobs]
      · have := h.replaced
        exact ⟨this.documents, this.chunks, this.otherChunks, this.terms⟩

def exampleSource : SourceSpec :=
  ⟨"claude-code".toList, "claude_code".toList, "Claude Code".toList, "docs/a.md".toList, [], none⟩

def exampleText : Str := "# Claude Code\n## Flags\nUse --model here.".toList

/-- Everything answers; the chunks are stored without vectors. -/
def exampleEnv : Env Nat where
  jobId := 1
  documentId := 2
  chunkId i := 10 + i
  termId i := 100 + i
  startedAt := 0
  fetchedAt := 1
  indexedAt := 2
  completedAt := 3
  fetched := .ok exampleText
  vectors := .ok [none]
  database _ := none
  conflict := ⟨"IntegrityError".toList, "UNIQUE constraint failed".toList⟩
  commit := .ok
  record := none

def lostConnection : Failure := ⟨"OperationalError".toList, "connection is closed".toList⟩

/-- The connection is lost before the job is there, or for good while the chunks are
written: there is no row of a failed job. -/
theorem run_unrecorded :
    run "v1".toList .ascii .ascii
        { exampleEnv with database := fun c => if c = .createJob then some lostConnection else none } .empty
        exampleSource = (.error lostConnection, .empty) ∧
      run "v1".toList .ascii .ascii
        { exampleEnv with
          database := fun c => if c = .embedding then some lostConnection else none
          record := some lostConnection } .empty exampleSource = (.error lostConnection, .empty) := by
  decide +kernel

/-! ## A source that is ingested again -/

/-- The rows of a source without their ids and times. -/
structure View where
  indexVersion : Str
  sourceName : Str
  productArea : Str
  sourceUrl : Str
  title : Str
  identityChecksum : Sha256
  contentAsOf : Option Str
  status : DocumentStatus
  /-- each chunk with its terms -/
  chunks : List (Chunk × List (ExtractedTerm × Str))
  deriving DecidableEq, Repr

def view (db : Database Id) (source : SourceSpec) : Option View :=
  (findDocument v db source).map fun d =>
    { indexVersion := d.indexVersion
      sourceName := d.sourceName
      productArea := d.productArea
      sourceUrl := d.sourceUrl
      title := d.title
      identityChecksum := d.identityChecksum
      contentAsOf := d.contentAsOf
      status := d.status
      chunks := (db.chunks.filter fun c => c.documentId = d.documentId).map fun c =>
        (c.chunk, (db.terms.filter fun t => t.documentId = d.documentId && t.chunkId = c.chunkId).map fun t =>
          (t.term, t.productArea)) }

/-- The runs of one runner, one after the other. -/
def runs (history : List (SourceSpec × Env Id)) : Database Id :=
  history.foldl (fun db (source, env) => (run v u p env db source).2) .empty

/-- The keys of `documents`, and one row for each source of the index version. -/
structure Sound (v : Str) (db : Database Id) : Prop where
  ids : ∀ d ∈ db.documents, ∀ d' ∈ db.documents, d.documentId = d'.documentId → d = d'
  names : ∀ d ∈ db.documents, ∀ d' ∈ db.documents, d.indexVersion = v → d'.indexVersion = v →
    d.sourceName = d'.sourceName → d = d'

section

variable {v u p} {env : Env Id} {source : SourceSpec} {db db' : Database Id}

omit [DecidableEq Id] in
theorem findDocument_some {d : DocumentRow Id} (h : findDocument v db source = some d) :
    d ∈ db.documents ∧ d.sourceName = source.name ∧ d.indexVersion = v := by
  obtain ⟨hmem, hnames⟩ := List.mem_filter.mp (List.maxOn?_mem h)
  obtain ⟨hname, hversion⟩ := Bool.and_eq_true_iff.mp hnames
  exact ⟨hmem, of_decide_eq_true hname, of_decide_eq_true hversion⟩

omit [DecidableEq Id] in
theorem findDocument_none (h : findDocument v db source = none) :
    ∀ d ∈ db.documents, d.indexVersion = v → d.sourceName ≠ source.name := by
  intro d hmem hversion hname
  have hempty : db.documents.filter (fun d => d.sourceName = source.name && d.indexVersion = v) = [] := by
    by_contra hne
    have := List.isSome_maxOn?_iff (f := DocumentRow.lastFetchedAt) |>.mpr hne
    rw [findDocument] at h
    rw [h] at this
    cases this
  exact absurd (by simp [hname, hversion]) (List.filter_eq_nil_iff.mp hempty d hmem)

omit [DecidableEq Id] in
theorem Sound.find (hs : Sound v db) {d : DocumentRow Id} (hmem : d ∈ db.documents) (hname : d.sourceName = source.name)
    (hversion : d.indexVersion = v) : findDocument v db source = some d := by
  cases hfind : findDocument v db source with
  | none => exact absurd hname (findDocument_none hfind d hmem hversion)
  | some d' =>
    obtain ⟨hmem', hname', hversion'⟩ := findDocument_some hfind
    rw [hs.names d' hmem' d hmem hversion' hversion (hname'.trans hname.symm)]

/-- What the update of one row leaves of each. -/
theorem updated_names (env : Env Id) (source : SourceSpec) (hs : Sound v db) {old : DocumentRow Id} (hold : old ∈ db.documents) :
    ∀ r ∈ db.documents,
      let r' := if r.documentId = old.documentId then refreshed env source old else r
      r'.documentId = r.documentId ∧ r'.indexVersion = r.indexVersion ∧ r'.sourceName = r.sourceName := by
  intro r hr
  dsimp only
  split
  · rename_i hid
    rw [hs.ids r hr old hold hid]
    exact ⟨rfl, rfl, rfl⟩
  · exact ⟨rfl, rfl, rfl⟩

theorem Sound.written (hs : Sound v db) (hnew : findDocument v db source = none →
    env.documentId ∉ db.documents.map DocumentRow.documentId) (hdocuments : db'.documents = writtenDocuments v env source db) :
    Sound v db' ∧ written v env source db ∈ db'.documents := by
  unfold writtenDocuments at hdocuments
  unfold Ingestion.written
  cases hfind : findDocument v db source with
  | some old =>
    rw [hfind] at hdocuments
    obtain ⟨hmem, -, -⟩ := findDocument_some hfind
    have hkept := updated_names env source hs hmem
    refine ⟨⟨?_, ?_⟩, ?_⟩
    · rw [hdocuments]
      intro d hd d' hd' hid
      obtain ⟨r, hr, rfl⟩ := List.mem_map.mp hd
      obtain ⟨r', hr', rfl⟩ := List.mem_map.mp hd'
      rw [(hkept r hr).1, (hkept r' hr').1] at hid
      rw [hs.ids r hr r' hr' hid]
    · rw [hdocuments]
      intro d hd d' hd' hversion hversion' hname
      obtain ⟨r, hr, rfl⟩ := List.mem_map.mp hd
      obtain ⟨r', hr', rfl⟩ := List.mem_map.mp hd'
      rw [(hkept r hr).2.1] at hversion
      rw [(hkept r' hr').2.1] at hversion'
      rw [(hkept r hr).2.2, (hkept r' hr').2.2] at hname
      rw [hs.names r hr r' hr' hversion hversion' hname]
    · rw [hdocuments]
      exact List.mem_map.mpr ⟨old, hmem, if_pos rfl⟩
  | none =>
    rw [hfind] at hdocuments
    have hfresh := hnew hfind
    have hother := findDocument_none hfind
    have hids : ∀ d ∈ db.documents, d.documentId ≠ env.documentId := fun d hd heq =>
      hfresh (List.mem_map.mpr ⟨d, hd, heq⟩)
    rw [hdocuments]
    refine ⟨⟨?_, ?_⟩, List.mem_append_right _ (List.mem_singleton_self _)⟩
    · rw [hdocuments]
      intro d hd d' hd' hid
      rcases List.mem_append.mp hd with hd | hd <;> rcases List.mem_append.mp hd' with hd' | hd'
      · exact hs.ids d hd d' hd' hid
      · rw [List.mem_singleton.mp hd'] at hid
        exact absurd hid (hids d hd)
      · rw [List.mem_singleton.mp hd] at hid
        exact absurd hid.symm (hids d' hd')
      · rw [List.mem_singleton.mp hd, List.mem_singleton.mp hd']
    · rw [hdocuments]
      intro d hd d' hd' hversion hversion' hname
      rcases List.mem_append.mp hd with hd | hd <;> rcases List.mem_append.mp hd' with hd' | hd'
      · exact hs.names d hd d' hd' hversion hversion' hname
      · rw [List.mem_singleton.mp hd'] at hname
        exact absurd hname (hother d hd hversion)
      · rw [List.mem_singleton.mp hd] at hname
        exact absurd hname.symm (hother d' hd' hversion')
      · rw [List.mem_singleton.mp hd, List.mem_singleton.mp hd']

omit [DecidableEq Id] in
theorem Sound.addJob (hs : Sound v db) (job : IngestionJob Id) : Sound v (db.addJob job) := ⟨hs.ids, hs.names⟩

theorem Sound.run (hs : Sound v db) : Sound v (run v u p env db source).2 := by
  have hends : Ends v u p env source db (Ingestion.run v u p env db source) := run_ends
  generalize Ingestion.run v u p env db source = ended at hends
  cases hends with
  | notCreated h => exact hs
  | notRecorded h hrecord => exact hs
  | failed hnew h hstatus herror => exact hs.addJob _
  | completed hnew hcommit h hstatus => exact (hs.written (fun hnone => (h.inserted hnone).2) h.documents).1.addJob _
  | lost hcommit h => exact (hs.written (fun hnone => (h.inserted hnone).2) h.documents).1.addJob _

theorem sound_runs (u : Unicode) (p : Printing) (history : List (SourceSpec × Env Id)) : Sound v (runs v u p history) := by
  unfold runs
  have hempty : Sound v (Database.empty : Database Id) := ⟨fun _ h => (by cases h), fun _ h => (by cases h)⟩
  revert hempty
  generalize (Database.empty : Database Id) = db
  intro hs
  induction history generalizing db with
  | nil => exact hs
  | cons attempt history ih => exact ih _ hs.run

/-- A selection of rows by what they are made from. -/
theorem mapIdx_filter_map {A B C : Type} (f : Nat → A → B) (keep : B → Bool) (keep' : A → Bool) (g : B → C) (g' : A → C)
    (hkeep : ∀ i a, keep (f i a) = keep' a) (hg : ∀ i a, g (f i a) = g' a) (as : List A) :
    ((as.mapIdx f).filter keep).map g = (as.filter keep').map g' := by
  induction as generalizing f with
  | nil => rfl
  | cons a as ih =>
    rw [List.mapIdx_cons, List.filter_cons, List.filter_cons, hkeep]
    have htail := ih (fun i => f (i + 1)) (fun i => hkeep (i + 1)) (fun i => hg (i + 1))
    split
    · rw [List.map_cons, List.map_cons, hg, htail]
    · exact htail

omit [DecidableEq Id] in
theorem mapIdx_map {A B C : Type} (f : Nat → A → B) (g : B → C) (g' : A → C) (hg : ∀ i a, g (f i a) = g' a) (as : List A) :
    (as.mapIdx f).map g = as.map g' := by
  have := mapIdx_filter_map f (fun _ => true) (fun _ => true) g g' (fun _ _ => rfl) hg as
  simpa using this

/-- What belongs to one of the rows whose keys are all different. -/
theorem flatMap_of_key {A B : Type} {key : A → Id} {g : A → List B} {as : List A} (hnodup : (as.map key).Nodup) {a : A}
    (ha : a ∈ as) : (as.flatMap fun b => if key b = key a then g b else []) = g a := by
  induction as with
  | nil => cases ha
  | cons b as ih =>
    obtain ⟨hfresh, hnodup⟩ := List.nodup_cons.mp hnodup
    rw [List.flatMap_cons]
    rcases List.mem_cons.mp ha with rfl | ha
    · have hnone : (as.flatMap fun c => if key c = key a then g c else []) = [] := by
        refine List.flatMap_eq_nil_iff.mpr fun c hc => if_neg fun heq => hfresh ?_
        exact heq ▸ List.mem_map_of_mem hc
      rw [if_pos rfl, hnone, List.append_nil]
    · have hne : key b ≠ key a := fun heq => hfresh (heq ▸ List.mem_map_of_mem ha)
      rw [if_neg hne, List.nil_append, ih hnodup ha]

/-- The terms of one of the chunks. -/
theorem termRows_of_chunk (env : Env Id) {chunks : List (ChunkRow Id)} (hnodup : (chunks.map ChunkRow.chunkId).Nodup)
    {c : ChunkRow Id} (hc : c ∈ chunks) :
    ((termRows u env source chunks).filter fun t => t.chunkId = c.chunkId).map (fun t => (t.term, t.productArea)) =
      (termsOf u c.chunk).map fun term => (term, source.productArea) := by
  unfold termRows
  rw [mapIdx_filter_map _ _ (fun pair => decide (pair.1.chunkId = c.chunkId)) _
    (fun pair => (pair.2, source.productArea)) (fun _ _ => rfl) (fun _ _ => rfl), List.filter_flatMap]
  have hown : ∀ b : ChunkRow Id, (((termsOf u b.chunk).map fun term => (b, term)).filter fun pair =>
      decide (pair.1.chunkId = c.chunkId)) =
      if b.chunkId = c.chunkId then (termsOf u b.chunk).map fun term => (b, term) else [] := by
    intro b
    rw [List.filter_map]
    split
    · rename_i heq
      simp [Function.comp_def, heq]
    · rename_i hne
      simp [Function.comp_def, hne]
  rw [List.flatMap_congr fun b _ => hown b, flatMap_of_key hnodup hc, List.map_map]
  rfl

/-- What a run of the source makes of what it has fetched and embedded. -/
def generation (v : Str) (u : Unicode) (source : SourceSpec) (productArea raw : Str)
    (vectors : List (Option Embedding)) : View where
  indexVersion := v
  sourceName := source.name
  productArea := productArea
  sourceUrl := urlOf source
  title := source.title
  identityChecksum := ⟨source.name ++ source.title⟩
  contentAsOf := source.contentAsOf
  status := .active
  chunks := ((draftsOf source raw).zipWith (fun draft vector => toChunk source vector draft) vectors).map fun chunk =>
    (chunk, (termsOf u chunk).map fun term => (term, source.productArea))

theorem Staged.view {raw : Str} {vectors : List (Option Embedding)} {rows : Rows Id}
    (h : Staged v u env source db raw vectors rows) (hs : Sound v db) (job : IngestionJob Id) :
    view v (rows.db.addJob job) source =
      some (generation v u source (written v env source db).productArea raw vectors) := by
  obtain ⟨hsound, hmem⟩ := hs.written (fun hnone => (h.inserted hnone).2) h.documents
  have hreplaced := h.replaced
  have hnodup : (rows.chunks.map ChunkRow.chunkId).Nodup := by
    have := h.keys
    rw [h.allChunks, List.map_append] at this
    exact (List.nodup_append.mp this).2.1
  have hfields : ∀ d, d = written v env source db → d.sourceName = source.name ∧ d.indexVersion = v ∧
      d.sourceUrl = urlOf source ∧ d.title = source.title ∧ d.identityChecksum = ⟨source.name ++ source.title⟩ ∧
      d.contentAsOf = source.contentAsOf ∧ d.status = .active := by
    rintro d rfl
    unfold written
    split
    · rename_i old hfind
      obtain ⟨-, hname, hversion⟩ := findDocument_some hfind
      exact ⟨hname, hversion, rfl, rfl, rfl, rfl, rfl⟩
    · exact ⟨rfl, rfl, rfl, rfl, rfl, rfl, rfl⟩
  obtain ⟨hname, hversion, hurl, htitle, hchecksum, hdate, hstatus⟩ := hfields _ rfl
  have hfind : findDocument v (rows.db.addJob job) source = some (written v env source db) :=
    (hsound.addJob job).find hmem hname hversion
  unfold Ingestion.view
  rw [hfind, Option.map_some, hname, hversion, hurl, htitle, hchecksum, hdate, hstatus]
  refine congrArg some ?_
  unfold generation
  congr 1
  show ((rows.db.chunks.filter fun c => c.documentId = (written v env source db).documentId).map fun c => (c.chunk,
    (rows.db.terms.filter fun t => t.documentId = (written v env source db).documentId && t.chunkId = c.chunkId).map
      fun t => (t.term, t.productArea))) = _
  rw [hreplaced.chunks, ← h.chunks]
  have hterms : ∀ c ∈ rows.chunks, (c.chunk,
      (rows.db.terms.filter fun t => t.documentId = (written v env source db).documentId && t.chunkId = c.chunkId).map
        fun t => (t.term, t.productArea)) =
      (c.chunk, (termsOf u c.chunk).map fun term => (term, source.productArea)) := by
    intro c hc
    rw [← termRows_of_chunk env hnodup hc, ← h.terms]
    congr 2
    rw [h.terms, h.chunks, ← hreplaced.terms, List.filter_filter]
    refine List.filter_congr fun t _ => ?_
    rw [Bool.and_comm]
  rw [List.map_congr_left hterms, h.chunks]
  unfold chunkRows
  refine mapIdx_map _ _ _ (fun i chunk => ?_) _
  rfl

/-- What a completed run leaves of its source. -/
theorem view_of_completed {result : RunResult Id} (hs : Sound v db) (hrun : run v u p env db source = (.ok result, db'))
    (hcompleted : result.status = .completed) :
    ∃ raw vectors, env.fetched = .ok raw ∧ env.vectors = .ok vectors ∧
      view v db' source = some (generation v u source (written v env source db).productArea raw vectors) := by
  have hends : Ends v u p env source db (run v u p env db source) := run_ends
  rw [hrun] at hends
  cases hends with
  | failed hnew h hstatus herror =>
    rw [hstatus] at hcompleted
    cases hcompleted
  | @completed raw vectors rows _ hnew hcommit h hstatus =>
    exact ⟨raw, vectors, h.fetched, h.embedded, h.view hs _⟩

omit [DecidableEq Id] in
theorem written_productArea (env : Env Id) : (written v env source db).productArea = source.productArea ↔
    ∀ d, findDocument v db source = some d → d.productArea = source.productArea := by
  unfold written
  cases hfind : findDocument v db source with
  | none => exact ⟨fun _ _ h => (by cases h), fun _ => rfl⟩
  | some old =>
    refine ⟨fun h d hd => ?_, fun h => h old rfl⟩
    obtain rfl := Option.some.inj hd
    exact h

end

/-- After any runs over an index version, a run that completes leaves of its source what the
same run leaves on an empty index, if and only if the source had no document there or the
product area of the document is the one of the source. -/
theorem reingest_iff (v : Str) (u : Unicode) (p : Printing) (history : List (SourceSpec × Env Id)) (source : SourceSpec)
    (env env' : Env Id) (db db' : Database Id) (result result' : RunResult Id)
    (hrun : run v u p env (runs v u p history) source = (.ok result, db)) (hcompleted : result.status = .completed)
    (hfresh : run v u p env' .empty source = (.ok result', db')) (hcompleted' : result'.status = .completed)
    (hfetched : env'.fetched = env.fetched) (hvectors : env'.vectors = env.vectors) :
    view v db source = view v db' source ↔
      ∀ d, findDocument v (runs v u p history) source = some d → d.productArea = source.productArea := by
  obtain ⟨raw, vectors, hraw, hembedded, hview⟩ := view_of_completed (sound_runs u p history) hrun hcompleted
  have hempty : Sound v (Database.empty : Database Id) := sound_runs u p []
  obtain ⟨raw', vectors', hraw', hembedded', hview'⟩ := view_of_completed hempty hfresh hcompleted'
  obtain rfl : raw' = raw := Except.ok.inj (hraw'.symm.trans (hfetched.trans hraw))
  obtain rfl : vectors' = vectors := Except.ok.inj (hembedded'.symm.trans (hvectors.trans hembedded))
  have harea : (written v env' source (Database.empty : Database Id)).productArea = source.productArea := rfl
  rw [hview, hview', harea, ← written_productArea env]
  constructor
  · intro h
    exact congrArg View.productArea (Option.some.inj h)
  · intro h
    rw [h]

/-- The second run of the source, with ids of its own. -/
def exampleAgain : Env Nat :=
  { exampleEnv with jobId := 3, documentId := 4, chunkId := fun i => 20 + i, termId := fun i => 200 + i }

/-- The source is ingested, and again after an edit of its entry. -/
def exampleRerun (source : SourceSpec) : Except Failure (RunResult Nat) × Database Nat :=
  run "v1".toList .ascii .ascii exampleAgain (runs "v1".toList .ascii .ascii [(exampleSource, exampleEnv)]) source

def exampleFresh (source : SourceSpec) : Except Failure (RunResult Nat) × Database Nat :=
  run "v1".toList .ascii .ascii exampleEnv .empty source

omit [DecidableEq Id] in
theorem returned_of_status (ended : Except Failure (RunResult Id) × Database Id) (status : JobStatus)
    (h : ended.1.toOption.map RunResult.status = some status) :
    ∃ result db, ended = (.ok result, db) ∧ result.status = status := by
  obtain ⟨r, db⟩ := ended
  cases r with
  | error e => cases h
  | ok result => exact ⟨result, db, rfl, Option.some.inj h⟩

def retitledSource : SourceSpec := { exampleSource with title := "CLI".toList }

theorem reingest_retitled :
    view "v1".toList (exampleRerun retitledSource).2 retitledSource =
      view "v1".toList (exampleFresh retitledSource).2 retitledSource := by
  obtain ⟨result, db, hrun, hcompleted⟩ :=
    returned_of_status (exampleRerun retitledSource) .completed (by decide +kernel)
  obtain ⟨result', db', hfresh, hcompleted'⟩ :=
    returned_of_status (exampleFresh retitledSource) .completed (by decide +kernel)
  rw [hrun, hfresh]
  exact (reingest_iff _ _ _ [(exampleSource, exampleEnv)] _ exampleAgain exampleEnv db db' result result' hrun hcompleted
    hfresh hcompleted' rfl rfl).mpr (by decide +kernel)

/-- The source has moved to another product area: its chunks move, its document does not. -/
theorem reingest_moved :
    ∃ d ∈ view "v1".toList (exampleRerun { exampleSource with productArea := "claude_api".toList }).2 exampleSource,
      ∃ d' ∈ view "v1".toList (exampleFresh { exampleSource with productArea := "claude_api".toList }).2 exampleSource,
        d.productArea = "claude_code".toList ∧ d'.productArea = "claude_api".toList ∧
          (d.chunks.map fun c => c.1.productArea) = ["claude_api".toList] ∧ d ≠ d' := by
  decide +kernel

/-- The embedder fails in the second run. -/
def exampleFailed : Except Failure (RunResult Nat) × Database Nat :=
  run "v1".toList .ascii .ascii { exampleAgain with vectors := .error ⟨"EmbeddingError".toList, "quota".toList⟩ }
    (runs "v1".toList .ascii .ascii [(exampleSource, exampleEnv)]) exampleSource

/-- The rows of the first run stay, and there is a second job. -/
theorem run_atomic_embedder :
    exampleFailed.2.chunks = (runs "v1".toList .ascii .ascii [(exampleSource, exampleEnv)]).chunks ∧
      exampleFailed.2.jobs.map IngestionJob.status = [.completed, .failed] := by
  obtain ⟨result, db, hrun, -⟩ := returned_of_status exampleFailed .failed (by decide +kernel)
  have hjobs : exampleFailed.2.jobs.map IngestionJob.status = [.completed, .failed] := by
    decide +kernel
  refine ⟨?_, hjobs⟩
  rw [hrun] at hjobs ⊢
  obtain ⟨job, hnew, -, -, ⟨-, -, hchunks, -⟩ | ⟨hcompleted, -⟩⟩ :=
    (run_atomic "v1".toList .ascii .ascii _ exampleSource _).2 result db hrun
  · exact hchunks
  · have hlast := congrArg List.getLast? hjobs
    rw [hnew, List.map_append, List.map_singleton, hcompleted, List.getLast?_concat] at hlast
    cases hlast

/-! ## Documents that hold their chunks -/

/-- A document with its chunks. -/
def DocumentRow.withChunks (d : DocumentRow Id) (chunks : List (ChunkRow Id)) : Document where
  sourceName := d.sourceName
  productArea := d.productArea
  sourceUrl := d.sourceUrl
  title := d.title
  identityChecksum := d.identityChecksum
  contentAsOf := d.contentAsOf
  status := d.status
  chunks := (chunks.filter fun c => c.documentId = d.documentId).map ChunkRow.chunk

/-- The documents of the index version, as `CiteVyn.Worker.Runner` has them. -/
def documentsOf (v : Str) (db : Database Id) : List Document :=
  (db.documents.filter fun d => d.indexVersion = v).map fun d => d.withChunks db.chunks

/-- The chunks that the run writes, without their keys. -/
def chunksOf (source : SourceSpec) (raw : Str) (vectors : List (Option Embedding)) : List Chunk :=
  (draftsOf source raw).zipWith (fun draft vector => toChunk source vector draft) vectors

section

variable {v u p} {env : Env Id} {source : SourceSpec} {db db' : Database Id} {raw : Str}
  {vectors : List (Option Embedding)}

omit [DecidableEq Id] in
theorem chunkRows_chunk (documentId : Id) :
    (chunkRows env source documentId (draftsOf source raw) vectors).map ChunkRow.chunk = chunksOf source raw vectors := by
  unfold chunkRows chunksOf
  refine (mapIdx_map _ _ id (fun i chunk => ?_) _).trans (List.map_id _)
  rfl

/-- The chunks of a document that the run leaves alone. -/
theorem Replaced.other (h : Replaced v u env source db raw vectors db') {documentId : Id}
    (hne : documentId ≠ (written v env source db).documentId) :
    (db'.chunks.filter fun c => c.documentId = documentId) = db.chunks.filter fun c => c.documentId = documentId := by
  have hfilter : ∀ chunks : List (ChunkRow Id), (chunks.filter fun c => c.documentId = documentId) =
      (chunks.filter fun c => c.documentId ≠ (written v env source db).documentId).filter fun c =>
        c.documentId = documentId := by
    intro chunks
    rw [List.filter_filter]
    refine List.filter_congr fun c _ => ?_
    by_cases hc : c.documentId = documentId
    · simp [hc, hne]
    · simp [hc]
  rw [hfilter, h.otherChunks, ← hfilter]

theorem Replaced.refines (h : Replaced v u env source db raw vectors db') (hs : Sound v db)
    (hnew : findDocument v db source = none → env.documentId ∉ db.documents.map DocumentRow.documentId) :
    documentsOf v db' = putDocument (documentsOf v db) source (chunksOf source raw vectors) := by
  have hrow : ((db'.chunks.filter fun c => c.documentId = (written v env source db).documentId).map ChunkRow.chunk) =
      chunksOf source raw vectors := by
    rw [h.chunks, chunkRows_chunk]
  have hdocuments := h.documents
  have hother := @h.other
  unfold documentsOf putDocument
  unfold written at hrow hother
  unfold writtenDocuments at hdocuments
  cases hfind : findDocument v db source with
  | some old =>
    rw [hfind] at hdocuments hrow hother
    obtain ⟨hmem, hname, hversion⟩ := findDocument_some hfind
    have hkept := updated_names env source hs hmem
    rw [if_pos (by
      rw [List.map_map]
      exact List.mem_map.mpr ⟨old, List.mem_filter.mpr ⟨hmem, decide_eq_true hversion⟩, hname⟩), hdocuments, List.filter_map,
      List.map_map, List.map_map]
    have hfilter : db.documents.filter ((fun d : DocumentRow Id => decide (d.indexVersion = v)) ∘ fun r =>
        if r.documentId = old.documentId then refreshed env source old else r) =
        db.documents.filter fun d => d.indexVersion = v := by
      refine List.filter_congr fun r hr => ?_
      simp only [Function.comp_apply, (hkept r hr).2.1]
    rw [hfilter]
    refine List.map_congr_left fun r hr => ?_
    obtain ⟨hr, hrversion⟩ := List.mem_filter.mp hr
    have hsame : r.sourceName = source.name ↔ r.documentId = old.documentId := by
      constructor
      · intro hrname
        rw [hs.names r hr old hmem (of_decide_eq_true hrversion) hversion (hrname.trans hname.symm)]
      · intro hid
        rw [hs.ids r hr old hmem hid, hname]
    simp only [Function.comp_apply]
    by_cases hid : r.documentId = old.documentId
    · have hnamed : (r.withChunks db.chunks).sourceName = source.name := hsame.mpr hid
      rw [if_pos hid, if_pos hnamed, hs.ids r hr old hmem hid, ← hrow]
      rfl
    · have hnamed : (r.withChunks db.chunks).sourceName ≠ source.name := fun hrname => hid (hsame.mp hrname)
      rw [if_neg hid, if_neg hnamed]
      unfold DocumentRow.withChunks
      rw [hother hid]
  | none =>
    rw [hfind] at hdocuments hrow hother
    have hfresh := hnew hfind
    have hnone := findDocument_none hfind
    rw [if_neg (by
      rw [List.map_map]
      intro hnames
      obtain ⟨d, hd, hname⟩ := List.mem_map.mp hnames
      obtain ⟨hd, hversion⟩ := List.mem_filter.mp hd
      exact hnone d hd (of_decide_eq_true hversion) hname), hdocuments, List.filter_append, List.map_append]
    congr 1
    · refine List.map_congr_left fun d hd => ?_
      have hne : d.documentId ≠ env.documentId := fun heq =>
        hfresh (List.mem_map.mpr ⟨d, (List.mem_filter.mp hd).1, heq⟩)
      unfold DocumentRow.withChunks
      rw [hother hne]
    · have honly : ([newRow v env source].filter fun d => d.indexVersion = v) = [newRow v env source] :=
        List.filter_eq_self.mpr (by simp [newRow])
      rw [honly, List.map_singleton, ← hrow]
      rfl

omit [DecidableEq Id] in
/-- What an embedder makes of the drafts. -/
theorem chunksOf_embedder (embedder : Option EmbedderIdentity) (hvectors : vectors =
    (draftsOf source raw).map fun draft => embedder.map fun identity => ⟨identity, draft.text⟩) :
    chunksOf source raw vectors = materializeChunks embedder source (draftsOf source raw) := by
  unfold chunksOf materializeChunks
  rw [hvectors, List.zipWith_map_right, List.zipWith_self]

end

/-- A completed run over the tables is a run over the documents that hold their chunks. -/
theorem run_refines {H : Type} (v : Str) (u : Unicode) (p : Printing) (env : Env Id) (source : SourceSpec)
    (db db' : Database Id) (result : RunResult Id) (runner : IngestionRunner H) (index : Index H) (raw : Str)
    (hs : Sound v db) (hindex : index.documents = documentsOf v db)
    (hrun : run v u p env db source = (.ok result, db')) (hcompleted : result.status = .completed)
    (hraw : env.fetched = .ok raw) (hvectors : env.vectors =
      .ok ((draftsOf source raw).map fun draft => runner.embedder.map fun identity => ⟨identity, draft.text⟩)) :
    ∃ index', runner.run index source ⟨some raw, true, true⟩ = .ok index' ∧ index'.documents = documentsOf v db' := by
  have hends : Ends v u p env source db (run v u p env db source) := run_ends
  rw [hrun] at hends
  cases hends with
  | failed hnew h hstatus herror =>
    rw [hstatus] at hcompleted
    cases hcompleted
  | @completed raw' vectors rows _ hnew hcommit h hstatus =>
    obtain rfl : raw = raw' := Except.ok.inj (hraw.symm.trans h.fetched)
    have hsections : (draftsOf source raw).isEmpty = false := by simpa using h.sections
    refine ⟨index.put source (materializeChunks runner.embedder source (draftsOf source raw)), ?_, ?_⟩
    · simp [IngestionRunner.run, drafts, hsections, Except.map]
    · have hrefines := h.replaced.refines hs fun hnone => (h.inserted hnone).2
      rw [chunksOf_embedder runner.embedder (Except.ok.inj (h.embedded.symm.trans hvectors)), ← hindex] at hrefines
      exact hrefines.symm

end CiteVyn.Worker.Ingestion
