import CiteVyn.Worker.Parser
import Mathlib.Data.List.Nodup

/-! # Ingesting one source

`IngestionRunner` of `app/worker/runner.py`: one source through fetch, parse,
chunk, embed and persist, in one transaction, with the two helpers that write
the index version's row. -/
namespace CiteVyn.Worker
open CiteVyn.Text

/-- `SourceSpec`. The date is in ISO format. -/
structure SourceSpec where
  name : Str
  productArea : Str
  title : Str
  location : Str
  sourceUrl : Str
  contentAsOf : Option Str
  deriving DecidableEq, Repr

/-- `EmbedderIdentity`. -/
structure EmbedderIdentity where
  provider : Str
  model : Str
  dim : Nat
  deriving DecidableEq, Repr

/-- A stored vector, as what was embedded and who embedded it. -/
structure Embedding where
  embedder : EmbedderIdentity
  text : Str
  deriving DecidableEq, Repr

/-- A SHA-256 digest, as what it is of. -/
structure Sha256 where
  text : Str
  deriving DecidableEq, Repr

/-- `Chunk`. -/
structure Chunk where
  productArea : Str
  sectionPath : Str
  heading : Str
  chunkText : Str
  contextSummary : Str
  chunkOrder : Nat
  contentChecksum : Sha256
  embedding : Option Embedding
  deriving DecidableEq, Repr

inductive DocumentStatus where
  | active
  | failed
  | deprecated
  deriving DecidableEq, Repr

/-- `Document`, with its chunks. -/
structure Document where
  sourceName : Str
  productArea : Str
  sourceUrl : Str
  title : Str
  identityChecksum : Sha256
  contentAsOf : Option Str
  status : DocumentStatus
  chunks : List Chunk
  deriving DecidableEq, Repr

/-- The columns of an index version's row that ingestion writes. -/
structure IndexRow (H : Type*) where
  sourceVersionHash : H
  stamp : Option EmbedderIdentity
  deriving DecidableEq, Repr

/-- One index version: its row, once it is created, and its documents, one for
each source. -/
structure Index (H : Type*) where
  row : Option (IndexRow H)
  documents : List Document
  nodup : (documents.map Document.sourceName).Nodup

/-- The runner, as `build_runner` sets it up: `NullEmbedder` is `none`. -/
structure IngestionRunner (H : Type*) where
  embedder : Option EmbedderIdentity
  stamp : Option EmbedderIdentity
  sourceVersionHash : H
  deriving DecidableEq

/-- What the outside answers while one source is ingested. -/
structure Attempt where
  /-- `FetchError` is `none` -/
  fetched : Option Str
  embeds : Bool
  persists : Bool
  deriving DecidableEq, Repr

/-- `error_type` of a failed run. -/
inductive RunError where
  | fetchError
  | parseError
  | embedError
  | persistError
  deriving DecidableEq, Repr

/-- A chunk of a draft. -/
def toChunk (source : SourceSpec) (embedding : Option Embedding) (draft : ChunkDraft) : Chunk where
  productArea := source.productArea
  sectionPath := draft.heading
  heading := draft.heading
  chunkText := draft.text
  contextSummary := draft.text.take 120
  chunkOrder := draft.chunkOrder
  contentChecksum := ⟨draft.text⟩
  embedding := embedding

/-- The drafts of a source. -/
def draftsOf (source : SourceSpec) (text : Str) : List ChunkDraft :=
  chunkDocument (parseMarkdown text) source.title

/-- The chunks that `_materialize_chunks` writes. -/
def materializeChunks (embedder : Option EmbedderIdentity) (source : SourceSpec)
    (drafts : List ChunkDraft) : List Chunk :=
  drafts.map fun draft => toChunk source (embedder.map fun identity => ⟨identity, draft.text⟩) draft

/-- `_upsert_document` for a source that has a document. The product area stays. -/
def Document.refresh (document : Document) (source : SourceSpec) (chunks : List Chunk) : Document :=
  { document with
    sourceUrl := if source.sourceUrl.isEmpty then source.location else source.sourceUrl
    title := source.title
    identityChecksum := ⟨source.name ++ source.title⟩
    contentAsOf := source.contentAsOf
    status := .active
    chunks := chunks }

/-- `_upsert_document` for a source that has none. -/
def newDocument (source : SourceSpec) (chunks : List Chunk) : Document where
  sourceName := source.name
  productArea := source.productArea
  sourceUrl := if source.sourceUrl.isEmpty then source.location else source.sourceUrl
  title := source.title
  identityChecksum := ⟨source.name ++ source.title⟩
  contentAsOf := source.contentAsOf
  status := .active
  chunks := chunks

/-- `_upsert_document` with the chunks of the source replaced. -/
def putDocument (documents : List Document) (source : SourceSpec) (chunks : List Chunk) :
    List Document :=
  if source.name ∈ documents.map Document.sourceName then
    documents.map fun document =>
      if document.sourceName = source.name then document.refresh source chunks else document
  else documents ++ [newDocument source chunks]

theorem putDocument_nodup {documents : List Document} (source : SourceSpec) (chunks : List Chunk)
    (h : (documents.map Document.sourceName).Nodup) :
    ((putDocument documents source chunks).map Document.sourceName).Nodup := by
  unfold putDocument
  split
  · rw [List.map_map]
    convert h using 1
    refine List.map_congr_left fun document _ => ?_
    simp only [Function.comp_apply]
    split <;> rfl
  · rename_i hnew
    rw [List.map_append]
    refine List.Nodup.append h (by simp) ?_
    intro name hname hsource
    rw [List.map_singleton, List.mem_singleton] at hsource
    have heq : name = source.name := hsource
    exact hnew (heq ▸ hname)

variable {H : Type*}

/-- What a run of a source makes of an attempt: its drafts, or the failure. -/
def drafts (source : SourceSpec) (attempt : Attempt) : Except RunError (List ChunkDraft) :=
  match attempt.fetched with
  | none => .error .fetchError
  | some text =>
    if (draftsOf source text).isEmpty then .error .parseError
    else if !attempt.embeds then .error .embedError
    else if !attempt.persists then .error .persistError
    else .ok (draftsOf source text)

def Index.put (index : Index H) (source : SourceSpec) (chunks : List Chunk) : Index H :=
  { index with
    documents := putDocument index.documents source chunks
    nodup := putDocument_nodup source chunks index.nodup }

/-- `IngestionRunner.run`. A failure rolls back. -/
def IngestionRunner.run (runner : IngestionRunner H) (index : Index H) (source : SourceSpec)
    (attempt : Attempt) : Except RunError (Index H) :=
  (drafts source attempt).map fun drafts =>
    index.put source (materializeChunks runner.embedder source drafts)

/-- `ensure_index_version`. -/
def ensureIndexVersion (index : Index H) (sourceVersionHash : H) (stamp : Option EmbedderIdentity) :
    Index H :=
  match index.row with
  | none => { index with row := some ⟨sourceVersionHash, stamp⟩ }
  | some row => { index with row := some { row with stamp := stamp.or row.stamp } }

/-- `advance_source_version_hash`. -/
def advanceSourceVersionHash (index : Index H) (sourceVersionHash : H) : Index H :=
  { index with row := index.row.map fun row => { row with sourceVersionHash := sourceVersionHash } }

/-! ## What a run writes -/

/-- A document that a run of the source has written. -/
structure Written (document : Document) (source : SourceSpec) (chunks : List Chunk) : Prop where
  sourceName : document.sourceName = source.name
  sourceUrl : document.sourceUrl =
    if source.sourceUrl.isEmpty then source.location else source.sourceUrl
  title : document.title = source.title
  identityChecksum : document.identityChecksum = ⟨source.name ++ source.title⟩
  contentAsOf : document.contentAsOf = source.contentAsOf
  status : document.status = .active
  chunks : document.chunks = chunks

theorem written_refresh {document : Document} {source : SourceSpec} (chunks : List Chunk)
    (h : document.sourceName = source.name) :
    Written (document.refresh source chunks) source chunks := ⟨h, rfl, rfl, rfl, rfl, rfl, rfl⟩

theorem written_new (source : SourceSpec) (chunks : List Chunk) :
    Written (newDocument source chunks) source chunks := ⟨rfl, rfl, rfl, rfl, rfl, rfl, rfl⟩

/-- After a run the documents are the others, and one of the source. -/
theorem mem_put {index : Index H} {source : SourceSpec} {chunks : List Chunk} {document : Document}
    (h : document ∈ (index.put source chunks).documents) :
    document ∈ index.documents ∧ document.sourceName ≠ source.name ∨
      Written document source chunks := by
  simp only [Index.put, putDocument] at h
  split at h
  · obtain ⟨old, hold, rfl⟩ := List.mem_map.mp h
    split
    · exact .inr (written_refresh chunks ‹_›)
    · exact .inl ⟨hold, ‹_›⟩
  · rename_i hnew
    rcases List.mem_append.mp h with hold | hmem
    · refine .inl ⟨hold, fun heq => hnew ?_⟩
      exact List.mem_map.mpr ⟨document, hold, heq⟩
    · rw [List.mem_singleton.mp hmem]
      exact .inr (written_new source chunks)

theorem put_of_other {index : Index H} {source : SourceSpec} (chunks : List Chunk)
    {document : Document} (h : document ∈ index.documents)
    (hne : document.sourceName ≠ source.name) :
    document ∈ (index.put source chunks).documents := by
  simp only [Index.put, putDocument]
  split
  · exact List.mem_map.mpr ⟨document, h, if_neg hne⟩
  · exact List.mem_append_left _ h

theorem exists_written (index : Index H) (source : SourceSpec) (chunks : List Chunk) :
    ∃ document ∈ (index.put source chunks).documents, Written document source chunks := by
  simp only [Index.put, putDocument]
  split
  · rename_i hmem
    obtain ⟨old, hold, heq⟩ := List.mem_map.mp hmem
    exact ⟨old.refresh source chunks, List.mem_map.mpr ⟨old, hold, if_pos heq⟩,
      written_refresh chunks heq⟩
  · exact ⟨_, List.mem_append_right _ (List.mem_singleton.mpr rfl), written_new source chunks⟩

/-- One document for each source. -/
theorem document_unique {index : Index H} {d d' : Document} (h : d ∈ index.documents)
    (h' : d' ∈ index.documents) (heq : d.sourceName = d'.sourceName) : d = d' :=
  List.inj_on_of_nodup_map index.nodup h h' heq

theorem drafts_ok {source : SourceSpec} {attempt : Attempt} {ds : List ChunkDraft}
    (h : drafts source attempt = .ok ds) :
    ∃ text, attempt.fetched = some text ∧ ds = draftsOf source text ∧ ds ≠ [] := by
  unfold drafts at h
  split at h
  · cases h
  · rename_i text htext
    split at h
    · cases h
    rename_i hne
    split at h
    · cases h
    split at h
    · cases h
    · obtain rfl := Except.ok.inj h
      exact ⟨text, htext, rfl, by simpa using hne⟩

theorem run_ok {runner : IngestionRunner H} {index index' : Index H} {source : SourceSpec}
    {attempt : Attempt} (h : runner.run index source attempt = .ok index') :
    ∃ ds, drafts source attempt = .ok ds ∧
      index' = index.put source (materializeChunks runner.embedder source ds) := by
  unfold IngestionRunner.run at h
  cases hd : drafts source attempt with
  | error e =>
    rw [hd] at h
    cases h
  | ok ds =>
    rw [hd] at h
    exact ⟨ds, rfl, (Except.ok.inj h).symm⟩

/-- What a run embeds, it embeds with its own embedder. -/
theorem embedder_of_materialized {embedder : Option EmbedderIdentity} {source : SourceSpec}
    {ds : List ChunkDraft} {c : Chunk} {e : Embedding}
    (hc : c ∈ materializeChunks embedder source ds) (he : c.embedding = some e) :
    embedder = some e.embedder := by
  obtain ⟨draft, _, rfl⟩ := List.mem_map.mp hc
  obtain ⟨identity, hid, rfl⟩ := Option.map_eq_some_iff.mp he
  exact hid

end CiteVyn.Worker
