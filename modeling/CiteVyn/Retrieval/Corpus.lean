import CiteVyn.Retrieval.Hybrid
import CiteVyn.Worker.Ingestion

/-! # The tables, as the retrieval arms read them

What the queries of `app/retrieval/exact.py`, `keyword.py` and `vector.py` have in
common: the rows that ingestion writes, joined by their keys, and what of a row goes
into a `RetrievedChunk`. -/
namespace CiteVyn.Retrieval
open CiteVyn.Answer CiteVyn.Lib.OrderBy CiteVyn.Text CiteVyn.Worker CiteVyn.Worker.Ingestion

/-- `str.lower` and the database's `lower`, where they agree: what is in lower case
already stays, and so do the characters that `LIKE` reads. -/
structure CaseFold where
  lower : Str → Str
  settled : Char → Bool
  settled_lower : ∀ s, ∀ c ∈ lower s, settled c = true
  lower_settled : ∀ s, (∀ c ∈ s, settled c = true) → lower s = s
  marks : ∀ c ∈ ['%', '_', '/', '\\'], settled c = true

theorem CaseFold.lower_lower (f : CaseFold) (s : Str) : f.lower (f.lower s) = f.lower s :=
  f.lower_settled _ (f.settled_lower s)

theorem lowerChar_lowerChar (c : Char) : ∀ d ∈ lowerChar c, lowerChar d = [d] := by
  intro d hd
  unfold lowerChar at hd
  split at hd
  · rename_i hupper
    simp only [Bool.and_eq_true, decide_eq_true_eq, Char.le_def, UInt32.le_iff_toNat_le] at hupper
    have hn : c.toNat ∈ List.range' 65 26 := List.mem_range'_1.mpr ⟨hupper.1, Nat.lt_succ_of_le hupper.2⟩
    have hall : ∀ n ∈ List.range' 65 26, lowerChar (Char.ofNat (n + 32)) = [Char.ofNat (n + 32)] := by decide
    rw [List.mem_singleton.mp hd]
    exact hall _ hn
  split at hd
  · rw [List.mem_singleton.mp hd]
    decide
  split at hd
  · rcases List.mem_cons.mp hd with rfl | hd
    · decide
    · rw [List.mem_singleton.mp hd]
      decide
  · rename_i hupper hkelvin hdot
    rw [List.mem_singleton.mp hd, lowerChar, if_neg hupper, if_neg hkelvin, if_neg hdot]

/-- The case of ASCII text. -/
def CaseFold.ascii : CaseFold where
  lower := Text.lower
  settled c := lowerChar c == [c]
  settled_lower s c hc := by
    obtain ⟨d, -, hd⟩ := List.mem_flatMap.mp hc
    exact beq_iff_eq.mpr (lowerChar_lowerChar d c hd)
  lower_settled s hs := by
    induction s with
    | nil => rfl
    | cons c s ih =>
      rw [Text.lower, List.flatMap_cons, beq_iff_eq.mp (hs c List.mem_cons_self)]
      exact congrArg (c :: ·) (ih fun d hd => hs d (List.mem_cons_of_mem c hd))
  marks := List.all_eq_true.mp (by decide)

/-- The order in which the database returns the rows of a query that names none. -/
structure Plan (α : Type*) where
  order : List α → List α
  perm : ∀ rows, (order rows).Perm rows

def Plan.asStored {α : Type*} : Plan α := ⟨id, fun _ => List.Perm.refl _⟩

/-- The plan that returns these rows in another order. -/
def Plan.swapped {α : Type*} [DecidableEq α] {rows rows' : List α} (h : rows'.Perm rows) : Plan α where
  order l := if l = rows then rows' else l
  perm l := by
    split
    · rename_i heq
      rwa [heq]
    · exact List.Perm.refl l

@[simp] theorem Plan.order_swapped {α : Type*} [DecidableEq α] {rows rows' : List α} (h : rows'.Perm rows) :
    (Plan.swapped h).order rows = rows' := if_pos rfl

/-- A row of `chunks` with the row of `documents` it refers to. -/
structure ChunkOfDocument where
  chunk : ChunkRow String
  document : DocumentRow String
  deriving DecidableEq

/-- `select(Chunk, Document).join(...)`; `document_id` is the key of `documents`. -/
def chunkJoin (db : Database String) : List ChunkOfDocument :=
  db.chunks.filterMap fun chunk =>
    (db.documents.find? fun d => d.documentId = chunk.documentId).map (⟨chunk, ·⟩)

/-- `Document.status == active`, and the active index version where there is one. -/
def servable (version : Option Str) (d : DocumentRow String) : Bool :=
  d.status = .active && version.all (· = d.indexVersion)

/-- `Chunk.product_area == product_area`. -/
def inArea (area : String) (chunk : ChunkRow String) : Bool := chunk.chunk.productArea = area.toList

/-- The `RetrievedChunk` of a chunk and its document. -/
def toRetrieved (score : Rat) (chunk : ChunkRow String) (d : DocumentRow String) : RetrievedChunk Str where
  chunkId := chunk.chunkId
  productArea := String.ofList chunk.chunk.productArea
  sourceName := String.ofList d.sourceName
  documentTitle := String.ofList d.title
  sourceUrl := String.ofList d.sourceUrl
  contentAsOf := d.contentAsOf.map String.ofList
  score := score
  indexVersion := some d.indexVersion

theorem productArea_toRetrieved {score : Rat} {chunk : ChunkRow String} {d : DocumentRow String} {area : String} :
    (toRetrieved score chunk d).productArea = area ↔ inArea area chunk = true := by
  rw [inArea, decide_eq_true_eq, toRetrieved, ← String.toList_inj, String.toList_ofList]

/-! ## A corpus -/

/-- A run that ingests the text, of so many chunks. -/
def ingesting (name : String) (text : String) (chunks : Nat) : Env String where
  jobId := "job-" ++ name
  documentId := "document-" ++ name
  chunkId i := "chunk-" ++ name ++ toString i
  termId i := "term-" ++ name ++ toString i
  startedAt := 0
  fetchedAt := 1
  indexedAt := 2
  completedAt := 3
  fetched := .ok text.toList
  vectors := .ok (List.replicate chunks none)
  database _ := none
  conflict := ⟨"IntegrityError".toList, "UNIQUE constraint failed".toList⟩
  commit := .ok
  record := none

def pageOf (name productArea : String) : SourceSpec :=
  ⟨name.toList, productArea.toList, name.toList, (name ++ ".md").toList, [], none⟩

def exampleVersion : Str := "v1".toList

/-- Two pages of two products; the one writes a parameter and its environment variable. -/
def examplePages : List (SourceSpec × Env String) :=
  [(pageOf "messages" "claude_api", ingesting "a"
      "# API\n## Limits\nSet MAX_TOKENS or max_tokens.\n## Stops\nLower MAX_TOKENS or max_tokens." 2),
    (pageOf "gemini" "gemini_api", ingesting "b" "# API\n## Limits\nSet MAX_TOKENS." 1)]

def exampleCorpus : Database String := runs exampleVersion .ascii .ascii examplePages

end CiteVyn.Retrieval
