import CiteVyn.Text.Python

/-! # From the text of a source to its chunks

`parse_markdown` of `app/worker/parser.py` and `chunk_document` of
`app/worker/chunker.py`: one chunk for each `## ` section with text, with the
document's title in front. -/
namespace CiteVyn.Worker
open CiteVyn.Text

/-- A line end of `str.splitlines`. -/
def isLineEnd (c : Char) : Bool :=
  ['\n', '\r', '\x0b', '\x0c', '\x1c', '\x1d', '\x1e', '\u0085', '\u2028', '\u2029'].contains c

/-- `str.splitlines`, with what is read of the current line, last character
first. -/
def splitLinesFrom : Str → Str → List Str
  | line, [] => if line.isEmpty then [] else [line.reverse]
  | line, '\r' :: '\n' :: cs => line.reverse :: splitLinesFrom [] cs
  | line, c :: cs =>
    if isLineEnd c then line.reverse :: splitLinesFrom [] cs else splitLinesFrom (c :: line) cs

/-- `Block`. -/
structure Block where
  heading : Str
  text : Str
  deriving DecidableEq, Repr

/-- `ParsedDocument`. -/
structure ParsedDocument where
  title : Str
  blocks : List Block
  deriving DecidableEq, Repr

/-- The variables of `_parse`. -/
structure ParseState where
  title : Str
  blocks : List Block
  currentHeading : Option Str
  currentText : List Str

/-- `_iter_lines`. -/
def iterLines (raw : Str) : List Str :=
  ((splitLinesFrom [] raw).map rstrip).filter fun line => !line.isEmpty

/-- `_flush`: the blocks after it. -/
def ParseState.flush (s : ParseState) : List Block :=
  match s.currentHeading with
  | none => s.blocks
  | some heading =>
    let text := strip (List.intercalate [' '] s.currentText)
    if text.isEmpty then s.blocks else s.blocks ++ [⟨heading, text⟩]

/-- The loop body of `_parse`. -/
def parseLine (s : ParseState) (line : Str) : ParseState :=
  if "# ".toList.isPrefixOf line && s.title.isEmpty then { s with title := strip (line.drop 2) }
  else if "## ".toList.isPrefixOf line then
    { s with blocks := s.flush, currentHeading := some (strip (line.drop 3)), currentText := [] }
  else
    match s.currentHeading with
    | none => s
    | some _ => { s with currentText := s.currentText ++ [line] }

/-- `parse_markdown`. -/
def parseMarkdown (raw : Str) : ParsedDocument :=
  let s := (iterLines raw).foldl parseLine ⟨[], [], none, []⟩
  ⟨s.title, s.flush⟩

/-- `ChunkDraft`. -/
structure ChunkDraft where
  chunkOrder : Nat
  heading : Str
  text : Str
  preText : Str
  deriving DecidableEq, Repr

/-- `_build_draft`. -/
def buildDraft (order : Nat) (title : Str) (block : Block) : ChunkDraft where
  chunkOrder := order
  heading := block.heading
  text := title ++ " — ".toList ++ block.heading ++ ". ".toList ++ block.text
  preText := block.text

/-- `chunk_document`, for a source with the given title. -/
def chunkDocument (parsed : ParsedDocument) (sourceTitle : Str) : List ChunkDraft :=
  let title := if parsed.title.isEmpty then sourceTitle else parsed.title
  parsed.blocks.mapIdx fun order block => buildDraft order title block

theorem flush_text {s : ParseState} (h : ∀ b ∈ s.blocks, b.text ≠ []) :
    ∀ b ∈ s.flush, b.text ≠ [] := by
  unfold ParseState.flush
  split
  · exact h
  · simp only
    split
    · exact h
    · rename_i hne
      intro b hb
      rcases List.mem_append.mp hb with hb | hb
      · exact h b hb
      · rw [List.mem_singleton.mp hb]
        simpa using hne

theorem parseLine_text {s : ParseState} (h : ∀ b ∈ s.blocks, b.text ≠ []) (line : Str) :
    ∀ b ∈ (parseLine s line).blocks, b.text ≠ [] := by
  unfold parseLine
  split
  · exact h
  split
  · exact flush_text h
  · split <;> exact h

/-- Every section of a parsed document has text. -/
theorem parseMarkdown_text (raw : Str) : ∀ b ∈ (parseMarkdown raw).blocks, b.text ≠ [] := by
  have hlines : ∀ (lines : List Str) (s : ParseState), (∀ b ∈ s.blocks, b.text ≠ []) →
      ∀ b ∈ (lines.foldl parseLine s).blocks, b.text ≠ [] := by
    intro lines
    induction lines with
    | nil => exact fun s h => h
    | cons line lines ih => exact fun s h => ih _ (parseLine_text h line)
  exact flush_text (hlines _ _ (by simp))

/-- The chunks of a document are numbered from zero. -/
theorem chunkDocument_order (parsed : ParsedDocument) (sourceTitle : Str) :
    (chunkDocument parsed sourceTitle).map ChunkDraft.chunkOrder =
      List.range parsed.blocks.length := by
  refine List.ext_getElem (by simp [chunkDocument]) fun i _ _ => ?_
  simp [chunkDocument, buildDraft]

example : (parseMarkdown "# T\n## A\none\n\ntwo\n## B\n".toList).blocks =
    [⟨"A".toList, "one two".toList⟩] := by decide +kernel

end CiteVyn.Worker
