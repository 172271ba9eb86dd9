import CiteVyn.Api.Shares
import CiteVyn.Lib.Lines
import CiteVyn.Lib.OrderBy
import CiteVyn.Text.Integers
import CiteVyn.Worker.Parser
import Mathlib.Data.Prod.Lex

/-! # The history export

`export_my_history` of `app/api/routes/me.py` and the Markdown it writes. A message is
quoted line by line, so that what it says cannot be read as the structure of the file. -/
namespace CiteVyn.Api.Export
open CiteVyn.Api.Shares (MessageRole)
open CiteVyn.Lib.Lines CiteVyn.Lib.OrderBy CiteVyn.Text
open CiteVyn.Worker (isLineEnd)

/-! ## Rows -/

/-- What the export reads of a citation. -/
structure Citation where
  title : Option Str
  sourceName : Option Str
  url : Option Str
  docsAsOf : Option Str
  deriving DecidableEq, Repr

/-- `Message`. -/
structure Message where
  messageId : Nat
  sessionId : Nat
  role : MessageRole
  content : Str
  citations : Option (List Citation)
  createdAt : Int
  deriving DecidableEq, Repr

/-- `Session`. -/
structure Session where
  sessionId : Nat
  userId : Str
  createdAt : Int
  expiresAt : Int
  deriving DecidableEq, Repr

structure Tables where
  sessions : List Session
  messages : List Message

/-! ## The conversations -/

/-- An entry of `messages`. -/
structure Entry where
  role : MessageRole
  content : Str
  createdAt : Option Str
  citations : List Citation
  deriving DecidableEq, Repr

/-- An entry of `sessions`. -/
structure Convo where
  sessionId : Nat
  createdAt : Option Str
  messages : List Entry
  deriving DecidableEq, Repr

/-- `order_by(Session.created_at.desc(), Session.session_id.desc())`. -/
def Session.newest (s : Session) : Intᵒᵈ ×ₗ Natᵒᵈ := toLex (OrderDual.toDual s.createdAt, OrderDual.toDual s.sessionId)

/-- `order_by(Message.created_at.asc(), Message.message_id.asc())`. -/
def Message.oldest (m : Message) : Int ×ₗ Nat := toLex (m.createdAt, m.messageId)

/-- `who`. -/
def who : MessageRole → Str
  | .user => "You".toList
  | .assistant => "CiteVyn".toList

/-- `quoted`. -/
def quoted (content : Str) : Str := ['\n'].intercalate ((content.splitOn '\n').map fun ln => "> ".toList ++ ln)

/-- `c.get("title") or c.get("source_name") or "Source"`. -/
def Citation.name (c : Citation) : Str :=
  if c.title.getD [] ≠ [] then c.title.getD []
  else if c.sourceName.getD [] ≠ [] then c.sourceName.getD []
  else "Source".toList

/-- The line of a citation. -/
def sourceLine (c : Citation) : Str :=
  let date := if c.docsAsOf.getD [] ≠ [] then " (docs as of ".toList ++ c.docsAsOf.getD [] ++ ")".toList else []
  "- [".toList ++ c.name ++ "](".toList ++ c.url.getD [] ++ ")".toList ++ date

/-- What is written for a message. -/
def Entry.lines (m : Entry) : List Str :=
  ["**".toList ++ who m.role ++ ":**".toList, [], quoted m.content, []] ++
    if m.citations = [] then [] else "Sources:".toList :: m.citations.map sourceLine ++ [[]]

/-- The date of a conversation. -/
def Convo.date (c : Convo) : Str := if c.createdAt.getD [] ≠ [] then c.createdAt.getD [] else "unknown date".toList

def Convo.lines (c : Convo) : List Str :=
  ["## Conversation of ".toList ++ c.date, []] ++ c.messages.flatMap Entry.lines

/-- The note of an export that is cut short. -/
def truncationNote (n : Nat) : Str :=
  "_This export holds only the newest ".toList ++ Nat.toDigits 10 n ++ " conversation".toList ++
    (if n ≠ 1 then ['s'] else []) ++ "._".toList

/-- The lines before the first conversation. -/
def opening (sessions : List Convo) (truncated : Bool) : List Str :=
  ["# CiteVyn conversation history".toList, []] ++ (if truncated then [truncationNote sessions.length, []] else []) ++
    if sessions = [] then ["No conversations to export.".toList] else []

/-- `_markdown`. -/
def markdown (sessions : List Convo) (truncated : Bool) : Str :=
  ['\n'].intercalate (opening sessions truncated ++ sessions.flatMap Convo.lines) ++ ['\n']

/-! ## Reading it back -/

/-- A message as the file shows it: who says it, what, and the lines of its sources. -/
structure SeenEntry where
  role : MessageRole
  content : Str
  sources : List Str
  deriving DecidableEq, Repr

structure SeenConvo where
  date : Str
  messages : List SeenEntry
  deriving DecidableEq, Repr

/-- What has been read of the lines from the last one up. -/
structure Reader where
  quote : List Str
  sources : List Str
  messages : List SeenEntry
  convos : List SeenConvo
  deriving DecidableEq, Repr

def Reader.message (role : MessageRole) (r : Reader) : Reader :=
  { r with quote := [], sources := [], messages := ⟨role, ['\n'].intercalate r.quote, r.sources⟩ :: r.messages }

/-- One line, by how it begins; a line of no other kind says nothing. -/
def readLine (line : Str) (r : Reader) : Reader :=
  if "> ".toList.isPrefixOf line then { r with quote := line.drop 2 :: r.quote }
  else if "- ".toList.isPrefixOf line then { r with sources := line :: r.sources }
  else if line = "**You:**".toList then r.message .user
  else if line = "**CiteVyn:**".toList then r.message .assistant
  else if "## Conversation of ".toList.isPrefixOf line then
    { r with messages := [], convos := ⟨line.drop 19, r.messages⟩ :: r.convos }
  else r

/-- The conversations of a file, for a reader with line ends of its own. -/
def read (ends : Char → Bool) (text : Str) : List SeenConvo :=
  ((text.splitOnP ends).foldr readLine ⟨[], [], [], []⟩).convos

def Entry.seen (m : Entry) : SeenEntry := ⟨m.role, m.content, m.citations.map sourceLine⟩

def Convo.seen (c : Convo) : SeenConvo := ⟨c.date, c.messages.map Entry.seen⟩

/-! ## One line -/

/-- A reader that ends lines where the export does, and maybe where `str.splitlines` does. -/
structure LineEnds (ends : Char → Bool) : Prop where
  newline : ends '\n' = true
  only : ∀ c, ends c = true → isLineEnd c = true

/-- Texts that lie on one line of such a reader. -/
def OneLine (ends : Char → Bool) (text : Str) : Prop := ∀ c ∈ text, ends c = false

/-- The lines that the texts of a file are read as. -/
def cut (ends : Char → Bool) (texts : List Str) : List Str := texts.flatMap (List.splitOnP ends)

variable {ends : Char → Bool}

/-- No fixed text of the export has a line end. -/
theorem LineEnds.fixed (he : LineEnds ends) {text : Str} (h : text.all (fun c => !isLineEnd c) = true) :
    OneLine ends text := by
  intro c hc
  by_contra hend
  have hnot := List.all_eq_true.mp h c hc
  rw [he.only c (by simpa using hend)] at hnot
  cases hnot

theorem OneLine.append {text text' : Str} (h : OneLine ends text) (h' : OneLine ends text') : OneLine ends (text ++ text') :=
  fun c hc => (List.mem_append.mp hc).elim (h c) (h' c)

theorem LineEnds.digits (he : LineEnds ends) (n : Nat) : OneLine ends (Nat.toDigits 10 n) := by
  refine he.fixed (List.all_eq_true.mpr fun c hc => ?_)
  have hdigit := isDigit_toDigits hc
  rw [Bool.not_eq_true', ← Bool.not_eq_true]
  intro hend
  simp only [isLineEnd, List.contains_iff_mem, List.mem_cons, List.not_mem_nil, or_false] at hend
  rcases hend with rfl | rfl | rfl | rfl | rfl | rfl | rfl | rfl | rfl | rfl <;> cases hdigit

/-- Nothing is left over below. -/
def Reader.Ready (r : Reader) : Prop := r.quote = [] ∧ r.sources = []

/-- Nor a message without its conversation. -/
def Reader.Clear (r : Reader) : Prop := r.Ready ∧ r.messages = []

/-- What the file shows of a stored message. -/
def Message.seen (m : Message) : SeenEntry := ⟨m.role, m.content, (m.citations.getD []).map sourceLine⟩

def exampleTables : Tables where
  sessions := [⟨1, "usr_1".toList, 0, 100⟩, ⟨2, "usr_2".toList, 0, 100⟩]
  messages := [⟨1, 1, .user, "What is\n## Conversation of today?".toList, none, 1⟩,
    ⟨2, 1, .assistant, "**You:**\n\n> Nothing [1].".toList,
      some [⟨some "Docs".toList, none, some "https://example.com".toList, some "2026-09-27".toList⟩], 2⟩]

def exampleTime (time : Int) : Str :=
  "2026-09-27T12:00:0".toList ++ Nat.toDigits 10 time.toNat ++ "+00:00".toList

end CiteVyn.Api.Export
