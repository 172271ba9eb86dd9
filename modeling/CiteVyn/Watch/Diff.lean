import CiteVyn.Lib.Scan
import CiteVyn.Text.Python

/-! # Comparing two versions of a page

`app/watch/diff.py`: the normal form of a page, its sections, and what a change
says about them and about the lines. -/
namespace CiteVyn.Watch
open CiteVyn.Lib.Scan CiteVyn.Text

/-! ## Lines -/

/-- `text.split("\n")`. -/
def splitLines (text : Str) : List Str := text.splitOn '\n'

/-- `"\n".join(_)`. -/
def joinLines (lines : List Str) : Str := ['\n'].intercalate lines

/-- Line endings to `\n`. -/
def unixText (text : Str) : Str := replace ['\r'] ['\n'] (replace ['\r', '\n'] ['\n'] text)

/-- The loop of `normalize`; `blank` says that no line is out yet, or that the last one
is blank. -/
def squeeze : Bool → List Str → List Str
  | _, [] => []
  | blank, line :: lines =>
    if line.isEmpty && blank then squeeze blank lines else line :: squeeze line.isEmpty lines

/-- Pops blank lines off the end. -/
def popBlank (lines : List Str) : List Str := (lines.reverse.dropWhile List.isEmpty).reverse

/-- `normalize`. -/
def normalize (text : Str) : Str :=
  joinLines (popBlank (squeeze true ((splitLines (unixText text)).map rstrip)))

/-! ## Sections -/

/-- `_FENCE`: the run of backticks or tildes that a line starts with. -/
def fenceMark (line : Str) : Option Str :=
  let rest := line.dropWhile (· == ' ')
  let run := rest.takeWhile fun c => some c == rest.head?
  if line.length - rest.length ≤ 3 && 3 ≤ run.length && (rest.head?.any fun c => c == '`' || c == '~') then
    some run
  else none

/-- `_HEADING`: the level and what follows the blanks. -/
def headingOf (line : Str) : Option (Nat × Str) :=
  let hashes := (line.takeWhile (· == '#')).length
  let rest := line.drop hashes
  if 1 ≤ hashes && hashes ≤ 6 && rest.head?.any isBlank then some (hashes, rest.dropWhile isBlank) else none

/-- `s.rstrip(chars)`. -/
def rstripChars (p : Char → Bool) (s : Str) : Str := (s.reverse.dropWhile p).reverse

/-- The title of a heading. -/
def headingTitle (rest : Str) : Str :=
  let title := rstripChars isBlank (rstripChars (· == '#') (rstripChars isBlank rest))
  if title.isEmpty then "(untitled)".toList else title

/-- A section: its heading path and its body. -/
abbrev Section := Str × List Str

/-- The state of the loop of `_sections`. -/
structure Outline where
  sections : List Section
  /-- the names so far, as often as they have been seen -/
  seen : List Str
  path : List (Nat × Str)
  current : Str
  fence : Option Str
  deriving DecidableEq, Repr

/-- `sections[key] = []`: a key that is there keeps its place. -/
def assignEmpty (sections : List Section) (key : Str) : List Section :=
  if sections.any fun s => s.1 = key then sections.map fun s => if s.1 = key then (key, []) else s
  else sections ++ [(key, [])]

/-- `sections[key].append(line)`. -/
def appendLine (sections : List Section) (key line : Str) : List Section :=
  sections.map fun s => if s.1 = key then (key, s.2 ++ [line]) else s

/-- The fence after a line with a fence mark. -/
def nextFence (fence : Option Str) (mark line : Str) : Option Str :=
  match fence with
  | none => some mark
  | some f =>
    if mark.head? = f.head? && f.length ≤ mark.length && ((strip line).drop mark.length).isEmpty then none
    else some f

/-- The path of a heading, and its key: a path that is repeated is numbered. -/
def headingKey (seen : List Str) (name : Str) : Str :=
  let count := seen.count name + 1
  if count = 1 then name else name ++ " (".toList ++ Nat.toDigits 10 count ++ ")".toList

/-- One line of `_sections`. -/
def Outline.read (o : Outline) (line : Str) : Outline :=
  let opener := fenceMark line
  let fence := match opener with
    | some mark => nextFence o.fence mark line
    | none => o.fence
  match if fence.isSome || opener.isSome then none else headingOf line with
  | some (level, rest) =>
    let path := (o.path.filter fun entry => entry.1 < level) ++ [(level, headingTitle rest)]
    let name := " > ".toList.intercalate (path.map Prod.snd)
    let key := headingKey o.seen name
    { sections := assignEmpty o.sections key, seen := name :: o.seen, path := path, current := key, fence := fence }
  | none => { o with sections := appendLine o.sections o.current line, fence := fence }

/-- `_sections`. -/
def sections (text : Str) : List Section :=
  let o := (splitLines (normalize text)).foldl Outline.read ⟨[([], [])], [], [], [], none⟩
  o.sections.filter fun s => !(s.1.isEmpty && s.2.isEmpty)

/-! ## What a change says -/

/-- `MAX_LISTED`. -/
def maxListed : Nat := 20

/-- `Summary`. -/
structure Summary where
  changed : List Str
  added : List Str
  removed : List Str
  more : Nat
  linesAdded : Nat
  linesRemoved : Nat
  deriving DecidableEq, Repr

/-- The body under a key. -/
def body (sections : List Section) (key : Str) : Option (List Str) :=
  (sections.find? fun s => s.1 = key).map Prod.snd

/-- `section_changes`. The counters' difference is that of the lists as multisets. -/
def sectionChanges (old new : Str) : Summary :=
  let a := sections old
  let b := sections new
  let changed := (b.filter fun s => (body a s.1).any fun lines => lines ≠ s.2).map Prod.fst
  let added := (b.filter fun s => (body a s.1).isNone).map Prod.fst
  let removed := (a.filter fun s => (body b s.1).isNone).map Prod.fst
  let before := splitLines (normalize old)
  let after := splitLines (normalize new)
  { changed := changed.take maxListed
    added := added.take maxListed
    removed := removed.take maxListed
    more := (changed.length - maxListed) + (added.length - maxListed) + (removed.length - maxListed)
    linesAdded := (after.diff before).length
    linesRemoved := (before.diff after).length }

/-- `MAX_CHANGED_CHARS`. -/
def maxChangedChars : Nat := 200000

/-- `ChangedLines`. -/
structure ChangedLines where
  added : List Str
  removed : List Str
  truncated : Bool
  deriving DecidableEq, Repr

/-- `extra`: the lines that are not among those left over, what remains of the budget,
and whether it has run out. -/
def extra : Nat → List Str → List Str → List Str × Nat × Bool
  | budget, _, [] => ([], budget, false)
  | budget, left, line :: lines =>
    if line ∈ left then extra budget (left.erase line) lines
    else if (strip line).isEmpty then extra budget left lines
    else if budget < line.length then ([], budget, true)
    else
      let (out, rest) := extra (budget - line.length) left lines
      (line :: out, rest)

/-- `changed_lines`. -/
def changedLines (old new : Str) : ChangedLines :=
  let a := splitLines (normalize old)
  let b := splitLines (normalize new)
  let (added, budget, ranOut) := extra maxChangedChars a b
  let (removed, _, ranOut') := extra budget b a
  ⟨added, removed, ranOut || ranOut'⟩

end CiteVyn.Watch
