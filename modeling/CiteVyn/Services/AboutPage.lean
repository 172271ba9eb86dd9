import CiteVyn.Lib.Effects
import CiteVyn.Lib.Markup
import CiteVyn.Text.Integers
import CiteVyn.Worker.Parser
import Mathlib.Data.List.DropRight

/-! # The about page

`render_markdown` of `app/services/about_page.py`. What stands between blank lines is cut
into runs where a heading or a list begins, and a run is written by what its first line is. -/
namespace CiteVyn.Services.AboutPage
open CiteVyn.Lib.Effects (mapM_eq_pure)
open CiteVyn.Lib.Markup
open CiteVyn.Text
open CiteVyn.Worker (splitLinesFrom)

/-- What is asked of the interpreter about letters: `str.lower`, and `str.isalnum`, which
the hyphen is not. -/
structure Letters extends Unicode where
  lower : Str → Str
  hyphen : isAlnum '-' = false

/-! ## Lines -/

/-- The loop of `_blocks`, with the block that is open. -/
def blocksFrom : List Str → List Str → List (List Str)
  | block, [] => if block.isEmpty then [] else [block]
  | block, line :: lines =>
    if strip line ≠ [] then blocksFrom (block ++ [line]) lines
    else if block.isEmpty then blocksFrom [] lines
    else block :: blocksFrom [] lines

/-- `_blocks` -/
def blocks (markdown : Str) : List (List Str) := blocksFrom [] (splitLinesFrom [] markdown)

/-- `line.lstrip("#")` -/
def lstripHashes (line : Str) : Str := line.dropWhile (· = '#')

/-- `_is_heading` -/
def isHeading (line : Str) : Bool :=
  let stripped := lstripHashes line
  stripped ≠ line && (stripped.head? = some ' ' || stripped.head? = some '\t')

/-- `startswith("- ")` -/
def startsItem (line : Str) : Bool := ['-', ' '].isPrefixOf line

/-- `_is_list_item` -/
def isListItem (line : Str) : Bool := startsItem (lstrip line)

/-- The loop of `_split_block`, with the run that is open. -/
def splitBlockFrom : List Str → List Str → List (List Str)
  | run, [] => if run.isEmpty then [] else [run]
  | run, line :: lines =>
    let inList := run.head?.any isListItem
    let startsRun := isHeading (strip line) || isListItem line && !inList
    if startsRun && !run.isEmpty then run :: splitBlockFrom [line] lines else splitBlockFrom (run ++ [line]) lines

/-- `_split_block` -/
def splitBlock (block : List Str) : List (List Str) := splitBlockFrom [] block

/-! ## Writing -/

/-- The loop of `slugify`. -/
def slugFrom (u : Letters) : Str → Str → Str
  | out, [] => out
  | out, c :: text =>
    if u.isAlnum c then slugFrom u (out ++ [c]) text
    else if !out.isEmpty && out.getLast? != some '-' then slugFrom u (out ++ ['-']) text
    else slugFrom u out text

/-- `slugify` -/
def slugify (u : Letters) (text : Str) : Str :=
  ((slugFrom u [] (u.lower text)).dropWhile (· = '-')).rdropWhile (· = '-')

/-- The items of `_render_list`. A line that continues none raises. -/
def itemsFrom : List Str → List Str → Option (List Str)
  | items, [] => some items
  | items, line :: lines =>
    let stripped := strip line
    if startsItem stripped then itemsFrom (items ++ [strip (stripped.drop 2)]) lines
    else
      match items.getLast? with
      | none => none
      | some last => itemsFrom (items.dropLast ++ [last ++ ' ' :: stripped]) lines

/-- `_render_list` -/
def renderList (lines : List Str) : Option Str :=
  (itemsFrom [] lines).map fun items =>
    "<ul>".toList ++ items.flatMap (fun item => "<li>".toList ++ escape item ++ "</li>".toList) ++ "</ul>".toList

/-- `" ".join(line.strip() for line in lines)` -/
def joined (lines : List Str) : Str := [' '].intercalate (lines.map strip)

/-- A paragraph of lines. -/
def renderPara (lines : List Str) : Str := "<p>".toList ++ escape (joined lines) ++ "</p>".toList

/-- `level` of a heading with so many hashes. -/
def level (hashes : Nat) (offset : Int) : Nat := (min (max (hashes + offset) 1) 6).toNat

/-- The heading that a stripped line is. -/
def renderHeading (u : Letters) (offset : Int) (first : Str) : Str :=
  let hashes := first.length - (lstripHashes first).length
  let text := strip (first.drop hashes)
  let level := Nat.toDigits 10 (level hashes offset)
  let anchor := slugify u text
  let attrs := if anchor.isEmpty then [] else " id=\"".toList ++ escape anchor ++ "\" tabindex=\"-1\"".toList
  "<h".toList ++ level ++ attrs ++ ">".toList ++ escape text ++ "</h".toList ++ level ++ ">".toList

/-- What `render_markdown` does with a run. -/
def renderRun (u : Letters) (offset : Int) (run : List Str) : Option Str :=
  match run with
  | [] => none
  | line :: more =>
    let first := strip line
    if isHeading first then
      some (renderHeading u offset first ++ if more.isEmpty then [] else renderPara more)
    else if isListItem first then renderList run
    else some (renderPara run)

def runs (markdown : Str) : List (List Str) := (blocks markdown).flatMap splitBlock

/-- `render_markdown` -/
def renderMarkdown (u : Letters) (markdown : Str) (offset : Int) : Option Str :=
  ((runs markdown).mapM (renderRun u offset)).map List.flatten

/-! ## What is to be seen -/

/-- The characters up to a tag. -/
def charsOf : List Mark → Str
  | .char c :: ms => c :: charsOf ms
  | _ => []

/-- The elements that hold a text, by their tags: all but the lists. -/
def leaves : List Mark → List (Str × Str)
  | [] => []
  | .char _ :: ms => leaves ms
  | .tag inside :: ms =>
    let tag := inside.takeWhile (· ≠ ' ')
    if tag.head? = some '/' ∨ tag = "ul".toList then leaves ms else (tag, charsOf ms) :: leaves ms

/-- An element, with the lines that it shows. -/
inductive Part where
  | heading (line : Str)
  | item (first : Str) (more : List Str)
  | para (first : Str) (more : List Str)

def Part.lines : Part → List Str
  | .heading line => [line]
  | .item first more => first :: more
  | .para first more => first :: more

/-- Neither a heading nor an item. -/
def IsText (line : Str) : Prop := isHeading (strip line) = false ∧ isListItem line = false

/-- The lines are of the kind of the element: an item begins with the one line of it that is
an item, a heading is one line. -/
def Part.Sorted : Part → Prop
  | .heading line => isHeading (strip line) = true
  | .item first more => isListItem first = true ∧ ∀ line ∈ more, IsText line
  | .para first more => ∀ line ∈ first :: more, IsText line

/-- The hashes that a heading begins with. -/
def hashesOf (line : Str) : Nat := ((strip line).takeWhile (· = '#')).length

/-- The text of a heading. -/
def headingText (line : Str) : Str := strip (lstripHashes (strip line))

def headingTag (offset : Int) (line : Str) : Str := 'h' :: Nat.toDigits 10 (level (hashesOf line) offset)

/-- The tag and the text of the element. -/
def Part.shown (offset : Int) : Part → Str × Str
  | .heading line => (headingTag offset line, headingText line)
  | .item first more => ("li".toList, [' '].intercalate (strip ((strip first).drop 2) :: more.map strip))
  | .para first more => ("p".toList, joined (first :: more))

/-- The elements that a text is written in, in order: each line that is not blank is in one
of them, and in that one only. -/
structure Shows (u : Letters) (markdown : Str) (offset : Int) (html : Str) (ms : List Mark) (parts : List Part) : Prop where
  rendered : renderMarkdown u markdown offset = some html
  reads : Lib.Markup.read .text html = some ms
  shown : leaves ms = parts.map (Part.shown offset)
  lines : parts.flatMap Part.lines = (splitLinesFrom [] markdown).filter fun line => strip line ≠ []
  sorted : ∀ part ∈ parts, part.Sorted

/-! ## The runs of a text -/

theorem flatten_blocksFrom (lines : List Str) : ∀ block,
    (blocksFrom block lines).flatten = block ++ lines.filter fun line => strip line ≠ [] := by
  induction lines with
  | nil =>
    intro block
    unfold blocksFrom
    split
    · rename_i hempty
      rw [List.isEmpty_iff.mp hempty]
      rfl
    · simp
  | cons line lines ih =>
    intro block
    unfold blocksFrom
    by_cases hline : strip line ≠ []
    · rw [if_pos hline, ih, List.filter_cons, if_pos (decide_eq_true hline), List.append_assoc, List.singleton_append]
    · rw [if_neg hline, List.filter_cons, if_neg (mt of_decide_eq_true hline)]
      split
      · rename_i hempty
        rw [ih, List.isEmpty_iff.mp hempty]
      · rw [List.flatten_cons, ih, List.nil_append]

theorem lstrip_strip (line : Str) : lstrip (strip line) = strip line := lstrip_rstrip (lstrip_lstrip line)

/-- What begins with something else than a blank begins so when it is stripped. -/
theorem strip_of_lstrip {line s : Str} {c : Char} (h : lstrip line = c :: s) (hc : isSpace c = false) :
    strip line = c :: rstrip s := by
  rw [strip, h]
  exact rstrip_append_cons hc [] s

theorem startsItem_iff {line : Str} : startsItem line = true ↔ ∃ s, line = '-' :: ' ' :: s := by
  unfold startsItem
  rw [List.isPrefixOf_iff_prefix]
  constructor
  · rintro ⟨s, rfl⟩
    exact ⟨s, rfl⟩
  · rintro ⟨s, rfl⟩
    exact ⟨s, rfl⟩

/-- A line is an item when it is stripped if it is one before, unless it is a bare hyphen. -/
theorem startsItem_strip_iff (line : Str) :
    startsItem (strip line) = true ↔ isListItem line = true ∧ strip line ≠ ['-'] := by
  constructor
  · intro h
    obtain ⟨s, hs⟩ := startsItem_iff.mp h
    have hprefix := rstrip_isPrefix (lstrip line)
    change strip line <+: lstrip line at hprefix
    obtain ⟨t, ht⟩ := hprefix
    refine ⟨startsItem_iff.mpr ⟨s ++ t, ?_⟩, ?_⟩
    · rw [← ht, hs]
      rfl
    · rw [hs]
      intro hbare
      cases hbare
  · intro ⟨hitem, hbare⟩
    obtain ⟨s, hs⟩ := startsItem_iff.mp hitem
    have hstrip := strip_of_lstrip hs rfl
    have hprefix := rstrip_isPrefix (' ' :: s)
    rw [hstrip] at hbare ⊢
    cases hrest : rstrip (' ' :: s) with
    | nil => exact absurd (congrArg _ hrest) hbare
    | cons c rest =>
      rw [hrest] at hprefix
      obtain ⟨rfl, -⟩ := List.cons_prefix_cons.mp hprefix
      exact startsItem_iff.mpr ⟨rest, rfl⟩

theorem isListItem_strip (line : Str) : isListItem (strip line) = startsItem (strip line) := by
  rw [isListItem, lstrip_strip]

/-- A heading is no item. -/
theorem not_item_of_heading {line : Str} (h : isHeading (strip line) = true) : isListItem line = false := by
  by_contra hitem
  obtain ⟨s, hs⟩ := startsItem_iff.mp ((Bool.not_eq_false _).mp hitem)
  rw [strip_of_lstrip hs rfl] at h
  exact absurd h (by simp [isHeading, lstripHashes])

/-- What a run may be: a heading or a text with the texts below it, or a list. -/
inductive IsRun : List Str → Prop
  | heading {first : Str} {more : List Str} (hfirst : isHeading (strip first) = true)
      (hmore : ∀ line ∈ more, IsText line) : IsRun (first :: more)
  | list {first : Str} {more : List Str} (hfirst : isListItem first = true)
      (hlines : ∀ line ∈ first :: more, isHeading (strip line) = false) : IsRun (first :: more)
  | text {first : Str} {more : List Str} (hlines : ∀ line ∈ first :: more, IsText line) : IsRun (first :: more)

theorem IsRun.new (line : Str) : IsRun [line] := by
  cases hheading : isHeading (strip line) with
  | true => exact .heading hheading fun _ h => absurd h List.not_mem_nil
  | false =>
    cases hitem : isListItem line with
    | true => exact .list hitem (List.forall_mem_singleton.mpr hheading)
    | false => exact .text (List.forall_mem_singleton.mpr ⟨hheading, hitem⟩)

/-- A line that starts no run goes on with the one that is open. -/
theorem IsRun.push {run : List Str} {line : Str} (h : IsRun run)
    (hstart : (isHeading (strip line) || isListItem line && !run.head?.any isListItem) = false) : IsRun (run ++ [line]) := by
  obtain ⟨hheading, hitem⟩ := Bool.or_eq_false_iff.mp hstart
  have htext {first : Str} {more : List Str} (hfirst : isListItem first = false)
      (hitem : (isListItem line && !(first :: more).head?.any isListItem) = false) : IsText line := by
    rw [List.head?_cons, Option.any_some, hfirst, Bool.not_false, Bool.and_true] at hitem
    exact ⟨hheading, hitem⟩
  cases h with
  | heading hfirst hmore =>
    exact .heading hfirst (List.forall_mem_append.mpr
      ⟨hmore, List.forall_mem_singleton.mpr (htext (not_item_of_heading hfirst) hitem)⟩)
  | list hfirst hlines =>
    exact .list hfirst (List.forall_mem_append.mpr ⟨hlines, List.forall_mem_singleton.mpr hheading⟩)
  | text hlines =>
    exact .text (List.forall_mem_append.mpr
      ⟨hlines, List.forall_mem_singleton.mpr (htext (hlines _ List.mem_cons_self).2 hitem)⟩)

theorem splitBlockFrom_runs (lines : List Str) : ∀ run, run = [] ∨ IsRun run →
    (splitBlockFrom run lines).flatten = run ++ lines ∧ ∀ r ∈ splitBlockFrom run lines, IsRun r := by
  induction lines with
  | nil =>
    intro run hrun
    unfold splitBlockFrom
    rcases hrun with rfl | hrun
    · exact ⟨rfl, fun _ h => absurd h List.not_mem_nil⟩
    · have hne : run.isEmpty = false := by cases hrun <;> rfl
      rw [if_neg (by simp [hne])]
      exact ⟨rfl, List.forall_mem_singleton.mpr hrun⟩
  | cons line lines ih =>
    intro run hrun
    unfold splitBlockFrom
    dsimp only
    split
    · rename_i hstart
      obtain ⟨hflatten, hruns⟩ := ih [line] (.inr (.new line))
      rcases hrun with rfl | hrun
      · simp at hstart
      · exact ⟨by rw [List.flatten_cons, hflatten, List.singleton_append], List.forall_mem_cons.mpr ⟨hrun, hruns⟩⟩
    · rename_i hstart
      have hpush : IsRun (run ++ [line]) := by
        rcases hrun with rfl | hrun
        · exact .new line
        · refine hrun.push ?_
          have hne : run.isEmpty = false := by cases hrun <;> rfl
          rw [hne, Bool.not_false, Bool.and_true] at hstart
          exact eq_false_of_ne_true hstart
      obtain ⟨hflatten, hruns⟩ := ih (run ++ [line]) (.inr hpush)
      exact ⟨by rw [hflatten, List.append_assoc, List.singleton_append], hruns⟩

/-- The runs are the lines of the text that are not blank, and each is of a kind. -/
theorem runs_of (markdown : Str) :
    (runs markdown).flatten = ((splitLinesFrom [] markdown).filter fun line => strip line ≠ []) ∧
      ∀ run ∈ runs markdown, IsRun run := by
  constructor
  · have hblocks := flatten_blocksFrom (splitLinesFrom [] markdown) []
    change (blocks markdown).flatten = _ at hblocks
    rw [List.nil_append] at hblocks
    rw [← hblocks, runs]
    induction blocks markdown with
    | nil => rfl
    | cons block bs ih =>
      rw [List.flatMap_cons, List.flatten_append, ih, splitBlock, (splitBlockFrom_runs block [] (.inl rfl)).1]
      rfl
  · intro run hrun
    obtain ⟨block, -, hblock⟩ := List.mem_flatMap.mp hrun
    exact (splitBlockFrom_runs block [] (.inl rfl)).2 run hblock

/-! ## The elements of a run -/

/-- The items of a list, from the one that is open on. -/
def gather : Str → List Str → List Str → List Part
  | first, more, [] => [.item first more]
  | first, more, line :: lines =>
    if startsItem (strip line) then .item first more :: gather line [] lines else gather first (more ++ [line]) lines

/-- The texts below a heading. -/
def below : List Str → List Part
  | [] => []
  | first :: more => [.para first more]

/-- The elements that a run is written in. -/
def partsOf : List Str → List Part
  | [] => []
  | first :: more =>
    if isHeading (strip first) then .heading first :: below more
    else if startsItem (strip first) then gather first [] more
    else [.para first more]

theorem lines_gather (lines : List Str) : ∀ first more,
    (gather first more lines).flatMap Part.lines = first :: more ++ lines := by
  induction lines with
  | nil =>
    intro first more
    simp [gather, Part.lines]
  | cons line lines ih =>
    intro first more
    unfold gather
    split
    · rw [List.flatMap_cons, ih]
      rfl
    · rw [ih, List.cons_append, List.append_assoc, List.singleton_append, List.cons_append]

theorem lines_below (more : List Str) : (below more).flatMap Part.lines = more := by
  cases more with
  | nil => rfl
  | cons first more => exact List.append_nil _

theorem lines_partsOf (run : List Str) : (partsOf run).flatMap Part.lines = run := by
  cases run with
  | nil => rfl
  | cons first more =>
    rw [partsOf]
    split
    · rw [List.flatMap_cons, lines_below]
      rfl
    · split
      · exact lines_gather more first []
      · exact List.append_nil _

/-- Without a bare hyphen the lines of an item are texts. -/
theorem sorted_gather {lines : List Str} (hlines : ∀ line ∈ lines, isHeading (strip line) = false)
    (hbare : ∀ line ∈ lines, isListItem line = true → strip line ≠ ['-']) :
    ∀ {first more}, isListItem first = true → (∀ line ∈ more, IsText line) →
      ∀ part ∈ gather first more lines, part.Sorted := by
  induction lines with
  | nil =>
    intro first more hfirst hmore
    exact List.forall_mem_singleton.mpr ⟨hfirst, hmore⟩
  | cons line lines ih =>
    intro first more hfirst hmore
    obtain ⟨hline, hlines⟩ := List.forall_mem_cons.mp hlines
    obtain ⟨hlinebare, hbare⟩ := List.forall_mem_cons.mp hbare
    unfold gather
    split
    · rename_i hstarts
      exact List.forall_mem_cons.mpr ⟨⟨hfirst, hmore⟩,
        ih hlines hbare ((startsItem_strip_iff line).mp hstarts).1 fun _ h => absurd h List.not_mem_nil⟩
    · rename_i hstarts
      have hitem : isListItem line = false := by
        by_contra hitem
        rw [Bool.not_eq_false] at hitem
        exact hstarts ((startsItem_strip_iff line).mpr ⟨hitem, hlinebare hitem⟩)
      exact ih hlines hbare hfirst (List.forall_mem_append.mpr ⟨hmore, List.forall_mem_singleton.mpr ⟨hline, hitem⟩⟩)

theorem sorted_partsOf {run : List Str} (h : IsRun run)
    (hbare : ∀ line ∈ run, isListItem line = true → strip line ≠ ['-']) : ∀ part ∈ partsOf run, part.Sorted := by
  cases h with
  | @heading first more hfirst hmore =>
    rw [partsOf, if_pos hfirst]
    refine List.forall_mem_cons.mpr ⟨hfirst, ?_⟩
    cases more with
    | nil => exact fun _ h => absurd h List.not_mem_nil
    | cons line more => exact List.forall_mem_singleton.mpr hmore
  | @list first more hfirst hlines =>
    obtain ⟨hheading, hlines⟩ := List.forall_mem_cons.mp hlines
    obtain ⟨hfirstbare, hbare⟩ := List.forall_mem_cons.mp hbare
    have hstarts := (startsItem_strip_iff first).mpr ⟨hfirst, hfirstbare hfirst⟩
    rw [partsOf, if_neg (Bool.eq_false_iff.mp hheading), if_pos hstarts]
    exact sorted_gather hlines hbare hfirst fun _ h => absurd h List.not_mem_nil
  | @text first more hlines =>
    obtain ⟨hheading, hitem⟩ := hlines first List.mem_cons_self
    have hstarts : ¬startsItem (strip first) = true := by
      intro hstarts
      rw [((startsItem_strip_iff first).mp hstarts).1] at hitem
      cases hitem
    rw [partsOf, if_neg (Bool.eq_false_iff.mp hheading), if_neg hstarts]
    exact List.forall_mem_singleton.mpr hlines

/-! ## The items -/

def Part.isItem : Part → Bool
  | .item _ _ => true
  | _ => false

/-- An element is tagged as an item if it is one. -/
theorem shown_item (offset : Int) (part : Part) : decide ((part.shown offset).1 = "li".toList) = part.isItem := by
  cases part with
  | heading line =>
    refine decide_eq_false fun h => ?_
    exact absurd (List.cons.inj h).1 (by decide)
  | item first more => rfl
  | para first more => rfl

theorem countP_shown (offset : Int) (parts : List Part) :
    (parts.map (Part.shown offset)).countP (fun p => p.1 = "li".toList) = parts.countP Part.isItem := by
  rw [List.countP_map]
  exact List.countP_congr fun part _ => by rw [Function.comp_apply, shown_item]

theorem countP_gather (lines : List Str) : ∀ first more,
    (gather first more lines).countP Part.isItem = lines.countP (fun line => startsItem (strip line)) + 1 := by
  induction lines with
  | nil =>
    intro first more
    rfl
  | cons line lines ih =>
    intro first more
    unfold gather
    rw [List.countP_cons]
    split
    · rw [List.countP_cons_of_pos rfl, ih]
    · rw [ih]

/-- A run has no more items than lines that are items when they are stripped. -/
theorem countP_partsOf (run : List Str) :
    (partsOf run).countP Part.isItem ≤ run.countP fun line => startsItem (strip line) := by
  cases run with
  | nil => exact Nat.le_refl 0
  | cons first more =>
    rw [partsOf]
    split
    · have hbelow : (below more).countP Part.isItem = 0 := by cases more <;> rfl
      rw [List.countP_cons, hbelow]
      exact Nat.zero_le _
    · split
      · rename_i hstarts
        rw [countP_gather, List.countP_cons, if_pos hstarts]
      · exact Nat.zero_le _

/-- Elements of the right kind have as many items as their lines. -/
theorem countP_sorted {parts : List Part} (h : ∀ part ∈ parts, part.Sorted) :
    parts.countP Part.isItem = (parts.flatMap Part.lines).countP isListItem := by
  have htexts {lines : List Str} (hlines : ∀ line ∈ lines, IsText line) : lines.countP isListItem = 0 :=
    List.countP_eq_zero.mpr fun line hline => Bool.eq_false_iff.mp (hlines line hline).2
  induction parts with
  | nil => rfl
  | cons part parts ih =>
    obtain ⟨hpart, hparts⟩ := List.forall_mem_cons.mp h
    rw [List.countP_cons, List.flatMap_cons, List.countP_append, ih hparts]
    cases part with
    | heading line =>
      have hitem : [line].countP isListItem = 0 := by
        rw [List.countP_singleton, not_item_of_heading hpart]
        rfl
      rw [Part.lines, hitem]
      exact Nat.add_comm _ _
    | item first more =>
      rw [Part.lines, List.countP_cons, if_pos hpart.1, htexts hpart.2]
      exact Nat.add_comm _ _
    | para first more =>
      rw [Part.lines, htexts hpart]
      exact Nat.add_comm _ _

/-- The items among the lines are those that are items when they are stripped, and the bare
hyphens. -/
theorem countP_isListItem (lines : List Str) :
    lines.countP isListItem = (lines.countP fun line => startsItem (strip line)) +
      lines.countP fun line => isListItem line && strip line = ['-'] := by
  induction lines with
  | nil => rfl
  | cons line lines ih =>
    have hiff := startsItem_strip_iff line
    rw [List.countP_cons, List.countP_cons, List.countP_cons, ih]
    by_cases hitem : isListItem line = true
    · by_cases hbare : strip line = ['-']
      · have hstarts : ¬startsItem (strip line) = true := fun h => (hiff.mp h).2 hbare
        rw [if_pos hitem, if_neg hstarts, if_pos (by simp [hitem, hbare])]
        omega
      · rw [if_pos hitem, if_pos (hiff.mpr ⟨hitem, hbare⟩), if_neg (by simp [hbare])]
        omega
    · have hstarts : ¬startsItem (strip line) = true := fun h => hitem (hiff.mp h).1
      rw [if_neg hitem, if_neg hstarts, if_neg (by simp [hitem])]
      omega

/-! ## The tags of a run -/

/-- The attributes of a heading with an anchor, and of one without. -/
def attributesOf (anchor : Str) : List (Str × Str) :=
  if anchor.isEmpty then [] else [("id".toList, anchor), ("tabindex".toList, "-1".toList)]

def Part.attributes (u : Letters) : Part → List (Str × Str)
  | .heading line => attributesOf (slugify u (headingText line))
  | _ => []

def Part.tokens (u : Letters) (offset : Int) (part : Part) : List Token :=
  element (part.shown offset).1 (part.attributes u) [.text (part.shown offset).2]

/-- The run is a list. -/
def isList (run : List Str) : Bool :=
  run.head?.any fun first => !isHeading (strip first) && startsItem (strip first)

/-- The tags and the texts of a run. -/
def runTokens (u : Letters) (offset : Int) (run : List Str) : List Token :=
  let inside := (partsOf run).flatMap (Part.tokens u offset)
  if isList run then element "ul".toList [] inside else inside

def markdownTokens (u : Letters) (markdown : Str) (offset : Int) : List Token := (runs markdown).flatMap (runTokens u offset)

theorem intercalate_concat (sep : Str) (parts : List Str) (part last : Str) :
    sep.intercalate (part :: parts ++ [last]) = sep.intercalate (part :: parts) ++ sep ++ last := by
  induction parts generalizing part with
  | nil => simp
  | cons next parts ih =>
    rw [List.cons_append, List.cons_append, List.intercalate_cons_cons, List.intercalate_cons_cons, ← List.cons_append, ih]
    simp

theorem shown_alone (offset : Int) (first : Str) :
    ((Part.item first []).shown offset).2 = strip ((strip first).drop 2) := by
  change [' '].intercalate [_] = _
  exact List.intercalate_singleton

/-- An item goes on with a line. -/
theorem shown_concat (offset : Int) (first : Str) (more : List Str) (line : Str) :
    ((Part.item first (more ++ [line])).shown offset).2 = ((Part.item first more).shown offset).2 ++ ' ' :: strip line := by
  unfold Part.shown
  dsimp only
  rw [List.map_append, List.map_singleton, ← List.cons_append, intercalate_concat, List.append_assoc]
  rfl

/-- The loop of `_render_list` never lacks an item to go on with. -/
theorem itemsFrom_gather (offset : Int) (lines : List Str) : ∀ items first more,
    itemsFrom (items ++ [((Part.item first more).shown offset).2]) lines =
      some (items ++ (gather first more lines).map fun part => (part.shown offset).2) := by
  induction lines with
  | nil =>
    intro items first more
    rfl
  | cons line lines ih =>
    intro items first more
    unfold itemsFrom gather
    dsimp only
    split
    · rw [← shown_alone offset line, ih, List.map_cons, List.append_assoc, List.singleton_append]
    · rw [List.getLast?_concat]
      dsimp only
      rw [List.dropLast_concat, ← shown_concat, ih]

theorem write_item (s : Str) : write (element "li".toList [] [.text s]) = "<li>".toList ++ escape s ++ "</li>".toList := by
  rw [write_plain, write_text]
  simp only [String.reduceToList, List.cons_append, List.nil_append, List.append_assoc]

theorem write_para (offset : Int) (u : Letters) (first : Str) (more : List Str) :
    write ((Part.para first more).tokens u offset) = renderPara (first :: more) := by
  unfold Part.tokens
  change write (element "p".toList [] [.text (joined (first :: more))]) = _
  rw [write_plain, write_text, renderPara]
  simp only [String.reduceToList, List.cons_append, List.nil_append, List.append_assoc]

theorem isItem_gather (lines : List Str) : ∀ first more, ∀ part ∈ gather first more lines, part.isItem = true := by
  induction lines with
  | nil =>
    intro first more
    exact List.forall_mem_singleton.mpr rfl
  | cons line lines ih =>
    intro first more
    unfold gather
    split
    · exact List.forall_mem_cons.mpr ⟨rfl, ih line []⟩
    · exact ih first (more ++ [line])

theorem write_items {u : Letters} {offset : Int} {parts : List Part} (h : ∀ part ∈ parts, part.isItem = true) :
    write (parts.flatMap (Part.tokens u offset)) =
      (parts.map fun part => (part.shown offset).2).flatMap fun item => "<li>".toList ++ escape item ++ "</li>".toList := by
  induction parts with
  | nil => rfl
  | cons part parts ih =>
    obtain ⟨hpart, hparts⟩ := List.forall_mem_cons.mp h
    have hwrite : write (part.tokens u offset) = "<li>".toList ++ escape (part.shown offset).2 ++ "</li>".toList := by
      cases part with
      | item first more => exact write_item _
      | heading line => cases hpart
      | para first more => cases hpart
    rw [List.flatMap_cons, write_append, ih hparts, List.map_cons, List.flatMap_cons, hwrite]

theorem length_hashes (line : Str) : line.length - (lstripHashes line).length = (line.takeWhile (· = '#')).length := by
  have hsum := congrArg List.length (List.takeWhile_append_dropWhile (p := fun c => decide (c = '#')) (l := line))
  rw [List.length_append] at hsum
  unfold lstripHashes
  omega

theorem drop_hashes (line : Str) : line.drop (line.takeWhile (· = '#')).length = lstripHashes line :=
  drop_takeWhile_length _ _

theorem write_heading (u : Letters) (offset : Int) (line : Str) :
    write ((Part.heading line).tokens u offset) = renderHeading u offset (strip line) := by
  have hone : escape "-1".toList = "-1".toList := by decide +kernel
  have htext : strip (lstripHashes (strip line)) = headingText line := rfl
  unfold Part.tokens renderHeading
  dsimp only
  rw [length_hashes, drop_hashes, htext]
  change write (element (headingTag offset line) (attributesOf (slugify u (headingText line))) [.text (headingText line)]) = _
  unfold attributesOf
  split
  · rw [write_plain, write_text]
    simp only [headingTag, hashesOf, String.reduceToList, List.cons_append, List.nil_append, List.append_assoc,
      List.append_nil]
  · rw [write_element, write_start_two, write_text, write_stop, hone]
    simp only [headingTag, hashesOf, String.reduceToList, List.cons_append, List.nil_append, List.append_assoc]

/-- A run is written by its tags and texts, and nothing raises. -/
theorem renderRun_eq (u : Letters) (offset : Int) {run : List Str} (h : IsRun run) :
    renderRun u offset run = some (write (runTokens u offset run)) := by
  obtain ⟨first, more, rfl⟩ : ∃ first more, run = first :: more := by cases h <;> exact ⟨_, _, rfl⟩
  unfold renderRun runTokens
  dsimp only
  rw [isListItem_strip, isList, List.head?_cons, Option.any_some, partsOf]
  cases hheading : isHeading (strip first) with
  | true =>
    rw [if_pos rfl, Bool.not_true, Bool.false_and, if_neg Bool.false_ne_true, if_pos rfl, List.flatMap_cons, write_append,
      write_heading]
    cases more with
    | nil => rfl
    | cons line more => rw [below, List.flatMap_singleton, write_para]; rfl
  | false =>
    rw [if_neg Bool.false_ne_true, Bool.not_false, Bool.true_and, if_neg Bool.false_ne_true]
    cases hstarts : startsItem (strip first) with
    | true =>
      have hitems := itemsFrom_gather offset more [] first []
      rw [shown_alone] at hitems
      rw [if_pos rfl, if_pos rfl, if_pos rfl, renderList, itemsFrom, if_pos hstarts, hitems, Option.map_some, write_plain,
        write_items (isItem_gather more first [])]
      simp only [String.reduceToList, List.cons_append, List.nil_append, List.append_assoc]
    | false =>
      rw [if_neg Bool.false_ne_true, if_neg Bool.false_ne_true, if_neg Bool.false_ne_true, List.flatMap_singleton, write_para]

theorem renderMarkdown_eq (u : Letters) (markdown : Str) (offset : Int) :
    renderMarkdown u markdown offset = some (write (markdownTokens u markdown offset)) := by
  have hall := mapM_eq_pure fun run hrun => renderRun_eq u offset ((runs_of markdown).2 run hrun)
  rw [renderMarkdown, hall, markdownTokens, write_flatMap]
  rfl

/-! ## Reading -/

/-- A tag of an element that holds a text. -/
def IsLeaf (tag : Str) : Prop := ¬(tag.head? = some '/' ∨ tag = "ul".toList) ∧ ' ' ∉ tag

theorem charsOf_text (s inside : Str) (ms : List Mark) : charsOf (s.map .char ++ .tag inside :: ms) = s := by
  induction s with
  | nil => rfl
  | cons c s ih => exact congrArg _ ih

theorem leaves_text (s : Str) (ms : List Mark) : leaves (s.map .char ++ ms) = leaves ms := by
  induction s with
  | nil => rfl
  | cons c s ih => exact ih

/-- The name of a tag stands before its attributes. -/
theorem takeWhile_inside {tag : Str} (h : ' ' ∉ tag) (attributes : List (Str × Str)) :
    (tag ++ attributes.flatMap writeAttribute).takeWhile (· ≠ ' ') = tag := by
  have hall (c : Char) (hc : c ∈ tag) : decide (c ≠ ' ') = true := decide_eq_true fun heq => h (heq ▸ hc)
  rw [List.takeWhile_append_of_pos hall]
  cases attributes with
  | nil => exact List.append_nil _
  | cons a attributes =>
    exact List.append_nil _

theorem leaves_stop (tag : Str) (ms : List Mark) : leaves (.tag ('/' :: tag) :: ms) = leaves ms := by
  rw [leaves]
  exact if_pos (.inl rfl)

theorem leaves_element {tag : Str} (h : IsLeaf tag) (attributes : List (Str × Str)) (s : Str) (ms : List Mark) :
    leaves (marks (element tag attributes [.text s]) ++ ms) = (tag, s) :: leaves ms := by
  have hmarks : marks (element tag attributes [.text s]) ++ ms =
      .tag (tag ++ attributes.flatMap writeAttribute) :: (s.map .char ++ .tag ('/' :: tag) :: ms) := by
    simp [marks, element, Token.marks, Token.inside]
  rw [hmarks, leaves, takeWhile_inside h.2, if_neg h.1, charsOf_text, leaves_text, leaves_stop]

theorem isLeaf_shown (offset : Int) (part : Part) : IsLeaf (part.shown offset).1 := by
  cases part with
  | heading line =>
    refine ⟨?_, ?_⟩
    · intro h
      rcases h with h | h
      · exact absurd (Option.some.inj h) (by decide)
      · exact absurd (List.cons.inj h).1 (by decide)
    · intro h
      rcases List.mem_cons.mp h with h | h
      · exact absurd h (by decide)
      · cases isDigit_toDigits h
  | item first more => exact (by decide : ¬("li".toList.head? = some '/' ∨ "li".toList = "ul".toList) ∧ ' ' ∉ "li".toList)
  | para first more => exact (by decide : ¬("p".toList.head? = some '/' ∨ "p".toList = "ul".toList) ∧ ' ' ∉ "p".toList)

theorem leaves_parts (u : Letters) (offset : Int) (parts : List Part) (ms : List Mark) :
    leaves (marks (parts.flatMap (Part.tokens u offset)) ++ ms) = parts.map (Part.shown offset) ++ leaves ms := by
  induction parts with
  | nil => rfl
  | cons part parts ih =>
    have happend : marks ((part :: parts).flatMap (Part.tokens u offset)) =
        marks (part.tokens u offset) ++ marks (parts.flatMap (Part.tokens u offset)) := by
      rw [List.flatMap_cons]
      exact List.flatMap_append
    rw [happend, List.append_assoc, Part.tokens, leaves_element (isLeaf_shown offset part), ih]
    rfl

theorem leaves_run (u : Letters) (offset : Int) (run : List Str) (ms : List Mark) :
    leaves (marks (runTokens u offset run) ++ ms) = (partsOf run).map (Part.shown offset) ++ leaves ms := by
  unfold runTokens
  dsimp only
  split
  · have hmarks : marks (element "ul".toList [] ((partsOf run).flatMap (Part.tokens u offset))) ++ ms =
        .tag "ul".toList :: (marks ((partsOf run).flatMap (Part.tokens u offset)) ++ .tag ('/' :: "ul".toList) :: ms) := by
      simp [marks, element, Token.marks, Token.inside]
    have hopen (rest : List Mark) : leaves (.tag "ul".toList :: rest) = leaves rest := by
      rw [leaves]
      exact if_pos (.inr rfl)
    rw [hmarks, hopen, leaves_parts, leaves_stop]
  · exact leaves_parts u offset (partsOf run) ms

/-- The elements of a text are those of its runs. -/
theorem leaves_markdown (u : Letters) (markdown : Str) (offset : Int) :
    leaves (marks (markdownTokens u markdown offset)) = ((runs markdown).flatMap partsOf).map (Part.shown offset) := by
  unfold markdownTokens
  induction runs markdown with
  | nil => rfl
  | cons run rs ih =>
    have happend : marks ((run :: rs).flatMap (runTokens u offset)) =
        marks (runTokens u offset run) ++ marks (rs.flatMap (runTokens u offset)) := by
      rw [List.flatMap_cons]
      exact List.flatMap_append
    rw [happend, leaves_run, ih, List.flatMap_cons, List.map_append]

theorem verbatim_shown (offset : Int) (part : Part) : Verbatim (part.shown offset).1 := by
  cases part with
  | heading line =>
    refine verbatim_cons (by decide) fun c hc => ?_
    have hdigit := isDigit_toDigits hc
    constructor
    · rintro rfl
      cases hdigit
    · rintro rfl
      cases hdigit
  | item first more => exact (by decide : Verbatim "li".toList)
  | para first more => exact (by decide : Verbatim "p".toList)

theorem verbatim_attributesOf (anchor : Str) : ∀ a ∈ attributesOf anchor, Verbatim a.1 := by
  have hid : Verbatim "id".toList := by decide
  have htabindex : Verbatim "tabindex".toList := by decide
  intro a ha
  unfold attributesOf at ha
  split at ha
  · cases ha
  · rcases List.mem_cons.mp ha with rfl | ha
    · exact hid
    · obtain rfl := List.mem_singleton.mp ha
      exact htabindex

theorem verbatim_attributes (u : Letters) (part : Part) : ∀ a ∈ part.attributes u, Verbatim a.1 := by
  cases part with
  | heading line => exact verbatim_attributesOf _
  | item first more => exact fun _ h => absurd h List.not_mem_nil
  | para first more => exact fun _ h => absurd h List.not_mem_nil

theorem named_markdown (u : Letters) (markdown : Str) (offset : Int) : ∀ t ∈ markdownTokens u markdown offset, t.Named := by
  intro t ht
  obtain ⟨run, -, hrun⟩ := List.mem_flatMap.mp ht
  have hinside : ∀ t ∈ (partsOf run).flatMap (Part.tokens u offset), t.Named := by
    intro t ht
    obtain ⟨part, -, hpart⟩ := List.mem_flatMap.mp ht
    have htext : ∀ t ∈ [Token.text (part.shown offset).2], t.Named := List.forall_mem_singleton.mpr trivial
    exact named_element (verbatim_shown offset part) (verbatim_attributes u part) htext t hpart
  unfold runTokens at hrun
  dsimp only at hrun
  split at hrun
  · exact named_element (by decide : Verbatim "ul".toList) (fun _ h => absurd h List.not_mem_nil) hinside t hrun
  · exact hinside t hrun

/-! ## Every line in its element -/

/-- Nothing raises, and each line of a text is in one element of its kind exactly when no
line is a hyphen with nothing but blanks after it. -/
theorem renderMarkdown_shows (u : Letters) (markdown : Str) (offset : Int) :
    (renderMarkdown u markdown offset).isSome = true ∧
      ((∃ html ms parts, Shows u markdown offset html ms parts) ↔
        ∀ line ∈ splitLinesFrom [] markdown, isListItem line = true → strip line ≠ ['-']) := by
  have hrendered := renderMarkdown_eq u markdown offset
  have hreads := read_write (named_markdown u markdown offset)
  obtain ⟨hflatten, hruns⟩ := runs_of markdown
  have hlines : ((runs markdown).flatMap partsOf).flatMap Part.lines = (runs markdown).flatten := by
    rw [List.flatMap_assoc]
    exact congrArg List.flatten ((List.map_congr_left fun run _ => lines_partsOf run).trans (List.map_id _))
  refine ⟨by rw [hrendered]; rfl, ?_, ?_⟩
  · rintro ⟨html, ms, parts, h⟩ line hline hitem hbare
    -- the items of the text are the items among its lines, one of which is bare
    obtain rfl := Option.some.inj (hrendered.symm.trans h.rendered)
    obtain rfl := Option.some.inj (hreads.symm.trans h.reads)
    have hcount := congrArg (List.countP fun p => p.1 = "li".toList) (h.shown.symm.trans (leaves_markdown u markdown offset))
    rw [countP_shown, countP_shown, countP_sorted h.sorted, h.lines, ← hflatten] at hcount
    have hle : ((runs markdown).flatMap partsOf).countP Part.isItem ≤
        (runs markdown).flatten.countP fun line => startsItem (strip line) := by
      clear hcount hruns hlines hflatten
      induction runs markdown with
      | nil => exact Nat.le_refl 0
      | cons run rs ih =>
        rw [List.flatMap_cons, List.flatten_cons, List.countP_append, List.countP_append]
        exact Nat.add_le_add (countP_partsOf run) ih
    have hbares : 0 < ((runs markdown).flatten.countP fun line => isListItem line && strip line = ['-']) := by
      refine List.countP_pos_iff.mpr ⟨line, ?_, by simp [hitem, hbare]⟩
      rw [hflatten]
      exact List.mem_filter.mpr ⟨hline, by simp [hbare]⟩
    rw [countP_isListItem] at hcount
    omega
  · intro hbare
    refine ⟨_, _, (runs markdown).flatMap partsOf, hrendered, hreads, leaves_markdown u markdown offset,
      hlines.trans hflatten, ?_⟩
    intro part hpart
    obtain ⟨run, hrun, hpart⟩ := List.mem_flatMap.mp hpart
    refine sorted_partsOf (hruns run hrun) (fun line hline => hbare line ?_) part hpart
    have hmem : line ∈ (runs markdown).flatten := List.mem_flatten.mpr ⟨run, hrun, hline⟩
    rw [hflatten] at hmem
    exact (List.mem_filter.mp hmem).1

/-- The letters of ASCII. -/
def asciiLetters : Letters where
  isAlnum := Unicode.ascii.isAlnum
  lower s := s.map Char.toLower
  hyphen := by decide

/-- A bare hyphen makes the list below it a paragraph. -/
theorem renderMarkdown_bare :
    (splitLinesFrom [] "- \n- a".toList).all isListItem = true ∧
      renderMarkdown asciiLetters "- \n- a".toList 0 = some "<p>- - a</p>".toList := by
  decide +kernel

end CiteVyn.Services.AboutPage
