import CiteVyn.Services.AboutPage
import Mathlib.Data.List.Nodup

/-! # The anchors of the about page

`app/services/about_page.py` again: the anchors of its headings, and the jump links of
`_table_of_contents`. -/
namespace CiteVyn.Services.AboutPage
open CiteVyn.Lib.Effects (mapM_eq_pure)
open CiteVyn.Lib.Markup
open CiteVyn.Text
open CiteVyn.Worker (splitLinesFrom)

structure Document where
  title : Str
  markdown : Str
  deriving DecidableEq, Repr

/-- `document_anchor` -/
def documentAnchor (u : Letters) (d : Document) : Str :=
  match (splitLinesFrom [] d.markdown).find? fun line => isHeading (strip line) with
  | some line => slugify u (headingText line)
  | none => slugify u d.title

/-- The anchor that a document is linked by, if its section carries it. -/
def linkOf (u : Letters) (d : Document) (rendered : Str) : Option Str :=
  let anchor := documentAnchor u d
  if !anchor.isEmpty && contains ("id=\"".toList ++ anchor ++ ['"']) rendered then some anchor else none

/-- `_table_of_contents` -/
def tableOfContents (u : Letters) (rendered : List (Document × Str)) : Str :=
  let links := rendered.filterMap fun (d, html) =>
    (linkOf u d html).map fun anchor =>
      "<li><a href=\"#".toList ++ escape anchor ++ "\">".toList ++ escape d.title ++ "</a></li>".toList
  if links.isEmpty then []
  else "<nav class=\"about-toc\" aria-label=\"On this page\"><ul>".toList ++ links.flatten ++ "</ul></nav>".toList

def unavailable : Str := "The source documents for this page are not available.".toList

/-- `main_html` of `render_about_page`, whose frame has no anchors. -/
def mainHtml (u : Letters) (documents : List Document) : Option Str := do
  let rendered ← documents.mapM fun d => (renderMarkdown u d.markdown 1).map fun html => (d, html)
  let body := rendered.flatMap fun (_, html) => "<section class=\"about-doc\">".toList ++ html ++ "</section>".toList
  let toc := tableOfContents u rendered
  if rendered.any fun (_, html) => !html.isEmpty then return toc ++ ['\n'] ++ body ++ ['\n']
  else return ['\n'] ++ ("<p>".toList ++ unavailable ++ "</p>".toList) ++ ['\n']

/-! ## Words -/

/-- The words of a text, with the one that is open. -/
def wordsFrom (u : Letters) : Str → Str → List Str
  | w, [] => if w.isEmpty then [] else [w]
  | w, c :: text =>
    if u.isAlnum c then wordsFrom u (w ++ [c]) text
    else if w.isEmpty then wordsFrom u [] text
    else w :: wordsFrom u [] text

/-- The words of a text, in lower case. -/
def words (u : Letters) (text : Str) : List Str := wordsFrom u [] (u.lower text)

def IsWord (u : Letters) (w : Str) : Prop := w ≠ [] ∧ ∀ c ∈ w, u.isAlnum c = true

theorem ne_hyphen {u : Letters} {c : Char} (h : u.isAlnum c = true) : c ≠ '-' := by
  rintro rfl
  rw [u.hyphen] at h
  cases h

theorem isWord_concat {u : Letters} {w : Str} {c : Char} (hw : w = [] ∨ IsWord u w) (hc : u.isAlnum c = true) :
    IsWord u (w ++ [c]) := by
  refine ⟨List.append_ne_nil_of_right_ne_nil _ (List.cons_ne_nil _ _), List.forall_mem_append.mpr ⟨?_, ?_⟩⟩
  · rcases hw with rfl | hw
    · exact fun _ h => absurd h List.not_mem_nil
    · exact hw.2
  · exact List.forall_mem_singleton.mpr hc

theorem isWord_wordsFrom {u : Letters} (text : Str) : ∀ {w}, w = [] ∨ IsWord u w → ∀ x ∈ wordsFrom u w text, IsWord u x := by
  induction text with
  | nil =>
    intro w hw
    unfold wordsFrom
    rcases hw with rfl | hw
    · exact fun _ h => absurd h List.not_mem_nil
    · rw [if_neg (mt List.isEmpty_iff.mp hw.1)]
      exact List.forall_mem_singleton.mpr hw
  | cons c text ih =>
    intro w hw
    unfold wordsFrom
    split
    · rename_i hc
      exact ih (.inr (isWord_concat hw hc))
    · rcases hw with rfl | hw
      · exact ih (.inl rfl)
      · rw [if_neg (mt List.isEmpty_iff.mp hw.1)]
        exact List.forall_mem_cons.mpr ⟨hw, ih (.inl rfl)⟩

/-- Words that are done, each with a hyphen after it. -/
def trail (ws : List Str) : Str := ws.flatMap fun w => w ++ ['-']

theorem trail_concat (ws : List Str) (w : Str) : trail (ws ++ [w]) = trail ws ++ w ++ ['-'] := by
  rw [trail, List.flatMap_append, List.flatMap_singleton, List.append_assoc]
  rfl

/-- The hyphens between the words are those after all but the last. -/
theorem trail_append (ws : List Str) (w : Str) : trail ws ++ w = ['-'].intercalate (ws ++ [w]) := by
  induction ws with
  | nil => exact List.intercalate_singleton.symm
  | cons v ws ih =>
    rw [List.cons_append, List.intercalate_cons_of_ne_nil (by simp), ← ih, trail, List.flatMap_cons, List.append_assoc]
    rfl

/-- No hyphen stands before the first word. -/
theorem dropWhile_trail {u : Letters} {ws : List Str} {w : Str} (hws : ∀ x ∈ ws, IsWord u x) (hw : IsWord u w) (rest : Str) :
    (trail ws ++ w ++ rest).dropWhile (· = '-') = trail ws ++ w ++ rest := by
  obtain ⟨v, hv, s, hs⟩ : ∃ v, IsWord u v ∧ ∃ s, trail ws ++ w ++ rest = v ++ s := by
    cases ws with
    | nil => exact ⟨w, hw, rest, rfl⟩
    | cons v ws => exact ⟨v, hws v List.mem_cons_self, '-' :: (trail ws ++ w ++ rest), by simp [trail]⟩
  obtain ⟨c, v, rfl⟩ := List.exists_cons_of_ne_nil hv.1
  rw [hs, List.cons_append]
  exact List.dropWhile_cons_of_neg fun h => ne_hyphen (hv.2 c List.mem_cons_self) (of_decide_eq_true h)

theorem getLast?_trail {u : Letters} (ws : List Str) {w : Str} (hw : IsWord u w) :
    ∃ c, (trail ws ++ w).getLast? = some c ∧ c ≠ '-' := by
  have hne : trail ws ++ w ≠ [] := List.append_ne_nil_of_right_ne_nil _ hw.1
  refine ⟨_, List.getLast?_eq_some_getLast hne, ?_⟩
  rw [List.getLast_append_of_ne_nil hne hw.1]
  exact ne_hyphen (hw.2 _ (List.getLast_mem hw.1))

/-- No hyphen stands after the last word. -/
theorem rdropWhile_trail {u : Letters} (ws : List Str) {w : Str} (hw : IsWord u w) :
    (trail ws ++ w).rdropWhile (· = '-') = trail ws ++ w := by
  rw [List.rdropWhile_eq_self_iff]
  intro hne h
  obtain ⟨c, hlast, hc⟩ := getLast?_trail ws hw
  rw [List.getLast?_eq_some_getLast hne] at hlast
  rw [Option.some.inj hlast] at h
  exact hc (of_decide_eq_true h)

/-- The loop of `slugify` joins the words with hyphens. -/
theorem slugFrom_eq {u : Letters} (text : Str) : ∀ {ws w}, (∀ x ∈ ws, IsWord u x) → w = [] ∨ IsWord u w →
    ((slugFrom u (trail ws ++ w) text).dropWhile (· = '-')).rdropWhile (· = '-') =
      ['-'].intercalate (ws ++ wordsFrom u w text) := by
  induction text with
  | nil =>
    intro ws w hws hw
    unfold slugFrom wordsFrom
    rcases hw with rfl | hw
    · rw [if_pos List.isEmpty_nil, List.append_nil, List.append_nil]
      rcases List.eq_nil_or_concat' ws with rfl | ⟨vs, v, rfl⟩
      · rfl
      · obtain ⟨hvs, hv⟩ := List.forall_mem_append.mp hws
        have hv := hv v (List.mem_singleton_self v)
        have hlast := List.rdropWhile_concat_pos (fun c => decide (c = '-')) (trail vs ++ v) '-' (decide_eq_true rfl)
        rw [trail_concat, dropWhile_trail hvs hv, hlast, rdropWhile_trail vs hv, trail_append]
    · have hdrop := dropWhile_trail hws hw []
      rw [List.append_nil] at hdrop
      rw [if_neg (mt List.isEmpty_iff.mp hw.1), hdrop, rdropWhile_trail ws hw, trail_append]
  | cons c text ih =>
    intro ws w hws hw
    unfold slugFrom wordsFrom
    split
    · rename_i hc
      rw [List.append_assoc, ih hws (.inr (isWord_concat hw hc))]
    · rcases hw with rfl | hw
      · have hlast : (!(trail ws ++ []).isEmpty && (trail ws ++ []).getLast? != some '-') = false := by
          rcases List.eq_nil_or_concat' ws with rfl | ⟨vs, v, rfl⟩
          · rfl
          · rw [List.append_nil, trail_concat, List.getLast?_concat]
            simp
        rw [if_neg (Bool.eq_false_iff.mp hlast), if_pos List.isEmpty_nil]
        exact ih hws (.inl rfl)
      · have hlast : (!(trail ws ++ w).isEmpty && (trail ws ++ w).getLast? != some '-') = true := by
          obtain ⟨d, hd, hne⟩ := getLast?_trail ws hw
          have hempty : ¬(trail ws ++ w).isEmpty = true := fun h => by
            rw [List.isEmpty_iff.mp h] at hd
            cases hd
          rw [hd]
          simp [hempty, hne]
        rw [if_pos hlast, if_neg (mt List.isEmpty_iff.mp hw.1), ← trail_concat]
        have hnext := ih (List.forall_mem_append.mpr ⟨hws, List.forall_mem_singleton.mpr hw⟩) (.inl rfl)
        rw [List.append_nil, List.append_assoc] at hnext
        exact hnext

theorem slugify_eq (u : Letters) (text : Str) : slugify u text = ['-'].intercalate (words u text) := by
  have h := slugFrom_eq (u.lower text) (fun _ h => absurd h List.not_mem_nil) (.inl rfl : ([] : Str) = [] ∨ IsWord u [])
  exact h

theorem isWord_words {u : Letters} {text : Str} : ∀ w ∈ words u text, IsWord u w :=
  isWord_wordsFrom _ (.inl rfl)

/-- A slug is empty when there are no words. -/
theorem slugify_isEmpty (u : Letters) (text : Str) : (slugify u text).isEmpty = (words u text).isEmpty := by
  rw [slugify_eq]
  have hwords : ∀ w ∈ words u text, IsWord u w := isWord_words
  cases hw : words u text with
  | nil => rfl
  | cons w ws =>
    rw [hw] at hwords
    obtain ⟨c, w, rfl⟩ := List.exists_cons_of_ne_nil (hwords w List.mem_cons_self).1
    rw [List.intercalate_cons_cons_left]
    rfl

/-- A slug tells its words. -/
theorem slugify_inj {u : Letters} {a b : Str} (h : slugify u a = slugify u b) : words u a = words u b := by
  have hempty := (slugify_isEmpty u a).symm.trans ((congrArg List.isEmpty h).trans (slugify_isEmpty u b))
  have hsplit {text : Str} (hne : words u text ≠ []) : (slugify u text).splitOn '-' = words u text := by
    rw [slugify_eq]
    exact List.splitOn_intercalate '-' (fun w hw hmem => ne_hyphen ((isWord_words w hw).2 _ hmem) rfl) hne
  by_cases hnil : words u a = []
  · rw [hnil] at hempty ⊢
    exact (List.isEmpty_iff.mp hempty.symm).symm
  · have hnil' : words u b ≠ [] := fun hb => hnil (List.isEmpty_iff.mp (hempty.trans (List.isEmpty_iff.mpr hb)))
    rw [← hsplit hnil, h, hsplit hnil']

/-! ## The anchors of a document -/

/-- The lines of a document that are headings. -/
def headings (markdown : Str) : List Str := (splitLinesFrom [] markdown).filter fun line => isHeading (strip line)

/-- The anchors of heading lines. -/
def anchorsOf (u : Letters) (lines : List Str) : List Str :=
  (lines.map fun line => slugify u (headingText line)).filter fun anchor => !anchor.isEmpty

theorem anchorsOf_append (u : Letters) (lines lines' : List Str) :
    anchorsOf u (lines ++ lines') = anchorsOf u lines ++ anchorsOf u lines' := by
  rw [anchorsOf, List.map_append, List.filter_append]
  rfl

theorem values_heading (u : Letters) (offset : Int) (line : Str) :
    values "id".toList ((Part.heading line).tokens u offset) = anchorsOf u [line] := by
  unfold Part.tokens anchorsOf
  rw [values_element, values_text, List.append_nil, List.map_singleton]
  change (Token.start _ (attributesOf (slugify u (headingText line)))).values _ = _
  cases slugify u (headingText line) with
  | nil => rfl
  | cons c anchor => rfl

theorem values_other (u : Letters) (offset : Int) {part : Part} (h : ∀ line, part ≠ .heading line) :
    values "id".toList (part.tokens u offset) = [] := by
  unfold Part.tokens
  rw [values_element, values_text]
  cases part with
  | heading line => exact absurd rfl (h line)
  | item first more => rfl
  | para first more => rfl

theorem values_parts {u : Letters} {offset : Int} {parts : List Part} (h : ∀ part ∈ parts, ∀ line, part ≠ .heading line) :
    values "id".toList (parts.flatMap (Part.tokens u offset)) = [] := by
  induction parts with
  | nil => rfl
  | cons part parts ih =>
    obtain ⟨hpart, hparts⟩ := List.forall_mem_cons.mp h
    rw [List.flatMap_cons, values_append, values_other u offset hpart, ih hparts]
    rfl

theorem values_run (u : Letters) (offset : Int) (run : List Str) :
    values "id".toList (runTokens u offset run) = values "id".toList ((partsOf run).flatMap (Part.tokens u offset)) := by
  unfold runTokens
  dsimp only
  split
  · rw [values_element]
    rfl
  · rfl

/-- No element of a run that begins with no heading is one. -/
theorem not_heading_of_partsOf {first : Str} {more : List Str} (h : isHeading (strip first) = false) :
    ∀ part ∈ partsOf (first :: more), ∀ line, part ≠ .heading line := by
  intro part hpart line
  rintro rfl
  rw [partsOf, if_neg (Bool.eq_false_iff.mp h)] at hpart
  split at hpart
  · cases isItem_gather _ _ _ _ hpart
  · cases List.mem_singleton.mp hpart

/-- A run has the anchor of the heading that it begins with. -/
theorem anchors_run (u : Letters) (offset : Int) {run : List Str} (h : IsRun run) :
    values "id".toList (runTokens u offset run) = anchorsOf u (run.filter fun line => isHeading (strip line)) := by
  have hnone {lines : List Str} (hlines : ∀ line ∈ lines, isHeading (strip line) = false) :
      lines.filter (fun line => isHeading (strip line)) = [] :=
    List.filter_eq_nil_iff.mpr fun line hline => Bool.eq_false_iff.mp (hlines line hline)
  rw [values_run]
  cases h with
  | @heading first more hfirst hmore =>
    have hbelow : ∀ part ∈ below more, ∀ line, part ≠ .heading line := by
      intro part hpart line
      rintro rfl
      cases more with
      | nil => cases hpart
      | cons line more => cases List.mem_singleton.mp hpart
    rw [partsOf, if_pos hfirst, List.flatMap_cons, values_append, values_heading, values_parts hbelow, List.append_nil,
      List.filter_cons, if_pos hfirst, hnone fun line hline => (hmore line hline).1]
  | @list first more hfirst hlines =>
    rw [values_parts (not_heading_of_partsOf (hlines first List.mem_cons_self)), hnone hlines]
    rfl
  | @text first more hlines =>
    rw [values_parts (not_heading_of_partsOf (hlines first List.mem_cons_self).1), hnone fun line hline => (hlines line hline).1]
    rfl

/-- The anchors of a document are those of its headings. -/
theorem anchors_markdown (u : Letters) (markdown : Str) (offset : Int) :
    values "id".toList (markdownTokens u markdown offset) = anchorsOf u (headings markdown) := by
  obtain ⟨hflatten, hruns⟩ := runs_of markdown
  have hall {rs : List (List Str)} (h : ∀ run ∈ rs, IsRun run) : values "id".toList (rs.flatMap (runTokens u offset)) =
      anchorsOf u (rs.flatten.filter fun line => isHeading (strip line)) := by
    induction rs with
    | nil => rfl
    | cons run rs ih =>
      obtain ⟨hrun, hrs⟩ := List.forall_mem_cons.mp h
      rw [List.flatMap_cons, values_append, anchors_run u offset hrun, ih hrs, List.flatten_cons, List.filter_append,
        anchorsOf_append]
  rw [markdownTokens, hall hruns, hflatten, List.filter_filter, headings]
  congr 1
  refine List.filter_congr fun line _ => ?_
  -- a blank line is no heading
  by_cases hline : strip line = []
  · rw [hline]
    rfl
  · rw [decide_eq_true hline, Bool.and_true]

/-! ## The jump links -/

theorem quote_not_mem_escape (s : Str) : '"' ∉ escape s := by
  intro h
  obtain ⟨c, -, hc⟩ := List.mem_flatMap.mp h
  rcases entity_cases c with rfl | rfl | rfl | rfl | rfl | hplain
  · exact absurd hc (by decide)
  · exact absurd hc (by decide)
  · exact absurd hc (by decide)
  · exact absurd hc (by decide)
  · exact absurd hc (by decide)
  · rw [escapeChar, hplain] at hc
    obtain rfl := List.mem_singleton.mp hc
    cases hplain

/-- Only a heading is written with quotes. -/
theorem quote_not_mem_part (u : Letters) (offset : Int) {part : Part} (h : ∀ line, part ≠ .heading line) :
    '"' ∉ write (part.tokens u offset) := by
  have htag {tag : Str} (htag : '"' ∉ tag) (s : Str) : '"' ∉ write (element tag [] [.text s]) := by
    rw [write_plain, write_text]
    simp [htag, quote_not_mem_escape]
  cases part with
  | heading line => exact absurd rfl (h line)
  | item first more => exact htag (by decide : '"' ∉ "li".toList) _
  | para first more => exact htag (by decide : '"' ∉ "p".toList) _

theorem quote_not_mem_markdown (u : Letters) {markdown : Str} (offset : Int) (h : headings markdown = []) :
    '"' ∉ write (markdownTokens u markdown offset) := by
  obtain ⟨hflatten, hruns⟩ := runs_of markdown
  rw [markdownTokens, write_flatMap]
  intro hmem
  obtain ⟨run, hrun, hmem⟩ := List.mem_flatMap.mp hmem
  obtain ⟨first, more, rfl⟩ : ∃ first more, run = first :: more := by cases hruns run hrun <;> exact ⟨_, _, rfl⟩
  have hfirst : isHeading (strip first) = false := by
    have hline : first ∈ (runs markdown).flatten := List.mem_flatten.mpr ⟨_, hrun, List.mem_cons_self⟩
    rw [hflatten] at hline
    exact Bool.eq_false_iff.mpr (List.filter_eq_nil_iff.mp h first (List.mem_filter.mp hline).1)
  have hinside : '"' ∉ write ((partsOf (first :: more)).flatMap (Part.tokens u offset)) := by
    rw [write_flatMap]
    intro hmem
    obtain ⟨part, hpart, hmem⟩ := List.mem_flatMap.mp hmem
    exact quote_not_mem_part u offset (not_heading_of_partsOf hfirst part hpart) hmem
  unfold runTokens at hmem
  dsimp only at hmem
  split at hmem
  · rw [write_plain] at hmem
    simp [hinside] at hmem
  · exact hinside hmem

/-- A document is linked by an anchor of its own. -/
theorem linkOf_own {u : Letters} {d : Document} {anchor : Str}
    (h : linkOf u d (write (markdownTokens u d.markdown 1)) = some anchor) :
    anchor ∈ values "id".toList (markdownTokens u d.markdown 1) := by
  unfold linkOf at h
  dsimp only at h
  split at h
  · rename_i hlink
    obtain ⟨hanchor, hcontains⟩ := Bool.and_eq_true_iff.mp hlink
    obtain rfl := Option.some.inj h
    unfold documentAnchor at hanchor hcontains ⊢
    split at hanchor
    · rename_i line hfind
      have hheading := List.find?_some (p := fun line => isHeading (strip line)) hfind
      have hline : line ∈ headings d.markdown := List.mem_filter.mpr ⟨List.mem_of_find?_eq_some hfind, hheading⟩
      rw [anchors_markdown]
      exact List.mem_filter.mpr ⟨List.mem_map_of_mem hline, hanchor⟩
    · rename_i hfind
      have hnone : headings d.markdown = [] := List.filter_eq_nil_iff.mpr (List.find?_eq_none.mp hfind)
      have hquote := (contains_iff.mp hcontains).subset (List.mem_append_right _ (List.mem_singleton_self '"'))
      exact absurd hquote (quote_not_mem_markdown u 1 hnone)
  · cases h

/-! ## The tags of the page -/

def linkTokens (title anchor : Str) : List Token :=
  element "li".toList [] (element "a".toList [("href".toList, '#' :: anchor)] [.text title])

def tocTokens (u : Letters) (documents : List Document) : List Token :=
  let links := documents.filterMap fun d =>
    (linkOf u d (write (markdownTokens u d.markdown 1))).map (linkTokens d.title)
  if links.isEmpty then []
  else
    element "nav".toList [("class".toList, "about-toc".toList), ("aria-label".toList, "On this page".toList)]
      (element "ul".toList [] links.flatten)

/-- The section of a document. -/
def sectionTokens (u : Letters) (d : Document) : List Token :=
  element "section".toList [("class".toList, "about-doc".toList)] (markdownTokens u d.markdown 1)

def mainTokens (u : Letters) (documents : List Document) : List Token :=
  if documents.any fun d => !(write (markdownTokens u d.markdown 1)).isEmpty then
    tocTokens u documents ++ [Token.text ['\n']] ++ documents.flatMap (sectionTokens u) ++ [Token.text ['\n']]
  else [Token.text ['\n']] ++ element "p".toList [] [Token.text unavailable] ++ [Token.text ['\n']]

theorem write_link (title anchor : Str) :
    write (linkTokens title anchor) =
      "<li><a href=\"#".toList ++ escape anchor ++ "\">".toList ++ escape title ++ "</a></li>".toList := by
  have hhash : escape ('#' :: anchor) = '#' :: escape anchor := rfl
  rw [linkTokens, write_plain, write_element, write_start_one, write_text, write_stop, hhash]
  simp only [String.reduceToList, List.cons_append, List.nil_append, List.append_assoc]

theorem write_flatten (tss : List (List Token)) : write tss.flatten = (tss.map write).flatten := by
  induction tss with
  | nil => rfl
  | cons ts tss ih => rw [List.flatten_cons, write_append, ih, List.map_cons, List.flatten_cons]

theorem write_toc (u : Letters) (documents : List Document) :
    write (tocTokens u documents) =
      tableOfContents u (documents.map fun d => (d, write (markdownTokens u d.markdown 1))) := by
  have hclass : escape "about-toc".toList = "about-toc".toList := by decide +kernel
  have hlabel : escape "On this page".toList = "On this page".toList := by decide +kernel
  have hlinks : (documents.map fun d => (d, write (markdownTokens u d.markdown 1))).filterMap (fun (d, html) =>
      (linkOf u d html).map fun anchor =>
        "<li><a href=\"#".toList ++ escape anchor ++ "\">".toList ++ escape d.title ++ "</a></li>".toList) =
      (documents.filterMap fun d =>
        (linkOf u d (write (markdownTokens u d.markdown 1))).map (linkTokens d.title)).map write := by
    rw [List.filterMap_map, List.map_filterMap]
    refine List.filterMap_congr fun d _ => ?_
    rw [Function.comp_apply, Option.map_map]
    exact congrArg (fun f => Option.map f _) (funext fun anchor => (write_link d.title anchor).symm)
  unfold tableOfContents tocTokens
  dsimp only
  rw [hlinks, List.isEmpty_map]
  split
  · rfl
  · rw [write_element, write_start_two, write_plain, write_stop, hclass, hlabel, write_flatten]
    simp only [String.reduceToList, List.cons_append, List.nil_append, List.append_assoc]

theorem write_section (u : Letters) (d : Document) :
    write (sectionTokens u d) =
      "<section class=\"about-doc\">".toList ++ write (markdownTokens u d.markdown 1) ++ "</section>".toList := by
  have hclass : escape "about-doc".toList = "about-doc".toList := by decide +kernel
  rw [sectionTokens, write_element, write_start_one, write_stop, hclass]
  simp only [String.reduceToList, List.cons_append, List.nil_append]

theorem mainHtml_eq (u : Letters) (documents : List Document) :
    mainHtml u documents = some (write (mainTokens u documents)) := by
  have hrendered : (documents.mapM fun d => (renderMarkdown u d.markdown 1).map fun html => (d, html)) =
      some (documents.map fun d => (d, write (markdownTokens u d.markdown 1))) :=
    mapM_eq_pure fun d _ => by rw [renderMarkdown_eq]; rfl
  have hnewline : write [.text ['\n']] = ['\n'] := by decide
  have hplain : escape unavailable = unavailable := by decide +kernel
  have hbody : write (documents.flatMap (sectionTokens u)) =
      (documents.map fun d => (d, write (markdownTokens u d.markdown 1))).flatMap fun (_, html) =>
        "<section class=\"about-doc\">".toList ++ html ++ "</section>".toList := by
    rw [write_flatMap, List.flatMap_map]
    exact List.flatMap_congr fun d _ => write_section u d
  unfold mainHtml mainTokens
  rw [hrendered, Option.bind_eq_bind, Option.bind_some, List.any_map]
  dsimp only
  rw [← write_toc, ← hbody]
  split
  · rename_i hany
    rw [if_pos (by exact hany), write_append, write_append, write_append, hnewline]
    rfl
  · rename_i hany
    rw [if_neg (by exact hany), write_append, write_append, hnewline, write_plain, write_text, hplain]
    rfl

/-! ## The anchors of the page -/

theorem values_toc (u : Letters) (documents : List Document) : values "id".toList (tocTokens u documents) = [] := by
  have hlinks (links : List (List Token)) (h : ∀ ts ∈ links, values "id".toList ts = []) :
      values "id".toList links.flatten = [] := by
    induction links with
    | nil => rfl
    | cons ts links ih =>
      obtain ⟨hts, hlinks⟩ := List.forall_mem_cons.mp h
      rw [List.flatten_cons, values_append, hts, ih hlinks]
      rfl
  unfold tocTokens
  dsimp only
  split
  · rfl
  · rw [values_element, values_element, hlinks]
    · rfl
    · intro ts hts
      obtain ⟨d, -, hd⟩ := List.mem_filterMap.mp hts
      obtain ⟨anchor, -, rfl⟩ := Option.map_eq_some_iff.mp hd
      rw [linkTokens, values_element, values_element]
      rfl

/-- What writes nothing has no attributes. -/
theorem values_of_write_nil {name : Text} {ts : List Token} (h : write ts = []) : values name ts = [] := by
  induction ts with
  | nil => rfl
  | cons t ts ih =>
    rw [write_cons] at h
    obtain ⟨ht, hts⟩ := List.append_eq_nil_iff.mp h
    rw [values, List.flatMap_cons]
    cases t with
    | text s => exact ih hts
    | start tag attributes => cases ht
    | stop tag => cases ht

/-- The anchors of the page are those of its documents. -/
theorem values_main (u : Letters) (documents : List Document) :
    values "id".toList (mainTokens u documents) =
      documents.flatMap fun d => values "id".toList (markdownTokens u d.markdown 1) := by
  unfold mainTokens
  split
  · have hsection (d : Document) : values "id".toList (sectionTokens u d) = values "id".toList (markdownTokens u d.markdown 1) := by
      rw [sectionTokens, values_element]
      rfl
    rw [values_append, values_append, values_append, values_toc, values_text, List.append_nil, List.nil_append, List.nil_append]
    exact List.flatMap_assoc.trans (List.flatMap_congr fun d _ => hsection d)
  · rename_i hnone
    rw [values_append, values_append, values_element, values_text, values_text]
    refine (List.flatMap_eq_nil_iff.mpr fun d hd => values_of_write_nil ?_).symm
    by_contra hwritten
    exact hnone (List.any_eq_true.mpr ⟨d, hd, by simp [hwritten]⟩)

theorem named_main (u : Letters) (documents : List Document) : ∀ t ∈ mainTokens u documents, t.Named := by
  have hclass : Verbatim "class".toList := by decide
  have hlabel : Verbatim "aria-label".toList := by decide
  have hhref : Verbatim "href".toList := by decide
  have hplain {tag : Text} (htag : Verbatim tag) {ts : List Token} (h : ∀ t ∈ ts, t.Named) :
      ∀ t ∈ element tag [] ts, t.Named :=
    named_element htag (fun _ ha => absurd ha List.not_mem_nil) h
  have htext (s : Text) : ∀ t ∈ [Token.text s], t.Named := List.forall_mem_singleton.mpr trivial
  have hlink (title anchor : Str) : ∀ t ∈ linkTokens title anchor, t.Named :=
    hplain (by decide : Verbatim "li".toList)
      (named_element (by decide : Verbatim "a".toList) (List.forall_mem_singleton.mpr hhref) (htext title))
  have htoc : ∀ t ∈ tocTokens u documents, t.Named := by
    unfold tocTokens
    dsimp only
    split
    · exact fun _ ht => absurd ht List.not_mem_nil
    · refine named_element (by decide : Verbatim "nav".toList)
        (List.forall_mem_cons.mpr ⟨hclass, List.forall_mem_singleton.mpr hlabel⟩)
        (hplain (by decide : Verbatim "ul".toList) fun t ht => ?_)
      obtain ⟨ts, hts, ht⟩ := List.mem_flatten.mp ht
      obtain ⟨d, -, hd⟩ := List.mem_filterMap.mp hts
      obtain ⟨anchor, -, rfl⟩ := Option.map_eq_some_iff.mp hd
      exact hlink d.title anchor t ht
  have hsections : ∀ t ∈ documents.flatMap (sectionTokens u), t.Named := by
    intro t ht
    obtain ⟨d, -, ht⟩ := List.mem_flatMap.mp ht
    exact named_element (by decide : Verbatim "section".toList) (List.forall_mem_singleton.mpr hclass)
      (named_markdown u d.markdown 1) t ht
  unfold mainTokens
  split
  · exact List.forall_mem_append.mpr ⟨List.forall_mem_append.mpr ⟨List.forall_mem_append.mpr
      ⟨htoc, htext _⟩, hsections⟩, htext _⟩
  · exact List.forall_mem_append.mpr ⟨List.forall_mem_append.mpr
      ⟨htext _, hplain (by decide : Verbatim "p".toList) (htext _)⟩, htext _⟩

/-- The anchors of the documents on the page are unique, and a document is linked by an
anchor of its own section, which no other element has. -/
structure Anchored (u : Letters) (documents : List Document) (ts : List Token) : Prop where
  unique : (values "id".toList ts).Nodup
  linked : ∀ d ∈ documents, ∀ rendered anchor, renderMarkdown u d.markdown 1 = some rendered →
    linkOf u d rendered = some anchor →
      (values "id".toList ts).count anchor = 1 ∧ anchor ∈ values "id".toList (sectionTokens u d)

/-- The words of each heading that has any. -/
def headingWords (u : Letters) (documents : List Document) : List (List Str) :=
  (documents.flatMap fun d => (headings d.markdown).map fun line => words u (headingText line)).filter fun ws => !ws.isEmpty

theorem mem_headingWords {u : Letters} {documents : List Document} {ws : List Str} (h : ws ∈ headingWords u documents) :
    ∃ text, ws = words u text := by
  obtain ⟨d, -, hd⟩ := List.mem_flatMap.mp (List.mem_filter.mp h).1
  obtain ⟨line, -, rfl⟩ := List.mem_map.mp hd
  exact ⟨_, rfl⟩

/-- The anchors of the page are the words of its headings, joined. -/
theorem values_words (u : Letters) (documents : List Document) :
    values "id".toList (mainTokens u documents) = (headingWords u documents).map ['-'].intercalate := by
  have hwords (lines : List Str) : anchorsOf u lines =
      ((lines.map fun line => words u (headingText line)).filter fun ws => !ws.isEmpty).map ['-'].intercalate := by
    induction lines with
    | nil => rfl
    | cons line lines ih =>
      have hslug := slugify_isEmpty u (headingText line)
      unfold anchorsOf at ih ⊢
      rw [List.map_cons, List.filter_cons, ih, hslug, slugify_eq, List.map_cons, List.filter_cons]
      split <;> rfl
  rw [values_main, headingWords, List.filter_flatMap, List.map_flatMap]
  refine List.flatMap_congr fun d _ => ?_
  rw [anchors_markdown, hwords]

/-- The anchors are unique and the links lead to them exactly when no two headings of the
documents have the same words. -/
theorem main_anchored (u : Letters) (documents : List Document) :
    mainHtml u documents = some (write (mainTokens u documents)) ∧
      Lib.Markup.read .text (write (mainTokens u documents)) = some (marks (mainTokens u documents)) ∧
      (Anchored u documents (mainTokens u documents) ↔ (headingWords u documents).Nodup) := by
  refine ⟨mainHtml_eq u documents, read_write (named_main u documents), fun h => ?_, fun h => ?_⟩
  · have hunique := h.unique
    rw [values_words] at hunique
    exact hunique.of_map
  · have hunique : (values "id".toList (mainTokens u documents)).Nodup := by
      rw [values_words]
      refine h.map_on fun ws hws ws' hws' heq => ?_
      obtain ⟨text, rfl⟩ := mem_headingWords hws
      obtain ⟨text', rfl⟩ := mem_headingWords hws'
      rw [← slugify_eq, ← slugify_eq] at heq
      exact slugify_inj heq
    refine ⟨hunique, fun d hd rendered anchor hrendered hlink => ?_⟩
    rw [renderMarkdown_eq] at hrendered
    obtain rfl := Option.some.inj hrendered
    have hown := linkOf_own hlink
    refine ⟨List.count_eq_one_of_mem hunique ?_, ?_⟩
    · rw [values_main]
      exact List.mem_flatMap.mpr ⟨d, hd, hown⟩
    · rw [sectionTokens, values_element]
      exact List.mem_append_right _ hown

/-- Two headings of one name have one anchor. -/
theorem mainHtml_twice :
    mainHtml asciiLetters [⟨"A".toList, "# A\n# A".toList⟩] =
      some ("<nav class=\"about-toc\" aria-label=\"On this page\"><ul><li><a href=\"#a\">A</a></li></ul></nav>\n".toList ++
        ("<section class=\"about-doc\"><h2 id=\"a\" tabindex=\"-1\">A</h2><h2 id=\"a\" tabindex=\"-1\">A</h2>".toList ++
        "</section>\n".toList)) := by
  decide +kernel

end CiteVyn.Services.AboutPage
