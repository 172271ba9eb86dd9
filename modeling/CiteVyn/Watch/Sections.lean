import CiteVyn.Text.Integers
import CiteVyn.Watch.Diff
import Mathlib.Data.List.Nodup
import Mathlib.Data.List.Perm.Basic

/-! # What the sections of a page keep

The loop of `_sections` as two: one tells the headings of a page from its other lines,
the other files them under keys. A page whose keys are distinct loses nothing. -/
namespace CiteVyn.Watch
open CiteVyn.Text

/-! ## Headings and lines -/

/-- What a line of a page is to `_sections`. -/
inductive Item where
  /-- a heading, with the name of its path -/
  | heading (name : Str)
  | text (line : Str)
  deriving DecidableEq, Repr

/-- The part of the loop's state that tells them apart. -/
structure Layout where
  path : List (Nat × Str)
  fence : Option Str
  deriving DecidableEq, Repr

/-- The fence that is open after a line. -/
def Layout.fenceAfter (l : Layout) (line : Str) : Option Str :=
  match fenceMark line with
  | some mark => nextFence l.fence mark line
  | none => l.fence

/-- The level and the title of a line that is a heading. -/
def Layout.heading (l : Layout) (line : Str) : Option (Nat × Str) :=
  if (l.fenceAfter line).isSome || (fenceMark line).isSome then none else headingOf line

def Layout.pathAfter (l : Layout) (level : Nat) (rest : Str) : List (Nat × Str) :=
  (l.path.filter fun entry => entry.1 < level) ++ [(level, headingTitle rest)]

def Layout.item (l : Layout) (line : Str) : Item × Layout :=
  match l.heading line with
  | some (level, rest) =>
    let path := l.pathAfter level rest
    (.heading (" > ".toList.intercalate (path.map Prod.snd)), ⟨path, l.fenceAfter line⟩)
  | none => (.text line, ⟨l.path, l.fenceAfter line⟩)

def Layout.items : Layout → List Str → List Item
  | _, [] => []
  | l, line :: lines => (l.item line).1 :: Layout.items (l.item line).2 lines

/-- The headings and the other lines of a page, in page order. -/
def pageItems (page : Str) : List Item := Layout.items ⟨[], none⟩ (splitLines (normalize page))

def headingNames (items : List Item) : List Str :=
  items.filterMap fun
    | .heading name => some name
    | .text _ => none

def textLines (items : List Item) : List Str :=
  items.filterMap fun
    | .heading _ => none
    | .text line => some line

/-- The lines before the first heading. -/
def preamble : List Item → List Str
  | [] => []
  | .text line :: items => line :: preamble items
  | .heading _ :: _ => []

@[simp] theorem headingNames_heading (name : Str) (items : List Item) :
    headingNames (.heading name :: items) = name :: headingNames items := rfl

@[simp] theorem headingNames_text (line : Str) (items : List Item) :
    headingNames (.text line :: items) = headingNames items := rfl

@[simp] theorem textLines_heading (name : Str) (items : List Item) :
    textLines (.heading name :: items) = textLines items := rfl

@[simp] theorem textLines_text (line : Str) (items : List Item) :
    textLines (.text line :: items) = line :: textLines items := rfl

/-! ## Filing -/

/-- The part of the state that the sections are filed with. -/
structure Filing where
  sections : List Section
  seen : List Str
  current : Str
  deriving DecidableEq, Repr

def Filing.file (f : Filing) : Item → Filing
  | .heading name => ⟨assignEmpty f.sections (headingKey f.seen name), name :: f.seen, headingKey f.seen name⟩
  | .text line => { f with sections := appendLine f.sections f.current line }

def Outline.layout (o : Outline) : Layout := ⟨o.path, o.fence⟩

def Outline.filing (o : Outline) : Filing := ⟨o.sections, o.seen, o.current⟩

theorem Outline.read_eq (o : Outline) (line : Str) :
    o.read line = match o.layout.heading line with
      | some (level, rest) =>
        let path := o.layout.pathAfter level rest
        let name := " > ".toList.intercalate (path.map Prod.snd)
        ⟨assignEmpty o.sections (headingKey o.seen name), name :: o.seen, path, headingKey o.seen name,
          o.layout.fenceAfter line⟩
      | none =>
        { o with sections := appendLine o.sections o.current line, fence := o.layout.fenceAfter line } := rfl

theorem Outline.read_item (o : Outline) (line : Str) :
    (o.read line).layout = (o.layout.item line).2 ∧ (o.read line).filing = o.filing.file (o.layout.item line).1 := by
  rw [Layout.item, o.read_eq]
  cases o.layout.heading line with
  | none => exact ⟨rfl, rfl⟩
  | some entry => exact ⟨rfl, rfl⟩

theorem Outline.foldl_read (lines : List Str) (o : Outline) :
    (lines.foldl Outline.read o).filing = (o.layout.items lines).foldl Filing.file o.filing := by
  induction lines generalizing o with
  | nil => rfl
  | cons line lines ih =>
    obtain ⟨hlayout, hfiling⟩ := o.read_item line
    rw [List.foldl_cons, ih, Layout.items, List.foldl_cons, hlayout, hfiling]

def Filing.start : Filing := ⟨[([], [])], [], []⟩

/-- The sections of a page before an empty preamble is dropped. -/
def filed (page : Str) : List Section := ((pageItems page).foldl Filing.file Filing.start).sections

theorem sections_eq_filed (page : Str) :
    sections page = (filed page).filter fun s => !(s.1.isEmpty && s.2.isEmpty) := by
  have h := congrArg Filing.sections (Outline.foldl_read (splitLines (normalize page)) ⟨[([], [])], [], [], [], none⟩)
  simp only [Outline.filing] at h
  simp only [sections, h]
  rfl

/-! ## Keys -/

/-- A repeated name with its number. -/
def numbered (name : Str) (n : Nat) : Str := name ++ " (".toList ++ Nat.toDigits 10 n ++ ")".toList

/-- The names of the headings, each with how often it has been seen. -/
def counted : List Str → List Str → List (Str × Nat)
  | _, [] => []
  | seen, name :: names => (name, seen.count name + 1) :: counted (name :: seen) names

/-- `name if seen[name] == 1 else f"{name} ({seen[name]})"`. -/
def keyOf (entry : Str × Nat) : Str := if entry.2 = 1 then entry.1 else numbered entry.1 entry.2

/-- The keys of the headings, in page order. -/
def headingKeys (seen names : List Str) : List Str := (counted seen names).map keyOf

theorem headingKeys_cons (seen : List Str) (name : Str) (names : List Str) :
    headingKeys seen (name :: names) = headingKey seen name :: headingKeys (name :: seen) names := rfl

theorem mem_counted {names : List Str} : ∀ {seen : List Str} {name : Str} {n : Nat},
    (name, n) ∈ counted seen names ↔ seen.count name < n ∧ n ≤ seen.count name + names.count name := by
  induction names with
  | nil =>
    intro seen name n
    simp only [counted, List.not_mem_nil, List.count_nil, false_iff]
    omega
  | cons first names ih =>
    intro seen name n
    rw [counted, List.mem_cons, ih, Prod.mk.injEq]
    by_cases h : first = name
    · subst h
      rw [List.count_cons_self, List.count_cons_self]
      constructor
      · intro hn
        omega
      · intro hn
        by_cases he : n = seen.count first + 1
        · exact .inl ⟨rfl, he⟩
        · exact .inr (by omega)
    · rw [List.count_cons_of_ne (by simpa using h), List.count_cons_of_ne (by simpa using h)]
      simp [Ne.symm h]

theorem nodup_counted (names : List Str) : ∀ seen : List Str, (counted seen names).Nodup := by
  induction names with
  | nil => exact fun _ => List.nodup_nil
  | cons name names ih =>
    intro seen
    refine List.nodup_cons.mpr ⟨fun h => ?_, ih _⟩
    have hlt := (mem_counted.mp h).1
    rw [List.count_cons_self] at hlt
    omega

/-- The digits of a number stand after the last bracket. -/
theorem numbered_inj {name name' : Str} {n n' : Nat} (h : numbered name n = numbered name' n') :
    name = name' ∧ n = n' := by
  have hdigits : ∀ (name : Str) (n : Nat),
      (((numbered name n).reverse.drop 1).takeWhile (· != '(')) = (Nat.toDigits 10 n).reverse := by
    intro name n
    have hno : ∀ c ∈ (Nat.toDigits 10 n).reverse, (c != '(') = true := by
      intro c hc
      have hd : c.isDigit = true := isDigit_toDigits (List.mem_reverse.mp hc)
      by_contra hne
      obtain rfl : c = '(' := by simpa using hne
      exact absurd hd (by decide)
    have hform : (numbered name n).reverse.drop 1 = (Nat.toDigits 10 n).reverse ++ '(' :: (' ' :: name.reverse) := by
      simp [numbered]
    rw [hform, List.takeWhile_append_of_pos hno, List.takeWhile_cons_of_neg (by decide), List.append_nil]
  have hd : Nat.toDigits 10 n = Nat.toDigits 10 n' := by
    have hr := hdigits name n
    rw [h, hdigits name' n'] at hr
    exact (List.reverse_injective hr).symm
  rw [numbered, numbered, hd] at h
  exact ⟨by simpa using h, toDigits_inj hd⟩

theorem headingKey_ne_nil (seen : List Str) {name : Str} (h : name ≠ []) : headingKey seen name ≠ [] := by
  simp only [headingKey]
  split
  · exact h
  · simp

theorem length_headingKeys (names : List Str) : ∀ seen, (headingKeys seen names).length = names.length := by
  induction names with
  | nil => exact fun _ => rfl
  | cons name names ih => exact fun seen => congrArg (· + 1) (ih (name :: seen))

theorem nil_not_mem_headingKeys (names : List Str) : ∀ seen : List Str, (∀ name ∈ names, name ≠ []) →
    [] ∉ headingKeys seen names := by
  induction names with
  | nil => exact fun _ _ => List.not_mem_nil
  | cons name names ih =>
    intro seen h
    rw [headingKeys_cons, List.mem_cons, not_or]
    exact ⟨Ne.symm (headingKey_ne_nil seen (h name List.mem_cons_self)),
      ih _ fun n hn => h n (List.mem_cons_of_mem _ hn)⟩

/-- No heading has the name that a repeated one gets. -/
def NumbersFree (names : List Str) : Prop :=
  ∀ name ∈ names, ∀ n ≤ names.count name, 2 ≤ n → numbered name n ∉ names

instance (names : List Str) : Decidable (NumbersFree names) := by
  unfold NumbersFree
  infer_instance

theorem nodup_headingKeys_iff (names : List Str) : (headingKeys [] names).Nodup ↔ NumbersFree names := by
  have hmem : ∀ {name : Str} {n : Nat}, (name, n) ∈ counted [] names ↔ 0 < n ∧ n ≤ names.count name := by
    intro name n
    rw [mem_counted, List.count_nil, Nat.zero_add]
  constructor
  · intro hnodup name hname n hn htwo hnum
    have hone : (numbered name n, 1) ∈ counted [] names :=
      hmem.mpr ⟨Nat.one_pos, List.count_pos_iff.mpr hnum⟩
    have hbad : (name, n) ∈ counted [] names := hmem.mpr ⟨by omega, hn⟩
    have hkeys : keyOf (numbered name n, 1) = keyOf (name, n) := by
      rw [keyOf, keyOf, if_pos rfl, if_neg (show n ≠ 1 by omega)]
    have heq := List.inj_on_of_nodup_map hnodup hone hbad hkeys
    have : 1 = n := congrArg Prod.snd heq
    omega
  · intro hfree
    -- a first occurrence has no number, and a number tells the name and itself
    have hmixed : ∀ {name name' : Str} {n : Nat}, (name, 1) ∈ counted [] names → (name', n) ∈ counted [] names →
        n ≠ 1 → name = numbered name' n → False := by
      intro name name' n h h' hn he
      obtain ⟨hpos, hle⟩ := hmem.mp h'
      refine hfree name' (List.count_pos_iff.mp (by omega)) n hle (by omega) (he ▸ ?_)
      exact List.count_pos_iff.mp (by have := (hmem.mp h).2; omega)
    refine List.Nodup.map_on ?_ (nodup_counted names [])
    intro x hx y hy he
    obtain ⟨name, n⟩ := x
    obtain ⟨name', n'⟩ := y
    simp only [keyOf] at he
    by_cases h : n = 1
    · subst h
      by_cases h' : n' = 1
      · subst h'
        rw [if_pos rfl, if_pos rfl] at he
        rw [he]
      · rw [if_pos rfl, if_neg h'] at he
        exact (hmixed hx hy h' he).elim
    · by_cases h' : n' = 1
      · subst h'
        rw [if_neg h, if_pos rfl] at he
        exact (hmixed hy hx h he.symm).elim
      · rw [if_neg h, if_neg h'] at he
        obtain ⟨rfl, rfl⟩ := numbered_inj he
        rfl

/-! ## What is filed -/

/-- A key put in a list of keys that has it once at most. -/
def insertKey (keys : List Str) (key : Str) : List Str := if key ∈ keys then keys else keys ++ [key]

theorem map_fst_assignEmpty (filed : List Section) (key : Str) :
    (assignEmpty filed key).map Prod.fst = insertKey (filed.map Prod.fst) key := by
  have hany : (filed.any fun s => s.1 = key) = decide (key ∈ filed.map Prod.fst) := by
    rw [Bool.eq_iff_iff]
    simp [List.any_eq_true]
  rw [assignEmpty, insertKey, hany]
  by_cases h : key ∈ filed.map Prod.fst
  · rw [if_pos (by simpa using h), if_pos h, List.map_map]
    refine List.map_congr_left fun s _ => ?_
    by_cases he : s.1 = key
    · simp [he]
    · simp [he]
  · rw [if_neg (by simpa using h), if_neg h, List.map_append]
    rfl

theorem map_fst_appendLine (filed : List Section) (key line : Str) :
    (appendLine filed key line).map Prod.fst = filed.map Prod.fst := by
  rw [appendLine, List.map_map]
  refine List.map_congr_left fun s _ => ?_
  by_cases he : s.1 = key
  · simp [he]
  · simp [he]

theorem map_fst_file (items : List Item) (f : Filing) :
    (items.foldl Filing.file f).sections.map Prod.fst =
      (headingKeys f.seen (headingNames items)).foldl insertKey (f.sections.map Prod.fst) := by
  induction items generalizing f with
  | nil => rfl
  | cons item items ih =>
    rw [List.foldl_cons, ih]
    cases item with
    | heading name =>
      rw [headingNames_heading, headingKeys_cons, List.foldl_cons]
      simp only [Filing.file, map_fst_assignEmpty]
    | text line => simp only [Filing.file, map_fst_appendLine, headingNames_text]

theorem nodup_snoc {keys : List Str} {key : Str} (h : keys.Nodup) (hkey : key ∉ keys) : (keys ++ [key]).Nodup :=
  List.nodup_append.mpr ⟨h, List.nodup_singleton key, fun _ ha _ hb he =>
    hkey (List.mem_singleton.mp hb ▸ he ▸ ha)⟩

/-- As many keys as were put in are there only when no two of them are the same. -/
theorem length_foldl_insertKey (keys : List Str) : ∀ filed : List Str, filed.Nodup →
    (keys.foldl insertKey filed).length ≤ filed.length + keys.length ∧
      ((keys.foldl insertKey filed).length = filed.length + keys.length ↔ (filed ++ keys).Nodup) := by
  induction keys with
  | nil =>
    intro filed hfiled
    simpa using hfiled
  | cons key keys ih =>
    intro filed hfiled
    rw [List.foldl_cons, insertKey, List.length_cons]
    by_cases h : key ∈ filed
    · rw [if_pos h]
      have hle := (ih filed hfiled).1
      refine ⟨by omega, ⟨fun he => absurd he (by omega), fun hnodup => ?_⟩⟩
      exact absurd rfl ((List.nodup_append.mp hnodup).2.2 key h key List.mem_cons_self)
    · rw [if_neg h]
      obtain ⟨hle, hiff⟩ := ih _ (nodup_snoc hfiled h)
      rw [List.append_assoc, List.singleton_append] at hiff
      rw [List.length_append, List.length_singleton] at hle hiff
      exact ⟨by omega, by rw [← hiff]; omega⟩

/-- The sections of a page whose keys are distinct: a section runs to the next heading. -/
def sectionRuns (key : Str) (lines : List Str) (seen : List Str) : List Item → List Section
  | [] => [(key, lines)]
  | .text line :: items => sectionRuns key (lines ++ [line]) seen items
  | .heading name :: items => (key, lines) :: sectionRuns (headingKey seen name) [] (name :: seen) items

theorem flatMap_sectionRuns (items : List Item) (key : Str) (lines seen : List Str) :
    (sectionRuns key lines seen items).flatMap Prod.snd = lines ++ textLines items := by
  induction items generalizing key lines seen with
  | nil => simp [sectionRuns, textLines]
  | cons item items ih =>
    cases item with
    | heading name => rw [sectionRuns, List.flatMap_cons, ih, textLines_heading, List.nil_append]
    | text line => rw [sectionRuns, ih, textLines_text, List.append_assoc, List.singleton_append]

/-- While the keys are distinct the current section is the last one. -/
theorem file_eq_sectionRuns (items : List Item) (done : List Section) (key : Str) (lines seen : List Str)
    (h : (done.map Prod.fst ++ key :: headingKeys seen (headingNames items)).Nodup) :
    (items.foldl Filing.file ⟨done ++ [(key, lines)], seen, key⟩).sections = done ++ sectionRuns key lines seen items := by
  induction items generalizing done key lines seen with
  | nil => rfl
  | cons item items ih =>
    have hdone : ∀ s ∈ done, s.1 ≠ key := fun s hs =>
      (List.nodup_append.mp h).2.2 s.1 (List.mem_map_of_mem hs) key List.mem_cons_self
    rw [List.foldl_cons]
    cases item with
    | heading name =>
      rw [headingNames_heading, headingKeys_cons] at h
      have hnew : ∀ s ∈ done ++ [(key, lines)], s.1 ≠ headingKey seen name := by
        intro s hs
        have h' : ((done ++ [(key, lines)]).map Prod.fst ++
            headingKey seen name :: headingKeys (name :: seen) (headingNames items)).Nodup := by simpa using h
        exact (List.nodup_append.mp h').2.2 s.1 (List.mem_map_of_mem hs) _ List.mem_cons_self
      have hfile : Filing.file ⟨done ++ [(key, lines)], seen, key⟩ (.heading name) =
          ⟨(done ++ [(key, lines)]) ++ [(headingKey seen name, [])], name :: seen, headingKey seen name⟩ := by
        simp only [Filing.file, assignEmpty]
        rw [if_neg fun hany => ?_]
        obtain ⟨s, hs, he⟩ := List.any_eq_true.mp hany
        exact hnew s hs (by simpa using he)
      rw [hfile, ih _ _ _ _ (by simpa using h), sectionRuns, List.append_assoc, List.singleton_append]
    | text line =>
      have hfile : Filing.file ⟨done ++ [(key, lines)], seen, key⟩ (.text line) =
          ⟨done ++ [(key, lines ++ [line])], seen, key⟩ := by
        simp only [Filing.file, appendLine, List.map_append, List.map_cons, List.map_nil, if_pos]
        congr 2
        exact (List.map_congr_left fun s hs => if_neg (hdone s hs)).trans (List.map_id _)
      rw [hfile, ih _ _ _ _ (by simpa using h), sectionRuns]

/-! ## The preamble -/

/-- Under a heading the section of the preamble stays as it is. -/
theorem head_file (items : List Item) (f : Filing) (pre : List Str) (rest : List Section)
    (hcurrent : f.current ≠ []) (hsections : f.sections = ([], pre) :: rest)
    (hnames : ∀ name ∈ headingNames items, name ≠ []) :
    ∃ rest', (items.foldl Filing.file f).sections = ([], pre) :: rest' := by
  induction items generalizing f rest with
  | nil => exact ⟨rest, hsections⟩
  | cons item items ih =>
    rw [List.foldl_cons]
    cases item with
    | heading name =>
      have hkey : headingKey f.seen name ≠ [] := headingKey_ne_nil _ (hnames name List.mem_cons_self)
      have hassign : ∃ rest', assignEmpty f.sections (headingKey f.seen name) = ([], pre) :: rest' := by
        rw [hsections, assignEmpty]
        split
        · exact ⟨_, by rw [List.map_cons, if_neg (Ne.symm hkey)]⟩
        · exact ⟨_, rfl⟩
      obtain ⟨rest', hrest'⟩ := hassign
      exact ih (f.file (.heading name)) rest' hkey hrest' fun n hn => hnames n (List.mem_cons_of_mem _ hn)
    | text line =>
      refine ih (f.file (.text line)) (appendLine rest f.current line) hcurrent ?_ hnames
      rw [Filing.file, hsections]
      exact congrArg (· :: _) (if_neg (Ne.symm hcurrent))

theorem preamble_file (items : List Item) (pre : List Str) (hnames : ∀ name ∈ headingNames items, name ≠ []) :
    ∃ rest, (items.foldl Filing.file ⟨[([], pre)], [], []⟩).sections = ([], pre ++ preamble items) :: rest := by
  induction items generalizing pre with
  | nil => exact ⟨[], by rw [show preamble [] = [] from rfl, List.append_nil]; rfl⟩
  | cons item items ih =>
    rw [List.foldl_cons]
    cases item with
    | heading name =>
      have hkey : headingKey [] name ≠ [] := headingKey_ne_nil _ (hnames name List.mem_cons_self)
      have hfile : Filing.file ⟨[([], pre)], [], []⟩ (.heading name) =
          ⟨[([], pre), (headingKey [] name, [])], [name], headingKey [] name⟩ := by
        simp only [Filing.file, assignEmpty]
        rw [if_neg]
        · rfl
        · simpa using Ne.symm hkey
      rw [hfile, preamble, List.append_nil]
      exact head_file items _ pre _ hkey rfl fun n hn => hnames n (List.mem_cons_of_mem _ hn)
    | text line =>
      have hfile : Filing.file ⟨[([], pre)], [], []⟩ (.text line) = ⟨[([], pre ++ [line])], [], []⟩ := rfl
      rw [hfile, preamble, List.append_cons pre line (preamble items)]
      exact ih (pre ++ [line]) hnames

/-- A title is not empty, nor is a path of titles. -/
theorem headingTitle_ne_nil (rest : Str) : headingTitle rest ≠ [] := by
  simp only [headingTitle]
  split
  · decide
  · rename_i h
    simpa using h

theorem intercalate_ne_nil {sep : Str} {parts : List Str} (hne : parts ≠ []) (h : ∀ part ∈ parts, part ≠ []) :
    sep.intercalate parts ≠ [] := by
  cases parts with
  | nil => exact absurd rfl hne
  | cons part parts =>
    have hpart := h part List.mem_cons_self
    cases parts with
    | nil => simpa [List.intercalate] using hpart
    | cons next parts => simp [List.intercalate, List.intersperse, hpart]

theorem ne_nil_of_mem_headingNames (lines : List Str) : ∀ l : Layout, (∀ entry ∈ l.path, entry.2 ≠ []) →
    ∀ name ∈ headingNames (l.items lines), name ≠ [] := by
  induction lines with
  | nil => exact fun _ _ name hname => absurd hname (List.not_mem_nil)
  | cons line lines ih =>
    intro l hpath name hname
    rw [Layout.items, Layout.item] at hname
    cases h : l.heading line with
    | none =>
      rw [h] at hname
      exact ih ⟨l.path, l.fenceAfter line⟩ hpath name hname
    | some entry =>
      obtain ⟨level, rest⟩ := entry
      have hafter : ∀ entry ∈ l.pathAfter level rest, entry.2 ≠ [] := by
        intro entry he
        rcases List.mem_append.mp he with he | he
        · exact hpath entry (List.mem_filter.mp he).1
        · rw [List.mem_singleton.mp he]
          exact headingTitle_ne_nil rest
      rw [h] at hname
      rcases List.mem_cons.mp hname with hname | hname
      · rw [hname]
        refine intercalate_ne_nil (by simp [Layout.pathAfter]) fun part hpart => ?_
        obtain ⟨entry, he, rfl⟩ := List.mem_map.mp hpart
        exact hafter entry he
      · exact ih ⟨l.pathAfter level rest, l.fenceAfter line⟩ hafter name hname

/-! ## Nothing is lost -/

theorem heading_name_ne_nil {page : Str} (name : Str) (h : name ∈ headingNames (pageItems page)) : name ≠ [] := by
  have hpath : ∀ entry ∈ (Layout.mk [] none).path, entry.2 ≠ [] := by
    intro entry he
    cases he
  exact ne_nil_of_mem_headingNames (splitLines (normalize page)) (Layout.mk [] none) hpath name h

theorem filed_eq_preamble (page : Str) : ∃ rest, filed page = ([], preamble (pageItems page)) :: rest := by
  obtain ⟨rest, hrest⟩ := preamble_file (pageItems page) [] heading_name_ne_nil
  rw [List.nil_append] at hrest
  exact ⟨rest, hrest⟩

theorem map_fst_filed (page : Str) :
    (filed page).map Prod.fst = (headingKeys [] (headingNames (pageItems page))).foldl insertKey [[]] := by
  rw [filed, map_fst_file]
  rfl

theorem nodup_foldl_insertKey (keys : List Str) : ∀ filed : List Str, filed.Nodup →
    (keys.foldl insertKey filed).Nodup := by
  induction keys with
  | nil => exact fun _ h => h
  | cons key keys ih =>
    intro filed hfiled
    rw [List.foldl_cons, insertKey]
    split
    · exact ih _ hfiled
    · rename_i h
      exact ih _ (nodup_snoc hfiled h)

theorem nodup_map_fst_filed (page : Str) : ((filed page).map Prod.fst).Nodup := by
  rw [map_fst_filed]
  exact nodup_foldl_insertKey _ _ (List.nodup_singleton _)

/-- Only the preamble is dropped, and only when it is empty. -/
theorem sections_eq_preamble (page : Str) : ∃ rest, filed page = ([], preamble (pageItems page)) :: rest ∧
    sections page = (if (preamble (pageItems page)).isEmpty then rest else ([], preamble (pageItems page)) :: rest) := by
  obtain ⟨rest, hrest⟩ := filed_eq_preamble page
  refine ⟨rest, hrest, ?_⟩
  have hkept : rest.filter (fun s => !(s.1.isEmpty && s.2.isEmpty)) = rest := by
    refine List.filter_eq_self.mpr fun s hs => ?_
    have hnodup := nodup_map_fst_filed page
    rw [hrest, List.map_cons, List.nodup_cons] at hnodup
    have hne : s.1 ≠ [] := by
      intro he
      exact hnodup.1 (List.mem_map.mpr ⟨s, hs, he⟩)
    simp [hne]
  rw [sections_eq_filed, hrest, List.filter_cons, hkept]
  cases (preamble (pageItems page)).isEmpty with
  | false => rfl
  | true => rfl

/-- A section for each heading, one more for a preamble with lines, and in their bodies
every other line once, in page order. -/
def Lossless (page : Str) : Prop :=
  (sections page).length =
      (headingNames (pageItems page)).length + (if (preamble (pageItems page)).isEmpty then 0 else 1) ∧
    (sections page).flatMap Prod.snd = textLines (pageItems page)

instance (page : Str) : Decidable (Lossless page) := by
  unfold Lossless
  infer_instance

theorem nil_not_mem_headingKeys_page (page : Str) : [] ∉ headingKeys [] (headingNames (pageItems page)) :=
  nil_not_mem_headingKeys _ _ heading_name_ne_nil

theorem filed_eq_sectionRuns {page : Str} (h : NumbersFree (headingNames (pageItems page))) :
    filed page = sectionRuns [] [] [] (pageItems page) := by
  have hnodup : ([] :: headingKeys [] (headingNames (pageItems page))).Nodup :=
    List.nodup_cons.mpr ⟨nil_not_mem_headingKeys_page page, (nodup_headingKeys_iff _).mpr h⟩
  have hsections := file_eq_sectionRuns (pageItems page) [] [] [] []
  rw [List.map_nil, List.nil_append, List.nil_append, List.nil_append] at hsections
  exact hsections hnodup

/-- Every heading has a section of its own exactly when the keys are distinct. -/
theorem length_filed_iff (page : Str) :
    (filed page).length = 1 + (headingNames (pageItems page)).length ↔
      NumbersFree (headingNames (pageItems page)) := by
  have hlen := (length_foldl_insertKey (headingKeys [] (headingNames (pageItems page))) [[]]
    (List.nodup_singleton _)).2
  rw [← map_fst_filed, List.length_map, length_headingKeys, List.length_singleton, List.singleton_append,
    List.nodup_cons, and_iff_right (nil_not_mem_headingKeys_page page), nodup_headingKeys_iff] at hlen
  exact hlen

/-- The page keeps what it has exactly when no heading has the name that a repeated one
gets. -/
theorem lossless_iff (page : Str) : Lossless page ↔ NumbersFree (headingNames (pageItems page)) := by
  obtain ⟨rest, hfiled, hsections⟩ := sections_eq_preamble page
  have hcount := length_filed_iff page
  rw [hfiled, List.length_cons] at hcount
  rw [Lossless, hsections, ← hcount]
  constructor
  · intro h
    have hlen := h.1
    split at hlen
    · omega
    · rw [List.length_cons] at hlen
      omega
  · intro h
    have hbodies := flatMap_sectionRuns (pageItems page) [] [] []
    rw [← filed_eq_sectionRuns (hcount.mp h), hfiled, List.flatMap_cons, List.nil_append] at hbodies
    by_cases hpre : (preamble (pageItems page)).isEmpty
    · rw [if_pos hpre, if_pos hpre]
      rw [List.isEmpty_iff.mp hpre, List.nil_append] at hbodies
      exact ⟨by omega, hbodies⟩
    · rw [if_neg hpre, if_neg hpre]
      exact ⟨by rw [List.length_cons]; omega, by rw [List.flatMap_cons]; exact hbodies⟩

/-- A heading that is named as the number of another is overwritten by it. -/
theorem lossless_numbered_heading :
    ¬ Lossless "# A\n1\n# A (2)\n2\n# A\n3".toList := by
  decide +kernel

end CiteVyn.Watch
