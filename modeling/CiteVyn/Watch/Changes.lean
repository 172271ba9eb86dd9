import CiteVyn.Watch.Sections
import Mathlib.Data.List.Count
import Mathlib.Data.List.DropRight

/-! # What a change says

The normal form is a fixed point, the counts and the lists of `section_changes` are
those of two dictionaries and two multisets, and `changed_lines` lists the differences
of the multisets under one budget. -/
namespace CiteVyn.Watch
open CiteVyn.Lib.Scan CiteVyn.Text

/-! ## The normal form -/

/-- The normalized lines of a page. -/
def pageLines (page : Str) : List Str := splitLines (normalize page)

/-- The lines that `normalize` joins. -/
def normalLines (text : Str) : List Str := popBlank (squeeze true ((splitLines (unixText text)).map rstrip))

theorem not_mem_unixText (text : Str) : '\r' ∉ unixText text := by
  rw [unixText, replace_singleton]
  intro h
  obtain ⟨c, _, hc⟩ := List.mem_flatMap.mp h
  by_cases he : c = '\r'
  · rw [he] at hc
    exact absurd hc (by decide)
  · rw [if_neg (by simpa using he)] at hc
    exact he (List.mem_singleton.mp hc).symm

theorem unixText_of_not_mem {text : Str} (h : '\r' ∉ text) : unixText text = text := by
  rw [unixText, replace_of_not_mem ['\n'] ['\n'] h, replace_of_not_mem [] ['\n'] h]

/-- No blank line at the start, when `blank`, and no two in a row. -/
def Squeezed : Bool → List Str → Prop
  | _, [] => True
  | blank, line :: lines => (line.isEmpty && blank) = false ∧ Squeezed line.isEmpty lines

theorem squeezed_squeeze (lines : List Str) : ∀ blank, Squeezed blank (squeeze blank lines) := by
  induction lines with
  | nil => exact fun _ => trivial
  | cons line lines ih =>
    intro blank
    rw [squeeze]
    split
    · exact ih blank
    · rename_i h
      exact ⟨by simpa using h, ih _⟩

theorem squeeze_of_squeezed (lines : List Str) : ∀ {blank}, Squeezed blank lines → squeeze blank lines = lines := by
  induction lines with
  | nil => exact fun _ => rfl
  | cons line lines ih =>
    intro blank h
    rw [squeeze, h.1, if_neg Bool.false_ne_true, ih h.2]

theorem Squeezed.left (lines rest : List Str) : ∀ {blank}, Squeezed blank (lines ++ rest) → Squeezed blank lines := by
  induction lines with
  | nil => exact fun _ => trivial
  | cons line lines ih => exact fun h => ⟨h.1, ih h.2⟩

theorem popBlank_isPrefix (lines : List Str) : popBlank lines <+: lines := List.rdropWhile_prefix _ _

theorem squeeze_sublist (lines : List Str) : ∀ blank, (squeeze blank lines).Sublist lines := by
  induction lines with
  | nil => exact fun _ => List.Sublist.refl _
  | cons line lines ih =>
    intro blank
    rw [squeeze]
    split
    · exact (ih blank).cons line
    · exact (ih _).cons_cons line

theorem mem_normalLines {text line : Str} (h : line ∈ normalLines text) :
    ∃ raw ∈ splitLines (unixText text), rstrip raw = line := by
  have hmap := (squeeze_sublist _ true).subset ((popBlank_isPrefix _).subset h)
  exact List.mem_map.mp hmap

theorem plain_normalLines {text line : Str} (h : line ∈ normalLines text) :
    '\n' ∉ line ∧ '\r' ∉ line ∧ rstrip line = line := by
  obtain ⟨raw, hraw, rfl⟩ := mem_normalLines h
  obtain ⟨hnewline, hsubset⟩ := mem_splitOn hraw
  have hstarts := (rstrip_isPrefix raw).subset
  exact ⟨fun hc => hnewline (hstarts hc), fun hc => not_mem_unixText text (hsubset (hstarts hc)), rstrip_rstrip raw⟩

/-- The normalized lines are those that were joined, or one empty line. -/
theorem pageLines_eq (text : Str) : pageLines text = if normalLines text = [] then [[]] else normalLines text := by
  rw [pageLines, normalize, ← normalLines]
  split
  · rename_i h
    rw [h]
    rfl
  · rename_i h
    exact List.splitOn_intercalate '\n' (fun line hline => (plain_normalLines hline).1) h

theorem not_mem_joinLines {c : Char} (hc : c ≠ '\n') : ∀ {lines : List Str}, (∀ line ∈ lines, c ∉ line) →
    c ∉ joinLines lines
  | [], _ => List.not_mem_nil
  | [line], h => by
    rw [joinLines, List.intercalate_singleton]
    exact h line List.mem_cons_self
  | line :: next :: lines, h => by
    have hrest := not_mem_joinLines hc fun l hl => h l (List.mem_cons_of_mem line hl)
    rw [joinLines, List.intercalate_cons_cons, List.mem_append, List.mem_append, not_or, not_or]
    exact ⟨⟨h line List.mem_cons_self, by simpa using hc⟩, hrest⟩

theorem not_mem_normalize (text : Str) : '\r' ∉ normalize text :=
  not_mem_joinLines (by decide) fun _ hline => (plain_normalLines hline).2.1

/-- `normalize` has nothing left to do once it is done. -/
theorem normalize_normalize (text : Str) : normalize (normalize text) = normalize text := by
  have hlines : splitLines (unixText (normalize text)) = pageLines text := by
    rw [unixText_of_not_mem (not_mem_normalize text), pageLines]
  rw [normalize, hlines, pageLines_eq]
  split
  · rename_i h
    rw [normalize, ← normalLines, h]
    rfl
  · have hstrip : (normalLines text).map rstrip = normalLines text :=
      (List.map_congr_left fun line hline => (plain_normalLines hline).2.2).trans (List.map_id _)
    have hsqueezed : Squeezed true (normalLines text) := by
      obtain ⟨rest, hrest⟩ := popBlank_isPrefix (squeeze true ((splitLines (unixText text)).map rstrip))
      exact Squeezed.left _ rest (hrest ▸ squeezed_squeeze _ true)
    have hpop : popBlank (normalLines text) = normalLines text := List.rdropWhile_idempotent _ _
    rw [hstrip, squeeze_of_squeezed _ hsqueezed, hpop, normalize, normalLines]

/-! ## The summary -/

/-- The summary says nothing. -/
def Summary.Empty (s : Summary) : Prop :=
  s.changed = [] ∧ s.added = [] ∧ s.removed = [] ∧ s.linesAdded = 0 ∧ s.linesRemoved = 0

instance (s : Summary) : Decidable s.Empty := by
  unfold Summary.Empty
  infer_instance

theorem nodup_map_fst_sections (page : Str) : ((sections page).map Prod.fst).Nodup := by
  rw [sections_eq_filed]
  exact (nodup_map_fst_filed page).sublist (List.filter_sublist.map Prod.fst)

/-- A section is found under its key. -/
theorem body_eq_some {filed : List Section} (h : (filed.map Prod.fst).Nodup) {s : Section} :
    body filed s.1 = some s.2 ↔ s ∈ filed := by
  induction filed with
  | nil => simp [body]
  | cons first filed ih =>
    rw [List.map_cons, List.nodup_cons] at h
    rw [body, List.find?_cons]
    by_cases hkey : first.1 = s.1
    · have hnew : s ∉ filed := fun hs => h.1 (hkey ▸ List.mem_map_of_mem hs)
      rw [decide_eq_true hkey, List.mem_cons]
      constructor
      · intro hbody
        exact .inl (Prod.ext hkey.symm (Option.some.inj hbody).symm)
      · intro hs
        rcases hs with rfl | hs
        · rfl
        · exact absurd hs hnew
    · rw [decide_eq_false hkey, List.mem_cons, or_iff_right fun he : s = first => hkey (congrArg Prod.fst he).symm,
        ← ih h.2]
      rfl

theorem take_maxListed {keys : List Str} : keys.take maxListed = [] ↔ keys = [] := by
  rw [List.take_eq_nil_iff, or_iff_right (by decide)]

theorem map_filter_eq_nil {filed : List Section} {p : Section → Bool} :
    (filed.filter p).map Prod.fst = [] ↔ ∀ s ∈ filed, p s = false := by
  rw [List.map_eq_nil_iff, List.filter_eq_nil_iff]
  simp

theorem length_diff_eq_zero {before after : List Str} :
    (after.diff before).length = 0 ∧ (before.diff after).length = 0 ↔ before.Perm after := by
  rw [List.length_eq_zero_iff, List.length_eq_zero_iff, List.perm_iff_count]
  constructor
  · intro h line
    have hafter := congrArg (List.count line) h.1
    have hbefore := congrArg (List.count line) h.2
    rw [List.count_diff, List.count_nil] at hafter hbefore
    omega
  · intro h
    refine ⟨?_, ?_⟩
    · refine List.eq_nil_iff_forall_not_mem.mpr fun line hline => ?_
      have hpos := List.count_pos_iff.mpr hline
      rw [List.count_diff, h line] at hpos
      omega
    · refine List.eq_nil_iff_forall_not_mem.mpr fun line hline => ?_
      have hpos := List.count_pos_iff.mpr hline
      rw [List.count_diff, h line] at hpos
      omega

/-- The summary says nothing exactly when the one page has the lines of the other and the
sections of the other, in whatever order. -/
theorem sectionChanges_empty_iff (old new : Str) :
    (sectionChanges old new).Empty ↔ (sections old).Perm (sections new) ∧ (pageLines old).Perm (pageLines new) := by
  have hold := nodup_map_fst_sections old
  have hnew := nodup_map_fst_sections new
  simp only [Summary.Empty, sectionChanges, take_maxListed, map_filter_eq_nil]
  rw [length_diff_eq_zero, ← pageLines, ← pageLines]
  constructor
  · intro h
    obtain ⟨hchanged, hadded, hremoved, hlines⟩ := h
    have hsubset : ∀ s ∈ sections new, s ∈ sections old := by
      intro s hs
      obtain ⟨lines, hlines⟩ := Option.isSome_iff_exists.mp (Option.isNone_eq_false_iff.mp (hadded s hs))
      have hsame := hchanged s hs
      rw [hlines] at hsame
      exact (body_eq_some hold).mp (hlines.trans (congrArg some (by simpa using hsame)))
    refine ⟨(List.perm_ext_iff_of_nodup hold.of_map hnew.of_map).mpr fun s => ⟨fun hs => ?_, hsubset s⟩, hlines⟩
    obtain ⟨lines, hlines⟩ := Option.isSome_iff_exists.mp (Option.isNone_eq_false_iff.mp (hremoved s hs))
    have hfound : (s.1, lines) ∈ sections new := (body_eq_some (s := (s.1, lines)) hnew).mp hlines
    have heq := List.inj_on_of_nodup_map hold hs (hsubset _ hfound) rfl
    rw [heq]
    exact hfound
  · intro h
    obtain ⟨hsections, hlines⟩ := h
    have hfound : ∀ s ∈ sections new, body (sections old) s.1 = some s.2 := fun s hs =>
      (body_eq_some hold).mpr (hsections.mem_iff.mpr hs)
    have hfound' : ∀ s ∈ sections old, body (sections new) s.1 = some s.2 := fun s hs =>
      (body_eq_some hnew).mpr (hsections.mem_iff.mp hs)
    refine ⟨fun s hs => ?_, fun s hs => ?_, fun s hs => ?_, hlines⟩
    · rw [hfound s hs]
      simp
    · rw [hfound s hs]
      rfl
    · rw [hfound' s hs]
      rfl

/-- Two sections that change places are a change of the page of which nothing is said. -/
theorem sectionChanges_moved :
    normalize "# A\na\n# B\nb".toList ≠ normalize "# B\nb\n# A\na".toList ∧
      (sectionChanges "# A\na\n# B\nb".toList "# B\nb\n# A\na".toList).Empty := by
  decide +kernel

theorem sectionChanges_self (page : Str) : sectionChanges page page = ⟨[], [], [], 0, 0, 0⟩ := by
  have hempty := (sectionChanges_empty_iff page page).mpr ⟨List.Perm.refl _, List.Perm.refl _⟩
  simp only [Summary.Empty, sectionChanges, take_maxListed] at hempty
  obtain ⟨hchanged, hadded, hremoved, hplus, hminus⟩ := hempty
  simp only [sectionChanges, hchanged, hadded, hplus]
  rfl

theorem sectionChanges_linesAdded (old new : Str) :
    (sectionChanges old new).linesAdded = ((pageLines new).diff (pageLines old)).length := by
  simp only [sectionChanges, pageLines]

theorem sectionChanges_linesRemoved (old new : Str) :
    (sectionChanges old new).linesRemoved = ((pageLines old).diff (pageLines new)).length := by
  simp only [sectionChanges, pageLines]

theorem length_diff_add (before after : List Str) :
    (after.diff before).length + before.length = (before.diff after).length + after.length := by
  rw [← List.length_append, ← List.length_append]
  refine List.Perm.length_eq (List.perm_iff_count.mpr fun line => ?_)
  rw [List.count_append, List.count_append, List.count_diff, List.count_diff]
  omega

/-! ## The lines -/

/-- `bool(line.strip())`. -/
def nonBlank (line : Str) : Bool := !(strip line).isEmpty

/-- What is listed comes from the difference, takes up the budget that is gone, and is all
of it unless the budget ran out. -/
theorem extra_spec (lines : List Str) : ∀ (budget : Nat) (left : List Str),
    (extra budget left lines).1.Sublist ((lines.diff left).filter nonBlank) ∧
      ((extra budget left lines).1.map List.length).sum + (extra budget left lines).2.1 = budget ∧
      ((extra budget left lines).2.2 = false → (extra budget left lines).1 = (lines.diff left).filter nonBlank) := by
  induction lines with
  | nil =>
    intro budget left
    rw [List.nil_diff]
    exact ⟨List.Sublist.refl _, Nat.zero_add _, fun _ => rfl⟩
  | cons line lines ih =>
    intro budget left
    rw [extra, List.cons_diff]
    by_cases hleft : line ∈ left
    · rw [if_pos hleft, if_pos hleft]
      exact ih budget _
    · rw [if_neg hleft, if_neg hleft, List.filter_cons, nonBlank]
      cases hblank : (strip line).isEmpty with
      | true => exact ih budget left
      | false =>
        rw [if_neg Bool.false_ne_true, Bool.not_false, if_pos rfl]
        by_cases hbudget : budget < line.length
        · rw [if_pos hbudget]
          exact ⟨List.nil_sublist _, Nat.zero_add _, fun h => Bool.noConfusion h⟩
        · rw [if_neg hbudget]
          obtain ⟨hsublist, hsum, hall⟩ := ih (budget - line.length) left
          refine ⟨hsublist.cons_cons line, ?_, fun h => congrArg (line :: ·) (hall h)⟩
          rw [List.map_cons, List.sum_cons, Nat.add_assoc, hsum]
          omega

/-- `lines` are the lines of a page that another does not have as often, in page order
and without the blank ones. -/
structure Difference (lines page other : List Str) : Prop where
  order : lines.Sublist page
  count : ∀ line, lines.count line = if nonBlank line then page.count line - other.count line else 0

theorem difference_filter_diff (page other : List Str) :
    Difference ((page.diff other).filter nonBlank) page other where
  order := List.filter_sublist.trans (List.diff_sublist page other)
  count line := by
    cases h : nonBlank line with
    | true => rw [List.count_filter h, List.count_diff, if_pos rfl]
    | false =>
      rw [if_neg Bool.false_ne_true, List.count_eq_zero]
      intro hmem
      rw [(List.mem_filter.mp hmem).2] at h
      exact Bool.noConfusion h

/-- `line` is a line of the page, and not a blank one. -/
def Whole (page : Str) (line : Str) : Prop := line ∈ pageLines page ∧ nonBlank line = true

theorem whole_of_sublist {lines other : List Str} {page : Str}
    (h : lines.Sublist (((pageLines page).diff other).filter nonBlank)) : ∀ line ∈ lines, Whole page line := by
  intro line hline
  obtain ⟨hdiff, hblank⟩ := List.mem_filter.mp (h.subset hline)
  exact ⟨List.diff_subset _ _ hdiff, hblank⟩

theorem changedLines_eq (old new : Str) :
    changedLines old new =
      let added := extra maxChangedChars (pageLines old) (pageLines new)
      let removed := extra added.2.1 (pageLines new) (pageLines old)
      ⟨added.1, removed.1, added.2.2 || removed.2.2⟩ := by
  simp only [changedLines, pageLines]

theorem changedLines_spec (old new : Str) :
    (∀ line ∈ (changedLines old new).added, Whole new line) ∧
      (∀ line ∈ (changedLines old new).removed, Whole old line) ∧
      ((changedLines old new).added.map List.length).sum + ((changedLines old new).removed.map List.length).sum ≤
        maxChangedChars ∧
      ((changedLines old new).truncated = false →
        Difference (changedLines old new).added (pageLines new) (pageLines old) ∧
          Difference (changedLines old new).removed (pageLines old) (pageLines new)) := by
  obtain ⟨hadded, hsum, hall⟩ := extra_spec (pageLines new) maxChangedChars (pageLines old)
  obtain ⟨hremoved, hsum', hall'⟩ := extra_spec (pageLines old)
    (extra maxChangedChars (pageLines old) (pageLines new)).2.1 (pageLines new)
  simp only [changedLines_eq]
  refine ⟨whole_of_sublist hadded, whole_of_sublist hremoved, ?_, fun h => ?_⟩
  · omega
  · obtain ⟨hran, hran'⟩ := Bool.or_eq_false_iff.mp h
    rw [hall hran, hall' hran']
    exact ⟨difference_filter_diff _ _, difference_filter_diff _ _⟩

/-- The laws of `normalize`, `section_changes` and `changed_lines`. -/
theorem watch_changes_laws (old new : Str) :
    normalize (normalize old) = normalize old ∧
      sectionChanges old old = ⟨[], [], [], 0, 0, 0⟩ ∧
      ((sectionChanges old new).linesAdded : Int) - (sectionChanges old new).linesRemoved =
        (pageLines new).length - (pageLines old).length ∧
      ((sectionChanges new old).linesAdded = (sectionChanges old new).linesRemoved ∧
        (sectionChanges new old).linesRemoved = (sectionChanges old new).linesAdded ∧
        (sectionChanges new old).added = (sectionChanges old new).removed ∧
        (sectionChanges new old).removed = (sectionChanges old new).added) ∧
      (∀ line ∈ (changedLines old new).added, Whole new line) ∧
      (∀ line ∈ (changedLines old new).removed, Whole old line) ∧
      ((changedLines old new).added.map List.length).sum + ((changedLines old new).removed.map List.length).sum ≤
        maxChangedChars ∧
      ((changedLines old new).truncated = false →
        Difference (changedLines old new).added (pageLines new) (pageLines old) ∧
          Difference (changedLines old new).removed (pageLines old) (pageLines new)) := by
  have hcounts : (sectionChanges old new).linesAdded + (pageLines old).length =
      (sectionChanges old new).linesRemoved + (pageLines new).length := by
    rw [sectionChanges_linesAdded, sectionChanges_linesRemoved]
    exact length_diff_add (pageLines old) (pageLines new)
  exact ⟨normalize_normalize old, sectionChanges_self old, by omega, ⟨rfl, rfl, rfl, rfl⟩, changedLines_spec old new⟩

end CiteVyn.Watch
