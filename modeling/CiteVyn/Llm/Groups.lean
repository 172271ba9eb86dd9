import CiteVyn.Llm.Markers

/-! # What splitting grouped markers does to the markers

`expand_grouped_markers` edits prose only, so the mask of the expanded text is
the mask of the raw text with the same edits made, and no marker is lost
either way. -/
namespace CiteVyn.Llm
open CiteVyn.Lib.Scan CiteVyn.Text

/-! ## What a group is -/

/-- What the brackets of a group hold. -/
def isGroupChar (c : Char) : Bool := isAsciiDigit c || c == ',' || isBlank c

theorem groupEnd_spec : ∀ (s : Str) (st : GroupState) (n m : Nat), groupEnd st n s = some m →
    ∃ body rest, s = body ++ ']' :: rest ∧ m = n + body.length + 1 ∧
      body.all isGroupChar = true ∧ (st = .number true ∨ st = .afterComma ∨ ',' ∈ body)
  | [], st, n, m, h => by cases st <;> cases h
  | c :: cs, st, n, m, h => by
    -- one more character of the group, the rest of it read from state `st'`
    have step (st' : GroupState) (hc : isGroupChar c = true) (h' : groupEnd st' (n + 1) cs = some m)
        (hst : st' = .number true ∨ st' = .afterComma →
          st = .number true ∨ st = .afterComma ∨ c = ',') :
        ∃ body rest, c :: cs = body ++ ']' :: rest ∧ m = n + body.length + 1 ∧
          body.all isGroupChar = true ∧ (st = .number true ∨ st = .afterComma ∨ ',' ∈ body) := by
      obtain ⟨body, rest, rfl, rfl, hall, hcomma⟩ := groupEnd_spec cs st' (n + 1) m h'
      refine ⟨c :: body, rest, rfl, by simp; omega, by simp [hc, hall], ?_⟩
      rcases hcomma with h1 | h1 | h1
      · rcases hst (.inl h1) with h2 | h2 | h2
        · exact .inl h2
        · exact .inr (.inl h2)
        · exact .inr (.inr (by simp [h2]))
      · rcases hst (.inr h1) with h2 | h2 | h2
        · exact .inl h2
        · exact .inr (.inl h2)
        · exact .inr (.inr (by simp [h2]))
      · exact .inr (.inr (List.mem_cons_of_mem _ h1))
    cases st with
    | start =>
      simp only [groupEnd] at h
      split at h
      · rename_i hd
        exact step _ (by simp [isGroupChar, hd]) h (by simp)
      · cases h
    | number comma =>
      simp only [groupEnd] at h
      split at h
      · rename_i hd
        exact step _ (by simp [isGroupChar, hd]) h (by simpa using .inl)
      split at h
      · rename_i hc
        exact step _ (by simp [isGroupChar, hc]) h (fun _ => .inr (.inr (by simpa using hc)))
      split at h
      · rename_i hb
        exact step _ (by simp [isGroupChar, hb]) h (by simp)
      split at h
      · rename_i hclose
        simp only [Bool.and_eq_true, beq_iff_eq] at hclose
        obtain ⟨rfl, rfl⟩ := hclose
        exact ⟨[], cs, rfl, by simpa using (Option.some.inj h).symm, rfl, .inl rfl⟩
      · cases h
    | beforeComma =>
      simp only [groupEnd] at h
      split at h
      · rename_i hb
        exact step _ (by simp [isGroupChar, hb]) h (by simp)
      split at h
      · rename_i hc
        exact step _ (by simp [isGroupChar, hc]) h (fun _ => .inr (.inr (by simpa using hc)))
      · cases h
    | afterComma =>
      simp only [groupEnd] at h
      split at h
      · rename_i hb
        exact step _ (by simp [isGroupChar, hb]) h (fun _ => .inr (.inl rfl))
      split at h
      · rename_i hd
        exact step _ (by simp [isGroupChar, hd]) h (fun _ => .inr (.inl rfl))
      · cases h

/-- A grouped marker: brackets around digits, blanks and at least one comma,
the first of them a digit. -/
structure IsGroup (w : Str) : Prop where
  shape : ∃ d body, w = '[' :: d :: body ++ [']'] ∧ isAsciiDigit d = true ∧
    body.all isGroupChar = true ∧ ',' ∈ body

theorem groupedMarker_spec {pre s : Str} {n : Nat} (h : groupedMarker pre s = some n) :
    n ≤ s.length ∧ IsGroup (s.take n) := by
  unfold groupedMarker at h
  match s, h with
  | c :: [], h =>
    simp only at h
    split at h <;> cases h
  | c :: d :: cs, h =>
    simp only at h
    split at h
    · rename_i hc
      obtain rfl : c = '[' := by simpa using hc
      have hd : isAsciiDigit d = true := by
        by_contra hd
        simp [groupEnd, hd] at h
      obtain ⟨body, rest, hs, rfl, hall, hcomma⟩ := groupEnd_spec _ _ _ _ h
      obtain hcomma : ',' ∈ body := by simpa using hcomma
      cases body with
      | nil => cases hcomma
      | cons b body =>
        simp only [List.cons_append, List.cons.injEq] at hs
        obtain ⟨rfl, rfl⟩ := hs
        refine ⟨by simp; omega, d, body, ?_, hd, ?_, ?_⟩
        · have : 1 + (d :: body).length + 1 = ('[' :: d :: body ++ [']']).length := by simp; omega
          rw [this, show '[' :: d :: (body ++ ']' :: rest) =
            ('[' :: d :: body ++ [']']) ++ rest by simp, List.take_left]
        · simp only [List.all_cons, Bool.and_eq_true] at hall
          exact hall.2
        · simp only [List.mem_cons] at hcomma
          rcases hcomma with rfl | h
          · exact absurd hd (by decide)
          · exact h
    · cases h

theorem groupedMarker_sound : Sound groupedMarker := fun _ _ _ h => (groupedMarker_spec h).1

theorem IsGroup.prose {w : Str} (h : IsGroup w) : Prose w := by
  obtain ⟨d, body, rfl, hd, hall, _⟩ := h.shape
  have hdg : isGroupChar d = true := by simp [isGroupChar, hd]
  -- no character of a group is a backtick, a line end or the mask
  have hmem (c : Char) (hc : isGroupChar c = false) (h1 : c ≠ '[') (h2 : c ≠ ']') :
      c ∉ '[' :: d :: body ++ [']'] := by
    intro hin
    simp only [List.cons_append, List.mem_cons, List.mem_append, List.not_mem_nil, or_false] at hin
    rcases hin with rfl | rfl | hin | rfl
    · exact h1 rfl
    · rw [hdg] at hc
      cases hc
    · rw [List.all_eq_true.mp hall c hin] at hc
      cases hc
    · exact h2 rfl
  exact ⟨by simp, hmem _ (by decide) (by decide) (by decide),
    hmem _ (by decide) (by decide) (by decide), hmem _ (by decide) (by decide) (by decide)⟩

/-! ## Brackets cut the scan -/

/-- A stretch from an opening to a closing bracket. -/
def Bracketed (w : Str) : Prop := ∃ body, w = '[' :: body ++ [']']

theorem citations_bracketed {w : Str} (hw : Bracketed w) (p r : Str) :
    citations (p ++ w ++ r) = citations p ++ citations w ++ citations r := by
  obtain ⟨body, rfl⟩ := hw
  rw [citations_append, citations_append]
  · refine separates_right fun c hc => ?_
    obtain rfl : '[' = c := by simpa using hc
    decide
  · refine separates_left fun c hc => ?_
    obtain rfl : ']' = c := by
      rw [← List.append_assoc, List.getLast?_append_of_ne_nil _ (by simp)] at hc
      simpa using hc
    decide

theorem IsGroup.bracketed {w : Str} (h : IsGroup w) : Bracketed w := by
  obtain ⟨d, body, rfl, _⟩ := h.shape
  exact ⟨d :: body, rfl⟩

/-- A group holds no marker: the comma stands in the way. -/
theorem IsGroup.citations_eq_nil {w : Str} (h : IsGroup w) : citations w = [] := by
  obtain ⟨d, body, rfl, hd, hall, hcomma⟩ := h.shape
  have hplain : ∀ c ∈ d :: body, c ≠ '[' ∧ c ≠ ']' := by
    intro c hc
    have hg : isGroupChar c = true := by
      rcases List.mem_cons.mp hc with rfl | hc
      · simp [isGroupChar, hd]
      · exact List.all_eq_true.mp hall c hc
    constructor <;> (rintro rfl; revert hg; decide)
  unfold citations findall pieces
  rw [hits_piecesFrom_nil _ []]
  · rfl
  intro p t hpt _
  rw [Option.eq_none_iff_forall_ne_some]
  intro n hn
  obtain ⟨ds, rest, rfl, _, hds, _⟩ := citation_spec hn
  cases p with
  | nil =>
    simp only [List.nil_append, List.cons_append, List.cons.injEq, true_and] at hpt
    -- the digits reach up to the first closing bracket, past the comma
    have hpre : d :: body <+: ds := by
      have hpt : d :: body ++ [']'] = ds ++ ']' :: rest := hpt
      rcases List.append_eq_append_iff.mp hpt with ⟨as, rfl, _⟩ | ⟨bs, hbs, hclose⟩
      · exact List.prefix_append _ _
      · cases bs with
        | nil => exact ⟨[], by simpa using hbs⟩
        | cons b bs =>
          simp only [List.cons_append, List.cons.injEq] at hclose
          exact absurd rfl (hplain ']' (by rw [hbs, hclose.1]; simp)).2
    have := List.all_eq_true.mp hds ',' (hpre.subset (List.mem_cons_of_mem _ hcomma))
    exact absurd this (by decide)
  | cons a p =>
    have hmem : '[' ∈ d :: body ++ [']'] := by
      simp only [List.cons_append, List.cons.injEq] at hpt
      rw [List.cons_append, hpt.2]
      simp
    simp only [List.mem_append, List.mem_singleton] at hmem
    rcases hmem with hmem | hmem
    · exact (hplain '[' hmem).1 rfl
    · revert hmem; decide

/-! ## The single markers of a group -/

theorem asciiDigits_spec {pre s : Str} {n : Nat} (h : asciiDigits pre s = some n) :
    n = (s.takeWhile isAsciiDigit).length ∧ n ≠ 0 := by
  simp only [asciiDigits, beq_iff_eq] at h
  split at h
  · cases h
  · rename_i hne
    obtain rfl := Option.some.inj h
    exact ⟨rfl, hne⟩

/-- The numbers of a group: runs of ASCII digits. -/
theorem all_of_mem_findall_asciiDigits {s n : Str} (h : n ∈ findall asciiDigits s) :
    n ≠ [] ∧ n.all isAsciiDigit = true := by
  obtain ⟨pre, t, k, hk, _, rfl, hne⟩ := exists_of_mem_hits _ _ _ h
  obtain ⟨hlen, _⟩ := asciiDigits_spec hk
  refine ⟨hne, ?_⟩
  rw [hlen, ← List.prefix_iff_eq_take.mp (List.takeWhile_prefix isAsciiDigit)]
  exact List.all_takeWhile

theorem findall_asciiDigits_ne_nil {s : Str} {c : Char} (hc : c ∈ s) (hd : isAsciiDigit c = true) :
    findall asciiDigits s ≠ [] := by
  intro hnil
  obtain ⟨p, t, rfl⟩ := List.append_of_mem hc
  have hmatch : asciiDigits (p.reverse ++ []) (c :: t) =
      some ((t.takeWhile isAsciiDigit).length + 1) := by
    simp [asciiDigits, hd]
  exact no_match_of_hits_nil _ [] hnil p (c :: t) rfl (by simp) _ hmatch

/-- The markers a group becomes are plain prose, between brackets. -/
theorem IsGroup.singleMarkers_spec {w : Str} (h : IsGroup w) :
    Prose (singleMarkers w) ∧ Bracketed (singleMarkers w) := by
  obtain ⟨d, body, hw, hd, _, _⟩ := h.shape
  have hne : findall asciiDigits w ≠ [] := findall_asciiDigits_ne_nil (c := d) (by simp [hw]) hd
  have hnum := fun n hn => all_of_mem_findall_asciiDigits (s := w) (n := n) hn
  unfold singleMarkers
  generalize findall asciiDigits w = ns at hne hnum ⊢
  have hmem (c : Char) (h1 : c ≠ '[') (h2 : c ≠ ']') (h3 : isAsciiDigit c = false) :
      c ∉ ns.flatMap fun n => '[' :: n ++ [']'] := by
    intro hc
    obtain ⟨n, hn, hc⟩ := List.mem_flatMap.mp hc
    simp only [List.cons_append, List.mem_cons, List.mem_append, List.not_mem_nil, or_false] at hc
    rcases hc with rfl | hc | rfl
    · exact h1 rfl
    · rw [List.all_eq_true.mp (hnum n hn).2 c hc] at h3
      cases h3
    · exact h2 rfl
  have hbr : Bracketed (ns.flatMap fun n => '[' :: n ++ [']']) := by
    obtain ⟨n, ms, rfl⟩ := List.exists_cons_of_ne_nil hne
    rcases List.eq_nil_or_concat ms with rfl | ⟨ms, l, rfl⟩
    · exact ⟨n, by simp⟩
    · exact ⟨n ++ [']'] ++ (ms.flatMap fun n => '[' :: n ++ [']']) ++ '[' :: l, by simp⟩
  refine ⟨⟨?_, ?_, ?_, ?_⟩, hbr⟩
  · obtain ⟨body, hb⟩ := hbr
    rw [hb]
    exact List.cons_ne_nil _ _
  all_goals exact hmem _ (by decide) (by decide) (by decide)

/-! ## The edits -/

/-- An edit of `expand_grouped_markers`: a group becomes its single markers. -/
def GroupEdit (masked : Str) (i j : Nat) (new : Str) : Prop :=
  i ≤ j ∧ IsGroup (slice masked i j) ∧ new = singleMarkers (slice masked i j)

theorem take_drop_eq_slice {s : Str} {i j : Nat} : (s.drop i).take (j - i) = slice s i j := by
  rw [slice, List.drop_take]

theorem groupEdits_spec (text : Str) :
    Edits (fun i j new => ProseEdit text (maskCode text) i j new ∧
      GroupEdit (maskCode text) i j new) 0 (groupEdits text) := by
  refine Edits.of_ordered ?_ _ 0 0 (finditer_ordered groupedMarker_sound (maskCode text))
    fun i j _ h => h
  intro i j i' k new hij hlen hmatch he
  simp only at he
  split at he
  · cases he
  rename_i hfence
  simp only [Option.some.injEq, Prod.mk.injEq] at he
  obtain ⟨rfl, rfl, rfl⟩ := he
  have hgroup : IsGroup (slice (maskCode text) i j) := by
    have := (groupedMarker_spec hmatch).2
    rwa [take_drop_eq_slice] at this
  obtain ⟨hprose, body, hbr⟩ := hgroup.singleMarkers_spec
  refine ⟨rfl, ⟨⟨hij.le, maskCode_length text ▸ hlen, hgroup.prose,
    slice_eq_of_unmasked hgroup.prose.mask, hprose, ⟨'[', by simp [hbr], by decide, by decide⟩,
    ?_⟩, hij.le, hgroup, rfl⟩, fun _ _ _ h => h⟩
  simpa using hfence

theorem maskCode_expand (text : Str) :
    maskCode (expandGroupedMarkers text) = splice (maskCode text) 0 (groupEdits text) :=
  maskCode_splice ((groupEdits_spec text).imp fun _ _ _ h => h.1)

/-- Splitting the groups loses no marker, in code or outside it. -/
theorem citations_expand (text : Str) :
    (citations text).Sublist (citations (expandGroupedMarkers text)) ∧
      (citations (maskCode text)).Sublist (citations (maskCode (expandGroupedMarkers text))) := by
  have key (s : Str) (hs : ∀ i j new, ProseEdit text (maskCode text) i j new ∧
      GroupEdit (maskCode text) i j new → slice s i j = slice (maskCode text) i j) :
      (citations s).Sublist (citations (splice s 0 (groupEdits text))) := by
    have := rel_splice (s := s) (R := List.Sublist) citations (fun _ => .refl _)
      (fun _ _ _ _ => .append) (fun i j new h => ?_) (groupEdits text) 0 (groupEdits_spec text)
    · simpa using this
    · obtain ⟨hij, hgroup, rfl⟩ := h.2
      rw [hs i j _ h]
      exact ⟨hij, citations_bracketed hgroup.bracketed,
        citations_bracketed hgroup.singleMarkers_spec.2,
        hgroup.citations_eq_nil ▸ List.nil_sublist _⟩
  exact ⟨key text fun _ _ _ h => h.1.unmasked, maskCode_expand text ▸ key _ fun _ _ _ _ => rfl⟩

end CiteVyn.Llm
