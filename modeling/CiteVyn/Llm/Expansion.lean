import CiteVyn.Llm.Groups
import CiteVyn.Llm.Passes

/-! # Groups, split once and for all

What `expand_grouped_markers` writes for a group are the group's own numbers, and no new group:
a second pass finds only groups that the first one left on lines that start a fence run. -/
namespace CiteVyn.Llm
open CiteVyn.Lib.Scan CiteVyn.Lib.Rewrite CiteVyn.Text Cell

/-! ## The numbers of a group -/

def IsNumber (n : Str) : Prop := n ≠ [] ∧ ∀ c ∈ n, isAsciiDigit c = true

/-- A comma, with blanks around it. -/
def IsSeparator (s : Str) : Prop :=
  ∃ a b, s = a ++ ',' :: b ∧ (∀ c ∈ a, isBlank c = true) ∧ ∀ c ∈ b, isBlank c = true

/-- Numbers with separators between them. -/
inductive Numbers : List Str → Str → Prop where
  | one {n : Str} : IsNumber n → Numbers [n] n
  | more {n sep body : Str} {ns : List Str} :
    IsNumber n → IsSeparator sep → Numbers ns body → Numbers (n :: ns) (n ++ sep ++ body)

/-- A grouped marker and its numbers, at least two. -/
def Grouped (ns : List Str) (w : Str) : Prop := 2 ≤ ns.length ∧ ∃ body, Numbers ns body ∧ w = '[' :: body ++ [']']

/-- A marker of one number. -/
def single (n : Str) : Str := '[' :: n ++ [']']

/-- What a group can hold from a state of the pattern on, with the numbers that start there. -/
def GroupRest : GroupState → List Str → Str → Prop
  | .start, ns, body => 2 ≤ ns.length ∧ Numbers ns body
  | .number comma, ns, body => ∃ ds tail, (∀ c ∈ ds, isAsciiDigit c = true) ∧ body = ds ++ tail ∧
      ((tail = [] ∧ ns = [] ∧ comma = true) ∨ ∃ sep rest, IsSeparator sep ∧ Numbers ns rest ∧ tail = sep ++ rest)
  | .beforeComma, ns, body => ∃ sep rest, IsSeparator sep ∧ Numbers ns rest ∧ body = sep ++ rest
  | .afterComma, ns, body => ∃ blanks rest, (∀ c ∈ blanks, isBlank c = true) ∧ Numbers ns rest ∧ body = blanks ++ rest

theorem IsSeparator.cons {sep : Str} (h : IsSeparator sep) {c : Char} (hc : isBlank c = true) : IsSeparator (c :: sep) := by
  obtain ⟨a, b, rfl, ha, hb⟩ := h
  exact ⟨c :: a, b, rfl, List.forall_mem_cons.mpr ⟨hc, ha⟩, hb⟩

/-- One more digit, then what the pattern takes after a number. -/
theorem numbers_of_digit {comma : Bool} {ns : List Str} {body : Str} {d : Char} (hd : isAsciiDigit d = true)
    (h : GroupRest (.number comma) ns body) :
    ∃ n, IsNumber n ∧ ((comma = true ∧ ns = [] ∧ d :: body = n) ∨ Numbers (n :: ns) (d :: body) ∧ ns ≠ []) := by
  obtain ⟨ds, tail, hds, rfl, htail⟩ := h
  have hn : IsNumber (d :: ds) := ⟨List.cons_ne_nil _ _, List.forall_mem_cons.mpr ⟨hd, hds⟩⟩
  refine ⟨d :: ds, hn, ?_⟩
  rcases htail with ⟨rfl, rfl, hcomma⟩ | ⟨sep, rest, hsep, hrest, rfl⟩
  · exact .inl ⟨hcomma, rfl, by rw [List.append_nil]⟩
  · refine .inr ⟨?_, ?_⟩
    · have := Numbers.more hn hsep hrest
      rwa [List.append_assoc] at this
    · intro hnil
      subst hnil
      cases hrest

theorem groupRest_spec (s : Str) (st : GroupState) (n m : Nat) (h : groupEnd st n s = some m) :
    ∃ ns body rest, s = body ++ ']' :: rest ∧ m = n + body.length + 1 ∧ GroupRest st ns body := by
  induction s generalizing st n m with
  | nil => cases st <;> cases h
  | cons c s ih =>
    -- one more character of the group, the rest of it read from state `st'`
    have step (st' : GroupState) (h' : groupEnd st' (n + 1) s = some m)
        (grow : ∀ ns body, GroupRest st' ns body → ∃ ns', GroupRest st ns' (c :: body)) :
        ∃ ns body rest, c :: s = body ++ ']' :: rest ∧ m = n + body.length + 1 ∧ GroupRest st ns body := by
      obtain ⟨ns, body, rest, rfl, rfl, hrest⟩ := ih st' (n + 1) m h'
      obtain ⟨ns', hgrown⟩ := grow ns body hrest
      exact ⟨ns', c :: body, rest, rfl, by rw [List.length_cons]; omega, hgrown⟩
    cases st with
    | start =>
      simp only [groupEnd] at h
      split at h
      · rename_i hd
        refine step _ h fun ns body hrest => ?_
        obtain ⟨k, _, ⟨hcomma, _⟩ | ⟨hnumbers, hne⟩⟩ := numbers_of_digit hd hrest
        · cases hcomma
        · refine ⟨k :: ns, ?_, hnumbers⟩
          rw [List.length_cons]
          have := List.length_pos_iff.mpr hne
          omega
      · cases h
    | number comma =>
      simp only [groupEnd] at h
      split at h
      · rename_i hd
        refine step _ h fun ns body hrest => ?_
        obtain ⟨ds, tail, hds, rfl, htail⟩ := hrest
        exact ⟨ns, c :: ds, tail, List.forall_mem_cons.mpr ⟨hd, hds⟩, rfl, htail⟩
      split at h
      · rename_i hc
        obtain rfl : c = ',' := by simpa using hc
        refine step _ h fun ns body hrest => ?_
        obtain ⟨blanks, rest, hblanks, hnumbers, rfl⟩ := hrest
        exact ⟨ns, [], ',' :: (blanks ++ rest), by simp, rfl,
          .inr ⟨',' :: blanks, rest, ⟨[], blanks, rfl, by simp, hblanks⟩, hnumbers, rfl⟩⟩
      split at h
      · rename_i hb
        refine step _ h fun ns body hrest => ?_
        obtain ⟨sep, rest, hsep, hnumbers, rfl⟩ := hrest
        exact ⟨ns, [], c :: (sep ++ rest), by simp, rfl, .inr ⟨c :: sep, rest, hsep.cons hb, hnumbers, rfl⟩⟩
      split at h
      · rename_i hclose
        simp only [Bool.and_eq_true, beq_iff_eq] at hclose
        obtain ⟨rfl, rfl⟩ := hclose
        exact ⟨[], [], s, rfl, by simpa using (Option.some.inj h).symm, [], [], by simp, rfl, .inl ⟨rfl, rfl, rfl⟩⟩
      · cases h
    | beforeComma =>
      simp only [groupEnd] at h
      split at h
      · rename_i hb
        refine step _ h fun ns body hrest => ?_
        obtain ⟨sep, rest, hsep, hnumbers, rfl⟩ := hrest
        exact ⟨ns, c :: sep, rest, hsep.cons hb, hnumbers, rfl⟩
      split at h
      · rename_i hc
        obtain rfl : c = ',' := by simpa using hc
        refine step _ h fun ns body hrest => ?_
        obtain ⟨blanks, rest, hblanks, hnumbers, rfl⟩ := hrest
        exact ⟨ns, ',' :: blanks, rest, ⟨[], blanks, rfl, by simp, hblanks⟩, hnumbers, rfl⟩
      · cases h
    | afterComma =>
      simp only [groupEnd] at h
      split at h
      · rename_i hb
        refine step _ h fun ns body hrest => ?_
        obtain ⟨blanks, rest, hblanks, hnumbers, rfl⟩ := hrest
        exact ⟨ns, c :: blanks, rest, List.forall_mem_cons.mpr ⟨hb, hblanks⟩, hnumbers, rfl⟩
      split at h
      · rename_i hd
        refine step _ h fun ns body hrest => ?_
        obtain ⟨k, hk, ⟨_, rfl, hbody⟩ | ⟨hnumbers, _⟩⟩ := numbers_of_digit hd hrest
        · refine ⟨[k], [], c :: body, by simp, ?_, rfl⟩
          rw [hbody]
          exact .one hk
        · exact ⟨k :: ns, [], c :: body, by simp, hnumbers, rfl⟩
      · cases h

theorem groupedMarker_grouped {pre s : Str} {n : Nat} (h : groupedMarker pre s = some n) :
    ∃ ns, Grouped ns (s.take n) := by
  unfold groupedMarker at h
  cases s with
  | nil => cases h
  | cons c s =>
    simp only at h
    split at h
    · rename_i hc
      obtain rfl : c = '[' := by simpa using hc
      obtain ⟨ns, body, rest, rfl, rfl, hlen, hnumbers⟩ := groupRest_spec s _ _ _ h
      refine ⟨ns, hlen, body, hnumbers, ?_⟩
      have hlength : 1 + body.length + 1 = ('[' :: body ++ [']']).length := by
        simp only [List.cons_append, List.length_cons, List.length_append, List.length_nil]
        omega
      rw [hlength, show '[' :: (body ++ ']' :: rest) = ('[' :: body ++ [']']) ++ rest by simp, List.take_left]
    · cases h

theorem findall_digits_skip {c : Char} (hc : isAsciiDigit c = false) (s : Str) :
    findall asciiDigits (c :: s) = findall asciiDigits s := by
  have hnone : ∀ n, asciiDigits [] (c :: s) ≠ some (n + 1) := by
    intro n
    simp [asciiDigits, hc]
  unfold findall pieces
  rw [piecesFrom_gap hnone, hits, piecesFrom_pre (fun _ _ _ => rfl) s [c] []]

theorem findall_digits_skips {a : Str} (ha : ∀ c ∈ a, isAsciiDigit c = false) (s : Str) :
    findall asciiDigits (a ++ s) = findall asciiDigits s := by
  induction a with
  | nil => rfl
  | cons c a ih =>
    obtain ⟨hc, ha⟩ := List.forall_mem_cons.mp ha
    rw [List.cons_append, findall_digits_skip hc, ih ha]

theorem findall_digits_number {n s : Str} (hn : IsNumber n) (hs : ∀ c, s.head? = some c → isAsciiDigit c = false) :
    findall asciiDigits (n ++ s) = n :: findall asciiDigits s := by
  have htake : (n ++ s).takeWhile isAsciiDigit = n := by
    rw [List.takeWhile_append_of_pos hn.2]
    cases s with
    | nil => exact List.append_nil n
    | cons c s => rw [List.takeWhile_cons_of_neg (by rw [hs c rfl]; exact Bool.false_ne_true), List.append_nil]
  obtain ⟨k, hk⟩ := Nat.exists_eq_succ_of_ne_zero (List.length_pos_iff.mpr hn.1).ne'
  have hmatch : asciiDigits [] (n ++ s) = some (k + 1) := by
    simp [asciiDigits, htake, hk]
  unfold findall pieces
  rw [piecesFrom_hit (List.append_ne_nil_of_left_ne_nil hn.1 s) hmatch, ← Nat.succ_eq_add_one, ← hk, List.take_left,
    List.drop_left, hits, piecesFrom_pre (fun _ _ _ => rfl) s _ []]

theorem not_digit_of_blank {c : Char} (h : isBlank c = true) : isAsciiDigit c = false := by
  simp only [isBlank, Bool.or_eq_true, beq_iff_eq] at h
  rcases h with rfl | rfl <;> rfl

theorem IsSeparator.no_digit {sep : Str} (h : IsSeparator sep) : sep ≠ [] ∧ ∀ c ∈ sep, isAsciiDigit c = false := by
  obtain ⟨a, b, rfl, ha, hb⟩ := h
  refine ⟨List.append_ne_nil_of_right_ne_nil a (List.cons_ne_nil _ _), fun c hc => ?_⟩
  rcases List.mem_append.mp hc with hc | hc
  · exact not_digit_of_blank (ha c hc)
  · rcases List.mem_cons.mp hc with rfl | hc
    · rfl
    · exact not_digit_of_blank (hb c hc)

theorem Numbers.findall_digits {ns : List Str} {body s : Str} (h : Numbers ns body)
    (hs : ∀ c, s.head? = some c → isAsciiDigit c = false) :
    findall asciiDigits (body ++ s) = ns ++ findall asciiDigits s := by
  induction h with
  | one hn => rw [findall_digits_number hn hs, List.singleton_append]
  | more hn hsep _ ih =>
    obtain ⟨hne, hno⟩ := hsep.no_digit
    rw [List.append_assoc, List.append_assoc, findall_digits_number hn, findall_digits_skips hno, ih, List.cons_append]
    intro c hc
    rw [List.head?_append_of_ne_nil _ hne] at hc
    exact hno c (List.mem_of_head? hc)

/-- A group becomes the markers of its numbers. -/
theorem Grouped.singleMarkers_eq {ns : List Str} {w : Str} (h : Grouped ns w) : singleMarkers w = ns.flatMap single := by
  obtain ⟨_, body, hbody, rfl⟩ := h
  have hclose : findall asciiDigits [']'] = [] := by decide
  unfold singleMarkers
  rw [List.cons_append, findall_digits_skip rfl, hbody.findall_digits, hclose, List.append_nil]
  · rfl
  · intro c hc
    obtain rfl : ']' = c := by simpa using hc
    rfl

theorem Numbers.isNumber {ns : List Str} {body : Str} (h : Numbers ns body) : ∀ n ∈ ns, IsNumber n := by
  induction h with
  | one hn => exact List.forall_mem_singleton.mpr hn
  | more hn _ _ ih => exact List.forall_mem_cons.mpr ⟨hn, ih⟩

/-! ## The pass -/

/-- A grouped marker, found in the mask. -/
def groupPlace : Pattern Cell := fun pre rest => groupedMarker (masks pre) (masks rest)

/-- The loop body of `expand_grouped_markers`. -/
def groupRewriter : Rewriter Cell := fun pre rest =>
  (groupPlace pre rest).bind fun n =>
    if (fenceRun (lineAt pre rest)).isSome then none else some (n, plainCells (singleMarkers ((masks rest).take n)))

theorem groupPlace_isGroup {pre rest : List Cell} {n : Nat} (h : groupPlace pre rest = some n) :
    n ≤ rest.length ∧ IsGroup (masks (rest.take n)) := by
  obtain ⟨hle, hgroup⟩ := groupedMarker_spec h
  rw [masks, List.length_map] at hle
  refine ⟨hle, ?_⟩
  rwa [masks, List.map_take]

theorem groupRewriter_eq {pre rest : List Cell} {k : Nat} {new : List Cell} (h : groupRewriter pre rest = some (k, new)) :
    groupPlace pre rest = some k ∧ fenceRun (lineAt pre rest) = none ∧
      new = plainCells (singleMarkers ((masks rest).take k)) := by
  obtain ⟨n, hn, he⟩ := Option.bind_eq_some_iff.mp h
  split at he
  · cases he
  · rename_i hfence
    obtain ⟨rfl, rfl⟩ := Prod.mk.inj (Option.some.inj he)
    exact ⟨hn, by simpa using hfence, rfl⟩

theorem IsGroup.ne_nil {w : Str} (h : IsGroup w) : w ≠ [] := h.prose.ne

theorem IsGroup.no_open {w : Str} (h : IsGroup w) : ∀ c ∈ w.drop 1, c ≠ '[' := by
  obtain ⟨d, body, rfl, hd, hall, _⟩ := h.shape
  intro c hc
  have hgroup : ∀ c, isGroupChar c = true → c ≠ '[' := by
    intro c hc he
    subst he
    revert hc
    decide
  simp only [List.cons_append, List.drop_succ_cons, List.drop_zero, List.mem_cons, List.mem_append, List.not_mem_nil,
    or_false] at hc
  rcases hc with rfl | hc | rfl
  · exact hgroup c (by simp [isGroupChar, hd])
  · exact hgroup c (List.all_eq_true.mp hall c hc)
  · decide

theorem groupPlace_of_head {pre rest : List Cell} (h : (masks rest).head? ≠ some '[') : groupPlace pre rest = none := by
  unfold groupPlace groupedMarker
  cases hr : masks rest with
  | nil => rfl
  | cons c cs =>
    rw [hr] at h
    have hc : c ≠ '[' := fun he => h (by rw [he]; rfl)
    simp [hc]

theorem solid_of_bracketed {w : List Cell} (hp : Prose (texts w)) (hb : Bracketed (texts w)) : Solid w := by
  obtain ⟨body, hb⟩ := hb
  exact ⟨hp.line, '[', by rw [hb]; rfl, by decide, by decide⟩

theorem groupRewriter_taking : Taking groupRewriter := by
  intro pre rest k new h
  obtain ⟨hplace, _, _⟩ := groupRewriter_eq h
  obtain ⟨hle, hgroup⟩ := groupPlace_isGroup hplace
  refine ⟨Nat.pos_of_ne_zero fun h0 => hgroup.ne_nil ?_, hle⟩
  rw [h0, List.take_zero]
  rfl

theorem groupRewriter_edit {pre w s new : List Cell} (h : groupRewriter pre (w ++ s) = some (w.length, new)) :
    IsGroup (masks w) ∧ texts w = masks w ∧ new = plainCells (singleMarkers (masks w)) ∧
      fenceRun (lineAt pre (w ++ s)) = none := by
  obtain ⟨hplace, hline, hnew⟩ := groupRewriter_eq h
  have htake : (masks (w ++ s)).take w.length = masks w := by
    rw [masks_append]
    exact List.take_left' (List.length_map ..)
  have hgroup := (groupPlace_isGroup hplace).2
  rw [List.take_left] at hgroup
  exact ⟨hgroup, texts_eq_masks hgroup.prose.mask, by rw [hnew, htake], hline⟩

theorem groupRewriter_prose : ProseRewriter groupRewriter where
  taking := groupRewriter_taking
  edit := by
    intro pre w s new _ h
    obtain ⟨hgroup, htexts, rfl, hline⟩ := groupRewriter_edit h
    obtain ⟨hprose, hbr⟩ := hgroup.singleMarkers_spec
    refine ⟨solid_of_bracketed ?_ ?_, solid_of_bracketed ?_ ?_, hline⟩
    · rw [htexts]
      exact hgroup.prose
    · rw [htexts]
      exact hgroup.bracketed
    · rwa [texts_plainCells]
    · rwa [texts_plainCells]

theorem masks_take (s : List Cell) (i : Nat) : masks (s.take i) = (masks s).take i := List.map_take

theorem masks_drop (s : List Cell) (i : Nat) : masks (s.drop i) = (masks s).drop i := List.map_drop

/-- The loop of `expand_grouped_markers` is the pass. -/
theorem groupRewriter_chooses (text : Str) :
    Chooses groupPlace (fun x => if (fenceRun (lineAround text x.1 x.2)).isSome then none
      else some (x.1, x.2, plainCells (singleMarkers (slice (maskCode text) x.1 x.2)))) groupRewriter (cells text) where
  sound := fun _ _ _ h => (groupPlace_isGroup h).1
  pos := by
    intro i n h
    refine Nat.pos_of_ne_zero fun h0 => (groupPlace_isGroup h).2.ne_nil ?_
    rw [h0, List.take_zero]
    rfl
  free := by
    intro i h
    unfold Free at h
    rw [groupRewriter, h]
    rfl
  hit := by
    intro i j hij h
    obtain ⟨hle, hgroup⟩ := groupPlace_isGroup h
    rw [List.length_drop] at hle
    have hslice : masks (((cells text).drop i).take (j - i)) = slice (maskCode text) i j := by
      rw [masks_take, masks_drop, masks_cells, take_drop_eq_slice]
    rw [hslice] at hgroup
    have hfree : ∀ x, i < x → x < j → Free groupPlace (cells text) x := by
      intro x hx hxj
      refine groupPlace_of_head fun hhead => ?_
      rw [masks_drop, masks_cells, ← slice_append_drop (Nat.le_of_lt hxj)] at hhead
      have hlen : (slice (maskCode text) x j).length = j - x := slice_length (by
        rw [← masks_cells text, masks, List.length_map]
        omega)
      have hne : slice (maskCode text) x j ≠ [] := by
        intro hnil
        rw [hnil, List.length_nil] at hlen
        omega
      rw [List.head?_append_of_ne_nil _ hne] at hhead
      refine hgroup.no_open '[' ?_ rfl
      have hsub : slice (maskCode text) (i + 1) j = (slice (maskCode text) i j).drop 1 := by
        rw [slice, slice, List.drop_drop]
      rw [← hsub]
      exact slice_subset hx (Nat.le_refl j) (List.mem_of_head? hhead)
    have htext : slice text i j = slice (maskCode text) i j := slice_eq_of_unmasked hgroup.prose.mask
    have hline := @lineAt_cells text i j hij.le (by rw [htext]; exact hgroup.prose.line)
    refine ⟨hfree, ?_⟩
    unfold MatchAt at h
    rw [groupRewriter, h, Option.bind_some, hline]
    by_cases hf : (fenceRun (lineAround text i j)).isSome = true
    · exact .inl ⟨if_pos hf, if_pos hf⟩
    · refine .inr ⟨j, _, if_neg hf, Nat.le_refl j, by omega, hfree, ?_⟩
      rw [if_neg hf, ← masks_take, hslice]

theorem cells_expand (text : Str) : cells (expandGroupedMarkers text) = rewriteFrom groupRewriter [] 0 (cells text) := by
  rw [← (groupRewriter_chooses text).finditer.1, expandGroupedMarkers,
    cells_splice ((groupEdits_spec text).imp fun _ _ _ h => h.1)]
  congr 1
  have hfind : finditer groupPlace (cells text) = finditer groupedMarker (maskCode text) := by
    rw [← masks_cells text]
    exact finditer_map Cell.mask groupedMarker (cells text)
  rw [hfind, groupEdits, List.map_filterMap]
  congr 1
  funext x
  by_cases hf : (fenceRun (lineAround text x.1 x.2)).isSome = true
  · simp only [hf, if_true, Option.map_none]
  · simp only [hf, Bool.false_eq_true, if_false, Option.map_some]

/-! ## A second pass -/

/-- A character at which no group goes on. -/
def stopsGroup (c : Char) : Bool := !isGroupChar c && c != ']'

theorem groupEnd_stop {c : Char} (hc : stopsGroup c = true) (st : GroupState) (n : Nat) (s : Str) :
    groupEnd st n (c :: s) = none := by
  simp only [stopsGroup, isGroupChar, Bool.and_eq_true, Bool.not_eq_true', Bool.or_eq_false_iff, bne_iff_ne, beq_eq_false_iff_ne] at hc
  obtain ⟨⟨⟨hd, hcomma⟩, hb⟩, hclose⟩ := hc
  cases st <;> simp [groupEnd, hd, hcomma, hb, hclose]

/-- The rewriter edits from and to something at which no group goes on. -/
def StopsGroups (e : Rewriter Cell) : Prop :=
  ∀ pre w s new, w ≠ [] → e pre (w ++ s) = some (w.length, new) →
    (masks w).head?.any stopsGroup = true ∧ (masks new).head?.any stopsGroup = true

theorem groupEnd_rewrite {e : Rewriter Cell} (he : Taking e) (hs : StopsGroups e) (s pre : List Cell) :
    ∀ st n, groupEnd st n (masks (rewriteFrom e pre 0 s)) = groupEnd st n (masks s) := by
  have stop (w s : Str) (h : w.head?.any stopsGroup = true) (st : GroupState) (n : Nat) : groupEnd st n (w ++ s) = none := by
    cases w with
    | nil => cases h
    | cons c w => exact groupEnd_stop h st n (w ++ s)
  refine rewrite_rec he (P := fun pre s => ∀ st n,
    groupEnd st n (masks (rewriteFrom e pre 0 s)) = groupEnd st n (masks s)) ?_ ?_ ?_ s pre
  · intro pre st n
    rfl
  · intro pre c s hc ih st n
    rw [rewriteFrom_keep hc, masks_cons, masks_cons]
    cases st <;> simp only [groupEnd, ih]
  · intro pre w s new hw hedit _ st n
    obtain ⟨hold, hnew⟩ := hs pre w s new hw hedit
    rw [rewriteFrom_edit hw hedit, masks_append, masks_append, stop _ _ hold, stop _ _ hnew]

/-- A place that is passed over holds a group after the pass if and only if it did before. -/
theorem groupPlace_rewrite {e : Rewriter Cell} (he : Taking e) (hs : StopsGroups e) (pre pre' : List Cell) (c : Cell)
    (s : List Cell) : groupPlace pre' (c :: rewriteFrom e (c :: pre) 0 s) = groupPlace pre (c :: s) := by
  simp only [groupPlace, groupedMarker, masks_cons, groupEnd_rewrite he hs]

theorem groupRewriter_stops : StopsGroups groupRewriter := by
  intro pre w s new _ h
  obtain ⟨hgroup, _, rfl, _⟩ := groupRewriter_edit h
  obtain ⟨body, hbody⟩ := hgroup.bracketed
  obtain ⟨body', hbody'⟩ := hgroup.singleMarkers_spec.2
  have hopen : stopsGroup '[' = true := by decide
  rw [masks_plainCells, hbody', hbody]
  exact ⟨hopen, hopen⟩

/-- A number ends at its bracket before any comma. -/
theorem groupEnd_single {n : Str} (hn : ∀ c ∈ n, isAsciiDigit c = true) (k : Nat) (s : Str) :
    groupEnd (.number false) k (n ++ ']' :: s) = none := by
  induction n generalizing k with
  | nil => simp [groupEnd, isAsciiDigit, isBlank]
  | cons c n ih =>
    obtain ⟨hc, hn⟩ := List.forall_mem_cons.mp hn
    rw [List.cons_append]
    simp only [groupEnd, hc, if_true]
    exact ih hn _

theorem groupedMarker_single {n : Str} (hn : IsNumber n) (pre s : Str) : groupedMarker pre (single n ++ s) = none := by
  obtain ⟨d, ds, rfl⟩ := List.exists_cons_of_ne_nil hn.1
  obtain ⟨hd, hds⟩ := List.forall_mem_cons.mp hn.2
  have := groupEnd_single hds 2 s
  simpa [groupedMarker, single, groupEnd, hd] using this

/-- Nothing is found in the markers a group became. -/
theorem idle_singles {ns : List Str} (hns : ∀ n ∈ ns, IsNumber n) (pre t : List Cell) :
    IdleIn groupRewriter pre (plainCells (ns.flatMap single)) t := by
  have none_of_place {pre rest : List Cell} (h : groupPlace pre rest = none) : groupRewriter pre rest = none := by
    rw [groupRewriter, h]
    rfl
  have inside (a : Str) (ha : '[' ∉ a) (pre t : List Cell) : IdleIn groupRewriter pre (plainCells a) t := by
    induction a generalizing pre with
    | nil => trivial
    | cons c a ih =>
      rw [List.mem_cons, not_or] at ha
      refine ⟨none_of_place (groupPlace_of_head ?_), ih ha.2 _⟩
      intro h
      exact ha.1 (Option.some.inj h).symm
  induction ns generalizing pre with
  | nil => trivial
  | cons n ns ih =>
    obtain ⟨hn, hns⟩ := List.forall_mem_cons.mp hns
    have hcut : plainCells ((n :: ns).flatMap single) = plainCells (single n) ++ plainCells (ns.flatMap single) := by
      simp [plainCells]
    rw [hcut, idleIn_append]
    refine ⟨⟨none_of_place ?_, inside (n ++ [']']) ?_ _ _⟩, ih hns _⟩
    · have := groupedMarker_single hn (masks pre) (masks (plainCells (ns.flatMap single) ++ t))
      rw [groupPlace]
      rw [← masks_plainCells (single n), ← masks_append] at this
      exact this
    · intro hmem
      rcases List.mem_append.mp hmem with hmem | hmem
      · exact absurd (hn.2 _ hmem) (by decide)
      · exact absurd (List.mem_singleton.mp hmem) (by decide)

/-- A place that is passed over and holds no group to split holds none after the pass. -/
theorem groupRewriter_kept {e : Rewriter Cell} (he : ProseRewriter e) (hs : StopsGroups e) {pre pre' : List Cell} {c : Cell}
    {s : List Cell} (h : SameStart pre pre') (hc : e pre (c :: s) = none) (hg : groupRewriter pre (c :: s) = none) :
    groupRewriter pre' (c :: rewriteFrom e (c :: pre) 0 s) = none := by
  have hline := he.fenceRun_lineAt (c :: s) pre pre' h
  rw [rewriteFrom_keep hc] at hline
  have hplace := groupPlace_rewrite he.taking hs pre pre' c s
  rw [groupRewriter, hplace, hline]
  rw [groupRewriter] at hg
  cases hp : groupPlace pre (c :: s) with
  | none => rfl
  | some n =>
    rw [hp, Option.bind_some] at hg
    rw [Option.bind_some]
    split at hg
    · rename_i hf
      exact if_pos hf
    · cases hg

theorem idle_expanded (text : Str) : IdleIn groupRewriter [] (cells (expandGroupedMarkers text)) [] := by
  rw [cells_expand]
  refine idle_rewrite groupRewriter_taking (R := fun pre pre' _ => SameStart pre pre') ?_ ?_ (cells text) [] [] (.inl rfl)
  · intro pre pre' c s h hc
    exact ⟨h.cons c, groupRewriter_kept groupRewriter_prose groupRewriter_stops h hc hc⟩
  · intro pre pre' w s new h hw hedit
    obtain ⟨hsolid, hnew, hline⟩ := groupRewriter_prose.edit pre w s new hw hedit
    refine ⟨h.edit hsolid hnew hline, ?_⟩
    obtain ⟨hplace, _, _⟩ := groupRewriter_eq hedit
    obtain ⟨_, _, rfl, _⟩ := groupRewriter_edit hedit
    obtain ⟨ns, hns⟩ := groupedMarker_grouped hplace
    have htake : (masks (w ++ s)).take w.length = masks w := by
      rw [masks_append]
      exact List.take_left' (List.length_map ..)
    rw [htake] at hns
    rw [hns.singleMarkers_eq]
    obtain ⟨_, body, hbody, _⟩ := hns
    exact idle_singles hbody.isNumber _ _

theorem expand_expand (text : Str) : expandGroupedMarkers (expandGroupedMarkers text) = expandGroupedMarkers text := by
  have h := cells_expand (expandGroupedMarkers text)
  rw [rewriteFrom_idle (idle_expanded text)] at h
  have := congrArg texts h
  rwa [texts_cells, texts_cells] at this

/-! ## What is split -/

/-- A grouped marker and what it becomes: outside code, on a line that starts no fence run. -/
structure IsSplit (text : Str) (i j : Nat) (new : Str) : Prop where
  inside : i < j ∧ j ≤ text.length
  prose : codeMask ∉ slice (maskCode text) i j
  line : fenceRun (lineAround text i j) = none
  numbers : ∃ ns, Grouped ns (slice text i j) ∧ new = ns.flatMap single

theorem groupEdits_split (text : Str) : Edits (IsSplit text) 0 (groupEdits text) := by
  refine Edits.of_ordered ?_ _ 0 0 (finditer_ordered groupedMarker_sound (maskCode text)) fun i j _ h => h
  intro i j i' k new hij hlen hmatch he
  simp only at he
  split at he
  · cases he
  rename_i hfence
  simp only [Option.some.injEq, Prod.mk.injEq] at he
  obtain ⟨rfl, rfl, rfl⟩ := he
  have hgroup : IsGroup (slice (maskCode text) i j) := by
    have := (groupedMarker_spec hmatch).2
    rwa [take_drop_eq_slice] at this
  obtain ⟨ns, hns⟩ := groupedMarker_grouped hmatch
  rw [take_drop_eq_slice] at hns
  have htext := slice_eq_of_unmasked hgroup.prose.mask
  refine ⟨rfl, ⟨⟨hij, maskCode_length text ▸ hlen⟩, hgroup.prose.mask, by simpa using hfence, ns, ?_, ?_⟩, fun _ _ _ h => h⟩
  · rwa [htext]
  · exact hns.singleMarkers_eq

theorem groupEdits_spans (text : Str) :
    (groupEdits text).map (fun x => (x.1, x.2.1)) =
      (finditer groupedMarker (maskCode text)).filter fun x => (fenceRun (lineAround text x.1 x.2)).isNone := by
  rw [groupEdits, List.map_filterMap, ← List.filterMap_eq_filter]
  congr 1
  funext x
  cases hf : fenceRun (lineAround text x.1 x.2) with
  | none => simp [hf]
  | some fence => simp [hf, Option.guard]

/-- **Splitting groups, once and for all.** A second pass changes nothing; the first changes
every grouped marker outside code and fence lines, and nothing else, to its own numbers; the
markers outside code stay, in order, and so do the fenced lines. -/
theorem expandGroupedMarkers_spec (text : Str) :
    expandGroupedMarkers (expandGroupedMarkers text) = expandGroupedMarkers text ∧
      (∃ es, Edits (IsSplit text) 0 es ∧ expandGroupedMarkers text = splice text 0 es ∧
        es.map (fun x => (x.1, x.2.1)) =
          (finditer groupedMarker (maskCode text)).filter fun x => (fenceRun (lineAround text x.1 x.2)).isNone) ∧
      (citations (stripCode text false)).Sublist (citations (stripCode (expandGroupedMarkers text) false)) ∧
      fencedLines (expandGroupedMarkers text) = fencedLines text := by
  refine ⟨expand_expand text, ⟨groupEdits text, groupEdits_split text, rfl, groupEdits_spans text⟩, ?_, ?_⟩
  · rw [citations_stripCode, citations_stripCode]
    exact (citations_expand text).2
  · exact fencedLines_splice ((groupEdits_spec text).imp fun _ _ _ h => h.1)

end CiteVyn.Llm
