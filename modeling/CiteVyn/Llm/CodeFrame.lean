import CiteVyn.Llm.StripCode
import Mathlib.Data.List.Forall2

/-! # What an edit to prose leaves alone

`maskCode` after a piece of prose on a line that starts no fence run is
replaced by other prose, neither holding a backtick or a line end: the mask
around it does not change. First inside a line (the inline spans), then
between lines (the fences), then over a whole text. -/
namespace CiteVyn.Llm
open CiteVyn.Lib.Scan CiteVyn.Text

/-- Prose an edit may put or replace: not empty, no backtick, no line end and
nothing that reads as masked. -/
structure Prose (x : Str) : Prop where
  ne : x ≠ []
  tick : '`' ∉ x
  line : '\n' ∉ x
  mask : codeMask ∉ x

/-! ## Inside a line -/

theorem inlineClose_plain {k : Nat} (hk : k ≠ 0) (s : Str) :
    ∀ (x : Str) (n : Nat), '`' ∉ x → '\n' ∉ x →
      inlineClose k 0 n (x ++ s) = inlineClose k 0 (n + x.length) s
  | [], _, _, _ => rfl
  | c :: cs, n, ht, hl => by
    simp only [List.mem_cons, not_or] at ht hl
    simp only [List.cons_append, inlineClose, beq_iff_eq, Ne.symm ht.1, Ne.symm hl.1,
      Ne.symm hk, if_false]
    rw [inlineClose_plain hk s cs (n + 1) ht.2 hl.2, List.length_cons]
    congr 1
    omega

/-- A closing run ends at prose, or the prose is part of the span's inside. -/
theorem inlineClose_prose {k : Nat} (hk : k ≠ 0) {x : Str} (hx : Prose x) (r n : Nat) (s : Str) :
    inlineClose k r n (x ++ s) =
      if r = k then some n else inlineClose k 0 (n + x.length) s := by
  obtain ⟨c, cs, rfl⟩ := List.exists_cons_of_ne_nil hx.ne
  have ht := hx.tick
  have hl := hx.line
  simp only [List.mem_cons, not_or] at ht hl
  simp only [List.cons_append, inlineClose, beq_iff_eq, Ne.symm ht.1, Ne.symm hl.1, if_false]
  split
  · rfl
  · rw [inlineClose_plain hk s cs (n + 1) ht.2 hl.2, List.length_cons]
    congr 1
    omega

theorem inlineClose_shift (k d : Nat) :
    ∀ (s : Str) (r n : Nat), inlineClose k r (n + d) s = (inlineClose k r n s).map (· + d)
  | [], r, n => by simp only [inlineClose]; split <;> rfl
  | c :: cs, r, n => by
    simp only [inlineClose]
    have h (r' : Nat) : inlineClose k r' (n + d + 1) cs = (inlineClose k r' (n + 1) cs).map (· + d) := by
      rw [← inlineClose_shift k d cs r' (n + 1)]
      congr 1
      omega
    split
    · exact h _
    · split
      · rfl
      · split
        · rfl
        · exact h _

/-- Replacing prose in what follows an opener: the span closes before it, or
past it, or not at all, as before. -/
theorem inlineClose_edit {k : Nat} (hk : k ≠ 0) {x y : Str} (hx : Prose x) (hy : Prose y)
    (q : Str) : ∀ (s : Str) (r n : Nat),
      (∃ j, j ≤ n + s.length ∧ inlineClose k r n (s ++ x ++ q) = some j ∧
        inlineClose k r n (s ++ y ++ q) = some j) ∨
      (inlineClose k r n (s ++ x ++ q) = none ∧ inlineClose k r n (s ++ y ++ q) = none) ∨
      (∃ j, inlineClose k r n (s ++ x ++ q) = some (n + s.length + x.length + j) ∧
        inlineClose k r n (s ++ y ++ q) = some (n + s.length + y.length + j))
  | [], r, n => by
    simp only [List.nil_append, inlineClose_prose hk hx, inlineClose_prose hk hy]
    split
    · exact .inl ⟨n, by simp, rfl, rfl⟩
    · have h (m : Nat) := inlineClose_shift k (n + m) q 0 0
      simp only [Nat.zero_add] at h
      rw [h, h]
      cases inlineClose k 0 0 q with
      | none => exact .inr (.inl ⟨rfl, rfl⟩)
      | some j => exact .inr (.inr ⟨j, by simp; omega, by simp; omega⟩)
  | c :: cs, r, n => by
    have tail (r' : Nat) := inlineClose_edit hk hx hy q cs r' (n + 1)
    have lift (r' : Nat) :
        (∃ j, j ≤ n + (c :: cs).length ∧ inlineClose k r' (n + 1) (cs ++ x ++ q) = some j ∧
          inlineClose k r' (n + 1) (cs ++ y ++ q) = some j) ∨
        (inlineClose k r' (n + 1) (cs ++ x ++ q) = none ∧
          inlineClose k r' (n + 1) (cs ++ y ++ q) = none) ∨
        (∃ j, inlineClose k r' (n + 1) (cs ++ x ++ q) =
            some (n + (c :: cs).length + x.length + j) ∧
          inlineClose k r' (n + 1) (cs ++ y ++ q) =
            some (n + (c :: cs).length + y.length + j)) := by
      rcases tail r' with ⟨j, hj, h1, h2⟩ | h | ⟨j, h1, h2⟩
      · exact .inl ⟨j, by simp; omega, h1, h2⟩
      · exact .inr (.inl h)
      · refine .inr (.inr ⟨j, h1.trans ?_, h2.trans ?_⟩) <;> simp <;> omega
    simp only [List.cons_append, inlineClose]
    split
    · exact lift _
    · split
      · exact .inl ⟨n, by simp, rfl, rfl⟩
      · split
        · exact .inr (.inl ⟨rfl, rfl⟩)
        · exact lift _

/-- An opener's run is not lengthened by prose. -/
theorem takeWhile_tick_prose {x : Str} (hx : Prose x) (s q : Str) :
    (s ++ x ++ q).takeWhile (· == '`') = s.takeWhile (· == '`') := by
  obtain ⟨c, cs, rfl⟩ := List.exists_cons_of_ne_nil hx.ne
  have ht := hx.tick
  simp only [List.mem_cons, not_or] at ht
  rw [List.append_assoc, List.takeWhile_append]
  split
  · rename_i h
    have hs := List.IsPrefix.eq_of_length (List.takeWhile_prefix (· == '`')) h
    simp [Ne.symm ht.1, hs]
  · rfl

theorem inlineCode_edit {x y : Str} (hx : Prose x) (hy : Prose y) (pre s q : Str) :
    (∃ j, j ≤ s.length ∧ inlineCode pre (s ++ x ++ q) = some j ∧
      inlineCode pre (s ++ y ++ q) = some j) ∨
    (inlineCode pre (s ++ x ++ q) = none ∧ inlineCode pre (s ++ y ++ q) = none) ∨
    (∃ j, inlineCode pre (s ++ x ++ q) = some (s.length + x.length + j) ∧
      inlineCode pre (s ++ y ++ q) = some (s.length + y.length + j)) := by
  simp only [inlineCode, takeWhile_tick_prose hx, takeWhile_tick_prose hy]
  split
  · exact .inr (.inl ⟨rfl, rfl⟩)
  split
  · exact .inr (.inl ⟨rfl, rfl⟩)
  rename_i hk
  have hle : (s.takeWhile (· == '`')).length ≤ s.length := (List.takeWhile_prefix _).length_le
  simp only [List.append_assoc, List.drop_append_of_le_length hle]
  have hk' : (s.takeWhile (· == '`')).length ≠ 0 := fun h0 => hk (by rw [h0]; rfl)
  have h := inlineClose_edit hk' hx hy q
    (s.drop (s.takeWhile (· == '`')).length) 0 (s.takeWhile (· == '`')).length
  rwa [List.length_drop, Nat.add_sub_cancel' hle, List.append_assoc, List.append_assoc] at h

theorem inlineCode_cons_of_ne {c : Char} (hc : c ≠ '`') (pre cs : Str) :
    inlineCode pre (c :: cs) = none := by
  simp [inlineCode, hc]

/-- Only the last character before matters to the inline spans after. -/
theorem maskFrom_inline_pre : ∀ (s : Str) {pre pre' : Str},
    (pre.head? == some '`') = (pre'.head? == some '`') →
      maskFrom inlineCode codeMask pre 0 s = maskFrom inlineCode codeMask pre' 0 s
  | [], _, _, _ => rfl
  | c :: cs, pre, pre', h => by
    have hm : inlineCode pre (c :: cs) = inlineCode pre' (c :: cs) := by
      simp only [inlineCode, h]
    have tail (k : Nat) : maskFrom inlineCode codeMask (c :: pre) k cs =
        maskFrom inlineCode codeMask (c :: pre') k cs := by
      rw [maskFrom_skip, maskFrom_skip _ _ k (c :: pre') cs]
      congr 1
      refine maskFrom_inline_pre (cs.drop k) ?_
      cases (cs.take k).reverse <;> rfl
    simp only [maskFrom, hm, tail]
termination_by s => s.length

theorem maskFrom_prose {x : Str} (hx : '`' ∉ x) (pre q : Str) :
    maskFrom inlineCode codeMask pre 0 (x ++ q) =
      x ++ maskFrom inlineCode codeMask (x.reverse ++ pre) 0 q := by
  induction x generalizing pre with
  | nil => rfl
  | cons c cs ih =>
    simp only [List.mem_cons, not_or] at hx
    simp only [List.cons_append, maskFrom, inlineCode_cons_of_ne (Ne.symm hx.1), ih hx.2,
      List.reverse_cons, List.append_assoc, List.nil_append]

/-- The edit inside a line: what is around unmasked prose keeps its mask. -/
theorem maskFrom_edit {x y : Str} (hx : Prose x) (hy : Prose y) (q mq : Str) :
    ∀ (p pre : Str) (k : Nat) (mp : Str), mp.length = p.length →
      maskFrom inlineCode codeMask pre k (p ++ x ++ q) = mp ++ x ++ mq →
      maskFrom inlineCode codeMask pre k (p ++ y ++ q) = mp ++ y ++ mq
  | [], pre, k, mp, hlen, h => by
    obtain rfl : mp = [] := List.eq_nil_of_length_eq_zero hlen
    simp only [List.nil_append] at h ⊢
    obtain ⟨c, cs, rfl⟩ := List.exists_cons_of_ne_nil hx.ne
    cases k with
    | succ k =>
      simp only [List.cons_append, maskFrom, List.cons.injEq] at h
      exact absurd (h.1 ▸ List.mem_cons_self) hx.mask
    | zero =>
      rw [maskFrom_prose hx.tick, List.append_cancel_left_eq] at h
      rw [maskFrom_prose hy.tick, List.append_cancel_left_eq, ← h]
      refine maskFrom_inline_pre q ?_
      have last {w : Str} (hw : Prose w) : ((w.reverse ++ pre).head? == some '`') = false := by
        obtain ⟨d, ds, hd⟩ := List.exists_cons_of_ne_nil (List.reverse_ne_nil_iff.mpr hw.ne)
        have hne : d ≠ '`' := by
          rintro rfl
          exact hw.tick (List.mem_reverse.mp (hd ▸ List.mem_cons_self))
        simp [hd, hne]
      rw [last hx, last hy]
  | c :: p, pre, k, mp, hlen, h => by
    cases mp with
    | nil => cases hlen
    | cons m mp =>
    have hlen' : mp.length = p.length := by simpa using hlen
    have ih := fun k => maskFrom_edit hx hy q mq p (c :: pre) k mp hlen'
    cases k with
    | succ k =>
      simp only [List.cons_append, maskFrom, List.cons.injEq] at h ⊢
      exact ⟨h.1, ih k h.2⟩
    | zero =>
      simp only [List.cons_append, maskFrom] at h ⊢
      rcases inlineCode_edit hx hy pre (c :: p) q with ⟨j, _, h1, h2⟩ | ⟨h1, h2⟩ | ⟨j, h1, h2⟩
      · simp only [List.cons_append] at h1 h2
        rw [h1] at h
        rw [h2]
        cases j with
        | zero =>
          simp only [List.cons.injEq] at h ⊢
          exact ⟨h.1, ih 0 h.2⟩
        | succ j =>
          simp only [List.cons.injEq] at h ⊢
          exact ⟨h.1, ih j h.2⟩
      · simp only [List.cons_append] at h1 h2
        rw [h1] at h
        rw [h2]
        simp only [List.cons.injEq] at h ⊢
        exact ⟨h.1, ih 0 h.2⟩
      · -- the span would reach past `x`, which is not masked
        exfalso
        simp only [List.cons_append, List.length_cons] at h1
        rw [h1, show p.length + 1 + x.length + j = (p.length + x.length + j) + 1 by omega] at h
        simp only [List.cons.injEq] at h
        have hpos : 0 < x.length := List.length_pos_iff.mpr hx.ne
        have hat := congrArg (fun l : Str => l[p.length]?) h.2
        rw [maskFrom_skip] at hat
        simp only [List.append_assoc, List.length_append] at hat
        rw [List.getElem?_append_left (by simp; omega), List.getElem?_replicate,
          if_pos (by omega), ← hlen', List.getElem?_append_right (Nat.le_refl _),
          Nat.sub_self, List.getElem?_append_left hpos] at hat
        exact hx.mask (List.mem_of_getElem? hat.symm)

/-! ## Between lines -/

/-- `reachable[c][i]` by a rescan: the longest bare run of `c` on a line of
`lines`. -/
def longestBare (c : Char) : List Str → Nat
  | [] => 0
  | line :: lines =>
    match fenceRun line with
    | some (ch, run) =>
      if isBareRun line ch && ch == c then max (longestBare c lines) run
      else longestBare c lines
    | none => longestBare c lines

theorem reachable_headD (c : Char) : ∀ lines, (reachable c lines).headD 0 = longestBare c lines
  | [] => rfl
  | line :: lines => by
    simp only [reachable, longestBare, reachable_headD c lines]
    cases fenceRun line with
    | none => rfl
    | some fence => simp only; split <;> rfl

theorem reachable_tail (c : Char) (line : Str) (lines : List Str) :
    (reachable c (line :: lines)).tail = reachable c lines := by
  simp only [reachable]
  split
  · split <;> rfl
  · rfl

/-- The table answers what a rescan of the remaining lines would. -/
theorem reachable_getD (c : Char) :
    ∀ (i : Nat) (lines : List Str), (reachable c lines).getD i 0 = longestBare c (lines.drop i)
  | 0, lines => by
    rw [List.drop_zero, ← reachable_headD]
    cases reachable c lines <;> rfl
  | i + 1, [] => by simp [reachable, longestBare]
  | i + 1, line :: lines => by
    rw [List.drop_succ_cons, ← reachable_getD c i lines, ← reachable_tail c line lines]
    cases reachable c (line :: lines) <;> rfl

/-- The forward pass by rescans. -/
def stripRest (keepOffsets : Bool) : Option (Char × Nat) → List Str → List Str
  | _, [] => []
  | some fence, line :: lines =>
    blankLine keepOffsets line ::
      stripRest keepOffsets
        (if closes line fence (longestBare fence.1 lines) then none else some fence) lines
  | none, line :: lines =>
    match fenceOpen line with
    | some (c, k, info) =>
      if simpleInfo c info || k ≤ longestBare c lines then
        blankLine keepOffsets line :: stripRest keepOffsets (some (c, k)) lines
      else proseLine keepOffsets line :: stripRest keepOffsets none lines
    | none => proseLine keepOffsets line :: stripRest keepOffsets none lines

theorem stripLines_eq (keepOffsets : Bool) (all : List Str) :
    ∀ (lines : List Str) (i : Nat) (st : Option (Char × Nat)), all.drop i = lines →
      stripLines keepOffsets (fun c => reachable c all) i st lines = stripRest keepOffsets st lines
  | [], _, st, _ => by cases st <;> rfl
  | line :: lines, i, st, h => by
    have h' : all.drop (i + 1) = lines := by
      rw [← List.drop_drop, h]
      rfl
    have ih := fun st => stripLines_eq keepOffsets all lines (i + 1) st h'
    cases st with
    | some fence => simp only [stripLines, stripRest, reachable_getD, h', ih]
    | none =>
      cases ho : fenceOpen line with
      | none => simp only [stripLines, stripRest, ho, ih]
      | some fence => simp only [stripLines, stripRest, ho, reachable_getD, h', ih]

theorem stripCode_eq (text : Str) (keepOffsets : Bool) :
    stripCode text keepOffsets = joinLines (stripRest keepOffsets none (splitLines text)) := by
  rw [stripCode, stripLines_eq keepOffsets (splitLines text) (splitLines text) 0 none rfl]

/-- What a line becomes while `st` is the open fence, if it is no fence itself. -/
def outLine (keepOffsets : Bool) (st : Option (Char × Nat)) (line : Str) : Str :=
  if st.isSome then blankLine keepOffsets line else proseLine keepOffsets line

theorem longestBare_frame (c : Char) {line : Str} (h : fenceRun line = none) (after : List Str) :
    ∀ before, longestBare c (before ++ line :: after) = longestBare c (before ++ after)
  | [] => by simp [longestBare, h]
  | _ :: before => by simp only [List.cons_append, longestBare, longestBare_frame c h after before]

/-- A line that starts no fence run is stripped alone: what the other lines
become does not depend on it. -/
theorem stripRest_frame (keepOffsets : Bool) (after : List Str) :
    ∀ (before : List Str) (st : Option (Char × Nat)),
      ∃ out st' rest, out.length = before.length ∧ ∀ line, fenceRun line = none →
        stripRest keepOffsets st (before ++ line :: after) =
          out ++ outLine keepOffsets st' line :: rest
  | [], some fence => by
    refine ⟨[], some fence, stripRest keepOffsets (some fence) after, rfl, fun line h => ?_⟩
    simp [stripRest, closes, h, outLine]
  | [], none => by
    refine ⟨[], none, stripRest keepOffsets none after, rfl, fun line h => ?_⟩
    simp [stripRest, fenceOpen_eq_none h, outLine]
  | head :: before, some fence => by
    obtain ⟨out, st', rest, hlen, ih⟩ := stripRest_frame keepOffsets after before
      (if closes head fence (longestBare fence.1 (before ++ after)) then none else some fence)
    refine ⟨blankLine keepOffsets head :: out, st', rest, by simp [hlen], fun line h => ?_⟩
    simp only [List.cons_append, stripRest, longestBare_frame _ h, ih line h]
  | head :: before, none => by
    cases ho : fenceOpen head with
    | none =>
      obtain ⟨out, st', rest, hlen, ih⟩ := stripRest_frame keepOffsets after before none
      refine ⟨proseLine keepOffsets head :: out, st', rest, by simp [hlen], fun line h => ?_⟩
      simp only [List.cons_append, stripRest, ho, ih line h]
    | some fence =>
      obtain ⟨c, k, info⟩ := fence
      by_cases hopen : (simpleInfo c info || k ≤ longestBare c (before ++ after)) = true
      · obtain ⟨out, st', rest, hlen, ih⟩ :=
          stripRest_frame keepOffsets after before (some (c, k))
        refine ⟨blankLine keepOffsets head :: out, st', rest, by simp [hlen], fun line h => ?_⟩
        simp only [List.cons_append, stripRest, ho, longestBare_frame _ h, if_pos hopen, ih line h]
      · obtain ⟨out, st', rest, hlen, ih⟩ := stripRest_frame keepOffsets after before none
        refine ⟨proseLine keepOffsets head :: out, st', rest, by simp [hlen], fun line h => ?_⟩
        simp only [List.cons_append, stripRest, ho, longestBare_frame _ h, if_neg hopen, ih line h]

/-! ## Masking keeps offsets -/

theorem proseLine_mask (line : Str) :
    proseLine true line = maskFrom inlineCode codeMask [] 0 line := sub_mask _ _ _

theorem stripRest_length : ∀ (lines : List Str) (st : Option (Char × Nat)),
    (stripRest true st lines).map List.length = lines.map List.length
  | [], st => by cases st <;> rfl
  | line :: lines, st => by
    have hb : (blankLine true line).length = line.length := by simp [blankLine]
    have hp : (proseLine true line).length = line.length := by
      rw [proseLine_mask, maskFrom_length]
    cases st with
    | some fence => simp [stripRest, hb, stripRest_length lines]
    | none =>
      simp only [stripRest]
      split
      · split <;> simp [hb, hp, stripRest_length lines]
      · simp [hp, stripRest_length lines]

/-- A text with some of its characters replaced by the mask. -/
def MaskOf : Str → Str → Prop := List.Forall₂ fun m c => m = c ∨ m = codeMask

theorem maskOf_refl (s : Str) : MaskOf s s := List.forall₂_same.mpr fun _ _ => .inl rfl

theorem maskOf_blank : ∀ line : Str, MaskOf (blankLine true line) line
  | [] => .nil
  | _ :: cs => .cons (.inr rfl) (maskOf_blank cs)

theorem maskOf_maskFrom : ∀ (s pre : Str) (k : Nat),
    MaskOf (maskFrom inlineCode codeMask pre k s) s
  | [], _, _ => by simp [maskFrom, MaskOf]
  | c :: cs, pre, k + 1 => .cons (.inr rfl) (maskOf_maskFrom cs (c :: pre) k)
  | c :: cs, pre, 0 => by
    simp only [maskFrom]
    split
    · exact .cons (.inr rfl) (maskOf_maskFrom cs (c :: pre) _)
    · exact .cons (.inl rfl) (maskOf_maskFrom cs (c :: pre) 0)

theorem maskOf_prose (line : Str) : MaskOf (proseLine true line) line :=
  proseLine_mask line ▸ maskOf_maskFrom line [] 0

theorem maskOf_stripRest : ∀ (lines : List Str) (st : Option (Char × Nat)),
    List.Forall₂ MaskOf (stripRest true st lines) lines
  | [], st => by cases st <;> exact .nil
  | line :: lines, some fence => .cons (maskOf_blank line) (maskOf_stripRest lines _)
  | line :: lines, none => by
    simp only [stripRest]
    split
    · split
      · exact .cons (maskOf_blank line) (maskOf_stripRest lines _)
      · exact .cons (maskOf_prose line) (maskOf_stripRest lines _)
    · exact .cons (maskOf_prose line) (maskOf_stripRest lines _)

theorem maskOf_joinLines {ms ls : List Str} (h : List.Forall₂ MaskOf ms ls) :
    MaskOf (joinLines ms) (joinLines ls) := by
  induction h with
  | nil => exact .nil
  | @cons m l ms ls hml hrest ih =>
    cases hrest with
    | nil => simpa [joinLines] using hml
    | cons hd tl =>
      simp only [joinLines] at ih ⊢
      rw [List.intercalate_cons_cons, List.intercalate_cons_cons]
      exact List.rel_append (List.rel_append hml (maskOf_refl ['\n'])) ih

theorem maskOf_maskCode (text : Str) : MaskOf (maskCode text) text := by
  have h := maskOf_joinLines (maskOf_stripRest (splitLines text) none)
  rwa [← stripCode_eq, show joinLines (splitLines text) = text from List.intercalate_splitOn '\n'] at h

theorem maskCode_length (text : Str) : (maskCode text).length = text.length :=
  List.Forall₂.length_eq (maskOf_maskCode text)

theorem MaskOf.eq {m t : Str} (h : MaskOf m t) (hm : codeMask ∉ m) : t = m := by
  induction h with
  | nil => rfl
  | cons hc _ ih =>
    simp only [List.mem_cons, not_or] at hm
    rcases hc with rfl | rfl
    · rw [ih hm.2]
    · exact absurd rfl hm.1

/-- What is not masked is the text itself. -/
theorem slice_eq_of_unmasked {text : Str} {i j : Nat} (h : codeMask ∉ slice (maskCode text) i j) :
    slice text i j = slice (maskCode text) i j :=
  MaskOf.eq (List.forall₂_drop i (List.forall₂_take j (maskOf_maskCode text))) h

/-! ## Over a whole text -/

/-- `text[text.rfind("\n") + 1:]`. -/
def lastLine (text : Str) : Str := (text.reverse.takeWhile (· != '\n')).reverse

/-- `text[:text.find("\n")]`, or all of it. -/
def firstLine (text : Str) : Str := text.takeWhile (· != '\n')

/-- `text[line_start:line_end]` around the match from `i` to `j`. -/
def lineAround (text : Str) (i j : Nat) : Str :=
  lastLine (text.take i) ++ slice text i j ++ firstLine (text.drop j)

theorem newline_not_mem_firstLine (b : Str) : '\n' ∉ firstLine b := fun h => by
  simpa using List.mem_takeWhile_imp h

theorem newline_not_mem_lastLine (a : Str) : '\n' ∉ lastLine a := fun h => by
  simpa using List.mem_takeWhile_imp (List.mem_reverse.mp h)

theorem lastLine_append_of_not_mem {s : Str} (h : '\n' ∉ s) (a : Str) :
    lastLine (a ++ s) = lastLine a ++ s := by
  unfold lastLine
  rw [List.reverse_append, List.takeWhile_append_of_pos, List.reverse_append, List.reverse_reverse]
  intro c hc
  simpa using fun hn : c = '\n' => h (hn ▸ List.mem_reverse.mp hc)

theorem lastLine_append_cons (a s : Str) : lastLine (a ++ '\n' :: s) = lastLine s := by
  unfold lastLine
  rw [List.reverse_append, List.reverse_cons, List.append_assoc, List.takeWhile_append]
  split
  · rename_i h
    have hs := List.IsPrefix.eq_of_length (List.takeWhile_prefix (· != '\n')) h
    rw [hs]
    simp
  · rfl

theorem firstLine_append_of_not_mem {s : Str} (h : '\n' ∉ s) (b : Str) :
    firstLine (s ++ b) = s ++ firstLine b := by
  unfold firstLine
  refine List.takeWhile_append_of_pos fun c hc => ?_
  simpa using fun hn : c = '\n' => h (hn ▸ hc)

/-- A longer match on the same line is on the same line. -/
theorem lineAround_extend {text : Str} {i j k : Nat} (hij : i ≤ j) (hjk : j ≤ k)
    (h : '\n' ∉ slice text j k) : lineAround text i k = lineAround text i j := by
  unfold lineAround
  rw [← slice_append_slice hij hjk, ← slice_append_drop hjk, firstLine_append_of_not_mem h]
  simp

theorem joinLines_append (before : List Str) (line : Str) (after : List Str) :
    joinLines (before ++ line :: after) =
      before.flatMap (· ++ ['\n']) ++ (line ++ after.flatMap ('\n' :: ·)) := by
  unfold joinLines
  induction before with
  | nil =>
    induction after generalizing line with
    | nil => simp
    | cons a after ih =>
      have := ih a
      simp only [List.nil_append, List.flatMap_nil] at this ⊢
      rw [List.intercalate_cons_cons, this]
      simp
  | cons b before ih =>
    obtain ⟨c, cs, hcs⟩ : ∃ c cs, before ++ line :: after = c :: cs := by
      cases before <;> simp
    rw [List.cons_append, hcs, List.intercalate_cons_cons, ← hcs, ih]
    simp

/-- A text up to some place: whole lines, then the start of one. -/
theorem splitLines_before (a : Str) :
    ∃ before : List Str, a = before.flatMap (· ++ ['\n']) ++ lastLine a ∧
      ∀ s, splitLines (a ++ s) = before ++ splitLines (lastLine a ++ s) := by
  by_cases h : '\n' ∈ a
  · obtain ⟨r, l, hr, hl⟩ := List.eq_append_cons_of_mem (List.mem_reverse.mpr h)
    obtain rfl : a = l.reverse ++ '\n' :: r.reverse := by
      simpa using congrArg List.reverse hr
    have hlast : lastLine (l.reverse ++ '\n' :: r.reverse) = r.reverse := by
      rw [lastLine_append_cons]
      simpa [lastLine] using lastLine_append_of_not_mem (a := []) (s := r.reverse) (by simpa using hl)
    refine ⟨splitLines l.reverse, ?_, fun s => ?_⟩
    · obtain ⟨ls, l', hsplit⟩ : ∃ ls l', splitLines l.reverse = ls ++ [l'] :=
        ⟨_, _, (List.dropLast_append_getLast (List.splitOn_ne_nil '\n' l.reverse)).symm⟩
      have hjoin : joinLines (splitLines l.reverse) = l.reverse := List.intercalate_splitOn '\n'
      rw [hsplit, joinLines_append] at hjoin
      rw [hlast, hsplit, ← hjoin]
      simp
    · rw [hlast, List.append_assoc, List.cons_append]
      exact List.splitOn_append_cons_self _ _
  · have hl : lastLine a = a := by
      simpa [lastLine] using lastLine_append_of_not_mem h []
    exact ⟨[], by simp [hl], fun s => by simp [hl]⟩

/-- A text from some place on: the end of a line, then whole lines. -/
theorem splitLines_after (b : Str) :
    ∃ after : List Str, b = firstLine b ++ after.flatMap ('\n' :: ·) ∧
      ∀ s, '\n' ∉ s → splitLines (s ++ b) = (s ++ firstLine b) :: after := by
  by_cases h : '\n' ∈ b
  · obtain ⟨l, r, rfl, hl⟩ := List.eq_append_cons_of_mem h
    have hfirst : firstLine (l ++ '\n' :: r) = l := by
      rw [firstLine_append_of_not_mem hl]
      simp [firstLine]
    refine ⟨splitLines r, ?_, fun s hs => ?_⟩
    · obtain ⟨l', ls, hsplit⟩ := List.exists_cons_of_ne_nil (List.splitOn_ne_nil '\n' r)
      have hjoin : joinLines (splitLines r) = r := List.intercalate_splitOn '\n'
      rw [splitLines, hsplit] at hjoin ⊢
      have := joinLines_append [] l' ls
      rw [List.nil_append, hjoin] at this
      rw [hfirst, this]
      simp
    · have hsl : '\n' ∉ s ++ l := by simp [hs, hl]
      have := List.splitOn_append_cons_self (a := '\n') (s ++ l) r
      rw [List.splitOn_eq_singleton hsl] at this
      rw [hfirst, splitLines, ← List.append_assoc, this]
      rfl
  · have hb : firstLine b = b := by
      simpa [firstLine] using firstLine_append_of_not_mem h []
    refine ⟨[], by simp [hb], fun s hs => ?_⟩
    rw [hb]
    exact List.splitOn_eq_singleton (by simp [hs, h])

theorem flatMap_length_congr {f : Str → Str} (hf : ∀ a b, a.length = b.length →
    (f a).length = (f b).length) : ∀ {l m : List Str}, l.map List.length = m.map List.length →
      (l.flatMap f).length = (m.flatMap f).length
  | [], [], _ => rfl
  | [], _ :: _, h => by cases h
  | _ :: _, [], h => by cases h
  | a :: l, b :: m, h => by
    simp only [List.map_cons, List.cons.injEq] at h
    simp [hf a b h.1, flatMap_length_congr hf h.2]

/-- Around a line that starts no fence run, the mask of a text does not depend
on the line. -/
theorem maskCode_frame (a b : Str) :
    ∃ before st after, before.length + (lastLine a).length = a.length ∧
      ∀ x, '\n' ∉ x → fenceRun (lastLine a ++ x ++ firstLine b) = none →
        maskCode (a ++ x ++ b) =
          before ++ outLine true st (lastLine a ++ x ++ firstLine b) ++ after := by
  obtain ⟨la, ha, hsa⟩ := splitLines_before a
  obtain ⟨lb, _, hsb⟩ := splitLines_after b
  have lines (x : Str) (hx : '\n' ∉ x) :
      splitLines (a ++ x ++ b) = la ++ (lastLine a ++ x ++ firstLine b) :: lb := by
    rw [List.append_assoc, hsa, ← List.append_assoc, hsb]
    simp [newline_not_mem_lastLine, hx]
  obtain ⟨out, st, rest, hlen, hframe⟩ := stripRest_frame true lb la none
  refine ⟨out.flatMap (· ++ ['\n']), st, rest.flatMap ('\n' :: ·), ?_, fun x hx hf => ?_⟩
  · have hmap : out.map List.length = la.map List.length := by
      -- read off the frame at the empty line, which starts no fence run
      have hl := stripRest_length (la ++ [] :: lb) none
      rw [hframe [] (by decide), List.map_append, List.map_append] at hl
      exact (List.append_inj hl (by simpa using hlen)).1
    have := flatMap_length_congr (f := (· ++ ['\n'])) (by simp) hmap
    conv_rhs => rw [ha]
    rw [List.length_append, this]
  · rw [maskCode, stripCode_eq, lines x hx, hframe _ hf, joinLines_append]
    simp

/-- **The frame property of `_strip_code`.** Prose that is not masked, on a line
that starts no fence run, can be replaced by prose that starts with neither
white space nor a fence character: the mask around it stays. -/
theorem maskCode_edit {a x y b ma mb : Str} {c : Char} (hx : Prose x) (hy : Prose y)
    (hc : y.head? = some c) (hs : isSpace c = false) (hf : isFenceChar c = false)
    (hline : fenceRun (lastLine a ++ x ++ firstLine b) = none) (hlen : ma.length = a.length)
    (hm : maskCode (a ++ x ++ b) = ma ++ x ++ mb) :
    maskCode (a ++ y ++ b) = ma ++ y ++ mb := by
  obtain ⟨before, st, after, hbefore, hframe⟩ := maskCode_frame a b
  have hline' := fenceRun_edit hc hs hf hline
  rw [hframe x hx.line hline] at hm
  rw [hframe y hy.line hline']
  have hle : before.length ≤ ma.length := by omega
  obtain ⟨mp, rfl⟩ : ∃ mp, ma = before ++ mp := by
    refine ⟨ma.drop before.length, ?_⟩
    have := congrArg (List.take before.length) hm
    simp only [List.append_assoc, List.take_left', List.take_append_of_le_length hle] at this
    conv_lhs => rw [← List.take_append_drop before.length ma, ← this]
  have hmp : mp.length = (lastLine a).length := by
    simp only [List.length_append] at hlen
    omega
  simp only [List.append_assoc, List.append_cancel_left_eq] at hm ⊢
  -- the line is prose: in a fence all of it would be masked
  have houtlen (w : Str) : (outLine true st w).length = w.length := by
    unfold outLine
    split
    · simp [blankLine]
    · rw [proseLine_mask, maskFrom_length]
  obtain ⟨mq, hout, hafter⟩ : ∃ mq, outLine true st (lastLine a ++ (x ++ firstLine b)) =
      mp ++ x ++ mq ∧ mb = mq ++ after := by
    have hl := houtlen (lastLine a ++ (x ++ firstLine b))
    obtain ⟨w, hw⟩ : mp ++ x <+: outLine true st (lastLine a ++ (x ++ firstLine b)) := by
      refine List.prefix_of_prefix_length_le ⟨mb, ?_⟩ ⟨after, rfl⟩ ?_
      · rw [hm, List.append_assoc]
      · simp only [List.length_append] at hl ⊢
        omega
    refine ⟨w, hw.symm, ?_⟩
    rw [← hw] at hm
    simpa using hm.symm
  cases st with
  | some fence =>
    exfalso
    obtain ⟨d, ds, hd⟩ := List.exists_cons_of_ne_nil hx.ne
    refine hx.mask ?_
    have hmem : d ∈ outLine true (some fence) (lastLine a ++ (x ++ firstLine b)) := by
      rw [hout, hd]
      simp
    obtain rfl : d = codeMask := by
      simpa [outLine, blankLine] using (List.mem_replicate.mp hmem).2
    exact hd ▸ List.mem_cons_self
  | none =>
    simp only [outLine, Option.isSome_none, Bool.false_eq_true, if_false, proseLine_mask] at hout ⊢
    have := maskFrom_edit hx hy (firstLine b) mq (lastLine a) [] 0 mp hmp (by simpa using hout)
    rw [List.append_assoc] at this
    rw [this, hafter]
    simp

/-! ## Over a run of edits -/

/-- One edit a rewriter makes to `text`, read off its mask: the prose from `i`
to `j` becomes `new`. -/
structure ProseEdit (text masked : Str) (i j : Nat) (new : Str) : Prop where
  le : i ≤ j
  inside : j ≤ text.length
  old : Prose (slice masked i j)
  unmasked : slice text i j = slice masked i j
  fresh : Prose new
  start : ∃ c, new.head? = some c ∧ isSpace c = false ∧ isFenceChar c = false
  line : fenceRun (lineAround text i j) = none

/-- A line that continued `a` without starting a fence run starts none after
`d` either. -/
def KeepsFenceFree (a d : Str) : Prop :=
  ∀ z, '\n' ∉ z → fenceRun (lastLine a ++ z) = none → fenceRun (lastLine d ++ z) = none

theorem KeepsFenceFree.append {a d : Str} (h : KeepsFenceFree a d) (s : Str) :
    KeepsFenceFree (a ++ s) (d ++ s) := by
  intro z hz hf
  by_cases hs : '\n' ∈ s
  · obtain ⟨u, v, rfl⟩ := List.append_of_mem hs
    rw [← List.append_assoc, lastLine_append_cons] at hf ⊢
    exact hf
  · rw [lastLine_append_of_not_mem hs, List.append_assoc] at hf ⊢
    exact h _ (by simp [hs, hz]) hf

theorem KeepsFenceFree.edit {a d x y : Str} {c : Char} (h : KeepsFenceFree a d)
    (hx : '\n' ∉ x) (hy : '\n' ∉ y) (hc : y.head? = some c) (hs : isSpace c = false)
    (hfc : isFenceChar c = false) : KeepsFenceFree (a ++ x) (d ++ y) := by
  intro z hz hf
  rw [lastLine_append_of_not_mem hx, List.append_assoc] at hf
  rw [lastLine_append_of_not_mem hy]
  refine fenceRun_edit (x := x) hc hs hfc ?_
  rw [List.append_assoc]
  exact h _ (by simp [hx, hz]) hf

theorem maskCode_spliceFrom {text masked : Str} :
    ∀ (es : List (Nat × Nat × Str)) (last : Nat) (done mdone : Str),
      Edits (ProseEdit text masked) last es → masked.length = text.length →
      KeepsFenceFree (text.take last) done → mdone.length = done.length →
      maskCode (done ++ text.drop last) = mdone ++ masked.drop last →
      maskCode (done ++ splice text last es) = mdone ++ splice masked last es
  | [], last, done, mdone, _, _, _, _, h => h
  | (i, j, new) :: es, last, done, mdone, ⟨hlast, he, hes⟩, hml, hk, hlen, h => by
    obtain ⟨c, hc, hs, hf⟩ := he.start
    have htake : text.take last ++ slice text last i = text.take i := take_append_slice hlast
    have hk' : KeepsFenceFree (text.take i) (done ++ slice text last i) :=
      htake ▸ hk.append (slice text last i)
    have hold : slice text i j = slice masked i j := he.unmasked
    have hx : Prose (slice text i j) := hold ▸ he.old
    have hline : fenceRun (lastLine (done ++ slice text last i) ++ slice text i j ++
        firstLine (text.drop j)) = none := by
      rw [List.append_assoc]
      refine hk' _ (by simp [hx.line, newline_not_mem_firstLine]) ?_
      simpa [lineAround] using he.line
    have hi : i ≤ text.length := he.le.trans he.inside
    have hstep : maskCode (done ++ slice text last i ++ new ++ text.drop j) =
        mdone ++ slice masked last i ++ new ++ masked.drop j := by
      refine maskCode_edit hx he.fresh hc hs hf hline ?_ ?_
      · simp [slice_length hi, slice_length (hml ▸ hi), hlen]
      · have ht : done ++ slice text last i ++ slice text i j ++ text.drop j =
            done ++ text.drop last := by
          simp only [List.append_assoc, slice_append_drop he.le, slice_append_drop hlast]
        rw [ht, h, hold]
        simp only [List.append_assoc, slice_append_drop he.le, slice_append_drop hlast]
    have hkj : KeepsFenceFree (text.take j) (done ++ slice text last i ++ new) := by
      rw [← take_append_slice he.le]
      exact hk'.edit hx.line he.fresh.line hc hs hf
    have hlen' : (mdone ++ slice masked last i ++ new).length =
        (done ++ slice text last i ++ new).length := by
      simp [slice_length hi, slice_length (hml ▸ hi), hlen]
    have ih := maskCode_spliceFrom es j _ _ hes hml hkj hlen' hstep
    simpa [splice] using ih

/-- **Rewriters see the same code.** Edits to prose commute with the mask. -/
theorem maskCode_splice {text : Str} {es : List (Nat × Nat × Str)}
    (h : Edits (ProseEdit text (maskCode text)) 0 es) :
    maskCode (splice text 0 es) = splice (maskCode text) 0 es := by
  have hk : KeepsFenceFree (text.take 0) [] := fun z _ hf => by simpa [lastLine] using hf
  simpa using maskCode_spliceFrom es 0 [] [] h (maskCode_length text) hk rfl (by simp)

end CiteVyn.Llm
