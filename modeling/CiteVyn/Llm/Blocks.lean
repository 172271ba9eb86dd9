import CiteVyn.Llm.CodeFrame

/-! # Documents of prose and fenced blocks

A document with every fence closed by a bare run, the last block perhaps cut off, is read by
`_strip_code` as it was written: inside a block nothing closes it before its own closing line,
because that line can still be reached, and outside none is open. -/
namespace CiteVyn.Llm
open CiteVyn.Lib.Scan CiteVyn.Text

/-! ## Documents -/

/-- The line, stripped, is a run of at least `k`. -/
def BareRun (c : Char) (k : Nat) (line : Str) : Prop := ∃ n, k ≤ n ∧ strip line = List.replicate n c

/-- A line of prose: after white space it does not start a run of three. -/
structure ProseLine where
  line : Str
  oneLine : '\n' ∉ line
  plain : ∀ c, isFenceChar c = true → ¬ [c, c, c] <+: lstrip line

/-- The opening line of a block. -/
structure Opener where
  blanks : Str
  fence : Char
  length : Nat
  info : Str
  blank : ∀ c ∈ blanks, isBlank c = true
  isFence : isFenceChar fence = true
  long : 3 ≤ length
  /-- the run ends before the info string -/
  whole : info.head? ≠ some fence
  ticks : fence = '`' → '`' ∉ info
  oneLine : '\n' ∉ info

def Opener.line (o : Opener) : Str := o.blanks ++ (List.replicate o.length o.fence ++ o.info)

structure Block extends Opener where
  content : List Str
  closing : Str
  contentLines : ∀ line ∈ content, '\n' ∉ line
  closingLine : '\n' ∉ closing
  inside : ∀ line ∈ content, ¬ BareRun fence length line
  closed : BareRun fence length closing

def Block.lines (b : Block) : List Str := b.line :: (b.content ++ [b.closing])

/-- A last block that is cut off, with an info string of one token at most. -/
structure OpenBlock extends Opener where
  content : List Str
  contentLines : ∀ line ∈ content, '\n' ∉ line
  token : (strip info).any isSpace = false
  inside : ∀ line ∈ content, ¬ List.replicate length fence <+: lstrip line

def OpenBlock.lines (b : OpenBlock) : List Str := b.line :: b.content

inductive Part where
  | prose (line : ProseLine)
  | block (block : Block)

def Part.lines : Part → List Str
  | .prose p => [p.line]
  | .block b => b.lines

/-- Blocks blank, prose with its inline spans collapsed. -/
def Part.stripped : Part → List Str
  | .prose p => [sub inlineCode (fun _ => [' ']) p.line]
  | .block b => List.replicate b.lines.length []

structure Document where
  parts : List Part
  cutOff : Option OpenBlock

def Document.lines (d : Document) : List Str :=
  d.parts.flatMap Part.lines ++ (d.cutOff.map OpenBlock.lines).getD []

def Document.stripped (d : Document) : List Str :=
  d.parts.flatMap Part.stripped ++ (d.cutOff.map fun b => List.replicate b.lines.length []).getD []

/-! ## Lines that open and close -/

theorem isSpace_of_isBlank {c : Char} (h : isBlank c = true) : isSpace c = true := by
  simp only [isBlank, Bool.or_eq_true, beq_iff_eq] at h
  rcases h with rfl | rfl <;> decide

theorem not_isBlank_of_isFenceChar {c : Char} (h : isFenceChar c = true) : isBlank c = false := by
  by_contra hblank
  have := isSpace_of_isBlank (by simpa using hblank)
  exact absurd ((isSpace_of_isFenceChar h).symm.trans this) nofun

theorem fenceOpen_line (o : Opener) : fenceOpen o.line = some (o.fence, o.length, o.info) := by
  obtain ⟨k, hk⟩ : ∃ k, o.length = k + 1 := ⟨o.length - 1, by have := o.long; omega⟩
  have hdrop : o.line.dropWhile isBlank = o.fence :: (List.replicate k o.fence ++ o.info) := by
    rw [Opener.line, List.dropWhile_append_of_pos o.blank, hk, List.replicate_succ, List.cons_append,
      List.dropWhile_cons_of_neg (by rw [not_isBlank_of_isFenceChar o.isFence]; exact Bool.false_ne_true)]
  have hrun : (o.fence :: (List.replicate k o.fence ++ o.info)).takeWhile (· == o.fence) =
      List.replicate o.length o.fence := by
    rw [← List.cons_append, ← List.replicate_succ, ← hk,
      List.takeWhile_append_of_pos fun c hc => beq_iff_eq.mpr (List.eq_of_mem_replicate hc)]
    have hnil : o.info.takeWhile (· == o.fence) = [] := by
      cases hinfo : o.info with
      | nil => rfl
      | cons c info =>
        refine List.takeWhile_cons_of_neg fun hc => o.whole ?_
        rw [hinfo, List.head?_cons, beq_iff_eq.mp hc]
    rw [hnil, List.append_nil]
  unfold fenceOpen
  rw [hdrop]
  dsimp only
  rw [hrun, List.length_replicate, if_pos (by simp [o.isFence, o.long]), ← List.cons_append, ← List.replicate_succ, ← hk,
    List.drop_left' List.length_replicate]

theorem strip_isPrefix (line : Str) : strip line <+: lstrip line := rstrip_isPrefix _

/-- The run that a line starts. -/
theorem fenceRun_prefix {line : Str} {c : Char} {run : Nat} (h : fenceRun line = some (c, run)) :
    (strip line).takeWhile (· == c) = List.replicate run c := by
  unfold fenceRun at h
  split at h
  · cases h
  · rename_i d rest hbody
    dsimp only at h
    split at h
    · cases h
    · obtain ⟨rfl, rfl⟩ := Prod.mk.inj (Option.some.inj h)
      rw [hbody, List.eq_replicate_iff]
      constructor
      · have := congrArg List.length (List.takeWhile_append_dropWhile (p := (· == d)) (l := d :: rest))
        rw [List.length_append] at this
        omega
      · intro a ha
        exact beq_iff_eq.mp (List.mem_takeWhile_imp (p := (· == d)) ha)

theorem strip_of_isBareRun {line : Str} {c : Char} {run : Nat} (h : fenceRun line = some (c, run))
    (hbare : isBareRun line c = true) : strip line = List.replicate run c := by
  rw [← fenceRun_prefix h]
  rw [isBareRun, Bool.and_eq_true] at hbare
  exact (List.takeWhile_eq_self_iff.mpr (List.all_eq_true.mp hbare.2)).symm

theorem fenceRun_of_bare {line : Str} {c : Char} {n : Nat} (hc : isFenceChar c = true) (hn : 3 ≤ n)
    (h : strip line = List.replicate n c) : fenceRun line = some (c, n) ∧ isBareRun line c = true := by
  obtain ⟨k, rfl⟩ : ∃ k, n = k + 3 := ⟨n - 3, by omega⟩
  have hall : (List.replicate (k + 3) c).dropWhile (· == c) = [] :=
    List.dropWhile_eq_nil_iff.mpr fun a ha => beq_iff_eq.mpr (List.eq_of_mem_replicate ha)
  constructor
  · have hbody : strip line = c :: c :: c :: List.replicate k c := h
    have hdrop : (c :: c :: c :: List.replicate k c).dropWhile (· == c) = [] := hall
    unfold fenceRun
    rw [hbody]
    dsimp only
    rw [if_neg (by simp [hc]), hdrop]
    simp
  · rw [isBareRun, h, Bool.and_eq_true]
    exact ⟨by simp [List.replicate_succ], List.all_eq_true.mpr fun a ha => beq_iff_eq.mpr (List.eq_of_mem_replicate ha)⟩

/-- What the reverse pass finds ahead of a bare run. -/
theorem le_longestBare {c : Char} {k : Nat} {line : Str} {lines : List Str} (hc : isFenceChar c = true) (hk : 3 ≤ k)
    (hline : BareRun c k line) (hmem : line ∈ lines) : k ≤ longestBare c lines := by
  obtain ⟨n, hkn, hn⟩ := hline
  obtain ⟨hrun, hbare⟩ := fenceRun_of_bare hc (Nat.le_trans hk hkn) hn
  induction lines with
  | nil => cases hmem
  | cons head lines ih =>
    rcases List.mem_cons.mp hmem with rfl | hmem
    · simp only [longestBare, hrun, hbare, BEq.rfl, Bool.and_self, if_true]
      exact Nat.le_trans hkn (Nat.le_max_right _ _)
    · have := ih hmem
      simp only [longestBare]
      split
      · split
        · exact Nat.le_trans this (Nat.le_max_left _ _)
        · exact this
      · exact this

theorem closes_bare {c : Char} {k : Nat} {line : Str} (hc : isFenceChar c = true) (hk : 3 ≤ k) (h : BareRun c k line)
    (after : Nat) : closes line (c, k) after = true := by
  obtain ⟨n, hkn, hn⟩ := h
  obtain ⟨hrun, hbare⟩ := fenceRun_of_bare hc (Nat.le_trans hk hkn) hn
  have hlt : ¬ n < k := Nat.not_lt.mpr hkn
  simp [closes, hrun, hbare, hlt]

/-- While a bare run is ahead, only a bare run closes. -/
theorem closes_content {c : Char} {k after : Nat} {line : Str} (hafter : k ≤ after) (h : ¬ BareRun c k line) :
    closes line (c, k) after = false := by
  unfold closes
  split
  · rfl
  · rename_i d run hrun
    dsimp only
    split
    · rfl
    · rename_i hfit
      rw [Bool.or_eq_true, not_or, bne_iff_ne, ne_eq, not_not, decide_eq_true_eq, Nat.not_lt] at hfit
      obtain ⟨rfl, hle⟩ := hfit
      split
      · exact absurd ⟨run, hle, strip_of_isBareRun hrun ‹_›⟩ h
      · exact decide_eq_false (Nat.not_lt.mpr hafter)

/-- A line that starts no run of the length closes nothing. -/
theorem closes_unstarted {c : Char} {k after : Nat} {line : Str} (h : ¬ List.replicate k c <+: lstrip line) :
    closes line (c, k) after = false := by
  unfold closes
  split
  · rfl
  · rename_i d run hrun
    dsimp only
    split
    · rfl
    · rename_i hfit
      rw [Bool.or_eq_true, not_or, bne_iff_ne, ne_eq, not_not, decide_eq_true_eq, Nat.not_lt] at hfit
      obtain ⟨rfl, hle⟩ := hfit
      refine absurd ?_ h
      have hstarts : List.replicate k d <+: List.replicate run d :=
        ⟨List.replicate (run - k) d, by rw [List.replicate_append_replicate, Nat.add_sub_cancel' hle]⟩
      rw [← fenceRun_prefix hrun] at hstarts
      exact (hstarts.trans (List.takeWhile_prefix _)).trans (strip_isPrefix line)

/-! ## The scan of a document -/

theorem stripRest_prose (p : ProseLine) (rest : List Str) :
    stripRest false none (p.line :: rest) = sub inlineCode (fun _ => [' ']) p.line :: stripRest false none rest := by
  have hrun : fenceRun p.line = none := by
    refine (fenceRun_eq_none_iff p.line).mpr fun c r hc hl => p.plain c hc ?_
    rw [hl]
    exact List.prefix_append [c, c, c] r
  rw [stripRest, fenceOpen_eq_none hrun]
  rfl

theorem stripRest_content {c : Char} {k : Nat} {closing : Str} (hc : isFenceChar c = true) (hk : 3 ≤ k)
    (hclosing : BareRun c k closing) {content : List Str} (h : ∀ line ∈ content, ¬ BareRun c k line) (rest : List Str) :
    stripRest false (some (c, k)) (content ++ closing :: rest) =
      List.replicate (content.length + 1) [] ++ stripRest false none rest := by
  induction content with
  | nil =>
    rw [List.nil_append, stripRest, closes_bare hc hk hclosing]
    rfl
  | cons line content ih =>
    have hahead : k ≤ longestBare c (content ++ closing :: rest) :=
      le_longestBare hc hk hclosing (List.mem_append_right _ List.mem_cons_self)
    rw [List.cons_append, stripRest, closes_content hahead (h line List.mem_cons_self), if_neg Bool.false_ne_true,
      ih fun line hline => h line (List.mem_cons_of_mem _ hline)]
    rfl

theorem stripRest_block (b : Block) (rest : List Str) :
    stripRest false none (b.lines ++ rest) = List.replicate b.lines.length [] ++ stripRest false none rest := by
  have hahead : b.length ≤ longestBare b.fence (b.content ++ b.closing :: rest) :=
    le_longestBare b.isFence b.long b.closed (List.mem_append_right _ List.mem_cons_self)
  rw [Block.lines, List.cons_append, List.append_assoc, List.singleton_append, stripRest, fenceOpen_line]
  dsimp only
  rw [if_pos (Bool.or_eq_true _ _ |>.mpr (.inr (decide_eq_true hahead))),
    stripRest_content b.isFence b.long b.closed b.inside, List.length_cons, List.length_append, List.length_singleton]
  rfl

theorem stripRest_unclosed {c : Char} {k : Nat} {content : List Str}
    (h : ∀ line ∈ content, ¬ List.replicate k c <+: lstrip line) :
    stripRest false (some (c, k)) content = List.replicate content.length [] := by
  induction content with
  | nil => rfl
  | cons line content ih =>
    rw [stripRest, closes_unstarted (h line List.mem_cons_self), if_neg Bool.false_ne_true,
      ih fun line hline => h line (List.mem_cons_of_mem _ hline)]
    rfl

theorem simpleInfo_token (b : OpenBlock) : simpleInfo b.fence b.info = true := by
  have hticks : (b.fence == '`' && (strip b.info).contains '`') = false := by
    by_contra h
    rw [Bool.not_eq_false, Bool.and_eq_true, beq_iff_eq, List.contains_iff_mem] at h
    exact b.ticks h.1 ((List.dropWhile_suffix isSpace).subset ((strip_isPrefix b.info).subset h.2))
  simp only [simpleInfo, b.token, hticks, Bool.not_false, Bool.and_self]

theorem stripRest_openBlock (b : OpenBlock) : stripRest false none b.lines = List.replicate b.lines.length [] := by
  rw [OpenBlock.lines, stripRest, fenceOpen_line]
  dsimp only
  rw [if_pos (by rw [simpleInfo_token, Bool.true_or]), stripRest_unclosed b.inside]
  rfl

theorem stripRest_parts (parts : List Part) (rest : List Str) :
    stripRest false none (parts.flatMap Part.lines ++ rest) =
      parts.flatMap Part.stripped ++ stripRest false none rest := by
  induction parts with
  | nil => rfl
  | cons part parts ih =>
    rw [List.flatMap_cons, List.flatMap_cons, List.append_assoc, List.append_assoc, ← ih]
    cases part with
    | prose p => exact stripRest_prose p _
    | block b => exact stripRest_block b _

theorem stripRest_document (d : Document) : stripRest false none d.lines = d.stripped := by
  rw [Document.lines, stripRest_parts, Document.stripped]
  cases d.cutOff with
  | none => rfl
  | some b =>
    rw [Option.map_some, Option.getD_some, Option.map_some, Option.getD_some, stripRest_openBlock]

theorem Opener.newline_not_mem (o : Opener) : '\n' ∉ o.line := by
  intro h
  rcases List.mem_append.mp h with h | h
  · exact absurd (o.blank _ h) (by decide)
  · rcases List.mem_append.mp h with h | h
    · have := o.isFence
      rw [← List.eq_of_mem_replicate h] at this
      exact absurd this (by decide)
    · exact o.oneLine h

theorem Document.newline_not_mem (d : Document) : ∀ line ∈ d.lines, '\n' ∉ line := by
  intro line hline
  rcases List.mem_append.mp hline with hline | hline
  · obtain ⟨part, _, hline⟩ := List.mem_flatMap.mp hline
    cases part with
    | prose p =>
      obtain rfl := List.mem_singleton.mp hline
      exact p.oneLine
    | block b =>
      rcases List.mem_cons.mp hline with rfl | hline
      · exact b.newline_not_mem
      · rcases List.mem_append.mp hline with hline | hline
        · exact b.contentLines line hline
        · obtain rfl := List.mem_singleton.mp hline
          exact b.closingLine
  · cases hcut : d.cutOff with
    | none =>
      rw [hcut] at hline
      cases hline
    | some b =>
      rw [hcut] at hline
      rcases List.mem_cons.mp hline with rfl | hline
      · exact b.newline_not_mem
      · exact b.contentLines line hline

/-- **A well-formed document is read as written**: the lines of its blocks are blanked, and its
prose changes only where an inline code span collapses to a space. -/
theorem stripCode_document (d : Document) : stripCode (joinLines d.lines) false = joinLines d.stripped := by
  rw [stripCode_eq, ← stripRest_document]
  by_cases hnil : d.lines = []
  · rw [hnil]
    rfl
  · have hsplit : splitLines (joinLines d.lines) = d.lines := List.splitOn_intercalate '\n' d.newline_not_mem hnil
    rw [hsplit]

/-- A block around a block, and one that is cut off. -/
example : stripCode "a `b` [1]\n````md\n``` py\n[2]\n```\n````\n~~~\n[3]".toList false =
    "a   [1]\n\n\n\n\n\n\n".toList := by decide +kernel

end CiteVyn.Llm
