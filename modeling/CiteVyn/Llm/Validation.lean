import CiteVyn.Llm.Evidence
import Mathlib.Data.List.Sort
import Mathlib.Data.List.Dedup

/-! # The citation validator

`validate_citations` of `app/llm/validation.py`: the indices an answer shows,
the indices it wrote singly, and whether all of them name an evidence bullet. -/
namespace CiteVyn.Llm
open CiteVyn.Lib.Scan CiteVyn.Text

/-- `NO_ANSWER_REFUSAL` of `app/llm/prompts.py`. -/
def noAnswerRefusal : Str :=
  "I do not have credible source material in this assistant to answer that.".toList

/-- `_NO_ANSWER_SUBSTRING`. -/
def noAnswerSubstring : Str := "do not have credible source material".toList

/-- `_is_no_answer_refusal`. -/
def isNoAnswerRefusal (answerText : Str) : Bool :=
  let stripped := strip answerText
  stripped == noAnswerRefusal || contains noAnswerSubstring (lower stripped)

structure CitationValidationResult where
  valid : Bool
  citedIndices : List Nat := []
  singlyCitedIndices : List Nat := []
  uncitedIndices : List Nat := []
  reason : Option String := none
  deriving Repr, DecidableEq

/-- `sorted` of a set. -/
def sortedSet (ns : List Nat) : List Nat := ns.dedup.insertionSort (· ≤ ·)

/-- `sorted({int(m) for m in markers})`. -/
def indexSet (markers : List Str) : Except IntError (List Nat) := do
  return sortedSet (← markers.mapM int)

def outOfRangeReason (outOfRange : List Nat) (evidenceCount : Nat) : String :=
  s!"citation index out of range: {outOfRange}; evidence has {evidenceCount} bullet(s)"

/-- The end of `validate_citations`, from the indices it read. -/
def judgeIndices (evidenceCount : Nat) (citedIndices singlyCitedIndices : List Nat) :
    CitationValidationResult :=
  let shownOrCounted := sortedSet (citedIndices ++ singlyCitedIndices)
  let outOfRange := shownOrCounted.filter fun n => n < 1 || evidenceCount < n
  if !outOfRange.isEmpty then
    { valid := false
      citedIndices
      singlyCitedIndices
      reason := some (outOfRangeReason outOfRange evidenceCount) }
  else
    let uncited := (List.range' 1 evidenceCount).filter fun n => !citedIndices.contains n
    { valid := true, citedIndices, singlyCitedIndices, uncitedIndices := uncited }

/-- `validate_citations`. The `ValueError` of `int` is the error. -/
def validateCitations {ε : Type} (answerText : Str) (evidence : List ε) :
    Except IntError CitationValidationResult :=
  if isNoAnswerRefusal answerText then .ok { valid := true }
  else do
    let citedIndices ← indexSet (citedMarkers (expandGroupedMarkers answerText))
    let singlyCitedIndices ← indexSet (citedMarkers answerText)
    return judgeIndices evidence.length citedIndices singlyCitedIndices

/-! ## Reading the markers as numbers -/

@[simp] theorem mem_sortedSet {n : Nat} {ns : List Nat} : n ∈ sortedSet ns ↔ n ∈ ns := by
  simp [sortedSet]

theorem decimal_of_mem_citations {text m : Str} (h : m ∈ citations text) :
    m ≠ [] ∧ m.all isDecimal = true := by
  obtain ⟨w, hw, rfl⟩ := List.mem_map.mp h
  obtain ⟨pre, t, n, hn, _, rfl, _⟩ := exists_of_mem_hits _ _ _ hw
  obtain ⟨ds, rest, rfl, hne, hds, hlen⟩ := citation_spec hn
  have : citationDigits (('[' :: ds ++ ']' :: rest).take (n + 1)) = ds := by
    have hcut : ('[' :: ds ++ ']' :: rest).take (n + 1) = '[' :: ds ++ [']'] := by
      rw [hlen, show '[' :: ds ++ ']' :: rest = ('[' :: ds ++ [']']) ++ rest by simp]
      exact List.take_left' (by simp)
    rw [hcut]
    simp [citationDigits]
  rw [this]
  exact ⟨hne, hds⟩

theorem decimal_of_mem_citedMarkers {text m : Str} (h : m ∈ citedMarkers text) :
    m ≠ [] ∧ m.all isDecimal = true := by
  simp only [citedMarkers] at h
  split at h <;> exact decimal_of_mem_citations h

/-- A marker too long for `int`. -/
def tooLong (m : Str) : Bool := intMaxStrDigits < m.length

theorem int_marker {m : Str} (h : m ≠ [] ∧ m.all isDecimal = true) :
    int m = if tooLong m then .error .tooManyDigits else .ok (digitsValue m) := by
  have hne : m.isEmpty = false := by simpa using h.1
  simp [int, tooLong, hne, h.2]

/-- The markers' numbers, unless one of the markers is too long to read. -/
theorem mapM_int : ∀ {ms : List Str}, (∀ m ∈ ms, m ≠ [] ∧ m.all isDecimal = true) →
    ms.mapM int = if ms.any tooLong then .error .tooManyDigits else .ok (ms.map digitsValue)
  | [], _ => rfl
  | m :: ms, h => by
    have ih := mapM_int fun m' hm' => h m' (List.mem_cons_of_mem _ hm')
    rw [List.mapM_cons, int_marker (h m List.mem_cons_self), ih]
    cases hm : tooLong m <;> cases hms : ms.any tooLong <;> simp [hm, hms] <;> rfl

theorem indexSet_citedMarkers (text : Str) :
    indexSet (citedMarkers text) =
      if (citedMarkers text).any tooLong then .error .tooManyDigits
      else .ok (sortedSet ((citedMarkers text).map digitsValue)) := by
  rw [indexSet, mapM_int fun m hm => decimal_of_mem_citedMarkers hm]
  split <;> rfl

/-! ## What a verdict says -/

/-- The numbers an answer shows once its groups are split. -/
def shownNumbers (text : Str) : List Nat :=
  (citedMarkers (expandGroupedMarkers text)).map digitsValue

/-- The numbers an answer writes singly. -/
def singleNumbers (text : Str) : List Nat := (citedMarkers text).map digitsValue

/-- Some marker, shown or single, is too long for `int`. -/
def hasTooLong (text : Str) : Bool :=
  (citedMarkers (expandGroupedMarkers text)).any tooLong || (citedMarkers text).any tooLong

def InRange (n count : Nat) : Prop := 1 ≤ n ∧ n ≤ count

/-- Every index the answer shows or counts names an evidence bullet. -/
def AllInRange (text : Str) (count : Nat) : Prop :=
  (∀ n ∈ shownNumbers text, InRange n count) ∧ ∀ n ∈ singleNumbers text, InRange n count

/-- What the validator answers on a text that is no refusal and that it can
read. -/
structure Verdict (text : Str) (count : Nat) (r : CitationValidationResult) : Prop where
  cited : r.citedIndices = sortedSet (shownNumbers text)
  single : r.singlyCitedIndices = sortedSet (singleNumbers text)
  valid : r.valid = true ↔ AllInRange text count

theorem judgeIndices_valid (count : Nat) (cited single : List Nat) :
    (judgeIndices count cited single).valid = true ↔
      (∀ n ∈ cited, InRange n count) ∧ ∀ n ∈ single, InRange n count := by
  have hrange : ((sortedSet (cited ++ single)).filter fun n => n < 1 || count < n) = [] ↔
      (∀ n ∈ cited, InRange n count) ∧ ∀ n ∈ single, InRange n count := by
    rw [List.filter_eq_nil_iff, ← List.forall_mem_append]
    simp only [mem_sortedSet, Bool.or_eq_true, decide_eq_true_eq, InRange]
    exact forall₂_congr fun n _ => by omega
  unfold judgeIndices
  simp only
  split
  · rename_i h
    refine iff_of_false (by simp) fun hall => ?_
    rw [hrange.mpr hall] at h
    cases h
  · rename_i h
    exact iff_of_true rfl (hrange.mp (by simpa using h))

theorem judgeIndices_cited (count : Nat) (cited single : List Nat) :
    (judgeIndices count cited single).citedIndices = cited ∧
      (judgeIndices count cited single).singlyCitedIndices = single := by
  unfold judgeIndices
  simp only
  split <;> exact ⟨rfl, rfl⟩

theorem validateCitations_refusal {ε : Type} {text : Str} {evidence : List ε}
    (h : isNoAnswerRefusal text = true) :
    validateCitations text evidence = .ok { valid := true } := if_pos h

theorem validateCitations_tooLong {ε : Type} {text : Str} {evidence : List ε}
    (h : isNoAnswerRefusal text = false) (hl : hasTooLong text = true) :
    validateCitations text evidence = .error .tooManyDigits := by
  rw [validateCitations, if_neg (by simp [h]), indexSet_citedMarkers, indexSet_citedMarkers]
  cases hc : (citedMarkers (expandGroupedMarkers text)).any tooLong with
  | true => rfl
  | false =>
    have hs : (citedMarkers text).any tooLong = true := by simpa [hasTooLong, hc] using hl
    rw [hs]
    rfl

theorem validateCitations_verdict {ε : Type} {text : Str} (evidence : List ε)
    (h : isNoAnswerRefusal text = false) (hl : hasTooLong text = false) :
    ∃ r, validateCitations text evidence = .ok r ∧ Verdict text evidence.length r := by
  obtain ⟨hshown, hsingle⟩ := Bool.or_eq_false_iff.mp hl
  refine ⟨judgeIndices evidence.length (sortedSet (shownNumbers text))
    (sortedSet (singleNumbers text)), ?_, (judgeIndices_cited _ _ _).1, (judgeIndices_cited _ _ _).2, ?_⟩
  · rw [validateCitations, if_neg (by simp [h]), indexSet_citedMarkers, indexSet_citedMarkers,
      hshown, hsingle]
    rfl
  · rw [judgeIndices_valid]
    simp only [mem_sortedSet, AllInRange]

/-- Every answer of the validator: the refusal's, or a verdict. -/
theorem validateCitations_cases {ε : Type} {text : Str} {evidence : List ε}
    {r : CitationValidationResult} (h : validateCitations text evidence = .ok r) :
    (isNoAnswerRefusal text = true ∧ r = { valid := true }) ∨
      (isNoAnswerRefusal text = false ∧ hasTooLong text = false ∧
        Verdict text evidence.length r) := by
  cases href : isNoAnswerRefusal text with
  | true =>
    rw [validateCitations_refusal href] at h
    exact .inl ⟨rfl, (Except.ok.inj h).symm⟩
  | false =>
    cases hl : hasTooLong text with
    | true =>
      rw [validateCitations_tooLong href hl] at h
      cases h
    | false =>
      obtain ⟨r', hr', hv⟩ := validateCitations_verdict evidence href hl
      rw [hr'] at h
      obtain rfl := Except.ok.inj h
      exact .inr ⟨rfl, rfl, hv⟩

/-! ## Single markers and shown markers -/

/-- The raw answer has single markers in code only, and a group outside code:
the raw scan falls back to the code, the scan of the expanded text does not. -/
def FallsBackAlone (text : Str) : Prop :=
  citations (stripCode text false) = [] ∧
    citations (stripCode (expandGroupedMarkers text) false) ≠ []

theorem citedMarkers_expand (text : Str) :
    ((∀ m ∈ citedMarkers text, m ∈ citedMarkers (expandGroupedMarkers text)) ∨
      FallsBackAlone text) ∧
      (citedMarkers text ≠ [] → citedMarkers (expandGroupedMarkers text) ≠ []) := by
  obtain ⟨hraw, hmask⟩ := citations_expand text
  rw [← citations_stripCode, ← citations_stripCode] at hmask
  simp only [citedMarkers, FallsBackAlone, List.isEmpty_iff]
  by_cases h1 : citations (stripCode text false) = []
  · by_cases h2 : citations (stripCode (expandGroupedMarkers text) false) = []
    · simp only [h1, h2, if_true]
      refine ⟨.inl fun m hm => hraw.subset hm, fun hne hnil => hne ?_⟩
      rw [hnil] at hraw
      exact List.sublist_nil.mp hraw
    · simp only [h1, h2, if_true, if_false]
      exact ⟨.inr ⟨trivial, h2⟩, fun _ => h2⟩
  · have h2 : citations (stripCode (expandGroupedMarkers text) false) ≠ [] := by
      intro hnil
      rw [hnil] at hmask
      exact h1 (List.sublist_nil.mp hmask)
    simp only [h1, h2, if_false]
    exact ⟨.inl fun m hm => hmask.subset hm, fun _ => h2⟩

/-- **Counted indices have cards.** In a valid answer every index written
singly is shown, unless the raw scan alone fell back into code; and an answer
with a single index always shows one. -/
theorem singlyCited_subset_cited {ε : Type} (text : Str) (evidence : List ε)
    (r : CitationValidationResult) (h : validateCitations text evidence = .ok r)
    (hvalid : r.valid = true) :
    ((∀ n ∈ r.singlyCitedIndices, n ∈ r.citedIndices) ∨ FallsBackAlone text) ∧
      (r.singlyCitedIndices ≠ [] → r.citedIndices ≠ []) := by
  rcases validateCitations_cases h with ⟨_, rfl⟩ | ⟨_, _, hv⟩
  · exact ⟨.inl fun n hn => (List.not_mem_nil hn).elim, fun hne => absurd rfl hne⟩
  obtain ⟨hsub, hne⟩ := citedMarkers_expand text
  rw [hv.cited, hv.single]
  constructor
  · refine hsub.imp (fun hsub n hn => ?_) id
    rw [mem_sortedSet] at hn ⊢
    obtain ⟨m, hm, rfl⟩ := List.mem_map.mp hn
    exact List.mem_map.mpr ⟨m, hsub m hm, rfl⟩
  · intro hs
    obtain ⟨n, hn⟩ := List.exists_mem_of_ne_nil _ hs
    obtain ⟨m, hm, _⟩ := List.mem_map.mp (mem_sortedSet.mp hn)
    obtain ⟨m', hm'⟩ := List.exists_mem_of_ne_nil _ (hne (List.ne_nil_of_mem hm))
    exact List.ne_nil_of_mem (mem_sortedSet.mpr (List.mem_map.mpr ⟨m', hm', rfl⟩))

theorem singlyCited_subset_cited_group :
    ((∀ n ∈ [1], n ∈ [1, 2]) ∨ FallsBackAlone "See [1]. Also [1, 2].".toList) ∧
      ([1] ≠ ([] : List Nat) → [1, 2] ≠ ([] : List Nat)) :=
  singlyCited_subset_cited "See [1]. Also [1, 2].".toList [(), ()]
    { valid := true, citedIndices := [1, 2], singlyCitedIndices := [1] }
    (by decide +kernel) rfl

/-- The index of a marker in code is counted without being shown. -/
theorem singlyCited_not_cited : ∃ r,
    validateCitations "`[3]` [1, 2]".toList [(), (), ()] = .ok r ∧ r.valid = true ∧
      ∃ n ∈ r.singlyCitedIndices, n ∉ r.citedIndices :=
  ⟨{ valid := true, citedIndices := [1, 2], singlyCitedIndices := [3], uncitedIndices := [3] },
    by decide +kernel, rfl, 3, by decide, by decide⟩

end CiteVyn.Llm
