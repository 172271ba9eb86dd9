import CiteVyn.Llm.Validation

/-! # Source cards

The evidence a retriever returns (`app/retrieval/types.py`), the cards
`Orchestrator.ask` builds from it, and what it derives from the cited
indices: the confidence, the "docs as of" date and the note a comparison
answer ends with (`app/answer/comparison.py`). -/
namespace CiteVyn.Answer
open CiteVyn.Text CiteVyn.Llm

inductive RetrievalType where
  | exact
  | keyword
  | vector
  | hybrid
  deriving Repr, DecidableEq

/-- `EvidenceHit`, with the fields the answer path reads. A date is its ISO
text. -/
structure EvidenceHit where
  chunkId : String
  productArea : String
  sourceName : String
  documentTitle : String
  sourceUrl : String
  contentAsOf : Option String := none
  retrievalType : RetrievalType := .hybrid
  deriving Repr, DecidableEq

/-- A citation of the response: `chunk_to_citation` with its `marker`. -/
structure Citation where
  sourceName : String
  title : String
  url : String
  chunkId : String
  docsAsOf : Option String
  marker : Nat
  deriving Repr, DecidableEq

/-- `chunk_to_citation(chunk) | {"marker": marker}`. -/
def chunkToCitation (chunk : EvidenceHit) (marker : Nat) : Citation where
  sourceName := chunk.sourceName
  title := chunk.documentTitle
  url := chunk.sourceUrl
  chunkId := chunk.chunkId
  docsAsOf := chunk.contentAsOf
  marker := marker

/-- `xs[i]`: a negative index counts from the end; none is the `IndexError`. -/
def item {α : Type} (xs : List α) (i : Int) : Option α :=
  if 0 ≤ i then xs[i.toNat]?
  else if -(xs.length : Int) ≤ i then xs[(xs.length + i).toNat]?
  else none

/-- `visible_citations`. -/
def visibleCitations (evidence : List EvidenceHit) (usedIndices : List Nat) :
    Option (List Citation) :=
  usedIndices.mapM fun (i : Nat) => (item evidence ((i : Int) - 1)).map (chunkToCitation · i)

/-- `docs_as_of`: the oldest date among the citations. -/
def docsAsOf (citations : List Citation) : Option String :=
  match citations.filterMap Citation.docsAsOf with
  | [] => none
  | d :: dates => some (dates.foldl (fun oldest d => if d < oldest then d else oldest) d)

inductive Confidence where
  | high
  | medium
  | low
  | none
  deriving Repr, DecidableEq

/-- `_confidence_for`. The quotient is compared as a fraction: a quotient of two
lengths that is not on a threshold is nowhere near one. -/
def confidenceFor (citedIndices : List Nat) (evidenceCount : Nat) : Confidence :=
  if citedIndices.isEmpty || evidenceCount == 0 then .low
  else if 66 * evidenceCount ≤ 100 * citedIndices.length then .high
  else if 33 * evidenceCount ≤ 100 * citedIndices.length then .medium
  else .low

/-! ## Comparison answers -/

/-- `product_name`. -/
def productName (area : String) : String :=
  match area with
  | "claude_api" => "the Claude API"
  | "claude_code" => "Claude Code"
  | "codex" => "Codex"
  | "gemini_api" => "the Gemini API"
  | _ => area

/-- `_join`. -/
def joinNames (names : List String) (word : String) : String :=
  if names.length ≤ 1 then String.join names
  else ", ".intercalate names.dropLast ++ s!" {word} " ++ names.getLastD ""

/-- `comparison_instruction`. -/
def comparisonInstruction (areas : List String) : String :=
  let names := joinNames (areas.map productName) "and"
  s!"This question is about {names}. Answer for each of them, " ++
    "citing that product's own evidence."

/-- `missing_areas`. -/
def missingAreas (named : List String) (evidence : List EvidenceHit) (citedIndices : List Nat) :
    List String :=
  let cited := (citedIndices.filter fun i => 1 ≤ i && i ≤ evidence.length).filterMap fun i =>
    (item evidence ((i : Int) - 1)).map EvidenceHit.productArea
  named.filter fun a => !cited.contains a

/-- `missing_note`. -/
def missingNote (areas : List String) : String :=
  if areas.isEmpty then ""
  else
    let names := joinNames (areas.map productName) "or"
    s!"The documentation I have does not cover {names} for this question."

/-! ## The cards of a valid answer -/

theorem item_pred {α : Type} {xs : List α} {n : Nat} (h : InRange n xs.length) :
    ∃ x, xs[n - 1]? = some x ∧ item xs ((n : Int) - 1) = some x := by
  obtain ⟨h1, h2⟩ := h
  have hlt : n - 1 < xs.length := by omega
  refine ⟨xs[n - 1], List.getElem?_eq_getElem hlt, ?_⟩
  rw [item, if_pos (by omega), show ((n : Int) - 1).toNat = n - 1 by omega,
    List.getElem?_eq_getElem hlt]

/-- Cards for indices in range: one for each, in order, from its evidence. -/
theorem visibleCitations_spec {evidence : List EvidenceHit} :
    ∀ (used : List Nat), (∀ n ∈ used, InRange n evidence.length) →
      ∃ cards, visibleCitations evidence used = some cards ∧ cards.map Citation.marker = used ∧
        ∀ card ∈ cards, ∃ hit, evidence[card.marker - 1]? = some hit ∧
          card = chunkToCitation hit card.marker
  | [], _ => ⟨[], rfl, rfl, fun _ h => (List.not_mem_nil h).elim⟩
  | n :: used, h => by
    obtain ⟨cards, hcards, hmarkers, hfrom⟩ :=
      visibleCitations_spec used fun m hm => h m (List.mem_cons_of_mem _ hm)
    obtain ⟨hit, hget, hitem⟩ := item_pred (h n List.mem_cons_self)
    refine ⟨chunkToCitation hit n :: cards, ?_, ?_, ?_⟩
    · unfold visibleCitations at hcards ⊢
      rw [List.mapM_cons, hitem, hcards]
      rfl
    · rw [List.map_cons, hmarkers]
      rfl
    · intro card hcard
      rcases List.mem_cons.mp hcard with rfl | hcard
      · exact ⟨hit, hget, rfl⟩
      · exact hfrom card hcard

theorem sortedSet_idem (ns : List Nat) : sortedSet (sortedSet ns) = sortedSet ns := by
  have hnodup : (sortedSet ns).Nodup :=
    (List.perm_insertionSort (· ≤ ·) ns.dedup).nodup_iff.mpr ns.nodup_dedup
  have hsorted : (sortedSet ns).Pairwise (· ≤ ·) := List.pairwise_insertionSort (· ≤ ·) ns.dedup
  unfold sortedSet at hnodup hsorted ⊢
  rw [List.dedup_eq_self.mpr hnodup, hsorted.insertionSort_eq]

/-- **No card without a marker, no marker without a card.** The markers of the
served text are the markers of the cards, all name evidence, and the card of
marker `m` is built from the evidence at `m - 1`. -/
theorem served_markers_eq_cards (u : Unicode) (raw : Str) (evidence : List EvidenceHit)
    (r : CitationValidationResult) (h : validateCitations raw evidence = .ok r)
    (hvalid : r.valid = true) (hsingle : r.singlyCitedIndices ≠ []) :
    let served := (rewriteEvidenceReferences u (expandGroupedMarkers raw)).text
    ∃ markers cards, indexSet (citedMarkers served) = .ok markers ∧
      visibleCitations evidence (sortedSet r.citedIndices) = some cards ∧
      cards.map Citation.marker = markers ∧
      (∀ m ∈ markers, 1 ≤ m ∧ m ≤ evidence.length) ∧
      ∀ card ∈ cards, ∃ hit, evidence[card.marker - 1]? = some hit ∧
        card = chunkToCitation hit card.marker := by
  intro served
  rcases validateCitations_cases h with ⟨_, rfl⟩ | ⟨_, hlong, hv⟩
  · exact absurd rfl hsingle
  obtain ⟨hshown, _⟩ := hv.valid.mp hvalid
  have hrange : ∀ n ∈ r.citedIndices, InRange n evidence.length := by
    intro n hn
    rw [hv.cited, mem_sortedSet] at hn
    exact hshown n hn
  have hread : indexSet (citedMarkers served) = .ok r.citedIndices := by
    have hlong' : (citedMarkers (expandGroupedMarkers raw)).any tooLong = false :=
      (Bool.or_eq_false_iff.mp hlong).1
    rw [citedMarkers_rewrite, indexSet_citedMarkers, hlong', hv.cited]
    rfl
  obtain ⟨cards, hcards, hmarkers, hfrom⟩ := visibleCitations_spec _ hrange
  have hused : sortedSet r.citedIndices = r.citedIndices := by rw [hv.cited, sortedSet_idem]
  exact ⟨r.citedIndices, cards, hread, by rw [hused, hcards], hmarkers, hrange, hfrom⟩

/-- Two bullets, and an answer that cites one singly and both in a group. -/
def twoBullets : List EvidenceHit :=
  [{ chunkId := "c1", productArea := "codex", sourceName := "s1", documentTitle := "One",
     sourceUrl := "https://one" },
   { chunkId := "c2", productArea := "codex", sourceName := "s2", documentTitle := "Two",
     sourceUrl := "https://two" }]

theorem served_markers_eq_cards_group :
    let served := (rewriteEvidenceReferences .ascii
      (expandGroupedMarkers "The evidence says it [2]. See [1, 2].".toList)).text
    ∃ markers cards, indexSet (citedMarkers served) = .ok markers ∧
      visibleCitations twoBullets (sortedSet [1, 2]) = some cards ∧
      cards.map Citation.marker = markers ∧
      (∀ m ∈ markers, 1 ≤ m ∧ m ≤ twoBullets.length) ∧
      ∀ card ∈ cards, ∃ hit, twoBullets[card.marker - 1]? = some hit ∧
        card = chunkToCitation hit card.marker :=
  served_markers_eq_cards .ascii "The evidence says it [2]. See [1, 2].".toList twoBullets
    { valid := true, citedIndices := [1, 2], singlyCitedIndices := [2] }
    (by decide +kernel) rfl (by decide)

end CiteVyn.Answer
