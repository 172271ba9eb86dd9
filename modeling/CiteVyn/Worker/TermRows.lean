import CiteVyn.Worker.Ingestion

/-! # The terms of a chunk and their rows

`_materialize_terms` of `app/worker/runner.py` looks for the section's text in the text of a
chunk, after the first stop with a space, and a title or a heading may have one too. The rows
it writes for one chunk have texts of their own. -/
namespace CiteVyn.Worker.Ingestion
open CiteVyn.Text CiteVyn.Worker.ExactTerms

/-! ## The text of the section -/

/-- The title of the chunks of a document. -/
def titleOf (parsed : ParsedDocument) (source : SourceSpec) : Str :=
  if parsed.title.isEmpty then source.title else parsed.title

/-- No stop is followed by a space. -/
def NoStop (s : Str) : Prop := ¬['.', ' '] <:+: s

instance (s : Str) : Decidable (NoStop s) := inferInstanceAs (Decidable (¬_))

/-- After an early stop more is left. -/
theorem length_le_afterStop (p rest : Str) : ∃ t, afterStop (p ++ '.' :: ' ' :: rest) = some t ∧ rest.length ≤ t.length := by
  induction p with
  | nil => exact ⟨rest, rfl, le_rfl⟩
  | cons c p ih =>
    rw [List.cons_append]
    unfold afterStop
    split
    · rename_i t heq
      refine ⟨t, rfl, ?_⟩
      have hlen := congrArg List.length (List.cons.inj heq).2
      simp only [List.length_append, List.length_cons] at hlen
      omega
    · rename_i d t _ heq
      obtain ⟨-, rfl⟩ := List.cons.inj heq
      exact ih
    · rename_i heq
      cases heq

theorem afterStop_of_noStop {p : Str} (h : NoStop p) (body : Str) : afterStop (p ++ '.' :: ' ' :: body) = some body := by
  induction p with
  | nil => rfl
  | cons c p ih =>
    have hp : NoStop p := fun hstop => h (hstop.trans (List.suffix_cons c p).isInfix)
    rw [List.cons_append]
    unfold afterStop
    split
    · rename_i t heq
      obtain ⟨rfl, hrest⟩ := List.cons.inj heq
      cases p with
      | nil => cases hrest
      | cons d p =>
        obtain ⟨rfl, -⟩ := List.cons.inj hrest
        exact absurd ⟨[], p, rfl⟩ h
    · rename_i d t _ heq
      obtain ⟨-, rfl⟩ := List.cons.inj heq
      exact ih hp
    · rename_i heq
      cases heq

theorem afterStop_eq_iff (p body : Str) : afterStop (p ++ '.' :: ' ' :: body) = some body ↔ NoStop p := by
  refine ⟨fun h hstop => ?_, fun h => afterStop_of_noStop h body⟩
  obtain ⟨x, y, rfl⟩ := hstop
  obtain ⟨t, ht, hlen⟩ := length_le_afterStop x (y ++ '.' :: ' ' :: body)
  have hsplit : x ++ ['.', ' '] ++ y ++ '.' :: ' ' :: body = x ++ '.' :: ' ' :: (y ++ '.' :: ' ' :: body) := by simp
  rw [hsplit, ht] at h
  obtain rfl := Option.some.inj h
  rw [List.length_append, List.length_cons, List.length_cons] at hlen
  omega

theorem noStop_append (s t : Str) : NoStop (s ++ t) ↔ NoStop s ∧ NoStop t ∧ ¬(['.'] <:+ s ∧ [' '] <+: t) := by
  have hsplit : (∃ l₁ l₂, l₁ ≠ [] ∧ l₂ ≠ [] ∧ ['.', ' '] = l₁ ++ l₂ ∧ l₁ <:+ s ∧ l₂ <+: t) ↔ ['.'] <:+ s ∧ [' '] <+: t := by
    constructor
    · rintro ⟨l₁, l₂, h₁, h₂, heq, hs, ht⟩
      match l₁, h₁, heq with
      | [_], _, heq =>
        obtain ⟨rfl, rfl⟩ := List.cons.inj heq
        exact ⟨hs, ht⟩
      | [_, _], _, heq => exact absurd (List.cons.inj (List.cons.inj heq).2).2.symm h₂
    · rintro ⟨hs, ht⟩
      exact ⟨['.'], [' '], List.cons_ne_nil _ _, List.cons_ne_nil _ _, rfl, hs, ht⟩
  unfold NoStop
  rw [List.infix_append_iff_ne_nil, hsplit, not_or, not_or]

/-- What stands in front of a section's text has no stop but its own. -/
theorem noStop_front (title heading : Str) :
    NoStop (title ++ " — ".toList ++ heading) ↔ NoStop title ∧ ¬['.'] <:+ title ∧ NoStop heading := by
  have hdash : NoStop " — ".toList := by decide
  have hhead : [' '] <+: " — ".toList ++ heading := ⟨'—' :: ' ' :: heading, rfl⟩
  have hlast : ¬['.'] <:+ " — ".toList := by decide
  rw [List.append_assoc, noStop_append, noStop_append]
  tauto

theorem bodyOf_buildDraft_iff (order : Nat) (title : Str) (block : Block) :
    bodyOf (buildDraft order title block).text = (buildDraft order title block).preText ↔
      NoStop title ∧ ¬['.'] <:+ title ∧ NoStop block.heading := by
  rw [← noStop_front, ← afterStop_eq_iff _ block.text]
  have htext : (buildDraft order title block).text =
      title ++ " — ".toList ++ block.heading ++ '.' :: ' ' :: block.text := by
    show title ++ " — ".toList ++ block.heading ++ ". ".toList ++ block.text = _
    rw [List.append_assoc]
    rfl
  obtain ⟨t, ht, -⟩ := length_le_afterStop (title ++ " — ".toList ++ block.heading) block.text
  rw [htext, bodyOf, ht]
  exact ⟨congrArg some, Option.some.inj⟩

variable {Id : Type}

/-- The terms of a chunk come from its section's text, for every section of a document,
where no stop with a space stands in front of it. -/
theorem bodyOf_iff (parsed : ParsedDocument) (source : SourceSpec) :
    (∀ draft ∈ chunkDocument parsed source.title, bodyOf draft.text = draft.preText ∧
        ∀ u embedding, termsOf u (toChunk source embedding draft) = extractTerms u draft.preText) ↔
      ∀ block ∈ parsed.blocks,
        NoStop (titleOf parsed source) ∧ ¬['.'] <:+ titleOf parsed source ∧ NoStop block.heading := by
  constructor
  · intro h block hblock
    obtain ⟨i, hi, rfl⟩ := List.getElem_of_mem hblock
    refine (bodyOf_buildDraft_iff i (titleOf parsed source) parsed.blocks[i]).mp (h _ ?_).1
    exact List.mem_mapIdx.mpr ⟨i, hi, rfl⟩
  · intro h draft hdraft
    obtain ⟨i, hi, rfl⟩ := List.mem_mapIdx.mp hdraft
    have hbody := (bodyOf_buildDraft_iff i (titleOf parsed source) parsed.blocks[i]).mpr (h _ (List.getElem_mem hi))
    exact ⟨hbody, fun u _ => congrArg (extractTerms u) hbody⟩

/-- A stop in a heading: the rest of the heading is taken for the section's text. -/
theorem bodyOf_heading :
    ¬∀ (parsed : ParsedDocument) (source : SourceSpec), ∀ draft ∈ chunkDocument parsed source.title,
      bodyOf draft.text = draft.preText := by
  intro h
  have hbody := h ⟨"T".toList, [⟨"A. B".toList, "c".toList⟩]⟩ ⟨[], [], [], [], [], none⟩ _ List.mem_cons_self
  exact absurd hbody (by decide)

/-! ## The rows of a chunk -/

/-- The terms of a draft have texts of their own, so the rows of a chunk have keys of their own. -/
theorem termRows_keys (u : Unicode) (draft : ChunkDraft) :
    ((extractTerms u draft.preText).map ExtractedTerm.termText).Nodup ∧
      ∀ (env : Env Id) (source : SourceSpec) (row : ChunkRow Id),
        ((termRows u env source [row]).map fun t => (t.term.termText, t.productArea, t.chunkId)).Nodup := by
  refine ⟨extractTerms_texts u _, fun env source row => ?_⟩
  have hkeys : (termRows u env source [row]).map (fun t => (t.term.termText, t.productArea, t.chunkId)) =
      (termsOf u row.chunk).map fun term => (term.termText, source.productArea, row.chunkId) := by
    refine List.ext_getElem (by simp [termRows]) fun i _ _ => ?_
    simp [termRows]
  rw [hkeys]
  have htexts := extractTerms_texts u (bodyOf row.chunk.chunkText)
  refine List.Nodup.of_map Prod.fst ?_
  rw [List.map_map]
  exact htexts

end CiteVyn.Worker.Ingestion
