import CiteVyn.Llm.Rewording

/-! # Splitting groups after rewording

Splitting the grouped markers reads nothing of the prose between them but that it is prose.
So it finds and splits the same groups after the phrases are reworded, and the markers are the
same ones. -/
namespace CiteVyn.Llm
open CiteVyn.Lib.Scan CiteVyn.Lib.Rewrite CiteVyn.Text Cell

/-- Prose: neither code nor brackets nor digits. -/
structure Prosaic (w : List Cell) : Prop where
  ne : w ≠ []
  prose : (masks w).all isProseChar = true

theorem Prosaic.texts_eq {w : List Cell} (h : Prosaic w) : texts w = masks w :=
  texts_eq_masks fun hmem => absurd (List.all_eq_true.mp h.prose _ hmem) (by decide)

/-- The same cells, but for stretches of prose. -/
inductive Reprosed : List Cell → List Cell → Prop
  | nil : Reprosed [] []
  | cons (c : Cell) {x y : List Cell} : Reprosed x y → Reprosed (c :: x) (c :: y)
  | edit {w w' x y : List Cell} : Prosaic w → Prosaic w' → Reprosed x y → Reprosed (w ++ x) (w' ++ y)

theorem Reprosed.append {x y : List Cell} (h : Reprosed x y) (a : List Cell) : Reprosed (a ++ x) (a ++ y) := by
  induction a with
  | nil => exact h
  | cons c a ih => exact .cons c ih

/-- Prose holds no marker. -/
theorem Reprosed.citations_eq {x y : List Cell} (h : Reprosed x y) (g : Cell → Char)
    (hg : ∀ w, Prosaic w → w.map g = masks w) (p : Str) : citations (p ++ x.map g) = citations (p ++ y.map g) := by
  induction h generalizing p with
  | nil => rfl
  | @cons c x y _ ih =>
    have := ih (p ++ [g c])
    simpa using this
  | @edit w w' x y hw hw' _ ih =>
    have isolated {w : List Cell} (hw : Prosaic w) (x : List Cell) :
        citations (p ++ (w ++ x).map g) = citations p ++ citations (x.map g) := by
      rw [List.map_append, hg w hw, ← List.append_assoc]
      exact citations_isolated (fun hnil => hw.ne (List.map_eq_nil_iff.mp hnil)) (all_isMarkerFree hw.prose) _ _
    have := ih []
    rw [List.nil_append, List.nil_append] at this
    rw [isolated hw, isolated hw', this]

/-- A rewriter from prose to prose, on which no group goes on. -/
structure Rewords (e : Rewriter Cell) : Prop where
  prose : ProseRewriter e
  stops : StopsGroups e
  prosaic : ∀ pre w s new, w ≠ [] → e pre (w ++ s) = some (w.length, new) → Prosaic w ∧ Prosaic new

theorem evidenceRewriter_rewords (u : Unicode) : Rewords (evidenceRewriter u) where
  prose := evidenceRewriter_prose u
  stops := by
    intro pre w s new hw h
    obtain ⟨_, _, str, rfl, _, hr⟩ := evidenceRewriter_edit h
    have first {a : Str} (tail : Str) (ha : a ≠ []) (h : startsThe (a ++ tail) = true) :
        a.head?.any stopsGroup = true := by
      obtain ⟨c, cs, rfl⟩ := List.exists_cons_of_ne_nil ha
      rcases startsThe_head h with h | h
      · rw [h]
        rfl
      · rw [h]
        rfl
    refine ⟨first _ (fun hnil => hw (List.map_eq_nil_iff.mp hnil)) hr.start, first [] ?_ ?_⟩
    · exact fun hnil => ne_nil_of_starts hr.starts (List.map_eq_nil_iff.mp hnil)
    · rw [masks_plainCells]
      exact hr.starts []
  prosaic := by
    intro pre w s new hw h
    obtain ⟨_, hold, str, rfl, hnew, hr⟩ := evidenceRewriter_edit h
    refine ⟨⟨hw, hold⟩, ne_nil_of_starts hr.starts, ?_⟩
    rwa [masks_plainCells]

/-- No group is found in prose. -/
theorem Prosaic.idle {w : List Cell} (hw : Prosaic w) (pre s : List Cell) : IdleIn groupRewriter pre w s := by
  rw [idleIn_iff]
  intro p t hpt ht
  obtain ⟨c, t, rfl⟩ := List.exists_cons_of_ne_nil ht
  have hc : isProseChar c.mask = true := List.all_eq_true.mp hw.prose _ (List.mem_map_of_mem (by rw [hpt]; simp))
  have hplace : groupPlace (p.reverse ++ pre) (c :: t ++ s) = none := by
    refine groupPlace_of_head fun hhead => ?_
    rw [List.cons_append, masks_cons, List.head?_cons, Option.some.injEq] at hhead
    rw [hhead] at hc
    exact absurd hc (by decide)
  rw [groupRewriter, hplace]
  rfl

/-- The characters of a group: none is one at which no group goes on. -/
def Goes (s : List Cell) (n : Nat) : Prop := ∀ c ∈ (masks s).take n, stopsGroup c = false

theorem goes_of_group {pre : List Cell} {c : Cell} {s : List Cell} {n : Nat} (h : groupPlace pre (c :: s) = some n) :
    Goes s (n - 1) := by
  obtain ⟨d, body, hshape, hd, hbody, _⟩ := (groupPlace_isGroup h).2.shape
  have hpos : n ≠ 0 := by
    rintro rfl
    cases hshape
  obtain ⟨n, rfl⟩ := Nat.exists_eq_succ_of_ne_zero hpos
  rw [Nat.succ_eq_add_one, List.take_succ_cons, masks_cons, List.cons_append, List.cons_append, masks_take] at hshape
  obtain ⟨_, hshape⟩ := List.cons.inj hshape
  intro x hx
  rw [Nat.succ_eq_add_one, Nat.add_sub_cancel, hshape] at hx
  have goes {x : Char} (h : isGroupChar x = true) : stopsGroup x = false := by
    rw [stopsGroup, h]
    rfl
  rcases List.mem_cons.mp hx with rfl | hx
  · exact goes (by rw [isGroupChar, hd]; rfl)
  rcases List.mem_append.mp hx with hx | hx
  · exact goes (List.all_eq_true.mp hbody _ hx)
  · obtain rfl := List.mem_singleton.mp hx
    decide

/-- As far as a group goes, nothing is changed. -/
theorem take_goes {e : Rewriter Cell} (he : Rewords e) (s pre : List Cell) :
    ∀ n, Goes s n → (masks (rewriteFrom e pre 0 s)).take n = (masks s).take n := by
  refine rewrite_rec he.prose.taking (P := fun pre s =>
    ∀ n, Goes s n → (masks (rewriteFrom e pre 0 s)).take n = (masks s).take n) ?_ ?_ ?_ s pre
  · intro pre n _
    rfl
  · intro pre c s hc ih n hn
    rw [rewriteFrom_keep hc]
    cases n with
    | zero => rfl
    | succ n =>
      rw [masks_cons, masks_cons, List.take_succ_cons, List.take_succ_cons,
        ih n fun x hx => hn x (by rw [masks_cons, List.take_succ_cons]; exact List.mem_cons_of_mem _ hx)]
  · intro pre w s new hw hedit _ n hn
    cases n with
    | zero => rfl
    | succ n =>
      obtain ⟨c, w, rfl⟩ := List.exists_cons_of_ne_nil hw
      have hstop := (he.stops pre _ s new hw hedit).1
      rw [masks_cons, List.head?_cons, Option.any_some, hn _ List.mem_cons_self] at hstop
      cases hstop

/-- **The two passes.** The groups are split as they would have been, and between them the prose
is reworded. -/
theorem groups_after {e : Rewriter Cell} (he : Rewords e) (s pre : List Cell) : ∀ pre' skip, SameStart pre pre' →
    Goes s skip →
    Reprosed (rewriteFrom groupRewriter pre skip s) (rewriteFrom groupRewriter pre' skip (rewriteFrom e pre 0 s)) := by
  refine rewrite_rec he.prose.taking (P := fun pre s => ∀ pre' skip, SameStart pre pre' → Goes s skip →
    Reprosed (rewriteFrom groupRewriter pre skip s) (rewriteFrom groupRewriter pre' skip (rewriteFrom e pre 0 s)))
    ?_ ?_ ?_ s pre
  · intro pre pre' skip _ _
    cases skip <;> exact .nil
  · intro pre c s hc ih pre' skip h hgoes
    have hplace := groupPlace_rewrite he.prose.taking he.stops pre pre' c s
    have hline := he.prose.fenceRun_lineAt (c :: s) pre pre' h
    rw [rewriteFrom_keep hc] at hline ⊢
    cases skip with
    | succ skip =>
      rw [rewriteFrom, rewriteFrom]
      exact ih _ _ (h.cons c) fun x hx => hgoes x (by rw [masks_cons, List.take_succ_cons]; exact List.mem_cons_of_mem _ hx)
    | zero =>
      cases hg : groupRewriter pre (c :: s) with
      | none =>
        have hg' := groupRewriter_kept he.prose he.stops h hc hg
        rw [rewriteFrom_keep hg, rewriteFrom_keep hg']
        exact .cons c (ih _ 0 (h.cons c) fun x hx => absurd hx List.not_mem_nil)
      | some edit =>
        obtain ⟨n, new⟩ := edit
        obtain ⟨hfound, hfence, rfl⟩ := groupRewriter_eq hg
        have hgo := goes_of_group hfound
        have hpos := (groupRewriter_taking _ _ _ _ hg).1
        have htake : (masks (c :: rewriteFrom e (c :: pre) 0 s)).take n = (masks (c :: s)).take n := by
          obtain ⟨n, rfl⟩ := Nat.exists_eq_succ_of_ne_zero hpos.ne'
          rw [masks_cons, masks_cons, List.take_succ_cons, List.take_succ_cons, take_goes he s (c :: pre) n hgo]
        have hg' : groupRewriter pre' (c :: rewriteFrom e (c :: pre) 0 s) =
            some (n, plainCells (singleMarkers ((masks (c :: s)).take n))) := by
          rw [groupRewriter, hplace, hfound, Option.bind_some, hline, hfence, htake]
          rfl
        simp only [rewriteFrom, hg, hg']
        exact (ih _ _ (h.cons c) hgo).append _
  · intro pre w s new hw hedit ih pre' skip h hgoes
    obtain ⟨hold, hnew⟩ := he.prosaic pre w s new hw hedit
    obtain ⟨hsolid, hsolid', hline⟩ := he.prose.edit pre w s new hw hedit
    have hskip : skip = 0 := by
      by_contra hne
      obtain ⟨k, rfl⟩ := Nat.exists_eq_succ_of_ne_zero hne
      obtain ⟨c, w, rfl⟩ := List.exists_cons_of_ne_nil hw
      have hstop := (he.stops pre _ s new hw hedit).1
      rw [masks_cons, List.head?_cons, Option.any_some, hgoes _ List.mem_cons_self] at hstop
      cases hstop
    subst hskip
    rw [rewriteFrom_edit hw hedit, rewriteFrom_append _ _ (hold.idle _ _), rewriteFrom_append _ _ (hnew.idle _ _)]
    exact .edit hold hnew (ih _ 0 (h.edit hsolid hsolid' hline) fun x hx => absurd hx List.not_mem_nil)

/-- The markers that are shown are the same ones after a rewording. -/
theorem citedMarkers_expand_rewrite (u : Unicode) (text : Str) :
    citedMarkers (expandGroupedMarkers (rewriteEvidenceReferences u text).text) =
      citedMarkers (expandGroupedMarkers text) := by
  have h := groups_after (evidenceRewriter_rewords u) (cells text) [] [] 0 (.inl rfl) fun x hx => absurd hx List.not_mem_nil
  rw [← (cells_reworded u text).1, ← cells_expand, ← cells_expand] at h
  have htexts := h.citations_eq Cell.text (fun _ hw => hw.texts_eq) []
  have hmasks := h.citations_eq Cell.mask (fun _ _ => rfl) []
  rw [List.nil_append, List.nil_append] at htexts hmasks
  have ht (text : Str) : (cells text).map Cell.text = text := texts_cells text
  have hm (text : Str) : (cells text).map Cell.mask = maskCode text := masks_cells text
  rw [ht, ht] at htexts
  rw [hm, hm] at hmasks
  simp only [citedMarkers, citations_stripCode, htexts, hmasks]

end CiteVyn.Llm
