import CiteVyn.Guardrails.Named
import CiteVyn.Lib.Marks

/-! # The product's name, written one way

What `canonicalize_product_name` writes is a word of its own, so it makes and breaks no name
around it: the names of the result are those it wrote, and the question stays about what it was
about. -/
namespace CiteVyn.Guardrails
open CiteVyn.Lib.Backtrack CiteVyn.Lib.Marks CiteVyn.Lib.Phrases CiteVyn.Lib.Rewrite CiteVyn.Lib.Scan CiteVyn.Text
open CiteVyn.Answer
open CiteVyn.Llm (foldingDatabase)

section Spec
variable {u : Unicode}

/-! ## Names -/

theorem Reading.Names.before {p : Place} (h : (python u).Names p) : p.before.head?.any u.isWord = false := by
  rcases h with h | h
  · exact h.2.1
  · exact h.before

theorem Reading.Names.after {p : Place} (h : (python u).Names p) : p.after.head?.any u.isWord = false := by
  rcases h with h | h
  · exact h.2.2
  · exact h.after

theorem Reading.Names.stands (hu : Letters u) {p : Place} (h : (python u).Names p) :
    ∃ ws, (script hu).Stands ws p.before p.name p.after := by
  rcases h with h | h
  · exact ⟨citevynWords, h.stands hu⟩
  · obtain ⟨ws, _, hstands⟩ := h.stands hu
    exact ⟨ws, hstands⟩

theorem citevynRe_proper (hu : Letters u) : Proper (citevynRe u) := by
  constructor
  · intro pre s n h
    obtain ⟨w, t, rfl, rfl, hw⟩ := citevynRe_sound hu h
    obtain ⟨ws, hstands⟩ := hw.stands hu
    exact List.length_pos_iff.mpr hstands.phrase.ne_nil
  · intro pre s n h
    obtain ⟨w, t, rfl, rfl, _⟩ := citevynRe_sound hu h
    rw [List.length_append]
    exact Nat.le_add_right _ _

/-- The name as it is written. -/
theorem canonical_names {pre post : Str} (hpre : pre.head?.any u.isWord = false)
    (hpost : post.head?.any u.isWord = false) : (python u).Canonical ⟨pre, canonicalProductName, post⟩ := by
  refine ⟨?_, hpre, hpost⟩
  show spelled (citevyn.map Atom.matches) canonicalProductName = true
  decide +kernel

/-- A name that meets the written one is the written one. -/
theorem name_of_meets (hu : Letters u) {pre x y r post : Str} (h : (python u).Names ⟨pre, x ++ y, r⟩) (hy : y ≠ [])
    (hmeet : y ++ r = canonicalProductName ++ post)
    (hcanonical : (python u).Canonical ⟨x.reverse ++ pre, canonicalProductName, post⟩) :
    x = [] ∧ y = canonicalProductName := by
  have hmark := hcanonical.stands hu
  rcases h with h | h
  · obtain ⟨d, hd, hzero, _⟩ := (h.stands hu).overlap hy hmark hmeet
    obtain rfl := Nat.lt_one_iff.mp hd
    obtain rfl := hzero.mp rfl
    refine ⟨rfl, (List.append_inj hmeet ?_).1⟩
    have hlen := (spelled_map_iff.mp h.1).length_eq
    exact hlen.symm
  · obtain ⟨ws, hws, hstands⟩ := h.stands hu
    obtain ⟨d, hd, _, hread⟩ := hstands.overlap hy hmark hmeet
    have hapart : apart aliasWords [citevynWords] = true := by decide +kernel
    exact (apart_spec hapart hws List.mem_cons_self hd hread).elim

/-! ## The pass -/

/-- The pass over a question. -/
abbrev canonicalizing (u : Unicode) : Rewriter Char := replacing (citevynRe u) canonicalProductName

theorem canonicalizeProductName_eq (hu : Letters u) (question : Str) :
    canonicalizeProductName u question = rewriteFrom (canonicalizing u) [] 0 question :=
  sub_eq_rewriteFrom (citevynRe_proper hu) _ _

theorem canonicalizing_taking (hu : Letters u) : Taking (canonicalizing u) := (citevynRe_proper hu).taking _

theorem canonicalizing_edit (hu : Letters u) {pre w s new : Str}
    (h : canonicalizing u pre (w ++ s) = some (w.length, new)) :
    new = canonicalProductName ∧ (python u).Names ⟨pre, w, s⟩ := by
  obtain ⟨n, hn, heq⟩ := Option.map_eq_some_iff.mp h
  obtain ⟨rfl, rfl⟩ := Prod.mk.inj heq
  obtain ⟨v, t, hvt, hlen, hv⟩ := citevynRe_sound hu hn
  obtain ⟨rfl, rfl⟩ := List.append_inj hvt hlen
  exact ⟨rfl, hv⟩

theorem canonicalizing_keep (hu : Letters u) {pre w s : Str} (h : canonicalizing u pre (w ++ s) = none) :
    ¬ (python u).Names ⟨pre, w, s⟩ := by
  intro hname
  have := citevynRe_complete hu hname
  rw [replacing_eq_none.mp h] at this
  cases this

theorem head_name (hu : Letters u) {p : Place} (h : (python u).Names p) (s : Str) :
    (p.name ++ s).head?.any u.isWord = true := by
  obtain ⟨ws, hstands⟩ := h.stands hu
  obtain ⟨k, c, t, ht, hk⟩ := hstands.phrase.cons
  rw [ht]
  exact (script hu).word k c hk

theorem canonical_word (hu : Letters u) {c : Char} (h : c ∈ canonicalProductName) : u.isWord c = true := by
  have hletters : canonicalProductName.all isLetterIgnoreCase = true := by decide
  exact Bool.or_eq_true_iff.mpr (.inl (hu c (List.all_eq_true.mp hletters c h)))

theorem head_canonical (hu : Letters u) (s : Str) : (canonicalProductName ++ s).head?.any u.isWord = true :=
  canonical_word hu (c := 'C') (by decide)

theorem head_canonical_reverse (hu : Letters u) (s : Str) :
    (canonicalProductName.reverse ++ s).head?.any u.isWord = true :=
  canonical_word hu (c := 'n') (by decide)

/-- Words begin at the same places in the result. -/
theorem head_canonicalized (hu : Letters u) (s pre : Str) :
    (rewriteFrom (canonicalizing u) pre 0 s).head?.any u.isWord = s.head?.any u.isWord := by
  refine rewrite_rec (canonicalizing_taking hu) (P := fun pre s =>
    (rewriteFrom (canonicalizing u) pre 0 s).head?.any u.isWord = s.head?.any u.isWord) ?_ ?_ ?_ s pre
  · intro pre
    rfl
  · intro pre c s hc _
    rw [rewriteFrom_keep hc]
    rfl
  · intro pre w s new hw hedit _
    obtain ⟨rfl, hname⟩ := canonicalizing_edit hu hedit
    rw [rewriteFrom_edit hw hedit, head_canonical hu, head_name hu hname]

theorem any_identifier (s : Str) (h : s.head?.any u.isWord = true) :
    (s.takeWhile (python u).identifier).any u.isWord = true := by
  cases s with
  | nil => cases h
  | cons c s =>
    have hc : u.isWord c = true := h
    rw [List.takeWhile_cons_of_pos (Reading.identifier_of_word hc), List.any_cons, hc, Bool.true_or]

/-- So do identifiers. -/
theorem guard_canonicalized (hu : Letters u) (s pre : Str) :
    ((rewriteFrom (canonicalizing u) pre 0 s).takeWhile (python u).identifier).any u.isWord =
      (s.takeWhile (python u).identifier).any u.isWord := by
  refine rewrite_rec (canonicalizing_taking hu) (P := fun pre s =>
    ((rewriteFrom (canonicalizing u) pre 0 s).takeWhile (python u).identifier).any u.isWord =
      (s.takeWhile (python u).identifier).any u.isWord) ?_ ?_ ?_ s pre
  · intro pre
    rfl
  · intro pre c s hc ih
    rw [rewriteFrom_keep hc]
    by_cases hident : (python u).identifier c = true
    · rw [List.takeWhile_cons_of_pos hident, List.takeWhile_cons_of_pos hident, List.any_cons, List.any_cons, ih]
    · rw [List.takeWhile_cons_of_neg hident, List.takeWhile_cons_of_neg hident]
  · intro pre w s new hw hedit _
    obtain ⟨rfl, hname⟩ := canonicalizing_edit hu hedit
    rw [rewriteFrom_edit hw hedit, any_identifier _ (head_canonical hu _), any_identifier _ (head_name hu hname s)]

/-! ## The names of the result -/

/-- The guards see the same before a place. -/
def Alike (u : Unicode) (pre pre' : Str) : Prop :=
  pre.head?.any u.isWord = pre'.head?.any u.isWord ∧
    pre.head?.any (python u).identifier = pre'.head?.any (python u).identifier

theorem Alike.append {pre pre' : Str} (h : Alike u pre pre') (x : Str) : Alike u (x ++ pre) (x ++ pre') := by
  cases x with
  | nil => exact h
  | cons c x => exact ⟨rfl, rfl⟩

theorem Alike.of_word {pre pre' : Str} (h : pre.head?.any u.isWord = true) (h' : pre'.head?.any u.isWord = true) :
    Alike u pre pre' := by
  have hident {s : Str} (h : s.head?.any u.isWord = true) : s.head?.any (python u).identifier = true := by
    cases s with
    | nil => cases h
    | cons c s => exact Reading.identifier_of_word (r := python u) h
  exact ⟨h.trans h'.symm, (hident h).trans (hident h').symm⟩

theorem Reading.Names.alike {pre pre' w s s' : Str} (h : (python u).Names ⟨pre, w, s⟩) (hpre : Alike u pre pre')
    (hword : s.head?.any u.isWord = s'.head?.any u.isWord)
    (hguard : (s.takeWhile (python u).identifier).any u.isWord = (s'.takeWhile (python u).identifier).any u.isWord) :
    (python u).Names ⟨pre', w, s'⟩ := by
  rcases h with ⟨hw, hbefore, hafter⟩ | ⟨hw, hbefore, hafter⟩
  · exact .inl ⟨hw, hpre.1.symm.trans hbefore, hword.symm.trans hafter⟩
  · exact .inr ⟨hw, hpre.2.symm.trans hbefore, hguard.symm.trans hafter⟩

/-- What is written is a name. -/
theorem written_names (hu : Letters u) {pre pre' w s new : Str} (halike : Alike u pre pre')
    (h : canonicalizing u pre (w ++ s) = some (w.length, new)) (before : Str) :
    (python u).Canonical ⟨pre', canonicalProductName, rewriteFrom (canonicalizing u) before 0 s⟩ := by
  obtain ⟨_, hname⟩ := canonicalizing_edit hu h
  refine canonical_names (halike.1.symm.trans hname.before) ?_
  rw [head_canonicalized hu]
  exact hname.after

/-- A name of the result is one of the question, or was written. -/
theorem name_of_canonicalized (hu : Letters u) {pre pre' w r s : Str} (halike : Alike u pre pre')
    (h : rewriteFrom (canonicalizing u) pre 0 s = w ++ r) (hname : (python u).Names ⟨pre', w, r⟩) :
    (∃ t, s = w ++ t ∧ (python u).Names ⟨pre, w, t⟩) ∨ w = canonicalProductName := by
  rcases rewriteFrom_reads (canonicalizing_taking hu) s pre h with ⟨t, rfl, rfl⟩ |
    ⟨x, y, v, t, new, rfl, hy, rfl, hv, hedit, hmeet⟩
  · refine .inl ⟨t, rfl, hname.alike ⟨halike.1.symm, halike.2.symm⟩ ?_ ?_⟩
    · exact head_canonicalized hu t _
    · exact guard_canonicalized hu t _
  · obtain ⟨rfl, _⟩ := canonicalizing_edit hu hedit
    obtain ⟨rfl, rfl⟩ := name_of_meets hu hname hy hmeet (written_names hu (halike.append x.reverse) hedit _)
    exact .inr rfl

/-- A rewriter that is asked at the names only which are not written that way yet. -/
def respelling (u : Unicode) : Rewriter Char := fun pre s =>
  (canonicalizing u pre s).bind fun edited => if s.take edited.1 = canonicalProductName then none else some edited

theorem respelling_eq_none (hu : Letters u) {pre s : Str}
    (h : ∀ w r, s = w ++ r → (python u).Names ⟨pre, w, r⟩ → w = canonicalProductName) : respelling u pre s = none := by
  unfold respelling
  cases hedit : canonicalizing u pre s with
  | none => rfl
  | some edited =>
    obtain ⟨n, hn, rfl⟩ := Option.map_eq_some_iff.mp hedit
    obtain ⟨w, r, rfl, rfl, hname⟩ := citevynRe_sound hu hn
    show (if (w ++ r).take w.length = canonicalProductName then none else some (w.length, canonicalProductName)) = none
    rw [List.take_left, if_pos (h w r rfl hname)]

/-- Every name of the result is written one way. -/
theorem respelling_idle (hu : Letters u) (s : Str) :
    IdleIn (respelling u) [] (rewriteFrom (canonicalizing u) [] 0 s) [] := by
  refine idle_rewrite (canonicalizing_taking hu) (R := fun pre pre' _ => Alike u pre pre') ?_ ?_ s [] [] ⟨rfl, rfl⟩
  · intro pre pre' c s halike hkeep
    refine ⟨halike.append [c], respelling_eq_none hu fun w r hout hname => ?_⟩
    rw [← rewriteFrom_keep hkeep] at hout
    rcases name_of_canonicalized hu halike hout hname with ⟨t, hs, hname⟩ | hw
    · rw [hs] at hkeep
      exact absurd hname (canonicalizing_keep hu hkeep)
    · exact hw
  · intro pre pre' w s new halike hw hedit
    obtain ⟨rfl, hname⟩ := canonicalizing_edit hu hedit
    have hwritten := written_names hu halike hedit (w.reverse ++ pre)
    refine ⟨?_, idleIn_iff.mpr fun p t hpt ht => respelling_eq_none hu fun v r hout hv => ?_⟩
    · refine .of_word ?_ (head_canonical_reverse hu pre')
      obtain ⟨ws, hstands⟩ := hname.stands hu
      obtain ⟨k, c, x, hx, hk⟩ := hstands.phrase.concat
      obtain rfl : w = x ++ [c] := hx
      have hc : u.isWord c = true := (script hu).word k c hk
      simpa using hc
    · rcases List.eq_nil_or_concat p with rfl | ⟨p, c, rfl⟩
      · obtain rfl : canonicalProductName = t := hpt
        obtain ⟨ws, hstands⟩ := hv.stands hu
        exact (name_of_meets hu (x := []) hv hstands.phrase.ne_nil hout.symm hwritten).2
      · -- a letter comes before
        have hbefore := hv.before
        rw [List.concat_eq_append] at hbefore hpt
        have hc : c ∈ canonicalProductName := by simp [hpt]
        simp [canonical_word hu hc] at hbefore

theorem canonicalizeProductName_idempotent (hu : Letters u) (question : Str) :
    canonicalizeProductName u (canonicalizeProductName u question) = canonicalizeProductName u question := by
  rw [canonicalizeProductName_eq hu (canonicalizeProductName u question), canonicalizeProductName_eq hu question]
  refine rewriteFrom_fixed (canonicalizing_taking hu) _ _ fun p t k new hpt hedit => ?_
  have ht : t ≠ [] := by
    rintro rfl
    obtain ⟨hpos, hle⟩ := canonicalizing_taking hu _ _ _ _ hedit
    exact absurd (Nat.lt_of_lt_of_le hpos hle) (Nat.lt_irrefl 0)
  have hidle := idleIn_iff.mp (respelling_idle hu question) p t hpt ht
  rw [List.append_nil t, respelling, hedit, Option.bind_some] at hidle
  obtain ⟨n, _, heq⟩ := Option.map_eq_some_iff.mp hedit
  obtain ⟨rfl, rfl⟩ := Prod.mk.inj heq
  split at hidle
  · rename_i hsame
    exact hsame.symm
  · cases hidle

/-- Nothing is written, or a name was there and one is there. -/
theorem canonicalizeProductName_cases (hu : Letters u) (question : Str) :
    canonicalizeProductName u question = question ∨
      search (citevynRe u) question = true ∧ search (citevynRe u) (canonicalizeProductName u question) = true := by
  rw [canonicalizeProductName_eq hu]
  rcases rewriteFrom_first (canonicalizing_taking hu) question [] with hidle | ⟨x, w, t, new, hquestion, _, hedit, hout⟩
  · exact .inl (rewriteFrom_idle hidle)
  · obtain ⟨rfl, hname⟩ := canonicalizing_edit hu hedit
    have halike : Alike u (x.reverse ++ []) (x.reverse ++ []) := ⟨rfl, rfl⟩
    have hwritten := written_names hu halike hedit (w.reverse ++ (x.reverse ++ []))
    refine .inr ⟨(search_citevynRe hu _).mpr ⟨_, ?_, hname⟩, (search_citevynRe hu _).mpr ⟨_, ?_, .inl hwritten⟩⟩
    · rw [hquestion]
      simp [Place.text]
    · rw [hout]
      simp [Place.text]

/-- The names of a question among the pieces between them. -/
theorem canonicalizeProductName_pieces (hu : Letters u) (question : Str) :
    ∃ ps : List (Piece Char), ps.flatMap Piece.text = question ∧
      ps.flatMap (Piece.render fun _ => canonicalProductName) = canonicalizeProductName u question ∧
        ∀ a w b, ps = a ++ .hit w :: b → (python u).Names ⟨(a.flatMap Piece.text).reverse, w, b.flatMap Piece.text⟩ := by
  refine ⟨pieces (citevynRe u) question, flatMap_text_pieces _ _, rfl, fun a w b hps => ?_⟩
  have hmatch := hit_of_pieces (citevynRe_proper hu).sound a [] question hps
  obtain ⟨v, t, hvt, hlen, hname⟩ := citevynRe_sound hu hmatch
  obtain ⟨rfl, rfl⟩ := List.append_inj hvt hlen
  rwa [List.append_nil] at hname

/-- **The name is written one way**, and nothing else changes: neither the text around the names
nor what the question is about. -/
theorem canonicalizeProductName_spec (hu : Letters u) (question : Str) :
    canonicalizeProductName u (canonicalizeProductName u question) = canonicalizeProductName u question ∧
      classifyDomain u (canonicalizeProductName u question) = classifyDomain u question ∧
      classifyDomains u (canonicalizeProductName u question) = classifyDomains u question ∧
      (canonicalizeProductName u question ≠ question → classifyDomain u question = .citevyn) ∧
      ∃ ps : List (Piece Char), ps.flatMap Piece.text = question ∧
        ps.flatMap (Piece.render fun _ => canonicalProductName) = canonicalizeProductName u question ∧
          ∀ a w b, ps = a ++ .hit w :: b →
            (python u).Names ⟨(a.flatMap Piece.text).reverse, w, b.flatMap Piece.text⟩ := by
  have hidem := canonicalizeProductName_idempotent hu question
  have hpieces := canonicalizeProductName_pieces hu question
  rcases canonicalizeProductName_cases hu question with hsame | ⟨hbefore, hafter⟩
  · refine ⟨hidem, ?_, ?_, fun hne => absurd hsame hne, hpieces⟩
    · rw [hsame]
    · rw [hsame]
  · have hdomain := (classifyDomain_search hu question).mpr hbefore
    refine ⟨hidem, ?_, ?_, fun _ => hdomain, hpieces⟩
    · rw [(classifyDomain_search hu _).mpr hafter, hdomain]
    · rw [classifyDomains_citevyn hu hafter, classifyDomains_citevyn hu hbefore]

theorem canonicalizeProductName_spec_alias :
    canonicalizeProductName foldingDatabase "Is sitewin free?".toList = "Is CiteVyn free?".toList ∧
      classifyDomain foldingDatabase "Is CiteVyn free?".toList =
        classifyDomain foldingDatabase "Is sitewin free?".toList := by
  have hsub : canonicalizeProductName foldingDatabase "Is sitewin free?".toList = "Is CiteVyn free?".toList := by
    decide +kernel
  have hspec := (canonicalizeProductName_spec letters_folding "Is sitewin free?".toList).2.1
  rw [hsub] at hspec
  exact ⟨hsub, hspec⟩

end Spec

end CiteVyn.Guardrails
