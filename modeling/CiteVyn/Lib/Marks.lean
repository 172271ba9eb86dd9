import CiteVyn.Lib.Rewrite

/-! # Replacing what matches by a mark

A pattern that looks one element behind and then reads a word of a language. When what it
matches is replaced by a mark that no word meets, nothing matches in the result, neither this
pattern nor another of the kind that did not match before. -/
namespace CiteVyn.Lib.Marks
open CiteVyn.Lib.Scan CiteVyn.Lib.Rewrite

variable {α : Type*}

/-- The matches of a pattern are not empty, and lie in the text. -/
structure Proper (m : Pattern α) : Prop where
  pos : ∀ pre s n, m pre s = some n → 0 < n
  sound : Sound m

/-- Every match becomes `new`. -/
def replacing (m : Pattern α) (new : List α) : Rewriter α := fun pre s => (m pre s).map fun n => (n, new)

/-- The pattern matches where a word starts that may come after what is before it. -/
def Reads (m : Pattern α) (behind : Option α → Prop) (Word : List α → Prop) : Prop :=
  ∀ pre s, m pre s ≠ none ↔ behind pre.head? ∧ ∃ w, Word w ∧ w <+: s

/-- Nothing matches in a text. -/
def Clear (m : Pattern α) (s : List α) : Prop := ∀ p t, s = p ++ t → t ≠ [] → m p.reverse t = none

variable {m q : Pattern α} {behind : Option α → Prop} {Word : List α → Prop} {s : List α}

theorem Proper.taking (hm : Proper m) (new : List α) : Taking (replacing m new) := by
  intro pre s k new' h
  obtain ⟨n, hn, heq⟩ := Option.map_eq_some_iff.mp h
  obtain ⟨rfl, rfl⟩ := Prod.mk.inj heq
  exact ⟨hm.pos _ _ _ hn, hm.sound _ _ _ hn⟩

theorem replacing_eq_none {pre new : List α} : replacing m new pre s = none ↔ m pre s = none :=
  Option.map_eq_none_iff

theorem flatMap_render_eq (hm : Proper m) (new s pre : List α) (k : Nat) :
    (piecesFrom m pre k s).flatMap (Piece.render fun _ => new) = rewriteFrom (replacing m new) pre k s := by
  induction s generalizing pre k with
  | nil => simp [piecesFrom, rewriteFrom]
  | cons c cs ih =>
    cases k with
    | succ k =>
      simp only [piecesFrom, rewriteFrom]
      exact ih _ k
    | zero =>
      simp only [piecesFrom, rewriteFrom, replacing]
      cases h : m pre (c :: cs) with
      | none => simpa [Piece.render] using ih (c :: pre) 0
      | some n =>
        cases n with
        | zero => exact absurd (hm.pos _ _ _ h) (Nat.lt_irrefl 0)
        | succ n => simpa [Piece.render] using ih (c :: pre) n

/-- A substitution by a fixed text is a rewriting. -/
theorem sub_eq_rewriteFrom (hm : Proper m) (new s : List α) :
    sub m (fun _ => new) s = rewriteFrom (replacing m new) [] 0 s := flatMap_render_eq hm new s [] 0

/-! ## A text in which nothing matches -/

theorem clear_iff_idleIn : Clear m s ↔ IdleIn (replacing m []) [] s [] := by
  rw [idleIn_iff]
  simp only [List.append_nil, replacing_eq_none]
  rfl

theorem Clear.findall (h : Clear m s) : findall m s = [] :=
  hits_piecesFrom_nil s [] fun p t hs ht => by simpa using h p t hs ht

/-- What comes after a stretch is clear of what may come after anything. -/
theorem Clear.suffix {a b : List α} (hm : Reads m behind Word) (h : Clear m (a ++ b))
    (hbehind : ∀ c ∈ a.getLast?, behind (some c)) : Clear m b := by
  intro p t hpt ht
  by_contra hmatch
  obtain ⟨hb, w, hw, hwt⟩ := (hm _ _).mp hmatch
  refine (hm (a ++ p).reverse t).mpr ⟨?_, w, hw, hwt⟩ (h (a ++ p) t (by rw [hpt, List.append_assoc]) ht)
  rcases List.eq_nil_or_concat p with rfl | ⟨p, c, rfl⟩
  · rcases List.eq_nil_or_concat a with rfl | ⟨a, c, rfl⟩
    · exact hb
    · rw [List.append_nil, List.head?_reverse, List.concat_eq_append, List.getLast?_concat]
      exact hbehind c (by simp)
  · simpa using hb

/-- A stretch of a clear text is clear, also before something that no word reaches into. -/
theorem Clear.before {a b : List α} (tail : List α) (hm : Reads m behind Word) (h : Clear m (a ++ b))
    (htail : ∀ w t, Word w → t ≠ [] → w <+: t ++ tail → w <+: t) (hfree : ∀ w p t, Word w → tail = p ++ t → ¬ w <+: t) :
    Clear m (a ++ tail) := by
  intro p t hpt ht
  by_contra hmatch
  obtain ⟨hb, w, hw, hwt⟩ := (hm _ _).mp hmatch
  rcases List.append_eq_append_iff.mp hpt with ⟨as, rfl, rfl⟩ | ⟨bs, rfl, rfl⟩
  · exact hfree w as t hw rfl hwt
  · by_cases hbs : bs = []
    · subst hbs
      exact hfree w [] tail hw rfl hwt
    · refine (hm p.reverse (bs ++ b)).mpr ⟨hb, w, hw, ?_⟩ (h p (bs ++ b) (List.append_assoc _ _ _) (by simp [hbs]))
      exact (htail w bs hw hbs hwt).trans (List.prefix_append _ _)

/-! ## After the substitution -/

/-- What can be read in the result without meeting the mark could be read before. -/
theorem prefix_of_rewrite {o : α} {mark w pre : List α} (hw : o ∉ w)
    (h : w <+: rewriteFrom (replacing q (o :: mark)) pre 0 s) : w <+: s := by
  induction w generalizing pre s with
  | nil => exact List.nil_prefix
  | cons c w ih =>
    cases s with
    | nil => exact h
    | cons d s =>
      cases he : replacing q (o :: mark) pre (d :: s) with
      | none =>
        rw [rewriteFrom_keep he] at h
        obtain ⟨rfl, h⟩ := List.cons_prefix_cons.mp h
        exact List.cons_prefix_cons.mpr ⟨rfl, ih (fun hmem => hw (List.mem_cons_of_mem _ hmem)) h⟩
      | some edited =>
        obtain ⟨k, new⟩ := edited
        obtain ⟨n, _, heq⟩ := Option.map_eq_some_iff.mp he
        obtain ⟨rfl, rfl⟩ := Prod.mk.inj heq
        simp only [rewriteFrom, he, List.cons_append] at h
        obtain ⟨rfl, _⟩ := List.cons_prefix_cons.mp h
        exact absurd List.mem_cons_self hw

/-- No word starts in the mark. -/
theorem no_word_in_mark {o c : α} {inner p t out w : List α} (hopen : o ∉ w) (hclose : c ∉ w)
    (hinner : ∃ x ∈ w, x ∉ inner) (hpt : o :: (inner ++ [c]) = p ++ t) (ht : t ≠ []) : ¬ w <+: t ++ out := by
  intro hw
  obtain ⟨x, hx, hxi⟩ := hinner
  have hlast : c ∈ t := by
    obtain ⟨t, d, rfl⟩ := (List.eq_nil_or_concat t).resolve_left ht
    have := congrArg List.getLast? hpt
    simp only [List.concat_eq_append, ← List.append_assoc, ← List.cons_append, List.getLast?_concat] at this
    obtain rfl := Option.some.inj this
    simp
  rcases List.prefix_or_prefix_of_prefix hw (List.prefix_append t out) with hw | hw
  · -- the word lies in the mark, and is neither of its ends
    have hmem : x ∈ o :: (inner ++ [c]) := hpt ▸ List.mem_append_right p (hw.subset hx)
    simp only [List.mem_cons, List.mem_append, List.not_mem_nil, or_false] at hmem
    rcases hmem with rfl | hmem | rfl
    · exact hopen hx
    · exact hxi hmem
    · exact hclose hx
  · exact hclose (hw.subset hlast)

/-- **A substitution by a mark leaves nothing to match**, if the pattern matched nowhere that the
replaced one did not, no word meets the mark, and none starts where a match ends. -/
theorem clear_sub_mark (o c : α) (inner : List α) (hq : Proper q) (hm : Reads m behind Word)
    (hopen : ∀ w, Word w → o ∉ w) (hclose : ∀ w, Word w → c ∉ w) (hinner : ∀ w, Word w → ∃ x ∈ w, x ∉ inner)
    (hend : ∀ pre w s, q pre (w ++ s) = some w.length → ∀ v, Word v → ¬ v <+: s)
    (hs : ∀ p t, s = p ++ t → t ≠ [] → q p.reverse t = none → m p.reverse t = none) :
    Clear m (sub q (fun _ => o :: (inner ++ [c])) s) := by
  rw [sub_eq_rewriteFrom hq, clear_iff_idleIn]
  refine idle_rewrite (hq.taking _) (R := fun pre pre' s =>
    (pre.head? = pre'.head? ∨ ∀ v, Word v → ¬ v <+: s) ∧
      ∀ p t, s = p ++ t → t ≠ [] → q (p.reverse ++ pre) t = none → m (p.reverse ++ pre) t = none)
    ?_ ?_ s [] [] ⟨.inl rfl, fun p t hpt ht h => by simpa using hs p t hpt ht (by simpa using h)⟩
  · intro pre pre' c s hR hkeep
    obtain ⟨hbefore, hs⟩ := hR
    refine ⟨⟨.inl rfl, fun p t hpt ht h => ?_⟩, replacing_eq_none.mpr ?_⟩
    · simpa using hs (c :: p) t (by rw [hpt, List.cons_append]) ht (by simpa using h)
    · by_contra hmatch
      obtain ⟨hb, w, hw, hwt⟩ := (hm _ _).mp hmatch
      rw [← rewriteFrom_keep hkeep] at hwt
      have hwt := prefix_of_rewrite (hopen w hw) hwt
      rcases hbefore with hhead | hno
      · exact (hm pre (c :: s)).mpr ⟨hhead ▸ hb, w, hw, hwt⟩
          (hs [] (c :: s) rfl (List.cons_ne_nil c s) (replacing_eq_none.mp hkeep))
      · exact hno w hw hwt
  · intro pre pre' w s new hR hw hedit
    obtain ⟨n, hn, heq⟩ := Option.map_eq_some_iff.mp hedit
    obtain ⟨rfl, rfl⟩ := Prod.mk.inj heq
    refine ⟨⟨.inr (hend pre w s hn), fun p t hpt ht h => ?_⟩, idleIn_iff.mpr fun p t hpt ht => ?_⟩
    · simpa using hR.2 (w ++ p) t (by rw [hpt, List.append_assoc]) ht (by simpa using h)
    · refine replacing_eq_none.mpr ?_
      by_contra hmatch
      obtain ⟨_, v, hv, hvt⟩ := (hm _ _).mp hmatch
      exact no_word_in_mark (hopen v hv) (hclose v hv) (hinner v hv) hpt ht hvt

/-! ## Shortening the runs of an element -/

/-- The second text is the first with some runs of `b` made longer. -/
inductive Pumped (b : α) : List α → List α → Prop
  | nil : Pumped b [] []
  | cons (c : α) {w v : List α} : Pumped b w v → Pumped b (c :: w) (c :: v)
  | more {w v : List α} : Pumped b (b :: w) v → Pumped b (b :: w) (b :: v)

theorem Pumped.refl (b : α) (w : List α) : Pumped b w w := by
  induction w with
  | nil => exact .nil
  | cons c w ih => exact .cons c ih

theorem Pumped.run {b : α} {w v : List α} (k : Nat) (h : Pumped b w v) :
    Pumped b (b :: b :: w) (List.replicate (k + 2) b ++ v) := by
  induction k with
  | zero => exact .cons b (.cons b h)
  | succ k ih => exact .more ih

/-- Before the first `b` nothing is longer. -/
theorem Pumped.append_left {b : α} {w v x : List α} (hx : b ∉ x) (h : Pumped b (x ++ w) v) :
    ∃ y, v = x ++ y ∧ Pumped b w y := by
  induction x generalizing v with
  | nil => exact ⟨v, rfl, h⟩
  | cons c x ih =>
    rw [List.cons_append] at h
    cases h with
    | cons _ h =>
      obtain ⟨y, rfl, hy⟩ := ih (fun hmem => hx (List.mem_cons_of_mem _ hmem)) h
      exact ⟨y, rfl, hy⟩
    | more h => exact absurd List.mem_cons_self hx

/-- A stretch with the `b`s among its elements stays such a stretch. -/
theorem Pumped.append_all {b : α} {P : α → Prop} (hb : P b) {w v x : List α} (hx : ∀ c ∈ x, P c) (hw : w.head? ≠ some b)
    (h : Pumped b (x ++ w) v) : ∃ x' y, v = x' ++ y ∧ (∀ c ∈ x', P c) ∧ Pumped b w y := by
  generalize hs : x ++ w = s at h
  induction h generalizing x with
  | nil =>
    obtain ⟨rfl, rfl⟩ := List.append_eq_nil_iff.mp hs
    exact ⟨[], [], rfl, hx, .nil⟩
  | cons c h ih =>
    cases x with
    | nil =>
      rw [List.nil_append] at hs
      exact ⟨[], _, rfl, hx, hs ▸ .cons c h⟩
    | cons d x =>
      rw [List.cons_append] at hs
      obtain ⟨rfl, hs'⟩ := List.cons.inj hs
      obtain ⟨x', y, rfl, hx', hy⟩ := ih (fun c hc => hx c (List.mem_cons_of_mem _ hc)) hs'
      refine ⟨d :: x', y, rfl, fun c hc => ?_, hy⟩
      rcases List.mem_cons.mp hc with rfl | hc
      · exact hx c List.mem_cons_self
      · exact hx' c hc
  | more h ih =>
    cases x with
    | nil => exact absurd (congrArg List.head? hs) hw
    | cons d x =>
      rw [List.cons_append] at hs
      obtain ⟨rfl, rfl⟩ := List.cons.inj hs
      obtain ⟨x', y, rfl, hx', hy⟩ := ih hx rfl
      refine ⟨d :: x', y, rfl, fun c hc => ?_, hy⟩
      rcases List.mem_cons.mp hc with rfl | hc
      · exact hb
      · exact hx' c hc

/-- The matches are runs of `b`, of two or more. -/
def Runs (q : Pattern α) (b : α) : Prop :=
  ∀ pre w s, w ≠ [] → q pre (w ++ s) = some w.length → ∃ k, w = List.replicate (k + 2) b

/-- What can be read where runs were shortened could be read in the longer ones. -/
theorem pumped_of_rewrite {b : α} (hq : Proper q) (hrun : Runs q b) (s pre w : List α)
    (h : w <+: rewriteFrom (replacing q [b, b]) pre 0 s) : ∃ v, Pumped b w v ∧ v <+: s := by
  refine rewrite_rec (hq.taking [b, b]) (P := fun pre s => ∀ w, w <+: rewriteFrom (replacing q [b, b]) pre 0 s →
    ∃ v, Pumped b w v ∧ v <+: s) ?_ ?_ ?_ s pre w h
  · intro pre w h
    obtain rfl := List.prefix_nil.mp h
    exact ⟨[], .nil, List.nil_prefix⟩
  · intro pre c s hkeep ih w h
    rw [rewriteFrom_keep hkeep] at h
    cases w with
    | nil => exact ⟨[], .nil, List.nil_prefix⟩
    | cons d w =>
      obtain ⟨rfl, h⟩ := List.cons_prefix_cons.mp h
      obtain ⟨v, hv, hvs⟩ := ih w h
      exact ⟨d :: v, .cons d hv, List.cons_prefix_cons.mpr ⟨rfl, hvs⟩⟩
  · intro pre x s new hx hedit ih w h
    rw [rewriteFrom_edit hx hedit] at h
    obtain ⟨n, hn, heq⟩ := Option.map_eq_some_iff.mp hedit
    obtain ⟨rfl, rfl⟩ := Prod.mk.inj heq
    obtain ⟨k, rfl⟩ := hrun _ _ _ hx hn
    match w with
    | [] => exact ⟨[], .nil, List.nil_prefix⟩
    | [d] =>
      obtain ⟨rfl, _⟩ := List.cons_prefix_cons.mp h
      exact ⟨[d], .refl d [d], List.cons_prefix_cons.mpr ⟨rfl, List.nil_prefix⟩⟩
    | d :: e :: w =>
      obtain ⟨rfl, h⟩ := List.cons_prefix_cons.mp h
      obtain ⟨rfl, h⟩ := List.cons_prefix_cons.mp h
      obtain ⟨v, hv, hvs⟩ := ih w h
      exact ⟨_, hv.run k, (List.prefix_append_right_inj _).mpr hvs⟩

/-- **Shortening runs leaves a clear text clear**, if a word stays one when the runs in it are
made longer, and none starts with such a run. -/
theorem Clear.shorten {b : α} (hq : Proper q) (hrun : Runs q b) (hm : Reads m behind Word)
    (hstart : ∀ w, Word w → ∃ c t, w = c :: t ∧ c ≠ b) (hpump : ∀ w v, Word w → Pumped b w v → Word v)
    (h : Clear m s) : Clear m (sub q (fun _ => [b, b]) s) := by
  rw [sub_eq_rewriteFrom hq, clear_iff_idleIn]
  refine idle_rewrite (hq.taking _) (R := fun pre pre' s =>
    pre.head? = pre'.head? ∧ ∀ p t, s = p ++ t → t ≠ [] → m (p.reverse ++ pre) t = none)
    ?_ ?_ s [] [] ⟨rfl, fun p t hpt ht => by simpa using h p t hpt ht⟩
  · intro pre pre' c s hR hkeep
    obtain ⟨hhead, hs⟩ := hR
    refine ⟨⟨rfl, fun p t hpt ht => ?_⟩, replacing_eq_none.mpr ?_⟩
    · simpa using hs (c :: p) t (by rw [hpt, List.cons_append]) ht
    · by_contra hmatch
      obtain ⟨hb, w, hw, hwt⟩ := (hm _ _).mp hmatch
      rw [← rewriteFrom_keep hkeep] at hwt
      obtain ⟨v, hv, hvs⟩ := pumped_of_rewrite hq hrun _ _ _ hwt
      exact (hm pre (c :: s)).mpr ⟨hhead ▸ hb, v, hpump w v hw hv, hvs⟩ (hs [] (c :: s) rfl (List.cons_ne_nil c s))
  · intro pre pre' w s new hR hw hedit
    obtain ⟨n, hn, heq⟩ := Option.map_eq_some_iff.mp hedit
    obtain ⟨rfl, rfl⟩ := Prod.mk.inj heq
    obtain ⟨k, rfl⟩ := hrun _ _ _ hw hn
    refine ⟨⟨?_, fun p t hpt ht => ?_⟩, idleIn_iff.mpr fun p t hpt ht => ?_⟩
    · rw [List.reverse_replicate, List.replicate_succ]
      rfl
    · simpa using hR.2 (List.replicate (k + 2) b ++ p) t (by rw [hpt, List.append_assoc]) ht
    · refine replacing_eq_none.mpr ?_
      by_contra hmatch
      obtain ⟨_, v, hv, hvt⟩ := (hm _ _).mp hmatch
      obtain ⟨c, v, rfl, hc⟩ := hstart v hv
      obtain ⟨d, t, rfl⟩ := List.exists_cons_of_ne_nil ht
      obtain ⟨rfl, _⟩ := List.cons_prefix_cons.mp hvt
      have hmem : c ∈ [b, b] := hpt ▸ List.mem_append_right p List.mem_cons_self
      simp only [List.mem_cons, List.not_mem_nil, or_false, or_self] at hmem
      exact hc hmem

end CiteVyn.Lib.Marks
