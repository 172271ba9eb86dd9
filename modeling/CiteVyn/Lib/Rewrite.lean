import CiteVyn.Lib.Scan

/-! # Rewriting a text in one pass

A rewriter is asked at every place of a text, from left to right, and continues after what it
took. That is the loop that edits the matches of a pattern, when no match starts inside
another. Where the rewriter is idle in what it has written, a second pass does nothing, and
the places it passed over stay as many as they were. -/
namespace CiteVyn.Lib.Rewrite
open CiteVyn.Lib.Scan

variable {α : Type*}

/-- What is done at a place, from what comes before it (nearest first) and what comes after:
nothing, or how many elements are taken and what they become. -/
abbrev Rewriter (α : Type*) := List α → List α → Option (Nat × List α)

/-- The rewriter takes something, and no more than there is. -/
def Taking (e : Rewriter α) : Prop := ∀ pre s k new, e pre s = some (k, new) → 0 < k ∧ k ≤ s.length

/-- The pass, structurally: `skip` elements belong to what was taken before. -/
def rewriteFrom (e : Rewriter α) : List α → Nat → List α → List α
  | _, _, [] => []
  | pre, skip + 1, c :: cs => rewriteFrom e (c :: pre) skip cs
  | pre, 0, c :: cs =>
    match e pre (c :: cs) with
    | some (k, new) => new ++ rewriteFrom e (c :: pre) (k - 1) cs
    | none => c :: rewriteFrom e (c :: pre) 0 cs

/-- How often the pass takes something. -/
def rewrites (e : Rewriter α) : List α → Nat → List α → Nat
  | _, _, [] => 0
  | pre, skip + 1, c :: cs => rewrites e (c :: pre) skip cs
  | pre, 0, c :: cs =>
    match e pre (c :: cs) with
    | some (k, _) => rewrites e (c :: pre) (k - 1) cs + 1
    | none => rewrites e (c :: pre) 0 cs

/-- At how many places of `a`, followed by `b`, a pattern matches. -/
def placesIn (m : Pattern α) : List α → List α → List α → Nat
  | _, [], _ => 0
  | pre, c :: cs, b => (m pre (c :: cs ++ b)).toList.length + placesIn m (c :: pre) cs b

/-- The rewriter does nothing at the places of `a`, followed by `b`. -/
def IdleIn (e : Rewriter α) : List α → List α → List α → Prop
  | _, [], _ => True
  | pre, c :: cs, b => e pre (c :: cs ++ b) = none ∧ IdleIn e (c :: pre) cs b

/-! ## One place at a time -/

theorem rewriteFrom_skip (e : Rewriter α) (k : Nat) (pre s : List α) :
    rewriteFrom e pre k s = rewriteFrom e ((s.take k).reverse ++ pre) 0 (s.drop k) := by
  induction k generalizing pre s with
  | zero => simp
  | succ k ih =>
    cases s with
    | nil => simp [rewriteFrom]
    | cons c cs =>
      rw [rewriteFrom, ih]
      simp

theorem rewrites_skip (e : Rewriter α) (k : Nat) (pre s : List α) :
    rewrites e pre k s = rewrites e ((s.take k).reverse ++ pre) 0 (s.drop k) := by
  induction k generalizing pre s with
  | zero => simp
  | succ k ih =>
    cases s with
    | nil => simp [rewrites]
    | cons c cs =>
      rw [rewrites, ih]
      simp

theorem rewriteFrom_keep {e : Rewriter α} {pre cs : List α} {c : α} (h : e pre (c :: cs) = none) :
    rewriteFrom e pre 0 (c :: cs) = c :: rewriteFrom e (c :: pre) 0 cs := by
  simp only [rewriteFrom, h]

theorem rewriteFrom_edit {e : Rewriter α} {pre w s new : List α} (hw : w ≠ [])
    (h : e pre (w ++ s) = some (w.length, new)) :
    rewriteFrom e pre 0 (w ++ s) = new ++ rewriteFrom e (w.reverse ++ pre) 0 s := by
  obtain ⟨c, cs, rfl⟩ := List.exists_cons_of_ne_nil hw
  rw [List.cons_append] at h ⊢
  simp only [rewriteFrom, h]
  rw [rewriteFrom_skip]
  simp

theorem rewrites_keep {e : Rewriter α} {pre cs : List α} {c : α} (h : e pre (c :: cs) = none) :
    rewrites e pre 0 (c :: cs) = rewrites e (c :: pre) 0 cs := by
  simp only [rewrites, h]

theorem rewrites_edit {e : Rewriter α} {pre w s new : List α} (hw : w ≠ [])
    (h : e pre (w ++ s) = some (w.length, new)) :
    rewrites e pre 0 (w ++ s) = rewrites e (w.reverse ++ pre) 0 s + 1 := by
  obtain ⟨c, cs, rfl⟩ := List.exists_cons_of_ne_nil hw
  rw [List.cons_append] at h ⊢
  simp only [rewrites, h]
  rw [rewrites_skip]
  simp

/-- What holds of the empty text, and is kept when one more element is passed over and when
something more is taken, holds of every text. -/
theorem rewrite_rec {e : Rewriter α} (he : Taking e) {P : List α → List α → Prop} (nil : ∀ pre, P pre [])
    (keep : ∀ pre c s, e pre (c :: s) = none → P (c :: pre) s → P pre (c :: s))
    (edit : ∀ pre w s new, w ≠ [] → e pre (w ++ s) = some (w.length, new) → P (w.reverse ++ pre) s → P pre (w ++ s)) :
    ∀ s pre, P pre s := by
  have hall : ∀ (n : Nat) (s pre : List α), s.length ≤ n → P pre s := by
    intro n
    induction n with
    | zero =>
      intro s pre hs
      rw [List.length_eq_zero_iff.mp (Nat.le_zero.mp hs)]
      exact nil pre
    | succ n ih =>
      intro s pre hs
      cases s with
      | nil => exact nil pre
      | cons c s =>
        cases h : e pre (c :: s) with
        | none =>
          refine keep pre c s h (ih s _ ?_)
          simpa using hs
        | some edited =>
          obtain ⟨k, new⟩ := edited
          obtain ⟨hk, hle⟩ := he _ _ _ _ h
          have hlen : ((c :: s).take k).length = k := List.length_take_of_le hle
          have hw : (c :: s).take k ≠ [] := by
            intro hnil
            rw [hnil, List.length_nil] at hlen
            omega
          have := edit pre _ ((c :: s).drop k) new hw (by rw [List.take_append_drop, hlen, h])
          rw [List.take_append_drop] at this
          refine this (ih _ _ ?_)
          rw [List.length_drop]
          omega
  intro s pre
  exact hall s.length s pre (Nat.le_refl _)

/-! ## Stretches -/

theorem rewriteFrom_append {e : Rewriter α} {b : List α} (a pre : List α) (h : IdleIn e pre a b) :
    rewriteFrom e pre 0 (a ++ b) = a ++ rewriteFrom e (a.reverse ++ pre) 0 b := by
  induction a generalizing pre with
  | nil => rfl
  | cons c a ih =>
    obtain ⟨hc, ha⟩ := h
    rw [List.cons_append] at hc ⊢
    rw [rewriteFrom_keep hc, ih _ ha, List.cons_append, List.reverse_cons, List.append_assoc, List.singleton_append]

theorem idleIn_iff {e : Rewriter α} {pre a b : List α} :
    IdleIn e pre a b ↔ ∀ p t, a = p ++ t → t ≠ [] → e (p.reverse ++ pre) (t ++ b) = none := by
  induction a generalizing pre with
  | nil =>
    refine iff_of_true trivial fun p t h ht => ?_
    exact absurd (List.append_eq_nil_iff.mp h.symm).2 ht
  | cons c a ih =>
    rw [IdleIn, ih]
    constructor
    · intro h p t hpt ht
      cases p with
      | nil =>
        rw [List.nil_append] at hpt
        subst hpt
        exact h.1
      | cons d p =>
        rw [List.cons_append, List.cons.injEq] at hpt
        obtain ⟨rfl, hpt⟩ := hpt
        simpa using h.2 p t hpt ht
    · intro h
      refine ⟨h [] (c :: a) rfl (List.cons_ne_nil c a), fun p t hpt ht => ?_⟩
      simpa using h (c :: p) t (by rw [hpt, List.cons_append]) ht

theorem idleIn_append {e : Rewriter α} {pre a b t : List α} :
    IdleIn e pre (a ++ b) t ↔ IdleIn e pre a (b ++ t) ∧ IdleIn e (a.reverse ++ pre) b t := by
  induction a generalizing pre with
  | nil => simp [IdleIn]
  | cons c a ih =>
    simp only [List.cons_append, IdleIn, ih, List.append_assoc, List.reverse_cons, and_assoc]
    rfl

/-- A pass that is idle everywhere returns the text. -/
theorem rewriteFrom_idle {e : Rewriter α} {pre s : List α} (h : IdleIn e pre s []) : rewriteFrom e pre 0 s = s := by
  have := rewriteFrom_append s pre h
  simpa [rewriteFrom] using this

theorem rewrites_idle {e : Rewriter α} {pre s : List α} (h : IdleIn e pre s []) : rewrites e pre 0 s = 0 := by
  induction s generalizing pre with
  | nil => rfl
  | cons c s ih =>
    obtain ⟨hc, hs⟩ := h
    rw [List.append_nil] at hc
    rw [rewrites_keep hc, ih hs]

theorem placesIn_append (m : Pattern α) (pre a b t : List α) :
    placesIn m pre (a ++ b) t = placesIn m pre a (b ++ t) + placesIn m (a.reverse ++ pre) b t := by
  induction a generalizing pre with
  | nil => simp [placesIn]
  | cons c a ih =>
    simp only [List.cons_append, placesIn, ih, List.append_assoc, List.reverse_cons, List.nil_append,
      Nat.add_assoc]

theorem placesIn_eq_zero {m : Pattern α} {pre a b : List α}
    (h : ∀ p t, a = p ++ t → t ≠ [] → m (p.reverse ++ pre) (t ++ b) = none) : placesIn m pre a b = 0 := by
  induction a generalizing pre with
  | nil => rfl
  | cons c a ih =>
    have hc := h [] (c :: a) rfl (List.cons_ne_nil c a)
    rw [List.reverse_nil, List.nil_append] at hc
    rw [placesIn, hc, ih]
    · rfl
    · intro p t hpt ht
      simpa using h (c :: p) t (by rw [hpt, List.cons_append]) ht

/-- A pass that writes what it takes returns the text. -/
theorem rewriteFrom_fixed {e : Rewriter α} (he : Taking e) (s pre : List α)
    (h : ∀ p t k new, s = p ++ t → e (p.reverse ++ pre) t = some (k, new) → new = t.take k) :
    rewriteFrom e pre 0 s = s := by
  refine rewrite_rec he (P := fun pre s => (∀ p t k new, s = p ++ t → e (p.reverse ++ pre) t = some (k, new) →
    new = t.take k) → rewriteFrom e pre 0 s = s) ?_ ?_ ?_ s pre h
  · intro pre _
    rfl
  · intro pre c s hc ih h
    rw [rewriteFrom_keep hc, ih fun p t k new hs hedit =>
      h (c :: p) t k new (by rw [hs, List.cons_append]) (by simpa using hedit)]
  · intro pre w s new hw hedit ih h
    have hnew := h [] (w ++ s) w.length new rfl hedit
    rw [List.take_left] at hnew
    rw [rewriteFrom_edit hw hedit, ih fun p t k new hs hedit => h (w ++ p) t k new (by rw [hs, List.append_assoc])
      (by simpa using hedit), hnew]

/-- Either nothing is done, or there is a first place at which something is. -/
theorem rewriteFrom_first {e : Rewriter α} (he : Taking e) (s pre : List α) :
    IdleIn e pre s [] ∨ ∃ x w t new, s = x ++ (w ++ t) ∧ w ≠ [] ∧ e (x.reverse ++ pre) (w ++ t) = some (w.length, new) ∧
      rewriteFrom e pre 0 s = x ++ (new ++ rewriteFrom e (w.reverse ++ (x.reverse ++ pre)) 0 t) := by
  refine rewrite_rec he (P := fun pre s => IdleIn e pre s [] ∨ ∃ x w t new, s = x ++ (w ++ t) ∧ w ≠ [] ∧
    e (x.reverse ++ pre) (w ++ t) = some (w.length, new) ∧
      rewriteFrom e pre 0 s = x ++ (new ++ rewriteFrom e (w.reverse ++ (x.reverse ++ pre)) 0 t)) ?_ ?_ ?_ s pre
  · intro pre
    exact .inl trivial
  · intro pre c s hc ih
    rcases ih with hidle | ⟨x, w, t, new, rfl, hw, hedit, hout⟩
    · exact .inl ⟨by rwa [List.append_nil], hidle⟩
    · refine .inr ⟨c :: x, w, t, new, rfl, hw, by simpa using hedit, ?_⟩
      rw [rewriteFrom_keep hc, hout]
      simp
  · intro pre w s new hw hedit _
    exact .inr ⟨[], w, s, new, rfl, hw, hedit, rewriteFrom_edit hw hedit⟩

/-- What is read in the result was passed over, or meets the first thing written. -/
theorem rewriteFrom_reads {e : Rewriter α} (he : Taking e) {y r : List α} (s pre : List α)
    (h : rewriteFrom e pre 0 s = y ++ r) :
    (∃ t, s = y ++ t ∧ r = rewriteFrom e (y.reverse ++ pre) 0 t) ∨
      ∃ x z w t new, y = x ++ z ∧ z ≠ [] ∧ s = x ++ (w ++ t) ∧ w ≠ [] ∧
        e (x.reverse ++ pre) (w ++ t) = some (w.length, new) ∧
          z ++ r = new ++ rewriteFrom e (w.reverse ++ (x.reverse ++ pre)) 0 t := by
  refine rewrite_rec he (P := fun pre s => ∀ y, rewriteFrom e pre 0 s = y ++ r →
    (∃ t, s = y ++ t ∧ r = rewriteFrom e (y.reverse ++ pre) 0 t) ∨
      ∃ x z w t new, y = x ++ z ∧ z ≠ [] ∧ s = x ++ (w ++ t) ∧ w ≠ [] ∧
        e (x.reverse ++ pre) (w ++ t) = some (w.length, new) ∧
          z ++ r = new ++ rewriteFrom e (w.reverse ++ (x.reverse ++ pre)) 0 t) ?_ ?_ ?_ s pre y h
  · intro pre y h
    obtain ⟨rfl, rfl⟩ := List.append_eq_nil_iff.mp h.symm
    exact .inl ⟨[], rfl, rfl⟩
  · intro pre c s hc ih y h
    cases y with
    | nil => exact .inl ⟨c :: s, rfl, h.symm⟩
    | cons d y =>
      rw [rewriteFrom_keep hc] at h
      obtain ⟨rfl, hrest⟩ := List.cons.inj h
      rcases ih y hrest with ⟨t, rfl, rfl⟩ | ⟨x, z, w, t, new, rfl, hz, rfl, hw, hedit, hout⟩
      · exact .inl ⟨t, rfl, by simp⟩
      · exact .inr ⟨c :: x, z, w, t, new, rfl, hz, rfl, hw, by simpa using hedit, by simpa using hout⟩
  · intro pre w s new hw hedit _ y h
    cases y with
    | nil => exact .inl ⟨w ++ s, rfl, h.symm⟩
    | cons d y =>
      refine .inr ⟨[], d :: y, w, s, new, rfl, List.cons_ne_nil d y, rfl, hw, hedit, ?_⟩
      rw [← h]
      exact rewriteFrom_edit hw hedit

/-! ## After the pass -/

/-- What was passed over is passed over again, and nothing is done in what was written. The
relation is between what comes before a place, before and after the pass, and what comes after
it. -/
theorem idle_rewrite {e e' : Rewriter α} (he : Taking e) {R : List α → List α → List α → Prop}
    (keep : ∀ pre pre' c s, R pre pre' (c :: s) → e pre (c :: s) = none →
      R (c :: pre) (c :: pre') s ∧ e' pre' (c :: rewriteFrom e (c :: pre) 0 s) = none)
    (edit : ∀ pre pre' w s new, R pre pre' (w ++ s) → w ≠ [] → e pre (w ++ s) = some (w.length, new) →
      R (w.reverse ++ pre) (new.reverse ++ pre') s ∧ IdleIn e' pre' new (rewriteFrom e (w.reverse ++ pre) 0 s))
    (s pre pre' : List α) (h : R pre pre' s) : IdleIn e' pre' (rewriteFrom e pre 0 s) [] := by
  refine rewrite_rec he (P := fun pre s => ∀ pre', R pre pre' s → IdleIn e' pre' (rewriteFrom e pre 0 s) []) ?_ ?_ ?_ s pre
    pre' h
  · intro pre pre' h
    trivial
  · intro pre c s hc ih pre' h
    obtain ⟨hR, hidle⟩ := keep pre pre' c s h hc
    rw [rewriteFrom_keep hc]
    exact ⟨by rwa [List.append_nil], ih _ hR⟩
  · intro pre w s new hw hedit ih pre' h
    obtain ⟨hR, hidle⟩ := edit pre pre' w s new h hw hedit
    rw [rewriteFrom_edit hw hedit, idleIn_append, List.append_nil]
    exact ⟨hidle, ih _ hR⟩

/-- Every edit takes one place of the pattern, and the others stay. -/
theorem places_rewrite {e : Rewriter α} {m : Pattern α} (he : Taking e) {R : List α → List α → List α → Prop}
    (keep : ∀ pre pre' c s, R pre pre' (c :: s) → e pre (c :: s) = none →
      R (c :: pre) (c :: pre') s ∧ m pre' (c :: rewriteFrom e (c :: pre) 0 s) = m pre (c :: s))
    (edit : ∀ pre pre' w s new, R pre pre' (w ++ s) → w ≠ [] → e pre (w ++ s) = some (w.length, new) →
      R (w.reverse ++ pre) (new.reverse ++ pre') s ∧ placesIn m pre w s = 1 ∧
        placesIn m pre' new (rewriteFrom e (w.reverse ++ pre) 0 s) = 0)
    (s pre pre' : List α) (h : R pre pre' s) :
    placesIn m pre' (rewriteFrom e pre 0 s) [] + rewrites e pre 0 s = placesIn m pre s [] := by
  refine rewrite_rec he (P := fun pre s => ∀ pre', R pre pre' s →
    placesIn m pre' (rewriteFrom e pre 0 s) [] + rewrites e pre 0 s = placesIn m pre s []) ?_ ?_ ?_ s pre pre' h
  · intro pre pre' h
    rfl
  · intro pre c s hc ih pre' h
    obtain ⟨hR, hm⟩ := keep pre pre' c s h hc
    have := ih _ hR
    rw [rewriteFrom_keep hc, rewrites_keep hc, placesIn, placesIn, List.append_nil, List.append_nil, hm]
    omega
  · intro pre w s new hw hedit ih pre' h
    obtain ⟨hR, hold, hnew⟩ := edit pre pre' w s new h hw hedit
    have := ih _ hR
    rw [rewriteFrom_edit hw hedit, rewrites_edit hw hedit, placesIn_append, placesIn_append, List.append_nil,
      List.append_nil, hold, hnew]
    omega

/-! ## Where nothing starts -/

/-- Nothing that satisfies `q` starts in `w`, when `tail` follows it. -/
def NoneIn (q : List α → Bool) (w tail : List α) : Prop := ∀ p t, w = p ++ t → t ≠ [] → q (t ++ tail) = false

theorem NoneIn.append {q : List α → Bool} {a b tail : List α} (ha : NoneIn q a (b ++ tail)) (hb : NoneIn q b tail) :
    NoneIn q (a ++ b) tail := by
  intro p t hpt ht
  rcases List.append_eq_append_iff.mp hpt with ⟨as, rfl, rfl⟩ | ⟨bs, rfl, rfl⟩
  · exact hb as t rfl ht
  · by_cases hbs : bs = []
    · subst hbs
      exact hb [] b rfl ht
    · have := ha p bs rfl hbs
      rwa [← List.append_assoc] at this

/-- Nothing that satisfies `q` starts at the offsets from `i` up to `j`. -/
def Quiet (q : List α → Bool) (s : List α) (i j : Nat) : Prop := ∀ x, i ≤ x → x < j → q (s.drop x) = false

theorem Quiet.append {q : List α → Bool} {s : List α} {i j k : Nat} (h : Quiet q s i j) (h' : Quiet q s j k) :
    Quiet q s i k := by
  intro x hx hk
  rcases Nat.lt_or_ge x j with hj | hj
  · exact h x hx hj
  · exact h' x hj hk

theorem Quiet.refl (q : List α → Bool) (s : List α) (i : Nat) : Quiet q s i i :=
  fun _ hx hlt => absurd hlt (Nat.not_lt.mpr hx)

theorem NoneIn.quiet {q : List α → Bool} {s : List α} {n m : Nat} (hm : n + m ≤ s.length)
    (h : NoneIn q ((s.drop n).take m) (s.drop (n + m))) : Quiet q s n (n + m) := by
  intro x hx hlt
  obtain ⟨i, rfl⟩ := Nat.exists_eq_add_of_le hx
  have := h ((s.drop n).take i) (((s.drop n).take m).drop i) ?_ ?_
  · rwa [← List.drop_drop (i := m), ← List.drop_append_of_le_length, List.take_append_drop, List.drop_drop] at this
    rw [List.length_take, List.length_drop]
    omega
  · conv_lhs => rw [← List.take_append_drop i ((s.drop n).take m), List.take_take, Nat.min_eq_left (by omega)]
  · intro hnil
    have := congrArg List.length hnil
    rw [List.length_drop, List.length_take, List.length_drop, List.length_nil] at this
    omega

/-- What holds at some place of a text, from what comes before the place and what comes after. -/
def Somewhere (q : List α → List α → Prop) (pre s : List α) : Prop := ∃ p t, s = p ++ t ∧ q (p.reverse ++ pre) t

theorem somewhere_nil {q : List α → List α → Prop} {pre : List α} : Somewhere q pre [] ↔ q pre [] := by
  constructor
  · intro h
    obtain ⟨p, t, hpt, h⟩ := h
    obtain ⟨rfl, rfl⟩ := List.append_eq_nil_iff.mp hpt.symm
    exact h
  · intro h
    exact ⟨[], [], rfl, h⟩

theorem somewhere_cons {q : List α → List α → Prop} {pre s : List α} {c : α} :
    Somewhere q pre (c :: s) ↔ q pre (c :: s) ∨ Somewhere q (c :: pre) s := by
  constructor
  · intro h
    obtain ⟨p, t, hpt, h⟩ := h
    cases p with
    | nil =>
      rw [List.nil_append] at hpt
      exact .inl (hpt ▸ h)
    | cons d p =>
      obtain ⟨rfl, rfl⟩ := List.cons.inj hpt
      exact .inr ⟨p, t, rfl, by simpa using h⟩
  · intro h
    rcases h with h | ⟨p, t, rfl, h⟩
    · exact ⟨[], c :: s, rfl, h⟩
    · exact ⟨c :: p, t, rfl, by simpa using h⟩

/-- A stretch at whose places it does not hold. -/
theorem somewhere_append {q : List α → List α → Prop} {pre a b : List α}
    (h : ∀ p t, a = p ++ t → t ≠ [] → ¬q (p.reverse ++ pre) (t ++ b)) :
    Somewhere q pre (a ++ b) ↔ Somewhere q (a.reverse ++ pre) b := by
  induction a generalizing pre with
  | nil => rfl
  | cons c a ih =>
    have hc := h [] (c :: a) rfl (List.cons_ne_nil c a)
    rw [List.cons_append, somewhere_cons, List.reverse_cons, List.append_assoc, List.singleton_append]
    refine (or_iff_right hc).trans (ih fun p t hpt ht => ?_)
    have := h (c :: p) t (by rw [hpt, List.cons_append]) ht
    rwa [List.reverse_cons, List.append_assoc] at this

theorem somewhere_iff {q : List α → List α → Prop} {pre s : List α} :
    Somewhere q pre s ↔ ∃ i, q ((s.take i).reverse ++ pre) (s.drop i) := by
  constructor
  · intro h
    obtain ⟨p, t, rfl, h⟩ := h
    exact ⟨p.length, by rwa [List.take_left, List.drop_left]⟩
  · intro h
    obtain ⟨i, h⟩ := h
    exact ⟨s.take i, s.drop i, (List.take_append_drop i s).symm, h⟩

/-! ## The loop over the matches -/

/-- Nothing matches at offset `i`. -/
def Free (m : Pattern α) (s : List α) (i : Nat) : Prop := m (s.take i).reverse (s.drop i) = none

/-- The matches from offset `i` on. -/
def spansAt (m : Pattern α) (s : List α) (i : Nat) : List (Nat × Nat) :=
  spansFrom i (piecesFrom m (s.take i).reverse 0 (s.drop i))

/-- The rewriter makes the edits that `f` chooses among the matches, and no match starts in a
match or in what an edit takes. -/
structure Chooses (m : Pattern α) (f : Nat × Nat → Option (Nat × Nat × List α)) (e : Rewriter α) (s : List α) : Prop where
  sound : Sound m
  pos : ∀ i n, m (s.take i).reverse (s.drop i) = some n → 0 < n
  free : ∀ i, Free m s i → e (s.take i).reverse (s.drop i) = none
  hit : ∀ i j, i < j → MatchAt m s i j → (∀ x, i < x → x < j → Free m s x) ∧
    ((f (i, j) = none ∧ e (s.take i).reverse (s.drop i) = none) ∨
      ∃ k new, f (i, j) = some (i, k, new) ∧ j ≤ k ∧ k ≤ s.length ∧ (∀ x, i < x → x < k → Free m s x) ∧
        e (s.take i).reverse (s.drop i) = some (k - i, new))

theorem reverse_take_succ {s : List α} {i : Nat} (hi : i < s.length) :
    (s.take (i + 1)).reverse = s[i] :: (s.take i).reverse := by
  rw [List.take_succ_eq_append_getElem hi, List.reverse_append]
  rfl

theorem spansAt_free {m : Pattern α} {s : List α} {i : Nat} (hi : i < s.length) (h : Free m s i) :
    spansAt m s i = spansAt m s (i + 1) := by
  have hcons := List.drop_eq_getElem_cons hi
  unfold Free at h
  unfold spansAt
  rw [hcons] at h
  rw [hcons, piecesFrom_gap (fun n hn => by rw [h] at hn; cases hn), spansFrom, reverse_take_succ hi]

theorem spansAt_frees {m : Pattern α} {s : List α} {i j : Nat} (hij : i ≤ j) (hj : j ≤ s.length)
    (h : ∀ x, i ≤ x → x < j → Free m s x) : spansAt m s i = spansAt m s j := by
  obtain ⟨d, rfl⟩ := Nat.exists_eq_add_of_le hij
  clear hij
  induction d with
  | zero => rfl
  | succ d ih =>
    rw [ih (by omega) fun x hx hxj => h x hx (by omega), spansAt_free (by omega) (h (i + d) (by omega) (by omega))]
    rfl

theorem spansAt_hit {m : Pattern α} (hm : Sound m) {s : List α} {i j : Nat} (hij : i < j) (h : MatchAt m s i j) :
    spansAt m s i = (i, j) :: spansAt m s j := by
  have hle := hm _ _ _ h
  rw [List.length_drop] at hle
  have hne : s.drop i ≠ [] := by
    intro hnil
    have := congrArg List.length hnil
    simp only [List.length_drop, List.length_nil] at this
    omega
  obtain ⟨n, rfl⟩ : ∃ n, j = i + (n + 1) := ⟨j - i - 1, by omega⟩
  have hmatch : m (s.take i).reverse (s.drop i) = some (n + 1) := by
    rw [MatchAt, Nat.add_sub_cancel_left] at h
    exact h
  have hw : ((s.drop i).take (n + 1)).length = n + 1 := List.length_take_of_le (by simpa using by omega)
  unfold spansAt
  rw [piecesFrom_hit hne hmatch, spansFrom, hw, ← List.reverse_append, ← List.take_add, List.drop_drop]

theorem le_of_mem_spansFrom {a b : Nat} : ∀ (ps : List (Piece α)) (i : Nat), (a, b) ∈ spansFrom i ps → i ≤ a
  | [], _, h => (List.not_mem_nil h).elim
  | .gap _ :: ps, i, h => Nat.le_of_succ_le (le_of_mem_spansFrom ps (i + 1) h)
  | .hit w :: ps, i, h => by
    rw [spansFrom, List.mem_cons] at h
    rcases h with h | h
    · exact Nat.le_of_eq (Prod.mk.inj h).1.symm
    · exact Nat.le_trans (Nat.le_add_right _ _) (le_of_mem_spansFrom ps _ h)

theorem splice_step {s : List α} {i : Nat} (hi : i < s.length) {es : List (Nat × Nat × List α)}
    (h : ∀ x ∈ es, i + 1 ≤ x.1) : splice s i es = s[i] :: splice s (i + 1) es := by
  cases es with
  | nil => exact List.drop_eq_getElem_cons hi
  | cons x es =>
    have hx := h x List.mem_cons_self
    have hone : slice s i (i + 1) = [s[i]] := by
      rw [slice, List.take_succ_eq_append_getElem hi, List.drop_left' (List.length_take_of_le (Nat.le_of_lt hi))]
    rw [splice, splice, ← slice_append_slice (Nat.le_succ i) hx, hone]
    rfl

/-- The edits that a loop makes at the matches it finds are the pass of the rewriter. -/
theorem Chooses.loop {m : Pattern α} {f : Nat × Nat → Option (Nat × Nat × List α)} {e : Rewriter α} {s : List α}
    (h : Chooses m f e s) (d i : Nat) (hd : s.length ≤ i + d) (hi : i ≤ s.length) :
    splice s i ((spansAt m s i).filterMap f) = rewriteFrom e (s.take i).reverse 0 (s.drop i) ∧
      ((spansAt m s i).filterMap f).length = rewrites e (s.take i).reverse 0 (s.drop i) ∧
        (spansAt m s i).length = placesIn m (s.take i).reverse (s.drop i) [] := by
  induction d using Nat.strongRecOn generalizing i with
  | ind d ih =>
    rcases Nat.eq_or_lt_of_le hi with rfl | hi
    · simp [spansAt, piecesFrom, spansFrom, splice, rewriteFrom, rewrites, placesIn]
    have hcons := List.drop_eq_getElem_cons hi
    have hstep (hes : ∀ x ∈ (spansAt m s (i + 1)).filterMap f, i + 1 ≤ x.1) := splice_step hi hes
    -- an edit starts where its match does
    have hstarts : ∀ x ∈ (spansAt m s (i + 1)).filterMap f, i + 1 ≤ x.1 := by
      intro x hx
      obtain ⟨⟨a, b⟩, hab, hf⟩ := List.mem_filterMap.mp hx
      have ha := le_of_mem_spansFrom _ _ hab
      have hord := spansFrom_ordered h.sound s s.length (i + 1) (by omega) hi
      obtain ⟨hlt, _, hmatch⟩ := hord.mem hab
      rcases (h.hit a b hlt hmatch).2 with ⟨hnone, _⟩ | ⟨k, new, hsome, _⟩
      · rw [hnone] at hf
        cases hf
      · rw [hsome] at hf
        obtain rfl := Option.some.inj hf
        exact ha
    by_cases hfree : Free m s i
    · obtain ⟨h1, h2, h3⟩ := ih (d - 1) (by omega) (i + 1) (by omega) hi
      have hnone := h.free i hfree
      have hmatch := hfree
      unfold Free at hmatch
      rw [hcons] at hnone hmatch
      rw [spansAt_free hi hfree, hcons, rewriteFrom_keep hnone, rewrites_keep hnone, hstep hstarts, h1, h2, h3,
        reverse_take_succ hi, placesIn, List.append_nil, hmatch]
      exact ⟨rfl, rfl, (Nat.zero_add _).symm⟩
    · obtain ⟨n, hn⟩ := Option.ne_none_iff_exists'.mp hfree
      have hpos := h.pos i n hn
      have hij : i < i + n := by omega
      have hmatch : MatchAt m s i (i + n) := by rw [MatchAt, Nat.add_sub_cancel_left]; exact hn
      have hlen := h.sound _ _ _ hn
      rw [List.length_drop] at hlen
      obtain ⟨hapart, hcase⟩ := h.hit i (i + n) hij hmatch
      have hspans : spansAt m s i = (i, i + n) :: spansAt m s (i + 1) := by
        rw [spansAt_hit h.sound hij hmatch, spansAt_frees (i := i + 1) (j := i + n) (by omega) (by omega)
          fun x hx hxj => hapart x (by omega) hxj]
      have hplaces : placesIn m (s.take i).reverse (s.drop i) [] =
          placesIn m (s.take (i + 1)).reverse (s.drop (i + 1)) [] + 1 := by
        rw [hcons] at hn ⊢
        rw [placesIn, List.append_nil, hn, reverse_take_succ hi, Nat.add_comm]
        rfl
      rcases hcase with ⟨hf, hnone⟩ | ⟨k, new, hf, hjk, hk, hfrees, hsome⟩
      · obtain ⟨h1, h2, h3⟩ := ih (d - 1) (by omega) (i + 1) (by omega) hi
        rw [hspans, List.filterMap_cons_none hf, List.length_cons, hplaces, h3]
        rw [hcons] at hnone
        rw [hcons, rewriteFrom_keep hnone, rewrites_keep hnone, hstep hstarts, h1, h2, reverse_take_succ hi]
        exact ⟨rfl, rfl, rfl⟩
      · obtain ⟨h1, h2, h3⟩ := ih (d - (k - i)) (by omega) k (by omega) hk
        obtain ⟨_, _, h3'⟩ := ih (d - 1) (by omega) (i + 1) (by omega) hi
        have hskip : spansAt m s (i + 1) = spansAt m s k :=
          spansAt_frees (by omega) hk fun x hx hxk => hfrees x (by omega) hxk
        have hcut : s.drop i = (s.drop i).take (k - i) ++ s.drop k := by
          conv_lhs => rw [← List.take_append_drop (k - i) (s.drop i), List.drop_drop, Nat.add_sub_cancel' (by omega)]
        have hw : ((s.drop i).take (k - i)).length = k - i := List.length_take_of_le (by rw [List.length_drop]; omega)
        have hne : (s.drop i).take (k - i) ≠ [] := by
          intro hnil
          rw [hnil, List.length_nil] at hw
          omega
        have hctx : ((s.drop i).take (k - i)).reverse ++ (s.take i).reverse = (s.take k).reverse := by
          rw [← List.reverse_append, ← List.take_add, Nat.add_sub_cancel' (by omega)]
        have hedit : e (s.take i).reverse ((s.drop i).take (k - i) ++ s.drop k) =
            some (((s.drop i).take (k - i)).length, new) := by
          rw [← hcut, hw, hsome]
        have hre := rewriteFrom_edit hne hedit
        have hnum := rewrites_edit hne hedit
        rw [← hcut, hctx] at hre hnum
        rw [hspans, List.filterMap_cons_some hf, List.length_cons, List.length_cons, hplaces, hre, hnum, hskip, splice,
          h1, h2, ← h3', hskip]
        refine ⟨?_, rfl, rfl⟩
        rw [show slice s i i = [] from List.drop_eq_nil_of_le (List.length_take_le i s), List.nil_append]

theorem Chooses.finditer {m : Pattern α} {f : Nat × Nat → Option (Nat × Nat × List α)} {e : Rewriter α} {s : List α}
    (h : Chooses m f e s) :
    splice s 0 ((finditer m s).filterMap f) = rewriteFrom e [] 0 s ∧
      ((finditer m s).filterMap f).length = rewrites e [] 0 s ∧ (Scan.finditer m s).length = placesIn m [] s [] := by
  have := h.loop s.length 0 (by omega) (Nat.zero_le _)
  simpa [spansAt, Scan.finditer, pieces] using this

/-! ## Texts seen through a map -/

theorem spansFrom_map {β : Type*} (g : α → β) (m : Pattern β) : ∀ (s pre : List α) (k i : Nat),
    spansFrom i (piecesFrom (fun p r => m (p.map g) (r.map g)) pre k s) =
      spansFrom i (piecesFrom m (pre.map g) k (s.map g))
  | [], _, _, _ => by simp only [List.map_nil, piecesFrom, spansFrom]
  | c :: cs, pre, k + 1, i => by
    simp only [List.map_cons, piecesFrom]
    exact spansFrom_map g m cs (c :: pre) k i
  | c :: cs, pre, 0, i => by
    simp only [List.map_cons, piecesFrom]
    split
    · rename_i n hn
      have := spansFrom_map g m cs (c :: pre) n (i + ((c :: cs).take (n + 1)).length)
      simp only [spansFrom, this, List.map_cons]
      simp [List.length_take]
    · rename_i hn
      have := spansFrom_map g m cs (c :: pre) 0 (i + 1)
      simp only [spansFrom, this, List.map_cons]

theorem finditer_map {β : Type*} (g : α → β) (m : Pattern β) (s : List α) :
    finditer (fun p r => m (p.map g) (r.map g)) s = finditer m (s.map g) :=
  spansFrom_map g m s [] 0 0

theorem splice_map {β : Type*} (g : α → β) (s : List α) : ∀ (es : List (Nat × Nat × List α)) (last : Nat),
    (splice s last es).map g = splice (s.map g) last (es.map fun x => (x.1, x.2.1, x.2.2.map g))
  | [], last => by simp [splice]
  | (i, j, new) :: es, last => by
    simp [splice, slice, splice_map g s es j]

end CiteVyn.Lib.Rewrite
