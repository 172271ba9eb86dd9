import CiteVyn.Lib.Scan
import Mathlib.Data.List.TakeWhile

/-! # Long runs

The runs of one kind of character, `n` long or longer, that no character of the
kind extends: `(?<!p)p{n,}(?!p)`. A substitution that puts no such run in their
place leaves none, and changes nothing where there is none. -/
namespace CiteVyn.Lib.LongRuns
open CiteVyn.Lib.Scan

variable {α : Type*} {p : α → Bool} {n : Nat} {f : List α → List α}

def longRun (p : α → Bool) (n : Nat) : Pattern α := fun pre rest =>
  let run := rest.takeWhile p
  if pre.head?.any p || run.length < n then none else some run.length

/-- Nowhere are there `n` characters of the kind in a row. -/
def NoLong (p : α → Bool) (n : Nat) (s : List α) : Prop :=
  ∀ r, r <:+: s → (∀ c ∈ r, p c = true) → r.length < n

/-- A text is a run, or a run, a character that ends it, and a text. -/
theorem run_induction {P : List α → Prop} (p : α → Bool) (last : ∀ w, (∀ c ∈ w, p c = true) → P w)
    (stop : ∀ w c r, (∀ c ∈ w, p c = true) → p c = false → P r → P (w ++ c :: r)) (s : List α) : P s := by
  induction hlen : s.length using Nat.strongRecOn generalizing s with
  | _ k ih =>
    have hall : ∀ c ∈ s.takeWhile p, p c = true := fun _ hc => List.mem_takeWhile_imp hc
    rw [← List.takeWhile_append_dropWhile (p := p) (l := s)]
    cases hdrop : s.dropWhile p with
    | nil =>
      rw [List.append_nil]
      exact last _ hall
    | cons c r =>
      have hc : p c = false := by
        have := List.head?_dropWhile_not p s
        rw [hdrop] at this
        simpa using this
      have hs : s.length = (s.takeWhile p).length + (r.length + 1) := by
        rw [← List.length_cons (a := c), ← hdrop, ← List.length_append, List.takeWhile_append_dropWhile]
      exact stop _ c r hall hc (ih r.length (by omega) r rfl)

/-! ## Texts without a long run -/

theorem NoLong.part {s t : List α} (h : NoLong p n s) (ht : t <:+: s) : NoLong p n t :=
  fun r hr hall => h r (hr.trans ht) hall

theorem noLong_of_all {w : List α} (hw : ∀ c ∈ w, p c = true) : NoLong p n w ↔ w.length < n := by
  constructor
  · exact fun h => h w List.infix_rfl hw
  · exact fun h r hr _ => Nat.lt_of_le_of_lt hr.length_le h

theorem noLong_of_length {w : List α} (h : w.length < n) : NoLong p n w :=
  fun _ hr _ => Nat.lt_of_le_of_lt hr.length_le h

theorem infix_append_cons {a b r : List α} {c : α} (h : r <:+: a ++ c :: b) (hc : c ∉ r) : r <:+: a ∨ r <:+: b := by
  obtain ⟨x, y, h⟩ := h
  rw [List.append_assoc] at h
  rcases List.append_eq_append_iff.mp h with ⟨z, ha, hz⟩ | ⟨z, hx, hz⟩
  · rcases List.append_eq_append_iff.mp hz with ⟨z', rfl, -⟩ | ⟨z', hr, hz'⟩
    · exact .inl ⟨x, z', by rw [ha, List.append_assoc]⟩
    · cases z' with
      | nil =>
        rw [List.append_nil] at hr
        exact .inl ⟨x, [], by rw [ha, hr, List.append_nil]⟩
      | cons d z' =>
        obtain ⟨rfl, -⟩ := List.cons.inj hz'
        exact absurd (by rw [hr]; simp) hc
  · cases z with
    | nil =>
      cases r with
      | nil => exact .inl (List.nil_infix)
      | cons d r =>
        obtain ⟨rfl, -⟩ := List.cons.inj hz
        exact absurd List.mem_cons_self hc
    | cons d z =>
      obtain ⟨-, hb⟩ := List.cons.inj hz
      exact .inr ⟨z, y, by rw [List.append_assoc, hb]; rfl⟩

/-- A character of another kind keeps the runs on its two sides apart. -/
theorem noLong_append_cons {a b : List α} {c : α} (hc : p c = false) (ha : NoLong p n a) (hb : NoLong p n b) :
    NoLong p n (a ++ c :: b) := by
  intro r hr hall
  have hmem : c ∉ r := by
    intro h
    rw [hall c h] at hc
    cases hc
  rcases infix_append_cons hr hmem with h | h
  · exact ha r h hall
  · exact hb r h hall

/-! ## The scan -/

/-- The scan looks at no more of what comes before than whether a run goes on. -/
theorem piecesFrom_head : ∀ (s : List α) (k : Nat) (pre pre' : List α),
    (k = 0 → pre.head?.any p = pre'.head?.any p) → piecesFrom (longRun p n) pre k s = piecesFrom (longRun p n) pre' k s
  | [], _, _, _, _ => by rw [piecesFrom, piecesFrom]
  | c :: cs, k + 1, pre, pre', _ => by
    rw [piecesFrom, piecesFrom]
    exact piecesFrom_head cs k (c :: pre) (c :: pre') fun _ => rfl
  | c :: cs, 0, pre, pre', h => by
    have hm : longRun p n pre (c :: cs) = longRun p n pre' (c :: cs) := by rw [longRun, longRun, h rfl]
    simp only [piecesFrom, hm]
    split
    · rw [piecesFrom_head cs _ (c :: pre) (c :: pre') fun _ => rfl]
    · rw [piecesFrom_head cs 0 (c :: pre) (c :: pre') fun _ => rfl]

/-- Inside a run nothing starts. -/
theorem render_inside {w : List α} (hw : ∀ c ∈ w, p c = true) (s : List α) : ∀ {pre : List α}, pre.head?.any p = true →
    (piecesFrom (longRun p n) pre 0 (w ++ s)).flatMap (Piece.render f) =
      w ++ (piecesFrom (longRun p n) (w.reverse ++ pre) 0 s).flatMap (Piece.render f) := by
  induction w with
  | nil => exact fun _ => rfl
  | cons c w ih =>
    intro pre hpre
    obtain ⟨hc, hw⟩ := List.forall_mem_cons.mp hw
    have hnone : longRun p n pre (c :: (w ++ s)) = none := by rw [longRun, hpre]; rfl
    rw [List.cons_append, piecesFrom_gap (by rw [hnone]; intro _ h; cases h), List.flatMap_cons,
      ih hw (show (c :: pre).head?.any p = true by simpa using hc), List.reverse_cons, List.append_assoc]
    rfl

/-- What becomes of a run that nothing extends. -/
theorem render_run (hn : 0 < n) {w s pre : List α} (hw : ∀ c ∈ w, p c = true) (hpre : pre.head?.any p = false)
    (hs : s.head?.any p = false) :
    (piecesFrom (longRun p n) pre 0 (w ++ s)).flatMap (Piece.render f) =
      (if n ≤ w.length then f w else w) ++
        (piecesFrom (longRun p n) (w.reverse ++ pre) 0 s).flatMap (Piece.render f) := by
  have htake : (w ++ s).takeWhile p = w := by
    rw [List.takeWhile_append_of_pos hw]
    cases s with
    | nil => rw [List.takeWhile_nil, List.append_nil]
    | cons c s =>
      have hc : ¬p c = true := by simpa using hs
      rw [List.takeWhile_cons_of_neg hc, List.append_nil]
  cases w with
  | nil =>
    rw [if_neg (show ¬n ≤ ([] : List α).length from Nat.not_le.mpr hn)]
    rfl
  | cons c w =>
    have hm : longRun p n pre (c :: w ++ s) = if n ≤ (c :: w).length then some (w.length + 1) else none := by
      rw [longRun]
      simp only [htake, hpre, Bool.false_or, decide_eq_true_eq]
      by_cases hle : n ≤ (c :: w).length
      · rw [if_neg (Nat.not_lt.mpr hle), if_pos hle]
        rfl
      · rw [if_pos (Nat.lt_of_not_le hle), if_neg hle]
    by_cases hle : n ≤ (c :: w).length
    · rw [if_pos hle] at hm ⊢
      have hne : c :: w ++ s ≠ [] := List.cons_ne_nil _ _
      have ht : (c :: w ++ s).take (w.length + 1) = c :: w := List.take_left' rfl
      have hd : (c :: w ++ s).drop (w.length + 1) = s := List.drop_left' rfl
      rw [piecesFrom_hit hne hm, ht, hd, List.flatMap_cons]
      rfl
    · rw [if_neg hle] at hm ⊢
      obtain ⟨hc, hw⟩ := List.forall_mem_cons.mp hw
      rw [List.cons_append, piecesFrom_gap (by rw [← List.cons_append, hm]; intro _ h; cases h),
        List.flatMap_cons, render_inside hw s (by simpa using hc), List.reverse_cons, List.append_assoc]
      rfl

theorem sub_run (hn : 0 < n) {w : List α} (hw : ∀ c ∈ w, p c = true) :
    sub (longRun p n) f w = if n ≤ w.length then f w else w := by
  have h : _ = (if n ≤ w.length then f w else w) ++ _ := render_run hn hw (rfl : [].head?.any p = false) (rfl : [].head?.any p = false)
  rwa [List.append_nil, piecesFrom, List.flatMap_nil, List.append_nil] at h

theorem sub_run_cons (hn : 0 < n) {w r : List α} {c : α} (hw : ∀ c ∈ w, p c = true) (hc : p c = false) :
    sub (longRun p n) f (w ++ c :: r) = (if n ≤ w.length then f w else w) ++ c :: sub (longRun p n) f r := by
  have hstop (pre : List α) : longRun p n pre (c :: r) = none := by
    rw [longRun]
    simp only [List.takeWhile_cons, hc, Bool.false_eq_true, if_false, List.length_nil, hn, decide_true, Bool.or_true,
      if_true]
  rw [sub, pieces, render_run hn hw rfl (by simpa using hc),
    piecesFrom_gap (by rw [hstop]; intro _ h; cases h), List.flatMap_cons,
    piecesFrom_head r 0 (c :: (w.reverse ++ [])) [] fun _ => by simpa using hc]
  rfl

/-- A substitution that writes no long run leaves none. -/
theorem noLong_sub (hn : 0 < n) (hf : ∀ w, NoLong p n (f w)) (s : List α) : NoLong p n (sub (longRun p n) f s) := by
  have hrun {w : List α} (hw : ∀ c ∈ w, p c = true) : NoLong p n (if n ≤ w.length then f w else w) := by
    split
    · exact hf w
    · rename_i hlt
      exact noLong_of_length (Nat.lt_of_not_le hlt)
  induction s using run_induction p with
  | last w hw =>
    rw [sub_run hn hw]
    exact hrun hw
  | stop w c r hw hc ih =>
    rw [sub_run_cons hn hw hc]
    exact noLong_append_cons hc (hrun hw) ih

/-- Without a long run there is nothing to substitute. -/
theorem sub_of_noLong (hn : 0 < n) {s : List α} (h : NoLong p n s) : sub (longRun p n) f s = s := by
  induction s using run_induction p with
  | last w hw => rw [sub_run hn hw, if_neg (Nat.not_le.mpr ((noLong_of_all hw).mp h))]
  | stop w c r hw hc ih =>
    have hwlen := (noLong_of_all hw).mp (h.part (List.prefix_append w (c :: r)).isInfix)
    have hr := h.part ((List.suffix_cons c r).trans (List.suffix_append w (c :: r))).isInfix
    rw [sub_run_cons hn hw hc, if_neg (Nat.not_le.mpr hwlen), ih hr]

end CiteVyn.Lib.LongRuns
