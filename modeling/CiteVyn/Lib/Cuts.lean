import CiteVyn.Lib.Scan
import Mathlib.Data.List.Induction

/-! # Texts with places where something was cut out

`sub` with a fixed replacement forgets where it replaced. Here the text is a
list of tokens, kept elements and cuts, and the substitution runs over tokens,
so that what a later scan finds in the result can be traced: it either was in
the text before, or is spelled across a cut. -/
namespace CiteVyn.Lib.Cuts
open CiteVyn.Lib.Scan

variable {α : Type*}

/-- An element, or a stretch that was replaced. -/
inductive Tok (α : Type*) where
  | kept (c : α)
  | cut (w : List α)
  deriving Repr, DecidableEq

def Tok.render (new : List α) : Tok α → List α
  | .kept c => [c]
  | .cut _ => new

/-- The text, with `new` for every cut. -/
def join (new : List α) (ts : List (Tok α)) : List α := ts.flatMap (Tok.render new)

/-- A run of elements with no cut between them. -/
def run (s : List α) : List (Tok α) := s.map .kept

/-- The scan of `sub` over tokens. A cut inside a match is part of it. -/
def cutFrom (m : Pattern α) (new : List α) : List α → Nat → List (Tok α) → List (Tok α)
  | _, _, [] => []
  | pre, k + 1, .kept c :: ts => cutFrom m new (c :: pre) k ts
  | pre, k + 1, .cut _ :: ts => cutFrom m new pre (k + 1) ts
  | pre, 0, .cut w :: ts => .cut w :: cutFrom m new (new.reverse ++ pre) 0 ts
  | pre, 0, .kept c :: ts =>
    match m pre (c :: join new ts) with
    | some (n + 1) => .cut ((c :: join new ts).take (n + 1)) :: cutFrom m new (c :: pre) n ts
    | _ => .kept c :: cutFrom m new (c :: pre) 0 ts

def cutTokens (m : Pattern α) (new : List α) (ts : List (Tok α)) : List (Tok α) :=
  cutFrom m new [] 0 ts

section Render

@[simp] theorem join_nil (new : List α) : join new [] = [] := rfl

@[simp] theorem join_kept (new : List α) (c : α) (ts : List (Tok α)) :
    join new (.kept c :: ts) = c :: join new ts := rfl

@[simp] theorem join_cut (new w : List α) (ts : List (Tok α)) :
    join new (.cut w :: ts) = new ++ join new ts := rfl

@[simp] theorem join_append (new : List α) (as bs : List (Tok α)) :
    join new (as ++ bs) = join new as ++ join new bs := List.flatMap_append

@[simp] theorem join_run (new s : List α) : join new (run s) = s := by
  induction s with
  | nil => rfl
  | cons c s ih =>
    rw [run, List.map_cons, join_kept]
    exact congrArg (c :: ·) ih

@[simp] theorem run_cons (c : α) (s : List α) : run (c :: s) = .kept c :: run s := rfl

@[simp] theorem run_nil : run ([] : List α) = [] := rfl

end Render

/-! ## The scan over tokens is the scan over the text -/

/-- A pattern whose matches keep clear of the replacement: none starts in it,
and none reaches into it (unless it is empty and cannot be seen). -/
structure Avoids (m : Pattern α) (new : List α) : Prop where
  starts : ∀ pre p t rest, new = p ++ t → t ≠ [] → m (p.reverse ++ pre) (t ++ rest) = none
  reaches : new = [] ∨ ∀ pre s rest n, s ≠ [] → m pre (s ++ new ++ rest) = some n → n ≤ s.length

/-- The first `k` tokens are kept. -/
def KeptFor : Nat → List (Tok α) → Prop
  | 0, _ => True
  | _ + 1, [] => True
  | k + 1, .kept _ :: ts => KeptFor k ts
  | _ + 1, .cut _ :: _ => False

theorem keptFor_or_cut : ∀ (k : Nat) (ts : List (Tok α)),
    KeptFor k ts ∨ ∃ s w r, ts = run s ++ .cut w :: r ∧ s.length < k
  | 0, _ => .inl trivial
  | _ + 1, [] => .inl trivial
  | k + 1, .cut w :: ts => .inr ⟨[], w, ts, rfl, Nat.succ_pos k⟩
  | k + 1, .kept c :: ts => by
    rcases keptFor_or_cut k ts with h | ⟨s, w, r, rfl, hlt⟩
    · exact .inl h
    · exact .inr ⟨c :: s, w, r, rfl, by simpa using hlt⟩

theorem piecesFrom_gaps {m : Pattern α} {rest : List α} :
    ∀ (a pre : List α), (∀ p t, a = p ++ t → t ≠ [] → m (p.reverse ++ pre) (t ++ rest) = none) →
      piecesFrom m pre 0 (a ++ rest) = a.map .gap ++ piecesFrom m (a.reverse ++ pre) 0 rest
  | [], _, _ => rfl
  | c :: cs, pre, h => by
    have hc : m pre (c :: (cs ++ rest)) = none := h [] (c :: cs) rfl (by simp)
    rw [List.cons_append, piecesFrom_gap (by simp [hc]), piecesFrom_gaps cs (c :: pre)
      fun p t hp ht => by simpa using h (c :: p) t (by simp [hp]) ht]
    simp

theorem flatMap_render_gaps (f : List α → List α) (s : List α) :
    (s.map Piece.gap).flatMap (Piece.render f) = s := by
  induction s with
  | nil => rfl
  | cons c s ih =>
    rw [List.map_cons, List.flatMap_cons, ih]
    rfl

theorem join_cutFrom {m : Pattern α} {new : List α} (hm : Avoids m new) :
    ∀ (ts : List (Tok α)) (pre : List α) (k : Nat), new = [] ∨ KeptFor k ts →
      join new (cutFrom m new pre k ts) =
        (piecesFrom m pre k (join new ts)).flatMap (Piece.render fun _ => new)
  | [], _, _, _ => by simp [cutFrom, piecesFrom]
  | .kept c :: ts, pre, k + 1, h => by
    simp only [cutFrom, join_kept, piecesFrom]
    exact join_cutFrom hm ts (c :: pre) k h
  | .cut w :: ts, pre, k + 1, h => by
    rcases h with rfl | h
    · simp only [cutFrom, join_cut, List.nil_append]
      exact join_cutFrom hm ts pre (k + 1) (.inl rfl)
    · exact h.elim
  | .cut w :: ts, pre, 0, _ => by
    rw [cutFrom, join_cut, join_cut, piecesFrom_gaps new pre fun p t => hm.starts pre p t _,
      List.flatMap_append, flatMap_render_gaps, join_cutFrom hm ts _ 0 (.inr trivial)]
  | .kept c :: ts, pre, 0, _ => by
    simp only [cutFrom, join_kept]
    split
    · rename_i n hn
      have hk : new = [] ∨ KeptFor n ts := by
        rcases keptFor_or_cut n ts with h | ⟨s, w, r, rfl, hlt⟩
        · exact .inr h
        · rcases hm.reaches with h | h
          · exact .inl h
          · have := h pre (c :: s) (join new r) (n + 1) (by simp) (by simpa using hn)
            simp only [List.length_cons] at this
            omega
      rw [join_cut, join_cutFrom hm ts (c :: pre) n hk]
      simp only [piecesFrom, hn]
      rfl
    · rename_i hno
      rw [join_kept, join_cutFrom hm ts (c :: pre) 0 (.inr trivial),
        piecesFrom_gap fun n hn => hno n hn]
      rfl

/-- The tokens render to the substituted text. -/
theorem join_cutTokens {m : Pattern α} {new : List α} (hm : Avoids m new) (ts : List (Tok α)) :
    join new (cutTokens m new ts) = sub m (fun _ => new) (join new ts) :=
  join_cutFrom hm ts [] 0 (.inr trivial)

theorem avoids_exactly [BEq α] (w : List α) : Avoids (exactly w) [] where
  starts _ _ _ _ h ht := absurd (List.append_eq_nil_iff.mp h.symm).2 ht
  reaches := .inl rfl

/-! ## The text before the cuts -/

def Tok.source : Tok α → List α
  | .kept c => [c]
  | .cut w => w

/-- The text, with what was cut at its place. -/
def source (ts : List (Tok α)) : List α := ts.flatMap Tok.source

@[simp] theorem source_nil : source ([] : List (Tok α)) = [] := rfl

@[simp] theorem source_kept (c : α) (ts : List (Tok α)) : source (.kept c :: ts) = c :: source ts := rfl

@[simp] theorem source_cut (w : List α) (ts : List (Tok α)) : source (.cut w :: ts) = w ++ source ts := rfl

@[simp] theorem source_append (as bs : List (Tok α)) : source (as ++ bs) = source as ++ source bs := List.flatMap_append

@[simp] theorem source_run (s : List α) : source (run s) = s := by
  induction s with
  | nil => rfl
  | cons c s ih => rw [run_cons, source_kept, ih]

theorem source_cutFrom (m : Pattern α) (new s pre : List α) (k : Nat) : source (cutFrom m new pre k (run s)) = s.drop k := by
  induction s generalizing pre k with
  | nil => simp [cutFrom]
  | cons c s ih =>
    cases k with
    | succ k =>
      rw [run_cons, cutFrom, ih, List.drop_succ_cons]
    | zero =>
      simp only [run_cons, cutFrom, join_run]
      split
      · rw [source_cut, ih, List.take_succ_cons, List.cons_append, List.take_append_drop]
        rfl
      · rw [source_kept, ih]
        rfl

/-- The cuts were made in this text. -/
theorem source_cutTokens (m : Pattern α) (new s : List α) : source (cutTokens m new (run s)) = s :=
  source_cutFrom m new s [] 0

theorem cut_of_exactly [BEq α] [LawfulBEq α] {w x : List α} (new s pre : List α) (k : Nat)
    (h : .cut x ∈ cutFrom (exactly w) new pre k (run s)) : x = w := by
  induction s generalizing pre k with
  | nil => simp [cutFrom] at h
  | cons c s ih =>
    cases k with
    | succ k =>
      rw [run_cons, cutFrom] at h
      exact ih _ k h
    | zero =>
      simp only [run_cons, cutFrom, join_run] at h
      split at h
      · rename_i n hn
        rcases List.mem_cons.mp h with h | h
        · rw [exactly] at hn
          split at hn
          · rename_i hpre
            rw [Tok.cut.inj h, show n + 1 = w.length from (Option.some.inj hn).symm]
            exact (List.prefix_iff_eq_take.mp (List.isPrefixOf_iff_prefix.mp hpre)).symm
          · cases hn
        · exact ih _ _ h
      · rcases List.mem_cons.mp h with h | h
        · cases h
        · exact ih _ _ h

/-- What was cut out is what was looked for. -/
theorem cut_of_cutTokens [BEq α] [LawfulBEq α] {w x : List α} (new s : List α)
    (h : .cut x ∈ cutTokens (exactly w) new (run s)) : x = w :=
  cut_of_exactly new s [] 0 h

/-- Tokens without a cut are a run, and others have a last cut. -/
theorem run_or_last_cut (ts : List (Tok α)) : ts = run (join [] ts) ∨
    ∃ p w y, ts = p ++ .cut w :: run y ∧ y <:+ join [] ts := by
  induction ts with
  | nil => exact .inl rfl
  | cons t ts ih =>
    rcases ih with ih | ⟨p, w, y, hts, hy⟩
    · cases t with
      | kept c => exact .inl (by rw [join_kept, run_cons, ← ih])
      | cut w => exact .inr ⟨[], w, join [] ts, by rw [← ih]; rfl, List.suffix_rfl⟩
    · refine .inr ⟨t :: p, w, y, by rw [hts, List.cons_append], hy.trans ?_⟩
      cases t with
      | kept c => exact List.suffix_cons _ _
      | cut w => exact List.suffix_append _ _

theorem join_eq_nil_iff {ts : List (Tok α)} : join [] ts = [] ↔ ∀ t ∈ ts, ∃ w, t = .cut w := by
  induction ts with
  | nil => exact iff_of_true rfl nofun
  | cons t ts ih =>
    cases t with
    | kept c => exact iff_of_false (List.cons_ne_nil _ _) fun h => nomatch (h _ List.mem_cons_self)
    | cut w => simp [ih]

/-! ## Runs are inherited -/

theorem run_of_cutFrom_zero {m : Pattern α} {new : List α} :
    ∀ (s : List α) (ts r : List (Tok α)) (pre : List α), cutFrom m new pre 0 ts = run s ++ r →
      ∃ r', ts = run s ++ r'
  | [], ts, _, _, _ => ⟨ts, rfl⟩
  | c :: s, [], _, _, h => by simp [cutFrom] at h
  | c :: s, .cut w :: ts, _, _, h => by simp [cutFrom] at h
  | c :: s, .kept d :: ts, r, pre, h => by
    simp only [cutFrom] at h
    split at h
    · simp at h
    · simp only [run_cons, List.cons_append, List.cons.injEq, Tok.kept.injEq] at h
      obtain ⟨rfl, h⟩ := h
      obtain ⟨r', rfl⟩ := run_of_cutFrom_zero s ts r (d :: pre) h
      exact ⟨r', rfl⟩

/-- A run after the scan was a run before it. -/
theorem run_of_cutFrom {m : Pattern α} {new s : List α} :
    ∀ (ts : List (Tok α)) (pre : List α) (k : Nat) (p r : List (Tok α)),
      cutFrom m new pre k ts = p ++ run s ++ r → ∃ p' r', ts = p' ++ run s ++ r'
  | [], _, _, p, r, h => by
    simp only [cutFrom, List.nil_eq, List.append_eq_nil_iff] at h
    exact ⟨[], [], by simp [h.1.2]⟩
  | .kept c :: ts, pre, k + 1, p, r, h => by
    obtain ⟨p', r', rfl⟩ := run_of_cutFrom ts (c :: pre) k p r (by simpa [cutFrom] using h)
    exact ⟨.kept c :: p', r', rfl⟩
  | .cut w :: ts, pre, k + 1, p, r, h => by
    obtain ⟨p', r', rfl⟩ := run_of_cutFrom ts pre (k + 1) p r (by simpa [cutFrom] using h)
    exact ⟨.cut w :: p', r', rfl⟩
  | t :: ts, pre, 0, [], r, h => by
    obtain ⟨r', hr⟩ := run_of_cutFrom_zero s (t :: ts) r pre (by simpa using h)
    exact ⟨[], r', by simpa using hr⟩
  | .cut w :: ts, pre, 0, q :: p, r, h => by
    simp only [cutFrom, List.cons_append, List.cons.injEq] at h
    obtain ⟨p', r', rfl⟩ := run_of_cutFrom ts _ 0 p r h.2
    exact ⟨.cut w :: p', r', rfl⟩
  | .kept c :: ts, pre, 0, q :: p, r, h => by
    simp only [cutFrom] at h
    split at h
    all_goals
      simp only [List.cons_append, List.cons.injEq] at h
      obtain ⟨p', r', rfl⟩ := run_of_cutFrom ts _ _ p r h.2
      exact ⟨.kept c :: p', r', rfl⟩

/-- After the copies of `s` are cut out, no run spells `s`. -/
theorem no_run_cutFrom_exactly [BEq α] [LawfulBEq α] {s new : List α} (hs : s ≠ []) :
    ∀ (ts : List (Tok α)) (pre : List α) (k : Nat) (p r : List (Tok α)),
      cutFrom (exactly s) new pre k ts ≠ p ++ run s ++ r
  | [], _, _, p, r, h => by
    obtain ⟨c, s, rfl⟩ := List.exists_cons_of_ne_nil hs
    simp [cutFrom] at h
  | .kept c :: ts, pre, k + 1, p, r, h =>
    no_run_cutFrom_exactly hs ts (c :: pre) k p r (by simpa [cutFrom] using h)
  | .cut w :: ts, pre, k + 1, p, r, h =>
    no_run_cutFrom_exactly hs ts pre (k + 1) p r (by simpa [cutFrom] using h)
  | .cut w :: ts, pre, 0, [], r, h => by
    obtain ⟨c, s, rfl⟩ := List.exists_cons_of_ne_nil hs
    simp [cutFrom] at h
  | .cut w :: ts, pre, 0, q :: p, r, h => by
    simp only [cutFrom, List.cons_append, List.cons.injEq] at h
    exact no_run_cutFrom_exactly hs ts _ 0 p r h.2
  | .kept c :: ts, pre, 0, q :: p, r, h => by
    simp only [cutFrom] at h
    split at h
    all_goals
      simp only [List.cons_append, List.cons.injEq] at h
      exact no_run_cutFrom_exactly hs ts _ _ p r h.2
  | .kept c :: ts, pre, 0, [], r, h => by
    obtain ⟨d, s, rfl⟩ := List.exists_cons_of_ne_nil hs
    simp only [cutFrom] at h
    split at h
    · simp at h
    · rename_i hno
      simp only [List.nil_append, run_cons, List.cons_append, List.cons.injEq,
        Tok.kept.injEq] at h
      obtain ⟨rfl, h⟩ := h
      -- the run was there before, so the scan saw the copy at its start
      obtain ⟨r', rfl⟩ := run_of_cutFrom_zero s ts r _ h
      refine hno s.length ?_
      have : (c :: s).isPrefixOf (c :: join new (run s ++ r')) = true := by
        rw [List.isPrefixOf_iff_prefix, join_append, join_run]
        exact List.prefix_append (c :: s) _
      rw [exactly, if_pos this, List.length_cons]

/-! ## Places of the rendered text -/

/-- A replacement that no match holds the first element of is not reached into. -/
theorem Avoids.of_head {m : Pattern α} {c : α} {new : List α}
    (hstarts : ∀ pre p t rest, c :: new = p ++ t → t ≠ [] → m (p.reverse ++ pre) (t ++ rest) = none)
    (hno : ∀ pre s n, m pre s = some n → c ∉ s.take n) : Avoids m (c :: new) where
  starts := hstarts
  reaches := by
    refine .inr fun pre s rest n _ hn => ?_
    by_contra hlt
    refine hno pre _ n hn ?_
    rw [List.append_assoc, List.take_append]
    obtain ⟨k, hk⟩ : ∃ k, n - s.length = k + 1 := ⟨n - s.length - 1, by omega⟩
    simp [hk]

/-- An element that the replacement does not hold was kept. -/
theorem join_split_kept {new : List α} {c : α} (hc : c ∉ new) :
    ∀ (ts : List (Tok α)) {x y : List α}, join new ts = x ++ c :: y →
      ∃ p q, ts = p ++ .kept c :: q ∧ join new p = x ∧ join new q = y
  | [], x, y, h => by simp at h
  | .kept d :: ts, [], y, h => by
    simp only [join_kept, List.nil_append, List.cons.injEq] at h
    exact ⟨[], ts, by rw [h.1]; rfl, rfl, h.2⟩
  | .kept d :: ts, e :: x, y, h => by
    simp only [join_kept, List.cons_append, List.cons.injEq] at h
    obtain ⟨p, q, rfl, hp, hq⟩ := join_split_kept hc ts h.2
    exact ⟨.kept d :: p, q, rfl, by rw [join_kept, hp, h.1], hq⟩
  | .cut w :: ts, x, y, h => by
    rw [join_cut] at h
    have hrec : ∀ a, x = new ++ a → join new ts = a ++ c :: y →
        ∃ p q, .cut w :: ts = p ++ .kept c :: q ∧ join new p = x ∧ join new q = y := by
      rintro a rfl ha
      obtain ⟨p, q, rfl, hp, hq⟩ := join_split_kept hc ts ha
      exact ⟨.cut w :: p, q, rfl, by rw [join_cut, hp], hq⟩
    rcases List.append_eq_append_iff.mp h with ⟨a, hx, ha⟩ | ⟨a, hnew, ha⟩
    · exact hrec a hx ha
    · cases a with
      | nil => exact hrec [] (by simpa using hnew.symm) (by simpa using ha.symm)
      | cons d a =>
        simp only [List.cons_append, List.cons.injEq] at ha
        exact absurd (by rw [hnew, ha.1]; simp) hc

/-- The last element is a kept one, or the end of a replacement. -/
theorem join_concat {new : List α} {d : α} (ts : List (Tok α)) {x : List α} {c : α}
    (h : join (new ++ [d]) ts = x ++ [c]) :
    (∃ q, ts = q ++ [.kept c] ∧ join (new ++ [d]) q = x) ∨
      ∃ q w, ts = q ++ [.cut w] ∧ c = d := by
  rcases List.eq_nil_or_concat ts with rfl | ⟨q, t, rfl⟩
  · simp at h
  · cases t with
    | kept e =>
      rw [List.concat_eq_append, join_append, join_kept, join_nil] at h
      obtain ⟨hq, he⟩ := List.append_inj' h rfl
      cases he
      exact .inl ⟨q, by simp, hq⟩
    | cut w =>
      rw [List.concat_eq_append, join_append, join_cut, join_nil, List.append_nil,
        ← List.append_assoc] at h
      exact .inr ⟨q, w, by simp, (List.cons.inj (List.append_inj' h rfl).2).1.symm⟩

/-- A stretch at the end, free of the last element of the replacement, is a
run. -/
theorem join_split_run {new : List α} {d : α} {x s : List α} (hd : d ∉ s) :
    ∀ {ts : List (Tok α)}, join (new ++ [d]) ts = x ++ s →
      ∃ q, ts = q ++ run s ∧ join (new ++ [d]) q = x := by
  induction s using List.reverseRecOn with
  | nil => exact fun {ts} h => ⟨ts, by simp, by simpa using h⟩
  | append_singleton s c ih =>
    intro ts h
    rw [List.mem_append, List.mem_singleton, not_or] at hd
    rw [← List.append_assoc] at h
    rcases join_concat ts h with ⟨q, rfl, hq⟩ | ⟨_, _, _, hcd⟩
    · obtain ⟨q', rfl, hx⟩ := ih hd.1 hq
      exact ⟨q', by simp [run], hx⟩
    · exact absurd hcd.symm hd.2

/-! ## Occurrences -/

/-- At how many places `m` occurs in a text. -/
def occurrences [BEq α] (m : List α) : List α → Nat
  | [] => if m.isPrefixOf [] then 1 else 0
  | c :: cs => (if m.isPrefixOf (c :: cs) then 1 else 0) + occurrences m cs

theorem occurrences_pos [BEq α] [LawfulBEq α] {m : List α} (hm : m ≠ []) :
    ∀ {s : List α}, 0 < occurrences m s ↔ ∃ p r, s = p ++ m ++ r
  | [] => by
    obtain ⟨d, ds, rfl⟩ := List.exists_cons_of_ne_nil hm
    simp [occurrences, List.isPrefixOf]
  | c :: cs => by
    have ih := occurrences_pos hm (s := cs)
    rw [occurrences]
    constructor
    · intro h
      by_cases hpre : m.isPrefixOf (c :: cs) = true
      · obtain ⟨r, hr⟩ := List.isPrefixOf_iff_prefix.mp hpre
        exact ⟨[], r, by simpa using hr.symm⟩
      · rw [if_neg hpre, Nat.zero_add] at h
        obtain ⟨p, r, rfl⟩ := ih.mp h
        exact ⟨c :: p, r, rfl⟩
    · rintro ⟨p, r, h⟩
      cases p with
      | nil =>
        have : m.isPrefixOf (c :: cs) = true :=
          List.isPrefixOf_iff_prefix.mpr ⟨r, by simpa using h.symm⟩
        rw [if_pos this]
        omega
      | cons d p =>
        simp only [List.cons_append, List.cons.injEq] at h
        have := ih.mpr ⟨p, r, h.2⟩
        omega

/-- One place is known: it is the only one when every place is that one. -/
theorem occurrences_eq_one [BEq α] [LawfulBEq α] {m : List α} (hm : m ≠ []) :
    ∀ (p r : List α), occurrences m (p ++ m ++ r) = 1 ↔
      ∀ p' r', p ++ m ++ r = p' ++ m ++ r' → p' = p
  | [], r => by
    obtain ⟨c, cs, rfl⟩ := List.exists_cons_of_ne_nil hm
    have hpre : (c :: cs).isPrefixOf (c :: (cs ++ r)) = true :=
      List.isPrefixOf_iff_prefix.mpr ⟨r, rfl⟩
    have hpos := occurrences_pos hm (s := cs ++ r)
    rw [List.nil_append, List.cons_append, occurrences, if_pos hpre]
    constructor
    · intro h p' r' he
      cases p' with
      | nil => rfl
      | cons d p' =>
        simp only [List.cons_append, List.cons.injEq] at he
        have := hpos.mpr ⟨p', r', by simpa using he.2⟩
        omega
    · intro h
      by_contra hne
      obtain ⟨p', r', he⟩ := hpos.mp (by omega)
      have := h (c :: p') r' (by simp [he])
      cases this
  | d :: p, r => by
    have ih := occurrences_eq_one hm p r
    have hpos : 0 < occurrences m (p ++ m ++ r) := (occurrences_pos hm).mpr ⟨p, r, rfl⟩
    rw [List.cons_append, List.cons_append, occurrences]
    constructor
    · intro h p' r' he
      cases p' with
      | nil =>
        have : m.isPrefixOf (d :: (p ++ m ++ r)) = true :=
          List.isPrefixOf_iff_prefix.mpr ⟨r', by simpa using he.symm⟩
        rw [if_pos this] at h
        omega
      | cons e p' =>
        simp only [List.cons_append, List.cons.injEq] at he
        have h1 : occurrences m (p ++ m ++ r) = 1 := by omega
        rw [ih.mp h1 p' r' he.2, he.1]
    · intro h
      have hno : m.isPrefixOf (d :: (p ++ m ++ r)) = false := by
        by_contra hpre
        obtain ⟨r', hr⟩ := List.isPrefixOf_iff_prefix.mp (Bool.not_eq_false _ ▸ hpre)
        cases h [] r' (by simpa using hr.symm)
      have h1 := ih.mpr fun p' r' he => by
        have := h (d :: p') r' (by simp [he])
        simpa using this
      rw [hno, h1]
      rfl

/-- `m` is spelled by elements with a cut between them. -/
def SpelledAcross (m : List α) (ts : List (Tok α)) : Prop :=
  ∃ p a w b r, ts = p ++ (a ++ .cut w :: b) ++ r ∧ join [] a ≠ [] ∧ join [] b ≠ [] ∧
    join [] a ++ join [] b = m

/-- The tokens up to a place of the text, and from its next element on. -/
theorem join_split : ∀ (ts : List (Tok α)) {x s : List α}, join [] ts = x ++ s → s ≠ [] →
    ∃ p c q, ts = p ++ .kept c :: q ∧ join [] p = x ∧ join [] (.kept c :: q) = s
  | [], x, s, h, hs => by
    simp only [join_nil, List.nil_eq, List.append_eq_nil_iff] at h
    exact absurd h.2 hs
  | .cut w :: ts, x, s, h, hs => by
    obtain ⟨p, c, q, rfl, hp, hq⟩ := join_split ts (x := x) (by simpa using h) hs
    exact ⟨.cut w :: p, c, q, rfl, by simpa using hp, hq⟩
  | .kept d :: ts, [], s, h, hs => ⟨[], d, ts, rfl, rfl, h⟩
  | .kept d :: ts, e :: x, s, h, hs => by
    simp only [join_kept, List.cons_append, List.cons.injEq] at h
    obtain ⟨p, c, q, rfl, hp, hq⟩ := join_split ts h.2 hs
    exact ⟨.kept d :: p, c, q, rfl, by rw [join_kept, hp, h.1], hq⟩

theorem join_split_any (ts : List (Tok α)) {x s : List α} (h : join [] ts = x ++ s) :
    ∃ p q, ts = p ++ q ∧ join [] p = x ∧ join [] q = s := by
  by_cases hs : s = []
  · exact ⟨ts, [], by simp, by simpa [hs] using h, by simp [hs]⟩
  · obtain ⟨p, c, q, rfl, hp, hq⟩ := join_split ts h hs
    exact ⟨p, .kept c :: q, rfl, hp, hq⟩

/-- A stretch at the start of a text is a run, or has a cut before its end. -/
theorem run_or_cut : ∀ (q : List (Tok α)) {m y : List α}, join [] q = m ++ y →
    (∃ r, q = run m ++ r ∧ join [] r = y) ∨
      ∃ a w b r, q = a ++ .cut w :: b ++ r ∧ join [] a ++ join [] b = m ∧ join [] b ≠ []
  | q, [], y, h => .inl ⟨q, rfl, h⟩
  | [], c :: m, y, h => by simp at h
  | .cut w :: q, c :: m, y, h => by
    obtain ⟨b, r, rfl, hb, _⟩ := join_split_any q (x := c :: m) (s := y) (by simpa using h)
    exact .inr ⟨[], w, b, r, by simp, by simpa using hb, by simp [hb]⟩
  | .kept d :: q, c :: m, y, h => by
    simp only [join_kept, List.cons_append, List.cons.injEq] at h
    obtain ⟨rfl, h⟩ := h
    rcases run_or_cut q h with ⟨r, rfl, hr⟩ | ⟨a, w, b, r, rfl, hm, hb⟩
    · exact .inl ⟨r, rfl, hr⟩
    · exact .inr ⟨.kept d :: a, w, b, r, by simp, by simp [hm], hb⟩

/-- An occurrence in the rendered text is a run of tokens, or spelled across a
cut. -/
theorem occurrence_cases {ts : List (Tok α)} {x m y : List α} (hm : m ≠ [])
    (h : join [] ts = x ++ m ++ y) :
    (∃ p r, ts = p ++ run m ++ r ∧ join [] p = x) ∨ SpelledAcross m ts := by
  obtain ⟨p, c, q, rfl, hp, hq⟩ := join_split ts (x := x) (s := m ++ y) (by simpa using h)
    (by simp [hm])
  rcases run_or_cut _ hq with ⟨r, hr, _⟩ | ⟨a, w, b, r, hr, hab, hb⟩
  · exact .inl ⟨p, r, by rw [hr, List.append_assoc], hp⟩
  · right
    refine ⟨p, a, w, b, r, by rw [hr]; simp, ?_, hb, hab⟩
    cases a with
    | nil => simp at hr
    | cons t a =>
      simp only [List.cons_append, List.cons.injEq] at hr
      rw [← hr.1]
      simp

/-- A run does not cross a cut. -/
theorem run_append_cut {as bs p r : List (Tok α)} {w s : List α} (hs : s ≠ [])
    (h : as ++ .cut w :: bs = p ++ run s ++ r) :
    (∃ r', as = p ++ run s ++ r') ∨ ∃ p', p = as ++ .cut w :: p' ∧ bs = p' ++ run s ++ r := by
  rw [List.append_assoc] at h
  rcases List.append_eq_append_iff.mp h with ⟨z, rfl, hz⟩ | ⟨z, rfl, hz⟩
  · -- the place starts at or after the end of `as`
    cases z with
    | nil =>
      obtain ⟨c, s, rfl⟩ := List.exists_cons_of_ne_nil hs
      simp at hz
    | cons t z =>
      simp only [List.cons_append, List.cons.injEq] at hz
      exact .inr ⟨z, by rw [hz.1], by rw [hz.2, List.append_assoc]⟩
  · left
    rcases List.append_eq_append_iff.mp hz with ⟨y, hy, _⟩ | ⟨y, hy, hcut⟩
    · exact ⟨y, by rw [hy, List.append_assoc]⟩
    · cases y with
      | nil => exact ⟨[], by rw [hy]; simp⟩
      | cons t y =>
        simp only [List.cons_append, List.cons.injEq] at hcut
        have ht : t ∈ run s := by rw [hy]; simp
        obtain ⟨c, _, hc⟩ := List.mem_map.mp ht
        rw [← hcut.1] at hc
        cases hc

/-- What stands at the place of a run is not spelled across a cut. -/
theorem run_not_across {m : List α} {pre post p a b r : List (Tok α)} {w : List α}
    (h : pre ++ run m ++ post = p ++ (a ++ .cut w :: b) ++ r) (hp : join [] pre = join [] p)
    (ha : join [] a ≠ []) (hb : join [] b ≠ []) : join [] a ++ join [] b ≠ m := by
  intro hab
  have hm : m ≠ [] := by
    rw [← hab]
    simp [ha]
  have hlen := congrArg List.length hab
  have hpos := List.length_pos_iff.mpr ha
  have hpos' := List.length_pos_iff.mpr hb
  have hplace := congrArg List.length hp
  rw [List.length_append] at hlen
  have h' : (p ++ a) ++ .cut w :: (b ++ r) = pre ++ run m ++ post := by
    rw [h]
    simp
  rcases run_append_cut hm h' with ⟨r', hr⟩ | ⟨q, hq, _⟩
  · have := congrArg (fun ts => (join [] ts).length) hr
    simp only [join_append, join_run, List.length_append] at this
    omega
  · have := congrArg (fun ts => (join [] ts).length) hq
    simp only [join_append, join_cut, List.length_append] at this
    omega

end CiteVyn.Lib.Cuts
