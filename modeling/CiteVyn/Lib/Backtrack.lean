import CiteVyn.Lib.Scan
import Mathlib.Data.List.Forall2

/-! # Patterns that backtrack

The pieces of a regular expression, each with the pattern that is to match after it: a
greedy run is given back one element at a time until the rest matches, and of several
alternatives the first counts that the rest matches after. -/
namespace CiteVyn.Lib.Backtrack
open CiteVyn.Lib.Scan

variable {α : Type*}

/-- The empty pattern. -/
def done : Pattern α := fun _ _ => some 0

/-- One element of a class. -/
def one (p : α → Bool) (next : Pattern α) : Pattern α
  | _, [] => none
  | pre, c :: rest => if p c then (next (c :: pre) rest).map (· + 1) else none

/-- `p{lo,hi}`: the longest run first. -/
def run (p : α → Bool) (next : Pattern α) : Nat → Nat → Pattern α
  | lo, hi + 1, pre, c :: rest =>
    if p c then
      match run p next (lo - 1) hi (c :: pre) rest with
      | some n => some (n + 1)
      | none => if lo = 0 then next pre (c :: rest) else none
    else if lo = 0 then next pre (c :: rest) else none
  | lo, _, pre, rest => if lo = 0 then next pre rest else none

/-- `p{lo,}`. -/
def many (p : α → Bool) (lo : Nat) (next : Pattern α) : Pattern α := fun pre rest =>
  run p next lo rest.length pre rest

/-- An assertion about what is before and what is after. -/
def here (a : List α → List α → Bool) (next : Pattern α) : Pattern α := fun pre rest =>
  if a pre rest then next pre rest else none

/-- The first of the alternatives that matches. -/
def either (ps : List (Pattern α)) : Pattern α := fun pre rest => ps.findSome? fun m => m pre rest

/-- A text itself. -/
def word [BEq α] (w : List α) (next : Pattern α) : Pattern α := w.foldr (fun c => one (· == c)) next

/-- One element of each class. -/
def spell (ps : List (α → Bool)) (next : Pattern α) : Pattern α := ps.foldr one next

/-- `(?:p)*`, at most `n` times and as often as it can be. -/
def star (p : Pattern α → Pattern α) (next : Pattern α) : Nat → Pattern α
  | 0 => next
  | n + 1 => either [p (star p next n), next]

/-- A negative lookahead. -/
def notAhead (m : Pattern α) (next : Pattern α) : Pattern α := here (fun pre rest => (m pre rest).isNone) next

/-- `(?:^|[^p])`: a negative lookbehind for want of one. -/
def notAfter (p : α → Bool) (next : Pattern α) : Pattern α :=
  either [here (fun pre _ => pre.isEmpty) next, one (fun c => !p c) next]

/-! ## What a pattern matches -/

/-- The text has one element of each class. -/
def spelled : List (α → Bool) → List α → Bool
  | [], [] => true
  | p :: ps, c :: w => p c && spelled ps w
  | _, _ => false

theorem spelled_map_iff {β : Type*} {f : β → α → Bool} {bs : List β} {w : List α} :
    spelled (bs.map f) w = true ↔ List.Forall₂ (fun b c => f b c = true) bs w := by
  induction bs generalizing w with
  | nil => cases w <;> simp [spelled]
  | cons b bs ih =>
    cases w with
    | nil => simp [spelled]
    | cons c w =>
      rw [List.map_cons, spelled, Bool.and_eq_true, ih, List.forall₂_cons]

theorem isSome_done (pre rest : List α) : (done pre rest).isSome = true := rfl

theorem isSome_one {p : α → Bool} {next : Pattern α} {pre rest : List α} :
    (one p next pre rest).isSome = true ↔ ∃ c s, rest = c :: s ∧ p c = true ∧ (next (c :: pre) s).isSome = true := by
  cases rest with
  | nil => simp [one]
  | cons c s =>
    simp only [one]
    by_cases hc : p c = true
    · rw [if_pos hc, Option.isSome_map]
      constructor
      · intro h
        exact ⟨c, s, rfl, hc, h⟩
      · rintro ⟨_, _, heq, _, h⟩
        cases heq
        exact h
    · rw [if_neg hc]
      constructor
      · intro h
        cases h
      · rintro ⟨_, _, heq, h, _⟩
        cases heq
        exact absurd h hc

theorem isSome_here {a : List α → List α → Bool} {next : Pattern α} {pre rest : List α} :
    (here a next pre rest).isSome = true ↔ a pre rest = true ∧ (next pre rest).isSome = true := by
  unfold here
  by_cases h : a pre rest = true
  · rw [if_pos h, and_iff_right h]
  · rw [if_neg h, iff_false_right fun hand => h hand.1]
    exact Bool.false_ne_true

theorem here_eq_some {a : List α → List α → Bool} {next : Pattern α} {pre rest : List α} {n : Nat} :
    here a next pre rest = some n ↔ a pre rest = true ∧ next pre rest = some n := by
  unfold here
  by_cases h : a pre rest = true
  · rw [if_pos h, and_iff_right h]
  · rw [if_neg h]
    exact iff_of_false nofun fun hand => h hand.1

theorem isSome_notAhead {m next : Pattern α} {pre rest : List α} :
    (notAhead m next pre rest).isSome = true ↔ (m pre rest).isSome = false ∧ (next pre rest).isSome = true := by
  rw [notAhead, isSome_here, Option.isNone_iff_eq_none, Option.isSome_eq_false_iff, Option.isNone_iff_eq_none]

theorem isSome_either {ps : List (Pattern α)} {pre rest : List α} :
    (either ps pre rest).isSome = true ↔ ∃ m ∈ ps, (m pre rest).isSome = true := by
  unfold either
  rw [List.findSome?_isSome_iff]

theorem run_sound {p : α → Bool} {next : Pattern α} {lo hi n : Nat} {pre rest : List α}
    (h : run p next lo hi pre rest = some n) :
    ∃ w s k, rest = w ++ s ∧ (lo ≤ w.length ∧ w.all p = true) ∧ next (w.reverse ++ pre) s = some k ∧
      n = w.length + k := by
  have hstop {lo n : Nat} {pre rest : List α} (h : (if lo = 0 then next pre rest else none) = some n) :
      ∃ w s k, rest = w ++ s ∧ (lo ≤ w.length ∧ w.all p = true) ∧ next (w.reverse ++ pre) s = some k ∧
        n = w.length + k := by
    split at h
    · rename_i hlo
      exact ⟨[], rest, n, rfl, ⟨Nat.le_of_eq hlo, rfl⟩, h, (Nat.zero_add n).symm⟩
    · cases h
  induction hi generalizing lo n pre rest with
  | zero => exact hstop (by simpa [run] using h)
  | succ hi ih =>
    cases rest with
    | nil => exact hstop (by simpa [run] using h)
    | cons c rest =>
      rw [run] at h
      split at h
      · rename_i hc
        split at h
        · rename_i m hm
          obtain rfl := Option.some.inj h
          obtain ⟨w, s, k, rfl, ⟨hlo, hw⟩, hk, rfl⟩ := ih hm
          refine ⟨c :: w, s, k, rfl, ⟨?_, by rw [List.all_cons, hc, hw]; rfl⟩, by simpa using hk, ?_⟩
          · rw [List.length_cons]
            omega
          · rw [List.length_cons]
            omega
        · exact hstop h
      · exact hstop h

theorem run_complete {p : α → Bool} {next : Pattern α} {lo hi : Nat} {pre w s : List α} (hlo : lo ≤ w.length)
    (hhi : (w ++ s).length ≤ hi) (hw : w.all p = true) (h : (next (w.reverse ++ pre) s).isSome = true) :
    (run p next lo hi pre (w ++ s)).isSome = true := by
  induction w generalizing lo hi pre with
  | nil =>
    obtain rfl := Nat.le_zero.mp hlo
    rw [List.nil_append] at hhi ⊢
    unfold run
    split
    · split
      · split
        · rfl
        · exact h
      · exact h
    · exact h
  | cons c w ih =>
    obtain ⟨hc, hw⟩ := Bool.and_eq_true_iff.mp hw
    rw [List.cons_append, List.length_cons] at hhi
    obtain ⟨hi, rfl⟩ : ∃ k, hi = k + 1 := ⟨hi - 1, by omega⟩
    rw [List.length_cons] at hlo
    have hsome := @ih (lo - 1) hi (c :: pre) (by omega) (by omega) hw (by simpa using h)
    obtain ⟨n, hn⟩ := Option.isSome_iff_exists.mp hsome
    rw [List.cons_append, run, if_pos hc, hn]
    rfl

/-! ## What a piece of a pattern takes -/

/-- The piece `f` takes a text of `L`, and the rest of the pattern matches after it. -/
structure Accepts (f : Pattern α → Pattern α) (L : List α → Prop) : Prop where
  sound : ∀ next pre rest n, f next pre rest = some n →
    ∃ w s k, rest = w ++ s ∧ L w ∧ next (w.reverse ++ pre) s = some k ∧ n = w.length + k
  complete : ∀ next pre w s, L w → (next (w.reverse ++ pre) s).isSome = true → (f next pre (w ++ s)).isSome = true

theorem Accepts.congr {f : Pattern α → Pattern α} {L M : List α → Prop} (h : Accepts f L) (hLM : ∀ w, L w ↔ M w) :
    Accepts f M := by
  obtain rfl : L = M := funext fun w => propext (hLM w)
  exact h

theorem Accepts.one (p : α → Bool) : Accepts (one p) (fun w => ∃ c, w = [c] ∧ p c = true) := by
  constructor
  · intro next pre rest n h
    cases rest with
    | nil => cases h
    | cons c s =>
      simp only [Backtrack.one] at h
      split at h
      · rename_i hc
        obtain ⟨k, hk, rfl⟩ := Option.map_eq_some_iff.mp h
        exact ⟨[c], s, k, rfl, ⟨c, rfl, hc⟩, hk, Nat.add_comm k 1⟩
      · cases h
  · intro next pre w s hw h
    obtain ⟨c, rfl, hc⟩ := hw
    exact isSome_one.mpr ⟨c, s, rfl, hc, h⟩

theorem Accepts.many (p : α → Bool) (lo : Nat) :
    Accepts (many p lo) (fun w => lo ≤ w.length ∧ w.all p = true) where
  sound _ _ _ _ h := run_sound h
  complete _ _ _ _ hw h := run_complete hw.1 (Nat.le_refl _) hw.2 h

theorem Accepts.comp {f g : Pattern α → Pattern α} {L M : List α → Prop} (hf : Accepts f L) (hg : Accepts g M) :
    Accepts (fun next => f (g next)) (fun w => ∃ a b, w = a ++ b ∧ L a ∧ M b) := by
  constructor
  · intro next pre rest n h
    obtain ⟨a, t, i, rfl, ha, hi, rfl⟩ := hf.sound _ _ _ _ h
    obtain ⟨b, s, k, rfl, hb, hk, rfl⟩ := hg.sound _ _ _ _ hi
    refine ⟨a ++ b, s, k, (List.append_assoc a b s).symm, ⟨a, b, rfl, ha, hb⟩, ?_, ?_⟩
    · rw [List.reverse_append, List.append_assoc, hk]
    · rw [List.length_append, Nat.add_assoc]
  · intro next pre w s hw h
    obtain ⟨a, b, rfl, ha, hb⟩ := hw
    rw [List.reverse_append, List.append_assoc] at h
    rw [List.append_assoc]
    exact hf.complete _ _ _ _ ha (hg.complete _ _ _ _ hb h)

theorem Accepts.spell (ps : List (α → Bool)) : Accepts (spell ps) (fun w => spelled ps w = true) := by
  induction ps with
  | nil =>
    constructor
    · intro next pre rest n h
      exact ⟨[], rest, n, rfl, rfl, h, (Nat.zero_add n).symm⟩
    · intro next pre w s hw h
      cases w with
      | nil => exact h
      | cons c w => cases hw
  | cons p ps ih =>
    refine ((Accepts.one p).comp ih).congr fun w => ?_
    constructor
    · intro h
      obtain ⟨a, b, rfl, ⟨c, rfl, hc⟩, hb⟩ := h
      exact Bool.and_eq_true_iff.mpr ⟨hc, hb⟩
    · intro h
      cases w with
      | nil => cases h
      | cons c w =>
        obtain ⟨hc, hw⟩ := Bool.and_eq_true_iff.mp h
        exact ⟨[c], w, rfl, ⟨c, rfl, hc⟩, hw⟩

theorem Accepts.either {β : Type*} {bs : List β} {f : β → Pattern α → Pattern α} {L : β → List α → Prop}
    (h : ∀ b ∈ bs, Accepts (f b) (L b)) :
    Accepts (fun next => either (bs.map fun b => f b next)) (fun w => ∃ b ∈ bs, L b w) := by
  constructor
  · intro next pre rest n hn
    obtain ⟨m, hm, hn⟩ := List.exists_of_findSome?_eq_some hn
    obtain ⟨b, hb, rfl⟩ := List.mem_map.mp hm
    obtain ⟨w, s, k, hrest, hw, hk⟩ := (h b hb).sound _ _ _ _ hn
    exact ⟨w, s, k, hrest, ⟨b, hb, hw⟩, hk⟩
  · intro next pre w s hw hnext
    obtain ⟨b, hb, hw⟩ := hw
    exact isSome_either.mpr ⟨_, List.mem_map_of_mem hb, (h b hb).complete _ _ _ _ hw hnext⟩

/-- A piece that may be left out. -/
theorem Accepts.optional {f : Pattern α → Pattern α} {L : List α → Prop} (h : Accepts f L) :
    Accepts (fun next => Backtrack.either [f next, next]) (fun w => L w ∨ w = []) := by
  constructor
  · intro next pre rest n hn
    obtain ⟨m, hm, hmatch⟩ := List.exists_of_findSome?_eq_some hn
    rcases List.mem_pair.mp hm with rfl | rfl
    · obtain ⟨w, s, k, hrest, hw, hk⟩ := h.sound _ _ _ _ hmatch
      exact ⟨w, s, k, hrest, .inl hw, hk⟩
    · exact ⟨[], rest, n, rfl, .inr rfl, hmatch, (Nat.zero_add n).symm⟩
  · intro next pre w s hw hnext
    rcases hw with hw | rfl
    · exact isSome_either.mpr ⟨_, List.mem_pair.mpr (.inl rfl), h.complete _ _ _ _ hw hnext⟩
    · exact isSome_either.mpr ⟨_, List.mem_pair.mpr (.inr rfl), hnext⟩

theorem Accepts.isSome_iff {f : Pattern α → Pattern α} {L : List α → Prop} (h : Accepts f L) {next : Pattern α}
    {pre rest : List α} :
    (f next pre rest).isSome = true ↔ ∃ w s, rest = w ++ s ∧ L w ∧ (next (w.reverse ++ pre) s).isSome = true := by
  constructor
  · intro hsome
    obtain ⟨n, hn⟩ := Option.isSome_iff_exists.mp hsome
    obtain ⟨w, s, k, hrest, hw, hk, _⟩ := h.sound _ _ _ _ hn
    exact ⟨w, s, hrest, hw, by rw [hk]; rfl⟩
  · intro hsome
    obtain ⟨w, s, rfl, hw, hnext⟩ := hsome
    exact h.complete _ _ _ _ hw hnext

theorem isSome_spell {ps : List (α → Bool)} {next : Pattern α} {pre rest : List α} :
    (spell ps next pre rest).isSome = true ↔
      ∃ w s, rest = w ++ s ∧ spelled ps w = true ∧ (next (w.reverse ++ pre) s).isSome = true :=
  (Accepts.spell ps).isSome_iff

theorem isSome_many {p : α → Bool} {next : Pattern α} {pre rest : List α} :
    (many p 0 next pre rest).isSome = true ↔
      ∃ w s, rest = w ++ s ∧ w.all p = true ∧ (next (w.reverse ++ pre) s).isSome = true := by
  simpa only [Nat.zero_le, true_and] using (Accepts.many p 0).isSome_iff

/-- A run of one class up to an element of a smaller one. -/
theorem isSome_many_one {p q : α → Bool} (hqp : ∀ c, q c = true → p c = true) {pre rest : List α} :
    (many p 0 (one q done) pre rest).isSome = (rest.takeWhile p).any q := by
  rw [Bool.eq_iff_iff, isSome_many]
  constructor
  · rintro ⟨w, s, rfl, hw, h⟩
    obtain ⟨c, t, rfl, hc, _⟩ := isSome_one.mp h
    rw [List.takeWhile_append_of_pos (List.all_eq_true.mp hw), List.takeWhile_cons_of_pos (hqp c hc), List.any_append,
      List.any_cons, hc, Bool.true_or, Bool.or_true]
  · intro h
    obtain ⟨c, hmem, hc⟩ := List.any_eq_true.mp h
    obtain ⟨a, b, hab⟩ := List.append_of_mem hmem
    have hall : ∀ d ∈ a, p d = true := fun d hd =>
      List.all_eq_true.mp List.all_takeWhile d (hab ▸ List.mem_append_left _ hd)
    refine ⟨a, c :: (b ++ rest.dropWhile p), ?_, List.all_eq_true.mpr hall, isSome_one.mpr ⟨c, _, rfl, hc, rfl⟩⟩
    rw [← List.cons_append, ← List.append_assoc, ← hab, List.takeWhile_append_dropWhile]

/-! ## Searching -/

/-- A match is never empty. -/
structure Consumes (m : Pattern α) : Prop where
  at_end : ∀ pre, m pre [] = none
  ne_zero : ∀ pre rest, m pre rest ≠ some 0

theorem Consumes.one (p : α → Bool) (next : Pattern α) : Consumes (one p next) := by
  refine ⟨fun _ => rfl, fun pre rest h => ?_⟩
  cases rest with
  | nil => cases h
  | cons c s =>
    simp only [Backtrack.one] at h
    split at h
    · obtain ⟨n, _, hn⟩ := Option.map_eq_some_iff.mp h
      cases hn
    · cases h

theorem Consumes.spell {ps : List (α → Bool)} (h : ps ≠ []) (next : Pattern α) : Consumes (spell ps next) := by
  cases ps with
  | nil => exact absurd rfl h
  | cons p ps => exact .one p (Backtrack.spell ps next)

theorem Consumes.here {m : Pattern α} (h : Consumes m) (a : List α → List α → Bool) : Consumes (here a m) := by
  constructor
  · intro pre
    unfold Backtrack.here
    rw [h.at_end, ite_self]
  · intro pre rest heq
    unfold Backtrack.here at heq
    split at heq
    · exact h.ne_zero pre rest heq
    · cases heq

theorem Consumes.either {ps : List (Pattern α)} (h : ∀ m ∈ ps, Consumes m) : Consumes (either ps) := by
  constructor
  · intro pre
    exact List.findSome?_eq_none_iff.mpr fun m hm => (h m hm).at_end pre
  · intro pre rest heq
    obtain ⟨m, hm, hzero⟩ := List.exists_of_findSome?_eq_some heq
    exact (h m hm).ne_zero pre rest hzero

/-- A search finds what the pattern matches at some place. -/
theorem search_iff {m : Pattern α} (hm : Consumes m) (s : List α) :
    search m s = true ↔ ∃ pre post, s = pre.reverse ++ post ∧ (m pre post).isSome = true := by
  unfold search findall pieces
  rw [Bool.not_eq_true', List.isEmpty_eq_false_iff]
  constructor
  · intro hfound
    by_contra hnone
    push Not at hnone
    refine hfound (hits_piecesFrom_nil s [] fun p t hs _ => ?_)
    have := hnone p.reverse t (by rw [List.reverse_reverse, hs])
    rw [List.append_nil]
    exact Option.not_isSome_iff_eq_none.mp this
  · rintro ⟨pre, post, hs, hmatch⟩ hnil
    obtain ⟨n, hn⟩ := Option.isSome_iff_exists.mp hmatch
    have hpost : post ≠ [] := by
      rintro rfl
      rw [hm.at_end] at hn
      cases hn
    cases n with
    | zero => exact hm.ne_zero pre post hn
    | succ n =>
      refine no_match_of_hits_nil s [] hnil pre.reverse post hs hpost n ?_
      rw [List.reverse_reverse, List.append_nil, hn]

theorem search_either {ps : List (Pattern α)} (h : ∀ m ∈ ps, Consumes m) (s : List α) :
    search (either ps) s = true ↔ ∃ m ∈ ps, search m s = true := by
  rw [search_iff (.either h)]
  constructor
  · rintro ⟨pre, post, hs, hmatch⟩
    obtain ⟨m, hm, hmatch⟩ := isSome_either.mp hmatch
    exact ⟨m, hm, (search_iff (h m hm) s).mpr ⟨pre, post, hs, hmatch⟩⟩
  · rintro ⟨m, hm, hsearch⟩
    obtain ⟨pre, post, hs, hmatch⟩ := (search_iff (h m hm) s).mp hsearch
    exact ⟨pre, post, hs, isSome_either.mpr ⟨m, hm, hmatch⟩⟩

theorem Consumes.notAfter {p : α → Bool} {next : Pattern α} (h : Consumes next) : Consumes (notAfter p next) := by
  refine .either fun m hm => ?_
  rcases List.mem_pair.mp hm with rfl | rfl
  · exact h.here _
  · exact .one _ _

/-- For a search, the element consumed in front of a match stands for a lookbehind. -/
theorem search_notAfter {p : α → Bool} {next : Pattern α} (hnext : Consumes next) (s : List α) :
    search (notAfter p next) s = true ↔
      ∃ pre post, s = pre.reverse ++ post ∧ pre.head?.any p = false ∧ (next pre post).isSome = true := by
  rw [search_iff hnext.notAfter]
  constructor
  · rintro ⟨pre, post, rfl, hmatch⟩
    obtain ⟨m, hm, hmatch⟩ := isSome_either.mp hmatch
    rcases List.mem_pair.mp hm with rfl | rfl
    · obtain ⟨hpre, hmatch⟩ := isSome_here.mp hmatch
      rw [List.isEmpty_iff] at hpre
      subst hpre
      exact ⟨[], post, rfl, rfl, hmatch⟩
    · obtain ⟨c, t, rfl, hc, hmatch⟩ := isSome_one.mp hmatch
      exact ⟨c :: pre, t, by simp, by simpa using hc, hmatch⟩
  · rintro ⟨pre, post, rfl, hpre, hmatch⟩
    cases pre with
    | nil => exact ⟨[], post, rfl, isSome_either.mpr ⟨_, List.mem_cons_self, isSome_here.mpr ⟨rfl, hmatch⟩⟩⟩
    | cons c pre =>
      refine ⟨pre, c :: post, by simp, isSome_either.mpr ⟨_, List.mem_cons_of_mem _ List.mem_cons_self, ?_⟩⟩
      exact isSome_one.mpr ⟨c, post, rfl, by simpa using hpre, hmatch⟩

/-! ## What a match is -/

/-- Whatever the pattern matches is a text of `L`. -/
def Within (m : Pattern α) (L : List α → Prop) : Prop := ∀ pre rest n, m pre rest = some n → L (rest.take n)

/-- No match has the element. -/
def Avoids (c : α) (m : Pattern α) : Prop := Within m (c ∉ ·)

variable {L M : List α → Prop} {m next : Pattern α} {p : α → Bool} {c : α}

theorem within_any (m : Pattern α) : Within m fun _ => True := fun _ _ _ _ => trivial

theorem Within.imp (h : Within m L) (hLM : ∀ w, L w → M w) : Within m M := fun pre rest n hn => hLM _ (h pre rest n hn)

theorem Within.and (h : Within m L) (h' : Within m M) : Within m fun w => L w ∧ M w := fun pre rest n hn =>
  ⟨h pre rest n hn, h' pre rest n hn⟩

theorem within_done : Within (α := α) done (· = []) := by
  intro pre rest n hn
  obtain rfl := Option.some.inj hn
  rfl

theorem Within.one (h : Within next L) : Within (one p next) fun w => ∃ d v, w = d :: v ∧ p d = true ∧ L v := by
  intro pre rest n hn
  obtain ⟨w, s, k, rfl, ⟨d, rfl, hd⟩, hk, rfl⟩ := (Accepts.one p).sound _ _ _ _ hn
  refine ⟨d, s.take k, ?_, hd, h _ _ _ hk⟩
  rw [List.take_length_add_append]
  rfl

theorem Within.run (h : Within next L) (lo hi : Nat) :
    Within (run p next lo hi) fun w => ∃ a b, w = a ++ b ∧ a.all p = true ∧ L b := by
  intro pre rest n hn
  obtain ⟨w, s, k, rfl, ⟨-, hw⟩, hk, rfl⟩ := run_sound hn
  exact ⟨w, s.take k, List.take_length_add_append _, hw, h _ _ _ hk⟩

theorem Within.many (h : Within next L) (lo : Nat) :
    Within (many p lo next) fun w => ∃ a b, w = a ++ b ∧ a.all p = true ∧ L b := fun pre rest n hn =>
  h.run lo rest.length pre rest n hn

theorem Within.here (h : Within m L) (a : List α → List α → Bool) : Within (here a m) L := fun pre rest n hn =>
  h pre rest n (here_eq_some.mp hn).2

theorem Within.either {ps : List (Pattern α)} (h : ∀ m ∈ ps, Within m L) : Within (either ps) L := by
  intro pre rest n hn
  obtain ⟨m, hm, hmatch⟩ := List.exists_of_findSome?_eq_some hn
  exact h m hm pre rest n hmatch

theorem Within.word [BEq α] [LawfulBEq α] (h : Within next L) (w : List α) :
    Within (word w next) fun t => ∃ v, t = w ++ v ∧ L v := by
  induction w with
  | nil => exact h.imp fun v hv => ⟨v, rfl, hv⟩
  | cons d w ih =>
    refine (Within.one (p := (· == d)) ih).imp fun t ht => ?_
    obtain ⟨e, _, rfl, he, v, rfl, hv⟩ := ht
    exact ⟨v, by rw [eq_of_beq he]; rfl, hv⟩

/-- What is found is a text of `L`. -/
theorem Within.findall (h : Within m L) {s w : List α} (hw : w ∈ findall m s) : L w := by
  obtain ⟨pre, t, n, hn, -, rfl, -⟩ := exists_of_mem_hits s [] 0 hw
  exact h pre t (n + 1) hn

theorem avoids_done (c : α) : Avoids c done := within_done.imp fun w hw => by rw [hw]; exact List.not_mem_nil

theorem Avoids.one (h : Avoids c next) (hc : p c = false) : Avoids c (one p next) := by
  refine (Within.one h).imp fun w hw => ?_
  obtain ⟨d, v, rfl, hd, hv⟩ := hw
  intro hmem
  rcases List.mem_cons.mp hmem with rfl | hmem
  · exact Bool.false_ne_true (hc.symm.trans hd)
  · exact hv hmem

theorem Avoids.run (h : Avoids c next) (hc : p c = false) (lo hi : Nat) : Avoids c (run p next lo hi) := by
  refine (Within.run h lo hi).imp fun w hw => ?_
  obtain ⟨a, b, rfl, ha, hb⟩ := hw
  intro hmem
  rcases List.mem_append.mp hmem with hmem | hmem
  · exact Bool.false_ne_true (hc.symm.trans (List.all_eq_true.mp ha c hmem))
  · exact hb hmem

theorem Avoids.many (h : Avoids c next) (hc : p c = false) (lo : Nat) : Avoids c (many p lo next) :=
  fun pre rest n hn => h.run hc lo rest.length pre rest n hn

theorem Avoids.word [BEq α] [LawfulBEq α] (h : Avoids c next) {w : List α} (hc : c ∉ w) : Avoids c (word w next) := by
  refine (Within.word h w).imp fun t ht => ?_
  obtain ⟨v, rfl, hv⟩ := ht
  exact fun hmem => (List.mem_append.mp hmem).elim hc hv

end CiteVyn.Lib.Backtrack
