import Mathlib.Data.List.Forall2
import Mathlib.Tactic.Common

/-! # Phrases in a text

Words with separators between, where each letter can be written in several ways. Phrases that
stand in one text with no longer word at their ends and share a part of it share a word: one of
them is read on from a word of the other. A phrase across a place where no word goes on is two
phrases, one before the place and one after it. -/
namespace CiteVyn.Lib.Phrases

variable {κ α : Type*}

/-- How a text is read: what writes a letter, what belongs to a word, and what separates words. -/
structure Script (κ α : Type*) where
  writes : κ → α → Bool
  isWord : α → Bool
  isSeparator : α → Bool
  unique : ∀ k k' c, writes k c = true → writes k' c = true → k = k'
  word : ∀ k c, writes k c = true → isWord c = true
  separator : ∀ k c, writes k c = true → isSeparator c = false

/-! ## A part of a text and a place in it -/

/-- A part of a text ends before a place, starts after it, or has it inside. -/
theorem part_cases {pre t post a b : List α} {m : α} (h : pre.reverse ++ (t ++ post) = a ++ m :: b) :
    (∃ s, a = pre.reverse ++ (t ++ s) ∧ post = s ++ m :: b) ∨
      (∃ s, b = s.reverse ++ (t ++ post) ∧ pre = s ++ m :: a.reverse) ∨
        ∃ x y, t = x ++ m :: y ∧ a = pre.reverse ++ x ∧ b = y ++ post := by
  rcases List.append_eq_append_iff.mp h with ⟨x, rfl, hx⟩ | ⟨x, hx, hb⟩
  · rcases List.append_eq_append_iff.mp hx with ⟨s, rfl, hs⟩ | ⟨y, rfl, hy⟩
    · exact .inl ⟨s, rfl, hs⟩
    · cases y with
      | nil => exact .inl ⟨[], by simp, hy.symm⟩
      | cons c y =>
        obtain ⟨rfl, rfl⟩ := List.cons.inj hy
        exact .inr (.inr ⟨x, y, rfl, rfl, rfl⟩)
  · cases x with
    | nil =>
      rw [List.append_nil] at hx
      rw [List.nil_append] at hb
      cases t with
      | nil => exact .inl ⟨[], by simp [hx], hb.symm⟩
      | cons c t =>
        obtain ⟨rfl, rfl⟩ := List.cons.inj hb
        exact .inr (.inr ⟨[], t, rfl, by simp [hx], rfl⟩)
    | cons c x =>
      obtain ⟨rfl, rfl⟩ := List.cons.inj hb
      refine .inr (.inl ⟨x.reverse, by simp, ?_⟩)
      rw [← List.reverse_reverse pre, hx]
      simp

namespace Script
variable (S : Script κ α)

def Writes (w : List κ) (t : List α) : Prop := List.Forall₂ (fun k c => S.writes k c = true) w t

def Separates (t : List α) : Prop := ∀ c ∈ t, S.isSeparator c = true

/-- The text is these words, with separators between. -/
inductive Phrase : List (List κ) → List α → Prop
  | word {w : List κ} {t : List α} : w ≠ [] → S.Writes w t → Phrase [w] t
  | more {w : List κ} {ws : List (List κ)} {a sep t : List α} : w ≠ [] → S.Writes w a → sep ≠ [] → S.Separates sep →
      Phrase ws t → Phrase (w :: ws) (a ++ (sep ++ t))

/-- No word goes on at the start of the text. -/
def Ends (t : List α) : Prop := t.head?.any S.isWord = false

/-- A phrase with no longer word at its ends. What is before it comes nearest first. -/
structure Stands (ws : List (List κ)) (pre t post : List α) : Prop where
  phrase : S.Phrase ws t
  before : S.Ends pre
  after : S.Ends post

variable {S}

/-! ## Words -/

theorem Writes.cons {w : List κ} {t : List α} (h : S.Writes w t) (hw : w ≠ []) :
    ∃ k c s, t = c :: s ∧ S.writes k c = true := by
  cases h with
  | nil => exact absurd rfl hw
  | cons hc _ => exact ⟨_, _, _, rfl, hc⟩

theorem Writes.mem {w : List κ} {t : List α} (h : S.Writes w t) {c : α} (hc : c ∈ t) : ∃ k, S.writes k c = true := by
  induction h with
  | nil => cases hc
  | cons hk _ ih =>
    rcases List.mem_cons.mp hc with rfl | hc
    · exact ⟨_, hk⟩
    · exact ih hc

theorem Writes.ne_nil {w : List κ} {t : List α} (h : S.Writes w t) (hw : w ≠ []) : t ≠ [] := by
  obtain ⟨_, c, s, rfl, _⟩ := h.cons hw
  exact List.cons_ne_nil c s

theorem Writes.unique {w v : List κ} {t : List α} (h : S.Writes w t) (h' : S.Writes v t) : w = v := by
  have hunique : Relator.LeftUnique fun k c => S.writes k c = true := fun _ _ _ hk hk' => S.unique _ _ _ hk hk'
  exact List.left_unique_forall₂' hunique h h'

/-- No letter is written at the start of the text. -/
def Stops (S : Script κ α) (t : List α) : Prop := ∀ k c s, t = c :: s → S.writes k c = false

theorem Ends.stops {t : List α} (h : S.Ends t) : S.Stops t := by
  intro k c s ht
  subst ht
  by_contra hk
  have hword := S.word k c (by simpa using hk)
  rw [Ends, List.head?_cons, Option.any_some, hword] at h
  cases h

theorem Separates.stops {sep t : List α} (h : S.Separates sep) (hsep : sep ≠ []) : S.Stops (sep ++ t) := by
  intro k c s ht
  cases sep with
  | nil => exact absurd rfl hsep
  | cons d sep =>
    obtain ⟨rfl, _⟩ := List.cons.inj ht
    by_contra hk
    have := S.separator k d (by simpa using hk)
    rw [h d List.mem_cons_self] at this
    cases this

/-- A word is read up to where no letter follows. -/
theorem Writes.aligned {w v : List κ} {a b r r' : List α} (ha : S.Writes w a) (hb : S.Writes v b)
    (h : a ++ r = b ++ r') (hr : S.Stops r) (hr' : S.Stops r') : w = v ∧ a = b ∧ r = r' := by
  have hend {v : List κ} {x y s : List α} (hv : S.Writes v (x ++ y)) (hstop : S.Stops (y ++ s)) : y = [] := by
    cases y with
    | nil => rfl
    | cons c y =>
      obtain ⟨k, hk⟩ := hv.mem (c := c) (by simp)
      rw [hstop k c (y ++ s) rfl] at hk
      cases hk
  rcases List.append_eq_append_iff.mp h with ⟨x, rfl, rfl⟩ | ⟨x, rfl, rfl⟩
  · obtain rfl := hend hb hr
    rw [List.append_nil] at hb
    exact ⟨ha.unique hb, (List.append_nil a).symm, rfl⟩
  · obtain rfl := hend ha hr'
    rw [List.append_nil] at ha
    exact ⟨ha.unique hb, List.append_nil b, rfl⟩

/-! ## Phrases -/

theorem Phrase.cons {ws : List (List κ)} {t : List α} (h : S.Phrase ws t) :
    ∃ k c s, t = c :: s ∧ S.writes k c = true := by
  cases h with
  | word hw h => exact h.cons hw
  | more hw ha _ _ _ =>
    obtain ⟨k, c, s, rfl, hk⟩ := ha.cons hw
    exact ⟨k, c, _, rfl, hk⟩

theorem Phrase.concat {ws : List (List κ)} {t : List α} (h : S.Phrase ws t) :
    ∃ k c s, t = s ++ [c] ∧ S.writes k c = true := by
  induction h with
  | @word w t hw h =>
    obtain ⟨s, c, rfl⟩ := (List.eq_nil_or_concat t).resolve_left (h.ne_nil hw)
    obtain ⟨k, hk⟩ := h.mem (c := c) (by simp)
    exact ⟨k, c, s, List.concat_eq_append, hk⟩
  | @more w ws a sep t hw ha hsep hs h ih =>
    obtain ⟨k, c, s, rfl, hk⟩ := ih
    exact ⟨k, c, a ++ (sep ++ s), by simp, hk⟩

theorem Phrase.ne_nil {ws : List (List κ)} {t : List α} (h : S.Phrase ws t) : t ≠ [] := by
  obtain ⟨_, c, s, rfl, _⟩ := h.cons
  exact List.cons_ne_nil c s

theorem Phrase.words_ne_nil {ws : List (List κ)} {t : List α} (h : S.Phrase ws t) : ws ≠ [] := by
  cases h with
  | word _ _ => exact List.cons_ne_nil _ _
  | more _ _ _ _ _ => exact List.cons_ne_nil _ _

theorem Phrase.append {us vs : List (List κ)} {a sep b : List α} (ha : S.Phrase us a) (hsep : sep ≠ [])
    (hs : S.Separates sep) (hb : S.Phrase vs b) : S.Phrase (us ++ vs) (a ++ (sep ++ b)) := by
  induction ha with
  | word hw h => exact .more hw h hsep hs hb
  | more hw h hsep' hs' _ ih =>
    have := Phrase.more hw h hsep' hs' ih
    simpa using this

/-- A run of separators is read up to the letter after it. -/
theorem Separates.aligned {s s' t t' : List α} (hs : S.Separates s) (hs' : S.Separates s')
    (ht : ∃ k c r, t = c :: r ∧ S.writes k c = true) (ht' : ∃ k c r, t' = c :: r ∧ S.writes k c = true)
    (h : s ++ t = s' ++ t') : s = s' ∧ t = t' := by
  have hend {x y t t' : List α} (hx : S.Separates (x ++ y)) (ht : ∃ k c r, t = c :: r ∧ S.writes k c = true)
      (h : t = y ++ t') : y = [] := by
    cases y with
    | nil => rfl
    | cons c y =>
      obtain ⟨k, d, r, rfl, hk⟩ := ht
      obtain ⟨rfl, _⟩ := List.cons.inj h
      have := S.separator k d hk
      rw [hx d (by simp)] at this
      cases this
  rcases List.append_eq_append_iff.mp h with ⟨x, rfl, hx⟩ | ⟨x, rfl, hx⟩
  · obtain rfl := hend hs' ht hx
    exact ⟨(List.append_nil s).symm, hx⟩
  · obtain rfl := hend hs ht' hx
    exact ⟨List.append_nil s', hx.symm⟩

/-- Of two phrases read from one place, one goes on where the other ends. -/
theorem Phrase.aligned {ps qs : List (List κ)} {x y r r' : List α} (hp : S.Phrase ps x) (hq : S.Phrase qs y)
    (h : x ++ r = y ++ r') (hr : S.Ends r) (hr' : S.Ends r') : ps <+: qs ∨ qs <+: ps := by
  induction hp generalizing qs y with
  | word hw ha =>
    cases hq with
    | word hv hb =>
      obtain ⟨rfl, _, _⟩ := ha.aligned hb h hr.stops hr'.stops
      exact .inl List.prefix_rfl
    | more hv hb hsep hs hq =>
      rw [List.append_assoc, List.append_assoc] at h
      obtain ⟨rfl, _, _⟩ := ha.aligned hb h hr.stops (hs.stops hsep)
      exact .inl (List.prefix_append [_] _)
  | more hw ha hsep hs hp ih =>
    rw [List.append_assoc, List.append_assoc] at h
    cases hq with
    | word hv hb =>
      obtain ⟨rfl, _, _⟩ := ha.aligned hb h (hs.stops hsep) hr'.stops
      exact .inr (List.prefix_append [_] _)
    | more hv hb hsep' hs' hq =>
      rw [List.append_assoc, List.append_assoc] at h
      obtain ⟨rfl, _, h⟩ := ha.aligned hb h (hs.stops hsep) (hs'.stops hsep')
      have hletter {ws : List (List κ)} {t r : List α} (h : S.Phrase ws t) :
          ∃ k c s, t ++ r = c :: s ∧ S.writes k c = true := by
        obtain ⟨k, c, s, rfl, hk⟩ := h.cons
        exact ⟨k, c, s ++ r, rfl, hk⟩
      obtain ⟨_, h⟩ := hs.aligned hs' (hletter hp) (hletter hq) h
      rcases ih hq h with h | h
      · exact .inl (List.cons_prefix_cons.mpr ⟨rfl, h⟩)
      · exact .inr (List.cons_prefix_cons.mpr ⟨rfl, h⟩)

theorem Ends.no_letter {x : List α} {c : α} {k : κ} (h : S.Ends (x ++ [c]).reverse) (hk : S.writes k c = true) :
    False := by
  rw [Ends, List.reverse_append, List.reverse_singleton, List.singleton_append, List.head?_cons, Option.any_some,
    S.word k c hk] at h
  cases h

/-- **Phrases that overlap share a word**: the later one is read on from a word of the earlier
one, its first word only if they start together. -/
theorem Phrase.overlap {ps qs : List (List κ)} {x y z r r' : List α} (hp : S.Phrase ps (x ++ y)) (hy : y ≠ [])
    (hq : S.Phrase qs z) (h : y ++ r = z ++ r') (hx : S.Ends x.reverse) (hr : S.Ends r) (hr' : S.Ends r') :
    ∃ d, d < ps.length ∧ (d = 0 ↔ x = []) ∧ (ps.drop d <+: qs ∨ qs <+: ps.drop d) := by
  -- nothing of a word comes before the later phrase
  have hword {w : List κ} {a s : List α} (hw : S.Writes w (a ++ s)) (ha : S.Ends a.reverse) : a = [] := by
    rcases List.eq_nil_or_concat a with rfl | ⟨a, c, rfl⟩
    · rfl
    · rw [List.concat_eq_append] at ha hw
      obtain ⟨k, hk⟩ := hw.mem (c := c) (by simp)
      exact (ha.no_letter hk).elim
  generalize hs : x ++ y = s at hp
  induction hp generalizing x with
  | @word w t hw ht =>
    subst hs
    obtain rfl := hword ht hx
    refine ⟨0, Nat.one_pos, iff_of_true rfl rfl, ?_⟩
    exact (Phrase.word hw ht).aligned hq h hr hr'
  | @more w ws a sep t hw ha hsep hsep' ht ih =>
    by_cases hnil : x = []
    · subst hnil
      rw [List.nil_append] at hs
      subst hs
      refine ⟨0, Nat.succ_pos _, iff_of_true rfl rfl, ?_⟩
      exact (Phrase.more hw ha hsep hsep' ht).aligned hq h hr hr'
    -- the earlier phrase's first word and the separators after it come before the later phrase
    have hfirst : ∃ x', x = a ++ (sep ++ x') ∧ t = x' ++ y := by
      rcases List.append_eq_append_iff.mp hs with ⟨b, rfl, _⟩ | ⟨b, rfl, hb⟩
      · exact absurd (hword ha hx) hnil
      · rcases List.append_eq_append_iff.mp hb with ⟨x', rfl, rfl⟩ | ⟨s, rfl, rfl⟩
        · exact ⟨x', by simp, rfl⟩
        · cases s with
          | nil => exact ⟨[], by simp, by simp⟩
          | cons c s =>
            obtain ⟨k, d, s', rfl, hk⟩ := hq.cons
            rw [List.append_assoc, List.cons_append, List.cons_append] at h
            obtain ⟨rfl, _⟩ := List.cons.inj h
            have := S.separator k c hk
            rw [hsep' c (by simp)] at this
            cases this
    obtain ⟨x', rfl, rfl⟩ := hfirst
    have hx' : S.Ends x'.reverse := by
      rcases List.eq_nil_or_concat x' with rfl | ⟨x', c, rfl⟩
      · rfl
      · simpa [Ends] using hx
    obtain ⟨d, hd, _, hdrop⟩ := ih hx' rfl
    exact ⟨d + 1, Nat.succ_lt_succ hd, iff_of_false (Nat.succ_ne_zero d) hnil, hdrop⟩

theorem Stands.overlap {ps qs : List (List κ)} {pre x y z r r' : List α} (hp : S.Stands ps pre (x ++ y) r)
    (hy : y ≠ []) (hq : S.Stands qs (x.reverse ++ pre) z r') (h : y ++ r = z ++ r') :
    ∃ d, d < ps.length ∧ (d = 0 ↔ x = []) ∧ (ps.drop d <+: qs ∨ qs <+: ps.drop d) := by
  refine hp.phrase.overlap hy hq.phrase h ?_ hp.after hq.after
  have hbefore := hq.before
  rw [Ends] at hbefore ⊢
  cases hx : x.reverse with
  | nil => rfl
  | cons c s =>
    rw [hx] at hbefore
    exact hbefore

/-- **A phrase across something that is no letter** is a phrase before it and one after it. -/
theorem Phrase.across {ws : List (List κ)} {x y : List α} {m : α} (h : S.Phrase ws (x ++ m :: y))
    (hm : ∀ k, S.writes k m = false) :
    ∃ us vs a s s' b, ws = us ++ vs ∧ x = a ++ s ∧ y = s' ++ b ∧ S.Separates s ∧ S.Separates s' ∧
      S.Phrase us a ∧ S.Phrase vs b := by
  have hno {w : List κ} {t : List α} (hw : S.Writes w t) : m ∉ t := by
    intro hmem
    obtain ⟨k, hk⟩ := hw.mem hmem
    rw [hm k] at hk
    cases hk
  generalize hs : x ++ m :: y = s at h
  induction h generalizing x with
  | word hw ht =>
    subst hs
    exact absurd (by simp) (hno ht)
  | @more w ws a sep t hw ha hsep hsep' ht ih =>
    obtain ⟨x', rfl, hx'⟩ : ∃ x', x = a ++ x' ∧ sep ++ t = x' ++ m :: y := by
      rcases List.append_eq_append_iff.mp hs with ⟨b, rfl, hb⟩ | ⟨b, rfl, hb⟩
      · cases b with
        | nil => exact ⟨[], by simp, hb.symm⟩
        | cons c b =>
          obtain ⟨rfl, _⟩ := List.cons.inj hb
          exact absurd (by simp) (hno ha)
      · exact ⟨b, rfl, hb⟩
    rcases List.append_eq_append_iff.mp hx' with ⟨x'', rfl, rfl⟩ | ⟨s, rfl, hs'⟩
    · obtain ⟨us, vs, a', s, s', b, rfl, rfl, rfl, hs, hs', hu, hv⟩ := ih rfl
      exact ⟨w :: us, vs, a ++ (sep ++ a'), s, s', b, rfl, by simp, rfl, hs, hs', .more hw ha hsep hsep' hu, hv⟩
    · cases s with
      | nil =>
        obtain ⟨k, c, r, hc, hk⟩ := ht.cons
        rw [hc, List.nil_append] at hs'
        obtain ⟨rfl, _⟩ := List.cons.inj hs'
        rw [hm k] at hk
        cases hk
      | cons c s =>
        obtain ⟨rfl, rfl⟩ := List.cons.inj hs'
        refine ⟨[w], ws, a, x', s, t, rfl, rfl, rfl, fun d hd => hsep' d ?_, fun d hd => hsep' d ?_, .word hw ha, ht⟩
        · exact List.mem_append_left _ hd
        · exact List.mem_append_right _ (List.mem_cons_of_mem _ hd)

/-! ## A phrase in two texts with a separator between -/

/-- The phrase stands somewhere in the text. -/
def Occurs (S : Script κ α) (ws : List (List κ)) (text : List α) : Prop :=
  ∃ pre t post, text = pre.reverse ++ (t ++ post) ∧ S.Stands ws pre t post

/-- The text ends with the phrase, separators aside. -/
def Last (S : Script κ α) (ws : List (List κ)) (text : List α) : Prop :=
  ∃ pre t s, text = pre.reverse ++ (t ++ s) ∧ S.Phrase ws t ∧ S.Ends pre ∧ S.Separates s

/-- The text starts with the phrase, separators aside. -/
def First (S : Script κ α) (ws : List (List κ)) (text : List α) : Prop :=
  ∃ s t post, text = s ++ (t ++ post) ∧ S.Separates s ∧ S.Phrase ws t ∧ S.Ends post

theorem Last.ne_nil {ws : List (List κ)} {text : List α} (h : S.Last ws text) : ws ≠ [] := by
  obtain ⟨_, _, _, _, ht, _⟩ := h
  exact ht.words_ne_nil

theorem First.ne_nil {ws : List (List κ)} {text : List α} (h : S.First ws text) : ws ≠ [] := by
  obtain ⟨_, _, _, _, _, ht, _⟩ := h
  exact ht.words_ne_nil

theorem Last.occurs {ws : List (List κ)} {text : List α} (h : S.Last ws text)
    (hs : ∀ c, S.isSeparator c = true → S.isWord c = false) : S.Occurs ws text := by
  obtain ⟨pre, t, s, rfl, ht, hpre, hsep⟩ := h
  refine ⟨pre, t, s, rfl, ht, hpre, ?_⟩
  cases s with
  | nil => rfl
  | cons c s => exact hs c (hsep c List.mem_cons_self)

theorem Ends.append_cons {t s : List α} {m : α} (h : S.Ends t) (hm : S.isWord m = false) : S.Ends (t ++ m :: s) := by
  cases t with
  | nil => exact hm
  | cons c t => exact h

theorem Ends.of_append {t s : List α} (h : S.Ends (t ++ s)) : S.Ends t := by
  cases t with
  | nil => rfl
  | cons c t => exact h

/-- **Across a separator** a phrase of two texts is one's last words and the other's first. -/
theorem occurs_across {ws : List (List κ)} {a b : List α} {m : α} (hsep : S.isSeparator m = true)
    (hword : S.isWord m = false) :
    S.Occurs ws (a ++ m :: b) ↔
      S.Occurs ws a ∨ S.Occurs ws b ∨ ∃ us vs, ws = us ++ vs ∧ S.Last us a ∧ S.First vs b := by
  have hm : ∀ k, S.writes k m = false := by
    intro k
    by_contra hk
    rw [S.word k m (by simpa using hk)] at hword
    cases hword
  constructor
  · intro h
    obtain ⟨pre, t, post, htext, ht, hpre, hpost⟩ := h
    rcases part_cases htext.symm with ⟨s, rfl, rfl⟩ | ⟨s, rfl, rfl⟩ | ⟨x, y, rfl, rfl, rfl⟩
    · exact .inl ⟨pre, t, s, rfl, ht, hpre, hpost.of_append⟩
    · exact .inr (.inl ⟨s, t, post, rfl, ht, hpre.of_append, hpost⟩)
    · obtain ⟨us, vs, x, s, s', y, rfl, rfl, rfl, hs, hs', hu, hv⟩ := ht.across hm
      exact .inr (.inr ⟨us, vs, rfl, ⟨pre, x, s, rfl, hu, hpre, hs⟩, ⟨s', y, post, by simp, hs', hv, hpost⟩⟩)
  · intro h
    rcases h with h | h | ⟨us, vs, rfl, hlast, hfirst⟩
    · obtain ⟨pre, t, post, rfl, ht, hpre, hpost⟩ := h
      exact ⟨pre, t, post ++ m :: b, by simp, ht, hpre, hpost.append_cons hword⟩
    · obtain ⟨pre, t, post, rfl, ht, hpre, hpost⟩ := h
      exact ⟨pre ++ m :: a.reverse, t, post, by simp, ht, hpre.append_cons hword, hpost⟩
    · obtain ⟨pre, x, s, rfl, hu, hpre, hs⟩ := hlast
      obtain ⟨s', y, post, rfl, hs', hv, hpost⟩ := hfirst
      have hseps : S.Separates (s ++ m :: s') := by
        intro c hc
        rcases List.mem_append.mp hc with hc | hc
        · exact hs c hc
        · rcases List.mem_cons.mp hc with rfl | hc
          · exact hsep
          · exact hs' c hc
      exact ⟨pre, x ++ (s ++ m :: s' ++ y), post, by simp, hu.append (by simp) hseps hv, hpre, hpost⟩

end Script

end CiteVyn.Lib.Phrases
