import Mathlib.Data.List.Basic
import Mathlib.Tactic.Common

/-! # Leftmost scanning with a pattern

A pattern is tried at one place of a text at a time: it sees what comes
before (nearest element first) and what comes after, and answers how long
the match starting there is. `pieces` is the scan a regular-expression
library performs for `finditer`, `findall` and `sub`: from left to right,
without overlap, one step after a failed place, past the match after a
successful one. An empty match is treated as none. -/
namespace CiteVyn.Lib.Scan

variable {α : Type*}

/-- What comes before, nearest first, and what comes after, to the length of
the match that starts between them. -/
abbrev Pattern (α : Type*) := List α → List α → Option Nat

/-- One element the scan steps over, or one match. -/
inductive Piece (α : Type*) where
  | gap (c : α)
  | hit (w : List α)
  deriving Repr, DecidableEq

namespace Piece

def text : Piece α → List α
  | gap c => [c]
  | hit w => w

def render (f : List α → List α) : Piece α → List α
  | gap c => [c]
  | hit w => f w

end Piece

/-- The scan, structurally: `skip` elements belong to the match before. -/
def piecesFrom (m : Pattern α) : List α → Nat → List α → List (Piece α)
  | _, _, [] => []
  | pre, skip + 1, c :: cs => piecesFrom m (c :: pre) skip cs
  | pre, 0, c :: cs =>
    match m pre (c :: cs) with
    | some (n + 1) => .hit ((c :: cs).take (n + 1)) :: piecesFrom m (c :: pre) n cs
    | _ => .gap c :: piecesFrom m (c :: pre) 0 cs

def pieces (m : Pattern α) (s : List α) : List (Piece α) := piecesFrom m [] 0 s

/-- Start and end offsets of the matches among the pieces, the first piece
starting at `i`. -/
def spansFrom : Nat → List (Piece α) → List (Nat × Nat)
  | _, [] => []
  | i, .gap _ :: ps => spansFrom (i + 1) ps
  | i, .hit w :: ps => (i, i + w.length) :: spansFrom (i + w.length) ps

/-- `re.finditer`, by the offsets of its matches. -/
def finditer (m : Pattern α) (s : List α) : List (Nat × Nat) := spansFrom 0 (pieces m s)

/-- The matched texts among the pieces. -/
def hits : List (Piece α) → List (List α)
  | [] => []
  | .gap _ :: ps => hits ps
  | .hit w :: ps => w :: hits ps

/-- `re.findall` of a pattern without a group. -/
def findall (m : Pattern α) (s : List α) : List (List α) := hits (pieces m s)

/-- `re.sub` with a function of the match. -/
def sub (m : Pattern α) (f : List α → List α) (s : List α) : List α :=
  (pieces m s).flatMap (Piece.render f)

/-- `re.search` as a yes or no. -/
def search (m : Pattern α) (s : List α) : Bool := !(findall m s).isEmpty

/-- The pattern that matches `w` itself. -/
def exactly [BEq α] (w : List α) : Pattern α := fun _ rest =>
  if w.isPrefixOf rest then some w.length else none

/-- `s.replace(old, new)`, for an `old` that is not empty. -/
def replace [BEq α] (old new s : List α) : List α := sub (exactly old) (fun _ => new) s

/-- `s[i:j]`. -/
def slice (s : List α) (i j : Nat) : List α := (s.take j).drop i

/-- The text with each edit `(start, stop, new)` made, from offset `last` on:
the loop over matches that appends `text[last:start]`, then `new`, and moves
`last` to `stop`. -/
def splice (s : List α) : Nat → List (Nat × Nat × List α) → List α
  | last, [] => s.drop last
  | last, (i, j, new) :: es => slice s last i ++ new ++ splice s j es

/-! ## The scan, one place at a time -/

theorem piecesFrom_skip (m : Pattern α) :
    ∀ (k : Nat) (pre s : List α),
      piecesFrom m pre k s = piecesFrom m ((s.take k).reverse ++ pre) 0 (s.drop k)
  | 0, _, _ => by simp
  | _ + 1, _, [] => by simp [piecesFrom]
  | k + 1, pre, c :: cs => by
    simp only [piecesFrom, List.take_succ_cons, List.reverse_cons, List.append_assoc,
      List.drop_succ_cons, List.singleton_append]
    exact piecesFrom_skip m k (c :: pre) cs

theorem piecesFrom_gap {m : Pattern α} {pre : List α} {c : α} {cs : List α}
    (h : ∀ n, m pre (c :: cs) ≠ some (n + 1)) :
    piecesFrom m pre 0 (c :: cs) = .gap c :: piecesFrom m (c :: pre) 0 cs := by
  simp only [piecesFrom]

theorem piecesFrom_hit {m : Pattern α} {pre s : List α} {n : Nat} (hs : s ≠ [])
    (h : m pre s = some (n + 1)) :
    piecesFrom m pre 0 s = .hit (s.take (n + 1)) ::
      piecesFrom m ((s.take (n + 1)).reverse ++ pre) 0 (s.drop (n + 1)) := by
  cases s with
  | nil => exact absurd rfl hs
  | cons c cs =>
    simp only [piecesFrom, h]
    rw [piecesFrom_skip]
    simp

/-- The pieces are the text, cut up. -/
theorem flatMap_text_piecesFrom (m : Pattern α) :
    ∀ (s pre : List α) (k : Nat), (piecesFrom m pre k s).flatMap Piece.text = s.drop k
  | [], _, _ => by simp [piecesFrom]
  | c :: cs, pre, k + 1 => by
    simpa [piecesFrom] using flatMap_text_piecesFrom m cs (c :: pre) k
  | c :: cs, pre, 0 => by
    simp only [piecesFrom]
    split
    · rename_i n _
      simp [Piece.text, flatMap_text_piecesFrom m cs (c :: pre) n]
    · simp [Piece.text, flatMap_text_piecesFrom m cs (c :: pre) 0]

theorem flatMap_text_pieces (m : Pattern α) (s : List α) :
    (pieces m s).flatMap Piece.text = s := by
  simpa [pieces] using flatMap_text_piecesFrom m s [] 0

/-- What holds of the empty scan and is kept by each of its steps holds of a scan, if the
pattern does not look behind. -/
theorem pieces_rec {m : Pattern α} (hm : ∀ p q s, m p s = m q s) {P : List α → List (Piece α) → Prop} (nil : P [] [])
    (gap : ∀ c s ps, (∀ n, m [] (c :: s) ≠ some (n + 1)) → P s ps → P (c :: s) (.gap c :: ps))
    (hit : ∀ s n ps, s ≠ [] → m [] s = some (n + 1) → P (s.drop (n + 1)) ps → P s (.hit (s.take (n + 1)) :: ps)) :
    ∀ s, P s (pieces m s) := by
  have hall : ∀ (k : Nat) (s pre : List α), s.length ≤ k → P s (piecesFrom m pre 0 s) := by
    intro k
    induction k with
    | zero =>
      intro s pre hs
      rw [List.length_eq_zero_iff.mp (Nat.le_zero.mp hs)]
      exact nil
    | succ k ih =>
      intro s pre hs
      cases s with
      | nil => exact nil
      | cons c s =>
        rw [List.length_cons] at hs
        by_cases h : ∃ n, m pre (c :: s) = some (n + 1)
        · obtain ⟨n, hn⟩ := h
          rw [piecesFrom_hit (List.cons_ne_nil c s) hn]
          refine hit _ n _ (List.cons_ne_nil c s) (hm pre [] _ ▸ hn) (ih _ _ ?_)
          rw [List.length_drop, List.length_cons]
          omega
        · rw [piecesFrom_gap fun n hn => h ⟨n, hn⟩]
          exact gap c s _ (fun n hn => h ⟨n, hm [] pre _ ▸ hn⟩) (ih s _ (by omega))
  intro s
  exact hall s.length s [] (Nat.le_refl _)

/-! ## Cutting a text where no match crosses -/

/-- No match that starts in `a`, with `pre` before it, sees or reaches `b`. -/
def Separates (m : Pattern α) (pre a b : List α) : Prop :=
  ∀ p s, a = p ++ s → s ≠ [] →
    m (p.reverse ++ pre) (s ++ b) = m (p.reverse ++ pre) s ∧
      ∀ n, m (p.reverse ++ pre) s = some n → n ≤ s.length

theorem Separates.tail {m : Pattern α} {pre cs b : List α} {c : α}
    (h : Separates m pre (c :: cs) b) : Separates m (c :: pre) cs b := by
  intro p s hs hne
  simpa using h (c :: p) s (by simp [hs]) hne

theorem piecesFrom_append {m : Pattern α} {b : List α} :
    ∀ (a pre : List α) (k : Nat), k ≤ a.length → Separates m pre a b →
      piecesFrom m pre k (a ++ b) = piecesFrom m pre k a ++ piecesFrom m (a.reverse ++ pre) 0 b
  | [], pre, k, hk, _ => by
    have : k = 0 := by simpa using hk
    subst this
    simp [piecesFrom]
  | c :: cs, pre, k + 1, hk, h => by
    simp only [List.cons_append, piecesFrom, List.reverse_cons, List.append_assoc]
    exact piecesFrom_append cs (c :: pre) k (by simpa using hk) h.tail
  | c :: cs, pre, 0, _, h => by
    obtain ⟨heq, hle⟩ := h [] (c :: cs) rfl (by simp)
    simp only [List.reverse_nil, List.nil_append, List.cons_append] at heq hle
    have ih := fun k hk => piecesFrom_append cs (c :: pre) k hk h.tail
    simp only [List.cons_append, piecesFrom, heq, List.reverse_cons, List.append_assoc]
    split
    · rename_i n hn
      have hlen := hle _ hn
      have hn' : n ≤ cs.length := by simpa using hlen
      rw [ih n hn']
      simp [List.take_append_of_le_length hn']
    · rw [ih 0 (by simp)]
      rfl

/-- A pattern that does not look behind scans the same after any text. -/
theorem piecesFrom_pre {m : Pattern α} (hm : ∀ p q s, m p s = m q s) :
    ∀ (s pre pre' : List α) (k : Nat), piecesFrom m pre k s = piecesFrom m pre' k s
  | [], _, _, _ => by simp [piecesFrom]
  | c :: cs, pre, pre', k + 1 => by
    simp only [piecesFrom]
    exact piecesFrom_pre hm cs _ _ k
  | c :: cs, pre, pre', 0 => by
    simp only [piecesFrom, hm pre pre' (c :: cs)]
    split
    · rename_i n _
      rw [piecesFrom_pre hm cs (c :: pre) (c :: pre') n]
    · rw [piecesFrom_pre hm cs (c :: pre) (c :: pre') 0]

theorem hits_append : ∀ ps qs : List (Piece α), hits (ps ++ qs) = hits ps ++ hits qs
  | [], _ => rfl
  | .gap _ :: ps, qs => by simpa [hits] using hits_append ps qs
  | .hit w :: ps, qs => by simpa [hits] using hits_append ps qs

theorem findall_append {m : Pattern α} (hm : ∀ p q s, m p s = m q s) {a b : List α}
    (h : Separates m [] a b) : findall m (a ++ b) = findall m a ++ findall m b := by
  unfold findall pieces
  rw [piecesFrom_append a [] 0 (Nat.zero_le _) h, hits_append,
    piecesFrom_pre hm b (a.reverse ++ []) [] 0]

@[simp] theorem findall_nil (m : Pattern α) : findall m [] = [] := rfl

theorem spansFrom_eq_nil_iff : ∀ (ps : List (Piece α)) (i : Nat), spansFrom i ps = [] ↔ hits ps = []
  | [], _ => iff_of_true rfl rfl
  | .gap _ :: ps, i => spansFrom_eq_nil_iff ps (i + 1)
  | .hit _ :: _, _ => iff_of_false (List.cons_ne_nil _ _) (List.cons_ne_nil _ _)

theorem finditer_ne_nil_iff (m : Pattern α) (s : List α) : finditer m s ≠ [] ↔ search m s = true := by
  rw [search, Bool.not_eq_true', List.isEmpty_eq_false_iff]
  exact (spansFrom_eq_nil_iff (pieces m s) 0).not

/-- A text in which nothing matches has no matches. -/
theorem hits_piecesFrom_of_no_match {m : Pattern α} :
    ∀ (s pre : List α), (∀ p t, s = p ++ t → t ≠ [] → ∀ n, m (p.reverse ++ pre) t ≠ some (n + 1)) →
      hits (piecesFrom m pre 0 s) = []
  | [], _, _ => rfl
  | c :: cs, pre, h => by
    have hc : ∀ n, m pre (c :: cs) ≠ some (n + 1) := h [] (c :: cs) rfl (List.cons_ne_nil c cs)
    rw [piecesFrom_gap hc, hits]
    exact hits_piecesFrom_of_no_match cs (c :: pre) fun p t hs ht => by
      simpa using h (c :: p) t (by simp [hs]) ht

theorem hits_piecesFrom_nil {m : Pattern α} (s pre : List α)
    (h : ∀ p t, s = p ++ t → t ≠ [] → m (p.reverse ++ pre) t = none) : hits (piecesFrom m pre 0 s) = [] :=
  hits_piecesFrom_of_no_match s pre fun p t hs ht n hn => by
    rw [h p t hs ht] at hn
    cases hn

/-- A text in which nothing matches is left as it is. -/
theorem render_of_no_match {m : Pattern α} (f : List α → List α) :
    ∀ (s pre : List α), (∀ p t, s = p ++ t → t ≠ [] → m (p.reverse ++ pre) t = none) →
      (piecesFrom m pre 0 s).flatMap (Piece.render f) = s
  | [], _, _ => rfl
  | c :: cs, pre, h => by
    have hc : m pre (c :: cs) = none := h [] (c :: cs) rfl (by simp)
    rw [piecesFrom_gap (by simp [hc]), List.flatMap_cons, Piece.render, List.singleton_append]
    congr 1
    exact render_of_no_match f cs (c :: pre) fun p t hs ht => by
      simpa using h (c :: p) t (by simp [hs]) ht

theorem replace_of_not_mem [BEq α] [LawfulBEq α] {c : α} {s : List α} (w new : List α) (h : c ∉ s) :
    replace (c :: w) new s = s := by
  refine render_of_no_match _ s [] fun p t hs ht => ?_
  obtain ⟨d, t, rfl⟩ := List.exists_cons_of_ne_nil ht
  have hd : c ≠ d := by
    intro he
    exact h (by simp [hs, he])
  rw [exactly, if_neg]
  simp [List.isPrefixOf, hd]

theorem replace_singleton [BEq α] [LawfulBEq α] (c : α) (new s : List α) :
    replace [c] new s = s.flatMap fun d => if d == c then new else [d] := by
  refine pieces_rec (m := exactly [c]) (fun _ _ _ => rfl)
    (P := fun s ps => ps.flatMap (Piece.render fun _ => new) = s.flatMap fun d => if d == c then new else [d])
    rfl ?_ ?_ s
  · intro d s ps hd ih
    have hne : ¬ (d == c) = true := by
      intro he
      obtain rfl := eq_of_beq he
      exact hd 0 (by simp [exactly, List.isPrefixOf])
    rw [List.flatMap_cons, List.flatMap_cons, ih, if_neg hne]
    rfl
  · intro s n ps hs hn ih
    obtain ⟨d, s, rfl⟩ := List.exists_cons_of_ne_nil hs
    rw [exactly] at hn
    split at hn
    · rename_i hpre
      obtain rfl : n = 0 := by simpa using (Option.some.inj hn).symm
      have hc : (c == d) = true := by simpa [List.isPrefixOf] using hpre
      obtain rfl := eq_of_beq hc
      rw [List.flatMap_cons, List.flatMap_cons, ih, if_pos (BEq.rfl)]
      rfl
    · cases hn

/-- Every match is what the pattern answered at some place, and not empty. -/
theorem exists_of_mem_hits {m : Pattern α} {w : List α} :
    ∀ (s pre : List α) (k : Nat), w ∈ hits (piecesFrom m pre k s) →
      ∃ pre' t n, m pre' t = some (n + 1) ∧ t <:+ s ∧ w = t.take (n + 1) ∧ w ≠ []
  | [], _, _, h => by simp [piecesFrom, hits] at h
  | c :: cs, pre, k + 1, h => by
    obtain ⟨pre', t, n, h1, h2, h3⟩ := exists_of_mem_hits cs (c :: pre) k h
    exact ⟨pre', t, n, h1, h2.trans (List.suffix_cons c cs), h3⟩
  | c :: cs, pre, 0, h => by
    simp only [piecesFrom] at h
    split at h
    · rename_i n hn
      simp only [hits, List.mem_cons] at h
      rcases h with rfl | h
      · exact ⟨pre, c :: cs, n, hn, List.suffix_rfl, rfl, by simp⟩
      · obtain ⟨pre', t, n, h1, h2, h3⟩ := exists_of_mem_hits cs (c :: pre) n h
        exact ⟨pre', t, n, h1, h2.trans (List.suffix_cons c cs), h3⟩
    · obtain ⟨pre', t, n, h1, h2, h3⟩ := exists_of_mem_hits cs (c :: pre) 0 h
      exact ⟨pre', t, n, h1, h2.trans (List.suffix_cons c cs), h3⟩

theorem mem_hits_of_mem {w : List α} : ∀ ps : List (Piece α), .hit w ∈ ps → w ∈ hits ps
  | .gap _ :: ps, h => by
    simp only [List.mem_cons, reduceCtorEq, false_or] at h
    exact mem_hits_of_mem ps h
  | .hit v :: ps, h => by
    simp only [List.mem_cons, Piece.hit.injEq] at h
    rcases h with rfl | h
    · exact List.mem_cons_self
    · exact List.mem_cons_of_mem _ (mem_hits_of_mem ps h)

/-- Replacing every match by something shorter shortens a text, unless there is
no match. -/
theorem render_length {f : List α → List α} :
    ∀ ps : List (Piece α), (∀ w ∈ hits ps, (f w).length < w.length) →
      (ps.flatMap (Piece.render f)).length ≤ (ps.flatMap Piece.text).length ∧
        ((ps.flatMap (Piece.render f)).length = (ps.flatMap Piece.text).length →
          hits ps = [] ∧ ps.flatMap (Piece.render f) = ps.flatMap Piece.text)
  | [], _ => ⟨Nat.le_refl _, fun _ => ⟨rfl, rfl⟩⟩
  | .gap c :: ps, h => by
    obtain ⟨hle, heq⟩ := render_length ps fun w hw => h w hw
    simp only [List.flatMap_cons, Piece.render, Piece.text, List.singleton_append,
      List.length_cons, Nat.add_right_cancel_iff, hits]
    refine ⟨by omega, fun he => ?_⟩
    obtain ⟨hh, ht⟩ := heq he
    exact ⟨hh, by rw [ht]⟩
  | .hit w :: ps, h => by
    obtain ⟨hle, _⟩ := render_length ps fun v hv => h v (List.mem_cons_of_mem _ hv)
    have hw := h w List.mem_cons_self
    simp only [List.flatMap_cons, Piece.render, Piece.text, List.length_append]
    exact ⟨by omega, fun he => by omega⟩

theorem sub_length {m : Pattern α} {f : List α → List α} {s : List α}
    (h : ∀ w ∈ findall m s, (f w).length < w.length) :
    (sub m f s).length ≤ s.length ∧
      ((sub m f s).length = s.length → findall m s = [] ∧ sub m f s = s) := by
  have := render_length (f := f) (pieces m s) h
  rwa [flatMap_text_pieces] at this

/-- A scan without matches found none at any place. -/
theorem no_match_of_hits_nil {m : Pattern α} :
    ∀ (s pre : List α), hits (piecesFrom m pre 0 s) = [] →
      ∀ p t, s = p ++ t → t ≠ [] → ∀ n, m (p.reverse ++ pre) t ≠ some (n + 1)
  | [], _, _, p, t, hs, ht => by simp_all
  | c :: cs, pre, h, p, t, hs, ht => by
    intro n hn
    have hgap : ∀ n, m pre (c :: cs) ≠ some (n + 1) := by
      intro n hn
      rw [piecesFrom_hit (by simp) hn] at h
      cases h
    rw [piecesFrom_gap hgap, hits] at h
    cases p with
    | nil =>
      obtain rfl : t = c :: cs := hs.symm
      exact hgap n hn
    | cons d p =>
      simp only [List.cons_append, List.cons.injEq] at hs
      obtain ⟨rfl, hs⟩ := hs
      exact no_match_of_hits_nil cs (c :: pre) h p t hs ht n (by simpa using hn)

/-- There are no matches exactly when nothing matches at any place. -/
theorem findall_eq_nil_iff {m : Pattern α} {s : List α} :
    findall m s = [] ↔ ∀ p t, s = p ++ t → t ≠ [] → ∀ n, m p.reverse t ≠ some (n + 1) := by
  constructor
  · intro h p t hs ht n
    simpa using no_match_of_hits_nil s [] h p t hs ht n
  · intro h
    exact hits_piecesFrom_of_no_match s [] fun p t hs ht n => by simpa using h p t hs ht n

theorem findall_exactly_eq_nil_iff [BEq α] [LawfulBEq α] {w s : List α} (hw : w ≠ []) :
    findall (exactly w) s = [] ↔ ¬ w <:+: s := by
  rw [findall_eq_nil_iff]
  constructor
  · intro h hinfix
    obtain ⟨p, r, rfl⟩ := hinfix
    refine h p (w ++ r) (List.append_assoc _ _ _) (by simp [hw]) (w.length - 1) ?_
    rw [exactly, if_pos (List.isPrefixOf_iff_prefix.mpr (List.prefix_append w r)),
      Nat.sub_add_cancel (List.length_pos_iff.mpr hw)]
  · intro h p t hs ht n hn
    rw [exactly] at hn
    split at hn
    · rename_i hpre
      obtain ⟨r, rfl⟩ := List.isPrefixOf_iff_prefix.mp hpre
      exact h ⟨p, r, by rw [hs, List.append_assoc]⟩
    · cases hn

/-! ## The offsets of the matches -/

/-- Spans in order and disjoint, from `last` on and inside a text of length
`len`, each satisfying `P`. -/
def Ordered (P : Nat → Nat → Prop) (len : Nat) : Nat → List (Nat × Nat) → Prop
  | _, [] => True
  | last, (i, j) :: rest => last ≤ i ∧ i < j ∧ j ≤ len ∧ P i j ∧ Ordered P len j rest

theorem Ordered.weaken {P : Nat → Nat → Prop} {len last last' : Nat} (hle : last' ≤ last) :
    ∀ {l : List (Nat × Nat)}, Ordered P len last l → Ordered P len last' l
  | [], _ => trivial
  | (_, _) :: _, ⟨h1, h⟩ => ⟨Nat.le_trans hle h1, h⟩

theorem Ordered.mem {P : Nat → Nat → Prop} {len last i j : Nat} : ∀ {l : List (Nat × Nat)}, Ordered P len last l →
    (i, j) ∈ l → i < j ∧ j ≤ len ∧ P i j
  | (_, _) :: _, ⟨_, hij, hlen, hP, hrest⟩, h => by
    rcases List.mem_cons.mp h with h | h
    · obtain ⟨rfl, rfl⟩ := Prod.mk.inj h
      exact ⟨hij, hlen, hP⟩
    · exact hrest.mem h

/-- A pattern whose match lies in the text it is tried on. -/
def Sound (m : Pattern α) : Prop := ∀ pre s n, m pre s = some n → n ≤ s.length

/-- The span `i j` of `s` is a match of `m`. -/
def MatchAt (m : Pattern α) (s : List α) (i j : Nat) : Prop :=
  m (s.take i).reverse (s.drop i) = some (j - i)

theorem spansFrom_ordered {m : Pattern α} (hm : Sound m) (s : List α) :
    ∀ (fuel i : Nat), s.length ≤ i + fuel → i ≤ s.length →
      Ordered (MatchAt m s) s.length i
        (spansFrom i (piecesFrom m (s.take i).reverse 0 (s.drop i)))
  | 0, i, hlen, hi => by
    rw [show s.drop i = [] from List.drop_eq_nil_of_le (by omega)]
    simp [piecesFrom, spansFrom, Ordered]
  | fuel + 1, i, hlen, hi => by
    by_cases hnil : s.drop i = []
    · rw [hnil]
      simp [piecesFrom, spansFrom, Ordered]
    have hlt : i < s.length := by
      by_contra hge
      exact hnil (List.drop_eq_nil_of_le (by omega))
    have hcons : s.drop i = s[i] :: s.drop (i + 1) := List.drop_eq_getElem_cons hlt
    have htake : s[i] :: (s.take i).reverse = (s.take (i + 1)).reverse := by
      rw [List.take_succ_eq_append_getElem hlt, List.reverse_append]
      rfl
    -- a step over one element, whether nothing or an empty match starts here
    have gap : Ordered (MatchAt m s) s.length i (spansFrom i
        (.gap s[i] :: piecesFrom m (s[i] :: (s.take i).reverse) 0 (s.drop (i + 1)))) := by
      rw [spansFrom, htake]
      exact (spansFrom_ordered hm s fuel (i + 1) (by omega) hlt).weaken (Nat.le_succ i)
    cases h : m (s.take i).reverse (s.drop i) with
    | none =>
      rw [hcons] at h ⊢
      rwa [piecesFrom_gap fun n hn => by rw [h] at hn; cases hn]
    | some n =>
      cases n with
      | zero =>
        rw [hcons] at h ⊢
        rwa [piecesFrom_gap fun n hn => by rw [h] at hn; cases hn]
      | succ n =>
        have hle : n + 1 ≤ s.length - i := by simpa using hm _ _ _ h
        have hw : ((s.drop i).take (n + 1)).length = n + 1 := by simp; omega
        rw [piecesFrom_hit hnil h, spansFrom, hw]
        refine ⟨Nat.le_refl i, by omega, by omega, ?_, ?_⟩
        · simpa [MatchAt] using h
        · have hpre : ((s.drop i).take (n + 1)).reverse ++ (s.take i).reverse =
              (s.take (i + (n + 1))).reverse := by
            rw [← List.reverse_append, ← List.take_add]
          rw [hpre, List.drop_drop]
          exact spansFrom_ordered hm s fuel (i + (n + 1)) (by omega) (by omega)

/-- The matches `finditer` yields are in order, disjoint and matches. -/
theorem finditer_ordered {m : Pattern α} (hm : Sound m) (s : List α) :
    Ordered (MatchAt m s) s.length 0 (finditer m s) := by
  simpa [finditer, pieces] using spansFrom_ordered hm s s.length 0 (by omega) (Nat.zero_le _)

/-- A match among the pieces is what the pattern takes at its place. -/
theorem hit_of_pieces {m : Pattern α} (hm : Sound m) {w : List α} {b : List (Piece α)} :
    ∀ (a : List (Piece α)) (pre s : List α), piecesFrom m pre 0 s = a ++ .hit w :: b →
      m ((a.flatMap Piece.text).reverse ++ pre) (w ++ b.flatMap Piece.text) = some w.length
  | [], pre, s, h => by
    cases s with
    | nil => cases h
    | cons c cs =>
      simp only [piecesFrom, List.nil_append] at h
      split at h
      · rename_i n hn
        have hlen := hm _ _ _ hn
        obtain ⟨hw, rfl⟩ := List.cons.inj h
        obtain rfl := Piece.hit.inj hw
        rw [flatMap_text_piecesFrom, List.length_take_of_le hlen, ← List.drop_succ_cons (a := c), List.take_append_drop]
        exact hn
      · cases h
  | p :: a, pre, s, h => by
    cases s with
    | nil => cases h
    | cons c cs =>
      simp only [piecesFrom, List.cons_append] at h
      split at h
      · obtain ⟨rfl, hrest⟩ := List.cons.inj h
        rw [piecesFrom_skip] at hrest
        have := hit_of_pieces hm a _ _ hrest
        simpa [Piece.text] using this
      · obtain ⟨rfl, hrest⟩ := List.cons.inj h
        have := hit_of_pieces hm a _ _ hrest
        simpa [Piece.text] using this

/-! ## Masking: a substitution that keeps offsets -/

/-- The scan with every matched element replaced by `z`. -/
def maskFrom (m : Pattern α) (z : α) : List α → Nat → List α → List α
  | _, _, [] => []
  | pre, skip + 1, c :: cs => z :: maskFrom m z (c :: pre) skip cs
  | pre, 0, c :: cs =>
    match m pre (c :: cs) with
    | some (n + 1) => z :: maskFrom m z (c :: pre) n cs
    | _ => c :: maskFrom m z (c :: pre) 0 cs

theorem maskFrom_length (m : Pattern α) (z : α) :
    ∀ (s pre : List α) (k : Nat), (maskFrom m z pre k s).length = s.length
  | [], _, _ => by simp [maskFrom]
  | _ :: cs, pre, k + 1 => by simp [maskFrom, maskFrom_length m z cs]
  | _ :: cs, pre, 0 => by
    simp only [maskFrom]
    split <;> simp [maskFrom_length m z cs]

/-- Inside a match everything is masked. -/
theorem maskFrom_skip (m : Pattern α) (z : α) :
    ∀ (k : Nat) (pre s : List α), maskFrom m z pre k s =
      List.replicate (min k s.length) z ++
        maskFrom m z ((s.take k).reverse ++ pre) 0 (s.drop k)
  | 0, _, _ => by simp
  | _ + 1, _, [] => by simp [maskFrom]
  | k + 1, pre, c :: cs => by
    simp only [maskFrom, List.length_cons, List.take_succ_cons, List.reverse_cons,
      List.append_assoc, List.drop_succ_cons, List.singleton_append]
    rw [maskFrom_skip m z k (c :: pre) cs, Nat.add_min_add_right, List.replicate_succ]
    rfl

theorem flatMap_mask (m : Pattern α) (z : α) :
    ∀ (s pre : List α) (k : Nat), List.replicate (min k s.length) z ++
      (piecesFrom m pre k s).flatMap (Piece.render fun w => List.replicate w.length z) =
        maskFrom m z pre k s
  | [], _, _ => by simp [piecesFrom, maskFrom]
  | c :: cs, pre, k + 1 => by
    simp only [piecesFrom, maskFrom, List.length_cons]
    rw [Nat.add_min_add_right, List.replicate_succ, List.cons_append,
      flatMap_mask m z cs (c :: pre) k]
  | c :: cs, pre, 0 => by
    simp only [piecesFrom, maskFrom]
    split
    · rename_i n _
      simp only [List.flatMap_cons, Piece.render, List.length_take, List.length_cons,
        Nat.zero_min, List.replicate_zero, List.nil_append]
      rw [Nat.add_min_add_right, List.replicate_succ, List.cons_append,
        flatMap_mask m z cs (c :: pre) n]
    · simpa [Piece.render] using flatMap_mask m z cs (c :: pre) 0

theorem sub_mask (m : Pattern α) (z : α) (s : List α) :
    sub m (fun w => List.replicate w.length z) s = maskFrom m z [] 0 s := by
  simpa [sub, pieces] using flatMap_mask m z s [] 0

/-! ## Splicing -/

theorem slice_append_drop {s : List α} {i j : Nat} (h : i ≤ j) :
    slice s i j ++ s.drop j = s.drop i := by
  unfold slice
  conv_rhs => rw [← List.take_append_drop j s]
  rw [List.drop_append]
  by_cases hj : j ≤ s.length
  · simp [List.length_take, Nat.min_eq_left hj, Nat.sub_eq_zero_of_le h]
  · simp [List.drop_eq_nil_of_le (Nat.le_of_not_le hj)]

theorem take_append_slice {s : List α} {i j : Nat} (h : i ≤ j) :
    s.take i ++ slice s i j = s.take j := by
  have hi : s.take i = (s.take j).take i := by rw [List.take_take, Nat.min_eq_left h]
  rw [slice, hi, List.take_append_drop]

theorem slice_length {s : List α} {i j : Nat} (h : j ≤ s.length) :
    (slice s i j).length = j - i := by
  simp [slice, Nat.min_eq_left h]

theorem slice_append_slice {s : List α} {i j k : Nat} (hij : i ≤ j) (hjk : j ≤ k) :
    slice s i j ++ slice s j k = slice s i k := by
  have := slice_append_drop (s := s.take k) hij
  rwa [slice, List.take_take, Nat.min_eq_left hjk] at this

theorem slice_subset {s : List α} {i j k l : Nat} (hij : i ≤ j) (hkl : k ≤ l) :
    slice s j k ⊆ slice s i l := by
  intro c hc
  obtain ⟨d, rfl⟩ := Nat.exists_eq_add_of_le hij
  unfold slice at hc ⊢
  rw [← List.drop_drop] at hc
  have htake : s.take k = (s.take l).take k := by rw [List.take_take, Nat.min_eq_left hkl]
  rw [htake, List.drop_take] at hc
  exact List.mem_of_mem_take (List.mem_of_mem_drop hc)

/-- Edits in order, from offset `last` on, each satisfying `Q`. -/
def Edits (Q : Nat → Nat → List α → Prop) : Nat → List (Nat × Nat × List α) → Prop
  | _, [] => True
  | last, (i, j, new) :: es => last ≤ i ∧ Q i j new ∧ Edits Q j es

theorem Edits.imp {Q R : Nat → Nat → List α → Prop} (h : ∀ i j new, Q i j new → R i j new) :
    ∀ {last : Nat} {es : List (Nat × Nat × List α)}, Edits Q last es → Edits R last es
  | _, [], _ => trivial
  | _, (_, _, _) :: _, ⟨hlast, hq, hes⟩ => ⟨hlast, h _ _ _ hq, hes.imp h⟩

theorem Edits.and {Q R : Nat → Nat → List α → Prop} : ∀ {last : Nat} {es : List (Nat × Nat × List α)}, Edits Q last es →
    (∀ e ∈ es, R e.1 e.2.1 e.2.2) → Edits (fun i j new => Q i j new ∧ R i j new) last es
  | _, [], _, _ => trivial
  | _, _ :: _, ⟨hlast, hq, hes⟩, hR =>
    ⟨hlast, ⟨hq, hR _ List.mem_cons_self⟩, hes.and fun e he => hR e (List.mem_cons_of_mem _ he)⟩

/-- Edits made of some of the matches of a scan. An edit may reach past its
match, as long as no later match starts in it. -/
theorem Edits.of_ordered {P : Nat → Nat → Prop} {Q : Nat → Nat → List α → Prop}
    {f : Nat × Nat → Option (Nat × Nat × List α)} {len : Nat}
    (hf : ∀ i j i' k new, i < j → j ≤ len → P i j → f (i, j) = some (i', k, new) →
      i' = i ∧ Q i k new ∧ ∀ i₂ j₂, P i₂ j₂ → j ≤ i₂ → k ≤ i₂) :
    ∀ (spans : List (Nat × Nat)) (last from' : Nat), Ordered P len last spans →
      (∀ i j, P i j → last ≤ i → from' ≤ i) → Edits Q from' (spans.filterMap f)
  | [], _, _, _, _ => trivial
  | (i, j) :: spans, last, from', ⟨hlast, hij, hlen, hP, hrest⟩, hfrom => by
    cases he : f (i, j) with
    | none =>
      rw [List.filterMap_cons_none he]
      exact Edits.of_ordered hf spans j from' hrest fun i₂ j₂ hP₂ hj => hfrom i₂ j₂ hP₂ (by omega)
    | some e =>
      obtain ⟨i', k, new⟩ := e
      obtain ⟨rfl, hq, hnext⟩ := hf i j i' k new hij hlen hP he
      rw [List.filterMap_cons_some he]
      exact ⟨hfrom i' j hP hlast, hq, Edits.of_ordered hf spans j k hrest hnext⟩

/-- What a scan reads from a text piece by piece is related to what it reads
from the edited text, when it can be cut at both ends of every edit. -/
theorem rel_splice {β : Type*} {R : List β → List β → Prop} (scan : List α → List β)
    (hrefl : ∀ l, R l l) (happ : ∀ a b c d, R a b → R c d → R (a ++ c) (b ++ d))
    {s : List α} {Q : Nat → Nat → List α → Prop}
    (hQ : ∀ i j new, Q i j new → i ≤ j ∧
      (∀ p r, scan (p ++ slice s i j ++ r) = scan p ++ scan (slice s i j) ++ scan r) ∧
      (∀ p r, scan (p ++ new ++ r) = scan p ++ scan new ++ scan r) ∧
      R (scan (slice s i j)) (scan new)) :
    ∀ (es : List (Nat × Nat × List α)) (last : Nat), Edits Q last es →
      R (scan (s.drop last)) (scan (splice s last es))
  | [], _, _ => hrefl _
  | (i, j, new) :: es, last, ⟨hlast, hq, hes⟩ => by
    obtain ⟨hij, hold, hnew, hR⟩ := hQ i j new hq
    rw [← slice_append_drop hlast, ← slice_append_drop hij, ← List.append_assoc, hold, splice, hnew]
    exact happ _ _ _ _ (happ _ _ _ _ (hrefl _) hR) (rel_splice scan hrefl happ hQ es j hes)

end CiteVyn.Lib.Scan
