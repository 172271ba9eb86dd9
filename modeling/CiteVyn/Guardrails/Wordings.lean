import CiteVyn.Guardrails.Products
import CiteVyn.Lib.Phrases
import CiteVyn.Llm.Lookahead

/-! # The phrases that name a product

Each pattern of a product finds its phrases, standing as words of their own, and nothing else. -/
namespace CiteVyn.Guardrails
open CiteVyn.Lib.Backtrack CiteVyn.Lib.Phrases CiteVyn.Lib.Scan CiteVyn.Text CiteVyn.Answer
open CiteVyn.Llm (foldingDatabase)

section Spec
variable {u : Unicode}

theorem letters_folding : Letters foldingDatabase := by
  intro c hc
  simp only [foldingDatabase, hc, Bool.true_or]

/-- Words in letters of either case, with `[\s-]+` between. -/
def script (hu : Letters u) : Script Char Char where
  writes p c := isLowerAscii p && eqIgnoreCase p c
  isWord := u.isWord
  isSeparator c := isSpace c || c == '-'
  unique p q c h h' := by
    rw [Bool.and_eq_true] at h h'
    exact eqIgnoreCase_unique h.1 h'.1 h.2 h'.2
  word p c h := by
    rw [Bool.and_eq_true] at h
    exact Bool.or_eq_true_iff.mpr (.inl (hu c (eqIgnoreCase_letter h.1 h.2)))
  separator p c h := by
    rw [Bool.and_eq_true] at h
    have hletter := eqIgnoreCase_letter h.1 h.2
    rw [Bool.or_eq_false_iff, isSpace_letter hletter]
    refine ⟨rfl, ?_⟩
    by_contra hdash
    obtain rfl : c = '-' := by simpa using hdash
    revert hletter
    decide

theorem writes_iff (hu : Letters u) {w : Str} (hw : w.all isLowerAscii = true) (t : Str) :
    (script hu).Writes w t ↔ spelled (w.map eqIgnoreCase) t = true := by
  have hsplit := @List.forall₂_and_left Char Char (fun p c => eqIgnoreCase p c = true)
    (fun p => isLowerAscii p = true) w t
  rw [spelled_map_iff, ← and_iff_right (List.all_eq_true.mp hw) (b := List.Forall₂ _ w t), ← hsplit]
  simp only [Script.Writes, script, Bool.and_eq_true]

theorem accepts_lit (hu : Letters u) {w : String} (hw : w.toList.all isLowerAscii = true) :
    Accepts (lit w) ((script hu).Writes w.toList) :=
  (Accepts.spell _).congr fun t => (writes_iff hu hw t).symm

theorem accepts_spaces (hu : Letters u) : Accepts spaces (fun s => s ≠ [] ∧ (script hu).Separates s) := by
  refine (Accepts.many _ 1).congr fun s => and_congr ?_ List.all_eq_true
  rw [Nat.succ_le_iff, List.length_pos_iff]

/-- Two words with `[\s-]+` between. -/
theorem accepts_words (hu : Letters u) {a b : String} (ha : a.toList.all isLowerAscii = true) (ha' : a.toList ≠ [])
    (hb : b.toList.all isLowerAscii = true) (hb' : b.toList ≠ []) :
    Accepts (fun next => lit a (spaces (lit b next))) ((script hu).Phrase [a.toList, b.toList]) := by
  refine ((accepts_lit hu ha).comp ((accepts_spaces hu).comp (accepts_lit hu hb))).congr fun t => ?_
  constructor
  · intro h
    obtain ⟨x, _, rfl, hx, s, y, rfl, ⟨hs, hsep⟩, hy⟩ := h
    exact .more ha' hx hs hsep (.word hb' hy)
  · intro h
    cases h with
    | more _ hx hs hsep hy =>
      cases hy with
      | word _ hy => exact ⟨_, _, rfl, hx, _, _, rfl, ⟨hs, hsep⟩, hy⟩
      | more _ _ _ _ hnil => cases hnil

/-- A phrase is a word's end at both sides, wherever no word goes on. -/
theorem wordBoundary_phrase (hu : Letters u) {ws : List Str} {t : Str} (h : (script hu).Phrase ws t) (pre post : Str) :
    u.wordBoundary pre (t ++ post) = !pre.head?.any u.isWord ∧
      u.wordBoundary (t.reverse ++ pre) post = !post.head?.any u.isWord := by
  constructor
  · obtain ⟨k, c, s, rfl, hk⟩ := h.cons
    have hc : u.isWord c = true := (script hu).word k c hk
    rw [Unicode.wordBoundary, List.cons_append, List.head?_cons, Option.any_some, hc]
    cases pre.head?.any u.isWord <;> rfl
  · obtain ⟨k, c, s, rfl, hk⟩ := h.concat
    have hc : u.isWord c = true := (script hu).word k c hk
    rw [Unicode.wordBoundary, List.reverse_append, List.reverse_singleton, List.append_assoc, List.singleton_append,
      List.head?_cons, Option.any_some, hc]
    cases post.head?.any u.isWord <;> rfl

/-- No phrase is read on from a word of another. -/
def apart (wss vss : List (List Str)) : Bool :=
  wss.all fun ws => vss.all fun vs => (List.range ws.length).all fun d =>
    !(ws.drop d).isPrefixOf vs && !vs.isPrefixOf (ws.drop d)

theorem apart_spec {wss vss : List (List Str)} (h : apart wss vss = true) {ws vs : List Str} (hws : ws ∈ wss)
    (hvs : vs ∈ vss) {d : Nat} (hd : d < ws.length) : ¬ (ws.drop d <+: vs ∨ vs <+: ws.drop d) := by
  have := List.all_eq_true.mp (List.all_eq_true.mp (List.all_eq_true.mp h ws hws) vs hvs) d (List.mem_range.mpr hd)
  rw [Bool.and_eq_true, Bool.not_eq_true', Bool.not_eq_true', ← Bool.not_eq_true, ← Bool.not_eq_true,
    List.isPrefixOf_iff_prefix, List.isPrefixOf_iff_prefix] at this
  exact not_or.mpr this

/-- The pattern finds the phrases, standing in a text. -/
structure Finds (hu : Letters u) (m : Pattern Char) (wss : List (List Str)) : Prop where
  sound : ∀ pre rest n, m pre rest = some n →
    ∃ ws ∈ wss, ∃ t post, rest = t ++ post ∧ n = t.length ∧ (script hu).Stands ws pre t post
  complete : ∀ ws ∈ wss, ∀ pre t post, (script hu).Stands ws pre t post → (m pre (t ++ post)).isSome = true

theorem finds_of_accepts {hu : Letters u} {f : Pattern Char → Pattern Char} {L : Str → Prop} {wss : List (List Str)}
    (hf : Accepts f L) (hL : ∀ t, L t ↔ ∃ ws ∈ wss, (script hu).Phrase ws t) :
    Finds hu (boundary u (f (boundary u done))) wss := by
  constructor
  · intro pre rest n h
    obtain ⟨hstart, hn⟩ := here_eq_some.mp h
    obtain ⟨t, post, k, rfl, ht, hk, rfl⟩ := hf.sound _ _ _ _ hn
    obtain ⟨ws, hws, ht⟩ := (hL t).mp ht
    obtain ⟨hstop, hdone⟩ := here_eq_some.mp hk
    obtain rfl := Option.some.inj hdone
    rw [(wordBoundary_phrase hu ht pre post).1, Bool.not_eq_true'] at hstart
    rw [(wordBoundary_phrase hu ht pre post).2, Bool.not_eq_true'] at hstop
    exact ⟨ws, hws, t, post, rfl, rfl, ht, hstart, hstop⟩
  · intro ws hws pre t post h
    obtain ⟨ht, hstart, hstop⟩ := h
    refine isSome_here.mpr ⟨?_, hf.complete _ _ _ _ ((hL t).mpr ⟨ws, hws, ht⟩) (isSome_here.mpr ⟨?_, rfl⟩)⟩
    · rw [(wordBoundary_phrase hu ht pre post).1, Bool.not_eq_true']
      exact hstart
    · rw [(wordBoundary_phrase hu ht pre post).2, Bool.not_eq_true']
      exact hstop

theorem Finds.consumes {hu : Letters u} {m : Pattern Char} {wss : List (List Str)} (h : Finds hu m wss) :
    Consumes m := by
  constructor
  · intro pre
    by_contra hsome
    obtain ⟨n, hn⟩ := Option.ne_none_iff_exists'.mp hsome
    obtain ⟨ws, _, t, post, hnil, _, ht⟩ := h.sound _ _ _ hn
    exact ht.phrase.ne_nil (List.append_eq_nil_iff.mp hnil.symm).1
  · intro pre rest hzero
    obtain ⟨ws, _, t, post, _, hlen, ht⟩ := h.sound _ _ _ hzero
    exact ht.phrase.ne_nil (List.length_eq_zero_iff.mp hlen.symm)

theorem Finds.matches_in_text {hu : Letters u} {m : Pattern Char} {wss : List (List Str)} (h : Finds hu m wss) :
    Sound m := by
  intro pre rest n hn
  obtain ⟨ws, _, t, post, rfl, rfl, _⟩ := h.sound _ _ _ hn
  rw [List.length_append]
  exact Nat.le_add_right _ _

/-- A phrase of `wss` stands in the text. -/
def Mentions (hu : Letters u) (wss : List (List Str)) (text : Str) : Prop :=
  ∃ ws ∈ wss, (script hu).Occurs ws text

theorem Finds.search_iff {hu : Letters u} {m : Pattern Char} {wss : List (List Str)} (h : Finds hu m wss) (text : Str) :
    search m text = true ↔ Mentions hu wss text := by
  rw [Lib.Backtrack.search_iff h.consumes]
  constructor
  · intro hsearch
    obtain ⟨pre, rest, rfl, hsome⟩ := hsearch
    obtain ⟨n, hn⟩ := Option.isSome_iff_exists.mp hsome
    obtain ⟨ws, hws, t, post, rfl, _, ht⟩ := h.sound _ _ _ hn
    exact ⟨ws, hws, pre, t, post, rfl, ht⟩
  · intro hmention
    obtain ⟨ws, hws, pre, t, post, rfl, ht⟩ := hmention
    exact ⟨pre, t ++ post, rfl, h.complete ws hws pre t post ht⟩

theorem Mentions.not_blank {hu : Letters u} {wss : List (List Str)} {text : Str} (h : Mentions hu wss text) :
    (strip text).isEmpty = false := by
  obtain ⟨ws, _, pre, t, post, rfl, ht⟩ := h
  obtain ⟨k, c, s, rfl, hk⟩ := ht.phrase.cons
  have hspace := (script hu).separator k c hk
  rw [← Bool.not_eq_true]
  intro hblank
  have := strip_blank hblank c (by simp)
  rw [script, Bool.or_eq_false_iff, this] at hspace
  cases hspace.1

theorem Finds.search_blank {hu : Letters u} {m : Pattern Char} {wss : List (List Str)} (h : Finds hu m wss) {text : Str}
    (hblank : (strip text).isEmpty = true) : search m text = false := by
  rw [← Bool.not_eq_true, h.search_iff]
  intro hmention
  rw [hmention.not_blank] at hblank
  cases hblank

/-! ## The patterns -/

/-- What names a product. -/
def wordings : Domain → List (List Str)
  | .claudeCode => [["claude".toList, "code".toList]]
  | .claudeApi => [["claude".toList, "api".toList]]
  | .geminiApi => [["gemini".toList, "api".toList], ["gemini".toList]]
  | .codex => [["codex".toList]]
  | _ => []

theorem finds_words (hu : Letters u) {a b : String} (ha : a.toList.all isLowerAscii = true) (ha' : a.toList ≠ [])
    (hb : b.toList.all isLowerAscii = true) (hb' : b.toList ≠ []) :
    Finds hu (boundary u (lit a (spaces (lit b (boundary u done))))) [[a.toList, b.toList]] := by
  refine finds_of_accepts (accepts_words hu ha ha' hb hb') fun t => ?_
  simp only [List.mem_singleton, exists_eq_left]

theorem phrase_word_iff (hu : Letters u) {w t : Str} (hw : w ≠ []) :
    (script hu).Phrase [w] t ↔ (script hu).Writes w t := by
  constructor
  · intro h
    cases h with
    | word _ h => exact h
    | more _ _ _ _ hnil => cases hnil
  · exact .word hw

theorem finds_word (hu : Letters u) {w : String} (hw : w.toList.all isLowerAscii = true) (hw' : w.toList ≠ []) :
    Finds hu (boundary u (lit w (boundary u done))) [[w.toList]] := by
  refine finds_of_accepts (accepts_lit hu hw) fun t => ?_
  simp only [List.mem_singleton, exists_eq_left, phrase_word_iff hu hw']

theorem finds_gemini (hu : Letters u) : Finds hu (geminiRe u) (wordings .geminiApi) := by
  have hapi := ((accepts_spaces hu).comp (accepts_lit hu (w := "api") (by decide))).optional
  refine finds_of_accepts (f := fun next => lit "gemini" (either [spaces (lit "api" next), next]))
    ((accepts_lit hu (by decide)).comp hapi) fun t => ?_
  simp only [wordings, List.mem_cons, List.not_mem_nil, or_false, exists_eq_or_imp, exists_eq_left]
  constructor
  · intro h
    obtain ⟨x, y, rfl, hx, ⟨s, z, rfl, ⟨hs, hsep⟩, hz⟩ | rfl⟩ := h
    · exact .inl (.more (by decide) hx hs hsep (.word (by decide) hz))
    · rw [List.append_nil]
      exact .inr (.word (by decide) hx)
  · intro h
    rcases h with h | h
    · cases h with
      | more _ hx hs hsep hy =>
        exact ⟨_, _, rfl, hx, .inl ⟨_, _, rfl, ⟨hs, hsep⟩, (phrase_word_iff hu (by decide)).mp hy⟩⟩
    · exact ⟨t, [], (List.append_nil t).symm, (phrase_word_iff hu (by decide)).mp h, .inr rfl⟩

theorem finds_claudeCode (hu : Letters u) : Finds hu (claudeCodeRe u) (wordings .claudeCode) :=
  finds_words hu (by decide) (by decide) (by decide) (by decide)

theorem finds_claudeApi (hu : Letters u) : Finds hu (claudeApiRe u) (wordings .claudeApi) :=
  finds_words hu (by decide) (by decide) (by decide) (by decide)

theorem finds_codex (hu : Letters u) : Finds hu (codexRe u) (wordings .codex) := finds_word hu (by decide) (by decide)

theorem finds_claude (hu : Letters u) : Finds hu (claudeRe u) [["claude".toList]] :=
  finds_word hu (by decide) (by decide)

theorem finds_multihop (hu : Letters u) : ∀ p ∈ multihopPatterns u, Finds hu p.2 (wordings p.1) := by
  intro p hp
  simp only [multihopPatterns, List.mem_cons, List.not_mem_nil, or_false] at hp
  rcases hp with rfl | rfl | rfl | rfl
  · exact finds_claudeCode hu
  · exact finds_claudeApi hu
  · exact finds_gemini hu
  · exact finds_codex hu

/-! ## The product's own name -/

def citevynWords : List Str := ["citevyn".toList]

/-- The words of the aliases. -/
def aliasWords : List (List Str) :=
  ["citevin", "citewin", "sitevyn", "sitevin", "sitewin", "sightvyn", "sightvin", "sightwin"].map
    (fun w => [w.toList]) ++ ["cite", "site", "sight"].map fun w => [w.toList, "vyn".toList]

/-- Words with one separator between. -/
def atomsOf : List Str → List Atom
  | [] => []
  | [w] => w.map .char
  | w :: ws => w.map .char ++ .separator :: atomsOf ws

theorem aliases_atomsOf : citevynAliases.map atoms = aliasWords.map atomsOf := by decide +kernel

theorem aliasWords_lower : ∀ ws ∈ aliasWords, ws ≠ [] ∧ ∀ w ∈ ws, w ≠ [] ∧ w.all isLowerAscii = true := by decide +kernel

theorem spelled_append {ps qs : List (Char → Bool)} {t : Str} :
    spelled (ps ++ qs) t = true ↔ ∃ a b, t = a ++ b ∧ spelled ps a = true ∧ spelled qs b = true := by
  induction ps generalizing t with
  | nil =>
    constructor
    · intro h
      exact ⟨[], t, rfl, rfl, h⟩
    · intro h
      obtain ⟨a, b, rfl, ha, hb⟩ := h
      cases a with
      | nil => exact hb
      | cons c a => cases ha
  | cons p ps ih =>
    constructor
    · intro h
      cases t with
      | nil => cases h
      | cons c t =>
        obtain ⟨hc, h⟩ := Bool.and_eq_true_iff.mp h
        obtain ⟨a, b, rfl, ha, hb⟩ := ih.mp h
        exact ⟨c :: a, b, rfl, Bool.and_eq_true_iff.mpr ⟨hc, ha⟩, hb⟩
    · intro h
      obtain ⟨a, b, rfl, ha, hb⟩ := h
      cases a with
      | nil => cases ha
      | cons c a =>
        obtain ⟨hc, ha⟩ := Bool.and_eq_true_iff.mp ha
        exact Bool.and_eq_true_iff.mpr ⟨hc, ih.mpr ⟨a, b, rfl, ha, hb⟩⟩

theorem separates_separator (hu : Letters u) {c : Char} (h : isSeparator c = true) : (script hu).Separates [c] := by
  intro d hd
  obtain rfl := List.mem_singleton.mp hd
  simp only [isSeparator, Bool.or_eq_true, beq_iff_eq] at h
  rcases h with (rfl | rfl) | rfl <;> rfl

theorem map_matches (w : Str) : (w.map Atom.char).map Atom.matches = w.map eqIgnoreCase := List.map_map ..

theorem phrase_of_spelled (hu : Letters u) {ws : List Str} (hne : ws ≠ [])
    (hws : ∀ w ∈ ws, w ≠ [] ∧ w.all isLowerAscii = true) {t : Str}
    (h : spelled ((atomsOf ws).map Atom.matches) t = true) : (script hu).Phrase ws t := by
  induction ws generalizing t with
  | nil => exact absurd rfl hne
  | cons w ws ih =>
    obtain ⟨hw, hlower⟩ := hws w List.mem_cons_self
    cases ws with
    | nil =>
      rw [atomsOf, map_matches] at h
      exact .word hw ((writes_iff hu hlower t).mpr h)
    | cons v ws =>
      rw [atomsOf, List.map_append, map_matches] at h
      · obtain ⟨a, b, rfl, ha, hb⟩ := spelled_append.mp h
        cases b with
        | nil => cases hb
        | cons c b =>
          obtain ⟨hc, hb⟩ := Bool.and_eq_true_iff.mp hb
          have hrest := ih (List.cons_ne_nil v ws) (fun x hx => hws x (List.mem_cons_of_mem _ hx)) hb
          exact .more hw ((writes_iff hu hlower a).mpr ha) (List.cons_ne_nil c []) (separates_separator hu hc) hrest
      · exact List.cons_ne_nil v ws

theorem Reading.Canonical.stands (hu : Letters u) {p : Place} (h : (python u).Canonical p) :
    (script hu).Stands citevynWords p.before p.name p.after := by
  obtain ⟨hw, hbefore, hafter⟩ := h
  exact ⟨.word (by decide) ((writes_iff hu (by decide) _).mpr hw), hbefore, hafter⟩

theorem Reading.Alias.stands (hu : Letters u) {p : Place} (h : (python u).Alias p) :
    ∃ ws ∈ aliasWords, (script hu).Stands ws p.before p.name p.after := by
  obtain ⟨⟨s, hs, hw⟩, _⟩ := id h
  have hmem : atoms s ∈ aliasWords.map atomsOf := by
    rw [← aliases_atomsOf]
    exact List.mem_map_of_mem hs
  obtain ⟨ws, hws, heq⟩ := List.mem_map.mp hmem
  obtain ⟨hne, hlower⟩ := aliasWords_lower ws hws
  refine ⟨ws, hws, phrase_of_spelled hu hne hlower ?_, h.before, h.after⟩
  rw [heq]
  exact hw

end Spec

end CiteVyn.Guardrails
