import CiteVyn.Answer.Memory
import CiteVyn.Guardrails.Canonical

/-! # The seam of a follow-up

A question that leans on an earlier one is put behind it, with a space between. It is about what
the earlier one is about, unless the two make a name together that neither has: "claude" at the
end and "code" or "api" at the start, or the halves of an alias of the product's name. -/
namespace CiteVyn.Answer
open CiteVyn.Lib.Backtrack CiteVyn.Lib.Phrases CiteVyn.Lib.Scan CiteVyn.Text CiteVyn.Guardrails
open CiteVyn.Llm (foldingDatabase)

/-! ## Names across the seam -/

section Seam
variable (u : Unicode)

/-- The text starts with the word, and `p` holds of what is after it. -/
def startsWord (p : Str → Bool) (w s : Str) : Bool := literal w s && p (s.drop w.length)

/-- The word starts the text, separators aside. -/
def opensWith (w s : Str) : Bool :=
  startsWord (fun rest => !rest.head?.any u.isWord) w (s.dropWhile fun c => isSpace c || c == '-')

def firstWord (w : String) (s : Str) : Bool := opensWith u w.toList s

def lastWord (w : String) (s : Str) : Bool := opensWith u w.toList.reverse s.reverse

/-- "claude" ends the earlier question, and the word starts the later one. -/
def joinsClaude (w : String) (prior question : Str) : Bool := lastWord u "claude" prior && firstWord u w question

/-- An alias of two halves, one in each question. -/
def joinsAlias (prior question : Str) : Bool :=
  (["cite", "site", "sight"].any fun w =>
    startsWord (fun rest => !rest.head?.any (identifierChar u)) w.toList.reverse prior.reverse) &&
      startsWord (fun rest => !(rest.takeWhile (identifierChar u)).any u.isWord) "vyn".toList question

/-- No name made across the seam goes before the product. -/
def keepsDomain (domain : Domain) (name code api : Bool) : Bool :=
  match domain with
  | .citevyn => true
  | .claudeCode => !name
  | .claudeApi => !name && !code
  | _ => !name && !code && !api

/-- No name is made across the seam that goes before what the earlier question is about. -/
def seamless (prior question : Str) : Bool :=
  keepsDomain (classifyDomain u prior) (joinsAlias u prior question) (joinsClaude u "code" prior question)
    (joinsClaude u "api" prior question)

end Seam

section Spec
variable {u : Unicode}

/-- No separator is alphanumeric. -/
def Separators (u : Unicode) : Prop := ∀ c, (isSpace c || c == '-') = true → u.isAlnum c = false

theorem Separators.isWord (hs : Separators u) {c : Char} (h : (isSpace c || c == '-') = true) : u.isWord c = false := by
  rw [Unicode.isWord, hs c h, Bool.false_or]
  by_contra hc
  obtain rfl : c = '_' := by simpa using hc
  revert h
  decide

theorem literal_iff (w s : Str) : literal w s = true ↔ ∃ t r, s = t ++ r ∧ spelled (w.map eqIgnoreCase) t = true := by
  induction w generalizing s with
  | nil =>
    refine iff_of_true rfl ⟨[], s, rfl, rfl⟩
  | cons p w ih =>
    constructor
    · intro h
      cases s with
      | nil => cases h
      | cons c s =>
        obtain ⟨hc, h⟩ := Bool.and_eq_true_iff.mp h
        obtain ⟨t, r, rfl, ht⟩ := (ih s).mp h
        exact ⟨c :: t, r, rfl, Bool.and_eq_true_iff.mpr ⟨hc, ht⟩⟩
    · intro h
      obtain ⟨t, r, rfl, ht⟩ := h
      cases t with
      | nil => cases ht
      | cons c t =>
        obtain ⟨hc, ht⟩ := Bool.and_eq_true_iff.mp ht
        exact Bool.and_eq_true_iff.mpr ⟨hc, (ih _).mpr ⟨t, r, rfl, ht⟩⟩

theorem startsWord_iff (hu : Letters u) {w : Str} (hw : w.all isLowerAscii = true) (p : Str → Bool) (s : Str) :
    startsWord p w s = true ↔ ∃ t r, s = t ++ r ∧ (script hu).Writes w t ∧ p r = true := by
  rw [startsWord, Bool.and_eq_true, literal_iff]
  constructor
  · intro h
    obtain ⟨⟨t, r, rfl, ht⟩, hp⟩ := h
    have hwrites := (writes_iff hu hw t).mpr ht
    rw [hwrites.length_eq, List.drop_left] at hp
    exact ⟨t, r, rfl, hwrites, hp⟩
  · intro h
    obtain ⟨t, r, rfl, hwrites, hp⟩ := h
    refine ⟨⟨t, r, rfl, (writes_iff hu hw t).mp hwrites⟩, ?_⟩
    rwa [hwrites.length_eq, List.drop_left]

theorem opensWith_iff (hu : Letters u) {w : Str} (hw : w.all isLowerAscii = true) (hne : w ≠ []) (s : Str) :
    opensWith u w s = true ↔ (script hu).First [w] s := by
  rw [opensWith, startsWord_iff hu hw]
  constructor
  · intro h
    obtain ⟨t, r, hs, ht, hr⟩ := h
    refine ⟨s.takeWhile fun c => isSpace c || c == '-', t, r, ?_, ?_, .word hne ht, ?_⟩
    · rw [← hs, List.takeWhile_append_dropWhile]
    · exact fun c hc => List.all_eq_true.mp List.all_takeWhile c hc
    · rwa [Bool.not_eq_true'] at hr
  · intro h
    obtain ⟨sep, t, r, rfl, hsep, ht, hr⟩ := h
    refine ⟨t, r, ?_, (phrase_word_iff hu hne).mp ht, by rw [Bool.not_eq_true']; exact hr⟩
    obtain ⟨k, c, t, rfl, hk⟩ := ht.cons
    have hc : (isSpace c || c == '-') = false := (script hu).separator k c hk
    have hall : ∀ d ∈ sep, (isSpace d || d == '-') = true := hsep
    rw [List.dropWhile_append_of_pos hall, List.cons_append,
      List.dropWhile_cons_of_neg (by rw [hc]; exact Bool.false_ne_true)]

theorem firstWord_iff (hu : Letters u) {w : String} (hw : w.toList.all isLowerAscii = true) (hne : w.toList ≠ [])
    (s : Str) : firstWord u w s = true ↔ (script hu).First [w.toList] s := opensWith_iff hu hw hne s

theorem lastWord_iff (hu : Letters u) {w : String} (hw : w.toList.all isLowerAscii = true) (hne : w.toList ≠ [])
    (s : Str) : lastWord u w s = true ↔ (script hu).Last [w.toList] s := by
  have hne' : w.toList.reverse ≠ [] := by simpa using hne
  have hreverse {t : Str} : (script hu).Phrase [w.toList.reverse] t.reverse ↔ (script hu).Phrase [w.toList] t := by
    rw [phrase_word_iff hu hne', phrase_word_iff hu hne]
    exact List.forall₂_reverse_iff
  rw [lastWord, opensWith_iff hu (by rw [List.all_reverse]; exact hw) hne']
  constructor
  · intro h
    obtain ⟨sep, t, r, hs, hsep, ht, hr⟩ := h
    refine ⟨r, t.reverse, sep.reverse, ?_, ?_, hr, fun c hc => hsep c (List.mem_reverse.mp hc)⟩
    · rw [← List.reverse_reverse s, hs]
      simp
    · rw [← hreverse, List.reverse_reverse]
      exact ht
  · intro h
    obtain ⟨pre, t, sep, rfl, ht, hpre, hsep⟩ := h
    exact ⟨sep.reverse, t.reverse, pre, by simp, fun c hc => hsep c (List.mem_reverse.mp hc), hreverse.mpr ht, hpre⟩

/-! ## Phrases -/

/-- The text that `build_contextual_query` makes of two questions. -/
theorem mentions_across (hu : Letters u) (hs : Separators u) (wss : List (List Str)) (prior question : Str) :
    Mentions hu wss (prior ++ ' ' :: question) ↔ Mentions hu wss prior ∨ Mentions hu wss question ∨
      ∃ us vs, us ++ vs ∈ wss ∧ (script hu).Last us prior ∧ (script hu).First vs question := by
  have hspace : (script hu).isWord ' ' = false := hs.isWord rfl
  constructor
  · intro h
    obtain ⟨ws, hws, h⟩ := h
    rcases (Script.occurs_across rfl hspace).mp h with h | h | ⟨us, vs, rfl, hlast, hfirst⟩
    · exact .inl ⟨ws, hws, h⟩
    · exact .inr (.inl ⟨ws, hws, h⟩)
    · exact .inr (.inr ⟨us, vs, hws, hlast, hfirst⟩)
  · intro h
    rcases h with ⟨ws, hws, h⟩ | ⟨ws, hws, h⟩ | ⟨us, vs, hws, hlast, hfirst⟩
    · exact ⟨ws, hws, (Script.occurs_across rfl hspace).mpr (.inl h)⟩
    · exact ⟨ws, hws, (Script.occurs_across rfl hspace).mpr (.inr (.inl h))⟩
    · exact ⟨us ++ vs, hws, (Script.occurs_across rfl hspace).mpr (.inr (.inr ⟨us, vs, rfl, hlast, hfirst⟩))⟩

theorem two_words {α : Type*} {us vs : List α} {a b : α} (h : us ++ vs = [a, b]) (hu : us ≠ []) (hv : vs ≠ []) :
    us = [a] ∧ vs = [b] := by
  cases us with
  | nil => exact absurd rfl hu
  | cons x us =>
    obtain ⟨rfl, hrest⟩ := List.cons.inj h
    cases us with
    | nil => exact ⟨rfl, hrest⟩
    | cons y us =>
      obtain ⟨_, hnil⟩ := List.cons.inj hrest
      exact absurd (List.append_eq_nil_iff.mp hnil).2 hv

/-- A product of two words is named in one of the questions, or across the seam. -/
theorem search_two_words (hu : Letters u) (hs : Separators u) {m : Pattern Char} {a b : Str}
    (hm : Finds hu m [[a, b]]) (prior question : Str) :
    search m (prior ++ ' ' :: question) = true ↔ search m prior = true ∨ search m question = true ∨
      (script hu).Last [a] prior ∧ (script hu).First [b] question := by
  rw [hm.search_iff, hm.search_iff, hm.search_iff, mentions_across hu hs]
  refine or_congr_right (or_congr_right ⟨fun h => ?_, fun h => ⟨[a], [b], List.mem_singleton.mpr rfl, h⟩⟩)
  obtain ⟨us, vs, hmem, hlast, hfirst⟩ := h
  obtain ⟨rfl, rfl⟩ := two_words (List.mem_singleton.mp hmem) hlast.ne_nil hfirst.ne_nil
  exact ⟨hlast, hfirst⟩

/-- What is across the seam names nothing more than the earlier question does. -/
theorem search_kept (hu : Letters u) (hs : Separators u) {m : Pattern Char} {wss : List (List Str)} (hm : Finds hu m wss)
    (hwss : ∀ us vs, us ++ vs ∈ wss → us ≠ [] → vs ≠ [] → us ∈ wss) (prior question : Str) :
    search m (prior ++ ' ' :: question) = true ↔ search m prior = true ∨ search m question = true := by
  rw [hm.search_iff, hm.search_iff, hm.search_iff, mentions_across hu hs]
  constructor
  · intro h
    rcases h with h | h | ⟨us, vs, hmem, hlast, hfirst⟩
    · exact .inl h
    · exact .inr h
    · have hword : ∀ c, (script hu).isSeparator c = true → (script hu).isWord c = false := fun c hc => hs.isWord hc
      exact .inl ⟨us, hwss us vs hmem hlast.ne_nil hfirst.ne_nil, hlast.occurs hword⟩
  · intro h
    rcases h with h | h
    · exact .inl h
    · exact .inr (.inl h)

theorem one_word {α : Type*} {us vs : List α} {a : α} (h : us ++ vs = [a]) (hu : us ≠ []) (hv : vs ≠ []) : False := by
  have hlen := congrArg List.length h
  rw [List.length_append, List.length_singleton] at hlen
  have hu := List.length_pos_iff.mpr hu
  have hv := List.length_pos_iff.mpr hv
  omega

theorem search_one_word (hu : Letters u) (hs : Separators u) {m : Pattern Char} {a : Str} (hm : Finds hu m [[a]])
    (prior question : Str) :
    search m (prior ++ ' ' :: question) = true ↔ search m prior = true ∨ search m question = true :=
  search_kept hu hs hm (fun _ _ h hus hvs => (one_word (List.mem_singleton.mp h) hus hvs).elim) prior question

theorem search_gemini (hu : Letters u) (hs : Separators u) (prior question : Str) :
    search (geminiRe u) (prior ++ ' ' :: question) = true ↔
      search (geminiRe u) prior = true ∨ search (geminiRe u) question = true := by
  refine search_kept hu hs (finds_gemini hu) (fun us vs h hus hvs => ?_) prior question
  rcases List.mem_pair.mp h with h | h
  · obtain ⟨rfl, rfl⟩ := two_words h hus hvs
    exact List.mem_cons_of_mem _ List.mem_cons_self
  · exact (one_word h hus hvs).elim

/-! ## The product's own name -/

theorem takeWhile_before {p : Char → Bool} {c : Char} (hc : p c = false) (s r : Str) :
    (s ++ c :: r).takeWhile p = s.takeWhile p := by
  induction s with
  | nil => exact List.takeWhile_cons_of_neg (by rw [hc]; exact Bool.false_ne_true)
  | cons d s ih =>
    by_cases hd : p d = true
    · rw [List.cons_append, List.takeWhile_cons_of_pos hd, List.takeWhile_cons_of_pos hd, ih]
    · rw [List.cons_append, List.takeWhile_cons_of_neg hd, List.takeWhile_cons_of_neg hd]

theorem head_before {p : Char → Bool} {c : Char} (hc : p c = false) (s r : Str) :
    (s ++ c :: r).head?.any p = s.head?.any p := by
  cases s with
  | nil => exact hc
  | cons d s => rfl

/-- The halves of an alias. -/
def Halves (hu : Letters u) (x y : Str) : Prop :=
  ∃ w ∈ ["cite", "site", "sight"], (script hu).Writes w.toList x ∧ (script hu).Writes "vyn".toList y

theorem no_space (hu : Letters u) {w t : Str} (h : (script hu).Writes w t) : ' ' ∉ t := by
  intro hmem
  obtain ⟨k, hk⟩ := h.mem hmem
  have := (script hu).separator k ' ' hk
  cases this

theorem spelled_alias_across (hu : Letters u) (x y : Str) :
    (∃ s ∈ citevynAliases, spelled ((atoms s).map Atom.matches) (x ++ ' ' :: y) = true) ↔ Halves hu x y := by
  constructor
  · intro h
    obtain ⟨s, hs, h⟩ := h
    have hmem : atoms s ∈ aliasWords.map atomsOf := by
      rw [← aliases_atomsOf]
      exact List.mem_map_of_mem hs
    obtain ⟨ws, hws, heq⟩ := List.mem_map.mp hmem
    have hlower := (aliasWords_lower ws hws).2
    rw [← heq] at h
    rcases List.mem_append.mp hws with hws | hws
    · -- one word has no space in it
      obtain ⟨w, _, rfl⟩ := List.mem_map.mp hws
      rw [atomsOf, map_matches, ← writes_iff hu (hlower _ List.mem_cons_self).2] at h
      exact absurd (by simp) (no_space hu h)
    · obtain ⟨w, hw, rfl⟩ := List.mem_map.mp hws
      rw [atomsOf, List.map_append, map_matches] at h
      · obtain ⟨a, b, hab, ha, hb⟩ := spelled_append.mp h
        cases b with
        | nil => cases hb
        | cons c b =>
          obtain ⟨_, hb⟩ := Bool.and_eq_true_iff.mp hb
          rw [atomsOf, map_matches, ← writes_iff hu (by decide)] at hb
          rw [← writes_iff hu (hlower _ List.mem_cons_self).2] at ha
          obtain ⟨rfl, _, rfl⟩ := (List.append_cons_inj_of_notMem (no_space hu ha) (no_space hu hb)).mp hab.symm
          exact ⟨w, hw, ha, hb⟩
      · exact List.cons_ne_nil _ _
  · intro h
    obtain ⟨w, hw, hx, hy⟩ := h
    have hws : [w.toList, "vyn".toList] ∈ aliasWords := List.mem_append_right _ (List.mem_map_of_mem hw)
    have hlower := (aliasWords_lower _ hws).2
    have hmem : atomsOf [w.toList, "vyn".toList] ∈ citevynAliases.map atoms := by
      rw [aliases_atomsOf]
      exact List.mem_map_of_mem hws
    obtain ⟨s, hs, heq⟩ := List.mem_map.mp hmem
    refine ⟨s, hs, ?_⟩
    rw [heq, atomsOf, List.map_append, map_matches]
    · refine spelled_append.mpr ⟨x, ' ' :: y, rfl, (writes_iff hu (hlower _ List.mem_cons_self).2 x).mp hx, ?_⟩
      rw [List.map_cons, atomsOf, map_matches, spelled, (writes_iff hu (by decide) y).mp hy]
      rfl
    · exact List.cons_ne_nil _ _

theorem joinsAlias_iff (hu : Letters u) (prior question : Str) :
    joinsAlias u prior question = true ↔ ∃ pre x y post : Str, prior = pre.reverse ++ x ∧ question = y ++ post ∧
      Halves hu x y ∧ pre.head?.any (python u).identifier = false ∧
        (post.takeWhile (python u).identifier).any u.isWord = false := by
  have hlower : ∀ w ∈ ["cite", "site", "sight"], w.toList.reverse.all isLowerAscii = true := by decide
  rw [joinsAlias, Bool.and_eq_true, List.any_eq_true, startsWord_iff hu (by decide)]
  constructor
  · intro h
    obtain ⟨⟨w, hw, hstart⟩, y, post, rfl, hy, hpost⟩ := h
    obtain ⟨x, pre, hprior, hx, hpre⟩ := (startsWord_iff hu (hlower w hw) _ _).mp hstart
    rw [Bool.not_eq_true'] at hpre hpost
    refine ⟨pre, x.reverse, y, post, ?_, rfl, ⟨w, hw, ?_, hy⟩, hpre, hpost⟩
    · rw [← List.reverse_append, ← hprior, List.reverse_reverse]
    · rw [← List.reverse_reverse w.toList]
      exact List.forall₂_reverse_iff.mpr hx
  · intro h
    obtain ⟨pre, x, y, post, rfl, rfl, ⟨w, hw, hx, hy⟩, hpre, hpost⟩ := h
    refine ⟨⟨w, hw, (startsWord_iff hu (hlower w hw) _ _).mpr ⟨x.reverse, pre, ?_, ?_, ?_⟩⟩, y, post, rfl, hy, ?_⟩
    · rw [List.reverse_append, List.reverse_reverse]
    · exact List.forall₂_reverse_iff.mpr hx
    · rw [Bool.not_eq_true']
      exact hpre
    · rw [Bool.not_eq_true']
      exact hpost

/-- The name is in one of the questions, or an alias is made across the seam. -/
theorem names_across (hu : Letters u) (hs : Separators u) (prior question : Str) :
    search (citevynRe u) (prior ++ ' ' :: question) = true ↔ search (citevynRe u) prior = true ∨
      search (citevynRe u) question = true ∨ joinsAlias u prior question = true := by
  have hword : u.isWord ' ' = false := hs.isWord rfl
  have hident : (python u).identifier ' ' = false := by
    rw [Reading.identifier]
    exact Bool.or_eq_false_iff.mpr ⟨hword, rfl⟩
  rw [search_citevynRe hu, search_citevynRe hu, search_citevynRe hu, joinsAlias_iff hu]
  constructor
  · intro h
    obtain ⟨⟨pre, w, post⟩, htext, hname⟩ := h
    rw [Place.text, List.append_assoc] at htext
    rcases part_cases htext with ⟨s, rfl, rfl⟩ | ⟨s, rfl, rfl⟩ | ⟨x, y, rfl, rfl, rfl⟩
    · refine .inl ⟨⟨pre, w, s⟩, List.append_assoc .., hname.alike ⟨rfl, rfl⟩ (head_before hword s _) ?_⟩
      rw [takeWhile_before hident]
    · exact .inr (.inl ⟨⟨s, w, post⟩, List.append_assoc ..,
        hname.alike ⟨head_before hword s _, head_before hident s _⟩ rfl rfl⟩)
    · rcases hname with ⟨hw, _⟩ | ⟨hw, hbefore, hafter⟩
      · have hwrites := (writes_iff hu (w := "citevyn".toList) (by decide) _).mpr hw
        exact absurd (by simp) (no_space hu hwrites)
      · exact .inr (.inr ⟨pre, x, y, post, rfl, rfl, (spelled_alias_across hu x y).mp hw, hbefore, hafter⟩)
  · intro h
    rcases h with ⟨⟨pre, w, post⟩, rfl, hname⟩ | ⟨⟨pre, w, post⟩, rfl, hname⟩ |
      ⟨pre, x, y, post, rfl, rfl, hw, hpre, hpost⟩
    · refine ⟨⟨pre, w, post ++ ' ' :: question⟩, by simp [Place.text], hname.alike ⟨rfl, rfl⟩ ?_ ?_⟩
      · exact (head_before hword post _).symm
      · rw [takeWhile_before hident]
    · refine ⟨⟨pre ++ ' ' :: prior.reverse, w, post⟩, by simp [Place.text], hname.alike ⟨?_, ?_⟩ rfl rfl⟩
      · exact (head_before hword pre _).symm
      · exact (head_before hident pre _).symm
    · exact ⟨⟨pre, x ++ ' ' :: y, post⟩, by simp [Place.text], .inr ⟨(spelled_alias_across hu x y).mpr hw, hpre, hpost⟩⟩

/-! ## What a follow-up is about -/

/-- The first of the patterns, from which of them match. -/
def firstOf (citevyn code api gemini codex claude : Bool) : Domain :=
  if citevyn then .citevyn
  else if code then .claudeCode
  else if api then .claudeApi
  else if gemini then .geminiApi
  else if codex then .codex
  else if claude then .claudeApi
  else .unsupported

theorem firstOf_unsupported (citevyn code api gemini codex claude : Bool) :
    firstOf citevyn code api gemini codex claude = .unsupported ↔
      citevyn = false ∧ code = false ∧ api = false ∧ gemini = false ∧ codex = false ∧ claude = false := by
  revert citevyn code api gemini codex claude
  decide

/-- Names made across the seam come first where they go before. -/
theorem firstOf_joined (citevyn code api gemini codex claude name code' api' : Bool)
    (h : firstOf citevyn code api gemini codex claude ≠ .unsupported) :
    firstOf (citevyn || name) (code || code') (api || api') gemini codex claude =
      firstOf citevyn code api gemini codex claude ↔
        keepsDomain (firstOf citevyn code api gemini codex claude) name code' api' = true := by
  revert citevyn code api gemini codex claude name code' api'
  decide +kernel

theorem classifyDomain_firstOf (hu : Letters u) (question : Str) :
    classifyDomain u question = firstOf (search (citevynRe u) question) (search (claudeCodeRe u) question)
      (search (claudeApiRe u) question) (search (geminiRe u) question) (search (codexRe u) question)
      (search (claudeRe u) question) := by
  by_cases hblank : (strip question).isEmpty = true
  · have hdomain : classifyDomain u question = .unsupported := by rw [classifyDomain, if_pos hblank]
    have hcitevyn : search (citevynRe u) question = false := by
      rw [← Bool.not_eq_true, ← classifyDomain_search hu, hdomain]
      decide
    rw [hdomain, hcitevyn, (finds_claudeCode hu).search_blank hblank, (finds_claudeApi hu).search_blank hblank,
      (finds_gemini hu).search_blank hblank, (finds_codex hu).search_blank hblank, (finds_claude hu).search_blank hblank]
    rfl
  · rw [classifyDomain, if_neg hblank, patterns]
    simp only [List.find?_cons, List.find?_nil, firstOf]
    cases search (citevynRe u) question with
    | true => rfl
    | false =>
      cases search (claudeCodeRe u) question with
      | true => rfl
      | false =>
        cases search (claudeApiRe u) question with
        | true => rfl
        | false =>
          cases search (geminiRe u) question with
          | true => rfl
          | false =>
            cases search (codexRe u) question with
            | true => rfl
            | false => cases search (claudeRe u) question <;> rfl

theorem search_claude_across (hu : Letters u) (hs : Separators u) {m : Pattern Char} {w : String}
    (hw : w.toList.all isLowerAscii = true) (hne : w.toList ≠ []) (hm : Finds hu m [["claude".toList, w.toList]])
    (prior : Str) {question : Str} (hquestion : search m question = false) :
    search m (prior ++ ' ' :: question) = (search m prior || joinsClaude u w prior question) := by
  rw [Bool.eq_iff_iff, search_two_words hu hs hm, hquestion, Bool.or_eq_true, joinsClaude, Bool.and_eq_true,
    lastWord_iff hu (by decide) (by decide), firstWord_iff hu hw hne]
  exact or_congr_right (or_iff_right Bool.false_ne_true)

theorem seamless_iff (hu : Letters u) (hs : Separators u) {prior question : Str}
    (hprior : classifyDomain u prior ≠ .unsupported) (hquestion : classifyDomain u question = .unsupported) :
    classifyDomain u (prior ++ [' '] ++ question) = classifyDomain u prior ↔ seamless u prior question = true := by
  rw [classifyDomain_firstOf hu, firstOf_unsupported] at hquestion
  obtain ⟨hcitevyn, hcode, hapi, hgemini, hcodex, hclaude⟩ := hquestion
  have hseam : prior ++ [' '] ++ question = prior ++ ' ' :: question := by simp
  have hcitevyn' : search (citevynRe u) (prior ++ ' ' :: question) =
      (search (citevynRe u) prior || joinsAlias u prior question) := by
    rw [Bool.eq_iff_iff, names_across hu hs, hcitevyn, Bool.or_eq_true]
    exact or_congr_right (or_iff_right Bool.false_ne_true)
  have hsame {m : Pattern Char} (hm : search m question = false)
      (h : search m (prior ++ ' ' :: question) = true ↔ search m prior = true ∨ search m question = true) :
      search m (prior ++ ' ' :: question) = search m prior := by
    rw [Bool.eq_iff_iff, h, hm]
    exact or_iff_left Bool.false_ne_true
  rw [seamless, hseam, classifyDomain_firstOf hu (prior ++ ' ' :: question), hcitevyn',
    search_claude_across hu hs (by decide) (by decide) (finds_claudeCode hu) prior hcode,
    search_claude_across hu hs (by decide) (by decide) (finds_claudeApi hu) prior hapi,
    hsame hgemini (search_gemini hu hs prior question),
    hsame hcodex (search_one_word hu hs (finds_codex hu) prior question),
    hsame hclaude (search_one_word hu hs (finds_claude hu) prior question), classifyDomain_firstOf hu prior]
  rw [classifyDomain_firstOf hu] at hprior
  exact firstOf_joined _ _ _ _ _ _ _ _ _ hprior

/-- **A follow-up is about what the question it follows is about** exactly when the two make no
name across the seam that goes before. -/
theorem buildContextualQuery_keeps_iff (hu : Letters u) (hs : Separators u) (question : Str)
    (priorUserQuestions : List Str) (h : buildContextualQuery u question priorUserQuestions ≠ question) :
    ∃ later prior earlier, priorUserQuestions = later ++ prior :: earlier ∧
      (∀ q ∈ later, classifyDomain u q = .unsupported) ∧ classifyDomain u prior ≠ .unsupported ∧
        (classifyDomain u (buildContextualQuery u question priorUserQuestions) = classifyDomain u prior ↔
          seamless u prior question = true) := by
  unfold buildContextualQuery at h ⊢
  split at h
  · exact absurd rfl h
  · rename_i hquestion
    split at h
    · exact absurd rfl h
    · rename_i hfollowup
      rw [if_neg hquestion, if_neg hfollowup]
      cases hfind : priorUserQuestions.find? fun prior => classifyDomain u prior != .unsupported with
      | none =>
        rw [hfind] at h
        exact absurd rfl h
      | some prior =>
        obtain ⟨hprior, later, earlier, rfl, hlater⟩ := List.find?_eq_some_iff_append.mp hfind
        have hprior : classifyDomain u prior ≠ .unsupported := by simpa using hprior
        have hquestion : classifyDomain u question = .unsupported := by simpa using hquestion
        exact ⟨later, prior, earlier, rfl, by simpa using hlater, hprior, seamless_iff hu hs hprior hquestion⟩

theorem separators_folding : Separators foldingDatabase := by
  intro c hc
  by_contra halnum
  simp only [foldingDatabase, Bool.not_eq_false, Bool.or_eq_true, beq_iff_eq] at halnum hc
  rcases halnum with hletter | hdigit
  · rw [isSpace_letter hletter] at hc
    obtain rfl := hc.resolve_left Bool.false_ne_true
    revert hletter
    decide
  · simp only [isAsciiDigit, Bool.and_eq_true, decide_eq_true_eq, Char.le_def] at hdigit
    obtain ⟨hlow, hhigh⟩ : 48 ≤ c.toNat ∧ c.toNat ≤ 57 := hdigit
    have hchar : c = Char.ofNat c.toNat := (Char.ofNat_toNat c).symm
    generalize c.toNat = n at hlow hhigh hchar
    subst hchar
    revert hc
    interval_cases n <;> decide

theorem buildContextualQuery_keeps_codex :
    classifyDomain foldingDatabase
        (buildContextualQuery foldingDatabase "and how much does it cost?".toList ["What is Codex?".toList]) =
      classifyDomain foldingDatabase "What is Codex?".toList := by
  have hrewritten : buildContextualQuery foldingDatabase "and how much does it cost?".toList ["What is Codex?".toList] ≠
      "and how much does it cost?".toList := by decide +kernel
  obtain ⟨later, prior, earlier, hpriors, _, _, hiff⟩ :=
    buildContextualQuery_keeps_iff letters_folding separators_folding _ _ hrewritten
  obtain rfl : prior = "What is Codex?".toList := by
    have hmem : prior ∈ ["What is Codex?".toList] := by
      rw [hpriors]
      exact List.mem_append_right _ List.mem_cons_self
    exact List.mem_singleton.mp hmem
  exact hiff.mpr (by decide +kernel)

/-- The earlier question ends in "Claude" and the later one starts with "code". -/
theorem buildContextualQuery_seam :
    buildContextualQuery foldingDatabase "code for that?".toList ["How do I sign in to Claude".toList] =
        "How do I sign in to Claude code for that?".toList ∧
      classifyDomain foldingDatabase "How do I sign in to Claude".toList = .claudeApi ∧
      classifyDomain foldingDatabase "How do I sign in to Claude code for that?".toList = .claudeCode := by
  decide +kernel

end Spec

end CiteVyn.Answer
