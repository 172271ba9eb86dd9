import CiteVyn.Answer.Orchestrator
import CiteVyn.Lib.Backtrack
import CiteVyn.Text.Case
import Mathlib.Data.List.Forall2

/-! # The domain of a question

`classify_domain` of `app/guardrails/domain.py`: the first pattern that matches somewhere in
the question, in which the product's own name comes first. What counts as that name is also
said without a pattern, for any reading of its classes of characters. -/
namespace CiteVyn.Guardrails
open CiteVyn.Lib.Backtrack CiteVyn.Lib.Scan CiteVyn.Text CiteVyn.Answer

/-! ## The aliases -/

/-- One place of an alias: a character, or `[ \t-]`. -/
inductive Atom where
  | char (c : Char)
  | separator
  deriving DecidableEq

/-- The places of an alias, from its source. -/
def atoms : Str → List Atom
  | '[' :: ' ' :: '\\' :: 't' :: '-' :: ']' :: s => .separator :: atoms s
  | c :: s => .char c :: atoms s
  | [] => []

/-- The places of the name itself. -/
def citevyn : List Atom := atoms "citevyn".toList

/-- `_CITEVYN_ALIASES` -/
def citevynAliases : List Str :=
  ["citevin", "citewin", "sitevyn", "sitevin", "sitewin", "sightvyn", "sightvin", "sightwin", "cite[ \\t-]vyn",
    "site[ \\t-]vyn", "sight[ \\t-]vyn"].map String.toList

/-- `[./@:=-]` -/
def isMark (c : Char) : Bool := "./@:=-".toList.contains c

/-- `[ \t-]` -/
def isSeparator (c : Char) : Bool := c == ' ' || c == '\t' || c == '-'

/-! ## The patterns -/

section Patterns
variable (u : Unicode)

/-- An alias's place under `re.IGNORECASE`. -/
def Atom.matches : Atom → Char → Bool
  | .char p => eqIgnoreCase p
  | .separator => isSeparator

/-- A literal under `re.IGNORECASE`. -/
def lit (w : String) (next : Pattern Char) : Pattern Char := spell (w.toList.map eqIgnoreCase) next

/-- `\b` -/
def boundary (next : Pattern Char) : Pattern Char := here u.wordBoundary next

/-- `[\w./@:=-]` -/
def identifierChar (c : Char) : Bool := u.isWord c || isMark c

/-- `_IDENTIFIER_GUARD_BEFORE` -/
def identifierGuardBefore (next : Pattern Char) : Pattern Char :=
  here (fun pre _ => !pre.head?.any (identifierChar u)) next

/-- `_IDENTIFIER_GUARD_AFTER` -/
def identifierGuardAfter (next : Pattern Char) : Pattern Char :=
  notAhead (many (identifierChar u) 0 (one u.isWord done)) next

/-- `_CITEVYN_RE` -/
def citevynRe : Pattern Char :=
  either [
    boundary u (spell (citevyn.map Atom.matches) (boundary u done)),
    identifierGuardBefore u (boundary u (either (citevynAliases.map fun s =>
      spell ((atoms s).map Atom.matches) (boundary u (identifierGuardAfter u done)))))]

/-- `[\s-]+` -/
def spaces (next : Pattern Char) : Pattern Char := many (fun c => isSpace c || c == '-') 1 next

/-- `\bclaude[\s-]+code\b` -/
def claudeCodeRe : Pattern Char := boundary u (lit "claude" (spaces (lit "code" (boundary u done))))

/-- `\bclaude[\s-]+api\b` -/
def claudeApiRe : Pattern Char := boundary u (lit "claude" (spaces (lit "api" (boundary u done))))

/-- `\bgemini(?:[\s-]+api)?\b` -/
def geminiRe : Pattern Char :=
  boundary u (lit "gemini" (either [spaces (lit "api" (boundary u done)), boundary u done]))

/-- `\bcodex\b` -/
def codexRe : Pattern Char := boundary u (lit "codex" (boundary u done))

/-- `\bclaude\b` -/
def claudeRe : Pattern Char := boundary u (lit "claude" (boundary u done))

/-- `_PATTERNS` -/
def patterns : List (Domain × Pattern Char) :=
  [(.citevyn, citevynRe u), (.claudeCode, claudeCodeRe u), (.claudeApi, claudeApiRe u), (.geminiApi, geminiRe u),
    (.codex, codexRe u), (.claudeApi, claudeRe u)]

/-- `classify_domain` -/
def classifyDomain (question : Str) : Domain :=
  if (strip question).isEmpty then .unsupported
  else ((patterns u).find? fun p => search p.2 question).elim .unsupported Prod.fst

end Patterns

/-! ## The product's name in a text -/

/-- How the name's pattern reads its classes of characters. -/
structure Reading where
  word : Char → Bool
  atom : Atom → Char → Bool

/-- A part of a text, with what is before it, nearest first, and what is after it. -/
structure Place where
  before : Str
  name : Str
  after : Str

def Place.text (p : Place) : Str := p.before.reverse ++ p.name ++ p.after

namespace Reading
variable (r : Reading)

def identifier (c : Char) : Bool := r.word c || isMark c

/-- The name itself, in no longer word. -/
def Canonical (p : Place) : Prop :=
  spelled (citevyn.map r.atom) p.name = true ∧ p.before.head?.any r.word = false ∧ p.after.head?.any r.word = false

/-- An alias that is no part of an identifier. -/
def Alias (p : Place) : Prop :=
  (∃ s ∈ citevynAliases, spelled ((atoms s).map r.atom) p.name = true) ∧
    p.before.head?.any r.identifier = false ∧ (p.after.takeWhile r.identifier).any r.word = false

def Names (p : Place) : Prop := r.Canonical p ∨ r.Alias p

variable {r}

theorem identifier_of_word {c : Char} (h : r.word c = true) : r.identifier c = true := by
  rw [identifier, h, Bool.true_or]

theorem Alias.before {p : Place} (h : r.Alias p) : p.before.head?.any r.word = false := by
  obtain ⟨_, hbefore, _⟩ := h
  cases hhead : p.before.head? with
  | none => rfl
  | some c =>
    rw [hhead] at hbefore
    exact (Bool.or_eq_false_iff.mp hbefore).1

theorem Alias.after {p : Place} (h : r.Alias p) : p.after.head?.any r.word = false := by
  obtain ⟨_, _, hafter⟩ := h
  cases hs : p.after with
  | nil => rfl
  | cons c s =>
    rw [hs] at hafter
    by_contra hword
    have hc : r.word c = true := by simpa using hword
    rw [List.takeWhile_cons_of_pos (identifier_of_word hc), List.any_cons, hc] at hafter
    cases hafter

/-- An identifier goes on after a name if a word does after its punctuation. -/
theorem any_takeWhile_identifier (hr : ∀ c, isMark c = true → r.word c = false) (s : Str) :
    (s.takeWhile r.identifier).any r.word = (s.dropWhile isMark).head?.any r.word := by
  induction s with
  | nil => rfl
  | cons c s ih =>
    by_cases hc : isMark c = true
    · rw [List.takeWhile_cons_of_pos (by rw [identifier, hc, Bool.or_true]), List.any_cons, hr c hc, Bool.false_or,
        List.dropWhile_cons_of_pos hc, ih]
    · rw [List.dropWhile_cons_of_neg hc]
      show _ = r.word c
      by_cases hword : r.word c = true
      · rw [List.takeWhile_cons_of_pos (identifier_of_word hword), List.any_cons, hword, Bool.true_or]
      · rw [List.takeWhile_cons_of_neg (by simp [identifier, hword, hc])]
        simpa using hword

end Reading

/-- The backend's reading. -/
def python (u : Unicode) : Reading where
  word := u.isWord
  atom := Atom.matches

/-- The letters that stand for ASCII ones are letters. -/
def Letters (u : Unicode) : Prop := ∀ c, isLetterIgnoreCase c = true → u.isAlnum c = true

def Atom.isLetter : Atom → Bool
  | .char c => isLowerAscii c
  | .separator => false

/-- A letter comes first and last. -/
def isFramed (as : List Atom) : Bool := as.head?.any Atom.isLetter && as.getLast?.any Atom.isLetter

theorem citevyn_framed : isFramed citevyn = true := by decide +kernel

theorem aliases_framed : ∀ s ∈ citevynAliases, isFramed (atoms s) = true := by decide +kernel

section Spec
variable {u : Unicode}

theorem isWord_of_matches (hu : Letters u) {a : Atom} {c : Char} (ha : a.isLetter = true)
    (h : a.matches c = true) : u.isWord c = true := by
  cases a with
  | char p => exact Bool.or_eq_true_iff.mpr (.inl (hu c (eqIgnoreCase_letter ha h)))
  | separator => cases ha

theorem head_isWord (hu : Letters u) {as : List Atom} {w : Str} (ha : as.head?.any Atom.isLetter = true)
    (h : List.Forall₂ (fun a c => Atom.matches a c = true) as w) (s : Str) : (w ++ s).head?.any u.isWord = true := by
  cases h with
  | nil => cases ha
  | cons hac _ => exact isWord_of_matches hu ha hac

/-- A name is a word's end at both sides, wherever no word goes on. -/
theorem wordBoundary_name (hu : Letters u) {as : List Atom} {w : Str} (ha : isFramed as = true)
    (h : spelled (as.map Atom.matches) w = true) (pre s : Str) :
    u.wordBoundary pre (w ++ s) = !pre.head?.any u.isWord ∧
      u.wordBoundary (w.reverse ++ pre) s = !s.head?.any u.isWord := by
  obtain ⟨hhead, hlast⟩ := Bool.and_eq_true_iff.mp ha
  have hspelled := spelled_map_iff.mp h
  have hstart := head_isWord hu hhead hspelled s
  have hstop := head_isWord hu (by rw [List.head?_reverse]; exact hlast) (List.forall₂_reverse_iff.mpr hspelled) pre
  unfold Unicode.wordBoundary
  rw [hstart, hstop]
  constructor
  · cases pre.head?.any u.isWord <;> rfl
  · cases s.head?.any u.isWord <;> rfl

theorem consumes_of_framed {as : List Atom} (h : isFramed as = true) (f : Atom → Char → Bool) (next : Pattern Char) :
    Consumes (spell (as.map f) next) := by
  refine .spell (fun hnil => ?_) next
  rw [List.map_eq_nil_iff] at hnil
  subst hnil
  cases h

theorem citevynRe_consumes (u : Unicode) : Consumes (citevynRe u) := by
  refine Consumes.either fun m hm => ?_
  rcases List.mem_pair.mp hm with rfl | rfl
  · exact (consumes_of_framed citevyn_framed _ _).here _
  · refine ((Consumes.either fun m hm => ?_).here _).here _
    obtain ⟨s, hs, rfl⟩ := List.mem_map.mp hm
    exact consumes_of_framed (aliases_framed s hs) _ _

theorem isSome_identifierGuardAfter (u : Unicode) (next : Pattern Char) (pre rest : Str) :
    (identifierGuardAfter u next pre rest).isSome = true ↔
      (rest.takeWhile (identifierChar u)).any u.isWord = false ∧ (next pre rest).isSome = true := by
  rw [identifierGuardAfter, isSome_notAhead, isSome_many_one fun c hc => by rw [identifierChar, hc, Bool.true_or]]

/-- A name up to a word boundary, with what is to follow it. -/
theorem isSome_name (hu : Letters u) {as : List Atom} (ha : isFramed as = true) {next : Pattern Char}
    {pre rest : Str} :
    (spell (as.map Atom.matches) (boundary u next) pre rest).isSome = true ↔
      ∃ w s, rest = w ++ s ∧ spelled (as.map Atom.matches) w = true ∧ s.head?.any u.isWord = false ∧
        (next (w.reverse ++ pre) s).isSome = true := by
  rw [isSome_spell]
  refine exists₂_congr fun w s => and_congr_right fun _ => and_congr_right fun hw => ?_
  rw [boundary, isSome_here, (wordBoundary_name hu ha hw pre s).2, Bool.not_eq_true']

/-- What the name's pattern takes is a name. -/
theorem citevynRe_sound (hu : Letters u) {pre rest : Str} {n : Nat} (h : citevynRe u pre rest = some n) :
    ∃ w s, rest = w ++ s ∧ n = w.length ∧ (python u).Names ⟨pre, w, s⟩ := by
  obtain ⟨m, hm, hn⟩ := List.exists_of_findSome?_eq_some h
  rcases List.mem_pair.mp hm with rfl | rfl
  · obtain ⟨hstart, hn⟩ := here_eq_some.mp hn
    obtain ⟨w, s, k, rfl, hw, hk, rfl⟩ := (Accepts.spell _).sound _ _ _ _ hn
    obtain ⟨hstop, hk⟩ := here_eq_some.mp hk
    obtain rfl := Option.some.inj hk
    rw [(wordBoundary_name hu citevyn_framed hw pre s).1, Bool.not_eq_true'] at hstart
    rw [(wordBoundary_name hu citevyn_framed hw pre s).2, Bool.not_eq_true'] at hstop
    exact ⟨w, s, rfl, rfl, .inl ⟨hw, hstart, hstop⟩⟩
  · obtain ⟨hbefore, hn⟩ := here_eq_some.mp hn
    obtain ⟨_, hn⟩ := here_eq_some.mp hn
    obtain ⟨m, hm, hn⟩ := List.exists_of_findSome?_eq_some hn
    obtain ⟨spelling, hspelling, rfl⟩ := List.mem_map.mp hm
    obtain ⟨w, s, k, rfl, hw, hk, rfl⟩ := (Accepts.spell _).sound _ _ _ _ hn
    obtain ⟨_, hk⟩ := here_eq_some.mp hk
    obtain ⟨hafter, _⟩ := (isSome_identifierGuardAfter u _ _ _).mp (by rw [hk]; rfl)
    rw [identifierGuardAfter, notAhead, here_eq_some] at hk
    obtain rfl := Option.some.inj hk.2
    rw [Bool.not_eq_true'] at hbefore
    exact ⟨w, s, rfl, rfl, .inr ⟨⟨spelling, hspelling, hw⟩, hbefore, hafter⟩⟩

theorem citevynRe_complete (hu : Letters u) {p : Place} (h : (python u).Names p) :
    (citevynRe u p.before (p.name ++ p.after)).isSome = true := by
  obtain ⟨pre, w, s⟩ := p
  rcases h with ⟨hw, hbefore, hafter⟩ | h
  · refine isSome_either.mpr ⟨_, List.mem_pair.mpr (.inl rfl), isSome_here.mpr ⟨?_, ?_⟩⟩
    · rw [(wordBoundary_name hu citevyn_framed hw pre s).1, Bool.not_eq_true']
      exact hbefore
    · exact (isSome_name hu citevyn_framed).mpr ⟨w, s, rfl, hw, hafter, rfl⟩
  · obtain ⟨⟨spelling, hspelling, hw⟩, hbefore, hafter⟩ := id h
    have hframed := aliases_framed spelling hspelling
    refine isSome_either.mpr ⟨_, List.mem_pair.mpr (.inr rfl),
      isSome_here.mpr ⟨?_, isSome_here.mpr ⟨?_, isSome_either.mpr ?_⟩⟩⟩
    · rw [Bool.not_eq_true']
      exact hbefore
    · rw [(wordBoundary_name hu hframed hw pre s).1, Bool.not_eq_true']
      exact h.before
    · refine ⟨_, List.mem_map.mpr ⟨spelling, hspelling, rfl⟩, (isSome_name hu hframed).mpr ⟨w, s, rfl, hw, h.after, ?_⟩⟩
      exact (isSome_identifierGuardAfter u _ _ _).mpr ⟨hafter, rfl⟩

/-- The name's pattern matches the names, and nothing else. -/
theorem search_citevynRe (hu : Letters u) (text : Str) :
    search (citevynRe u) text = true ↔ ∃ p, p.text = text ∧ (python u).Names p := by
  rw [search_iff (citevynRe_consumes u)]
  constructor
  · intro h
    obtain ⟨pre, rest, rfl, hsome⟩ := h
    obtain ⟨n, hn⟩ := Option.isSome_iff_exists.mp hsome
    obtain ⟨w, s, rfl, _, hw⟩ := citevynRe_sound hu hn
    exact ⟨⟨pre, w, s⟩, List.append_assoc .., hw⟩
  · intro h
    obtain ⟨p, rfl, hp⟩ := h
    exact ⟨p.before, p.name ++ p.after, List.append_assoc .., citevynRe_complete hu hp⟩

theorem strip_blank {s : Str} (h : (strip s).isEmpty = true) : ∀ c ∈ s, isSpace c = true := by
  have hright : ∀ c ∈ lstrip s, isSpace c = true := by
    intro c hc
    have hnil := List.isEmpty_iff.mp h
    rw [strip, rstrip, List.reverse_eq_nil_iff, List.dropWhile_eq_nil_iff] at hnil
    exact hnil c (List.mem_reverse.mpr hc)
  intro c hc
  rw [← List.takeWhile_append_dropWhile (p := isSpace) (l := s)] at hc
  rcases List.mem_append.mp hc with hc | hc
  · exact List.all_eq_true.mp List.all_takeWhile c hc
  · exact hright c hc

theorem head_not_space {as : List Atom} {w : Str} (ha : isFramed as = true)
    (h : spelled (as.map Atom.matches) w = true) : ∃ c ∈ w, isSpace c = false := by
  have hhead := (Bool.and_eq_true_iff.mp ha).1
  cases spelled_map_iff.mp h with
  | nil => cases hhead
  | @cons a c _ _ hac _ =>
    refine ⟨c, List.mem_cons_self, ?_⟩
    cases a with
    | char p => exact isSpace_letter (eqIgnoreCase_letter hhead hac)
    | separator => cases hhead

/-- A text with a name in it is not blank. -/
theorem Reading.Names.not_blank {p : Place} (h : (python u).Names p) : (strip p.text).isEmpty = false := by
  have hname : ∃ c ∈ p.name, isSpace c = false := by
    rcases h with ⟨hw, _⟩ | ⟨⟨spelling, hspelling, hw⟩, _⟩
    · exact head_not_space citevyn_framed hw
    · exact head_not_space (aliases_framed spelling hspelling) hw
  obtain ⟨c, hc, hspace⟩ := hname
  rw [← Bool.not_eq_true]
  intro hblank
  have := strip_blank hblank c (List.mem_append_left _ (List.mem_append_right _ hc))
  rw [hspace] at this
  cases this

/-- A question is about the product if the product's name is in it. -/
theorem classifyDomain_citevyn (hu : Letters u) (question : Str) :
    classifyDomain u question = .citevyn ↔ ∃ p, p.text = question ∧ (python u).Names p := by
  rw [← search_citevynRe hu]
  unfold classifyDomain
  by_cases hblank : (strip question).isEmpty = true
  · rw [if_pos hblank]
    refine iff_of_false (by decide) fun h => ?_
    obtain ⟨p, rfl, hp⟩ := (search_citevynRe hu question).mp h
    rw [hp.not_blank] at hblank
    cases hblank
  · rw [if_neg hblank, patterns, List.find?_cons]
    cases hsearch : search (citevynRe u) question with
    | true => exact iff_of_true rfl rfl
    | false =>
      refine iff_of_false (fun h => ?_) Bool.false_ne_true
      cases hfind : List.find? (fun p => search p.2 question) (patterns u).tail with
      | none =>
        rw [patterns, List.tail_cons] at hfind
        simp only [hfind] at h
        cases h
      | some p =>
        have hmem := List.mem_of_find?_eq_some hfind
        rw [patterns, List.tail_cons] at hfind hmem
        simp only [hfind] at h
        have hother : ∀ p ∈ (patterns u).tail, p.1 ≠ .citevyn := by
          simp [patterns]
        exact hother p hmem h

end Spec

end CiteVyn.Guardrails
