import CiteVyn.Guardrails.Domain
import Mathlib.Data.Bool.AllAny
import Mathlib.Data.List.ProdSigma

/-! # The product's name in the demo

`mentionsCitevyn` of `lib/citevynAliases.ts`, the copy of the backend's pattern for a page
without a backend. Both sides read the same Unicode database; the two engines use it
differently: Python takes `İ` and `ı` for an `i`, and what JavaScript folds to a letter is
one, which makes a word character of the combining iota. -/
namespace CiteVyn.Frontend.CitevynAliases
open CiteVyn.Lib.Backtrack CiteVyn.Lib.Scan CiteVyn.Text CiteVyn.Guardrails

/-- `COMBINING GREEK YPOGEGRAMMENI`, whose case folding is `ι` -/
def combiningIota : Char := '\u0345'

/-- `İ` and `ı` -/
def isTurkishI (c : Char) : Bool := c == '\u0130' || c == '\u0131'

/-- What the flags `iu` read of the Unicode database: the classes of letters and numbers, and
the characters with the simple case folding of a character. -/
structure CaseFolding (u : Unicode) where
  isLetter : Char → Bool
  isNumber : Char → Bool
  variants : Char → List Char
  alnum : ∀ c, u.isAlnum c = (isLetter c || isNumber c)
  letters : Letters u
  marks : ∀ c, isMark c = true → u.isWord c = false
  letter : ∀ p c, isLowerAscii p = true →
    (p ∈ variants c ↔ c = p ∨ c = upperAscii p ∨ p = 's' ∧ c = '\u017F' ∨ p = 'k' ∧ c = '\u212A')
  other : ∀ p c, isMark p || isSeparator p || p == '_' → (p ∈ variants c ↔ c = p)
  word : ∀ c, (variants c).any (fun a => isLetter a || isNumber a) = (isLetter c || isNumber c || c == combiningIota)

/-! ## The pattern -/

/-- `CITEVYN_ALIASES` -/
def citevynAliases : List Str :=
  ["citevin", "citewin", "sitevyn", "sitevin", "sitewin", "sightvyn", "sightvin", "sightwin", "cite[ \\t-]vyn",
    "site[ \\t-]vyn", "sight[ \\t-]vyn"].map String.toList

section Pattern
variable {u : Unicode} (f : CaseFolding u)

/-- A class under `iu` has the characters that fold as one of its own does. -/
def inClass (p : Char → Bool) (c : Char) : Bool := (f.variants c).any p

/-- `WORD_CHAR` -/
def wordChar (c : Char) : Bool := f.isLetter c || f.isNumber c || c == '_'

/-- `IDENTIFIER_CHAR` -/
def identifierChar (c : Char) : Bool := wordChar f c || isMark c

def atom : Atom → Char → Bool
  | .char p => inClass f (· == p)
  | .separator => inClass f isSeparator

/-- The canonical spelling, `citevyn(?![W])` -/
def canonical : Pattern Char :=
  spell (citevyn.map (atom f)) (notAhead (one (inClass f (wordChar f)) done) done)

/-- The aliases, `(?:…)(?![I]*[W])` -/
def aliases : Pattern Char :=
  either (citevynAliases.map fun s => spell ((atoms s).map (atom f))
    (notAhead (many (inClass f (identifierChar f)) 0 (one (inClass f (wordChar f)) done)) done))

/-- `CITEVYN_RE` -/
def citevynRe : Pattern Char :=
  either [notAfter (inClass f (wordChar f)) (canonical f), notAfter (inClass f (identifierChar f)) (aliases f)]

/-- `mentionsCitevyn` -/
def mentionsCitevyn (text : Str) : Bool := search (citevynRe f) text

/-- The demo's reading. -/
def javascript : Reading where
  word := inClass f (wordChar f)
  atom := atom f

end Pattern

section Spec
variable {u : Unicode} {f : CaseFolding u}

theorem inClass_or (p q : Char → Bool) (c : Char) :
    inClass f (fun a => p a || q a) c = (inClass f p c || inClass f q c) := by
  rw [Bool.eq_iff_iff, Bool.or_eq_true]
  simp only [inClass, List.any_eq_true, Bool.or_eq_true]
  constructor
  · rintro ⟨a, ha, h | h⟩
    · exact .inl ⟨a, ha, h⟩
    · exact .inr ⟨a, ha, h⟩
  · rintro (⟨a, ha, h⟩ | ⟨a, ha, h⟩)
    · exact ⟨a, ha, .inl h⟩
    · exact ⟨a, ha, .inr h⟩

/-- A class without letters is read as it is. -/
theorem inClass_other {p : Char → Bool} (h : ∀ a, p a = true → isMark a || isSeparator a || a == '_') (c : Char) :
    inClass f p c = p c := by
  rw [Bool.eq_iff_iff, inClass, List.any_eq_true]
  constructor
  · rintro ⟨a, ha, hp⟩
    rwa [(f.other a c (h a hp)).mp ha]
  · intro hp
    exact ⟨c, (f.other c c (h c hp)).mpr rfl, hp⟩

theorem inClass_mark (c : Char) : inClass f isMark c = isMark c :=
  inClass_other (fun a ha => by rw [ha]; rfl) c

/-- The demo's word characters: the backend's, and one more. -/
theorem javascript_word (c : Char) : (javascript f).word c = (u.isWord c || c == combiningIota) := by
  show inClass f (fun a => f.isLetter a || f.isNumber a || a == '_') c = _
  rw [inClass_or, inClass, f.word, inClass_other (fun a ha => by rw [ha, Bool.or_true]), Unicode.isWord, f.alnum,
    Bool.or_right_comm]

theorem javascript_identifier (c : Char) : (javascript f).identifier c = inClass f (identifierChar f) c := by
  show _ = inClass f (fun a => wordChar f a || isMark a) c
  rw [inClass_or, inClass_mark]
  rfl

theorem isTurkishI_eq_false {c : Char} (h : isUpperAscii c = true ∨ isLowerAscii c = true) : isTurkishI c = false := by
  rw [← Bool.not_eq_true]
  intro hc
  simp only [isTurkishI, Bool.or_eq_true, beq_iff_eq] at hc
  rcases hc with rfl | rfl <;> revert h <;> decide

/-- A letter of the demo's: the backend's, without `İ` and `ı`. -/
theorem inClass_letter {p : Char} (hp : isLowerAscii p = true) (c : Char) :
    inClass f (· == p) c = (eqIgnoreCase p c && !isTurkishI c) := by
  have hmem : inClass f (· == p) c = true ↔ p ∈ f.variants c := by
    simp [inClass]
  rw [Bool.eq_iff_iff, hmem, f.letter p c hp, Bool.and_eq_true, Bool.not_eq_true']
  simp only [eqIgnoreCase, Bool.or_eq_true, Bool.and_eq_true, beq_iff_eq]
  constructor
  · rintro (rfl | rfl | ⟨rfl, rfl⟩ | ⟨rfl, rfl⟩)
    · exact ⟨by simp, isTurkishI_eq_false (.inr hp)⟩
    · exact ⟨by simp, isTurkishI_eq_false (.inl (isUpperAscii_upperAscii hp))⟩
    · decide
    · decide
  · rintro ⟨(((rfl | rfl) | ⟨rfl, rfl | rfl⟩) | ⟨rfl, rfl⟩) | ⟨rfl, rfl⟩, h⟩
    · exact .inl rfl
    · exact .inr (.inl rfl)
    · cases h
    · cases h
    · exact .inr (.inr (.inl ⟨rfl, rfl⟩))
    · exact .inr (.inr (.inr ⟨rfl, rfl⟩))

theorem javascript_atom {a : Atom} (ha : a.isLetter = true ∨ a = .separator) (c : Char) :
    atom f a c = (a.matches c && !isTurkishI c) := by
  cases a with
  | char p =>
    rcases ha with ha | ha
    · exact inClass_letter ha c
    · cases ha
  | separator =>
    show inClass f isSeparator c = (isSeparator c && !isTurkishI c)
    rw [inClass_other (fun a ha => by rw [ha, Bool.or_true, Bool.true_or])]
    by_cases hc : isTurkishI c = true
    · simp only [isTurkishI, Bool.or_eq_true, beq_iff_eq] at hc
      rcases hc with rfl | rfl <;> rfl
    · rw [Bool.not_eq_true] at hc
      rw [hc, Bool.not_false, Bool.and_true]

/-- A spelling of the demo's: the backend's, without `İ` and `ı`. -/
theorem javascript_spelled {as : List Atom} (ha : ∀ a ∈ as, a.isLetter = true ∨ a = .separator) (w : Str) :
    spelled (as.map (atom f)) w = (spelled (as.map Atom.matches) w && w.all fun c => !isTurkishI c) := by
  induction as generalizing w with
  | nil => cases w <;> rfl
  | cons a as ih =>
    cases w with
    | nil => rfl
    | cons c w =>
      rw [List.map_cons, List.map_cons, spelled, spelled, List.all_cons, ih (fun b hb => ha b (List.mem_cons_of_mem _ hb)),
        javascript_atom (ha a List.mem_cons_self)]
      cases a.matches c <;> cases isTurkishI c <;> simp

theorem citevyn_atoms : ∀ a ∈ Guardrails.citevyn, a.isLetter = true ∨ a = .separator := by decide +kernel

theorem aliases_atoms : ∀ s ∈ citevynAliases, ∀ a ∈ atoms s, a.isLetter = true ∨ a = .separator := by decide +kernel

/-- Both sides have the same aliases. -/
theorem aliases_eq : citevynAliases = Guardrails.citevynAliases := rfl

theorem isSome_one_done {α : Type*} {p : α → Bool} {pre rest : List α} :
    (one p done pre rest).isSome = rest.head?.any p := by
  cases rest with
  | nil => rfl
  | cons c s =>
    simp only [one, done, List.head?_cons, Option.any_some]
    cases p c <;> rfl

theorem inClass_identifier : inClass f (identifierChar f) = (javascript f).identifier :=
  funext fun c => (javascript_identifier c).symm

theorem canonical_consumes : Consumes (canonical f) := consumes_of_framed citevyn_framed _ _

theorem aliases_consumes : Consumes (aliases f) := by
  refine .either fun m hm => ?_
  obtain ⟨s, hs, rfl⟩ := List.mem_map.mp hm
  exact consumes_of_framed (aliases_framed s hs) _ _

theorem isSome_canonical {pre rest : Str} :
    (canonical f pre rest).isSome = true ↔
      ∃ w s, rest = w ++ s ∧ spelled (citevyn.map (javascript f).atom) w = true ∧ s.head?.any (javascript f).word = false := by
  rw [canonical, isSome_spell]
  refine exists₂_congr fun w s => and_congr_right fun _ => and_congr_right fun _ => ?_
  rw [isSome_notAhead, isSome_one_done]
  exact and_iff_left (isSome_done _ _)

theorem isSome_aliases {pre rest : Str} :
    (aliases f pre rest).isSome = true ↔
      ∃ w s, rest = w ++ s ∧ (∃ a ∈ citevynAliases, spelled ((atoms a).map (javascript f).atom) w = true) ∧
        (s.takeWhile (javascript f).identifier).any (javascript f).word = false := by
  have hguard : ∀ pre rest, (notAhead (many (inClass f (identifierChar f)) 0 (one (inClass f (wordChar f)) done)) done
      pre rest).isSome = true ↔ (rest.takeWhile (javascript f).identifier).any (javascript f).word = false := by
    intro pre rest
    have hword : ∀ c, inClass f (wordChar f) c = true → (javascript f).identifier c = true :=
      fun c hc => Reading.identifier_of_word (r := javascript f) hc
    rw [isSome_notAhead, inClass_identifier, isSome_many_one hword]
    exact and_iff_left (isSome_done _ _)
  rw [aliases, isSome_either]
  constructor
  · rintro ⟨m, hm, h⟩
    obtain ⟨a, ha, rfl⟩ := List.mem_map.mp hm
    obtain ⟨w, s, rfl, hw, h⟩ := isSome_spell.mp h
    exact ⟨w, s, rfl, ⟨a, ha, hw⟩, (hguard _ _).mp h⟩
  · rintro ⟨w, s, rfl, ⟨a, ha, hw⟩, h⟩
    exact ⟨_, List.mem_map.mpr ⟨a, ha, rfl⟩, isSome_spell.mpr ⟨w, s, rfl, hw, (hguard _ _).mpr h⟩⟩

/-- The demo's pattern matches the names by its own reading, and nothing else. -/
theorem mentions_iff_names (text : Str) :
    mentionsCitevyn f text = true ↔ ∃ p, p.text = text ∧ (javascript f).Names p := by
  have hconsumes : ∀ m ∈ [notAfter (inClass f (wordChar f)) (canonical f),
      notAfter (inClass f (identifierChar f)) (aliases f)], Consumes m := by
    intro m hm
    rcases List.mem_pair.mp hm with rfl | rfl
    · exact canonical_consumes.notAfter
    · exact aliases_consumes.notAfter
  rw [mentionsCitevyn, citevynRe, search_either hconsumes]
  constructor
  · rintro ⟨m, hm, h⟩
    rcases List.mem_pair.mp hm with rfl | rfl
    · obtain ⟨pre, rest, rfl, hpre, h⟩ := (search_notAfter canonical_consumes text).mp h
      obtain ⟨w, s, rfl, hw, hs⟩ := isSome_canonical.mp h
      exact ⟨⟨pre, w, s⟩, List.append_assoc .., .inl ⟨hw, hpre, hs⟩⟩
    · obtain ⟨pre, rest, rfl, hpre, h⟩ := (search_notAfter aliases_consumes text).mp h
      obtain ⟨w, s, rfl, hw, hs⟩ := isSome_aliases.mp h
      rw [inClass_identifier] at hpre
      exact ⟨⟨pre, w, s⟩, List.append_assoc .., .inr ⟨hw, hpre, hs⟩⟩
  · rintro ⟨⟨pre, w, s⟩, rfl, ⟨hw, hpre, hs⟩ | ⟨hw, hpre, hs⟩⟩
    · refine ⟨_, List.mem_pair.mpr (.inl rfl), (search_notAfter canonical_consumes _).mpr ?_⟩
      exact ⟨pre, w ++ s, List.append_assoc .., hpre, isSome_canonical.mpr ⟨w, s, rfl, hw, hs⟩⟩
    · refine ⟨_, List.mem_pair.mpr (.inr rfl), (search_notAfter aliases_consumes _).mpr ?_⟩
      rw [inClass_identifier]
      exact ⟨pre, w ++ s, List.append_assoc .., hpre, isSome_aliases.mpr ⟨w, s, rfl, hw, hs⟩⟩

/-! ## The two readings -/

/-- A name of the backend's, written without `İ` and `ı`, that no combining iota touches:
neither before it, nor after it, where for an alias punctuation does not count. -/
def Shared (u : Unicode) (p : Place) : Prop :=
  ((python u).Canonical p ∧ p.after.head? ≠ some combiningIota ∨
    (python u).Alias p ∧ (p.after.dropWhile isMark).head? ≠ some combiningIota) ∧
  p.before.head? ≠ some combiningIota ∧ p.name.all (fun c => !isTurkishI c) = true

theorem any_or_eq_false {p : Char → Bool} {d : Char} (o : Option Char) :
    o.any (fun c => p c || c == d) = false ↔ o.any p = false ∧ o ≠ some d := by
  cases o with
  | none => simp
  | some c => simp

theorem javascript_word_end (o : Option Char) :
    o.any (javascript f).word = false ↔ o.any (python u).word = false ∧ o ≠ some combiningIota := by
  rw [funext javascript_word]
  exact any_or_eq_false o

theorem javascript_before (o : Option Char) :
    o.any (javascript f).identifier = false ↔ o.any (python u).identifier = false ∧ o ≠ some combiningIota := by
  have hidentifier : (javascript f).identifier = fun c => (python u).identifier c || c == combiningIota := by
    funext c
    rw [Reading.identifier, javascript_word, Bool.or_right_comm]
    rfl
  rw [hidentifier]
  exact any_or_eq_false o

theorem javascript_after (s : Str) :
    (s.takeWhile (javascript f).identifier).any (javascript f).word = false ↔
      (s.takeWhile (python u).identifier).any (python u).word = false ∧ (s.dropWhile isMark).head? ≠ some combiningIota := by
  have hmarks : ∀ c, isMark c = true → (javascript f).word c = false := by
    intro c hc
    rw [javascript_word, f.marks c hc, Bool.false_or]
    by_contra h
    rw [Bool.not_eq_false, beq_iff_eq] at h
    subst h
    cases hc
  rw [Reading.any_takeWhile_identifier hmarks, Reading.any_takeWhile_identifier (r := python u) f.marks]
  exact javascript_word_end _

theorem javascript_canonical (p : Place) :
    (javascript f).Canonical p ↔ (python u).Canonical p ∧ p.after.head? ≠ some combiningIota ∧
      p.before.head? ≠ some combiningIota ∧ p.name.all (fun c => !isTurkishI c) = true := by
  have hspelled : spelled (citevyn.map (javascript f).atom) p.name = true ↔
      spelled (citevyn.map (python u).atom) p.name = true ∧ p.name.all (fun c => !isTurkishI c) = true := by
    show spelled (citevyn.map (atom f)) p.name = true ↔ _
    rw [javascript_spelled citevyn_atoms, Bool.and_eq_true]
    rfl
  refine (and_congr hspelled (and_congr (javascript_word_end _) (javascript_word_end _))).trans ?_
  constructor
  · rintro ⟨⟨hw, hall⟩, ⟨hbefore, hiota⟩, hafter, hend⟩
    exact ⟨⟨hw, hbefore, hafter⟩, hend, hiota, hall⟩
  · rintro ⟨⟨hw, hbefore, hafter⟩, hend, hiota, hall⟩
    exact ⟨⟨hw, hall⟩, ⟨hbefore, hiota⟩, hafter, hend⟩

theorem javascript_alias (p : Place) :
    (javascript f).Alias p ↔ (python u).Alias p ∧ (p.after.dropWhile isMark).head? ≠ some combiningIota ∧
      p.before.head? ≠ some combiningIota ∧ p.name.all (fun c => !isTurkishI c) = true := by
  have hspelled : (∃ s ∈ Guardrails.citevynAliases, spelled ((atoms s).map (javascript f).atom) p.name = true) ↔
      (∃ s ∈ Guardrails.citevynAliases, spelled ((atoms s).map (python u).atom) p.name = true) ∧
        p.name.all (fun c => !isTurkishI c) = true := by
    rw [← exists_and_right]
    refine exists_congr fun s => ?_
    rw [and_assoc]
    refine and_congr_right fun hs => ?_
    show spelled ((atoms s).map (atom f)) p.name = true ↔ _
    rw [javascript_spelled (aliases_atoms s hs), Bool.and_eq_true]
    rfl
  refine (and_congr hspelled (and_congr (javascript_before _) (javascript_after _))).trans ?_
  constructor
  · rintro ⟨⟨hw, hall⟩, ⟨hbefore, hiota⟩, hafter, hend⟩
    exact ⟨⟨hw, hbefore, hafter⟩, hend, hiota, hall⟩
  · rintro ⟨⟨hw, hbefore, hafter⟩, hend, hiota, hall⟩
    exact ⟨⟨hw, hall⟩, ⟨hbefore, hiota⟩, hafter, hend⟩

/-- A name by the demo's reading: one by the backend's that both sides read alike. -/
theorem javascript_names (p : Place) : (javascript f).Names p ↔ Shared u p := by
  unfold Reading.Names Shared
  rw [javascript_canonical, javascript_alias]
  tauto

/-- Where the demo sees the product's name, so does the backend. -/
theorem classified_of_mentions (text : Str) (h : mentionsCitevyn f text = true) :
    classifyDomain u text = .citevyn := by
  obtain ⟨p, hp, hnames⟩ := (mentions_iff_names text).mp h
  rw [classifyDomain_citevyn f.letters]
  refine ⟨p, hp, ?_⟩
  rcases ((javascript_names p).mp hnames).1 with h | h
  · exact .inl h.1
  · exact .inr h.1

/-- The two sides agree on a text that does not name the product, and on one with a name
that they read alike. -/
theorem mentions_same_iff (f : CaseFolding u) (text : Str) :
    (mentionsCitevyn f text = true ↔ classifyDomain u text = .citevyn) ↔
      ((∃ p, p.text = text ∧ (python u).Names p) → ∃ p, p.text = text ∧ Shared u p) := by
  have hmentions : mentionsCitevyn f text = true ↔ ∃ p, p.text = text ∧ Shared u p := by
    rw [mentions_iff_names]
    exact exists_congr fun p => and_congr_right fun _ => javascript_names p
  rw [← hmentions, ← classifyDomain_citevyn f.letters]
  constructor
  · exact fun h => h.mpr
  · intro h
    exact ⟨classified_of_mentions text, h⟩

end Spec

/-! ## The database cut down -/

def lowers : List Char := "abcdefghijklmnopqrstuvwxyz".toList

/-- The characters that fold together: ASCII, what folds into it, and the two iotas. -/
def groups : List (List Char) :=
  ['ι', combiningIota] :: lowers.map fun p =>
    p :: upperAscii p :: (if p = 's' then ['\u017F'] else if p = 'k' then ['\u212A'] else [])

def variants (c : Char) : List Char := (groups.find? (·.contains c)).getD [c]

def unicode : Unicode where
  isAlnum c := isLetterIgnoreCase c || c == 'ι' || isAsciiDigit c

theorem variants_self {c : Char} (h : c ∉ groups.flatten) : variants c = [c] := by
  have hnone : groups.find? (·.contains c) = none := by
    refine List.find?_eq_none.mpr fun g hg hc => h ?_
    exact List.mem_flatten.mpr ⟨g, hg, List.contains_iff_mem.mp hc⟩
  rw [variants, hnone, Option.getD_none]

theorem lowers_groups : ∀ p ∈ lowers, upperAscii p ∈ groups.flatten ∧ p ∈ groups.flatten :=
  List.all_iff_forall_prop.mp (by decide +kernel)

/-- The groups are disjoint: the first one that has a character is the one it came from. -/
theorem variants_of_mem {g : List Char} (hg : g ∈ groups) {c : Char} (hc : c ∈ g) : variants c = g := by
  have hall : (groups.all fun g => g.all fun c => variants c == g) = true := by decide +kernel
  exact beq_iff_eq.mp (List.all_eq_true.mp (List.all_eq_true.mp hall g hg) c hc)

theorem letter_groups {p : Char} (hp : p ∈ lowers) {g : List Char} (hg : g ∈ groups) {c : Char} (hc : c ∈ g) :
    p ∈ g ↔ c = p ∨ c = upperAscii p ∨ p = 's' ∧ c = '\u017F' ∨ p = 'k' ∧ c = '\u212A' := by
  have hall : (lowers.all fun p => groups.all fun g => g.all fun c =>
      decide (p ∈ g ↔ c = p ∨ c = upperAscii p ∨ p = 's' ∧ c = '\u017F' ∨ p = 'k' ∧ c = '\u212A')) = true := by
    decide +kernel
  exact of_decide_eq_true (List.all_eq_true.mp (List.all_eq_true.mp (List.all_eq_true.mp hall p hp) g hg) c hc)

theorem mem_others {p : Char} (h : (isMark p || isSeparator p || p == '_') = true) : p ∈ "./@:=- \t_".toList := by
  simp only [isMark, isSeparator, String.reduceToList, Bool.or_eq_true, List.contains_iff_mem, List.mem_cons, List.not_mem_nil,
    or_false, beq_iff_eq] at h ⊢
  tauto

theorem other_groups {p : Char} (hp : p ∈ "./@:=- \t_".toList) {g : List Char} (hg : g ∈ groups) : p ∉ g := by
  have hall : ("./@:=- \t_".toList.all fun p => groups.all fun g => !g.contains p) = true := by decide +kernel
  have hnot := List.all_eq_true.mp (List.all_eq_true.mp hall p hp) g hg
  rwa [Bool.not_eq_true', List.contains_eq_mem, decide_eq_false_iff_not] at hnot

theorem word_groups : ∀ c ∈ groups.flatten, (variants c).any unicode.isAlnum = (unicode.isAlnum c || c == combiningIota) :=
  List.all_iff_forall_prop.mp (by decide +kernel)

def folding : CaseFolding unicode where
  isLetter c := isLetterIgnoreCase c || c == 'ι'
  isNumber := isAsciiDigit
  variants := variants
  alnum _ := rfl
  letters c h := by
    show (isLetterIgnoreCase c || _ || _) = true
    rw [h]
    rfl
  marks c h := by
    have hmarks : ∀ c ∈ "./@:=-".toList, unicode.isWord c = false :=
      List.all_iff_forall_prop.mp (by decide +kernel)
    exact hmarks c (List.contains_iff_mem.mp h)
  letter p c hp := by
    obtain ⟨hupper, hlower⟩ := lowers_groups p (Text.mem_lowers hp)
    by_cases hc : c ∈ groups.flatten
    · obtain ⟨g, hg, hcg⟩ := List.mem_flatten.mp hc
      rw [variants_of_mem hg hcg]
      exact letter_groups (Text.mem_lowers hp) hg hcg
    · rw [variants_self hc, List.mem_singleton]
      refine ⟨fun h => .inl h.symm, ?_⟩
      rintro (rfl | rfl | ⟨_, rfl⟩ | ⟨_, rfl⟩)
      · rfl
      · exact absurd hupper hc
      · exact absurd (by decide +kernel) hc
      · exact absurd (by decide +kernel) hc
  other p c h := by
    by_cases hc : c ∈ groups.flatten
    · obtain ⟨g, hg, hcg⟩ := List.mem_flatten.mp hc
      have hp := other_groups (mem_others h) hg
      rw [variants_of_mem hg hcg]
      exact ⟨fun hpg => absurd hpg hp, fun heq => absurd (heq ▸ hcg) hp⟩
    · rw [variants_self hc, List.mem_singleton]
      exact eq_comm
  word c := by
    by_cases hc : c ∈ groups.flatten
    · exact word_groups c hc
    · have hiota : (c == combiningIota) = false := by
        rw [beq_eq_false_iff_ne]
        rintro rfl
        exact absurd (by decide +kernel) hc
      rw [variants_self hc, List.any_cons, List.any_nil, hiota]

/-- With a dotless `ı` the backend takes the question for one about the product, and the
demo does not. -/
theorem mentions_differ : ¬ ∀ (u : Unicode) (f : CaseFolding u) (text : Str),
    mentionsCitevyn f text = true ↔ classifyDomain u text = .citevyn := by
  intro h
  exact absurd (h unicode folding "what is c\u0131tevyn?".toList) (by decide +kernel)

end CiteVyn.Frontend.CitevynAliases
