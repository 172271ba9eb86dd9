import CiteVyn.Guardrails.Domain

/-! # The products a question names

The rest of `app/guardrails/domain.py`: `classify_domains`, the rewriting of the product's
name, and of the questions that mean the product without naming it. -/
namespace CiteVyn.Guardrails
open CiteVyn.Lib.Backtrack CiteVyn.Lib.Scan CiteVyn.Text CiteVyn.Answer

section Patterns
variable (u : Unicode)

/-! ## Several products -/

/-- `_MULTIHOP_PATTERNS` -/
def multihopPatterns : List (Domain × Pattern Char) :=
  [(.claudeCode, claudeCodeRe u), (.claudeApi, claudeApiRe u), (.geminiApi, geminiRe u), (.codex, codexRe u)]

/-- `_overlaps` -/
def overlaps (a b : Nat × Nat) : Bool := a.1 < b.2 && b.1 < a.2

/-- What `classify_domains` has seen. -/
structure Named where
  matchedSpans : List (Nat × Nat) := []
  domains : List Domain := []
  deriving DecidableEq

def Named.add (domain : Domain) (named : Named) (span : Nat × Nat) : Named :=
  if named.matchedSpans.any (overlaps span) then named
  else
    { matchedSpans := named.matchedSpans ++ [span]
      domains := if named.domains.contains domain then named.domains else named.domains ++ [domain] }

/-- `classify_domains` -/
def classifyDomains (question : Str) : List Domain :=
  if (strip question).isEmpty then []
  else if search (citevynRe u) question then [.citevyn]
  else
    ((multihopPatterns u).foldl (fun named p => (finditer p.2 question).foldl (Named.add p.1) named) {}).domains

/-! ## The product's name -/

/-- `CANONICAL_PRODUCT_NAME` -/
def canonicalProductName : Str := "CiteVyn".toList

/-- `canonicalize_product_name` -/
def canonicalizeProductName (question : Str) : Str := sub (citevynRe u) (fun _ => canonicalProductName) question

/-- `\s+` -/
def gap (next : Pattern Char) : Pattern Char := many isSpace 1 next

/-- `_CITEVYN_AMBIGUOUS_RE` -/
def citevynAmbiguousRe : Pattern Char :=
  boundary u (either (["cite", "site", "sight"].map fun w => lit w (gap (lit "win" (boundary u done)))))

/-- `contains_ambiguous_citevyn_alias` -/
def containsAmbiguousCitevynAlias (text : Str) : Bool := search (citevynAmbiguousRe u) text

/-- `canonicalize_ambiguous_alias` -/
def canonicalizeAmbiguousAlias (text : Str) : Str := sub (citevynAmbiguousRe u) (fun _ => canonicalProductName) text

/-! ## Questions about the assistant -/

/-- Words with `\s+` between. -/
def phrase : List String → Pattern Char → Pattern Char
  | [], next => next
  | [w], next => lit w next
  | w :: ws, next => lit w (gap (phrase ws next))

/-- `(?:p)?` -/
def optionally (p : Pattern Char → Pattern Char) (next : Pattern Char) : Pattern Char := either [p next, next]

/-- One of several words. -/
def oneOf (ws : List String) (next : Pattern Char) : Pattern Char := either (ws.map fun w => lit w next)

/-- `$` -/
def atEnd : Pattern Char := here (fun _ rest => rest.isEmpty || rest == ['\n']) done

/-- `_APOS` -/
def apos (next : Pattern Char) : Pattern Char := one (fun c => c == '\'' || c == '\u2019' || c == '\u02bc') next

/-- `_SELF_REFERENCE_OPENER` -/
def selfReferenceOpener (next : Pattern Char) : Pattern Char :=
  optionally (fun next => oneOf ["hi", "hey", "hello", "ok", "okay", "so", "well", "um"]
    (boundary u (many (fun c => isSpace c || c == ',') 1 next))) next

/-- `_SELF_REFERENCE_RULES` -/
def selfReferenceRules : List (List (Pattern Char → Pattern Char) × String) :=
  [([phrase ["who", "are", "you"],
      fun next => lit "who" (either [gap (phrase ["re", "you"] next), apos (phrase ["re", "you"] next)]),
      phrase ["what", "are", "you"],
      fun next => phrase ["who", "am", "i"] (gap (oneOf ["talking", "speaking", "chatting"] (gap (oneOf ["to", "with"] next)))),
      fun next => lit "what" (either
        [apos (lit "s" (gap (phrase ["your", "name"] next))), gap (lit "is" (gap (phrase ["your", "name"] next)))]),
      phrase ["tell", "me", "about", "yourself"],
      phrase ["introduce", "yourself"]],
    "What is CiteVyn?"),
   ([phrase ["what", "can", "you", "do"],
      phrase ["what", "do", "you", "do"],
      phrase ["what", "are", "you", "for"],
      fun next => phrase ["how", "can", "you", "help"] (optionally (fun next => gap (lit "me" next)) next),
      fun next => phrase ["what", "can", "you", "help"] (gap (optionally (fun next => lit "me" (gap next)) (lit "with" next))),
      lit "help"],
    "What can CiteVyn do?"),
   ([fun next => phrase ["what", "do", "you", "know"] (optionally (fun next => gap (lit "about" next)) next),
      phrase ["what", "do", "you", "cover"],
      fun next => phrase ["what", "topic"] (optionally (lit "s") (gap (phrase ["do", "you", "cover"] next))),
      phrase ["what", "can", "you", "answer"],
      fun next => phrase ["what", "can", "i", "ask"] (optionally (fun next => gap (lit "you" next)) next),
      fun next => phrase ["what", "source"] (optionally (lit "s") (gap (phrase ["do", "you", "use"] next)))],
    "What does CiteVyn cover?")]

/-- `[\s,.!?]*$` -/
def tail : Pattern Char := many (fun c => isSpace c || ",.!?".toList.contains c) 0 atEnd

/-- `_SELF_REFERENCE_PATTERNS` -/
def selfReferencePatterns : List (Pattern Char × Str) :=
  selfReferenceRules.map fun rule =>
    (many isSpace 0 (selfReferenceOpener u (either (rule.1.map fun phrasing => phrasing tail))), rule.2.toList)

/-- `canonicalize_self_reference` -/
def canonicalizeSelfReference (question : Str) : Str :=
  if (strip question).isEmpty then question
  else ((selfReferencePatterns u).find? fun p => (p.1 [] question).isSome).elim question Prod.snd

end Patterns

example : canonicalizeSelfReference .ascii "hey, who are you?".toList = "What is CiteVyn?".toList := by decide +kernel

/-! ## A question that names a product is supported -/

section Spec
variable {u : Unicode}

theorem mem_add {domain d : Domain} {named : Named} {span : Nat × Nat}
    (h : d ∈ (named.add domain span).domains) : d ∈ named.domains ∨ d = domain := by
  unfold Named.add at h
  split at h
  · exact .inl h
  · simp only at h
    split at h
    · exact .inl h
    · rwa [List.mem_append, List.mem_singleton] at h

theorem mem_foldl_add {domain d : Domain} {spans : List (Nat × Nat)} {named : Named}
    (h : d ∈ (spans.foldl (Named.add domain) named).domains) : d ∈ named.domains ∨ d = domain ∧ spans ≠ [] := by
  induction spans generalizing named with
  | nil => exact .inl h
  | cons span spans ih =>
    have hcons : span :: spans ≠ [] := List.cons_ne_nil _ _
    rcases ih h with h | ⟨rfl, _⟩
    · rcases mem_add h with h | rfl
      · exact .inl h
      · exact .inr ⟨rfl, hcons⟩
    · exact .inr ⟨rfl, hcons⟩

/-- The domains collected are those of the patterns that match. -/
theorem mem_collected {question : Str} {d : Domain} {ps : List (Domain × Pattern Char)} {named : Named}
    (h : d ∈ (ps.foldl (fun named p => (finditer p.2 question).foldl (Named.add p.1) named) named).domains) :
    d ∈ named.domains ∨ ∃ p ∈ ps, p.1 = d ∧ search p.2 question = true := by
  induction ps generalizing named with
  | nil => exact .inl h
  | cons p ps ih =>
    rcases ih h with h | ⟨q, hq, hd, hsearch⟩
    · rcases mem_foldl_add h with h | ⟨rfl, hspans⟩
      · exact .inl h
      · exact .inr ⟨p, List.mem_cons_self, rfl, (finditer_ne_nil_iff _ _).mp hspans⟩
    · exact .inr ⟨q, List.mem_cons_of_mem _ hq, hd, hsearch⟩

theorem multihopPatterns_subset : multihopPatterns u ⊆ patterns u := by
  intro p hp
  simp only [multihopPatterns, List.mem_cons, List.not_mem_nil, or_false] at hp
  simp only [patterns, List.mem_cons, List.not_mem_nil, or_false]
  tauto

theorem mem_classifyDomains {question : Str} {d : Domain} (h : d ∈ classifyDomains u question) :
    (strip question).isEmpty = false ∧ ∃ p ∈ patterns u, p.1 = d ∧ search p.2 question = true := by
  unfold classifyDomains at h
  split at h
  · cases h
  · rename_i hblank
    refine ⟨by simpa using hblank, ?_⟩
    split at h
    · rename_i hsearch
      exact ⟨_, List.mem_cons_self, (List.mem_singleton.mp h).symm, hsearch⟩
    · rcases mem_collected h with h | ⟨p, hp, hd, hsearch⟩
      · cases h
      · exact ⟨p, multihopPatterns_subset hp, hd, hsearch⟩

theorem patterns_supported : ∀ p ∈ patterns u, p.1 ≠ .unsupported := by
  simp [patterns]

theorem classifyDomain_unsupported_iff (question : Str) :
    classifyDomain u question = .unsupported ↔
      (strip question).isEmpty = true ∨ ∀ p ∈ patterns u, search p.2 question = false := by
  unfold classifyDomain
  split
  · rename_i hblank
    exact iff_of_true rfl (.inl hblank)
  · rename_i hblank
    rw [or_iff_right hblank]
    cases hfind : (patterns u).find? fun p => search p.2 question with
    | none =>
      refine iff_of_true rfl fun p hp => ?_
      simpa using List.find?_eq_none.mp hfind p hp
    | some p =>
      have hmem := List.mem_of_find?_eq_some hfind
      have hsearch := List.find?_some hfind
      refine iff_of_false (patterns_supported p hmem) fun hnone => ?_
      rw [hnone p hmem] at hsearch
      cases hsearch

/-- A question that names a product is not refused. -/
theorem classifyDomains_supported {question : Str} (h : classifyDomains u question ≠ []) :
    classifyDomain u question ≠ .unsupported := by
  obtain ⟨d, hd⟩ := List.exists_mem_of_ne_nil _ h
  obtain ⟨hblank, p, hp, _, hsearch⟩ := mem_classifyDomains hd
  intro hunsupported
  rcases (classifyDomain_unsupported_iff question).mp hunsupported with hempty | hnone
  · rw [hblank] at hempty
    cases hempty
  · rw [hnone p hp] at hsearch
    cases hsearch

end Spec

end CiteVyn.Guardrails
