import CiteVyn.Guardrails.Products

/-! # The intent of a question

`classify_intent` of `app/routing/intent.py`: patterns of exact terms first, then of
instructions, then the length. -/
namespace CiteVyn.Routing
open CiteVyn.Lib.Backtrack CiteVyn.Lib.Scan CiteVyn.Text CiteVyn.Answer CiteVyn.Guardrails

section Patterns
variable (u : Unicode)

/-- `_HOW_TO_RE` -/
def howToRe : Pattern Char :=
  boundary u (either [
    lit "how" (optionally (fun next => gap (oneOf ["do", "can", "should", "to"] next)) (boundary u done)),
    lit "configure" (boundary u done),
    phrase ["set", "up"] (boundary u done),
    oneOf ["setup", "install", "enable", "disable"] (boundary u done)])

/-- `[A-Z0-9_]`, with the letters of either case. -/
def isNameChar (c : Char) : Bool := isLetterIgnoreCase c || isAsciiDigit c || c == '_'

/-- `[A-Z][A-Z0-9_]{2,}`, with the letters of either case. -/
def name (next : Pattern Char) : Pattern Char := one isLetterIgnoreCase (many isNameChar 2 next)

/-- `_EXACT_LOOKUP_RE` -/
def exactLookupRe : Pattern Char :=
  either [
    word ['-', '-'] (one isLetterIgnoreCase (many (fun c => isLetterIgnoreCase c || isAsciiDigit c || c == '-') 1 done)),
    boundary u (name (one (· == '=') (many (fun c => !isSpace c) 1 done))),
    one (· == '$') (name (boundary u done)),
    one (· == '`') (many (fun c => c != '`' && c != '\n') 1 (one (· == '`') done)),
    boundary u (either [
      lit "env" (gap (optionally (one ['`', '\'', '"'].contains) (name done))),
      phrase ["environment", "variable"] (gap (optionally (one ['`', '\'', '"'].contains) (name done)))])]

/-- `_BARE_ENV_VAR_RE` -/
def bareEnvVarRe : Pattern Char :=
  boundary u (one isUpperAscii (many (fun c => isUpperAscii c || isAsciiDigit c) 0 (one (· == '_')
    (many (fun c => isUpperAscii c || isAsciiDigit c || c == '_') 2 (boundary u done)))))

/-- `_CLARIFY_MAX_TOKENS` -/
def clarifyMaxTokens : Nat := 2

/-- `classify_intent` -/
def classifyIntent (question : Str) (domain : Domain) : Intent :=
  if domain == .unsupported then .unsupported
  else if (strip question).isEmpty then .clarify
  else if search (exactLookupRe u) question then .exactLookup
  else if search (bareEnvVarRe u) question then .exactLookup
  else if search (howToRe u) question then .howTo
  else if (splitWords question).length ≤ clarifyMaxTokens then .clarify
  else .faq

end Patterns

/-- The router refuses what the guardrail refuses, and nothing else. -/
theorem classifyIntent_unsupported_iff (u : Unicode) (question : Str) (domain : Domain) :
    classifyIntent u question domain = .unsupported ↔ domain = .unsupported := by
  unfold classifyIntent
  by_cases hdomain : domain = .unsupported
  · subst hdomain
    exact iff_of_true rfl rfl
  · rw [if_neg (by simpa using hdomain)]
    refine iff_of_false ?_ hdomain
    repeat' split
    all_goals exact fun h => by cases h

example : classifyIntent .ascii "Is there an alias for --model?".toList .codex = .exactLookup := by decide +kernel

end CiteVyn.Routing
