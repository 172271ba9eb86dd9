import CiteVyn.Guardrails.Products

/-! # Conversation memory

`app/answer/memory.py`: a question that leans on an earlier one is read together with the
latest question that names a product, and the model may restate it. -/
namespace CiteVyn.Answer
open CiteVyn.Lib.Backtrack CiteVyn.Lib.Scan CiteVyn.Text CiteVyn.Guardrails

section Patterns
variable (u : Unicode)

/-- `_ANAPHORA_RE` -/
def anaphoraRe : Pattern Char :=
  boundary u (either ([["it"], ["its"], ["it's"], ["that"], ["those"], ["these"], ["them"], ["they"], ["their"], ["this"],
    ["the", "other"], ["the", "others"], ["another"], ["the", "rest"], ["the", "same"], ["one", "of", "them"],
    ["one", "of", "those"]].map fun ws => phrase ws (boundary u done)))

/-- `_ELLIPSIS_RE` -/
def ellipsisRe : Pattern Char :=
  many isSpace 0 (either ([["and"], ["or"], ["but"], ["so"], ["what", "about"], ["how", "about"], ["what", "else"],
    ["any", "other"], ["any", "others"]].map fun ws => phrase ws (boundary u done)))

/-- `is_anaphoric_followup` -/
def isAnaphoricFollowup (question : Str) : Bool :=
  search (anaphoraRe u) question || (ellipsisRe u [] question).isSome

/-- `build_contextual_query` -/
def buildContextualQuery (question : Str) (priorUserQuestions : List Str) : Str :=
  if classifyDomain u question != .unsupported then question
  else if !isAnaphoricFollowup u question then question
  else
    match priorUserQuestions.find? fun prior => classifyDomain u prior != .unsupported with
    | some prior => prior ++ [' '] ++ question
    | none => question

end Patterns

/-! ## A restated question -/

/-- Where the model is called from: the site sets the system prompt and the limits. -/
inductive CallSite where
  | answer
  | condense
  | aliasIntent
  deriving Repr, DecidableEq

/-- `_MAX_REWRITE_CHARS` -/
def maxRewriteChars : Nat := 300

/-- The user prompt of `condense_question_llm`. -/
def condensePrompt (question : Str) (priorUserQuestions : List Str) : Str :=
  let convo := ['\n'].intercalate (priorUserQuestions.reverse.map fun q => "- ".toList ++ q)
  "Earlier questions in this conversation (oldest first):\n".toList ++ convo ++ "\n\nLatest question: ".toList ++
    question ++ "\n\nStandalone question:".toList

/-- `s.strip("\"")` -/
def stripQuotes (s : Str) : Str := ((s.dropWhile (· == '"')).reverse.dropWhile (· == '"')).reverse

/-- `condense_question_llm` -/
def condenseQuestionLlm (complete : CallSite → Str → Except String Str) (question : Str)
    (priorUserQuestions : List Str) : Except String Str :=
  if priorUserQuestions.isEmpty then .ok question
  else do
    let text ← complete .condense (condensePrompt question priorUserQuestions)
    let rewritten := strip (stripQuotes (strip text))
    .ok (if rewritten.isEmpty || maxRewriteChars < rewritten.length then question else rewritten)

end CiteVyn.Answer
