import CiteVyn.Lib.Backtrack
import CiteVyn.Worker.Parser
import Mathlib.Data.List.Nodup

/-! # The exact terms of a chunk

`extract_terms` of `app/worker/exact_terms.py`. -/
namespace CiteVyn.Worker.ExactTerms
open CiteVyn.Lib.Backtrack CiteVyn.Lib.Scan CiteVyn.Text

inductive TermType where
  | flag
  | command
  | configKey
  | modelName
  | apiParameter
  | errorMessage
  | environmentVariable
  | fileName
  | slashCommand
  deriving DecidableEq, Repr

structure ExtractedTerm where
  termText : Str
  termType : TermType
  deriving DecidableEq, Repr

/-! ## The patterns -/

def isLowerDigit (c : Char) : Bool := isLowerAscii c || isAsciiDigit c

variable (u : Unicode)

/-- `\b`. -/
def boundary (next : Pattern Char) : Pattern Char := here u.wordBoundary next

/-- `--[a-z][a-z0-9-]{1,40}` -/
def flagRe : Pattern Char :=
  word "--".toList (one isLowerAscii (run (fun c => isLowerDigit c || c == '-') done 1 40))

/-- `(?<!\w)(?<!/)/[a-z][a-z0-9-]{1,40}` -/
def slashCmdRe : Pattern Char :=
  here (fun pre _ => !pre.head?.any fun c => u.isWord c || c == '/')
    (word "/".toList (one isLowerAscii (run (fun c => isLowerDigit c || c == '-') done 1 40)))

/-- `\b[A-Z][A-Z0-9_]{2,40}\b` -/
def envVarRe : Pattern Char :=
  boundary u (one isUpperAscii
    (run (fun c => isUpperAscii c || isAsciiDigit c || c == '_') (boundary u done) 2 40))

/-- `[a-z][a-z0-9-]{2,30}`, as it stands twice in a header's name -/
def headerPart (next : Pattern Char) : Pattern Char :=
  one isLowerAscii (run (fun c => isLowerDigit c || c == '-') next 2 30)

/-- `\bx-[a-z][a-z0-9-]{2,30}-[a-z][a-z0-9-]{2,30}\b` -/
def headerRe : Pattern Char :=
  boundary u (word "x-".toList (headerPart (word "-".toList (headerPart (boundary u done)))))

/-- `(?:\b[a-z][a-z0-9_-]{1,40}\.[a-z0-9]{1,5}\b|\B\.[a-z][a-z0-9_-]{1,40}\b)` -/
def fileNameRe : Pattern Char :=
  either [
    boundary u (one isLowerAscii (run (fun c => isLowerDigit c || c == '_' || c == '-')
      (word ".".toList (run isLowerDigit (boundary u done) 1 5)) 1 40)),
    here (fun pre rest => !u.wordBoundary pre rest) (word ".".toList
      (one isLowerAscii (run (fun c => isLowerDigit c || c == '_' || c == '-') (boundary u done) 1 40)))]

/-- `\b[a-z][a-z0-9_]{2,30}\b` -/
def apiParamRe : Pattern Char :=
  boundary u (one isLowerAscii (run (fun c => isLowerDigit c || c == '_') (boundary u done) 2 30))

/-- `[0-9]+-[0-9]+` -/
def versionRe (next : Pattern Char) : Pattern Char :=
  many isAsciiDigit 1 (word "-".toList (many isAsciiDigit 1 next))

/-- `\bclaude-(?:opus|sonnet|haiku)-[0-9]+-[0-9]+|\bgemini-[0-9]+-[0-9]+-(?:pro|flash)|`
`\bgpt-[0-9]+(?:o|pro|mini)?\b` -/
def modelNameRe : Pattern Char :=
  either [
    boundary u (word "claude-".toList (either
      (["opus-", "sonnet-", "haiku-"].map fun family => word family.toList (versionRe done)))),
    boundary u (word "gemini-".toList (versionRe (either
      (["-pro", "-flash"].map fun family => word family.toList done)))),
    boundary u (word "gpt-".toList (many isAsciiDigit 1 (either
      (["o", "pro", "mini", ""].map fun family => word family.toList (boundary u done)))))]

/-- `"[a-z][a-z0-9 _-]{4,60}"` -/
def errorMsgRe : Pattern Char :=
  word "\"".toList (one isLowerAscii
    (run (fun c => isLowerDigit c || c == ' ' || c == '_' || c == '-') (word "\"".toList done) 4 60))

/-- `_PATTERN_ORDER`. -/
def patternOrder : List (Pattern Char × TermType) :=
  [(flagRe, .flag), (slashCmdRe u, .slashCommand), (envVarRe u, .environmentVariable), (headerRe u, .apiParameter),
    (fileNameRe u, .fileName), (errorMsgRe, .errorMessage), (modelNameRe u, .modelName), (apiParamRe u, .configKey)]

/-! ## The extraction -/

/-- `_NON_TERMS`. -/
def nonTerms : List Str :=
  ["THE", "AND", "FOR", "WITH", "FROM", "INTO", "EVERY", "EACH", "WHEN", "WHILE", "ALSO", "ALL", "ANY", "ARE",
    "NOT", "USE", "USED", "SET", "HAS", "HAVE", "THIS", "THAT"].map String.toList

/-- `_is_meaningful`; a key is ASCII. -/
def isMeaningful (term : ExtractedTerm) : Bool :=
  match term.termType with
  | .environmentVariable => !nonTerms.contains term.termText
  | .configKey => !nonTerms.contains (term.termText.map Char.toUpper)
  | _ => true

/-- One match: a term that is new and says something is kept. -/
def keep (found : List ExtractedTerm) (term : ExtractedTerm) : List ExtractedTerm :=
  if isMeaningful term && !found.contains term then found ++ [term] else found

def extractTerms (text : Str) : List ExtractedTerm :=
  (patternOrder u).foldl
    (fun found pattern => ((findall pattern.1 text).map fun w => ⟨w, pattern.2⟩).foldl keep found) []

/-- No term comes twice with one type, and each says something. -/
structure Distinct (found : List ExtractedTerm) : Prop where
  nodup : found.Nodup
  meaningful : ∀ term ∈ found, isMeaningful term

theorem Distinct.keep {found : List ExtractedTerm} (h : Distinct found) (term : ExtractedTerm) :
    Distinct (keep found term) := by
  unfold ExactTerms.keep
  split
  · rename_i hnew
    obtain ⟨hmeaningful, hfresh⟩ := Bool.and_eq_true_iff.mp hnew
    have hfresh : term ∉ found := by simpa using hfresh
    refine ⟨List.nodup_append.mpr ⟨h.nodup, by simp, ?_⟩, ?_⟩
    · rintro a ha b hb rfl
      exact hfresh (List.mem_singleton.mp hb ▸ ha)
    · intro a ha
      rcases List.mem_append.mp ha with ha | ha
      · exact h.meaningful a ha
      · exact List.mem_singleton.mp ha ▸ hmeaningful
  · exact h

theorem Distinct.foldl {found : List ExtractedTerm} (h : Distinct found) (terms : List ExtractedTerm) :
    Distinct (terms.foldl ExactTerms.keep found) := by
  induction terms generalizing found with
  | nil => exact h
  | cons term terms ih => exact ih (h.keep term)

theorem extractTerms_distinct (text : Str) : Distinct (extractTerms u text) := by
  unfold extractTerms
  generalize patternOrder u = patterns
  have hempty : Distinct [] := ⟨List.nodup_nil, fun _ h => by cases h⟩
  revert hempty
  generalize ([] : List ExtractedTerm) = found
  intro hfound
  induction patterns generalizing found with
  | nil => exact hfound
  | cons pattern patterns ih => exact ih _ (hfound.foldl _)

/-! ## The type of a term

Each pattern's matches have a form that no other pattern's have: it can be told from the
first character, and from whether there is a stop or a hyphen. -/

/-- The type of the pattern that can match the text. -/
def typeOf : Str → Option TermType
  | [] => none
  | c :: w =>
    if c = '-' then some .flag
    else if c = '/' then some .slashCommand
    else if c = '"' then some .errorMessage
    else if isUpperAscii c then some .environmentVariable
    else if '.' ∈ c :: w then some .fileName
    else if '-' ∈ c :: w then some (if c = 'x' then .apiParameter else .modelName)
    else some .configKey

variable {u}

theorem typeOf_lower {c : Char} (h : isLowerAscii c = true) (w : Str) :
    typeOf (c :: w) =
      if '.' ∈ c :: w then some .fileName
      else if '-' ∈ c :: w then some (if c = 'x' then .apiParameter else .modelName)
      else some .configKey := by
  have hne {d : Char} (hd : isLowerAscii d = false) : c ≠ d := by
    rintro rfl
    exact Bool.false_ne_true (hd.symm.trans h)
  have hupper : ¬isUpperAscii c = true := by
    intro hc
    simp only [isLowerAscii, isUpperAscii, Bool.and_eq_true, decide_eq_true_eq, Char.le_def, UInt32.le_iff_toNat_le] at h hc
    exact absurd (h.1.trans hc.2) (by decide)
  rw [typeOf, if_neg (hne rfl), if_neg (hne rfl), if_neg (hne rfl), if_neg hupper]

theorem within_flagRe : Within flagRe (typeOf · = some .flag) :=
  ((within_any _).word "--".toList).imp fun w hw => by
    obtain ⟨v, rfl, -⟩ := hw
    rfl

theorem within_slashCmdRe : Within (slashCmdRe u) (typeOf · = some .slashCommand) :=
  (((within_any _).word "/".toList).here _).imp fun w hw => by
    obtain ⟨v, rfl, -⟩ := hw
    rfl

theorem within_errorMsgRe : Within errorMsgRe (typeOf · = some .errorMessage) :=
  ((within_any _).word "\"".toList).imp fun w hw => by
    obtain ⟨v, rfl, -⟩ := hw
    rfl

theorem within_envVarRe : Within (envVarRe u) (typeOf · = some .environmentVariable) :=
  ((within_any _).one.here _).imp fun w hw => by
    obtain ⟨c, v, rfl, hc, -⟩ := hw
    have hne {d : Char} (hd : isUpperAscii d = false) : c ≠ d := by
      rintro rfl
      exact Bool.false_ne_true (hd.symm.trans hc)
    rw [typeOf, if_neg (hne rfl), if_neg (hne rfl), if_neg (hne rfl), if_pos hc]

theorem within_fileNameRe : Within (fileNameRe u) (typeOf · = some .fileName) := by
  refine .either fun m hm => ?_
  rcases List.mem_pair.mp hm with rfl | rfl
  · refine (((within_any _).word ".".toList).run 1 40).one.here _ |>.imp fun w hw => ?_
    obtain ⟨c, _, rfl, hc, a, _, rfl, -, v, rfl, -⟩ := hw
    rw [typeOf_lower hc, if_pos]
    exact List.mem_cons_of_mem _ (List.mem_append_right _ List.mem_cons_self)
  · refine (((within_any _).word ".".toList).here _).imp fun w hw => ?_
    obtain ⟨v, rfl, -⟩ := hw
    rfl

theorem within_headerRe : Within (headerRe u) (typeOf · = some .apiParameter) := by
  have hpart {next : Pattern Char} (h : Avoids '.' next) : Avoids '.' (headerPart next) := (h.run rfl 2 30).one rfl
  have hword {next : Pattern Char} (h : Avoids '.' next) : Avoids '.' (word "-".toList next) := h.word (by decide)
  have hstop : Avoids '.' (headerRe u) :=
    .here ((hpart (hword (hpart (.here (avoids_done '.') _)))).word (by decide)) _
  refine (((within_any _).word "x-".toList).here _ |>.and hstop).imp fun w hw => ?_
  obtain ⟨⟨v, rfl, -⟩, hnone⟩ := hw
  have hw : "x-".toList ++ v = 'x' :: '-' :: v := rfl
  rw [hw] at hnone ⊢
  rw [typeOf_lower rfl, if_neg hnone, if_pos (List.mem_cons_of_mem _ List.mem_cons_self)]
  rfl

theorem within_modelNameRe : Within (modelNameRe u) (typeOf · = some .modelName) := by
  have hversion {next : Pattern Char} (h : Avoids '.' next) : Avoids '.' (versionRe next) :=
    ((h.many rfl 1).word (by decide)).many rfl 1
  have hhead {pre : Str} {next : Pattern Char} (hnext : Avoids '.' next) (hpre : '.' ∉ pre)
      (hname : ∀ w, '.' ∉ pre ++ w → typeOf (pre ++ w) = some .modelName) :
      Within (boundary u (word pre next)) (typeOf · = some .modelName) := by
    refine (((within_any _).word pre).and (hnext.word hpre)).here _ |>.imp fun w hw => ?_
    obtain ⟨⟨v, rfl, -⟩, hnone⟩ := hw
    exact hname v hnone
  -- the first letter is no `x`, and the hyphen of the name stands
  have hname {c : Char} {a : Str} (hc : isLowerAscii c = true) (hx : c ≠ 'x') (ha : '-' ∈ c :: a) :
      ∀ w, '.' ∉ c :: a ++ w → typeOf (c :: a ++ w) = some .modelName := by
    intro w hnone
    rw [List.cons_append] at hnone ⊢
    have hhyphen : '-' ∈ c :: (a ++ w) := List.mem_append_left w ha
    rw [typeOf_lower hc, if_neg hnone, if_pos hhyphen, if_neg hx]
  refine .either fun m hm => ?_
  simp only [List.mem_cons, List.not_mem_nil, or_false] at hm
  rcases hm with rfl | rfl | rfl
  · refine hhead (.either fun m hm => ?_) (by decide) (hname rfl (by decide) (by decide))
    obtain ⟨family, hfamily, rfl⟩ := List.mem_map.mp hm
    simp only [List.mem_cons, List.not_mem_nil, or_false] at hfamily
    rcases hfamily with rfl | rfl | rfl
    · exact (hversion (avoids_done '.')).word (by decide)
    · exact (hversion (avoids_done '.')).word (by decide)
    · exact (hversion (avoids_done '.')).word (by decide)
  · refine hhead (hversion (.either fun m hm => ?_)) (by decide) (hname rfl (by decide) (by decide))
    obtain ⟨family, hfamily, rfl⟩ := List.mem_map.mp hm
    rcases List.mem_pair.mp hfamily with rfl | rfl
    · exact (avoids_done '.').word (by decide)
    · exact (avoids_done '.').word (by decide)
  · refine hhead (Avoids.many (.either fun m hm => ?_) rfl 1) (by decide) (hname rfl (by decide) (by decide))
    obtain ⟨family, hfamily, rfl⟩ := List.mem_map.mp hm
    have hend : Avoids '.' (boundary u done) := .here (avoids_done '.') _
    simp only [List.mem_cons, List.not_mem_nil, or_false] at hfamily
    rcases hfamily with rfl | rfl | rfl | rfl
    · exact hend.word (by decide)
    · exact hend.word (by decide)
    · exact hend.word (by decide)
    · exact hend.word (by decide)

theorem within_apiParamRe : Within (apiParamRe u) (typeOf · = some .configKey) := by
  have hnone {c : Char} (hc : isLowerAscii c = false) (hc' : (isLowerDigit c || c == '_') = false) : Avoids c (apiParamRe u) :=
    Within.here (Avoids.one (Avoids.run (Within.here (avoids_done c) _) hc' 2 30) hc) _
  refine ((((within_any _).one.here _).and (hnone (c := '.') rfl rfl)).and (hnone (c := '-') rfl rfl)).imp fun w hw => ?_
  obtain ⟨⟨⟨c, v, rfl, hc, -⟩, hstop⟩, hhyphen⟩ := hw
  rw [typeOf_lower hc, if_neg hstop, if_neg hhyphen]

theorem within_patternOrder : ∀ pattern ∈ patternOrder u, Within pattern.1 (typeOf · = some pattern.2) := by
  intro pattern hpattern
  simp only [patternOrder, List.mem_cons, List.not_mem_nil, or_false] at hpattern
  rcases hpattern with rfl | rfl | rfl | rfl | rfl | rfl | rfl | rfl
  · exact within_flagRe
  · exact within_slashCmdRe
  · exact within_envVarRe
  · exact within_headerRe
  · exact within_fileNameRe
  · exact within_errorMsgRe
  · exact within_modelNameRe
  · exact within_apiParamRe

theorem mem_foldl_keep {term : ExtractedTerm} (terms : List ExtractedTerm) : ∀ {found : List ExtractedTerm},
    term ∈ terms.foldl keep found → term ∈ found ∨ term ∈ terms := by
  induction terms with
  | nil => exact fun h => .inl h
  | cons next terms ih =>
    intro found h
    rcases ih h with h | h
    · unfold keep at h
      split at h
      · rcases List.mem_append.mp h with h | h
        · exact .inl h
        · exact .inr (List.mem_singleton.mp h ▸ List.mem_cons_self)
      · exact .inl h
    · exact .inr (List.mem_cons_of_mem _ h)

/-- The type of a term can be told from its text. -/
theorem typeOf_of_mem {text : Str} {term : ExtractedTerm} (h : term ∈ extractTerms u text) :
    typeOf term.termText = some term.termType := by
  have hall : ∀ (patterns : List (Pattern Char × TermType)) (found : List ExtractedTerm),
      (∀ pattern ∈ patterns, Within pattern.1 (typeOf · = some pattern.2)) →
      (∀ term ∈ found, typeOf term.termText = some term.termType) →
      ∀ term ∈ patterns.foldl (fun found pattern => ((findall pattern.1 text).map fun w => ⟨w, pattern.2⟩).foldl keep found)
        found, typeOf term.termText = some term.termType := by
    intro patterns
    induction patterns with
    | nil => exact fun found _ hfound => hfound
    | cons pattern patterns ih =>
      intro found hpatterns hfound
      obtain ⟨hpattern, hpatterns⟩ := List.forall_mem_cons.mp hpatterns
      refine ih _ hpatterns fun term hterm => ?_
      rcases mem_foldl_keep _ hterm with hterm | hterm
      · exact hfound term hterm
      · obtain ⟨w, hw, rfl⟩ := List.mem_map.mp hterm
        exact hpattern.findall hw
  exact hall _ [] within_patternOrder (fun _ h => by cases h) term h

/-- No text comes twice, with whatever type. -/
theorem extractTerms_texts (u : Unicode) (text : Str) : ((extractTerms u text).map ExtractedTerm.termText).Nodup := by
  refine List.Nodup.map_on (fun a ha b hb heq => ?_) (extractTerms_distinct u text).nodup
  have htype : some a.termType = some b.termType := by rw [← typeOf_of_mem ha, ← typeOf_of_mem hb, heq]
  cases a
  cases b
  exact ExtractedTerm.mk.injEq .. ▸ ⟨heq, Option.some.inj htype⟩

example : extractTerms .ascii "Set MAX_TOKENS or --model gpt-4o in app.toml, see /help".toList =
    [⟨"--model".toList, .flag⟩, ⟨"/help".toList, .slashCommand⟩, ⟨"MAX_TOKENS".toList, .environmentVariable⟩,
      ⟨"app.toml".toList, .fileName⟩, ⟨"gpt-4o".toList, .modelName⟩, ⟨"model".toList, .configKey⟩,
      ⟨"gpt".toList, .configKey⟩, ⟨"app".toList, .configKey⟩, ⟨"toml".toList, .configKey⟩,
      ⟨"see".toList, .configKey⟩, ⟨"help".toList, .configKey⟩] := by
  decide +kernel

end CiteVyn.Worker.ExactTerms
