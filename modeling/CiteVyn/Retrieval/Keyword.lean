import CiteVyn.Lib.Like
import CiteVyn.Retrieval.Corpus
import Mathlib.Data.Prod.Lex
import Mathlib.Data.String.Basic

/-! # The keyword arm

`KeywordRetriever.retrieve` of `app/retrieval/keyword.py`, on Postgres: the rows by
`ILIKE` with its default escape, and the floor that is measured in Python over the rows
and, if these fill the window, in SQL over the whole scope. -/
namespace CiteVyn.Retrieval
open CiteVyn.Answer CiteVyn.Lib.Like CiteVyn.Lib.OrderBy CiteVyn.Lib.Scan CiteVyn.Text CiteVyn.Worker
  CiteVyn.Worker.Ingestion

/-- `_STOPWORDS`. -/
def stopwords : List Str :=
  ["the", "a", "an", "is", "are", "do", "does", "how", "what", "which"].map String.toList

/-- `_LIKE_ESCAPE`. -/
def likeEscape : Char := '/'

/-- `_like_literal`. -/
def likeLiteral (token : Str) : Str :=
  let out := replace [likeEscape] [likeEscape, likeEscape] token
  let out := ['%', '_'].foldl (fun out wildcard => replace [wildcard] [likeEscape, wildcard] out) out
  '%' :: (out ++ ['%'])

/-- `chunk_text ILIKE pattern`. -/
def ilike (f : CaseFold) (escape : Char) (pattern text : Str) : Bool := like escape (f.lower pattern) (f.lower text)

/-- `tok.rstrip("?!.,;:")`. -/
def rstripMarks (token : Str) : Str := token.rdropWhile fun c => "?!.,;:".toList.contains c

/-- The `tokens` of a question. -/
def tokensOf (f : CaseFold) (u : Unicode) (question : Str) : List Str :=
  ((splitWords (f.lower question)).map rstripMarks).filter fun token =>
    !token.isEmpty && !stopwords.contains token && token.any u.isAlnum

/-- `tok in (chunk.chunk_text or "").lower()`. -/
def occurs (f : CaseFold) (token : Str) (row : ChunkOfDocument) : Bool :=
  decide (token <:+: f.lower row.chunk.chunk.chunkText)

/-- The chunks that a search may see. -/
def scopeOf (db : Database String) (version : Option Str) (productArea : Option String) : List ChunkOfDocument :=
  (chunkJoin db).filter fun row => servable version row.document && productArea.all fun area => inArea area row.chunk

/-- `or_(*like_clauses)`. -/
def matchesAny (f : CaseFold) (tokens : List Str) (row : ChunkOfDocument) : Bool :=
  tokens.any fun token => ilike f '\\' ('%' :: (token ++ ['%'])) row.chunk.chunk.chunkText

/-- `ORDER BY chunk_order, document_id, chunk_id`. -/
def windowKey (row : ChunkOfDocument) : Nat ×ₗ String ×ₗ String :=
  toLex (row.chunk.chunk.chunkOrder, toLex (row.chunk.documentId, row.chunk.chunkId))

/-- How many tokens occur in the rows, as Python counts them. -/
def matchedTokenCount (f : CaseFold) (tokens : List Str) (rows : List ChunkOfDocument) : Nat :=
  (tokens.filter fun token => rows.any (occurs f token)).length

/-- `_tokens_present_in_scope`. -/
def tokensPresentInScope (f : CaseFold) (tokens : List Str) (scope : List ChunkOfDocument) : Nat :=
  (tokens.filter fun token => scope.any fun row => ilike f likeEscape (likeLiteral token) row.chunk.chunk.chunkText).length

/-- `max(1, min(2, len(distinct_tokens)))`. -/
def requiredMatches (tokens : List Str) : Nat := max 1 (min 2 tokens.length)

/-- `KeywordRetriever.retrieve`. -/
def keywordRetrieve (f : CaseFold) (u : Unicode) (db : Database String) (version : Option Str) (question : Str)
    (productArea : Option String) (limit : Nat) : List (RetrievedChunk Str) :=
  let tokens := tokensOf f u question
  if tokens.isEmpty then []
  else
    let scope := scopeOf db version productArea
    let rows := (orderBy windowKey (scope.filter (matchesAny f tokens))).take limit
    if rows.isEmpty then []
    else
      let distinct := tokens.dedup
      let matched := matchedTokenCount f distinct rows
      let matched :=
        if matched < requiredMatches distinct && limit ≤ rows.length then tokensPresentInScope f distinct scope
        else matched
      if matched < requiredMatches distinct then []
      else rows.map fun row => toRetrieved (1 / 2) row.chunk row.document

/-! ## The two floors ask the same -/

theorem likeLiteral_eq (token : Str) : likeLiteral token = '%' :: (escapeText likeEscape token ++ ['%']) := by
  have hescape : ['%', '_'].foldl (fun out wildcard => replace [wildcard] [likeEscape, wildcard] out)
      (replace [likeEscape] [likeEscape, likeEscape] token) = escapeText likeEscape token := by
    simp only [List.foldl_cons, List.foldl_nil, replace_singleton, beq_iff_eq]
    induction token with
    | nil => rfl
    | cons c token ih =>
      rw [List.flatMap_cons, List.flatMap_append, List.flatMap_append, ih,
        show escapeText likeEscape (c :: token) = escapeText likeEscape [c] ++ escapeText likeEscape token by
          simp [escapeText]]
      congr 1
      by_cases hslash : c = '/'
      · subst hslash
        rfl
      · by_cases hpercent : c = '%'
        · subst hpercent
          rfl
        · by_cases hunderscore : c = '_'
          · subst hunderscore
            rfl
          · simp [likeEscape, escapeText, hslash, hpercent, hunderscore]
  rw [likeLiteral, hescape]

theorem mem_splitOnP {p : Char → Bool} {s w : Str} (hw : w ∈ s.splitOnP p) : ∀ c ∈ w, c ∈ s := by
  induction s generalizing w with
  | nil =>
    rw [List.mem_singleton.mp hw]
    exact fun c hc => hc
  | cons d s ih =>
    rw [List.splitOnP_cons_eq_if_modifyHead] at hw
    split at hw
    · rcases List.mem_cons.mp hw with rfl | hw
      · exact fun c hc => absurd hc List.not_mem_nil
      · exact fun c hc => List.mem_cons_of_mem d (ih hw c hc)
    · have hne : s.splitOnP p ≠ [] := List.splitOnP_ne_nil p s
      obtain ⟨first, rest, hsplit⟩ := List.exists_cons_of_ne_nil hne
      rw [hsplit, List.modifyHead_cons] at hw
      rcases List.mem_cons.mp hw with rfl | hw
      · intro c hc
        rcases List.mem_cons.mp hc with rfl | hc
        · exact List.mem_cons_self
        · exact List.mem_cons_of_mem d (ih (hsplit ▸ List.mem_cons_self) c hc)
      · exact fun c hc => List.mem_cons_of_mem d (ih (hsplit ▸ List.mem_cons_of_mem first hw) c hc)

section
variable {f : CaseFold} {u : Unicode} {question : Str}

/-- A token is in lower case, and has a character. -/
theorem settled_of_mem_tokensOf {token : Str} (h : token ∈ tokensOf f u question) :
    ∀ c ∈ token, f.settled c = true := by
  obtain ⟨word, hword, rfl⟩ := List.mem_map.mp (List.mem_filter.mp h).1
  intro c hc
  have hmem : c ∈ word := (List.rdropWhile_prefix _ word).subset hc
  exact f.settled_lower question c (mem_splitOnP (List.mem_filter.mp hword).1 c hmem)

theorem lower_pattern {token : Str} (h : ∀ c ∈ token, f.settled c = true) :
    f.lower ('%' :: (token ++ ['%'])) = '%' :: (token ++ ['%']) := by
  have hpercent := f.marks '%' (by simp)
  apply f.lower_settled
  intro c hc
  simp only [List.mem_cons, List.mem_append, List.not_mem_nil, or_false] at hc
  rcases hc with rfl | hc | rfl
  · exact hpercent
  · exact h c hc
  · exact hpercent

theorem settled_escapeText {token : Str} (h : ∀ c ∈ token, f.settled c = true) :
    ∀ c ∈ escapeText likeEscape token, f.settled c = true := by
  intro c hc
  obtain ⟨d, hd, hmem⟩ := List.mem_flatMap.mp hc
  split at hmem
  · simp only [List.mem_cons, List.not_mem_nil, or_false] at hmem
    rcases hmem with rfl | rfl
    · exact f.marks _ (by simp [likeEscape])
    · exact h c hd
  · rw [List.mem_singleton.mp hmem]
    exact h d hd

/-- The pattern of the floor in SQL finds what the floor in Python finds. -/
theorem ilike_likeLiteral {token : Str} (h : ∀ c ∈ token, f.settled c = true) (row : ChunkOfDocument) :
    ilike f likeEscape (likeLiteral token) row.chunk.chunk.chunkText = occurs f token row := by
  rw [Bool.eq_iff_iff, ilike, likeLiteral_eq, lower_pattern (settled_escapeText h), like_escapeText (by decide), occurs,
    decide_eq_true_eq]

theorem tokensPresentInScope_eq {tokens : List Str} (h : ∀ token ∈ tokens, ∀ c ∈ token, f.settled c = true)
    (scope : List ChunkOfDocument) : tokensPresentInScope f tokens scope = matchedTokenCount f tokens scope := by
  rw [tokensPresentInScope, matchedTokenCount]
  congr 1
  apply List.filter_congr
  intro token htoken
  simp only [ilike_likeLiteral (h token htoken)]

/-- A token without a backslash is in no chunk that the rows leave out. -/
theorem matchesAny_of_occurs {tokens : List Str} {token : Str} (hmem : token ∈ tokens) {row : ChunkOfDocument}
    (hsettled : ∀ c ∈ token, f.settled c = true) (hbackslash : '\\' ∉ token) (h : occurs f token row = true) :
    matchesAny f tokens row = true := by
  refine List.any_eq_true.mpr ⟨token, hmem, ?_⟩
  rw [ilike, lower_pattern hsettled]
  exact like_of_infix (by decide) hbackslash (of_decide_eq_true h)

theorem matchedTokenCount_le {tokens : List Str} {rows rows' : List ChunkOfDocument}
    (h : ∀ token ∈ tokens, rows.any (occurs f token) = true → rows'.any (occurs f token) = true) :
    matchedTokenCount f tokens rows ≤ matchedTokenCount f tokens rows' := by
  rw [matchedTokenCount, matchedTokenCount, ← List.countP_eq_length_filter, ← List.countP_eq_length_filter]
  exact List.countP_mono_left h

theorem matchedTokenCount_mono {tokens : List Str} {rows rows' : List ChunkOfDocument} (h : ∀ row ∈ rows, row ∈ rows') :
    matchedTokenCount f tokens rows ≤ matchedTokenCount f tokens rows' := by
  apply matchedTokenCount_le
  intro token _ htoken
  obtain ⟨row, hrow, hoccurs⟩ := List.any_eq_true.mp htoken
  exact List.any_eq_true.mpr ⟨row, h row hrow, hoccurs⟩

end

/-! ## The verdict at a limit -/

section
variable (f : CaseFold) (u : Unicode) (db : Database String) (version : Option Str) (question : Str)
  (productArea : Option String)

/-- The chunks that the row query finds, without its limit. -/
def found : List ChunkOfDocument :=
  (scopeOf db version productArea).filter (matchesAny f (tokensOf f u question))

/-- Enough tokens of the question occur in the rows. -/
def Enough (rows : List ChunkOfDocument) : Prop :=
  requiredMatches (tokensOf f u question).dedup ≤ matchedTokenCount f (tokensOf f u question).dedup rows

variable {f u db version question productArea}

theorem Enough.mono {rows rows' : List ChunkOfDocument} (h : ∀ row ∈ rows, row ∈ rows') (hrows : Enough f u question rows) :
    Enough f u question rows' := le_trans hrows (matchedTokenCount_mono h)

/-- The rows are judged by what is in them, and if they fill the window by the scope. -/
theorem keywordRetrieve_ne_nil {limit : Nat} :
    keywordRetrieve f u db version question productArea limit ≠ [] ↔
      (orderBy windowKey (found f u db version question productArea)).take limit ≠ [] ∧
        (Enough f u question ((orderBy windowKey (found f u db version question productArea)).take limit) ∨
          limit ≤ (found f u db version question productArea).length ∧
            Enough f u question (scopeOf db version productArea)) := by
  have hsettled : ∀ token ∈ (tokensOf f u question).dedup, ∀ c ∈ token, f.settled c = true :=
    fun token htoken => settled_of_mem_tokensOf (List.mem_dedup.mp htoken)
  have hlength : limit ≤ ((orderBy windowKey (found f u db version question productArea)).take limit).length ↔
      limit ≤ (found f u db version question productArea).length := by
    rw [List.length_take, (orderBy_perm _ _).length_eq]
    omega
  rw [← hlength]
  unfold keywordRetrieve Enough
  dsimp only
  rw [tokensPresentInScope_eq hsettled, ← found]
  by_cases hempty : tokensOf f u question = []
  · have hnone : found f u db version question productArea = [] := by simp [found, hempty, matchesAny]
    simp [hempty, hnone, orderBy]
  rw [if_neg (by simpa using hempty)]
  generalize (orderBy windowKey (found f u db version question productArea)).take limit = rows
  generalize requiredMatches (tokensOf f u question).dedup = required
  generalize matchedTokenCount f (tokensOf f u question).dedup rows = matched
  generalize matchedTokenCount f (tokensOf f u question).dedup (scopeOf db version productArea) = present
  by_cases hrows : rows = []
  · simp [hrows]
  rw [if_neg (by simpa using hrows)]
  simp only [Bool.and_eq_true, decide_eq_true_eq, ne_eq, hrows, not_false_iff, true_and]
  by_cases hmatched : matched < required <;> by_cases hfull : limit ≤ rows.length <;> by_cases hpresent : present < required <;>
    simp [hmatched, hfull, hpresent, hrows] <;> omega

/-- A limit that the chunks found reach: the whole scope is judged. -/
theorem keywordRetrieve_full {limit : Nat} (hlimit : 1 ≤ limit)
    (hle : limit ≤ (found f u db version question productArea).length) :
    keywordRetrieve f u db version question productArea limit ≠ [] ↔ Enough f u question (scopeOf db version productArea) := by
  have hne : (orderBy windowKey (found f u db version question productArea)).take limit ≠ [] := by
    intro hnil
    have hlength := congrArg List.length hnil
    rw [List.length_take, (orderBy_perm _ _).length_eq, List.length_nil] at hlength
    omega
  rw [keywordRetrieve_ne_nil]
  constructor
  · intro h
    rcases h.2 with h | h
    · refine h.mono fun row hrow => ?_
      exact (List.mem_filter.mp (mem_orderBy.mp (List.mem_of_mem_take hrow))).1
    · exact h.2
  · intro h
    exact ⟨hne, .inr ⟨hle, h⟩⟩

/-- A limit above the chunks found: they are judged. -/
theorem keywordRetrieve_partial {limit : Nat} (hlt : (found f u db version question productArea).length < limit)
    (hfound : found f u db version question productArea ≠ []) :
    keywordRetrieve f u db version question productArea limit ≠ [] ↔
      Enough f u question (found f u db version question productArea) := by
  have hall : (orderBy windowKey (found f u db version question productArea)).take limit =
      orderBy windowKey (found f u db version question productArea) :=
    List.take_of_length_le (by rw [(orderBy_perm _ _).length_eq]; exact hlt.le)
  have hne : orderBy windowKey (found f u db version question productArea) ≠ [] := by
    intro hnil
    exact hfound (List.perm_nil.mp (hnil ▸ (orderBy_perm windowKey _).symm))
  rw [keywordRetrieve_ne_nil, hall]
  constructor
  · intro h
    rcases h.2 with h | h
    · exact h.mono fun row hrow => mem_orderBy.mp hrow
    · omega
  · intro h
    exact ⟨hne, .inl (h.mono fun row hrow => mem_orderBy.mpr hrow)⟩

theorem keywordRetrieve_of_found_nil (limit : Nat) (h : found f u db version question productArea = []) :
    keywordRetrieve f u db version question productArea limit = [] := by
  by_contra hne
  have hrows := (keywordRetrieve_ne_nil.mp hne).1
  rw [h] at hrows
  exact hrows (by simp [orderBy])

end

/-- Whether there is evidence is the same at every limit if and only if the row query
finds nothing, or too few tokens occur in the scope, or enough occur in the chunks it
finds. Without a backslash in a token that is so. -/
theorem keywordRetrieve_limit_iff (f : CaseFold) (u : Unicode) (db : Database String) (version : Option Str)
    (question : Str) (productArea : Option String) :
    ((∀ limit limit', 1 ≤ limit → 1 ≤ limit' → (keywordRetrieve f u db version question productArea limit = [] ↔
        keywordRetrieve f u db version question productArea limit' = [])) ↔
      found f u db version question productArea = [] ∨ ¬ Enough f u question (scopeOf db version productArea) ∨
        Enough f u question (found f u db version question productArea)) ∧
      ((∀ token ∈ tokensOf f u question, '\\' ∉ token) → Enough f u question (scopeOf db version productArea) →
        Enough f u question (found f u db version question productArea)) := by
  constructor
  · constructor
    · intro h
      by_cases hfound : found f u db version question productArea = []
      · exact .inl hfound
      have hpos := List.length_pos_iff.mpr hfound
      have hsame := h 1 ((found f u db version question productArea).length + 1) (Nat.le_refl 1) (by omega)
      rw [← not_iff_not, ← ne_eq, ← ne_eq, keywordRetrieve_full (Nat.le_refl 1) hpos,
        keywordRetrieve_partial (Nat.lt_succ_self _) hfound] at hsame
      by_cases hscope : Enough f u question (scopeOf db version productArea)
      · exact .inr (.inr (hsame.mp hscope))
      · exact .inr (.inl hscope)
    · intro hcond
      -- the verdict at any limit is that over the chunks found
      by_cases hfound : found f u db version question productArea = []
      · intro limit limit' _ _
        rw [keywordRetrieve_of_found_nil limit hfound, keywordRetrieve_of_found_nil limit' hfound]
      have hverdict : ∀ limit, 1 ≤ limit → (keywordRetrieve f u db version question productArea limit ≠ [] ↔
          Enough f u question (found f u db version question productArea)) := by
        intro limit hlimit
        rcases Nat.lt_or_ge (found f u db version question productArea).length limit with hlt | hge
        · exact keywordRetrieve_partial hlt hfound
        · rw [keywordRetrieve_full hlimit hge]
          constructor
          · intro h
            exact (hcond.resolve_left hfound).resolve_left (not_not.mpr h)
          · intro h
            exact h.mono fun row hrow => (List.mem_filter.mp hrow).1
      intro limit limit' hlimit hlimit'
      rw [← not_iff_not, ← ne_eq, ← ne_eq, hverdict limit hlimit, hverdict limit' hlimit']
  · intro hbackslash henough
    refine le_trans henough (matchedTokenCount_le fun token htoken hany => ?_)
    -- where a token occurs in the scope, the chunk is found
    obtain ⟨row, hrow, hoccurs⟩ := List.any_eq_true.mp hany
    have hmem := List.mem_dedup.mp htoken
    refine List.any_eq_true.mpr ⟨row, List.mem_filter.mpr ⟨hrow, ?_⟩, hoccurs⟩
    exact matchesAny_of_occurs hmem (settled_of_mem_tokensOf hmem) (hbackslash token hmem) hoccurs

/-- A page about a file of Windows, in two chunks. -/
def pathCorpus : Database String :=
  runs exampleVersion .ascii .ascii
    [(pageOf "paths" "claude_code", ingesting "a" "# CLI\n## Config\nThe config file.\n## Paths\nIt is in a\\b there." 2)]

/-- The second chunk has a token that the row query reads as another text: with room for
two chunks there is no evidence, with room for one there is. -/
theorem keywordRetrieve_backslash :
    (keywordRetrieve .ascii .ascii pathCorpus (some exampleVersion) "config a\\b".toList (some "claude_code") 1).map
        RetrievedChunk.chunkId = ["chunk-a0"] ∧
      keywordRetrieve .ascii .ascii pathCorpus (some exampleVersion) "config a\\b".toList (some "claude_code") 2 = [] := by
  decide +kernel

end CiteVyn.Retrieval
