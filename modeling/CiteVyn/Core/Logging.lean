import CiteVyn.Lib.Scan
import CiteVyn.Text.Values
import CiteVyn.Worker.Parser

/-! # What a log line says of its fields

`redact_value`, `redact_mapping` and `render_extras` of `app/core/logging.py`.
A value is redacted by its key; a field of a record is printed only if its type
bounds it or its key is listed. -/
namespace CiteVyn.Core
open CiteVyn.Lib.Scan CiteVyn.Text CiteVyn.Worker

/-! ## Keys -/

/-- `SECRET_VALUE`. -/
def secretValue : Str := "[REDACTED]".toList

/-- `TEXT_VALUE`. -/
def textValue : Str := "[REDACTED_TEXT]".toList

/-- `SECRET_KEY_PARTS`. -/
def secretKeyParts : List Str :=
  ["authorization".toList, "token".toList, "api_key".toList, "apikey".toList, "secret".toList,
    "password".toList, "passwd".toList, "private_key".toList, "cookie".toList, "email".toList]

/-- `RAW_TEXT_KEYS`. -/
def rawTextKeys : List Str :=
  ["question".toList, "message".toList, "content".toList, "chunk".toList, "chunk_text".toList,
    "retrieved_chunk".toList, "retrieved_chunks".toList, "context".toList]

/-- The lower-cased key contains a raw-text part. -/
def isRawTextKey (key : Str) : Bool := rawTextKeys.any fun part => contains part (lower key)

/-- The lower-cased key contains a secret part. -/
def isSecretKey (key : Str) : Bool := secretKeyParts.any fun part => contains part (lower key)

/-- `OPAQUE_ID_KEYS`. -/
def opaqueIdKeys : List Str :=
  ["request_id".toList, "index_version".toList, "index_versions".toList,
    "source_version_hash".toList]

/-- `MODEL_ID_KEYS`. -/
def modelIdKeys : List Str :=
  ["model".toList, "index_embedding_model".toList, "configured_embedding_model".toList]

/-- `PATH_KEYS`. -/
def pathKeys : List Str := ["path".toList]

/-! ## Text -/

/-- `MAX_OPAQUE_ID`. -/
def maxOpaqueId : Nat := 160

/-- `MAX_PATH`. -/
def maxPath : Nat := 160

/-- `MAX_PATH_SEGMENTS`. -/
def maxPathSegments : Nat := 64

/-- `MAX_MODEL_ID`. -/
def maxModelId : Nat := 64

/-- `MAX_SCANNED_CHARS`. -/
def maxScannedChars : Nat := 8192

def natStr (n : Nat) : Str := Nat.toDigits 10 n

/-- `_length_marker`. -/
def lengthMarker (length : Nat) : Str :=
  secretValue ++ "…<".toList ++ natStr length ++ " chars>".toList

def truncatedMark : Str := "…<truncated>".toList

/-- `s[:limit]` with a mark, if the text is longer. -/
def truncated (limit : Nat) (s : Str) : Str :=
  if limit < s.length then s.take limit ++ truncatedMark else s

/-- `[A-Za-z0-9._~+/=-]`, whatever the case. -/
def isBearerChar (c : Char) : Bool := isLetterIgnoreCase c || isAsciiDigit c || "._~+/=-".toList.contains c

/-- `BEARER_RE`. -/
def bearer : Pattern Char := fun _ rest =>
  if literal "bearer".toList rest then
    let spaces := (rest.drop 6).takeWhile isSpace
    let token := (rest.drop (6 + spaces.length)).takeWhile isBearerChar
    if spaces.isEmpty || token.isEmpty then none else some (6 + spaces.length + token.length)
  else none

/-- `[A-Za-z0-9+/=_-]`. -/
def isEntropyChar (c : Char) : Bool :=
  isUpperAscii c || isLowerAscii c || isAsciiDigit c || "+/=_-".toList.contains c

/-- `HIGH_ENTROPY_RE`: a run of 32 or more that nothing extends. -/
def highEntropy : Pattern Char := fun pre rest =>
  let run := rest.takeWhile isEntropyChar
  if pre.head?.any isEntropyChar || run.length < 32 then none else some run.length

/-- `HIGH_ENTROPY_RE.sub(SECRET_VALUE, _)`. -/
def sweep (s : Str) : Str := sub highEntropy (fun _ => secretValue) s

/-- The arms of `redact_value` for a `str`. -/
def redactText (key s : Str) : Str :=
  let keyLower := lower key
  let segmentCount := s.count '/'
  if keyLower ∈ pathKeys && maxPathSegments < segmentCount then
    '/' :: (secretValue ++ "…<".toList ++ natStr segmentCount ++ " segments>".toList)
  else if maxScannedChars < s.length then lengthMarker s.length
  else
    let redacted := sub bearer (fun _ => "Bearer ".toList ++ secretValue) s
    if keyLower ∈ opaqueIdKeys then truncated maxOpaqueId redacted
    else if keyLower ∈ modelIdKeys then
      if maxModelId < redacted.length then lengthMarker redacted.length else redacted
    else if keyLower ∈ pathKeys then
      truncated maxPath (List.intercalate ['/'] ((redacted.splitOn '/').map sweep))
    else sweep redacted

/-! ## Values -/

/-- What stands for a value under its key. -/
def masked (key : Str) (value : Value) : Value :=
  if isRawTextKey key then .str textValue
  else if isSecretKey key then .str secretValue
  else value

mutual

/-- `redact_value`. -/
def redactValue (key : Str) : Value → Value
  | .dict items => masked key (.dict (redactMapping items))
  | .list items => masked key (.list (redactItems key items))
  | .str s => masked key (.str (redactText key s))
  | value => masked key value

/-- `[redact_value(key, item) for item in value]`. -/
def redactItems (key : Str) : List Value → List Value
  | [] => []
  | item :: items => redactValue key item :: redactItems key items

/-- `redact_mapping`. -/
def redactMapping : List (Str × Value) → List (Str × Value)
  | [] => []
  | (key, value) :: items => (key, redactValue key value) :: redactMapping items

end

/-! ## Noninterference -/

/-- The key hides its value. -/
def Hides (key : Str) : Prop := isRawTextKey key = true ∨ isSecretKey key = true

mutual

/-- The values differ only under keys that hide. -/
inductive Alike : Value → Value → Prop
  | refl (v : Value) : Alike v v
  | list {vs ws : List Value} (h : AlikeItems vs ws) : Alike (.list vs) (.list ws)
  | dict {fs gs : List (Str × Value)} (h : AlikeFields fs gs) : Alike (.dict fs) (.dict gs)

inductive AlikeItems : List Value → List Value → Prop
  | nil : AlikeItems [] []
  | cons {v w : Value} {vs ws : List Value} (h : Alike v w) (hs : AlikeItems vs ws) :
    AlikeItems (v :: vs) (w :: ws)

inductive AlikeFields : List (Str × Value) → List (Str × Value) → Prop
  | nil : AlikeFields [] []
  | shown {key : Str} {v w : Value} {fs gs : List (Str × Value)} (h : Alike v w)
    (hs : AlikeFields fs gs) : AlikeFields ((key, v) :: fs) ((key, w) :: gs)
  | hidden {key : Str} (v w : Value) {fs gs : List (Str × Value)} (h : Hides key)
    (hs : AlikeFields fs gs) : AlikeFields ((key, v) :: fs) ((key, w) :: gs)

end

/-- A value under a key that hides is not looked at. -/
theorem masked_of_hides {key : Str} (h : Hides key) (v w : Value) : masked key v = masked key w := by
  unfold masked
  rcases h with h | h
  · rw [if_pos h, if_pos h]
  · rw [if_pos h, if_pos h]

theorem redactValue_of_hides {key : Str} (h : Hides key) (v w : Value) :
    redactValue key v = redactValue key w := by
  have hmask : ∀ v : Value, redactValue key v = masked key .none := by
    intro v
    cases v <;> exact masked_of_hides h _ _
  rw [hmask v, hmask w]

mutual

theorem redactValue_alike {v w : Value} (key : Str) : Alike v w → redactValue key v = redactValue key w
  | .refl _ => rfl
  | .list h => by rw [redactValue, redactValue, redactItems_alike key h]
  | .dict h => by rw [redactValue, redactValue, redactMapping_alike h]

theorem redactItems_alike {vs ws : List Value} (key : Str) :
    AlikeItems vs ws → redactItems key vs = redactItems key ws
  | .nil => rfl
  | .cons h hs => by rw [redactItems, redactItems, redactValue_alike key h, redactItems_alike key hs]

theorem redactMapping_alike {fs gs : List (Str × Value)} :
    AlikeFields fs gs → redactMapping fs = redactMapping gs
  | .nil => rfl
  | .shown h hs => by
    rw [redactMapping, redactMapping, redactValue_alike _ h, redactMapping_alike hs]
  | .hidden v w h hs => by
    rw [redactMapping, redactMapping, redactValue_of_hides h v w, redactMapping_alike hs]

end

/-- **Redaction does not interfere**: mappings that differ only in values under
keys that hide, at any depth through mappings and lists, are redacted alike. -/
theorem redaction_noninterferes {fs gs : List (Str × Value)} (h : AlikeFields fs gs) :
    redactMapping fs = redactMapping gs := redactMapping_alike h

theorem redaction_noninterferes_nested :
    redactMapping [("body".toList, .list [.dict [("User_Email".toList, .str "a@b.c".toList)]])] =
      redactMapping [("body".toList, .list [.dict [("User_Email".toList, .int 7)]])] :=
  redaction_noninterferes <| .shown
    (.list (.cons (.dict (.hidden _ _ (.inr (by decide)) .nil)) .nil)) .nil

/-! ## The suffix of a record -/

/-- `RESERVED_RECORD_ATTRS`: what the standard library puts on a record. -/
def reservedRecordAttrs : List Str :=
  ["name".toList, "msg".toList, "args".toList, "levelname".toList, "levelno".toList,
    "pathname".toList, "filename".toList, "module".toList, "exc_info".toList, "exc_text".toList,
    "stack_info".toList, "lineno".toList, "funcName".toList, "created".toList, "msecs".toList,
    "relativeCreated".toList, "thread".toList, "threadName".toList, "processName".toList,
    "process".toList, "taskName".toList, "message".toList, "asctime".toList]

/-- `EMITTED_TEXT_KEYS`. -/
def emittedTextKeys : List Str :=
  ["request_id".toList, "path".toList, "endpoint".toList, "source".toList, "environment".toList,
    "provider".toList, "llm_provider".toList, "embedding_provider".toList, "model".toList,
    "kind".toList, "call_site".toList, "status".toList, "index_version".toList,
    "index_versions".toList, "index_stamp_status".toList, "index_embedding_provider".toList,
    "index_embedding_model".toList, "configured_embedding_provider".toList,
    "configured_embedding_model".toList, "cause_type".toList, "error_type".toList,
    "spend_usd".toList, "url".toList, "old_url".toList]

/-- `MAX_EMITTED_TEXT`. -/
def maxEmittedText : Nat := 200

/-- `[A-Za-z0-9_.-]`. -/
def isKeyChar (c : Char) : Bool :=
  isUpperAscii c || isLowerAscii c || isAsciiDigit c || "_.-".toList.contains c

/-- `UNSAFE_KEY_CHARS_RE.sub("_", key)`. -/
def safeKey (key : Str) : Str := key.map fun c => if isKeyChar c then c else '_'

/-- The type of a value, and how many items it has. -/
def shape (typeName : Str) (size : Nat) : Str :=
  '<' :: (typeName ++ " n=".toList ++ natStr size ++ ['>'])

/-- `render_extra_value`; `none` raises `ValueError`. -/
def renderExtraValue (p : Printing) (key : Str) : Value → Option Str
  | .str s =>
    if lower key ∈ emittedTextKeys then
      (pyStr p (redactValue key (.str s))).map fun rendered =>
        reprStr p (truncated maxEmittedText rendered)
    else some ("<str len=".toList ++ natStr s.length ++ ['>'])
  | .list items => some (shape "list".toList items.length)
  | .tuple items => some (shape "tuple".toList items.length)
  | .dict items => some (shape "dict".toList items.length)
  | .object typeName _ (some size) => some (shape typeName size)
  | .object typeName _ none => some ('<' :: (typeName ++ ['>']))
  | value => pyStr p value

/-- One part of the suffix. -/
def renderField (p : Printing) (field : Str × Value) : Str :=
  safeKey field.1 ++
    '=' :: (renderExtraValue p field.1 field.2).getD "<unrenderable ValueError>".toList

/-- `render_extras`. -/
def renderExtras (p : Printing) (fields : List (Str × Value)) : Str :=
  let parts := (fields.filter fun field => field.1 ∉ reservedRecordAttrs).map (renderField p)
  if parts.isEmpty then [] else ' ' :: List.intercalate [' '] parts

/-! ## What is suppressed does not show -/

/-- The values differ only in what the suffix does not print of them. -/
inductive SameShape (key : Str) : Value → Value → Prop
  | refl (v : Value) : SameShape key v v
  | str {s t : Str} (hkey : lower key ∉ emittedTextKeys) (h : s.length = t.length) :
    SameShape key (.str s) (.str t)
  | list {vs ws : List Value} (h : vs.length = ws.length) : SameShape key (.list vs) (.list ws)
  | tuple {vs ws : List Value} (h : vs.length = ws.length) : SameShape key (.tuple vs) (.tuple ws)
  | dict {fs gs : List (Str × Value)} (h : fs.length = gs.length) :
    SameShape key (.dict fs) (.dict gs)

/-- The fields have the same keys, and values that differ only in what is not
printed. -/
inductive SameFields : List (Str × Value) → List (Str × Value) → Prop
  | nil : SameFields [] []
  | cons {key : Str} {v w : Value} {fs gs : List (Str × Value)} (h : SameShape key v w)
    (hs : SameFields fs gs) : SameFields ((key, v) :: fs) ((key, w) :: gs)

theorem renderExtraValue_sameShape (p : Printing) {key : Str} {v w : Value} (h : SameShape key v w) :
    renderExtraValue p key v = renderExtraValue p key w := by
  cases h with
  | refl => rfl
  | str hkey h => rw [renderExtraValue, renderExtraValue, if_neg hkey, if_neg hkey, h]
  | list h => rw [renderExtraValue, renderExtraValue, h]
  | tuple h => rw [renderExtraValue, renderExtraValue, h]
  | dict h => rw [renderExtraValue, renderExtraValue, h]

/-- The parts of the suffix. -/
theorem parts_sameFields (p : Printing) {fs gs : List (Str × Value)} (h : SameFields fs gs) :
    (fs.filter fun field => field.1 ∉ reservedRecordAttrs).map (renderField p) =
      (gs.filter fun field => field.1 ∉ reservedRecordAttrs).map (renderField p) := by
  induction h with
  | nil => rfl
  | @cons key v w fs gs h hs ih =>
    by_cases hkey : key ∈ reservedRecordAttrs
    · simpa [hkey] using ih
    · have hfield : renderField p (key, v) = renderField p (key, w) := by
        rw [renderField, renderField, renderExtraValue_sameShape p h]
      simpa [hkey, hfield] using ih

theorem renderExtras_sameFields (p : Printing) {fs gs : List (Str × Value)} (h : SameFields fs gs) :
    renderExtras p fs = renderExtras p gs := by
  rw [renderExtras, renderExtras, parts_sameFields p h]

/-! ## The suffix is one line -/

/-- The text has no line end. -/
def Inline (s : Str) : Prop := ∀ c ∈ s, isLineEnd c = false

instance decidableInline (s : Str) : Decidable (Inline s) :=
  List.decidableBAll (fun c => isLineEnd c = false) s

theorem inline_nil : Inline [] := fun _ h => by cases h

theorem inline_cons {c : Char} {s : Str} (hc : isLineEnd c = false) (hs : Inline s) : Inline (c :: s) :=
  List.forall_mem_cons.mpr ⟨hc, hs⟩

theorem inline_append {s t : Str} (hs : Inline s) (ht : Inline t) : Inline (s ++ t) :=
  List.forall_mem_append.mpr ⟨hs, ht⟩

theorem inline_replicate (n : Nat) {c : Char} (hc : isLineEnd c = false) : Inline (List.replicate n c) :=
  fun _ h => List.eq_of_mem_replicate h ▸ hc

theorem Inline.take {s : Str} (h : Inline s) (n : Nat) : Inline (s.take n) :=
  fun c hc => h c (List.mem_of_mem_take hc)

theorem Inline.drop {s : Str} (h : Inline s) (n : Nat) : Inline (s.drop n) :=
  fun c hc => h c (List.mem_of_mem_drop hc)

/-- A line end is a control character, or one of three outside ASCII. -/
theorem lineEnd_cases {c : Char} (h : isLineEnd c = true) :
    c.toNat < 32 ∨ c ∈ ['\u0085', '\u2028', '\u2029'] := by
  have hmem : c ∈ ['\n', '\r', '\x0b', '\x0c', '\x1c', '\x1d', '\x1e', '\u0085', '\u2028', '\u2029'] :=
    List.contains_iff_mem.mp h
  simp only [List.mem_cons, List.not_mem_nil, or_false] at hmem ⊢
  rcases hmem with rfl | rfl | rfl | rfl | rfl | rfl | rfl | h | h | h
  all_goals first
    | exact .inl (by decide)
    | simp [h]

theorem inline_of_ascii {c : Char} (hlow : 32 ≤ c.toNat) (hhigh : c.toNat < 127) :
    isLineEnd c = false := by
  by_contra h
  rcases lineEnd_cases (eq_true_of_ne_false h) with h | h
  · omega
  · simp only [List.mem_cons, List.not_mem_nil, or_false] at h
    rcases h with rfl | rfl | rfl
    · exact absurd hhigh (by decide)
    · exact absurd hhigh (by decide)
    · exact absurd hhigh (by decide)

theorem inline_toDigits (n : Nat) : Inline (Nat.toDigits 10 n) := by
  intro c hc
  have hdigit := Nat.isDigit_of_mem_toDigits (by decide) (by decide) hc
  have hrange : 48 ≤ c.toNat ∧ c.toNat ≤ 57 := by
    simpa [Char.isDigit, UInt32.le_iff_toNat_le] using hdigit
  exact inline_of_ascii (by omega) (by omega)

theorem isLineEnd_hexDigit (n : Nat) : isLineEnd (hexDigit n) = false := by
  have hall : Inline "0123456789abcdef".toList := by decide
  rw [hexDigit, List.getD_eq_getElem?_getD]
  cases h : "0123456789abcdef".toList[n]? with
  | none => rfl
  | some c => exact hall c (List.mem_of_getElem? h)

theorem inline_hex (width n : Nat) : Inline (hex width n) := by
  intro c hc
  obtain ⟨i, _, rfl⟩ := List.mem_map.mp hc
  exact isLineEnd_hexDigit _

/-- `repr` escapes every line end. -/
theorem inline_reprChar (p : Printing) {quote : Char} (hquote : isLineEnd quote = false) (c : Char) :
    Inline (reprChar p quote c) := by
  have hpair (d : Char) (hd : isLineEnd d = false) : Inline ['\\', d] :=
    inline_cons (by decide) (inline_cons hd inline_nil)
  have hescape (d : Char) (hd : isLineEnd d = false) (width : Nat) :
      Inline (['\\', d] ++ hex width c.toNat) := inline_append (hpair d hd) (inline_hex _ _)
  unfold reprChar
  split
  · rename_i h
    refine hpair c ?_
    rcases Bool.or_eq_true_iff.mp h with h | h
    · rw [beq_iff_eq.mp h]
      exact hquote
    · rw [beq_iff_eq.mp h]
      decide
  split
  · exact hpair 't' (by decide)
  split
  · exact hpair 'n' (by decide)
  split
  · exact hpair 'r' (by decide)
  split
  · exact hescape 'x' (by decide) 2
  rename_i hcontrol
  split
  · rename_i hshown
    refine inline_cons ?_ inline_nil
    by_contra hend
    simp only [Bool.or_eq_true, decide_eq_true_eq, not_or] at hcontrol
    rcases lineEnd_cases (eq_true_of_ne_false hend) with hlow | hhigh
    · exact hcontrol.1 hlow
    · -- outside ASCII a character is shown only if it is printable
      have hnot := p.lineEnds c hhigh
      have hascii : ¬c.toNat < 127 := fun hlt =>
        hend (inline_of_ascii (by omega) hlt)
      simp [hnot, hascii] at hshown
  split
  · exact hescape 'x' (by decide) 2
  split
  · exact hescape 'u' (by decide) 4
  · exact hescape 'U' (by decide) 8

theorem inline_reprStr (p : Printing) (s : Str) : Inline (reprStr p s) := by
  have hquote : isLineEnd (if s.contains '\'' && !s.contains '"' then '"' else '\'') = false := by
    split <;> decide
  refine inline_cons hquote (inline_append ?_ (inline_cons hquote inline_nil))
  intro c hc
  obtain ⟨d, _, hd⟩ := List.mem_flatMap.mp hc
  exact inline_reprChar p hquote d c hd

theorem inline_intStr {n : Int} {s : Str} (h : intStr n = some s) : Inline s := by
  unfold intStr at h
  simp only at h
  split at h
  · cases h
  · obtain rfl := Option.some.inj h
    split
    · exact inline_cons (by decide) (inline_toDigits _)
    · exact inline_toDigits _

theorem inline_digitStr (digits : List (Fin 10)) : Inline (PyFloat.digitStr digits) := by
  intro c hc
  obtain ⟨d, _, rfl⟩ := List.mem_map.mp hc
  have hall : ∀ d : Fin 10, isLineEnd (Nat.digitChar d.val) = false := by decide
  exact hall d

theorem inline_positional (digits : List (Fin 10)) (point : Int) :
    Inline (PyFloat.positional digits point) := by
  have hdigits := inline_digitStr digits
  unfold PyFloat.positional
  simp only
  split
  · refine inline_append (inline_append ?_ (inline_replicate _ (by decide))) hdigits
    decide
  split
  · refine inline_append (inline_append hdigits (inline_replicate _ (by decide))) ?_
    decide
  · exact inline_append (hdigits.take _) (inline_cons (by decide) (hdigits.drop _))

theorem inline_scientific (digits : List (Fin 10)) (point : Int) :
    Inline (PyFloat.scientific digits point) := by
  have hdigits := inline_digitStr digits
  have hexponent := inline_toDigits (point - 1).natAbs
  unfold PyFloat.scientific
  simp only
  refine inline_append (inline_append (hdigits.take _) ?_) (inline_cons (by decide) ?_)
  · split
    · exact inline_nil
    · exact inline_cons (by decide) (hdigits.drop _)
  · refine inline_cons (by split <;> decide) ?_
    split
    · exact inline_cons (by decide) hexponent
    · exact hexponent

theorem inline_floatRepr (x : PyFloat) : Inline x.repr := by
  cases x with
  | nan => decide
  | inf negative => cases negative <;> decide
  | finite negative digits point =>
    refine inline_append ?_ ?_
    · cases negative
      · exact inline_nil
      · exact inline_cons (by decide) inline_nil
    · split
      · exact inline_positional _ _
      · exact inline_scientific _ _

theorem inline_shape {typeName : Str} (h : Inline typeName) (size : Nat) : Inline (shape typeName size) := by
  refine inline_cons (by decide) (inline_append (inline_append (inline_append h ?_)
    (inline_toDigits _)) (inline_cons (by decide) inline_nil))
  decide

/-- A value of one of the types that a record's fields hold. -/
def IsPlain : Value → Prop
  | .object _ _ _ => False
  | _ => True

theorem inline_renderExtraValue (p : Printing) (key : Str) {value : Value} (hplain : IsPlain value)
    {s : Str} (h : renderExtraValue p key value = some s) : Inline s := by
  cases value with
  | none =>
    obtain rfl := Option.some.inj h
    decide
  | bool b =>
    obtain rfl := Option.some.inj h
    cases b <;> decide
  | int n => exact inline_intStr h
  | float x =>
    obtain rfl := Option.some.inj h
    exact inline_floatRepr x
  | str text =>
    rw [renderExtraValue] at h
    split at h
    · obtain ⟨rendered, _, rfl⟩ := Option.map_eq_some_iff.mp h
      exact inline_reprStr p _
    · obtain rfl := Option.some.inj h
      refine inline_append (inline_append ?_ (inline_toDigits _)) (inline_cons (by decide) inline_nil)
      decide
  | list items =>
    obtain rfl := Option.some.inj h
    exact inline_shape (by decide) _
  | tuple items =>
    obtain rfl := Option.some.inj h
    exact inline_shape (by decide) _
  | dict items =>
    obtain rfl := Option.some.inj h
    exact inline_shape (by decide) _
  | object typeName text size => cases hplain

theorem isLineEnd_of_isKeyChar {c : Char} (h : isKeyChar c = true) : isLineEnd c = false := by
  simp only [isKeyChar, isUpperAscii, isLowerAscii, isAsciiDigit, Bool.or_eq_true, Bool.and_eq_true,
    decide_eq_true_eq, Char.le_def, UInt32.le_iff_toNat_le] at h
  rcases h with ((⟨hlow, hhigh⟩ | ⟨hlow, hhigh⟩) | ⟨hlow, hhigh⟩) | h
  · exact inline_of_ascii (le_trans (by decide) hlow) (lt_of_le_of_lt hhigh (by decide))
  · exact inline_of_ascii (le_trans (by decide) hlow) (lt_of_le_of_lt hhigh (by decide))
  · exact inline_of_ascii (le_trans (by decide) hlow) (lt_of_le_of_lt hhigh (by decide))
  · have hall : Inline "_.-".toList := by decide
    exact hall c (List.contains_iff_mem.mp h)

theorem inline_safeKey (key : Str) : Inline (safeKey key) := by
  intro c hc
  obtain ⟨d, _, rfl⟩ := List.mem_map.mp hc
  split
  · exact isLineEnd_of_isKeyChar ‹_›
  · decide

theorem inline_renderField (p : Printing) {field : Str × Value} (hplain : IsPlain field.2) :
    Inline (renderField p field) := by
  refine inline_append (inline_safeKey _) (inline_cons (by decide) ?_)
  cases h : renderExtraValue p field.1 field.2 with
  | none => decide
  | some s => exact inline_renderExtraValue p _ hplain h

theorem inline_intercalate {parts : List Str} (h : ∀ part ∈ parts, Inline part) :
    Inline (List.intercalate [' '] parts) := by
  induction parts with
  | nil => exact inline_nil
  | cons part parts ih =>
    cases parts with
    | nil => simpa [List.intercalate] using h
    | cons next parts =>
      have hrest := ih fun q hq => h q (List.mem_cons_of_mem _ hq)
      have hcons : List.intercalate [' '] (part :: next :: parts) =
          part ++ ' ' :: List.intercalate [' '] (next :: parts) := by
        simp [List.intercalate, List.intersperse]
      rw [hcons]
      exact inline_append (h part List.mem_cons_self) (inline_cons (by decide) hrest)

theorem inline_renderExtras (p : Printing) {fields : List (Str × Value)}
    (h : ∀ field ∈ fields, IsPlain field.2) : Inline (renderExtras p fields) := by
  unfold renderExtras
  simp only
  split
  · exact inline_nil
  · refine inline_cons (by decide) (inline_intercalate ?_)
    intro part hpart
    obtain ⟨field, hfield, rfl⟩ := List.mem_map.mp hpart
    exact inline_renderField p (h field (List.mem_of_mem_filter hfield))

/-- **The suffix shows no suppressed value and no line end**: records that differ
only in what is not printed have the same suffix, and the suffix of a record is
one line. -/
theorem extras_bounded (p : Printing) {fs : List (Str × Value)}
    (hplain : ∀ field ∈ fs, IsPlain field.2) :
    (∀ gs, SameFields fs gs → renderExtras p fs = renderExtras p gs) ∧
      ∀ c ∈ renderExtras p fs, isLineEnd c = false :=
  ⟨fun _ h => renderExtras_sameFields p h, inline_renderExtras p hplain⟩

theorem extras_bounded_body :
    renderExtras .ascii [("body".toList, .str "a\nb".toList), ("path".toList, .str "/v1\n".toList)] =
        renderExtras .ascii [("body".toList, .str "xyz".toList), ("path".toList, .str "/v1\n".toList)] ∧
      ∀ c ∈ renderExtras .ascii
        [("body".toList, .str "a\nb".toList), ("path".toList, .str "/v1\n".toList)],
        isLineEnd c = false := by
  have hplain : ∀ field ∈ [("body".toList, Value.str "a\nb".toList),
      ("path".toList, Value.str "/v1\n".toList)], IsPlain field.2 := by
    simp [IsPlain]
  exact ⟨(extras_bounded .ascii hplain).1 _ (.cons (.str (by decide) rfl) (.cons (.refl _) .nil)),
    (extras_bounded .ascii hplain).2⟩

end CiteVyn.Core
