import CiteVyn.Text.JsonEncoder

/-! # The MCP dispatcher

One JSON-RPC request is answered, refused, acknowledged or handed over to `_ask_docs`. Its
id, and the start of a method that is not known, come back in the response: the checks on
them are of types, and a text may hold a surrogate, which no response can. -/
namespace CiteVyn.Mcp.Server
open CiteVyn.Text CiteVyn.Text.Json

def protocolVersions : List String := ["2025-06-18", "2025-03-26", "2024-11-05"]

/-- `MAX_BODY_BYTES` -/
def maxBodyBytes : Nat := 64 * 1024

def maxQuestionChars : Nat := 4000

def askDocsTool : Content := .object [
  ("name", .text "ask_docs"),
  ("description", .text ("Ask a question about the Claude API, Claude Code, OpenAI Codex or the Gemini " ++
    "API. Returns a finished answer drawn only from the official documentation, " ++
    "with the pages it cites. Refuses rather than guesses when the docs do not " ++ "support an answer.")),
  ("inputSchema", .object [
    ("type", .text "object"),
    ("properties", .object [
      ("question", .object [("type", .text "string"), ("description", .text "The question, in plain language.")])]),
    ("required", .list [.text "question"])])]

/-- A request with a key that was accepted: its `Content-Length` (empty where there is
none) and the pieces of its body. -/
structure Request where
  contentLength : List UInt8
  chunks : List (List UInt8)

def Request.body (r : Request) : List UInt8 := r.chunks.flatten

/-- What becomes of a request. -/
inductive Outcome where
  /-- `202` and no body -/
  | accepted
  | respond (content : Content)
  | askDocs (rid : Content) (question : PyStr)
  /-- an exception that no one handles -/
  | raised

/-- There is a response that can be sent, or `_ask_docs` sees to it. -/
def Outcome.Handled : Outcome → Prop
  | .accepted => True
  | .respond content => (render content).isSome
  | .askDocs _ _ => True
  | .raised => False

instance (o : Outcome) : Decidable o.Handled :=
  match o with
  | .accepted => inferInstanceAs (Decidable True)
  | .respond content => inferInstanceAs (Decidable ((render content).isSome = true))
  | .askDocs _ _ => inferInstanceAs (Decidable True)
  | .raised => inferInstanceAs (Decidable False)

/-- `_result` -/
def result (rid : Content) (result : Content) : Outcome :=
  .respond (.object [("jsonrpc", .text "2.0"), ("id", rid), ("result", result)])

/-- `_error` -/
def error (rid : Content) (code : Int) (message : PyStr) : Outcome :=
  .respond (.object [("jsonrpc", .text "2.0"), ("id", rid),
    ("error", .object [("code", .int code), ("message", .str message)])])

/-- An error with a text of the program's own. -/
def refusal (rid : Content) (code : Int) (message : String) : Outcome := error rid code (codes message.toList)

/-- `str.isdigit` of a header, which is decoded from Latin-1: the superscripts are digits. -/
def isDigits (header : List UInt8) : Bool :=
  !header.isEmpty && header.all fun b => (0x30 ≤ b && b < 0x3A) || b == 0xB2 || b == 0xB3 || b == 0xB9

/-- `int` of a header, which takes no superscript and not too many digits. -/
def intOf (header : List UInt8) : Option Nat :=
  if (header.all fun b => 0x30 ≤ b && b < 0x3A) && header.length ≤ maxStrDigits then
    some (header.foldl (fun n b => n * 10 + (b.toNat - 0x30)) 0)
  else none

/-- `declared.isdigit() and int(declared) > MAX_BODY_BYTES`, nothing where it raises. -/
def declaredTooLarge (header : List UInt8) : Option Bool :=
  if isDigits header then (intOf header).map fun n => maxBodyBytes < n else some false

/-- The pieces of the body up to the cap, after `size` bytes of it. -/
def readBody (size : Nat) : List (List UInt8) → Option (List UInt8)
  | [] => some []
  | chunk :: chunks =>
    if maxBodyBytes < size + chunk.length then none
    else (readBody (size + chunk.length) chunks).map (chunk ++ ·)

abbrev Members := List (PyStr × JsonValue)

/-- `message.get(key)`: of two members with one key the last one counts. -/
def get (members : Members) (key : String) : Option JsonValue :=
  (members.reverse.find? fun m => m.1 = codes key.toList).map (·.2)

/-- `_obj` -/
def obj : Option JsonValue → Members
  | some (.dict members) => members
  | _ => []

/-- The value is this text. -/
def isText (value : Option JsonValue) (s : String) : Bool :=
  match value with
  | some (.str t) => t = codes s.toList
  | _ => false

/-- `id_value is None or isinstance(id_value, str) or type(id_value) is int` -/
def idContent : JsonValue → Option Content
  | .null => some .null
  | .int i => some (.int i)
  | .str s => some (.str s)
  | _ => none

def initialized (params : Members) : Content :=
  let asked := get params "protocolVersion"
  let version := (protocolVersions.find? (isText asked)).getD "2025-06-18"
  .object [
    ("protocolVersion", .text version),
    ("capabilities", .object [("tools", .object [])]),
    ("serverInfo", .object [("name", .text "citevyn"), ("version", .text "1")])]

/-- `tools/call` -/
def toolsCall (rid : Content) (params : Members) : Outcome :=
  if !isText (get params "name") "ask_docs" then refusal rid (-32602) "Unknown tool. The only tool is ask_docs."
  else
    match get (obj (get params "arguments")) "question" with
    | some (.str question) =>
      if question.isBlank then refusal rid (-32602) "ask_docs needs a non-empty 'question' string."
      else if maxQuestionChars < question.length then
        refusal rid (-32602) "A question can be at most 4000 characters."
      else .askDocs rid question
    | _ => refusal rid (-32602) "ask_docs needs a non-empty 'question' string."

/-- The method of a request that wants an answer. -/
def call (rid : Content) (method : PyStr) (params : Members) : Outcome :=
  if method = codes "initialize".toList then result rid (initialized params)
  else if method = codes "ping".toList then result rid (.object [])
  else if method = codes "tools/list".toList then result rid (.object [("tools", .list [askDocsTool])])
  else if method ≠ codes "tools/call".toList then
    error rid (-32601) (codes "Method not found: ".toList ++ method.take 64)
  else toolsCall rid params

def dispatch : JsonValue → Outcome
  | .dict message =>
    match get message "method" with
    | some (.str method) =>
      match get message "id" with
      | none => .accepted
      | some id =>
        match idContent id with
        | none => refusal .null (-32600) "Invalid request: an id is a string, an integer or null."
        | some rid => call rid method (obj (get message "params"))
    | _ => refusal .null (-32600) "Invalid request: send one JSON-RPC 2.0 request object."
  | _ => refusal .null (-32600) "Invalid request: send one JSON-RPC 2.0 request object."

/-- `mcp`, where `limit` containers may be open before Python raises `RecursionError`. -/
def mcp (limit : Nat) (request : Request) : Outcome :=
  match declaredTooLarge request.contentLength with
  | none => .raised
  | some true => refusal .null (-32600) "Request too large."
  | some false =>
    match readBody 0 request.chunks with
    | none => refusal .null (-32600) "Request too large."
    | some raw =>
      match loads limit raw with
      | .error .fuel => .raised
      | .error _ => refusal .null (-32700) "Parse error."
      | .ok parsed => dispatch parsed

/-! ## Which requests are handled -/

theorem handled_respond (content : Content) : (Outcome.respond content).Handled ↔ Writable content :=
  render_isSome content

theorem handled_result (rid content : Content) : (result rid content).Handled ↔ Writable rid ∧ Writable content := by
  unfold result
  rw [handled_respond]
  simp

theorem handled_error (rid : Content) {code : Int} (message : PyStr) (hcode : code.natAbs < 10 ^ maxStrDigits) :
    (error rid code message).Handled ↔ Writable rid ∧ Clean message := by
  unfold error
  rw [handled_respond]
  simp [Writable, hcode]

/-- The codes of the program's errors have few digits. -/
theorem code_small {code : Int} (h : code.natAbs < 10 ^ 5) : code.natAbs < 10 ^ maxStrDigits :=
  h.trans_le (Nat.pow_le_pow_right (by decide) (by decide))

theorem handled_refusal (rid : Content) {code : Int} (message : String) (hcode : code.natAbs < 10 ^ 5) :
    (refusal rid code message).Handled ↔ Writable rid := by
  unfold refusal
  rw [handled_error rid _ (code_small hcode)]
  simp

theorem handled_refusal_null {code : Int} (message : String) (hcode : code.natAbs < 10 ^ 5) :
    (refusal .null code message).Handled :=
  (handled_refusal .null message hcode).mpr (by simp [Writable])

/-- The request is one that `_ask_docs` answers. -/
def HandsOver (method : PyStr) (params : Members) : Prop :=
  method = codes "tools/call".toList ∧ isText (get params "name") "ask_docs" ∧
    ∃ question, get (obj (get params "arguments")) "question" = some (.str question) ∧
      question.isBlank = false ∧ question.length ≤ maxQuestionChars

/-- The dispatcher has a branch for the method. -/
def Known (method : PyStr) : Prop :=
  method = codes "initialize".toList ∨ method = codes "ping".toList ∨ method = codes "tools/list".toList ∨
    method = codes "tools/call".toList

theorem writable_initialized (params : Members) : Writable (initialized params) := by
  unfold initialized
  simp

theorem writable_askDocsTool : Writable askDocsTool := by
  unfold askDocsTool
  simp [Writable, WritableItems]

theorem handled_toolsCall (rid : Content) (params : Members) :
    (toolsCall rid params).Handled ↔ HandsOver (codes "tools/call".toList) params ∨ Writable rid := by
  unfold toolsCall
  split
  · rename_i hname
    rw [handled_refusal rid _ (by decide)]
    exact ⟨.inr, fun h => h.resolve_left fun hands => by simp [hands.2.1] at hname⟩
  rename_i hname
  split
  · rename_i question hquestion
    split
    · rename_i hblank
      rw [handled_refusal rid _ (by decide)]
      refine ⟨.inr, fun h => h.resolve_left fun ⟨_, _, q, hq, hnot, _⟩ => ?_⟩
      cases hquestion.symm.trans hq
      rw [hblank] at hnot
      cases hnot
    split
    · rename_i hlong
      rw [handled_refusal rid _ (by decide)]
      refine ⟨.inr, fun h => h.resolve_left fun ⟨_, _, q, hq, _, hle⟩ => ?_⟩
      cases hquestion.symm.trans hq
      exact absurd hlong (Nat.not_lt.mpr hle)
    · rename_i hblank hlong
      refine ⟨fun _ => .inl ⟨rfl, by simpa only [Bool.not_eq_true, Bool.not_eq_false'] using hname, question, hquestion, by simpa using hblank,
        Nat.not_lt.mp hlong⟩, fun _ => trivial⟩
  · rename_i hnone
    rw [handled_refusal rid _ (by decide)]
    exact ⟨.inr, fun h => h.resolve_left fun ⟨_, _, q, hq, _⟩ => hnone q hq⟩

theorem handled_call (rid : Content) (method : PyStr) (params : Members) :
    (call rid method params).Handled ↔
      HandsOver method params ∨ Writable rid ∧ (Known method ∨ Clean (method.take 64)) := by
  have hanswer (hne : method ≠ codes "tools/call".toList) {o : Outcome} {P : Prop} (ho : o.Handled ↔ Writable rid ∧ P)
      (hP : P ↔ Known method ∨ Clean (method.take 64)) :
      o.Handled ↔ HandsOver method params ∨ Writable rid ∧ (Known method ∨ Clean (method.take 64)) := by
    rw [ho, hP]
    exact ⟨.inr, fun h => h.resolve_left fun hands => hne hands.1⟩
  unfold call
  split
  · rename_i h
    refine hanswer (by rw [h]; decide) (handled_result _ _) ?_
    simp only [writable_initialized, true_iff]
    exact .inl (.inl h)
  split
  · rename_i h
    refine hanswer (by rw [h]; decide) (handled_result _ _) ?_
    exact ⟨fun _ => .inl (.inr (.inl h)), fun _ => (writable_object []).mpr fun _ hm => by cases hm⟩
  split
  · rename_i h
    refine hanswer (by rw [h]; decide) (handled_result _ _) ?_
    simp only [writable_object, List.forall_mem_singleton, Writable, WritableItems, writable_askDocsTool, and_self,
      true_iff]
    exact .inl (.inr (.inr (.inl h)))
  split
  · rename_i hinit hping hlist hne
    refine hanswer hne (handled_error rid _ (code_small (by decide))) ?_
    have hunknown : ¬ Known method := fun hknown =>
      hknown.elim hinit fun h => h.elim hping fun h => h.elim hlist hne
    simp only [clean_append, clean_codes, true_and, hunknown, false_or]
  · rename_i h
    rw [ne_eq, not_not] at h
    subst h
    rw [handled_toolsCall]
    have hknown : Known (codes "tools/call".toList) := .inr (.inr (.inr rfl))
    simp only [hknown, true_or, and_true]

theorem get_mem {message : Members} {key : String} {value : JsonValue} (h : get message key = some value) :
    ∃ m ∈ message, m.2 = value := by
  obtain ⟨m, hm, rfl⟩ := Option.map_eq_some_iff.mp h
  exact ⟨m, List.mem_reverse.mp (List.mem_of_find?_eq_some hm), rfl⟩

/-- The id is a text with a surrogate. -/
def BadId (id : JsonValue) : Prop := ∃ s, id = .str s ∧ ¬ Clean s

theorem writable_id {id : JsonValue} {rid : Content} (h : idContent id = some rid) (hsmall : id.small) :
    Writable rid ↔ ¬ BadId id := by
  unfold BadId
  cases id with
  | null =>
    cases h
    simp [Writable]
  | int i =>
    cases h
    simpa [Writable] using hsmall i rfl
  | str s =>
    cases h
    simp [Writable]
  | bool b => cases h
  | float literal => cases h
  | list items => cases h
  | dict members => cases h

/-- The response to the message would hold a surrogate: it has a method and an id of their
types, `_ask_docs` does not see to it, and the id or the part of a method that is not known
is no text that UTF-8 can spell. -/
def Unsendable (message : Members) : Prop :=
  ∃ method id rid, get message "method" = some (.str method) ∧ get message "id" = some id ∧
    idContent id = some rid ∧ ¬ HandsOver method (obj (get message "params")) ∧
    (BadId id ∨ ¬ Known method ∧ ¬ Clean (method.take 64))

theorem handled_dispatch {message : Members} (hsmall : ∀ m ∈ message, m.2.small) :
    (dispatch (.dict message)).Handled ↔ ¬ Unsendable message := by
  unfold dispatch
  dsimp only
  split
  · rename_i method hmethod
    split
    · rename_i hid
      refine ⟨fun _ ⟨_, id, _, _, hid', _⟩ => ?_, fun _ => trivial⟩
      cases hid.symm.trans hid'
    rename_i id hid
    split
    · rename_i hrid
      refine ⟨fun _ ⟨_, id', _, _, hid', hrid', _⟩ => ?_, fun _ => handled_refusal_null _ (by decide)⟩
      cases hid.symm.trans hid'
      cases hrid.symm.trans hrid'
    · rename_i rid hrid
      obtain ⟨m, hm, heq⟩ := get_mem hid
      rw [handled_call, writable_id hrid (heq ▸ hsmall m hm)]
      constructor
      · rintro h ⟨method', id', rid', hmethod', hid', hrid', hhands, hbad⟩
        cases hmethod.symm.trans hmethod'
        cases hid.symm.trans hid'
        obtain ⟨hgood, hclean⟩ := h.resolve_left hhands
        exact hbad.elim hgood fun ⟨hunknown, hdirty⟩ => hclean.elim hunknown hdirty
      · intro h
        by_contra hnot
        obtain ⟨hhands, hbad⟩ := not_or.mp hnot
        refine h ⟨method, id, rid, hmethod, hid, hrid, hhands, ?_⟩
        rcases not_and_or.mp hbad with hbad | hbad
        · exact .inl (not_not.mp hbad)
        · exact .inr (not_or.mp hbad)
  · rename_i hmethod
    refine ⟨fun _ ⟨method, _, _, hmethod', _⟩ => hmethod method hmethod', fun _ => handled_refusal_null _ (by decide)⟩

theorem handled_dispatch_other {parsed : JsonValue} (h : ∀ message, parsed ≠ .dict message) :
    (dispatch parsed).Handled := by
  cases parsed with
  | dict message => exact absurd rfl (h message)
  | _ => exact handled_refusal_null _ (by decide)

theorem readBody_eq (chunks : List (List UInt8)) : ∀ size, size ≤ maxBodyBytes →
    readBody size chunks = if maxBodyBytes < size + chunks.flatten.length then none else some chunks.flatten := by
  induction chunks with
  | nil =>
    intro size hsize
    rw [if_neg (by simpa using hsize)]
    rfl
  | cons chunk chunks ih =>
    intro size hsize
    unfold readBody
    rw [List.flatten_cons, List.length_append]
    split
    · rw [if_pos (by omega)]
    · rename_i h
      rw [ih _ (Nat.not_lt.mp h), ← Nat.add_assoc]
      split
      · rfl
      · rfl

/-- The request ends in an exception: `int` refuses its `Content-Length`, or its body is
read, and it is a message whose response cannot be sent. -/
def Faults (limit : Nat) (request : Request) : Prop :=
  declaredTooLarge request.contentLength = none ∨
    declaredTooLarge request.contentLength = some false ∧ request.body.length ≤ maxBodyBytes ∧
      ∃ message, loads limit request.body = .ok (.dict message) ∧ Unsendable message

/-- Every other request is handled. -/
theorem handled_iff (limit : Nat) (request : Request) : (mcp limit request).Handled ↔ ¬ Faults limit request := by
  unfold mcp Faults
  split
  · rename_i hlength
    exact ⟨fun h => h.elim, fun h => absurd (.inl hlength) h⟩
  · rename_i hlength
    rw [hlength]
    exact ⟨fun _ h => by simp at h, fun _ => handled_refusal_null _ (by decide)⟩
  rename_i hlength
  rw [hlength, readBody_eq _ 0 (Nat.zero_le _), Nat.zero_add]
  by_cases hsize : maxBodyBytes < request.chunks.flatten.length
  · rw [if_pos hsize]
    refine ⟨fun _ h => ?_, fun _ => handled_refusal_null _ (by decide)⟩
    obtain ⟨-, hle, -⟩ := h.resolve_left (by simp)
    exact absurd hsize (Nat.not_lt.mpr hle)
  rw [if_neg hsize]
  dsimp only
  split
  · rename_i hloads
    exact absurd hloads (loads_ne_fuel limit _)
  · rename_i e _ hloads
    refine ⟨fun _ h => ?_, fun _ => handled_refusal_null _ (by decide)⟩
    obtain ⟨-, -, message, hmessage, -⟩ := h.resolve_left (by simp)
    cases hloads.symm.trans hmessage
  · rename_i parsed hloads
    by_cases hdict : ∃ message, parsed = .dict message
    · obtain ⟨message, rfl⟩ := hdict
      rw [handled_dispatch (loads_small hloads)]
      constructor
      · intro h hfaults
        obtain ⟨-, -, message', hmessage, hunsendable⟩ := hfaults.resolve_left (by simp)
        cases hloads.symm.trans hmessage
        exact h hunsendable
      · exact fun h hunsendable => h (.inr ⟨rfl, Nat.not_lt.mp hsize, message, hloads, hunsendable⟩)
    · refine ⟨fun _ hfaults => ?_, fun _ => handled_dispatch_other fun message heq => hdict ⟨message, heq⟩⟩
      obtain ⟨-, -, message, hmessage, -⟩ := hfaults.resolve_left (by simp)
      cases hloads.symm.trans hmessage
      exact hdict ⟨message, rfl⟩

/-- A `ping` whose id is an escaped surrogate. -/
def surrogateId : Request where
  contentLength := []
  chunks := ["\x7b\"id\":\"\\ud800\",\"method\":\"ping\"\x7d".toList.map fun c => UInt8.ofNat c.toNat]

theorem surrogateId_not_handled : surrogateId.body.length ≤ maxBodyBytes ∧ ¬ (mcp 1000 surrogateId).Handled := by
  decide +kernel

end CiteVyn.Mcp.Server
