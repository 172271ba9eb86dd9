import CiteVyn.Text.Json

/-! # `json.dumps` with `ensure_ascii=False`

The encoder, and which contents have a strict UTF-8 in the end. -/
namespace CiteVyn.Text.Json

/-- What a response holds: values of `loads`, without its floats. -/
inductive Content where
  | null
  | bool (b : Bool)
  | int (i : Int)
  | str (s : PyStr)
  | list (items : List Content)
  | dict (members : List (PyStr × Content))

/-- A text of the program's own. -/
def Content.text (s : String) : Content := .str (codes s.toList)

/-- An object with keys of the program's own. -/
def Content.object (members : List (String × Content)) : Content :=
  .dict (members.map fun m => (codes m.1.toList, m.2))

def hexDigit (n : Nat) : CodePoint := codeOf (if n < 10 then Char.ofNat (0x30 + n) else Char.ofNat (0x57 + n))

/-- `ESCAPE_DCT` -/
def escape (c : CodePoint) : PyStr :=
  if c = codeOf '"' then codes ['\\', '"']
  else if c = codeOf '\\' then codes ['\\', '\\']
  else if c.val = 10 then codes ['\\', 'n']
  else if c.val = 13 then codes ['\\', 'r']
  else if c.val = 9 then codes ['\\', 't']
  else if c.val = 12 then codes ['\\', 'f']
  else if c.val = 8 then codes ['\\', 'b']
  else if c.val < 0x20 then codes ['\\', 'u', '0', '0'] ++ [hexDigit (c.val / 16), hexDigit (c.val % 16)]
  else [c]

/-- `py_encode_basestring` -/
def quote (s : PyStr) : PyStr := codeOf '"' :: s.flatMap escape ++ [codeOf '"']

/-- `str` of an integer: too many digits are a `ValueError`. -/
def intText (i : Int) : Option PyStr :=
  if 10 ^ maxStrDigits ≤ i.natAbs then none else some (codes (toString i).toList)

mutual

/-- `json.dumps(content, ensure_ascii=False, separators=(",", ":"))` -/
def dumps : Content → Option PyStr
  | .null => some (codes "null".toList)
  | .bool true => some (codes "true".toList)
  | .bool false => some (codes "false".toList)
  | .int i => intText i
  | .str s => some (quote s)
  | .list items => (dumpItems items).map fun parts =>
      codeOf '[' :: [codeOf ','].intercalate parts ++ [codeOf ']']
  | .dict members => (dumpMembers members).map fun parts =>
      codeOf '\x7b' :: [codeOf ','].intercalate parts ++ [codeOf '\x7d']

def dumpItems : List Content → Option (List PyStr)
  | [] => some []
  | item :: items => (dumps item).bind fun part => (dumpItems items).map (part :: ·)

def dumpMembers : List (PyStr × Content) → Option (List PyStr)
  | [] => some []
  | (key, value) :: members =>
    (dumps value).bind fun part => (dumpMembers members).map ((quote key ++ codeOf ':' :: part) :: ·)

end

/-- `JSONResponse.render`: nothing where it raises. -/
def render (content : Content) : Option (List UInt8) := (dumps content).bind encodeUtf8

/-! ## What has a rendering -/

mutual

/-- Every text is clean, and every integer has digits that `str` gives. -/
def Writable : Content → Prop
  | .null => True
  | .bool _ => True
  | .int i => i.natAbs < 10 ^ maxStrDigits
  | .str s => Clean s
  | .list items => WritableItems items
  | .dict members => WritableMembers members

def WritableItems : List Content → Prop
  | [] => True
  | item :: items => Writable item ∧ WritableItems items

def WritableMembers : List (PyStr × Content) → Prop
  | [] => True
  | (key, value) :: members => Clean key ∧ Writable value ∧ WritableMembers members

end

theorem clean_escape (c : CodePoint) : Clean (escape c) ↔ isSurrogate c = false := by
  have hof {s : PyStr} (hs : Clean s) (hc : c.val < 0x80) : Clean s ↔ isSurrogate c = false :=
    ⟨fun _ => by simp [isSurrogate]; omega, fun _ => hs⟩
  unfold escape
  split
  · rename_i h
    exact hof (clean_codes _) (by rw [h]; decide)
  split
  · rename_i h
    exact hof (clean_codes _) (by rw [h]; decide)
  split
  · exact hof (clean_codes _) (by omega)
  split
  · exact hof (clean_codes _) (by omega)
  split
  · exact hof (clean_codes _) (by omega)
  split
  · exact hof (clean_codes _) (by omega)
  split
  · exact hof (clean_codes _) (by omega)
  split
  · refine hof ?_ (by omega)
    simp [hexDigit, isSurrogate_codeOf]
  · simp

@[simp] theorem clean_quote (s : PyStr) : Clean (quote s) ↔ Clean s := by
  have hescape : Clean (s.flatMap escape) ↔ Clean s := by
    induction s with
    | nil => simp
    | cons c s ih => rw [List.flatMap_cons, clean_append, clean_escape, ih, clean_cons]
  simp [quote, isSurrogate_codeOf, hescape]

theorem clean_intercalate {sep : PyStr} (hsep : Clean sep) (parts : List PyStr) :
    Clean (sep.intercalate parts) ↔ ∀ part ∈ parts, Clean part := by
  induction parts with
  | nil => simp
  | cons part parts ih =>
    cases parts with
    | nil => simp
    | cons next parts =>
      rw [List.intercalate_cons_cons, clean_append, clean_append, ih, List.forall_mem_cons (p := Clean)]
      simp [hsep]

theorem intText_writes (i : Int) : (∃ s, intText i = some s ∧ Clean s) ↔ i.natAbs < 10 ^ maxStrDigits := by
  unfold intText
  split
  · rename_i h
    exact ⟨fun ⟨_, hs, _⟩ => (by cases hs), fun hlt => absurd hlt (Nat.not_lt.mpr h)⟩
  · rename_i h
    exact ⟨fun _ => Nat.not_le.mp h, fun _ => ⟨_, rfl, clean_codes _⟩⟩

theorem clean_comma : Clean [codeOf ','] := by simp [isSurrogate_codeOf]

/-- What is written between two brackets is clean if its parts are. -/
theorem bracketed_writes {parts : Option (List PyStr)} {P : Prop} {a b : Char}
    (h : (∃ ps, parts = some ps ∧ ∀ p ∈ ps, Clean p) ↔ P) :
    (∃ s, (parts.map fun ps => codeOf a :: [codeOf ','].intercalate ps ++ [codeOf b]) = some s ∧ Clean s) ↔ P := by
  rw [← h]
  constructor
  · rintro ⟨s, hs, hclean⟩
    obtain ⟨ps, hps, rfl⟩ := Option.map_eq_some_iff.mp hs
    refine ⟨ps, hps, (clean_intercalate clean_comma ps).mp ?_⟩
    simpa [isSurrogate_codeOf] using hclean
  · rintro ⟨ps, rfl, hclean⟩
    refine ⟨_, rfl, ?_⟩
    have := (clean_intercalate clean_comma ps).mpr hclean
    simpa [isSurrogate_codeOf] using this

/-- A part and what follows it. -/
theorem cons_writes (before : PyStr) {part : Option PyStr} {parts : Option (List PyStr)} {P Q : Prop}
    (hpart : (∃ s, part = some s ∧ Clean s) ↔ P) (hparts : (∃ ps, parts = some ps ∧ ∀ p ∈ ps, Clean p) ↔ Q) :
    (∃ ps, (part.bind fun s => parts.map ((before ++ s) :: ·)) = some ps ∧ ∀ p ∈ ps, Clean p) ↔
      Clean before ∧ P ∧ Q := by
  rw [← hpart, ← hparts]
  constructor
  · rintro ⟨ps, hps, hclean⟩
    obtain ⟨s, rfl, hps⟩ := Option.bind_eq_some_iff.mp hps
    obtain ⟨rest, rfl, rfl⟩ := Option.map_eq_some_iff.mp hps
    obtain ⟨hfirst, hrest⟩ := List.forall_mem_cons.mp hclean
    obtain ⟨hbefore, hs⟩ := (clean_append _ _).mp hfirst
    exact ⟨hbefore, ⟨s, rfl, hs⟩, rest, rfl, hrest⟩
  · rintro ⟨hbefore, ⟨s, rfl, hs⟩, rest, rfl, hrest⟩
    exact ⟨_, rfl, List.forall_mem_cons.mpr ⟨(clean_append _ _).mpr ⟨hbefore, hs⟩, hrest⟩⟩

mutual

theorem dumps_writes : ∀ content, (∃ s, dumps content = some s ∧ Clean s) ↔ Writable content
  | .null => by simp [dumps, Writable]
  | .bool true => by simp [dumps, Writable]
  | .bool false => by simp [dumps, Writable]
  | .int i => by simpa only [dumps, Writable] using intText_writes i
  | .str s => by simp [dumps, Writable]
  | .list items => by
    unfold dumps Writable
    exact bracketed_writes (dumpItems_writes items)
  | .dict members => by
    unfold dumps Writable
    exact bracketed_writes (dumpMembers_writes members)

theorem dumpItems_writes : ∀ items, (∃ ps, dumpItems items = some ps ∧ ∀ p ∈ ps, Clean p) ↔ WritableItems items
  | [] => by simp [dumpItems, WritableItems]
  | item :: items => by
    unfold dumpItems WritableItems
    simpa using cons_writes [] (dumps_writes item) (dumpItems_writes items)

theorem dumpMembers_writes : ∀ members,
    (∃ ps, dumpMembers members = some ps ∧ ∀ p ∈ ps, Clean p) ↔ WritableMembers members
  | [] => by simp [dumpMembers, WritableMembers]
  | (key, value) :: members => by
    unfold dumpMembers WritableMembers
    have := cons_writes (quote key ++ [codeOf ':']) (dumps_writes value) (dumpMembers_writes members)
    simpa [isSurrogate_codeOf] using this

end

/-- A content has a rendering if it is writable, and only then. -/
theorem render_isSome (content : Content) : (render content).isSome ↔ Writable content := by
  rw [← dumps_writes]
  unfold render
  cases hdumps : dumps content with
  | none => simp
  | some s =>
    rw [Option.bind_some, encodeUtf8_isSome]
    exact ⟨fun h => ⟨s, rfl, h⟩, fun ⟨t, ht, h⟩ => Option.some.inj ht ▸ h⟩

@[simp] theorem writable_text (s : String) : Writable (.text s) := by
  unfold Content.text Writable
  exact clean_codes _

@[simp] theorem writable_object (members : List (String × Content)) :
    Writable (.object members) ↔ ∀ m ∈ members, Writable m.2 := by
  rw [Content.object, Writable]
  induction members with
  | nil => simp [WritableMembers]
  | cons m members ih => simp [WritableMembers, ih]

end CiteVyn.Text.Json
