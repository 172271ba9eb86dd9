import CiteVyn.Lib.Effects
import CiteVyn.Text.CodePoints

/-! # The scanner of `json`

`scan_once` over the readers of strings and of single tokens, and what it keeps of them:
a value is built of their tokens, and no call is ever cut short. -/
namespace CiteVyn.Text.Json
open CiteVyn.Lib.Effects

/-- A value that `loads` returns. A `float` is kept as its literal. -/
inductive JsonValue where
  | null
  | bool (b : Bool)
  | int (i : Int)
  | float (literal : PyStr)
  | str (s : PyStr)
  | list (items : List JsonValue)
  | dict (members : List (PyStr × JsonValue))

/-- `[ \t\n\r]` -/
def isWhitespace (c : CodePoint) : Bool := c.val = 0x20 || c.val = 0x09 || c.val = 0x0A || c.val = 0x0D

def skip (s : PyStr) : PyStr := s.dropWhile isWhitespace

/-- How the tokens of a document are read, and what is raised. -/
structure Reader (E : Type) where
  /-- `scanstring`, after the opening quote -/
  string : PyStr → Except E (PyStr × PyStr)
  /-- a literal or a number -/
  token : PyStr → Except E (JsonValue × PyStr)
  /-- `JSONDecodeError` -/
  syntaxError : E
  recursionError : E
  /-- the bound on the calls below is used up, which it never is -/
  fuel : E

variable {E : Type}

mutual

/-- `scan_once`, with the calls that are left and the containers that may still be open. -/
def Reader.value (r : Reader E) : Nat → Nat → PyStr → Except E (JsonValue × PyStr)
  | 0, _, _ => .error r.fuel
  | _, _, [] => .error r.syntaxError
  | fuel + 1, depth, c :: rest =>
    if c = codeOf '"' then (r.string rest).map fun (s, rest) => (.str s, rest)
    else if c = codeOf '[' then
      if depth = 0 then .error r.recursionError
      else if (skip rest).head? = some (codeOf ']') then .ok (.list [], (skip rest).tail)
      else (r.items fuel (depth - 1) (skip rest)).map fun (items, rest) => (.list items, rest)
    else if c = codeOf '{' then
      if depth = 0 then .error r.recursionError
      else if (skip rest).head? = some (codeOf '}') then .ok (.dict [], (skip rest).tail)
      else (r.members fuel (depth - 1) (skip rest)).map fun (members, rest) => (.dict members, rest)
    else r.token (c :: rest)

/-- The items of a list, up to its end. -/
def Reader.items (r : Reader E) : Nat → Nat → PyStr → Except E (List JsonValue × PyStr)
  | 0, _, _ => .error r.fuel
  | fuel + 1, depth, s =>
    (r.value fuel depth s).bind fun (item, rest) =>
      match skip rest with
      | c :: rest =>
        if c = codeOf ',' then (r.items fuel depth (skip rest)).map fun (items, rest) => (item :: items, rest)
        else if c = codeOf ']' then .ok ([item], rest)
        else .error r.syntaxError
      | [] => .error r.syntaxError

/-- The members of an object, up to its end. -/
def Reader.members (r : Reader E) : Nat → Nat → PyStr → Except E (List (PyStr × JsonValue) × PyStr)
  | 0, _, _ => .error r.fuel
  | _, _, [] => .error r.syntaxError
  | fuel + 1, depth, q :: s =>
    if q ≠ codeOf '"' then .error r.syntaxError
    else
      (r.string s).bind fun (key, rest) =>
        match skip rest with
        | colon :: rest =>
          if colon ≠ codeOf ':' then .error r.syntaxError
          else
            (r.value fuel depth (skip rest)).bind fun (value, rest) =>
              match skip rest with
              | c :: rest =>
                if c = codeOf ',' then
                  (r.members fuel depth (skip rest)).map fun (members, rest) => ((key, value) :: members, rest)
                else if c = codeOf '}' then .ok ([(key, value)], rest)
                else .error r.syntaxError
              | [] => .error r.syntaxError
        | [] => .error r.syntaxError

end

/-- Enough calls for a text. -/
def fuelFor (s : PyStr) : Nat := 2 * s.length + 1

/-- `JSONDecoder.decode`, where `limit` containers may be open. -/
def Reader.decode (r : Reader E) (limit : Nat) (s : PyStr) : Except E JsonValue :=
  (r.value (fuelFor s) limit (skip s)).bind fun (value, rest) =>
    if (skip rest).isEmpty then .ok value else .error r.syntaxError

/-! ## What is scanned -/

/-- A value of strings, of tokens, and of what is built of them. -/
inductive Built (token : JsonValue → Prop) : JsonValue → Prop where
  | token {v : JsonValue} (h : token v) : Built token v
  | str (s : PyStr) : Built token (.str s)
  | list {items : List JsonValue} (h : ∀ item ∈ items, Built token item) : Built token (.list items)
  | dict {members : List (PyStr × JsonValue)} (h : ∀ m ∈ members, Built token m.2) : Built token (.dict members)

/-- What is asked of the readers: what they take is gone from the text, and they make no
calls that could be cut short. -/
structure Reader.Lawful (r : Reader E) (token : JsonValue → Prop) : Prop where
  string_length : ∀ {s text rest}, r.string s = .ok (text, rest) → rest.length < s.length
  token_length : ∀ {s v rest}, r.token s = .ok (v, rest) → rest.length < s.length
  token_ok : ∀ {s v rest}, r.token s = .ok (v, rest) → token v
  string_fuel : ∀ s, r.string s ≠ .error r.fuel
  token_fuel : ∀ s, r.token s ≠ .error r.fuel
  syntax_fuel : r.syntaxError ≠ r.fuel
  recursion_fuel : r.recursionError ≠ r.fuel

theorem skip_length (s : PyStr) : (skip s).length ≤ s.length := List.length_dropWhile_le _ _

/-- What the calls return: the rest is shorter, and the values are built of tokens. -/
structure Reader.Scans (r : Reader E) (token : JsonValue → Prop) (fuel : Nat) : Prop where
  value : ∀ {depth s v rest}, r.value fuel depth s = .ok (v, rest) → rest.length < s.length ∧ Built token v
  items : ∀ {depth s vs rest}, r.items fuel depth s = .ok (vs, rest) →
    rest.length < s.length ∧ ∀ v ∈ vs, Built token v
  members : ∀ {depth s ms rest}, r.members fuel depth s = .ok (ms, rest) →
    rest.length < s.length ∧ ∀ m ∈ ms, Built token m.2

variable {r : Reader E} {token : JsonValue → Prop} {fuel : Nat}

theorem Reader.Scans.zero : r.Scans token 0 where
  value h := by
    unfold Reader.value at h
    cases h
  items h := by
    unfold Reader.items at h
    cases h
  members h := by
    unfold Reader.members at h
    cases h

theorem Reader.Scans.succ_value (hr : r.Lawful token) (hs : r.Scans token fuel) {depth : Nat} {s rest : PyStr}
    {v : JsonValue} (h : r.value (fuel + 1) depth s = .ok (v, rest)) : rest.length < s.length ∧ Built token v := by
  cases s with
  | nil =>
    unfold Reader.value at h
    cases h
  | cons c after =>
    have hskip := skip_length after
    unfold Reader.value at h
    rw [List.length_cons]
    split at h
    · obtain ⟨⟨text, rest'⟩, hstring, heq⟩ := map_eq_ok h
      cases heq
      have := hr.string_length hstring
      exact ⟨by omega, .str text⟩
    split at h
    · split at h
      · cases h
      split at h
      · cases h
        exact ⟨by rw [List.length_tail]; omega, .list fun _ hv => by cases hv⟩
      · obtain ⟨⟨items, rest'⟩, hitems, heq⟩ := map_eq_ok h
        cases heq
        obtain ⟨hlength, hbuilt⟩ := hs.items hitems
        exact ⟨by omega, .list hbuilt⟩
    split at h
    · split at h
      · cases h
      split at h
      · cases h
        exact ⟨by rw [List.length_tail]; omega, .dict fun _ hm => by cases hm⟩
      · obtain ⟨⟨members, rest'⟩, hmembers, heq⟩ := map_eq_ok h
        cases heq
        obtain ⟨hlength, hbuilt⟩ := hs.members hmembers
        exact ⟨by omega, .dict hbuilt⟩
    exact ⟨hr.token_length h, .token (hr.token_ok h)⟩

theorem Reader.Scans.succ_items (hs : r.Scans token fuel) {depth : Nat} {s rest : PyStr} {vs : List JsonValue}
    (h : r.items (fuel + 1) depth s = .ok (vs, rest)) : rest.length < s.length ∧ ∀ v ∈ vs, Built token v := by
  unfold Reader.items at h
  obtain ⟨⟨item, after⟩, hitem, h⟩ := bind_eq_ok h
  obtain ⟨hlength, hbuilt⟩ := hs.value hitem
  have hskip := skip_length after
  dsimp only at h
  split at h
  · rename_i c tail heq
    have htail := skip_length tail
    rw [heq, List.length_cons] at hskip
    split at h
    · obtain ⟨⟨items, rest'⟩, hitems, heq⟩ := map_eq_ok h
      cases heq
      obtain ⟨hitemsLength, hitemsBuilt⟩ := hs.items hitems
      show rest'.length < s.length ∧ _
      exact ⟨by omega, List.forall_mem_cons.mpr ⟨hbuilt, hitemsBuilt⟩⟩
    split at h
    · cases h
      exact ⟨by omega, List.forall_mem_singleton.mpr hbuilt⟩
    · cases h
  · cases h

theorem Reader.Scans.succ_members (hr : r.Lawful token) (hs : r.Scans token fuel) {depth : Nat} {s rest : PyStr}
    {ms : List (PyStr × JsonValue)} (h : r.members (fuel + 1) depth s = .ok (ms, rest)) :
    rest.length < s.length ∧ ∀ m ∈ ms, Built token m.2 := by
  cases s with
  | nil =>
    unfold Reader.members at h
    cases h
  | cons q s =>
    unfold Reader.members at h
    rw [List.length_cons]
    split at h
    · cases h
    obtain ⟨⟨key, afterKey⟩, hkey, h⟩ := bind_eq_ok h
    have hstring := hr.string_length hkey
    have hskipKey := skip_length afterKey
    dsimp only at h
    split at h
    · rename_i colon tail heq
      rw [heq, List.length_cons] at hskipKey
      have htail := skip_length tail
      split at h
      · cases h
      obtain ⟨⟨value, afterValue⟩, hvalue, h⟩ := bind_eq_ok h
      obtain ⟨hlength, hbuilt⟩ := hs.value hvalue
      have hskipValue := skip_length afterValue
      dsimp only at h
      split at h
      · rename_i c tail' heq'
        rw [heq', List.length_cons] at hskipValue
        have htail' := skip_length tail'
        split at h
        · obtain ⟨⟨members, rest'⟩, hmembers, heq⟩ := map_eq_ok h
          cases heq
          obtain ⟨hmembersLength, hmembersBuilt⟩ := hs.members hmembers
          show rest'.length < s.length + 1 ∧ _
          exact ⟨by omega, List.forall_mem_cons.mpr ⟨hbuilt, hmembersBuilt⟩⟩
        split at h
        · cases h
          exact ⟨by omega, List.forall_mem_singleton.mpr hbuilt⟩
        · cases h
      · cases h
    · cases h

theorem Reader.scans (hr : r.Lawful token) (fuel : Nat) : r.Scans token fuel := by
  induction fuel with
  | zero => exact Reader.Scans.zero
  | succ fuel ih => exact ⟨ih.succ_value hr, ih.succ_items, ih.succ_members hr⟩

/-! ## The calls suffice -/

theorem ne_of_map {A B : Type} {e : E} {x : Except E A} {f : A → B} (h : x ≠ .error e) : x.map f ≠ .error e := by
  cases x with
  | error e' => exact fun heq => h (congrArg Except.error (Except.error.inj heq))
  | ok a => exact fun heq => by cases heq

theorem ne_of_bind {A B : Type} {e : E} {x : Except E A} {f : A → Except E B} (h : x ≠ .error e)
    (hf : ∀ a, x = .ok a → f a ≠ .error e) : x.bind f ≠ .error e := by
  cases x with
  | error e' => exact fun heq => h (congrArg Except.error (Except.error.inj heq))
  | ok a => exact hf a rfl

theorem ok_ne_error {A : Type} {e : E} (a : A) : (Except.ok a : Except E A) ≠ .error e := fun h => by cases h

theorem error_ne_error {A : Type} {e e' : E} (h : e ≠ e') : (Except.error e : Except E A) ≠ .error e' :=
  fun heq => h (Except.error.inj heq)

/-- With two calls for each code point that is left, a call is not cut short. -/
structure Reader.Fuelled (r : Reader E) (fuel : Nat) : Prop where
  value : ∀ {depth s}, 2 * s.length + 1 ≤ fuel → r.value fuel depth s ≠ .error r.fuel
  items : ∀ {depth s}, 2 * s.length + 2 ≤ fuel → r.items fuel depth s ≠ .error r.fuel
  members : ∀ {depth s}, 2 * s.length + 2 ≤ fuel → r.members fuel depth s ≠ .error r.fuel

theorem Reader.Fuelled.succ_value (hr : r.Lawful token) (hf : r.Fuelled fuel) {depth : Nat} {s : PyStr}
    (h : 2 * s.length + 1 ≤ fuel + 1) : r.value (fuel + 1) depth s ≠ .error r.fuel := by
  cases s with
  | nil =>
    unfold Reader.value
    exact error_ne_error hr.syntax_fuel
  | cons c after =>
    have hskip := skip_length after
    rw [List.length_cons] at h
    unfold Reader.value
    split
    · exact ne_of_map (hr.string_fuel after)
    split
    · split
      · exact error_ne_error hr.recursion_fuel
      split
      · exact ok_ne_error _
      · exact ne_of_map (hf.items (by omega))
    split
    · split
      · exact error_ne_error hr.recursion_fuel
      split
      · exact ok_ne_error _
      · exact ne_of_map (hf.members (by omega))
    exact hr.token_fuel _

theorem Reader.Fuelled.succ_items (hr : r.Lawful token) (hf : r.Fuelled fuel) {depth : Nat} {s : PyStr}
    (h : 2 * s.length + 2 ≤ fuel + 1) : r.items (fuel + 1) depth s ≠ .error r.fuel := by
  unfold Reader.items
  refine ne_of_bind (hf.value (by omega)) fun ⟨item, after⟩ hitem => ?_
  obtain ⟨hlength, -⟩ := (Reader.scans hr fuel).value hitem
  have hskip := skip_length after
  dsimp only
  split
  · rename_i c tail heq
    have htail := skip_length tail
    rw [heq, List.length_cons] at hskip
    split
    · exact ne_of_map (hf.items (by omega))
    split
    · exact ok_ne_error _
    · exact error_ne_error hr.syntax_fuel
  · exact error_ne_error hr.syntax_fuel

theorem Reader.Fuelled.succ_members (hr : r.Lawful token) (hf : r.Fuelled fuel) {depth : Nat} {s : PyStr}
    (h : 2 * s.length + 2 ≤ fuel + 1) : r.members (fuel + 1) depth s ≠ .error r.fuel := by
  cases s with
  | nil =>
    unfold Reader.members
    exact error_ne_error hr.syntax_fuel
  | cons q s =>
    rw [List.length_cons] at h
    unfold Reader.members
    split
    · exact error_ne_error hr.syntax_fuel
    refine ne_of_bind (hr.string_fuel s) fun ⟨key, afterKey⟩ hkey => ?_
    have hstring := hr.string_length hkey
    have hskipKey := skip_length afterKey
    dsimp only
    split
    · rename_i colon tail heq
      rw [heq, List.length_cons] at hskipKey
      have htail := skip_length tail
      split
      · exact error_ne_error hr.syntax_fuel
      refine ne_of_bind (hf.value (by omega)) fun ⟨value, afterValue⟩ hvalue => ?_
      obtain ⟨hlength, -⟩ := (Reader.scans hr fuel).value hvalue
      have hskipValue := skip_length afterValue
      dsimp only
      split
      · rename_i c tail' heq'
        rw [heq', List.length_cons] at hskipValue
        have htail' := skip_length tail'
        split
        · exact ne_of_map (hf.members (by omega))
        split
        · exact ok_ne_error _
        · exact error_ne_error hr.syntax_fuel
      · exact error_ne_error hr.syntax_fuel
    · exact error_ne_error hr.syntax_fuel

theorem Reader.fuelled (hr : r.Lawful token) (fuel : Nat) : r.Fuelled fuel := by
  induction fuel with
  | zero => exact ⟨fun h => (by omega), fun h => (by omega), fun h => (by omega)⟩
  | succ fuel ih => exact ⟨ih.succ_value hr, ih.succ_items hr, ih.succ_members hr⟩

/-- The decoder is never cut short. -/
theorem Reader.decode_ne_fuel (hr : r.Lawful token) (limit : Nat) (s : PyStr) : r.decode limit s ≠ .error r.fuel := by
  have hskip := skip_length s
  refine ne_of_bind ((Reader.fuelled hr _).value (by unfold fuelFor; omega)) fun ⟨value, rest⟩ _ => ?_
  dsimp only
  split
  · exact ok_ne_error _
  · exact error_ne_error hr.syntax_fuel

/-- What is decoded is built of tokens. -/
theorem Reader.decode_built (hr : r.Lawful token) {limit : Nat} {s : PyStr} {v : JsonValue} (h : r.decode limit s = .ok v) :
    Built token v := by
  obtain ⟨⟨value, rest⟩, hvalue, h⟩ := bind_eq_ok h
  dsimp only at h
  split at h
  · cases h
    exact ((Reader.scans hr _).value hvalue).2
  · cases h

end CiteVyn.Text.Json
