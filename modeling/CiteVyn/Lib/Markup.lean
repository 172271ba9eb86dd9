import Mathlib.Data.List.Basic
import Mathlib.Tactic.Common

/-! # Markup

Tags and texts in a row. A text is written escaped, a tag with its attributes verbatim
but for their values. Every tag that is opened is closed in order when a stack of the open
ones is empty in the end. -/
namespace CiteVyn.Lib.Markup

abbrev Text := List Char

inductive Token where
  | text (s : Text)
  | start (tag : Text) (attributes : List (Text × Text))
  | stop (tag : Text)
  deriving DecidableEq, Repr

/-- An element: its tags, and what is between them. -/
def element (tag : Text) (attributes : List (Text × Text)) (ts : List Token) : List Token :=
  .start tag attributes :: ts ++ [.stop tag]

/-! ## Writing -/

/-- The entities, less the `&` and the `;`. -/
def entity (c : Char) : Option Text :=
  match c with
  | '&' => some "amp".toList
  | '<' => some "lt".toList
  | '>' => some "gt".toList
  | '"' => some "quot".toList
  | '\'' => some "#x27".toList
  | _ => none

def escapeChar (c : Char) : Text := (entity c).elim [c] fun e => '&' :: e ++ [';']

def escape (s : Text) : Text := s.flatMap escapeChar

def writeAttribute (a : Text × Text) : Text := ' ' :: a.1 ++ '=' :: '"' :: escape a.2 ++ ['"']

/-- What stands between the brackets of a tag. -/
def Token.inside : Token → Text
  | .text _ => []
  | .start tag attributes => tag ++ attributes.flatMap writeAttribute
  | .stop tag => '/' :: tag

def Token.write : Token → Text
  | .text s => escape s
  | t => '<' :: t.inside ++ ['>']

def write (ts : List Token) : Text := ts.flatMap Token.write

@[simp] theorem escape_nil : escape [] = [] := rfl

@[simp] theorem escape_append (s t : Text) : escape (s ++ t) = escape s ++ escape t := List.flatMap_append

@[simp] theorem write_nil : write [] = [] := rfl

@[simp] theorem write_cons (t : Token) (ts : List Token) : write (t :: ts) = t.write ++ write ts := rfl

@[simp] theorem write_append (ts us : List Token) : write (ts ++ us) = write ts ++ write us := List.flatMap_append

theorem write_element (tag : Text) (attributes : List (Text × Text)) (ts : List Token) :
    write (element tag attributes ts) = (Token.start tag attributes).write ++ write ts ++ (Token.stop tag).write := by
  unfold element
  rw [List.cons_append, write_cons, write_append, write_cons, write_nil, List.append_nil, List.append_assoc]

theorem write_text (s : Text) : write [.text s] = escape s := List.append_nil _

theorem write_stop (tag : Text) : (Token.stop tag).write = '<' :: '/' :: tag ++ ['>'] := rfl

/-- An element without attributes. -/
theorem write_plain (tag : Text) (ts : List Token) :
    write (element tag [] ts) = '<' :: tag ++ '>' :: write ts ++ '<' :: '/' :: tag ++ ['>'] := by
  rw [write_element]
  simp [Token.write, Token.inside]

/-- The start of an element with one attribute. -/
theorem write_start_one (tag name value : Text) :
    (Token.start tag [(name, value)]).write = '<' :: tag ++ ' ' :: name ++ '=' :: '"' :: escape value ++ ['"', '>'] := by
  unfold Token.write Token.inside
  simp only [List.flatMap_cons, List.flatMap_nil, writeAttribute, List.append_assoc, List.append_nil, List.cons_append,
    List.nil_append]

/-- The start of an element with two attributes. -/
theorem write_start_two (tag name value name' value' : Text) :
    (Token.start tag [(name, value), (name', value')]).write =
      '<' :: tag ++ ' ' :: name ++ '=' :: '"' :: escape value ++ '"' :: ' ' :: name' ++ '=' :: '"' :: escape value' ++
        ['"', '>'] := by
  unfold Token.write Token.inside
  simp only [List.flatMap_cons, List.flatMap_nil, writeAttribute, List.append_assoc, List.append_nil, List.cons_append,
    List.nil_append]

theorem escape_of_plain {s : Text} (h : ∀ c ∈ s, entity c = none) : escape s = s := by
  induction s with
  | nil => rfl
  | cons c s ih =>
    obtain ⟨hc, hs⟩ := List.forall_mem_cons.mp h
    have hchar : escapeChar c = [c] := by rw [escapeChar, hc, Option.elim_none]
    rw [escape, List.flatMap_cons, hchar, List.singleton_append]
    exact congrArg _ (ih hs)

theorem write_flatMap {A : Type} (f : A → List Token) (l : List A) :
    write (l.flatMap f) = l.flatMap fun a => write (f a) := by
  unfold write
  exact List.flatMap_assoc

/-! ## Tags that are closed in order -/

/-- The open tags after a token, innermost first. -/
def Token.next (opened : List Text) : Token → Option (List Text)
  | .text _ => some opened
  | .start tag _ => some (tag :: opened)
  | .stop tag => if opened.head? = some tag then some opened.tail else none

/-- The open tags after a row of tokens. -/
def walk : List Text → List Token → Option (List Text)
  | opened, [] => some opened
  | opened, t :: ts => (t.next opened).bind fun opened => walk opened ts

/-- Every tag that is opened is closed in order. -/
def WellFormed (ts : List Token) : Prop := walk [] ts = some []

instance (ts : List Token) : Decidable (WellFormed ts) := inferInstanceAs (Decidable (_ = _))

/-- Inside any open tags the tokens leave them as they are. -/
def Balanced (ts : List Token) : Prop := ∀ opened, walk opened ts = some opened

theorem Balanced.wellFormed {ts : List Token} (h : Balanced ts) : WellFormed ts := h []

theorem walk_append (ts us : List Token) : ∀ opened, walk opened (ts ++ us) = (walk opened ts).bind fun o => walk o us := by
  induction ts with
  | nil =>
    intro opened
    rfl
  | cons t ts ih =>
    intro opened
    rw [List.cons_append, walk, walk, Option.bind_assoc]
    exact congrArg _ (funext ih)

theorem balanced_nil : Balanced [] := fun _ => rfl

theorem balanced_text (s : Text) : Balanced [.text s] := fun _ => rfl

theorem Balanced.append {ts us : List Token} (hts : Balanced ts) (hus : Balanced us) : Balanced (ts ++ us) := by
  intro opened
  rw [walk_append, hts opened]
  exact hus opened

theorem Balanced.element {ts : List Token} (h : Balanced ts) (tag : Text) (attributes : List (Text × Text)) :
    Balanced (element tag attributes ts) := by
  intro opened
  unfold Markup.element
  rw [List.cons_append, walk, Token.next, Option.bind_some, walk_append, h, Option.bind_some]
  simp [walk, Token.next]

/-! ## Attributes -/

/-- The values that a token gives an attribute. -/
def Token.values (name : Text) : Token → List Text
  | .start _ attributes => (attributes.filter fun a => a.1 = name).map (·.2)
  | _ => []

def values (name : Text) (ts : List Token) : List Text := ts.flatMap (Token.values name)

theorem values_start (name tag n v : Text) (attributes : List (Text × Text)) :
    (Token.start tag ((n, v) :: attributes)).values name =
      (if n = name then [v] else []) ++ (Token.start tag attributes).values name := by
  unfold Token.values
  by_cases h : n = name
  · simp [h]
  · simp [h]

/-- The tags of a row. -/
def tags (ts : List Token) : List Text :=
  ts.filterMap fun
    | .text _ => none
    | .start tag _ => some tag
    | .stop tag => some tag

@[simp] theorem tags_nil : tags [] = [] := rfl

@[simp] theorem tags_text (s : Text) : tags [.text s] = [] := rfl

@[simp] theorem tags_append (ts us : List Token) : tags (ts ++ us) = tags ts ++ tags us := List.filterMap_append

@[simp] theorem tags_element (tag : Text) (attributes : List (Text × Text)) (ts : List Token) :
    tags (element tag attributes ts) = tag :: tags ts ++ [tag] := by
  unfold element tags
  simp

@[simp] theorem values_text (name s : Text) : values name [.text s] = [] := rfl

@[simp] theorem values_nil (name : Text) : values name [] = [] := rfl

@[simp] theorem values_append (name : Text) (ts us : List Token) : values name (ts ++ us) = values name ts ++ values name us :=
  List.flatMap_append

@[simp] theorem values_element (name tag : Text) (attributes : List (Text × Text)) (ts : List Token) :
    values name (element tag attributes ts) = (Token.start tag attributes).values name ++ values name ts := by
  unfold element values
  simp [Token.values]

/-! ## Reading

What a reader makes of a written text: its tags, and its characters, of which the special
ones are written as entities and in no other way. -/

inductive Mark where
  | char (c : Char)
  /-- a tag, by what stands between its brackets -/
  | tag (inside : Text)
  deriving DecidableEq, Repr

/-- Where a reader is. -/
inductive Mode where
  | text
  /-- in a tag, of which so much is read, last character first -/
  | tag (read : Text)
  /-- in an entity -/
  | entity (read : Text)

/-- The character of an entity. -/
def entityChar (e : Text) : Option Char := ['&', '<', '>', '"', '\''].find? fun c => entity c = some e

def read : Mode → Text → Option (List Mark)
  | .text, [] => some []
  | .tag _, [] => none
  | .entity _, [] => none
  | .text, c :: s =>
    if c = '<' then read (.tag []) s
    else if c = '&' then read (.entity []) s
    else if (entity c).isSome then none
    else (read .text s).map (.char c :: ·)
  | .tag t, c :: s =>
    if c = '>' then (read .text s).map (.tag t.reverse :: ·) else if c = '<' then none else read (.tag (c :: t)) s
  | .entity e, c :: s =>
    if c = ';' then (entityChar e.reverse).bind fun d => (read .text s).map (.char d :: ·)
    else read (.entity (c :: e)) s

/-- The marks of a token. -/
def Token.marks : Token → List Mark
  | .text s => s.map .char
  | t => [.tag t.inside]

def marks (ts : List Token) : List Mark := ts.flatMap Token.marks

/-- Nothing in it closes a tag, or opens one. -/
def Verbatim (s : Text) : Prop := ∀ c ∈ s, c ≠ '<' ∧ c ≠ '>'

instance (s : Text) : Decidable (Verbatim s) := List.decidableBAll (fun c => c ≠ '<' ∧ c ≠ '>') s

/-- The names in the token may be written as they are. -/
def Token.Named : Token → Prop
  | .text _ => True
  | .start tag attributes => Verbatim tag ∧ ∀ a ∈ attributes, Verbatim a.1
  | .stop tag => Verbatim tag

theorem verbatim_append {s t : Text} (hs : Verbatim s) (ht : Verbatim t) : Verbatim (s ++ t) :=
  List.forall_mem_append.mpr ⟨hs, ht⟩

theorem verbatim_cons {c : Char} {s : Text} (hc : c ≠ '<' ∧ c ≠ '>') (hs : Verbatim s) : Verbatim (c :: s) :=
  List.forall_mem_cons.mpr ⟨hc, hs⟩

theorem entity_cases (c : Char) :
    c = '&' ∨ c = '<' ∨ c = '>' ∨ c = '"' ∨ c = '\'' ∨ entity c = none := by
  unfold entity
  split
  all_goals simp

theorem verbatim_escapeChar (c : Char) : Verbatim (escapeChar c) := by
  rcases entity_cases c with rfl | rfl | rfl | rfl | rfl | h
  · decide
  · decide
  · decide
  · decide
  · decide
  · rw [escapeChar, h]
    refine verbatim_cons ⟨?_, ?_⟩ fun _ hc => by cases hc
    · rintro rfl
      cases h
    · rintro rfl
      cases h

theorem verbatim_escape (s : Text) : Verbatim (escape s) := by
  intro c hc
  obtain ⟨d, -, hd⟩ := List.mem_flatMap.mp hc
  exact verbatim_escapeChar d c hd

theorem Token.Named.verbatim {t : Token} (h : t.Named) : Verbatim t.inside := by
  cases t with
  | text s => exact fun _ hc => by cases hc
  | start tag attributes =>
    refine verbatim_append h.1 fun c hc => ?_
    obtain ⟨a, ha, hc⟩ := List.mem_flatMap.mp hc
    have hvalue : Verbatim (escape a.2 ++ ['"']) := verbatim_append (verbatim_escape _) (by decide)
    have hquoted : Verbatim ('=' :: '"' :: (escape a.2 ++ ['"'])) := verbatim_append (s := ['=', '"']) (by decide) hvalue
    have hwritten : Verbatim (' ' :: (a.1 ++ '=' :: '"' :: (escape a.2 ++ ['"']))) :=
      verbatim_append (s := [' ']) (by decide) (verbatim_append (h.2 a ha) hquoted)
    exact hwritten c (by simpa [writeAttribute] using hc)
  | stop tag => exact verbatim_cons (by decide) h

/-- A tag is read up to its end. -/
theorem read_tag {s rest : Text} (h : Verbatim s) : ∀ t,
    read (.tag t) (s ++ '>' :: rest) = (read .text rest).map (.tag (t.reverse ++ s) :: ·) := by
  induction s with
  | nil =>
    intro t
    rw [List.nil_append, List.append_nil, read, if_pos rfl]
  | cons c s ih =>
    intro t
    obtain ⟨⟨hopen, hclose⟩, hs⟩ := List.forall_mem_cons.mp h
    rw [List.cons_append, read, if_neg hclose, if_neg hopen, ih hs, List.reverse_cons, List.append_assoc]
    rfl

theorem read_char (c : Char) (rest : Text) : read .text (escapeChar c ++ rest) = (read .text rest).map (.char c :: ·) := by
  rcases entity_cases c with rfl | rfl | rfl | rfl | rfl | h
  · simp [escapeChar, entity, read, entityChar]
  · simp [escapeChar, entity, read, entityChar]
  · simp [escapeChar, entity, read, entityChar]
  · simp [escapeChar, entity, read, entityChar]
  · simp [escapeChar, entity, read, entityChar]
  · have hopen : c ≠ '<' := by
      rintro rfl
      cases h
    have hamp : c ≠ '&' := by
      rintro rfl
      cases h
    rw [escapeChar, h]
    simp [read, hopen, hamp, h]

theorem read_escape (s rest : Text) :
    read .text (escape s ++ rest) = (read .text rest).map (s.map .char ++ ·) := by
  induction s with
  | nil => simp
  | cons c s ih =>
    rw [escape, List.flatMap_cons, List.append_assoc, read_char]
    rw [escape] at ih
    rw [ih, Option.map_map]
    rfl

theorem read_token {t : Token} (h : t.Named) (rest : Text) :
    read .text (t.write ++ rest) = (read .text rest).map (t.marks ++ ·) := by
  have htag {t : Token} (h : t.Named) :
      read .text ('<' :: t.inside ++ ['>'] ++ rest) = (read .text rest).map (.tag t.inside :: ·) := by
    rw [List.append_assoc, List.cons_append, List.singleton_append, read, if_pos rfl, read_tag h.verbatim]
    rfl
  cases t with
  | text s => exact read_escape s rest
  | start tag attributes => exact htag h
  | stop tag => exact htag h

theorem named_element {tag : Text} {attributes : List (Text × Text)} {ts : List Token} (htag : Verbatim tag)
    (hattributes : ∀ a ∈ attributes, Verbatim a.1) (h : ∀ t ∈ ts, t.Named) :
    ∀ t ∈ element tag attributes ts, t.Named :=
  List.forall_mem_append.mpr ⟨List.forall_mem_cons.mpr ⟨⟨htag, hattributes⟩, h⟩, List.forall_mem_singleton.mpr htag⟩

/-- A written row is read as it was written: no text is taken for a tag. -/
theorem read_write {ts : List Token} (h : ∀ t ∈ ts, t.Named) : read .text (write ts) = some (marks ts) := by
  induction ts with
  | nil => rfl
  | cons t ts ih =>
    obtain ⟨ht, hts⟩ := List.forall_mem_cons.mp h
    rw [write_cons, read_token ht, ih hts]
    rfl

end CiteVyn.Lib.Markup
