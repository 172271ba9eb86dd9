import Mathlib.Data.List.Infix

/-! # `LIKE`

The patterns of SQL: `%` stands for any text, `_` for any character, and what
follows the escape character for itself. -/
namespace CiteVyn.Lib.Like

inductive Item where
  | char (c : Char)
  | one
  | run
  deriving DecidableEq, Repr

def itemOf (c : Char) : Item := if c = '%' then .run else if c = '_' then .one else .char c

/-- The items of a pattern, after an escape character or not. -/
def items (escape : Char) : Bool → List Char → List Item
  | _, [] => []
  | true, c :: cs => .char c :: items escape false cs
  | false, c :: cs => if c = escape then items escape true cs else itemOf c :: items escape false cs

def matchItems : List Item → List Char → Bool
  | [], s => s.isEmpty
  | .char c :: is, s =>
    match s with
    | d :: s => c == d && matchItems is s
    | [] => false
  | .one :: is, s =>
    match s with
    | _ :: s => matchItems is s
    | [] => false
  | .run :: is, s => s.tails.any (matchItems is)

/-- `s LIKE pattern ESCAPE escape`. -/
def like (escape : Char) (pattern s : List Char) : Bool := matchItems (items escape false pattern) s

/-- The text as a part of a pattern that stands for it. -/
def escapeText (escape : Char) (text : List Char) : List Char :=
  text.flatMap fun c => if c = escape ∨ c = '%' ∨ c = '_' then [escape, c] else [c]

theorem matchItems_run {is : List Item} {s : List Char} :
    matchItems (.run :: is) s = true ↔ ∃ a b, s = a ++ b ∧ matchItems is b = true := by
  rw [matchItems, List.any_eq_true]
  constructor
  · intro h
    obtain ⟨b, hb, hmatch⟩ := h
    obtain ⟨a, rfl⟩ := (List.mem_tails b s).mp hb
    exact ⟨a, b, rfl, hmatch⟩
  · intro h
    obtain ⟨a, b, rfl, hmatch⟩ := h
    exact ⟨b, (List.mem_tails b (a ++ b)).mpr ⟨a, rfl⟩, hmatch⟩

theorem matchItems_text {w : List Char} {is : List Item} {s : List Char} :
    matchItems (w.map .char ++ is) s = true ↔ ∃ b, s = w ++ b ∧ matchItems is b = true := by
  induction w generalizing s with
  | nil => simp
  | cons c w ih =>
    cases s with
    | nil => simp [matchItems]
    | cons d s =>
      rw [List.map_cons, List.cons_append, matchItems, Bool.and_eq_true, beq_iff_eq, ih]
      constructor
      · intro h
        obtain ⟨rfl, b, rfl, hb⟩ := h
        exact ⟨b, rfl, hb⟩
      · intro h
        obtain ⟨b, hs, hb⟩ := h
        obtain ⟨rfl, rfl⟩ := List.cons.inj hs
        exact ⟨rfl, b, rfl, hb⟩

/-- Any text, the word, any text. -/
theorem matchItems_infix {w s : List Char} :
    matchItems (.run :: (w.map .char ++ [.run])) s = true ↔ w <:+: s := by
  rw [matchItems_run]
  constructor
  · intro h
    obtain ⟨a, b, rfl, hb⟩ := h
    obtain ⟨c, rfl, -⟩ := matchItems_text.mp hb
    exact ⟨a, c, by rw [List.append_assoc]⟩
  · intro h
    obtain ⟨a, c, rfl⟩ := h
    refine ⟨a, w ++ c, by rw [List.append_assoc], matchItems_text.mpr ⟨c, rfl, ?_⟩⟩
    exact matchItems_run.mpr ⟨c, [], by simp, rfl⟩

theorem items_escapeText (escape : Char) (w p : List Char) :
    items escape false (escapeText escape w ++ p) = w.map .char ++ items escape false p := by
  induction w with
  | nil => rfl
  | cons c w ih =>
    rw [escapeText, List.flatMap_cons, List.append_assoc, List.map_cons, List.cons_append, ← ih]
    split
    · rw [List.cons_append, List.singleton_append, items, if_pos rfl, items]
      rfl
    · rename_i hc
      obtain ⟨hescape, hpercent, hunderscore⟩ := not_or.mp hc |>.imp_right not_or.mp
      rw [List.singleton_append, items, if_neg hescape, itemOf, if_neg hpercent, if_neg hunderscore]
      rfl

/-- With the escapes, the pattern stands for the texts that have the word. -/
theorem like_escapeText {escape : Char} (hrun : escape ≠ '%') {w s : List Char} :
    like escape ('%' :: (escapeText escape w ++ ['%'])) s = true ↔ w <:+: s := by
  rw [like, items, if_neg hrun.symm, items_escapeText, itemOf, if_pos rfl, ← matchItems_infix, items,
    if_neg hrun.symm, items, itemOf, if_pos rfl]

/-- A word stands for itself among others, wherever it has no escape character. -/
theorem matchItems_self {escape : Char} {w b p : List Char} (hw : escape ∉ w)
    (h : matchItems (items escape false p) b = true) : matchItems (items escape false (w ++ p)) (w ++ b) = true := by
  induction w with
  | nil => exact h
  | cons c w ih =>
    obtain ⟨hc, hw⟩ := not_or.mp (mt List.mem_cons.mpr hw)
    have hrest := ih hw
    rw [List.cons_append, List.cons_append, items, if_neg (Ne.symm hc), itemOf]
    split
    · exact matchItems_run.mpr ⟨[c], w ++ b, rfl, hrest⟩
    · split
      · exact hrest
      · rw [matchItems, hrest, beq_self_eq_true, Bool.and_self]

theorem like_of_infix {escape : Char} (hrun : escape ≠ '%') {w s : List Char} (hw : escape ∉ w) (h : w <:+: s) :
    like escape ('%' :: (w ++ ['%'])) s = true := by
  obtain ⟨a, c, rfl⟩ := h
  rw [like, items, if_neg hrun.symm, itemOf, if_pos rfl, List.append_assoc]
  refine matchItems_run.mpr ⟨a, w ++ c, rfl, matchItems_self hw ?_⟩
  rw [items, if_neg hrun.symm, itemOf, if_pos rfl, items]
  exact matchItems_run.mpr ⟨c, [], by simp, rfl⟩

end CiteVyn.Lib.Like
