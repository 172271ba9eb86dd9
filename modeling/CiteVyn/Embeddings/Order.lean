import CiteVyn.Embeddings.Replies

/-! # Which vector is whose

`embed_documents` of `app/embeddings/openrouter.py` on replies that are well formed: the
rows of each are put in the order of their indices, and the slices in the order of the
texts. -/
namespace CiteVyn.Embeddings
open CiteVyn.Cost CiteVyn.Lib.Effects CiteVyn.Llm CiteVyn.Text

/-! ## The rows of one reply -/

/-- `int` reads the indices of the rows as those of the inputs, each once. -/
def IndexesAll (rows : List Value) : Prop :=
  (rows.map indexAt).Perm ((List.range rows.length).map fun i : Nat => some (i : Int))

theorem inOrder_of_indexes {rows : List Value} (h : IndexesAll rows) :
    inOrder rows = (List.range rows.length).map fun i : Nat =>
      (rows.find? fun row => indexAt row = some (i : Int)).getD .none :=
  if_pos (List.isPerm_iff.mpr h)

theorem inOrder_of_not_indexes {rows : List Value} (h : ¬ IndexesAll rows) : inOrder rows = rows :=
  if_neg (mt List.isPerm_iff.mp h)

theorem IndexesAll.nodup {rows : List Value} (h : IndexesAll rows) : (rows.map indexAt).Nodup := by
  refine h.nodup_iff.mpr (List.nodup_range.map fun i j hij => ?_)
  exact Int.ofNat.inj (Option.some.inj hij)

/-- The row that is put at a place has its index. -/
theorem IndexesAll.getElem {rows : List Value} (h : IndexesAll rows) {i : Nat} (hi : i < rows.length) :
    ∃ row ∈ rows, (inOrder rows)[i]? = some row ∧ indexAt row = some (i : Int) := by
  have hmem : some (i : Int) ∈ rows.map indexAt :=
    h.mem_iff.mpr (List.mem_map.mpr ⟨i, List.mem_range.mpr hi, rfl⟩)
  obtain ⟨row, hrow, hindex⟩ := List.mem_map.mp hmem
  have hfound : (rows.find? fun row => indexAt row = some (i : Int)).isSome :=
    List.find?_isSome.mpr ⟨row, hrow, decide_eq_true hindex⟩
  obtain ⟨first, hfirst⟩ := Option.isSome_iff_exists.mp hfound
  refine ⟨first, List.mem_of_find?_eq_some hfirst, ?_, by simpa using List.find?_some hfirst⟩
  rw [inOrder_of_indexes h, List.getElem?_map, List.getElem?_range hi, Option.map_some, hfirst, Option.getD_some]

/-- No row is lost or put in twice. -/
theorem inOrder_perm (rows : List Value) : (inOrder rows).Perm rows := by
  by_cases h : IndexesAll rows
  swap
  · rw [inOrder_of_not_indexes h]
  have hindices : (inOrder rows).map indexAt = (List.range rows.length).map fun i : Nat => some (i : Int) := by
    refine List.ext_getElem? fun i => ?_
    by_cases hi : i < rows.length
    · obtain ⟨row, -, hget, hindex⟩ := h.getElem hi
      rw [List.getElem?_map, hget, List.getElem?_map, List.getElem?_range hi, Option.map_some, Option.map_some, hindex]
    · rw [List.getElem?_eq_none (by rw [List.length_map, length_inOrder]; omega),
        List.getElem?_eq_none (by rw [List.length_map, List.length_range]; omega)]
  have hnodup : (inOrder rows).Nodup := List.Nodup.of_map indexAt (hindices ▸ h.nodup_iff.mp h.nodup)
  refine (List.perm_ext_iff_of_nodup hnodup (List.Nodup.of_map indexAt h.nodup)).mpr fun row => ?_
  constructor
  · intro hrow
    obtain ⟨i, hi, hget⟩ := List.getElem_of_mem hrow
    obtain ⟨row', hmem, hget', -⟩ := h.getElem (length_inOrder rows ▸ hi)
    rw [List.getElem?_eq_getElem hi, hget] at hget'
    exact Option.some.inj hget' ▸ hmem
  · intro hrow
    -- its index is a place, and the row there is the one with that index
    obtain ⟨i, hi, hindex⟩ := List.mem_map.mp (h.mem_iff.mp (List.mem_map_of_mem hrow))
    obtain ⟨row', hmem, hget, hindex'⟩ := h.getElem (List.mem_range.mp hi)
    have hsame : row = row' := List.inj_on_of_nodup_map h.nodup hrow hmem (hindex.symm.trans hindex'.symm)
    exact hsame ▸ List.mem_of_getElem? hget

/-- The vector of a row. -/
def VectorOf (dim : Nat) (row : Value) (vector : List Value) : Prop := extractVector "embedding" dim row = .ok vector

/-- Each vector of a slice is that of one row: the row with its index where the indices
are those of the inputs, else the row at its place. -/
structure Assigned (dim : Nat) (rows : List Value) (vectors : List (List Value)) : Prop where
  each : ∃ ordered : List Value, ordered.Perm rows ∧ List.Forall₂ (VectorOf dim) ordered vectors
  indexed : IndexesAll rows → ∀ i < rows.length, ∃ row ∈ rows, ∃ vector,
    indexAt row = some (i : Int) ∧ VectorOf dim row vector ∧ vectors[i]? = some vector
  positional : ¬ IndexesAll rows → List.Forall₂ (VectorOf dim) rows vectors

theorem assigned_inOrder {dim : Nat} {rows : List Value} {vectors : List (List Value)}
    (h : List.Forall₂ (VectorOf dim) (inOrder rows) vectors) : Assigned dim rows vectors where
  each := ⟨inOrder rows, inOrder_perm rows, h⟩
  indexed hall i hi := by
    obtain ⟨row, hmem, hget, hindex⟩ := hall.getElem hi
    obtain ⟨hi', rfl⟩ := List.getElem?_eq_some_iff.mp hget
    have hi'' : i < vectors.length := h.length_eq ▸ hi'
    exact ⟨_, hmem, vectors[i], hindex, h.get hi' hi'', List.getElem?_eq_getElem hi''⟩
  positional hnot := inOrder_of_not_indexes hnot ▸ h

/-! ## The replies to the slices -/

/-- A reply with rows for a slice: objects with a vector of the dimension, and no index
that is infinite. -/
structure WellFormed (dim : Nat) (reply : Option Exchange) (rows : List Value) : Prop where
  body : ∃ status data, reply = some (.response status (.value data)) ∧ status < 400 ∧ IsDict data ∧
    data.get "data" = .list rows
  rows : ∀ row ∈ rows, ¬ Misread row ∧ Served dim row

/-- The replies that end the attempts of one slice after the other. -/
def deciding (attempts : Nat) : Nat → List Exchange → List (Option Exchange)
  | 0, _ => []
  | slices + 1, coming => (decisive attempts coming).1 :: deciding attempts slices (decisive attempts coming).2

theorem not_reaches {A : Type} {ok p : A → Prop} : ∀ items : List A, (∀ x ∈ items, ¬ p x) → ¬ Reaches ok p items
  | [], _ => id
  | x :: _, h => fun hreach =>
    hreach.elim (h x List.mem_cons_self) fun hrest => not_reaches _ (fun y hy => h y (List.mem_cons_of_mem x hy)) hrest.2

/-- A well-formed reply, with as many rows as there are inputs or not. -/
theorem WellFormed.outcome {dim : Nat} {reply : Option Exchange} {rows : List Value} (h : WellFormed dim reply rows)
    (count : Nat) :
    (rows.length = count → ∃ vectors, (outcome reply >>= embedRows dim count) = .ok vectors ∧ Assigned dim rows vectors) ∧
      (rows.length ≠ count → (outcome reply >>= embedRows dim count) = .error .unavailable) := by
  obtain ⟨status, data, rfl, hstatus, hdict, hrows⟩ := h.body
  rw [(outcome_value hstatus data).1 hdict]
  constructor
  · rintro rfl
    have hserved : ∀ row ∈ inOrder rows, ∃ vector, extractVector "embedding" dim row = .ok vector := fun row hrow =>
      (extractVector_ok_iff dim row).mpr (h.rows row ((inOrder_perm rows).mem_iff.mp hrow)).2
    obtain ⟨vectors, hvectors⟩ := (mapM_eq_ok_iff (inOrder rows)).mpr hserved
    refine ⟨vectors, ?_, assigned_inOrder (forall₂_of_mapM hvectors)⟩
    show embedRows dim rows.length data = _
    rw [embedRows_rows hdict hrows, orderByIndex_eq (not_reaches _ fun row hrow => (h.rows row hrow).1)]
    exact hvectors
  · intro hcount
    refine (embedRows_refused dim hdict fun rows' heq => ?_).2.2
    obtain rfl := Value.list.inj (heq.symm.trans hrows)
    exact hcount

/-- What the requests for so many slices meet. -/
def met (replies : Nat → Exchange) (c : Config) (slices : Nat) : List Exchange :=
  (List.range (slices * (c.maxRetries + 1))).map replies

end CiteVyn.Embeddings
