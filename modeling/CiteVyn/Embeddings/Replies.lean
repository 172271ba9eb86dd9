import CiteVyn.Embeddings.Clients
import CiteVyn.Llm.Replies
import Mathlib.Data.List.Nodup
import Mathlib.Data.List.Perm.Basic

/-! # What the embedder makes of its replies

`embed` and `embed_documents` of `app/embeddings/openrouter.py` on the bytes of the responses:
they return a vector of the dimension for every input or raise `EmbedderUnavailable`, exactly
on the replies they can read. -/
namespace CiteVyn.Embeddings
open CiteVyn.Cost CiteVyn.Lib.Effects CiteVyn.Llm CiteVyn.Text

/-- `float` takes the value. -/
def IsNumber (v : Value) : Prop := ∃ x, v.toFloat = .ok x

/-- An integer that rounds to no `float`. -/
def IsHuge (v : Value) : Prop := ∃ n : Int, v = .int n ∧ 2 ^ 1024 - 2 ^ 970 ≤ n.natAbs

/-- An item has `dim` numbers. -/
def Served (dim : Nat) (item : Value) : Prop :=
  ∃ values, item.get "embedding" = .list values ∧ values ≠ [] ∧ (∀ v ∈ values, IsNumber v) ∧ values.length = dim

/-- An item has a huge integer after nothing but numbers. -/
def Overflows (item : Value) : Prop :=
  ∃ values, item.get "embedding" = .list values ∧ Reaches IsNumber IsHuge values

/-- The index of a row, if `int` takes it. -/
def indexAt (row : Value) : Option Int := (row.get "index").toInt.toOption

/-- A row is an object with an index. -/
def Indexed (row : Value) : Prop := IsDict row ∧ (indexAt row).isSome

/-- A row is no object, or its index is infinite. -/
def Misread (row : Value) : Prop := ¬ IsDict row ∨ ∃ negative, row.get "index" = .float (.inf negative)

/-- The rows by their indices, if these are all of `0` to the last; else as they came. -/
def inOrder (rows : List Value) : List Value :=
  if (rows.map indexAt).isPerm ((List.range rows.length).map fun i : Nat => some (i : Int)) then
    (List.range rows.length).map fun i : Nat => (rows.find? fun row => indexAt row = some (i : Int)).getD .none
  else rows

/-- A body is an object, and where it has a row for each input, no row is misread after indexed
ones, and no vector overflows after good ones. -/
structure Usable (dim count : Nat) (data : Value) : Prop where
  object : IsDict data
  indices : ∀ rows, data.get "data" = .list rows → rows.length = count → ¬ Reaches Indexed Misread rows
  vectors : ∀ rows, data.get "data" = .list rows → rows.length = count → ¬ Reaches (Served dim) Overflows (inOrder rows)

/-- A body has a vector for each input. -/
def Serves (dim count : Nat) (data : Value) : Prop :=
  ∃ rows, data.get "data" = .list rows ∧ rows.length = count ∧ ∀ row ∈ inOrder rows, Served dim row

/-! ## Numbers -/

/-- What the conversion of one value raises. -/
def floatOf (v : Value) : Except Failure Value :=
  v.toFloat.mapError fun e => if e = .overflow then Failure.other else .unavailable

theorem floatOf_ok_iff (v : Value) : (∃ x, floatOf v = .ok x) ↔ IsNumber v := by
  unfold floatOf IsNumber
  cases v.toFloat with
  | ok x => exact iff_of_true ⟨x, rfl⟩ ⟨x, rfl⟩
  | error e => exact iff_of_false (fun ⟨x, h⟩ => by cases h) fun ⟨x, h⟩ => by cases h

theorem extractVector_eq (key : String) (dim : Nat) (item : Value) : extractVector key dim item =
    match item.get key with
    | .list values =>
      if values.isEmpty then .error .unavailable else do
        let vector ← values.mapM floatOf
        if vector.length = dim then return vector else throw .unavailable
    | _ => .error .unavailable := rfl

theorem extractVector_ok_iff (dim : Nat) (item : Value) :
    (∃ vector, extractVector "embedding" dim item = .ok vector) ↔ Served dim item := by
  rw [extractVector_eq]
  constructor
  · intro ⟨vector, h⟩
    split at h
    · rename_i values hvalues
      split at h
      · cases h
      · rename_i hne
        obtain ⟨v, hv, h⟩ := bind_eq_ok h
        split at h
        · rename_i hlength
          refine ⟨values, hvalues, by simpa using hne, fun x hx => ?_, (length_of_mapM hv).symm.trans hlength⟩
          exact (floatOf_ok_iff x).mp ((mapM_eq_ok_iff values).mp ⟨v, hv⟩ x hx)
        · cases h
    · cases h
  · intro ⟨values, hvalues, hne, hnumbers, hlength⟩
    obtain ⟨vector, hv⟩ := (mapM_eq_ok_iff values).mpr fun x hx => (floatOf_ok_iff x).mpr (hnumbers x hx)
    refine ⟨vector, ?_⟩
    rw [hvalues]
    simp [hne, hv, bind, Except.bind, (length_of_mapM hv).trans hlength, pure, Except.pure]

theorem toInt_overflow_iff (v : Value) : v.toInt = .error .overflow ↔ ∃ negative, v = .float (.inf negative) := by
  cases v with
  | float x =>
    cases x with
    | inf negative => exact iff_of_true rfl ⟨negative, rfl⟩
    | _ => exact iff_of_false (fun h => by cases h) fun ⟨negative, h⟩ => by cases h
  | str s =>
    refine iff_of_false (fun h => ?_) fun ⟨negative, h⟩ => by cases h
    simp only [Value.toInt] at h
    cases hs : intLiteral s with
    | none =>
      rw [hs] at h
      cases h
    | some n =>
      rw [hs] at h
      cases h
  | _ => exact iff_of_false (fun h => by cases h) fun ⟨negative, h⟩ => by cases h

/-- What the index of a row is read as. -/
theorem indexOf_cases (row : Value) :
    (Misread row ∧ indexOf row = .error .other) ∨ (¬ Misread row ∧ indexOf row = .ok (indexAt row) ∧
      ((indexAt row).isSome → Indexed row)) := by
  by_cases hdict : IsDict row
  swap
  · refine .inl ⟨.inl hdict, ?_⟩
    rw [indexOf, field_not_dict hdict]
    rfl
  obtain ⟨found, hfound⟩ : ∃ found, field row "index" = .ok found := by
    obtain ⟨items, rfl⟩ := hdict
    exact ⟨_, rfl⟩
  have hget := get_of_field hfound
  by_cases hinf : ∃ negative, row.get "index" = .float (.inf negative)
  · refine .inl ⟨.inr hinf, ?_⟩
    have hoverflow := (toInt_overflow_iff _).mpr hinf
    rw [hget] at hoverflow
    rw [indexOf, hfound]
    simp only [bind, Except.bind, hoverflow]
    rfl
  · refine .inr ⟨fun h => h.elim (fun hn => hn hdict) hinf, ?_, fun hsome => ⟨hdict, hsome⟩⟩
    rw [indexOf, hfound, indexAt, hget]
    simp only [bind, Except.bind]
    cases hint : (found.getD .none).toInt with
    | ok n => rfl
    | error e =>
      cases e with
      | overflow => exact absurd ((toInt_overflow_iff _).mp (hget ▸ hint)) hinf
      | type => rfl
      | value => rfl

/-- The indices are read up to a row that has none, unless a row is misread before. -/
theorem indicesOf_cases (rows : List Value) :
    (Reaches Indexed Misread rows ∧ indicesOf rows = .error .other) ∨
      (¬ Reaches Indexed Misread rows ∧ ((indicesOf rows = .ok none ∧ none ∈ rows.map indexAt) ∨
        ∃ ns, indicesOf rows = .ok (some ns) ∧ rows.map indexAt = ns.map some)) := by
  induction rows with
  | nil => exact .inr ⟨id, .inr ⟨[], rfl, rfl⟩⟩
  | cons row rows ih =>
    rw [Reaches, List.map_cons, indicesOf]
    rcases indexOf_cases row with ⟨hmisread, hindex⟩ | ⟨hread, hindex, hindexed⟩
    · refine .inl ⟨.inl hmisread, ?_⟩
      rw [hindex]
      rfl
    cases hat : indexAt row with
    | none =>
      refine .inr ⟨fun h => ?_, .inl ⟨?_, List.mem_cons_self⟩⟩
      · rcases h with h | ⟨⟨-, h⟩, -⟩
        · exact hread h
        · rw [hat] at h
          cases h
      · rw [hindex, hat]
        rfl
    | some n =>
      have hin : Indexed row := hindexed (by rw [hat]; rfl)
      rw [hindex, hat]
      rcases ih with ⟨hreach, hrest⟩ | ⟨hreach, ⟨hrest, hnone⟩ | ⟨ns, hrest, hmap⟩⟩
      · refine .inl ⟨.inr ⟨hin, hreach⟩, ?_⟩
        show (indicesOf rows >>= _) = _
        rw [hrest]
        rfl
      · refine .inr ⟨fun h => h.elim hread fun h => hreach h.2, .inl ⟨?_, List.mem_cons_of_mem _ hnone⟩⟩
        show (indicesOf rows >>= _) = _
        rw [hrest]
        rfl
      · refine .inr ⟨fun h => h.elim hread fun h => hreach h.2, .inr ⟨n :: ns, ?_, by rw [hmap]; rfl⟩⟩
        show (indicesOf rows >>= _) = _
        rw [hrest]
        rfl

section
variable {α : Type}

/-- A place that nothing is put at stays as it is. -/
theorem getElem?_foldl_set_of_ne {i : Nat} : ∀ (ps : List (Int × α)) (items : List α), (∀ p ∈ ps, p.1.toNat ≠ i) →
    (ps.foldl (fun items p => items.set p.1.toNat p.2) items)[i]? = items[i]?
  | [], items, _ => rfl
  | p :: ps, items, h => by
    obtain ⟨hp, hps⟩ := List.forall_mem_cons.mp h
    rw [List.foldl_cons, getElem?_foldl_set_of_ne ps _ hps, List.getElem?_set_ne hp]

/-- Where the places are different, each holds what is put there. -/
theorem getElem?_foldl_set {i : Nat} {a : α} : ∀ (ps : List (Int × α)) (items : List α), i < items.length →
    (ps.map fun p => p.1.toNat).Nodup → (∃ p ∈ ps, p.1.toNat = i ∧ p.2 = a) →
    (ps.foldl (fun items p => items.set p.1.toNat p.2) items)[i]? = some a
  | [], items, _, _, h => by
    obtain ⟨p, hp, -⟩ := h
    exact absurd hp List.not_mem_nil
  | q :: ps, items, hi, hnodup, ⟨p, hp, hplace, hvalue⟩ => by
    rw [List.map_cons, List.nodup_cons] at hnodup
    rw [List.foldl_cons]
    rcases List.mem_cons.mp hp with rfl | hp
    · rw [getElem?_foldl_set_of_ne ps _ fun r hr hplace' => ?_]
      · rw [← hplace, hvalue, List.getElem?_set_self (by omega)]
      · exact hnodup.1 (List.mem_map.mpr ⟨r, hr, hplace'.trans hplace.symm⟩)
    · exact getElem?_foldl_set ps _ (by rw [List.length_set]; exact hi) hnodup.2 ⟨p, hp, hplace, hvalue⟩

theorem length_foldl_set : ∀ (ps : List (Int × α)) (items : List α),
    (ps.foldl (fun items p => items.set p.1.toNat p.2) items).length = items.length
  | [], _ => rfl
  | p :: ps, items => by rw [List.foldl_cons, length_foldl_set ps, List.length_set]

end

theorem length_inOrder (rows : List Value) : (inOrder rows).length = rows.length := by
  unfold inOrder
  split
  · rw [List.length_map, List.length_range]
  · rfl

/-- The rows at the places of their indices. -/
theorem foldl_set_rows {rows : List Value} {ns : List Int} (hmap : rows.map indexAt = ns.map some)
    (hns : ns.Perm ((List.range rows.length).map Int.ofNat)) :
    (ns.zip rows).foldl (fun ordered p => ordered.set p.1.toNat p.2) (List.replicate rows.length .none) =
      (List.range rows.length).map fun i : Nat => (rows.find? fun row => indexAt row = some (i : Int)).getD .none := by
  refine List.ext_getElem? fun i => ?_
  have hlength : ns.length = rows.length := by simpa using hns.length_eq
  by_cases hi : i < rows.length
  swap
  · rw [List.getElem?_eq_none (by rw [length_foldl_set, List.length_replicate]; omega),
      List.getElem?_eq_none (by rw [List.length_map, List.length_range]; omega)]
  -- the row with the index `i`, and its place
  obtain ⟨row, hrow⟩ : ∃ row, rows.find? (fun row => indexAt row = some (i : Int)) = some row := by
    have hmem : (i : Int) ∈ ns := hns.mem_iff.mpr (List.mem_map.mpr ⟨i, List.mem_range.mpr hi, rfl⟩)
    have hsome : some (i : Int) ∈ rows.map indexAt := hmap ▸ List.mem_map_of_mem hmem
    obtain ⟨row, hmem, hat⟩ := List.mem_map.mp hsome
    exact Option.isSome_iff_exists.mp (List.find?_isSome.mpr ⟨row, hmem, decide_eq_true hat⟩)
  have hat : indexAt row = some (i : Int) := by simpa using List.find?_some hrow
  have hplace : ((i : Int), row) ∈ ns.zip rows := by
    obtain ⟨k, hk, hget⟩ := List.getElem_of_mem (List.mem_of_find?_eq_some hrow)
    have hk' : k < ns.length := by omega
    have hindex : ns[k] = (i : Int) := by
      have hsame := congrArg (·[k]?) hmap
      rw [List.getElem?_map, List.getElem?_map, List.getElem?_eq_getElem hk, List.getElem?_eq_getElem hk', hget] at hsame
      exact (Option.some.inj (hat.symm.trans (Option.some.inj hsame))).symm
    refine List.mem_iff_getElem.mpr ⟨k, by rw [List.length_zip]; omega, ?_⟩
    rw [List.getElem_zip, hindex, hget]
  have hnodup : ((ns.zip rows).map fun p => p.1.toNat).Nodup := by
    have hfst : (ns.zip rows).map (fun p => p.1.toNat) = ns.map Int.toNat := by
      show (ns.zip rows).map (Int.toNat ∘ Prod.fst) = _
      rw [← List.map_map, List.map_fst_zip (by omega)]
    have hrange : ((List.range rows.length).map Int.ofNat).map Int.toNat = List.range rows.length := by
      rw [List.map_map]
      exact List.map_id _
    rw [hfst, (hns.map Int.toNat).nodup_iff, hrange]
    exact List.nodup_range
  rw [getElem?_foldl_set _ _ (by rw [List.length_replicate]; exact hi) hnodup ⟨_, hplace, by simp, rfl⟩,
    List.getElem?_map, List.getElem?_range hi]
  show some row = some ((rows.find? fun row => indexAt row = some (i : Int)).getD .none)
  rw [hrow]
  rfl

/-- The rows come by their indices. -/
theorem orderByIndex_eq {rows : List Value} (h : ¬ Reaches Indexed Misread rows) :
    orderByIndex rows rows.length = .ok (inOrder rows) := by
  rw [orderByIndex, inOrder]
  rcases indicesOf_cases rows with ⟨hreach, -⟩ | ⟨-, ⟨hindices, hnone⟩ | ⟨ns, hindices, hmap⟩⟩
  · exact absurd hreach h
  · rw [hindices, if_neg]
    · rfl
    · intro hperm
      obtain ⟨i, -, hi⟩ := List.mem_map.mp ((List.isPerm_iff.mp hperm).mem_iff.mp hnone)
      cases hi
  have hperm : (rows.map indexAt).isPerm ((List.range rows.length).map fun i : Nat => some (i : Int)) =
      ns.isPerm ((List.range rows.length).map Int.ofNat) := by
    have hsome : ((List.range rows.length).map fun i : Nat => some (i : Int)) =
        ((List.range rows.length).map Int.ofNat).map some := by
      rw [List.map_map]
      rfl
    rw [Bool.eq_iff_iff, List.isPerm_iff, List.isPerm_iff, hmap, hsome, List.map_perm_map_iff (fun _ _ h => Option.some.inj h)]
  rw [hindices, hperm]
  by_cases hclean : ns.isPerm ((List.range rows.length).map Int.ofNat) = true
  swap
  · rw [if_neg hclean]
    show (if _ then _ else _) = _
    rw [if_neg hclean]
    rfl
  rw [if_pos hclean]
  show (if _ then _ else _) = _
  rw [if_pos hclean]
  exact congrArg Except.ok (foldl_set_rows hmap (List.isPerm_iff.mp hclean))

/-! ## One request -/

/-- `_embed_inputs`, from the decoded body on. -/
def embedRows (dim count : Nat) (data : Value) : Except Failure (List (List Value)) := do
  match ← field data "data" with
  | some (.list rows) =>
    if rows.length ≠ count then throw .unavailable
    else
      let ordered ← orderByIndex rows count
      ordered.mapM (extractVector "embedding" dim)
  | _ => throw .unavailable

section
variable {dim : Nat} {data : Value} {rows : List Value}

theorem embedRows_rows (hdict : IsDict data) (h : data.get "data" = .list rows) : embedRows dim rows.length data =
    orderByIndex rows rows.length >>= fun ordered => ordered.mapM (extractVector "embedding" dim) := by
  obtain ⟨items, rfl⟩ := hdict
  have hfound : field (.dict items) "data" = .ok (some (.list rows)) := by
    rw [Value.get] at h
    rw [field_dict]
    cases hf : (items.find? fun item => item.1 = "data".toList).map Prod.snd with
    | none =>
      rw [hf] at h
      cases h
    | some value =>
      rw [hf, Option.getD_some] at h
      rw [h]
  rw [embedRows, hfound]
  show (if rows.length ≠ rows.length then _ else _) = _
  rw [if_neg (not_not.mpr rfl)]

/-- Without a row for each input a body is refused. -/
theorem embedRows_refused (dim : Nat) {count : Nat} (hdict : IsDict data)
    (h : ∀ rows, data.get "data" = .list rows → rows.length ≠ count) :
    Usable dim count data ∧ ¬ Serves dim count data ∧ embedRows dim count data = .error .unavailable := by
  refine ⟨⟨hdict, fun rows heq hlength => absurd hlength (h rows heq), fun rows heq hlength => absurd hlength (h rows heq)⟩,
    fun hs => ?_, ?_⟩
  · obtain ⟨rows, heq, hlength, -⟩ := hs
    exact h rows heq hlength
  obtain ⟨items, rfl⟩ := hdict
  obtain ⟨found, hfound⟩ : ∃ found, field (.dict items) "data" = .ok found := ⟨_, rfl⟩
  have hget := get_of_field hfound
  rw [embedRows, hfound]
  rcases found with _ | value
  · rfl
  cases value with
  | list rows =>
    show (if rows.length ≠ count then _ else _) = _
    rw [if_pos (h rows hget)]
    rfl
  | _ => rfl

end

/-- `_post` tries again. -/
def isRetried : Exchange → Bool
  | .timeout => true
  | .transportError => false
  | .response status _ => status ∈ unavailableStatuses

/-- The reply that ends the attempts, if one does, and the replies that are still to come. -/
def decisive : Nat → List Exchange → Option Exchange × List Exchange
  | 0, coming => (none, coming)
  | _, [] => (none, [])
  | left + 1, exchange :: coming => if isRetried exchange then decisive left coming else (some exchange, coming)

/-- What `_post` makes of the reply that ends the attempts. -/
def outcome : Option Exchange → Except Failure Value
  | some exchange => do
    let data ← postJson exchange
    let _ ← promptTokens data
    return data
  | none => .error .unavailable

/-- A decoded body is what `_post` returns, if it is an object. -/
theorem outcome_value {status : Nat} (h : status < 400) (data : Value) :
    (IsDict data → outcome (some (.response status (.value data))) = .ok data) ∧
      (¬ IsDict data → outcome (some (.response status (.value data))) = .error .other) := by
  have hread : outcome (some (.response status (.value data))) = promptTokens data >>= fun _ => .ok data := by
    rw [outcome, postJson_eq, if_neg (not_le.mpr h)]
    rfl
  rw [hread]
  constructor
  · intro hdict
    obtain ⟨items, rfl⟩ := hdict
    rfl
  · intro hdict
    rw [promptTokens, field_not_dict hdict]
    rfl

/-- `_guard_input` refuses the text. -/
def Refused (text : Str) : Prop := strip text = [] ∨ maxInputChars < text.length

/-- What a request meets on the wire. -/
inductive Reply where
  | timeout
  | transportError
  | response (status : Nat) (body : List UInt8)
  deriving Repr

/-- The reply as the clients see it. -/
def Reply.exchange (float : PyStr → PyFloat) (limit : Nat) : Reply → Exchange
  | timeout => .timeout
  | transportError => .transportError
  | response status body => .response status (load float limit body)

/-- The replies to the requests for so many slices, each of which is tried so often. -/
def coming (float : PyStr → PyFloat) (limit : Nat) (replies : Nat → Reply) (c : Config) (slices : Nat) : List Exchange :=
  (List.range (slices * (c.maxRetries + 1))).map fun i => (replies i).exchange float limit

end CiteVyn.Embeddings
