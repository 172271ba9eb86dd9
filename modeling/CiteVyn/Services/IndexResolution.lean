import CiteVyn.Lib.OrderBy
import CiteVyn.Services.IndexVersions
import Mathlib.Data.Prod.Lex
import Mathlib.Order.WithBot

/-! # The active index and the rollback target

`app/services/index_resolution.py`: one ordered query over `index_versions`,
and the partition of its rows that the health route, the retrieval gate and the
orchestrator share. A row is what the query projects and the callers look at:
its key, its status and its stamp. -/
namespace CiteVyn.Services
open CiteVyn.Lib.OrderBy

variable {V : Type*}

/-- `_MAX_INDEX_ROWS`. -/
def maxIndexRows : Nat := 64

structure ResolvedIndex (V : Type*) where
  indexVersion : V
  promotedAt : Option Nat
  deriving DecidableEq, Repr

inductive ActiveIndexState where
  | none
  | one
  | ambiguous
  deriving DecidableEq, Repr

structure ActiveIndexResolution (V : Type*) where
  state : ActiveIndexState
  activeCount : Nat
  row : Option (ResolvedIndex V)
  deriving DecidableEq, Repr

structure IndexPartition (V : Type*) where
  active : ActiveIndexResolution V
  previousGood : Option (ResolvedIndex V)
  deriving DecidableEq, Repr

def rowToResolved (row : V × IndexVersion) : ResolvedIndex V := ⟨row.1, row.2.promotedAt⟩

/-- `partition_index_rows`, over rows that are already ordered. -/
def partitionIndexRows (rows : List (V × IndexVersion)) : IndexPartition V :=
  let active := rows.filter fun row => row.2.status = .active
  let previous := (rows.find? fun row => row.2.status = .previousGood).map rowToResolved
  let resolution : ActiveIndexResolution V :=
    if active.length > 1 then ⟨.ambiguous, active.length, none⟩
    else
      match active with
      | [] => ⟨.none, 0, none⟩
      | row :: _ => ⟨.one, 1, some (rowToResolved row)⟩
  ⟨resolution, previous⟩

/-- `_ACTIVE_FIRST`. -/
def activeFirst (row : V × IndexVersion) : Nat := if row.2.status = .active then 0 else 1

/-- What `_ORDER_BY` sorts by, descending: the stamp, with no stamp below every
stamp, and then the key of the row. -/
def orderKey (row : V × IndexVersion) : WithBot Nat ×ₗ V := toLex (row.2.promotedAt, row.1)

def rowKey (row : V × IndexVersion) : Nat ×ₗ (WithBot Nat ×ₗ V)ᵒᵈ :=
  toLex (activeFirst row, OrderDual.toDual (orderKey row))

variable [LinearOrder V]

/-- `_ordered_rows_query`. -/
def orderedRows (statuses : List IndexStatus) (tables : Tables V) : List (V × IndexVersion) :=
  (orderBy rowKey (tables.indexVersions.filter fun row => row.2.status ∈ statuses)).take maxIndexRows

def resolveActiveIndex (tables : Tables V) : ActiveIndexResolution V :=
  (partitionIndexRows (orderedRows [.active] tables)).active

def resolveIndexPartition (tables : Tables V) : IndexPartition V :=
  partitionIndexRows (orderedRows [.active, .previousGood] tables)

/-! ## What the query reads -/

def rowsOf (status : IndexStatus) (tables : Tables V) : List (V × IndexVersion) :=
  tables.indexVersions.filter fun row => row.2.status = status

omit [LinearOrder V] in
theorem mem_rowsOf {status : IndexStatus} {tables : Tables V} {row : V × IndexVersion} :
    row ∈ rowsOf status tables ↔ row ∈ tables.indexVersions ∧ row.2.status = status := by
  rw [rowsOf, List.mem_filter, decide_eq_true_eq]

omit [LinearOrder V] in
theorem activeRows_eq_map (tables : Tables V) :
    activeRows tables = (rowsOf .active tables).map Prod.fst := rfl

omit [LinearOrder V] in
theorem orderKey_injective {x y : V × IndexVersion} (h : orderKey x = orderKey y) : x.1 = y.1 :=
  (Prod.mk.inj (toLex_inj.mp h)).2

omit [LinearOrder V] in
theorem rowKey_injective {x y : V × IndexVersion} (h : rowKey x = rowKey y) : x.1 = y.1 :=
  orderKey_injective (OrderDual.toDual_inj.mp (Prod.mk.inj (toLex_inj.mp h)).2)

omit [LinearOrder V] in
theorem Tables.row_eq {tables : Tables V} (hkeys : tables.keys.Nodup) {x y : V × IndexVersion}
    (hx : x ∈ tables.indexVersions) (hy : y ∈ tables.indexVersions) (h : x.1 = y.1) : x = y :=
  List.inj_on_of_nodup_map hkeys hx hy h

theorem rowKey_lt_of_active {x y : V × IndexVersion} (hx : x.2.status = .active)
    (hy : y.2.status ≠ .active) : rowKey x < rowKey y := by
  refine Prod.Lex.toLex_lt_toLex.mpr (.inl ?_)
  simp [activeFirst, hx, hy]

/-- **What the partition is taken from**: the active rows, newest first, and then
the rows that were active before, newest first. -/
theorem orderedRows_split {tables : Tables V} (hkeys : tables.keys.Nodup) :
    orderedRows [.active, .previousGood] tables =
      (orderBy rowKey (rowsOf .active tables) ++
        orderBy rowKey (rowsOf .previousGood tables)).take maxIndexRows := by
  have hmem : ∀ x ∈ tables.indexVersions.filter fun row =>
      row.2.status ∈ [IndexStatus.active, .previousGood], x ∈ tables.indexVersions :=
    fun x hx => (List.mem_filter.mp hx).1
  rw [orderedRows, orderBy_split fun row => row.2.status = .active]
  · congr 3
    · rw [List.filter_filter, rowsOf]
      congr 1
      funext row
      cases row.2.status <;> rfl
    · rw [List.filter_filter, rowsOf]
      congr 1
      funext row
      cases row.2.status <;> rfl
  · intro x hx y hy h
    exact Tables.row_eq hkeys (hmem x hx) (hmem y hy) (rowKey_injective h)
  · intro x _ y _ hx hy
    exact rowKey_lt_of_active (of_decide_eq_true hx) (of_decide_eq_false hy)

theorem mem_orderedRowsOf {status : IndexStatus} {tables : Tables V} {row : V × IndexVersion} :
    row ∈ orderBy rowKey (rowsOf status tables) ↔
      row ∈ tables.indexVersions ∧ row.2.status = status := by
  rw [mem_orderBy, mem_rowsOf]

theorem filter_active_previousGood (tables : Tables V) (n : Nat) :
    ((orderBy rowKey (rowsOf .previousGood tables)).take n).filter
      (fun row => row.2.status = .active) = [] := by
  refine List.filter_eq_nil_iff.mpr fun x hx => ?_
  have hx := (mem_orderedRowsOf.mp (List.mem_of_mem_take hx)).2
  simp [hx]

/-- The two readers agree on the active index: they read the same active rows,
since the cap cuts the rows behind them first. -/
theorem resolveActiveIndex_eq {tables : Tables V} (hkeys : tables.keys.Nodup) :
    resolveActiveIndex tables = (resolveIndexPartition tables).active := by
  have hone : orderedRows [.active] tables =
      (orderBy rowKey (rowsOf .active tables)).take maxIndexRows := by
    simp only [orderedRows, rowsOf, List.mem_singleton]
  have hfilter : (orderedRows [.active] tables).filter (fun row => row.2.status = .active) =
      (orderedRows [.active, .previousGood] tables).filter fun row => row.2.status = .active := by
    rw [hone, orderedRows_split hkeys, List.take_append, List.filter_append,
      filter_active_previousGood, List.append_nil]
  simp only [resolveActiveIndex, resolveIndexPartition, partitionIndexRows, hfilter]

/-- The active index is ambiguous when more than one row is active, whatever the
cap cuts. -/
theorem resolveActiveIndex_ambiguous_iff {tables : Tables V} :
    (resolveActiveIndex tables).state = .ambiguous ↔ 1 < (activeRows tables).length := by
  have hrows : orderedRows [.active] tables =
      (orderBy rowKey (rowsOf .active tables)).take maxIndexRows := by
    simp only [orderedRows, rowsOf, List.mem_singleton]
  have hfilter : (orderedRows [.active] tables).filter (fun row => row.2.status = .active) =
      orderedRows [.active] tables := by
    refine List.filter_eq_self.mpr fun row hrow => ?_
    rw [hrows] at hrow
    simpa using (mem_orderedRowsOf.mp (List.mem_of_mem_take hrow)).2
  have hlength : (orderedRows [.active] tables).length =
      min maxIndexRows (activeRows tables).length := by
    rw [hrows, List.length_take, (orderBy_perm _ _).length_eq, activeRows_eq_map, List.length_map]
  simp only [resolveActiveIndex, partitionIndexRows, hfilter, hlength, maxIndexRows]
  split
  · rename_i h
    exact ⟨fun _ => by omega, fun _ => rfl⟩
  · rename_i h
    constructor
    · intro hstate
      split at hstate <;> cases hstate
    · intro hmany
      omega

end CiteVyn.Services
