import Mathlib.Data.List.Sort

/-! # `ORDER BY`

The rows of a table in the order of a key. A query that reads the first of them
reads a row whose key is least, and when no two rows share a key that says
which. -/
namespace CiteVyn.Lib.OrderBy

variable {α κ : Type*} [LinearOrder κ]

def orderBy (key : α → κ) (rows : List α) : List α := rows.insertionSort fun a b => key a ≤ key b

/-- `ORDER BY ... LIMIT 1`. -/
def first (key : α → κ) (rows : List α) : Option α := (orderBy key rows).head?

theorem orderBy_perm (key : α → κ) (rows : List α) : (orderBy key rows).Perm rows :=
  List.perm_insertionSort _ rows

@[simp] theorem mem_orderBy {key : α → κ} {rows : List α} {a : α} :
    a ∈ orderBy key rows ↔ a ∈ rows := (orderBy_perm key rows).mem_iff

theorem orderBy_sorted (key : α → κ) (rows : List α) :
    (orderBy key rows).Pairwise fun a b => key a ≤ key b :=
  haveI : IsTrans α fun a b => key a ≤ key b := ⟨fun _ _ _ => le_trans⟩
  haveI : Std.Total fun a b => key a ≤ key b := ⟨fun a b => le_total (key a) (key b)⟩
  List.pairwise_insertionSort _ rows

theorem orderedInsert_stable {key : α → κ} {R : α → α → Prop} {a : α} :
    ∀ {rows : List α}, (∀ b ∈ rows, R a b) →
      (rows.Pairwise fun x y => key x < key y ∨ key x = key y ∧ R x y) →
      (rows.orderedInsert (fun x y => key x ≤ key y) a).Pairwise fun x y => key x < key y ∨ key x = key y ∧ R x y
  | [], _, _ => List.pairwise_singleton _ a
  | b :: rows, ha, hrows => by
    obtain ⟨hb, hrest⟩ := List.pairwise_cons.mp hrows
    rw [List.orderedInsert]
    split
    · rename_i hle
      refine List.pairwise_cons.mpr ⟨fun c hc => ?_, hrows⟩
      have hac : key a ≤ key c := by
        rcases List.mem_cons.mp hc with rfl | hc
        · exact hle
        · exact hle.trans ((hb c hc).elim le_of_lt fun h => h.1.le)
      exact hac.lt_or_eq.imp_right fun heq => ⟨heq, ha c hc⟩
    · rename_i hlt
      refine List.pairwise_cons.mpr ⟨fun c hc => ?_, ?_⟩
      · rcases (List.mem_orderedInsert _).mp hc with rfl | hc
        · exact .inl (not_le.mp hlt)
        · exact hb c hc
      · exact orderedInsert_stable (fun c hc => ha c (List.mem_cons_of_mem b hc)) hrest

/-- The sort is stable: what is known of every two rows in their first order
holds of two rows whose keys are equal. -/
theorem orderBy_stable {key : α → κ} {R : α → α → Prop} {rows : List α} (h : rows.Pairwise R) :
    (orderBy key rows).Pairwise fun a b => key a < key b ∨ key a = key b ∧ R a b := by
  induction rows with
  | nil => exact List.Pairwise.nil
  | cons a rows ih =>
    obtain ⟨ha, hrows⟩ := List.pairwise_cons.mp h
    exact orderedInsert_stable (fun b hb => ha b (mem_orderBy.mp hb)) (ih hrows)

theorem first_eq_none_iff {key : α → κ} {rows : List α} : first key rows = none ↔ rows = [] := by
  rw [first, List.head?_eq_none_iff]
  constructor
  · intro h
    exact List.perm_nil.mp (h ▸ (orderBy_perm key rows).symm)
  · rintro rfl
    rfl

theorem mem_of_first {key : α → κ} {rows : List α} {a : α} (h : first key rows = some a) :
    a ∈ rows := mem_orderBy.mp (List.mem_of_mem_head? h)

/-- No row comes before the first. -/
theorem le_of_first {key : α → κ} {rows : List α} {a b : α} (h : first key rows = some a)
    (hb : b ∈ rows) : key a ≤ key b := by
  have hsorted := orderBy_sorted key rows
  have hb : b ∈ orderBy key rows := mem_orderBy.mpr hb
  obtain ⟨rest, hrest⟩ := List.head?_eq_some_iff.mp h
  rw [hrest] at hsorted hb
  rcases List.mem_cons.mp hb with rfl | hb
  · exact le_refl _
  · exact (List.pairwise_cons.mp hsorted).1 b hb

/-- With a key for each row, the first row is the one with the least key. -/
theorem first_eq_some_iff {key : α → κ} {rows : List α} {a : α}
    (hkey : ∀ x ∈ rows, ∀ y ∈ rows, key x = key y → x = y) :
    first key rows = some a ↔ a ∈ rows ∧ ∀ b ∈ rows, key a ≤ key b := by
  constructor
  · intro h
    exact ⟨mem_of_first h, fun b hb => le_of_first h hb⟩
  · rintro ⟨hmem, hle⟩
    cases h : first key rows with
    | none =>
      rw [first_eq_none_iff.mp h] at hmem
      cases hmem
    | some b =>
      have hb := mem_of_first h
      exact congrArg some (hkey b hb a hmem (le_antisymm (le_of_first h hmem) (hle b hb)))

/-- Rows whose keys are below the keys of the others come before them. -/
theorem orderBy_split {key : α → κ} {rows : List α} (p : α → Bool)
    (hkey : ∀ x ∈ rows, ∀ y ∈ rows, key x = key y → x = y)
    (hbelow : ∀ x ∈ rows, ∀ y ∈ rows, p x = true → p y = false → key x < key y) :
    orderBy key rows =
      orderBy key (rows.filter p) ++ orderBy key (rows.filter fun a => !p a) := by
  have hperm : (orderBy key (rows.filter p) ++ orderBy key (rows.filter fun a => !p a)).Perm rows :=
    ((orderBy_perm key _).append (orderBy_perm key _)).trans (List.filter_append_perm p rows)
  refine ((orderBy_perm key rows).trans hperm.symm).eq_of_pairwise ?_ (orderBy_sorted key rows) ?_
  · intro x y hx hy hxy hyx
    exact hkey x (mem_orderBy.mp hx) y (hperm.mem_iff.mp hy) (le_antisymm hxy hyx)
  · refine List.pairwise_append.mpr ⟨orderBy_sorted key _, orderBy_sorted key _, ?_⟩
    intro x hx y hy
    obtain ⟨hx, hpx⟩ := List.mem_filter.mp (mem_orderBy.mp hx)
    obtain ⟨hy, hpy⟩ := List.mem_filter.mp (mem_orderBy.mp hy)
    exact (hbelow x hx y hy hpx (by simpa using hpy)).le

end CiteVyn.Lib.OrderBy
