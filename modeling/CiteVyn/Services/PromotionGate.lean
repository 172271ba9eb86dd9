import CiteVyn.Services.EvaluationRuns

/-! # The promotion gate on what a run has recorded

`_latest_completed_run`, `_pass_rate_from_metrics` and `promote_version` of
`app/services/index_versions.py` on metrics as they are stored: any JSON, with the floats
that Python reads and writes in it. -/
namespace CiteVyn.Services.PromotionGate
open CiteVyn.Lib.OrderBy CiteVyn.Services CiteVyn.Text

/-! ## Numbers -/

/-- A `float`, by its exact value. -/
inductive Double where
  | nan
  | inf (negative : Bool)
  | finite (value : Rat)
  deriving DecidableEq

/-- `<=` -/
def Double.le : Double → Double → Prop
  | finite a, finite b => a ≤ b
  | inf true, inf _ => True
  | inf true, finite _ => True
  | finite _, inf false => True
  | inf false, inf false => True
  | _, _ => False

/-- The double nearest to a number: small integers are exact, and the order is kept. -/
structure Rounding where
  nearest : Rat → Double
  exact : ∀ n : Int, n.natAbs ≤ 2 ^ 53 → nearest n = .finite n
  mono : ∀ a b : Rat, a ≤ b → (nearest a).le (nearest b)

/-- `/` of a positive divisor. -/
def Double.div (r : Rounding) : Double → Double → Double
  | finite a, finite b => r.nearest (a / b)
  | finite _, inf _ => finite 0
  | inf s, finite _ => inf s
  | _, _ => nan

/-- A value of a metrics blob. -/
inductive Entry where
  | null
  | bool (b : Bool)
  | int (n : Int)
  | float (x : Double)
  | str (s : Str)
  | list (items : List Entry)
  | dict (members : List (Str × Entry))

abbrev Blob := List (Str × Entry)

/-- `blob.get(key)` -/
def Blob.get (blob : Blob) (key : String) : Option Entry :=
  (blob.find? fun member => member.1 = key.toList).map Prod.snd

inductive Number where
  | int (n : Int)
  | float (x : Double)
  deriving DecidableEq

/-- `isinstance(_, (int, float)) and not isinstance(_, bool)` -/
def Entry.number? : Entry → Option Number
  | .int n => some (.int n)
  | .float x => some (.float x)
  | _ => none

/-- `float(_)`; none is an `OverflowError`. -/
def Number.double? (r : Rounding) : Number → Option Double
  | .int n =>
    match r.nearest n with
    | .finite value => some (.finite value)
    | _ => none
  | .float x => some x

/-- `_ > 0` -/
def Number.positive : Number → Bool
  | .int n => 0 < n
  | .float (.finite value) => 0 < value
  | .float (.inf negative) => !negative
  | .float .nan => false

/-- `_ <= 0` -/
def Number.nonpositive : Number → Bool
  | .int n => n ≤ 0
  | .float (.finite value) => value ≤ 0
  | .float (.inf negative) => negative
  | .float .nan => false

/-- The value, if `0.0 <= _ <= 1.0`. -/
def Double.rate? : Double → Option Rat
  | .finite value => if 0 ≤ value ∧ value ≤ 1 then some value else none
  | _ => none

/-! ## The gate -/

/-- What is raised. -/
inductive Raised (V : Type*) where
  | promote (error : PromoteError V)
  | overflowError
  /-- the database fails -/
  | database
  deriving DecidableEq

/-- The count under a key is stated, as zero or less. -/
def statesEmpty (blob : Blob) (key : String) : Bool :=
  ((blob.get key).bind Entry.number?).any Number.nonpositive

/-- The branch of `_pass_rate_from_metrics` for a blob with a `pass_rate`. -/
def statedRate (r : Rounding) (blob : Blob) (raw : Entry) : Option (Option Rat) :=
  match raw.number? with
  | none => some none
  | some x => (x.double? r).map fun rate =>
    if statesEmpty blob "cases_total" || statesEmpty blob "total" then none else rate.rate?

/-- The branch for a blob without. -/
def countedRate (r : Rounding) (blob : Blob) : Option (Option Rat) :=
  match (blob.get "cases_total").bind Entry.number?, (blob.get "cases_passed").bind Entry.number? with
  | some total, some passed =>
    if total.positive then
      (passed.double? r).bind fun passed => (total.double? r).map fun total => (passed.div r total).rate?
    else some none
  | _, _ => some none

/-- `_pass_rate_from_metrics`; none is an `OverflowError`. -/
def passRateFromMetrics (r : Rounding) (blob : Blob) : Option (Option Rat) :=
  match blob.get "pass_rate" with
  | some raw => statedRate r blob raw
  | none => countedRate r blob

/-- A row of `evaluation_runs`. -/
structure RunRow (V : Type*) where
  runId : Nat
  indexVersion : V
  startedAt : Nat
  status : EvaluationStatus
  metrics : Blob

variable {V : Type*}

def RunRow.completed (row : RunRow V) : Bool := row.status ∈ completedEvaluationStatuses

/-- `started_at` descending, then `run_id` descending. -/
def RunRow.key (row : RunRow V) : (Nat ×ₗ Nat)ᵒᵈ := OrderDual.toDual (toLex (row.startedAt, row.runId))

variable [DecidableEq V]

/-- `_latest_completed_run`. -/
def latestCompletedRun (runs : List (RunRow V)) (v : V) : Option (RunRow V) :=
  first RunRow.key (runs.filter fun row => row.indexVersion = v && row.completed)

/-- The statements of a promotion at which the database fails. -/
structure Faults where
  lockTarget : Bool := false
  latestRun : Bool := false
  lockActive : Bool := false
  flush : Bool := false
  deriving DecidableEq, Repr

/-- The run and its rate as the gate takes them; none is an `OverflowError`. -/
def evidence (r : Rounding) (runs : List (RunRow V)) (v : V) : Option (Option EvaluationRun) :=
  match latestCompletedRun runs v with
  | none => some none
  | some run => (passRateFromMetrics r run.metrics).map fun rate => some ⟨run.runId, rate⟩

/-- `promote_version`, and the tables as its transaction leaves them. -/
def promoteVersion (r : Rounding) (threshold : Rat) (faults : Faults) (runs : List (RunRow V)) (call : Call V)
    (tables : Tables V) : Except (Raised V) Unit × Tables V :=
  if faults.lockTarget then (.error .database, tables)
  else
    match tables.get call.indexVersion with
    | none => (.error (.promote (.indexVersionNotFound call.indexVersion)), tables)
    | some row =>
      if row.status = .active then (.ok (), tables)
      else if faults.latestRun then (.error .database, tables)
      else
        match evidence r runs call.indexVersion with
        | none => (.error .overflowError, tables)
        | some latestRun =>
          match gate threshold call latestRun with
          | .error error => (.error (.promote error), tables)
          | .ok () =>
            if faults.lockActive then (.error .database, tables)
            -- a flush that fails rolls the transaction back
            else if faults.flush then (.error .database, tables)
            else (.ok (), promoted threshold call latestRun (activeRows tables) tables)

/-! ## What a blob can pass for -/

/-- The value of a number that has one. -/
def Number.value? : Number → Option Rat
  | .int n => some n
  | .float (.finite value) => some value
  | .float _ => none

/-- A real number in `[0, 1]`. -/
def IsRate (raw : Entry) : Prop :=
  ∃ value, raw.number?.bind Number.value? = some value ∧ 0 ≤ value ∧ value ≤ 1

/-- `pass_rate` is present, and not a real number in `[0, 1]`. -/
def Corrupt (blob : Blob) : Prop := ∃ raw, blob.get "pass_rate" = some raw ∧ ¬ IsRate raw

/-- A case count is stated, as zero or less. -/
def StatesEmpty (blob : Blob) : Prop :=
  statesEmpty blob "cases_total" = true ∨ statesEmpty blob "total" = true

/-- The blob is read as a rate. -/
def Accepted (r : Rounding) (blob : Blob) : Prop :=
  ∃ rate, passRateFromMetrics r blob = some (some rate)

/-- A blob without `pass_rate` whose `total` is zero or less, and whose own counts divide to a
number in `[0, 1]`: the branch for the counts does not look at `total`. -/
def Overlooked (r : Rounding) (blob : Blob) : Prop :=
  blob.get "pass_rate" = none ∧ statesEmpty blob "total" = true ∧
  ∃ total passed dividend divisor rate,
    (blob.get "cases_total").bind Entry.number? = some total ∧
    (blob.get "cases_passed").bind Entry.number? = some passed ∧
    total.positive = true ∧ passed.double? r = some dividend ∧ total.double? r = some divisor ∧
    dividend.div r divisor = .finite rate ∧ 0 ≤ rate ∧ rate ≤ 1

variable {r : Rounding} {blob : Blob}

theorem Double.rate?_eq_some {x : Double} {rate : Rat} :
    x.rate? = some rate ↔ x = .finite rate ∧ 0 ≤ rate ∧ rate ≤ 1 := by
  cases x with
  | nan => exact ⟨nofun, nofun⟩
  | inf negative => exact ⟨nofun, nofun⟩
  | finite value =>
    simp only [rate?]
    split
    · rename_i hvalue
      constructor
      · intro h
        obtain rfl := Option.some.inj h
        exact ⟨rfl, hvalue⟩
      · intro h
        exact congrArg some (Double.finite.inj h.1)
    · rename_i hvalue
      refine ⟨nofun, fun h => ?_⟩
      rw [Double.finite.inj h.1] at hvalue
      exact absurd h.2 hvalue

/-- An integer is not rounded into `[0, 1]`. -/
theorem Rounding.of_nearest {n : Int} {value : Rat} (h : r.nearest n = .finite value)
    (hlow : 0 ≤ value) (hhigh : value ≤ 1) : (n : Rat) = value := by
  by_cases hn : n.natAbs ≤ 2 ^ 53
  · exact Double.finite.inj ((r.exact n hn).symm.trans h)
  · rcases Int.lt_or_le n 0 with hneg | hpos
    · have hle := r.mono n (-1 : Int) (by exact_mod_cast (by omega : n ≤ -1))
      rw [h, r.exact (-1) (by decide)] at hle
      have : value ≤ ((-1 : Int) : Rat) := hle
      exact absurd (hlow.trans this) (by decide +kernel)
    · have hle := r.mono (2 : Int) n (by exact_mod_cast (by omega : 2 ≤ n))
      rw [h, r.exact 2 (by decide)] at hle
      have : ((2 : Int) : Rat) ≤ value := hle
      exact absurd (this.trans hhigh) (by decide +kernel)

/-- What `float` makes a rate of is that rate. -/
theorem value_of_rate {x : Number} {d : Double} {rate : Rat} (hd : x.double? r = some d)
    (h : d.rate? = some rate) : x.value? = some rate := by
  obtain ⟨rfl, hlow, hhigh⟩ := Double.rate?_eq_some.mp h
  cases x with
  | int n =>
    simp only [Number.double?] at hd
    split at hd
    · rename_i value hvalue
      obtain rfl := Double.finite.inj (Option.some.inj hd)
      exact congrArg some (Rounding.of_nearest hvalue hlow hhigh)
    · cases hd
  | float x =>
    obtain rfl := Option.some.inj hd
    rfl

/-- A blob with a `pass_rate` is read as that rate, and states no empty run. -/
theorem statedRate_eq_some {raw : Entry} {rate : Rat} (h : statedRate r blob raw = some (some rate)) :
    raw.number?.bind Number.value? = some rate ∧ (0 ≤ rate ∧ rate ≤ 1) ∧ ¬ StatesEmpty blob := by
  unfold statedRate at h
  split at h
  · cases h
  · rename_i x hx
    obtain ⟨d, hd, h⟩ := Option.map_eq_some_iff.mp h
    split at h
    · cases h
    · rename_i hstated
      refine ⟨?_, (Double.rate?_eq_some.mp h).2, fun hempty => ?_⟩
      · rw [hx]
        exact value_of_rate hd h
      · exact hstated (Bool.or_eq_true _ _ |>.mpr hempty)

/-- A blob without is read as the quotient of its counts. -/
theorem countedRate_eq_some {rate : Rat} :
    countedRate r blob = some (some rate) ↔ ∃ total passed dividend divisor,
      (blob.get "cases_total").bind Entry.number? = some total ∧
      (blob.get "cases_passed").bind Entry.number? = some passed ∧
      total.positive = true ∧ passed.double? r = some dividend ∧ total.double? r = some divisor ∧
      dividend.div r divisor = .finite rate ∧ 0 ≤ rate ∧ rate ≤ 1 := by
  constructor
  · intro h
    unfold countedRate at h
    split at h
    · rename_i total passed htotal hpassed
      split at h
      · rename_i hpositive
        obtain ⟨dividend, hdividend, h⟩ := Option.bind_eq_some_iff.mp h
        obtain ⟨divisor, hdivisor, h⟩ := Option.map_eq_some_iff.mp h
        exact ⟨total, passed, dividend, divisor, htotal, hpassed, hpositive, hdividend, hdivisor,
          Double.rate?_eq_some.mp h⟩
      · cases h
    · cases h
  · intro ⟨total, passed, dividend, divisor, htotal, hpassed, hpositive, hdividend, hdivisor, h⟩
    simp only [countedRate, htotal, hpassed, hpositive, if_true, hdividend, hdivisor,
      Option.bind_some, Option.map_some, Double.rate?_eq_some.mpr h]

theorem passRateFromMetrics_mem {rate : Rat} (h : passRateFromMetrics r blob = some (some rate)) :
    0 ≤ rate ∧ rate ≤ 1 := by
  unfold passRateFromMetrics at h
  split at h
  · exact (statedRate_eq_some h).2.1
  · obtain ⟨_, _, _, _, _, _, _, _, _, _, hrate⟩ := countedRate_eq_some.mp h
    exact hrate

/-- No positive number is zero or less. -/
theorem Number.not_nonpositive {x : Number} (h : x.positive = true) : x.nonpositive = false := by
  match x with
  | .int n => exact decide_eq_false (not_le.mpr (of_decide_eq_true h))
  | .float (.finite value) => exact decide_eq_false (not_le.mpr (of_decide_eq_true h))
  | .float (.inf false) => rfl

/-- A blob that is corrupt, or that states an empty run, is read as a rate exactly when its
`total` is overlooked. -/
theorem accepted_iff (h : Corrupt blob ∨ StatesEmpty blob) : Accepted r blob ↔ Overlooked r blob := by
  constructor
  · intro ⟨rate, hrate⟩
    unfold passRateFromMetrics at hrate
    split at hrate
    · rename_i raw hraw
      obtain ⟨hvalue, hmem, hstates⟩ := statedRate_eq_some hrate
      rcases h with ⟨raw', hraw', hcorrupt⟩ | h
      · obtain rfl := Option.some.inj (hraw.symm.trans hraw')
        exact absurd ⟨rate, hvalue, hmem⟩ hcorrupt
      · exact absurd h hstates
    · rename_i habsent
      obtain ⟨total, passed, dividend, divisor, hcounts⟩ := countedRate_eq_some.mp hrate
      refine ⟨habsent, ?_, total, passed, dividend, divisor, rate, hcounts⟩
      rcases h with ⟨raw, hraw, _⟩ | h | h
      · exact absurd (habsent.symm.trans hraw) nofun
      · -- the count that is divided by is positive
        rw [statesEmpty, hcounts.1, Option.any_some, Number.not_nonpositive hcounts.2.2.1] at h
        cases h
      · exact h
  · intro ⟨habsent, _, total, passed, dividend, divisor, rate, hcounts⟩
    refine ⟨rate, ?_⟩
    rw [passRateFromMetrics, habsent]
    exact countedRate_eq_some.mpr ⟨total, passed, dividend, divisor, hcounts⟩

/-! ## What a promotion takes for evidence -/

/-- The completed run of a version that no other comes before. -/
structure Newest (runs : List (RunRow V)) (v : V) (run : RunRow V) : Prop where
  mem : run ∈ runs
  version : run.indexVersion = v
  completed : run.completed = true
  newest : ∀ other ∈ runs, other.indexVersion = v → other.completed = true → run.key ≤ other.key

/-- An unforced promotion of a version that is not active returns only on its newest completed
run, with a rate from the threshold to 1. -/
def Evidenced (r : Rounding) (threshold : Rat) (faults : Faults) (runs : List (RunRow V)) (call : Call V)
    (tables : Tables V) : Prop :=
  call.force = false → (∀ row, tables.get call.indexVersion = some row → row.status ≠ .active) →
    (promoteVersion r threshold faults runs call tables).1 = .ok () →
    ∃ run rate, Newest runs call.indexVersion run ∧
      passRateFromMetrics r run.metrics = some (some rate) ∧ threshold ≤ rate ∧ rate ≤ 1

/-- A promotion that raises changes no row. -/
def LeavesTables (r : Rounding) (threshold : Rat) (faults : Faults) (runs : List (RunRow V)) (call : Call V)
    (tables : Tables V) : Prop :=
  ∀ error, (promoteVersion r threshold faults runs call tables).1 = .error error →
    (promoteVersion r threshold faults runs call tables).2 = tables

variable {threshold : Rat} {faults : Faults} {runs : List (RunRow V)} {call : Call V} {tables : Tables V}

theorem latestCompletedRun_newest {v : V} {run : RunRow V} (h : latestCompletedRun runs v = some run) :
    Newest runs v run := by
  have hmem : ∀ other : RunRow V, other ∈ (runs.filter fun row => row.indexVersion = v && row.completed) ↔
      other ∈ runs ∧ other.indexVersion = v ∧ other.completed = true := by
    intro other
    rw [List.mem_filter, Bool.and_eq_true, decide_eq_true_eq]
  obtain ⟨hrun, hversion, hcompleted⟩ := (hmem run).mp (mem_of_first h)
  refine ⟨hrun, hversion, hcompleted, fun other hother hv hc => ?_⟩
  exact le_of_first h ((hmem other).mpr ⟨hother, hv, hc⟩)

/-- A promotion that returns found its target, and found it active or got past the gate. -/
theorem promoteVersion_ok (h : (promoteVersion r threshold faults runs call tables).1 = .ok ()) :
    ∃ row, tables.get call.indexVersion = some row ∧ (row.status = .active ∨
      ∃ latestRun, evidence r runs call.indexVersion = some latestRun ∧
        gate threshold call latestRun = .ok ()) := by
  unfold promoteVersion at h
  split at h
  · cases h
  · split at h
    · cases h
    · rename_i row hrow
      refine ⟨row, hrow, ?_⟩
      split at h
      · exact .inl ‹_›
      · split at h
        · cases h
        · split at h
          · cases h
          · rename_i latestRun hevidence
            split at h
            · cases h
            · exact .inr ⟨latestRun, hevidence, ‹_›⟩

theorem promoteVersion_error : LeavesTables r threshold faults runs call tables := by
  intro error h
  unfold promoteVersion at h ⊢
  -- what is written is written when nothing is raised any more
  repeat' split
  all_goals first
    | rfl
    | simp_all

theorem promoteVersion_evidenced : Evidenced r threshold faults runs call tables := by
  intro hforce hactive hok
  obtain ⟨row, hrow, h | ⟨latestRun, hevidence, hgate⟩⟩ := promoteVersion_ok hok
  · exact absurd h (hactive row hrow)
  · rcases gate_ok hgate with h | ⟨_, rate, rfl, hrate, hthreshold⟩
    · exact absurd (hforce.symm.trans h) nofun
    · unfold evidence at hevidence
      split at hevidence
      · cases hevidence
      · rename_i run hrun
        obtain ⟨_, hread, heq⟩ := Option.map_eq_some_iff.mp hevidence
        obtain rfl := Option.some.inj heq
        obtain rfl := (show _ = some rate from hrate)
        exact ⟨run, rate, latestCompletedRun_newest hrun, hread, hthreshold,
          (passRateFromMetrics_mem hread).2⟩

/-- **What is promoted without force is measured at the bar**, a blob that is corrupt or states an
empty run is never read as a rate, and a promotion that raises changes nothing, exactly when the
blob is not one whose `total` is overlooked. -/
theorem promotion_sound_iff (r : Rounding) (threshold : Rat) (faults : Faults) (runs : List (RunRow V))
    (call : Call V) (tables : Tables V) (blob : Blob) :
    (Evidenced r threshold faults runs call tables ∧
      (Corrupt blob ∨ StatesEmpty blob → ¬ Accepted r blob) ∧
      LeavesTables r threshold faults runs call tables) ↔ ¬ Overlooked r blob := by
  constructor
  · intro ⟨_, hrefused, _⟩ hoverlooked
    have hempty : StatesEmpty blob := .inr hoverlooked.2.1
    exact hrefused (.inr hempty) ((accepted_iff (.inr hempty)).mpr hoverlooked)
  · intro hseen
    refine ⟨promoteVersion_evidenced, fun h haccepted => ?_, promoteVersion_error⟩
    exact hseen ((accepted_iff h).mp haccepted)

/-- Rationals, unrounded. -/
def Rounding.unrounded : Rounding where
  nearest := .finite
  exact _ _ := rfl
  mono _ _ h := h

/-- Five cases of five under the keys of one producer, and `"total": 0` under those of the other:
the gate at 0.95 lets it through. -/
theorem accepts_zero_total :
    let blob : Blob := [("cases_total".toList, .int 5), ("cases_passed".toList, .int 5), ("total".toList, .int 0)]
    (StatesEmpty blob ∧ Accepted .unrounded blob) ∧
      (promoteVersion .unrounded (19 / 20) {} [⟨0, 7, 0, .passed, blob⟩] ⟨7, [], [], false, 1⟩
        ⟨[(7, ⟨.candidate, none⟩)], []⟩).1 = .ok () := by
  refine ⟨⟨.inr (by decide), 1, ?_⟩, ?_⟩ <;> decide +kernel

/-! ## Plain numbers -/

def entry : MetricValue → Entry
  | .number value => .float (.finite value)
  | .other => .null

/-- A blob with the keys that are read. -/
def blobOf (metrics : Metrics) : Blob :=
  [("pass_rate", metrics.passRate), ("cases_total", metrics.casesTotal),
    ("cases_passed", metrics.casesPassed), ("total", metrics.total)].filterMap fun member =>
      member.2.map fun value => (member.1.toList, entry value)

theorem Blob.get_nil (key : String) : Blob.get [] key = none := rfl

theorem Blob.get_cons (k key : String) (value : Entry) (rest : Blob) :
    Blob.get ((k.toList, value) :: rest) key = if k = key then some value else rest.get key := by
  simp only [Blob.get, List.find?_cons, String.toList_inj]
  by_cases h : k = key
  · simp only [h, decide_true, Option.map_some, if_true]
  · simp only [h, decide_false, if_false]

theorem get_blobOf (metrics : Metrics) :
    (blobOf metrics).get "pass_rate" = metrics.passRate.map entry ∧
      (blobOf metrics).get "cases_total" = metrics.casesTotal.map entry ∧
      (blobOf metrics).get "cases_passed" = metrics.casesPassed.map entry ∧
      (blobOf metrics).get "total" = metrics.total.map entry := by
  obtain ⟨passRate, casesTotal, casesPassed, total⟩ := metrics
  cases passRate <;> cases casesTotal <;> cases casesPassed <;> cases total <;>
    simp only [blobOf, List.filterMap_cons, List.filterMap_nil, Option.map_some, Option.map_none,
      Blob.get_cons, Blob.get_nil, String.reduceEq, if_true, if_false, and_self]

theorem statesEmpty_entry {key : String} {value : Option MetricValue}
    (h : blob.get key = value.map entry) : statesEmpty blob key = statedEmpty value := by
  rw [statesEmpty, h]
  match value with
  | none => rfl
  | some .other => rfl
  | some (.number _) => rfl

/-- On plain numbers, unrounded, the gate reads what it reads of the keys alone. -/
theorem passRateFromMetrics_blobOf (metrics : Metrics) :
    passRateFromMetrics .unrounded (blobOf metrics) = some (Services.passRateFromMetrics metrics) := by
  obtain ⟨hrate, htotal, hpassed, hother⟩ := get_blobOf metrics
  unfold passRateFromMetrics Services.passRateFromMetrics
  rw [hrate]
  match metrics.passRate with
  | some .other => rfl
  | some (.number rate) =>
    simp only [Option.map_some, statedRate, entry, Entry.number?, Number.double?, Double.rate?,
      statesEmpty_entry htotal, statesEmpty_entry hother]
    split <;> split <;> rfl
  | none =>
    simp only [Option.map_none, countedRate, htotal, hpassed]
    match metrics.casesTotal, metrics.casesPassed with
    | none, _ => rfl
    | some .other, _ => rfl
    | some (.number _), none => rfl
    | some (.number _), some .other => rfl
    | some (.number total), some (.number passed) =>
      simp only [Option.map_some, Option.bind_some, entry, Entry.number?, Number.positive,
        decide_eq_true_eq, Number.double?, Double.div, Rounding.unrounded, Double.rate?]
      split <;> rfl

end CiteVyn.Services.PromotionGate
