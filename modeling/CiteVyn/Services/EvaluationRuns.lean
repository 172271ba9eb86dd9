import CiteVyn.Lib.OrderBy
import CiteVyn.Services.IndexVersions
import Mathlib.Data.Prod.Lex
import Mathlib.Algebra.Order.Ring.Rat

/-! # Evaluation runs as evidence

The two readers of `evaluation_runs` in `app/services/index_versions.py`: the
query of the promotion gate, and the pointer that the read surface displays. -/
namespace CiteVyn.Services
open CiteVyn.Lib.OrderBy CiteVyn.Text

inductive EvaluationStatus where
  | running
  | passed
  | failed
  deriving DecidableEq, Repr

/-- A value of a metrics blob. -/
inductive MetricValue where
  | number (value : Rat)
  | other
  deriving DecidableEq

/-- The keys of a metrics blob that are read. -/
structure Metrics where
  passRate : Option MetricValue := none
  casesTotal : Option MetricValue := none
  casesPassed : Option MetricValue := none
  total : Option MetricValue := none
  deriving DecidableEq

/-- One case of `failure_summary`. -/
structure CaseFailure where
  caseId : Str
  question : Str
  expectedSource : Str
  retrievedSources : List Str
  deriving DecidableEq, Repr

/-- A row of `evaluation_runs`. -/
structure EvaluationRow (V : Type*) where
  runId : Nat
  indexVersion : V
  startedAt : Nat
  status : EvaluationStatus
  metrics : Metrics
  failureSummary : List CaseFailure
  deriving DecidableEq

/-- `_COMPLETED_EVALUATION_STATUSES`. -/
def completedEvaluationStatuses : List EvaluationStatus := [.passed, .failed]

/-- A stated case count of zero, or below. -/
def statedEmpty : Option MetricValue → Bool
  | some (.number stated) => stated ≤ 0
  | _ => false

/-- `_pass_rate_from_metrics`. -/
def passRateFromMetrics (blob : Metrics) : Option Rat :=
  match blob.passRate with
  | some (.number rate) =>
    if 0 ≤ rate ∧ rate ≤ 1 then
      if statedEmpty blob.casesTotal || statedEmpty blob.total then none else some rate
    else none
  | some .other => none
  | none =>
    match blob.casesTotal, blob.casesPassed with
    | some (.number total), some (.number passed) =>
      if 0 < total then
        let derived := passed / total
        if 0 ≤ derived ∧ derived ≤ 1 then some derived else none
      else none
    | _, _ => none

variable {V : Type*}

def EvaluationRow.completed (row : EvaluationRow V) : Bool := row.status ∈ completedEvaluationStatuses

/-- `started_at` descending, then `run_id` descending. -/
def runKey (row : EvaluationRow V) : (Nat ×ₗ Nat)ᵒᵈ :=
  OrderDual.toDual (toLex (row.startedAt, row.runId))

/-- `EvaluationRunNotLinkable`. -/
structure EvaluationRunNotLinkable (V : Type*) where
  runId : Nat
  indexVersion : V
  status : EvaluationStatus
  deriving DecidableEq

variable [DecidableEq V]

def completedRuns (runs : List (EvaluationRow V)) (v : V) : List (EvaluationRow V) :=
  runs.filter fun row => row.indexVersion = v && row.completed

/-- `_latest_completed_run`. -/
def latestCompletedRun (runs : List (EvaluationRow V)) (v : V) : Option (EvaluationRow V) :=
  first runKey (completedRuns runs v)

/-- What the gate reads of it. -/
def gateRun (runs : List (EvaluationRow V)) (v : V) : Option EvaluationRun :=
  (latestCompletedRun runs v).map fun row => ⟨row.runId, passRateFromMetrics row.metrics⟩

/-- `link_evaluation_run`, on the column `evaluation_run_id`. -/
def linkEvaluationRun (tables : Tables V) (column : V → Option Nat) (row : EvaluationRow V) :
    Except (EvaluationRunNotLinkable V) (V → Option Nat) :=
  if row.completed then
    match tables.get row.indexVersion with
    | none => .ok column
    | some _ => .ok (Function.update column row.indexVersion (some row.runId))
  else .error ⟨row.runId, row.indexVersion, row.status⟩

/-! ## The newest completed run -/

theorem mem_completedRuns {runs : List (EvaluationRow V)} {v : V} {row : EvaluationRow V} :
    row ∈ completedRuns runs v ↔ row ∈ runs ∧ row.indexVersion = v ∧ row.completed = true := by
  rw [completedRuns, List.mem_filter, Bool.and_eq_true, decide_eq_true_eq]

omit [DecidableEq V] in
theorem runKey_injective {x y : EvaluationRow V} (h : runKey x = runKey y) : x.runId = y.runId :=
  (Prod.mk.inj (toLex_inj.mp (OrderDual.toDual_inj.mp h))).2

/-- With an id for each run, the gate's run is the completed run of the version
that no other comes before. -/
theorem latestCompletedRun_eq_some_iff {runs : List (EvaluationRow V)} {v : V}
    {row : EvaluationRow V} (hids : (runs.map EvaluationRow.runId).Nodup) :
    latestCompletedRun runs v = some row ↔
      (row ∈ runs ∧ row.indexVersion = v ∧ row.completed = true) ∧
      ∀ other ∈ runs, other.indexVersion = v → other.completed = true → runKey row ≤ runKey other := by
  have hkey : ∀ x ∈ completedRuns runs v, ∀ y ∈ completedRuns runs v, runKey x = runKey y → x = y :=
    fun x hx y hy h => List.inj_on_of_nodup_map hids (mem_completedRuns.mp hx).1
      (mem_completedRuns.mp hy).1 (runKey_injective h)
  rw [latestCompletedRun, first_eq_some_iff hkey, mem_completedRuns]
  refine and_congr_right fun _ => ?_
  constructor
  · intro h other hmem hversion hcompleted
    exact h other (mem_completedRuns.mpr ⟨hmem, hversion, hcompleted⟩)
  · intro h other hother
    obtain ⟨hmem, hversion, hcompleted⟩ := mem_completedRuns.mp hother
    exact h other hmem hversion hcompleted

end CiteVyn.Services
