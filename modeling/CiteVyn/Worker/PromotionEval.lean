import CiteVyn.Services.EvaluationRuns
import CiteVyn.Worker.Drive

/-! # Evaluating a candidate beside ingestion and promotion

`evaluate_index` of `app/worker/promotion_eval.py` as one command among others
on the same database: the drives of `app/worker/cli.py`, each a row of the index
version and one transaction for each source, and the promotions, statement by
statement. Every step is one transaction of a command or, where a command reads
while others commit, one statement. -/
namespace CiteVyn.Worker
open CiteVyn.Lib.Runs CiteVyn.Services CiteVyn.Text

/-- `PromotionCase`. -/
structure PromotionCase where
  id : Str
  question : Str
  expectedSource : Str
  deriving DecidableEq, Repr

variable {V : Type*} {H : Type*}

/-- `evaluate_index` between its two commits. -/
structure Evaluation (V : Type*) where
  indexVersion : V
  limit : Rat
  suite : List PromotionCase
  todo : List PromotionCase
  passed : Nat
  failures : List CaseFailure
  deriving DecidableEq

/-- The database, the evaluations under way by the id of their run, and for the
statements below what happened: the sources ingested into each version so far,
and the documents that each run has read, each time after how many of them. -/
structure System (V H : Type*) where
  db : Db V
  evaluationRunId : V → Option Nat
  index : V → Index H
  runs : List (EvaluationRow V)
  evaluating : Nat → Option (Evaluation V)
  ingested : V → Nat
  reads : Nat → List (Nat × List Document)

inductive Action (V H : Type*) where
  /-- a statement of a promotion -/
  | promotion (l : Services.Label V)
  /-- the row of the index version, at the start of a drive -/
  | ensure (v : V) (sourceVersionHash : H) (stamp : Option EmbedderIdentity)
  /-- one source of a drive -/
  | ingest (v : V) (runner : IngestionRunner H) (source : SourceSpec) (attempt : Worker.Attempt)
  /-- the fingerprint, at the end of a drive -/
  | advance (v : V) (sourceVersionHash : H)
  /-- the running row of an evaluation -/
  | start (runId : Nat) (v : V) (startedAt : Nat) (limit : Rat) (suite : List PromotionCase)
      (embedder : Option EmbedderIdentity)
  /-- a statement of the retrieval for the case at hand -/
  | read (runId : Nat)
  /-- the case is scored by the sources that the retrieval returned -/
  | score (runId : Nat) (sources : List Str)
  /-- the terminal row and the pointer -/
  | finish (runId : Nat)
  /-- the process is gone -/
  | crash (runId : Nat)

/-- `_assert_candidate_is_evaluable`, of a version that exists. -/
def evaluable (index : Index H) : Option EmbedderIdentity → Bool
  | none => true
  | some identity =>
    ((index.row.bind IndexRow.stamp).all fun stamp => stamp = identity) &&
      index.documents.any fun document => document.chunks.any fun chunk => chunk.embedding.isSome

/-- The metrics that an evaluation writes. -/
def metricsOf (passed total : Nat) : Metrics where
  passRate := some (.number (passed / total))
  casesTotal := some (.number total)
  casesPassed := some (.number passed)

/-- A run with the verdict of its evaluation. -/
def terminal (e : Evaluation V) (row : EvaluationRow V) : EvaluationRow V :=
  { row with
    metrics := metricsOf e.passed e.suite.length
    failureSummary := e.failures
    status := if e.limit ≤ (e.passed / e.suite.length : Rat) then .passed else .failed }

/-- One case scored. -/
def Evaluation.score (e : Evaluation V) (case : PromotionCase) (todo : List PromotionCase)
    (sources : List Str) : Evaluation V :=
  if case.expectedSource ∈ sources then { e with todo := todo, passed := e.passed + 1 }
  else { e with
    todo := todo
    failures := e.failures ++ [⟨case.id, case.question, case.expectedSource, sources⟩] }

/-- A new row is a candidate. -/
def ensureRow [DecidableEq V] (tables : Tables V) (v : V) : Tables V :=
  if v ∈ tables.keys then tables
  else { tables with
    indexVersions := tables.indexVersions ++ [(v, { status := .candidate, promotedAt := none })] }

variable [DecidableEq V]

/-- The gate reads the newest completed run of the target. -/
def GateReads (s : System V H) : Services.Label V → Prop
  | .gate t latestRun => ∀ txn, s.db.txns t = some txn →
      latestRun = gateRun s.runs txn.call.indexVersion
  | _ => True

instance decidableGateReads (s : System V H) (l : Services.Label V) : Decidable (GateReads s l) :=
  match l with
  | .gate t latestRun =>
    match h : s.db.txns t with
    | none => isTrue fun txn htxn => by rw [h] at htxn; cases htxn
    | some txn =>
      decidable_of_iff (latestRun = gateRun s.runs txn.call.indexVersion)
        ⟨fun heq txn' htxn => by rw [h] at htxn; cases htxn; exact heq, fun hall => hall txn h⟩
  | .begin .. | .lockTarget _ | .selectActive .. | .lockNext _ | .flush _ | .commit _ | .rollback _ =>
    isTrue trivial

def act (threshold : Rat) (s : System V H) : Action V H → Option (System V H)
  | .promotion l =>
    if GateReads s l then (step threshold s.db l).map fun db => { s with db := db } else none
  | .ensure v sourceVersionHash stamp =>
    some { s with
      db := { s.db with tables := ensureRow s.db.tables v }
      index := Function.update s.index v (ensureIndexVersion (s.index v) sourceVersionHash stamp) }
  | .ingest v runner source attempt =>
    match runner.run (s.index v) source attempt with
    | .ok index =>
      some { s with
        index := Function.update s.index v index
        ingested := Function.update s.ingested v (s.ingested v + 1) }
    | .error _ => some s
  | .advance v sourceVersionHash =>
    some { s with
      index := Function.update s.index v (advanceSourceVersionHash (s.index v) sourceVersionHash) }
  | .start runId v startedAt limit suite embedder =>
    if v ∈ s.db.tables.keys ∧ evaluable (s.index v) embedder ∧ suite ≠ [] ∧
        runId ∉ s.runs.map EvaluationRow.runId then
      some { s with
        runs := s.runs ++ [{
          runId := runId, indexVersion := v, startedAt := startedAt, status := .running
          metrics := {}, failureSummary := [] }]
        evaluating := Function.update s.evaluating runId
          (some ⟨v, limit, suite, suite, 0, []⟩) }
    else none
  | .read runId =>
    match s.evaluating runId with
    | some e =>
      let seen := (s.ingested e.indexVersion, (s.index e.indexVersion).documents)
      some { s with reads := Function.update s.reads runId (s.reads runId ++ [seen]) }
    | none => none
  | .score runId sources =>
    match s.evaluating runId with
    | some e =>
      match e.todo with
      | case :: todo =>
        let scored := some (e.score case todo sources)
        some { s with evaluating := Function.update s.evaluating runId scored }
      | [] => none
    | none => none
  | .finish runId =>
    match s.evaluating runId, s.runs.find? fun row => row.runId = runId with
    | some e, some row =>
      match e.todo, linkEvaluationRun s.db.tables s.evaluationRunId (terminal e row) with
      | [], .ok column =>
        some { s with
          runs := s.runs.map fun r => if r.runId = runId then terminal e r else r
          evaluationRunId := column
          evaluating := Function.update s.evaluating runId none }
      | _, _ => none
    | _, _ => none
  | .crash runId => some { s with evaluating := Function.update s.evaluating runId none }

/-- Before the first evaluation and the first promotion. -/
structure Quiet (s : System V H) : Prop where
  runs : s.runs = []
  evaluating : ∀ runId, s.evaluating runId = none
  txns : ∀ t, s.db.txns t = none
  reads : ∀ runId, s.reads runId = []

/-! ## What a step does to the runs -/

theorem keys_step {threshold : Rat} {db db' : Db V} {l : Services.Label V}
    (h : step threshold db l = some db') : db'.tables.keys = db.tables.keys := by
  cases l with
  | commit t =>
    simp only [step] at h
    split at h
    · obtain rfl := Option.some.inj h
      exact keys_promoted ..
    · obtain rfl := Option.some.inj h
      rfl
    · cases h
  | begin | lockTarget | gate | selectActive | lockNext | flush | rollback =>
    simp only [step] at h
    repeat' split at h
    all_goals first
      | cases h; done
      | obtain rfl := Option.some.inj h
        rfl

theorem get_of_mem_keys {tables : Tables V} {v : V} (h : v ∈ tables.keys) :
    ∃ row, tables.get v = some row := by
  obtain ⟨row, hmem, hv⟩ := List.mem_map.mp h
  have hfind : (tables.indexVersions.find? fun row => decide (row.1 = v)).isSome = true :=
    List.find?_isSome.mpr ⟨row, hmem, by simpa using hv⟩
  obtain ⟨found, hfound⟩ := Option.isSome_iff_exists.mp hfind
  exact ⟨found.2, by rw [Tables.get, hfound, Option.map_some]⟩

theorem mem_keys_ensureRow {tables : Tables V} {v w : V} (h : w ∈ tables.keys) :
    w ∈ (ensureRow tables v).keys := by
  unfold ensureRow
  split
  · exact h
  · rw [Tables.keys, List.map_append]
    exact List.mem_append_left _ h

/-- A step that leaves the runs and the pointers as they are. -/
structure Frame (s s' : System V H) : Prop where
  runs : s'.runs = s.runs
  evaluationRunId : s'.evaluationRunId = s.evaluationRunId
  keys : ∀ v ∈ s.db.tables.keys, v ∈ s'.db.tables.keys
  evaluating : ∀ runId e', s'.evaluating runId = some e' →
    ∃ e, s.evaluating runId = some e ∧ e.indexVersion = e'.indexVersion

/-- The step that starts a run. -/
structure Starts (s s' : System V H) (row : EvaluationRow V) (e : Evaluation V) : Prop where
  known : row.indexVersion ∈ s.db.tables.keys
  fresh : row.runId ∉ s.runs.map EvaluationRow.runId
  running : row.status = .running
  version : e.indexVersion = row.indexVersion
  runs : s'.runs = s.runs ++ [row]
  evaluating : s'.evaluating = Function.update s.evaluating row.runId (some e)
  evaluationRunId : s'.evaluationRunId = s.evaluationRunId
  db : s'.db = s.db

/-- The step that ends one. -/
structure Finishes (s s' : System V H) (row : EvaluationRow V) (e : Evaluation V) : Prop where
  evaluation : s.evaluating row.runId = some e
  mem : row ∈ s.runs
  runs : s'.runs = s.runs.map fun r => if r.runId = row.runId then terminal e r else r
  evaluating : s'.evaluating = Function.update s.evaluating row.runId none
  evaluationRunId : row.indexVersion ∈ s.db.tables.keys →
    s'.evaluationRunId = Function.update s.evaluationRunId row.indexVersion (some row.runId)
  db : s'.db = s.db

omit [DecidableEq V] in
theorem completed_terminal (e : Evaluation V) (row : EvaluationRow V) :
    (terminal e row).completed = true := by
  simp only [EvaluationRow.completed, terminal]
  split <;> rfl

/-- **A step and the runs**: it starts one, ends one, or leaves them alone. -/
theorem act_runs {threshold : Rat} {s s' : System V H} {l : Action V H}
    (h : act threshold s l = some s') :
    Frame s s' ∨
      (∃ row e, (∃ startedAt limit suite embedder,
        l = .start row.runId row.indexVersion startedAt limit suite embedder) ∧ Starts s s' row e) ∨
      ∃ row e, l = .finish row.runId ∧ Finishes s s' row e := by
  cases l with
  | promotion l =>
    simp only [act] at h
    split at h
    · obtain ⟨db, hdb, rfl⟩ := Option.map_eq_some_iff.mp h
      exact .inl ⟨rfl, rfl, fun v hv => (keys_step hdb).symm ▸ hv, fun _ e he => ⟨e, he, rfl⟩⟩
    · cases h
  | ensure v sourceVersionHash stamp =>
    obtain rfl := Option.some.inj h
    exact .inl ⟨rfl, rfl, fun w hw => mem_keys_ensureRow hw, fun _ e he => ⟨e, he, rfl⟩⟩
  | ingest v runner source attempt =>
    simp only [act] at h
    split at h <;> obtain rfl := Option.some.inj h <;>
      exact .inl ⟨rfl, rfl, fun _ hw => hw, fun _ e he => ⟨e, he, rfl⟩⟩
  | advance v sourceVersionHash =>
    obtain rfl := Option.some.inj h
    exact .inl ⟨rfl, rfl, fun _ hw => hw, fun _ e he => ⟨e, he, rfl⟩⟩
  | start runId v startedAt limit suite embedder =>
    simp only [act] at h
    split at h
    · rename_i hstart
      obtain rfl := Option.some.inj h
      exact .inr (.inl ⟨⟨runId, v, startedAt, .running, {}, []⟩, _, ⟨_, _, _, _, rfl⟩,
        hstart.1, hstart.2.2.2, rfl, rfl, rfl, rfl, rfl, rfl⟩)
    · cases h
  | read runId =>
    simp only [act] at h
    split at h
    · obtain rfl := Option.some.inj h
      exact .inl ⟨rfl, rfl, fun _ hw => hw, fun _ e he => ⟨e, he, rfl⟩⟩
    · cases h
  | score runId sources =>
    simp only [act] at h
    split at h
    · rename_i e he
      split at h
      · rename_i case todo htodo
        obtain rfl := Option.some.inj h
        refine .inl ⟨rfl, rfl, fun _ hw => hw, fun id e' he' => ?_⟩
        change Function.update s.evaluating runId _ id = some e' at he'
        by_cases hid : id = runId
        · subst hid
          refine ⟨e, he, ?_⟩
          rw [Function.update_self] at he'
          obtain rfl := Option.some.inj he'
          unfold Evaluation.score
          split <;> rfl
        · rw [Function.update_of_ne hid] at he'
          exact ⟨e', he', rfl⟩
      · cases h
    · cases h
  | finish runId =>
    simp only [act] at h
    split at h
    · rename_i e row he hrow
      have hid : row.runId = runId := by simpa using List.find?_some hrow
      subst hid
      split at h
      · rename_i column htodo hlink
        obtain rfl := Option.some.inj h
        refine .inr (.inr ⟨row, e, rfl, he, List.mem_of_find?_eq_some hrow, rfl, rfl, ?_, rfl⟩)
        intro hknown
        obtain ⟨x, hx⟩ := get_of_mem_keys hknown
        rw [linkEvaluationRun, if_pos (completed_terminal e row)] at hlink
        have hget : s.db.tables.get (terminal e row).indexVersion = some x := hx
        rw [hget] at hlink
        exact (Except.ok.inj hlink).symm
      · cases h
    · cases h
  | crash runId =>
    obtain rfl := Option.some.inj h
    refine .inl ⟨rfl, rfl, fun _ hw => hw, fun id e' he' => ?_⟩
    change Function.update s.evaluating runId none id = some e' at he'
    by_cases hid : id = runId
    · rw [hid, Function.update_self] at he'
      cases he'
    · rw [Function.update_of_ne hid] at he'
      exact ⟨e', he', rfl⟩

end CiteVyn.Worker
