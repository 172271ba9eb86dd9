import CiteVyn.Worker.PromotionEval

/-! # The displayed run and the gate's run

`index_versions.evaluation_run_id` is written when a run ends, so it names the
run of the version that ended last; the gate takes the run that started last.
The two agree as long as every run that ends is the newest of those that have. -/
namespace CiteVyn.Worker
open CiteVyn.Lib.Runs CiteVyn.Services

variable {V : Type*} {H : Type*} [DecidableEq V]

/-- The runs of the table, and those under way. -/
structure Recorded (s : System V H) : Prop where
  ids : (s.runs.map EvaluationRow.runId).Nodup
  known : ∀ row ∈ s.runs, row.indexVersion ∈ s.db.tables.keys
  busy : ∀ runId e, s.evaluating runId = some e →
    ∃ row ∈ s.runs, row.runId = runId ∧ row.indexVersion = e.indexVersion ∧ row.status = .running

/-- The pointer of a version that has a completed run names the gate's run. -/
def PointerAgrees (s : System V H) (v : V) : Prop :=
  ∀ row, latestCompletedRun s.runs v = some row → s.evaluationRunId v = some row.runId

/-- A run that ends started after the completed runs of its version. -/
def InOrder (s : System V H) : Action V H → Prop
  | .finish runId => ∀ row ∈ s.runs, row.runId = runId →
      ∀ other ∈ s.runs, other.indexVersion = row.indexVersion → other.completed = true →
        runKey row ≤ runKey other
  | _ => True

instance decidableInOrder (s : System V H) (l : Action V H) : Decidable (InOrder s l) :=
  match l with
  | .finish runId => inferInstanceAs (Decidable (∀ row ∈ s.runs, row.runId = runId →
      ∀ other ∈ s.runs, other.indexVersion = row.indexVersion → other.completed = true →
        runKey row ≤ runKey other))
  | .promotion _ | .ensure .. | .ingest .. | .advance .. | .start .. | .read _ | .score .. | .crash _ =>
    isTrue trivial

omit [DecidableEq V] in
theorem Quiet.recorded {s : System V H} (h : Quiet s) : Recorded s where
  ids := by
    rw [h.runs]
    exact List.nodup_nil
  known := by
    rw [h.runs]
    exact fun _ hrow => absurd hrow List.not_mem_nil
  busy runId e he := by
    rw [h.evaluating] at he
    cases he

/-! ## Ending a run -/

/-- The runs after one of them has ended. -/
theorem mem_finishes {s s' : System V H} {row : EvaluationRow V} {e : Evaluation V}
    (h : Finishes s s' row e) (hids : (s.runs.map EvaluationRow.runId).Nodup) {r : EvaluationRow V} :
    r ∈ s'.runs ↔ r = terminal e row ∨ r ∈ s.runs ∧ r.runId ≠ row.runId := by
  rw [h.runs, List.mem_map]
  constructor
  · rintro ⟨x, hx, rfl⟩
    by_cases hid : x.runId = row.runId
    · rw [if_pos hid, List.inj_on_of_nodup_map hids hx h.mem hid]
      exact .inl rfl
    · rw [if_neg hid]
      exact .inr ⟨hx, hid⟩
  · rintro (rfl | ⟨hr, hid⟩)
    · exact ⟨row, h.mem, if_pos rfl⟩
    · exact ⟨r, hr, if_neg hid⟩

theorem ids_finishes {s s' : System V H} {row : EvaluationRow V} {e : Evaluation V}
    (h : Finishes s s' row e) : s'.runs.map EvaluationRow.runId = s.runs.map EvaluationRow.runId := by
  rw [h.runs, List.map_map]
  refine List.map_congr_left fun r _ => ?_
  simp only [Function.comp_apply]
  split <;> rfl

theorem Recorded.act {threshold : Rat} {s s' : System V H} {l : Action V H} (h : Recorded s)
    (hact : act threshold s l = some s') : Recorded s' := by
  rcases act_runs hact with hframe | ⟨row, e, _, hstart⟩ | ⟨row, e, _, hend⟩
  · constructor
    · rw [hframe.runs]
      exact h.ids
    · intro r hr
      exact hframe.keys _ (h.known r (hframe.runs ▸ hr))
    · intro runId e' he'
      obtain ⟨e, he, hversion⟩ := hframe.evaluating runId e' he'
      rw [hframe.runs, ← hversion]
      exact h.busy runId e he
  · constructor
    · rw [hstart.runs, List.map_append]
      refine List.nodup_append.mpr ⟨h.ids, List.nodup_singleton _, ?_⟩
      intro a ha b hb heq
      rw [List.map_singleton, List.mem_singleton] at hb
      exact hstart.fresh (hb ▸ heq ▸ ha)
    · intro r hr
      rw [hstart.db]
      rcases List.mem_append.mp (hstart.runs ▸ hr) with hr | hr
      · exact h.known r hr
      · rw [List.mem_singleton.mp hr]
        exact hstart.known
    · intro runId e' he'
      rw [hstart.evaluating] at he'
      rw [hstart.runs]
      by_cases hid : runId = row.runId
      · subst hid
        rw [Function.update_self] at he'
        obtain rfl := Option.some.inj he'
        exact ⟨row, by simp, rfl, hstart.version.symm, hstart.running⟩
      · rw [Function.update_of_ne hid] at he'
        obtain ⟨r, hr, hrest⟩ := h.busy runId e' he'
        exact ⟨r, List.mem_append_left _ hr, hrest⟩
  · constructor
    · rw [ids_finishes hend]
      exact h.ids
    · intro r hr
      rw [hend.db]
      rcases (mem_finishes hend h.ids).mp hr with rfl | ⟨hr, _⟩
      · exact h.known row hend.mem
      · exact h.known r hr
    · intro runId e' he'
      rw [hend.evaluating] at he'
      by_cases hid : runId = row.runId
      · rw [hid, Function.update_self] at he'
        cases he'
      · rw [Function.update_of_ne hid] at he'
        obtain ⟨r, hr, hrun, hrest⟩ := h.busy runId e' he'
        exact ⟨r, (mem_finishes hend h.ids).mpr (.inr ⟨hr, hrun ▸ hid⟩), hrun, hrest⟩

/-- A run under way is not completed. -/
theorem Recorded.running {s s' : System V H} {row : EvaluationRow V} {e : Evaluation V}
    (h : Recorded s) (hend : Finishes s s' row e) : row.completed = false := by
  obtain ⟨r, hr, hid, _, hrunning⟩ := h.busy row.runId e hend.evaluation
  obtain rfl := List.inj_on_of_nodup_map h.ids hr hend.mem hid
  simp [EvaluationRow.completed, hrunning, completedEvaluationStatuses]

/-- **When the pointer is right after a run has ended**: when that run is the
newest of the completed ones. -/
theorem agrees_finishes_iff {s s' : System V H} {row : EvaluationRow V} {e : Evaluation V}
    (h : Recorded s) (h' : Recorded s') (hend : Finishes s s' row e) :
    PointerAgrees s' row.indexVersion ↔ ∀ other ∈ s.runs, other.indexVersion = row.indexVersion →
      other.completed = true → runKey row ≤ runKey other := by
  have hpointer : s'.evaluationRunId row.indexVersion = some row.runId := by
    rw [hend.evaluationRunId (h.known row hend.mem), Function.update_self]
  have hself : terminal e row ∈ s'.runs := (mem_finishes hend h.ids).mpr (.inl rfl)
  have hother : ∀ other ∈ s.runs, other.completed = true → other ∈ s'.runs := by
    intro other hmem hcompleted
    refine (mem_finishes hend h.ids).mpr (.inr ⟨hmem, fun hid => ?_⟩)
    rw [List.inj_on_of_nodup_map h.ids hmem hend.mem hid, h.running hend] at hcompleted
    cases hcompleted
  constructor
  · intro hagrees other hmem hversion hcompleted
    cases hlatest : latestCompletedRun s'.runs row.indexVersion with
    | none =>
      have hin : terminal e row ∈ completedRuns s'.runs row.indexVersion :=
        mem_completedRuns.mpr ⟨hself, rfl, completed_terminal e row⟩
      rw [Lib.OrderBy.first_eq_none_iff.mp hlatest] at hin
      cases hin
    | some r =>
      obtain ⟨⟨hr, _, _⟩, hleast⟩ := (latestCompletedRun_eq_some_iff h'.ids).mp hlatest
      have hid : r.runId = row.runId :=
        Option.some.inj ((hagrees r hlatest).symm.trans hpointer)
      obtain rfl := List.inj_on_of_nodup_map h'.ids hr hself hid
      exact hleast other (hother other hmem hcompleted) hversion hcompleted
  · intro hnewest r hlatest
    obtain ⟨⟨hr, hversion, hcompleted⟩, hleast⟩ := (latestCompletedRun_eq_some_iff h'.ids).mp hlatest
    rw [hpointer]
    rcases (mem_finishes hend h.ids).mp hr with rfl | ⟨hmem, _⟩
    · rfl
    · have hle : runKey r ≤ runKey row := hleast (terminal e row) hself rfl (completed_terminal e row)
      have hge := hnewest r hmem hversion hcompleted
      rw [runKey_injective (le_antisymm hge hle)]

/-- The end of a run leaves the other versions alone. -/
theorem agrees_finishes_of_ne {s s' : System V H} {row : EvaluationRow V} {e : Evaluation V} {v : V}
    (h : Recorded s) (h' : Recorded s') (hend : Finishes s s' row e) (hv : v ≠ row.indexVersion)
    (hagrees : PointerAgrees s v) : PointerAgrees s' v := by
  intro r hlatest
  obtain ⟨⟨hr, hversion, hcompleted⟩, hleast⟩ := (latestCompletedRun_eq_some_iff h'.ids).mp hlatest
  have hmem : r ∈ s.runs := by
    rcases (mem_finishes hend h.ids).mp hr with rfl | ⟨hmem, _⟩
    · exact absurd hversion.symm hv
    · exact hmem
  rw [hend.evaluationRunId (h.known row hend.mem), Function.update_of_ne hv]
  refine hagrees r ((latestCompletedRun_eq_some_iff h.ids).mpr
    ⟨⟨hmem, hversion, hcompleted⟩, fun other hother hversion' hcompleted' => ?_⟩)
  refine hleast other ((mem_finishes hend h.ids).mpr (.inr ⟨hother, fun hid => hv ?_⟩)) hversion'
    hcompleted'
  rw [← hversion', List.inj_on_of_nodup_map h.ids hother hend.mem hid]

theorem agrees_act {threshold : Rat} {s s' : System V H} {l : Action V H} (h : Recorded s)
    (hok : InOrder s l) (hact : act threshold s l = some s') (hagrees : ∀ v, PointerAgrees s v) (v : V) :
    PointerAgrees s' v := by
  have h' := h.act hact
  rcases act_runs hact with hframe | ⟨row, e, _, hstart⟩ | ⟨row, e, rfl, hend⟩
  · intro r hr
    rw [hframe.runs] at hr
    rw [hframe.evaluationRunId]
    exact hagrees v r hr
  · intro r hr
    have hsame : completedRuns s'.runs v = completedRuns s.runs v := by
      have hnot : row.completed = false := by
        simp [EvaluationRow.completed, hstart.running, completedEvaluationStatuses]
      simp [completedRuns, hstart.runs, List.filter_append, hnot]
    rw [latestCompletedRun, hsame] at hr
    rw [hstart.evaluationRunId]
    exact hagrees v r hr
  · by_cases hv : v = row.indexVersion
    · subst hv
      exact (agrees_finishes_iff h h' hend).mpr (hok row hend.mem rfl)
    · exact agrees_finishes_of_ne h h' hend hv (hagrees v)

/-- **The displayed run is the gate's run** for every version, in every run of
evaluations, ingestions and promotions in which a run that ends started after
the completed runs of its version. -/
theorem evaluationRunId_agrees {threshold : Rat} {s s' : System V H} {ls : List (Action V H)}
    (hs : Quiet s) (hok : Along (act threshold) InOrder s ls) (h : exec (act threshold) s ls = some s')
    (v : V) (row : EvaluationRow V) (hrow : latestCompletedRun s'.runs v = some row) :
    s'.evaluationRunId v = some row.runId := by
  have hinv := exec_invariant (I := fun s : System V H => Recorded s ∧ ∀ v, PointerAgrees s v)
    (fun s l s' hI hok hact => ⟨hI.1.act hact, agrees_act hI.1 hok hact hI.2⟩)
    ⟨hs.recorded, fun v row hrow => by
      rw [latestCompletedRun, completedRuns, hs.runs] at hrow
      cases hrow⟩ hok h
  exact hinv.2 v row hrow

/-! ## Two runs that overlap -/

/-- One candidate, before any evaluation. -/
def candidateSystem : System Nat Unit where
  db :=
    { tables := ⟨[(0, { status := .candidate, promotedAt := none })], []⟩
      locks := []
      txns := fun _ => none }
  evaluationRunId _ := none
  index _ := ⟨none, [], List.nodup_nil⟩
  runs := []
  evaluating _ := none
  ingested _ := 0
  reads _ := []

theorem candidateSystem_quiet : Quiet candidateSystem :=
  ⟨rfl, fun _ => rfl, fun _ => rfl, fun _ => rfl⟩

def oneCase : List PromotionCase := [⟨"c1".toList, "How?".toList, "codex".toList⟩]

def startAt (runId startedAt : Nat) : Action Nat Unit := .start runId 0 startedAt 1 oneCase none

/-- The first run passes, and the second, which starts after it, fails before it
ends. -/
def overlapping : List (Action Nat Unit) :=
  [startAt 1 10, startAt 2 20, .score 2 [], .finish 2, .score 1 ["codex".toList], .finish 1]

def inTurnRuns : List (Action Nat Unit) :=
  [startAt 1 10, .score 1 ["codex".toList], .finish 1, startAt 2 20, .score 2 [], .finish 2]

/-- What is displayed, and what the gate takes. -/
def displayedAndGated (s : System Nat Unit) : Option Nat × Option Nat :=
  (s.evaluationRunId 0, (latestCompletedRun s.runs 0).map EvaluationRow.runId)

/-- The older run ends last: it is displayed, and the gate takes the newer. -/
theorem evaluationRunId_overlapping :
    ((exec (act 1) candidateSystem overlapping).map displayedAndGated) = some (some 1, some 2) := by
  decide +kernel

theorem evaluationRunId_inTurn :
    ∃ s', exec (act 1) candidateSystem inTurnRuns = some s' ∧
      ∀ row, latestCompletedRun s'.runs 0 = some row → s'.evaluationRunId 0 = some row.runId := by
  obtain ⟨s', hs'⟩ := Option.isSome_iff_exists.mp
    (by decide +kernel : (exec (act 1) candidateSystem inTurnRuns).isSome = true)
  exact ⟨s', hs', evaluationRunId_agrees candidateSystem_quiet (by decide +kernel) hs' 0⟩

end CiteVyn.Worker
