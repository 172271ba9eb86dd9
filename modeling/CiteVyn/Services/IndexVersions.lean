import CiteVyn.Lib.Locks
import CiteVyn.Lib.Runs
import CiteVyn.Text.Python
import Mathlib.Data.Rat.Defs
import Mathlib.Algebra.Order.Ring.Rat

/-! # Promoting an index version

`promote_version` of `app/services/index_versions.py` as a transaction among
others, statement by statement under READ COMMITTED: a statement reads a
snapshot of what is committed when it begins, `SELECT ... FOR UPDATE` locks
the rows of its snapshot one by one and drops a row that no longer matches
once it is locked, and what a transaction writes is seen when it commits. -/
namespace CiteVyn.Services
open CiteVyn.Lib.Locks CiteVyn.Lib.Runs CiteVyn.Text

/-- `IndexStatus`. -/
inductive IndexStatus where
  | candidate
  | active
  | previousGood
  | failed
  deriving DecidableEq, Repr

/-- The columns of `index_versions` that a promotion reads or writes, without
the primary key. -/
structure IndexVersion where
  status : IndexStatus
  promotedAt : Option Nat
  deriving DecidableEq, Repr

/-- The newest completed run of a version, and the pass rate its metrics give. -/
structure EvaluationRun where
  runId : Nat
  passRate : Option Rat
  deriving DecidableEq

/-- `PromotionBlockedReason`. -/
inductive PromotionBlockedReason where
  | noEvaluationRun
  | unusableMetrics
  | belowThreshold
  deriving DecidableEq, Repr

variable {V : Type*}

inductive PromoteError (V : Type*) where
  | indexVersionNotFound (indexVersion : V)
  | indexPromotionBlocked (indexVersion : V) (reason : PromotionBlockedReason)
      (measuredPassRate : Option Rat) (threshold : Rat) (runId : Option Nat)
  deriving DecidableEq

/-- The arguments of a call, and the clock it reads. -/
structure Call (V : Type*) where
  indexVersion : V
  adminUserId : Str
  requestId : Str
  force : Bool
  now : Nat
  deriving DecidableEq

/-- The `promote_index` row of the audit log. -/
structure AuditEvent (V : Type*) where
  adminUserId : Str
  resourceId : V
  requestId : Str
  promotedAt : Nat
  force : Bool
  measuredPassRate : Option Rat
  threshold : Rat
  evaluationRunId : Option Nat
  deriving DecidableEq

/-- What is committed. The audit log has its newest row first. -/
structure Tables (V : Type*) where
  indexVersions : List (V × IndexVersion)
  auditEvents : List (AuditEvent V)
  deriving DecidableEq

/-- The evaluation gate. -/
def gate (threshold : Rat) (call : Call V) (latestRun : Option EvaluationRun) :
    Except (PromoteError V) Unit :=
  if call.force then .ok ()
  else
    match latestRun with
    | none =>
      .error (.indexPromotionBlocked call.indexVersion .noEvaluationRun none threshold none)
    | some run =>
      match run.passRate with
      | none =>
        .error (.indexPromotionBlocked call.indexVersion .unusableMetrics none threshold
          (some run.runId))
      | some rate =>
        if rate < threshold then
          .error (.indexPromotionBlocked call.indexVersion .belowThreshold (some rate) threshold
            (some run.runId))
        else .ok ()

theorem gate_ok {threshold : Rat} {call : Call V} {latestRun : Option EvaluationRun}
    (h : gate threshold call latestRun = .ok ()) : call.force = true ∨
      ∃ run rate, latestRun = some run ∧ run.passRate = some rate ∧ threshold ≤ rate := by
  unfold gate at h
  split at h
  · exact .inl ‹_›
  · split at h
    · cases h
    · rename_i run
      split at h
      · cases h
      · rename_i rate hrate
        split at h
        · cases h
        · exact .inr ⟨run, rate, rfl, hrate, not_lt.mp ‹_›⟩

/-- Where a call is. -/
inductive Phase (V : Type*) where
  | begun
  /-- the target was active: nothing to write -/
  | unchanged
  | targetLocked
  | gated (latestRun : Option EvaluationRun)
  /-- `SELECT ... FOR UPDATE` of the active rows: the snapshot it reads, the
  rows of it still to lock, and those locked and still active -/
  | selecting (latestRun : Option EvaluationRun) (snapshot : Tables V) (todo found : List V)
  /-- the demotions, the promotion and the audit row are flushed -/
  | flushed (latestRun : Option EvaluationRun) (snapshot : Tables V) (found : List V)
  | raised (error : PromoteError V)
  deriving DecidableEq

structure Txn (V : Type*) where
  call : Call V
  /-- the target's status as the session holds it, when the caller has read the
  row before: the locking `SELECT` keeps a loaded row's attributes -/
  prior : Option IndexStatus
  phase : Phase V
  deriving DecidableEq

/-- The database with its transactions. -/
structure Db (V : Type*) where
  tables : Tables V
  locks : List (V × Nat)
  txns : Nat → Option (Txn V)

inductive Label (V : Type*) where
  | begin (t : Nat) (call : Call V) (loaded : Bool)
  | lockTarget (t : Nat)
  | gate (t : Nat) (latestRun : Option EvaluationRun)
  | selectActive (t : Nat) (order : List V)
  | lockNext (t : Nat)
  | flush (t : Nat)
  | commit (t : Nat)
  | rollback (t : Nat)
  deriving DecidableEq

variable [DecidableEq V]

/-- The versions whose row is active, in the order of the table. -/
def activeRows (tables : Tables V) : List V :=
  (tables.indexVersions.filter fun row => row.2.status = .active).map Prod.fst

def Tables.get (tables : Tables V) (v : V) : Option IndexVersion :=
  (tables.indexVersions.find? fun row => row.1 = v).map Prod.snd

/-- What a promotion writes: the active rows it found but the target become
`previous_good`, the target becomes active, and the audit row is added. -/
def promoted (threshold : Rat) (call : Call V) (latestRun : Option EvaluationRun) (found : List V)
    (tables : Tables V) : Tables V where
  indexVersions := tables.indexVersions.map fun row =>
    if row.1 = call.indexVersion then (row.1, { status := .active, promotedAt := some call.now })
    else if row.1 ∈ found then (row.1, { row.2 with status := .previousGood })
    else row
  auditEvents :=
    { adminUserId := call.adminUserId
      resourceId := call.indexVersion
      requestId := call.requestId
      promotedAt := call.now
      force := call.force
      measuredPassRate := latestRun.bind EvaluationRun.passRate
      threshold := threshold
      evaluationRunId := latestRun.map EvaluationRun.runId } :: tables.auditEvents

def Db.setTxn (s : Db V) (t : Nat) (txn : Option (Txn V)) : Db V :=
  { s with txns := Function.update s.txns t txn }

/-- The end of a transaction: its locks go. -/
def Db.finish (s : Db V) (t : Nat) : Db V :=
  { s.setTxn t none with locks := release s.locks t }

def step (threshold : Rat) (s : Db V) : Label V → Option (Db V)
  | .begin t call loaded =>
    match s.txns t with
    | none =>
      let prior := if loaded then (s.tables.get call.indexVersion).map IndexVersion.status else none
      some (s.setTxn t (some ⟨call, prior, .begun⟩))
    | some _ => none
  | .lockTarget t =>
    match s.txns t with
    | some ⟨call, prior, .begun⟩ =>
      match s.tables.get call.indexVersion with
      | none => some (s.setTxn t (some ⟨call, prior, .raised (.indexVersionNotFound call.indexVersion)⟩))
      | some row =>
        if free s.locks call.indexVersion t then
          let phase := if prior.getD row.status = .active then .unchanged else .targetLocked
          some { s.setTxn t (some ⟨call, prior, phase⟩) with
            locks := acquire s.locks call.indexVersion t }
        else none
    | _ => none
  | .gate t latestRun =>
    match s.txns t with
    | some ⟨call, prior, .targetLocked⟩ =>
      match gate threshold call latestRun with
      | .ok () => some (s.setTxn t (some ⟨call, prior, .gated latestRun⟩))
      | .error error => some (s.setTxn t (some ⟨call, prior, .raised error⟩))
    | _ => none
  | .selectActive t order =>
    match s.txns t with
    | some ⟨call, prior, .gated latestRun⟩ =>
      if order.Perm (activeRows s.tables) then
        some (s.setTxn t (some ⟨call, prior, .selecting latestRun s.tables order []⟩))
      else none
    | _ => none
  | .lockNext t =>
    match s.txns t with
    | some ⟨call, prior, .selecting latestRun snapshot (v :: todo) found⟩ =>
      if free s.locks v t then
        let found := if v ∈ activeRows s.tables then v :: found else found
        some { s.setTxn t (some ⟨call, prior, .selecting latestRun snapshot todo found⟩) with
          locks := acquire s.locks v t }
      else none
    | _ => none
  | .flush t =>
    match s.txns t with
    | some ⟨call, prior, .selecting latestRun snapshot [] found⟩ =>
      some (s.setTxn t (some ⟨call, prior, .flushed latestRun snapshot found⟩))
    | _ => none
  | .commit t =>
    match s.txns t with
    | some ⟨call, _, .flushed latestRun _ found⟩ =>
      some { s.finish t with tables := promoted threshold call latestRun found s.tables }
    | some ⟨_, _, .unchanged⟩ => some (s.finish t)
    | _ => none
  | .rollback t =>
    match s.txns t with
    | some _ => some (s.finish t)
    | none => none

/-- At most one row is active. -/
def AtMostOneActive (tables : Tables V) : Prop := (activeRows tables).length ≤ 1

/-- The target of the newest promotion committed since a snapshot. -/
def newestSince (snapshot tables : Tables V) : Option V :=
  if tables.auditEvents.length ≤ snapshot.auditEvents.length then none
  else tables.auditEvents.head?.map AuditEvent.resourceId

/-- What a promotion about to commit read its active rows from. -/
def readFrom (s : Db V) : Label V → Option (Tables V)
  | .commit t =>
    match s.txns t with
    | some ⟨_, _, .flushed _ snapshot _⟩ => some snapshot
    | _ => none
  | _ => none

/-- A promotion commits on current rows: the newest promotion committed since
it read the active rows, if there is one, activated a row that it read. -/
def Current (s : Db V) (l : Label V) : Prop :=
  ∀ snapshot ∈ readFrom s l, ∀ v ∈ newestSince snapshot s.tables, v ∈ activeRows snapshot

instance decidableAtMostOneActive (tables : Tables V) : Decidable (AtMostOneActive tables) :=
  inferInstanceAs (Decidable (_ ≤ 1))

instance decidableCurrent (s : Db V) (l : Label V) : Decidable (Current s l) :=
  inferInstanceAs (Decidable (∀ snapshot ∈ readFrom s l, ∀ v ∈ newestSince snapshot s.tables,
    v ∈ activeRows snapshot))

/-! ## What a promotion writes -/

def Tables.keys (tables : Tables V) : List V := tables.indexVersions.map Prod.fst

omit [DecidableEq V] in
theorem mem_activeRows {tables : Tables V} {v : V} : v ∈ activeRows tables ↔
    ∃ row, (v, row) ∈ tables.indexVersions ∧ row.status = .active := by
  simp only [activeRows, List.mem_map, List.mem_filter, decide_eq_true_eq]
  constructor
  · rintro ⟨⟨w, row⟩, ⟨hmem, hactive⟩, rfl⟩
    exact ⟨row, hmem, hactive⟩
  · rintro ⟨row, hmem, hactive⟩
    exact ⟨(v, row), ⟨hmem, hactive⟩, rfl⟩

theorem get_mem_keys {tables : Tables V} {v : V} {row : IndexVersion}
    (h : tables.get v = some row) : v ∈ tables.keys := by
  obtain ⟨⟨w, row'⟩, hfind, _⟩ := Option.map_eq_some_iff.mp h
  have hw : w = v := by simpa using List.find?_some hfind
  exact List.mem_map.mpr ⟨_, List.mem_of_find?_eq_some hfind, hw⟩

omit [DecidableEq V] in
/-- With one row for each key, at most one active row is at most one active
version. -/
theorem atMostOneActive_iff {tables : Tables V} (hkeys : tables.keys.Nodup) :
    AtMostOneActive tables ↔ ∀ v ∈ activeRows tables, ∀ w ∈ activeRows tables, v = w := by
  have hnodup : (activeRows tables).Nodup := hkeys.sublist (List.filter_sublist.map _)
  unfold AtMostOneActive
  constructor
  · intro hle v hv w hw
    match activeRows tables, hle, hv, hw with
    | [x], _, hv, hw => exact (List.mem_singleton.mp hv).trans (List.mem_singleton.mp hw).symm
  · intro hall
    match activeRows tables, hnodup, hall with
    | [], _, _ => exact Nat.zero_le _
    | [x], _, _ => exact Nat.le_refl _
    | x :: y :: rest, hnodup, hall =>
      have hxy : x = y := hall x (by simp) y (by simp)
      simp [hxy] at hnodup

theorem keys_promoted (threshold : Rat) (call : Call V) (run : Option EvaluationRun)
    (found : List V) (tables : Tables V) :
    (promoted threshold call run found tables).keys = tables.keys := by
  simp only [Tables.keys, promoted, List.map_map]
  refine List.map_congr_left fun row _ => ?_
  simp only [Function.comp_apply]
  split
  · rfl
  · split <;> rfl

theorem mem_activeRows_promoted {threshold : Rat} {call : Call V} {run : Option EvaluationRun}
    {found : List V} {tables : Tables V} {v : V} :
    v ∈ activeRows (promoted threshold call run found tables) ↔
      v = call.indexVersion ∧ v ∈ tables.keys ∨
        v ≠ call.indexVersion ∧ v ∉ found ∧ v ∈ activeRows tables := by
  rw [mem_activeRows, mem_activeRows]
  simp only [promoted, List.mem_map]
  constructor
  · rintro ⟨row', ⟨⟨w, row⟩, hmem, heq⟩, hactive⟩
    split at heq
    · obtain ⟨rfl, rfl⟩ := Prod.mk.inj heq
      exact .inl ⟨‹_›, List.mem_map.mpr ⟨_, hmem, rfl⟩⟩
    · split at heq
      · obtain ⟨rfl, rfl⟩ := Prod.mk.inj heq
        cases hactive
      · obtain ⟨rfl, rfl⟩ := Prod.mk.inj heq
        exact .inr ⟨‹_›, ‹_›, row, hmem, hactive⟩
  · rintro (⟨rfl, hkey⟩ | ⟨hne, hfound, row, hmem, hactive⟩)
    · obtain ⟨⟨w, row⟩, hmem, hw⟩ := List.mem_map.mp hkey
      exact ⟨_, ⟨_, hmem, by rw [if_pos hw, hw]⟩, rfl⟩
    · exact ⟨row, ⟨_, hmem, by rw [if_neg hne, if_neg hfound]⟩, hactive⟩

theorem newestSince_promoted (threshold : Rat) (call : Call V) (run : Option EvaluationRun)
    (found : List V) {snapshot tables : Tables V}
    (hle : snapshot.auditEvents.length ≤ tables.auditEvents.length) :
    newestSince snapshot (promoted threshold call run found tables) = some call.indexVersion := by
  have hlt : ¬(promoted threshold call run found tables).auditEvents.length ≤
      snapshot.auditEvents.length := by
    simp only [promoted, List.length_cons]
    omega
  rw [newestSince, if_neg hlt]
  rfl

/-! ## What holds while a promotion runs -/

/-- A promotion that has read the active rows: which of them it has locked, and
what has been committed since. -/
structure Reading (s : Db V) (t : Nat) (call : Call V) (snapshot : Tables V)
    (todo found : List V) : Prop where
  target : (call.indexVersion, t) ∈ s.locks
  known : call.indexVersion ∈ s.tables.keys
  todo_active : ∀ v ∈ todo, v ∈ activeRows snapshot
  found_active : ∀ v ∈ found, v ∈ activeRows snapshot
  found_locked : ∀ v ∈ found, (v, t) ∈ s.locks
  seen : ∀ v ∈ activeRows snapshot,
    v ∈ todo ∨ ((v, t) ∈ s.locks ∧ (v ∈ activeRows s.tables → v ∈ found))
  later : snapshot.auditEvents.length ≤ s.tables.auditEvents.length
  unchanged : newestSince snapshot s.tables = none → s.tables = snapshot
  newest : ∀ v ∈ newestSince snapshot s.tables,
    v ∈ activeRows s.tables ∧ v ≠ call.indexVersion

/-- What holds of a transaction in each phase. -/
def Sound (s : Db V) (t : Nat) : Txn V → Prop
  | ⟨call, _, .targetLocked⟩ => (call.indexVersion, t) ∈ s.locks ∧ call.indexVersion ∈ s.tables.keys
  | ⟨call, _, .gated _⟩ => (call.indexVersion, t) ∈ s.locks ∧ call.indexVersion ∈ s.tables.keys
  | ⟨call, _, .selecting _ snapshot todo found⟩ => Reading s t call snapshot todo found
  | ⟨call, _, .flushed _ snapshot found⟩ => Reading s t call snapshot [] found
  | _ => True

structure Inv (s : Db V) : Prop where
  keyed : s.tables.keys.Nodup
  exclusive : Exclusive s.locks
  single : AtMostOneActive s.tables
  sound : ∀ t txn, s.txns t = some txn → Sound s t txn

omit [DecidableEq V] in
/-- A step that commits nothing and keeps its locks leaves a transaction sound. -/
theorem Reading.frame {s s' : Db V} {t : Nat} {call : Call V} {snapshot : Tables V}
    {todo found : List V} (h : Reading s t call snapshot todo found) (htables : s'.tables = s.tables)
    (hlocks : ∀ v, (v, t) ∈ s.locks → (v, t) ∈ s'.locks) :
    Reading s' t call snapshot todo found where
  target := hlocks _ h.target
  known := htables ▸ h.known
  todo_active := h.todo_active
  found_active := h.found_active
  found_locked v hv := hlocks v (h.found_locked v hv)
  seen v hv := (h.seen v hv).imp id fun ⟨hlock, hfound⟩ => ⟨hlocks v hlock, htables ▸ hfound⟩
  later := htables ▸ h.later
  unchanged := htables ▸ h.unchanged
  newest := htables ▸ h.newest

omit [DecidableEq V] in
theorem Sound.frame {s s' : Db V} {t : Nat} {txn : Txn V} (h : Sound s t txn)
    (htables : s'.tables = s.tables) (hlocks : ∀ v, (v, t) ∈ s.locks → (v, t) ∈ s'.locks) :
    Sound s' t txn := by
  obtain ⟨call, prior, phase⟩ := txn
  cases phase with
  | targetLocked => exact ⟨hlocks _ h.1, htables ▸ h.2⟩
  | gated => exact ⟨hlocks _ h.1, htables ▸ h.2⟩
  | selecting => exact Reading.frame h htables hlocks
  | flushed => exact Reading.frame h htables hlocks
  | _ => trivial

/-- One more row of the snapshot is locked, and found if it is still active. -/
theorem Reading.lockNext {s : Db V} {t : Nat} {call : Call V} {snapshot : Tables V} {v : V}
    {todo found : List V} (h : Reading s t call snapshot (v :: todo) found) (txn : Txn V) :
    Reading { s.setTxn t (some txn) with locks := acquire s.locks v t } t call snapshot todo
      (if v ∈ activeRows s.tables then v :: found else found) := by
  have hcases : ∀ w ∈ (if v ∈ activeRows s.tables then v :: found else found), w = v ∨ w ∈ found := by
    intro w hw
    split at hw
    · exact List.mem_cons.mp hw
    · exact .inr hw
  constructor
  · exact mem_acquire h.target
  · exact h.known
  · exact fun w hw => h.todo_active w (List.mem_cons_of_mem _ hw)
  · intro w hw
    rcases hcases w hw with rfl | hw
    · exact h.todo_active w List.mem_cons_self
    · exact h.found_active w hw
  · intro w hw
    rcases hcases w hw with rfl | hw
    · exact acquired _ _ _
    · exact mem_acquire (h.found_locked w hw)
  · intro w hw
    by_cases hwv : w = v
    · refine .inr ⟨hwv ▸ acquired _ _ _, fun hactive => ?_⟩
      rw [if_pos (hwv ▸ hactive), hwv]
      exact List.mem_cons_self
    · rcases h.seen w hw with hin | ⟨hlock, hin⟩
      · exact .inl ((List.mem_cons.mp hin).resolve_left hwv)
      · refine .inr ⟨mem_acquire hlock, fun hactive => ?_⟩
        split
        · exact List.mem_cons_of_mem _ (hin hactive)
        · exact hin hactive
  · exact h.later
  · exact h.unchanged
  · exact h.newest

/-- Another transaction's commit: it holds no lock of this one. -/
theorem Reading.of_other {s : Db V} {t t' : Nat} {call call' : Call V} {snapshot snapshot' : Tables V}
    {todo found found' : List V} (threshold : Rat) (run : Option EvaluationRun)
    (h : Reading s t call snapshot todo found) (h' : Reading s t' call' snapshot' [] found')
    (hexcl : Exclusive s.locks) (hne : t ≠ t') :
    Reading { s.finish t' with tables := promoted threshold call' run found' s.tables } t call
      snapshot todo found := by
  have htarget : ∀ v, (v, t) ∈ s.locks → v ≠ call'.indexVersion := by
    rintro v hv rfl
    exact hne (hexcl _ _ _ hv h'.target)
  have hfound : ∀ v, (v, t) ∈ s.locks → v ∉ found' := fun v hv hmem =>
    hne (hexcl _ _ _ hv (h'.found_locked v hmem))
  have hlocks : ∀ v, (v, t) ∈ s.locks → (v, t) ∈ release s.locks t' :=
    fun v hv => mem_release hne hv
  have hnewest := newestSince_promoted threshold call' run found' h.later
  constructor
  · exact hlocks _ h.target
  · exact (keys_promoted threshold call' run found' s.tables).symm ▸ h.known
  · exact h.todo_active
  · exact h.found_active
  · exact fun v hv => hlocks v (h.found_locked v hv)
  · intro v hv
    refine (h.seen v hv).imp id fun ⟨hlock, hin⟩ => ⟨hlocks v hlock, fun hactive => hin ?_⟩
    rcases mem_activeRows_promoted.mp hactive with ⟨heq, _⟩ | ⟨_, _, hold⟩
    · exact absurd heq (htarget v hlock)
    · exact hold
  · exact Nat.le_succ_of_le h.later
  · intro hnone
    rw [hnewest] at hnone
    cases hnone
  · intro v hv
    rw [hnewest] at hv
    obtain rfl := Option.mem_some_iff.mp hv
    exact ⟨mem_activeRows_promoted.mpr (.inl ⟨rfl, h'.known⟩), (htarget _ h.target).symm⟩

theorem Sound.of_other {s : Db V} {t t' : Nat} {call' : Call V} {snapshot' : Tables V}
    {found' : List V} {txn : Txn V} (threshold : Rat) (run : Option EvaluationRun)
    (h : Sound s t txn) (h' : Reading s t' call' snapshot' [] found')
    (hexcl : Exclusive s.locks) (hne : t ≠ t') :
    Sound { s.finish t' with tables := promoted threshold call' run found' s.tables } t txn := by
  obtain ⟨call, prior, phase⟩ := txn
  have hkeys := keys_promoted threshold call' run found' s.tables
  cases phase with
  | targetLocked => exact ⟨mem_release hne h.1, hkeys.symm ▸ h.2⟩
  | gated => exact ⟨mem_release hne h.1, hkeys.symm ▸ h.2⟩
  | selecting => exact Reading.of_other threshold run h h' hexcl hne
  | flushed => exact Reading.of_other threshold run h h' hexcl hne
  | _ => trivial

/-- **A promotion's commit keeps one active row** exactly when it commits on
current rows. -/
theorem commit_single_iff {s : Db V} {t : Nat} {call : Call V} {snapshot : Tables V} {found : List V}
    (threshold : Rat) (run : Option EvaluationRun) (hinv : Inv s)
    (h : Reading s t call snapshot [] found) :
    AtMostOneActive (promoted threshold call run found s.tables) ↔
      ∀ v ∈ newestSince snapshot s.tables, v ∈ activeRows snapshot := by
  have hkeys : (promoted threshold call run found s.tables).keys.Nodup :=
    (keys_promoted threshold call run found s.tables).symm ▸ hinv.keyed
  have htarget : call.indexVersion ∈ activeRows (promoted threshold call run found s.tables) :=
    mem_activeRows_promoted.mpr (.inl ⟨rfl, h.known⟩)
  have hsingle := (atMostOneActive_iff hinv.keyed).mp hinv.single
  have hfound : ∀ v ∈ activeRows snapshot, v ∈ activeRows s.tables → v ∈ found := by
    intro v hv
    rcases h.seen v hv with hv | ⟨_, hin⟩
    · cases hv
    · exact hin
  rw [atMostOneActive_iff hkeys]
  constructor
  · intro hall v hv
    obtain ⟨hactive, hne⟩ := h.newest v hv
    by_contra hnot
    -- it was not read, so it stays active beside the target
    have hmem : v ∈ activeRows (promoted threshold call run found s.tables) :=
      mem_activeRows_promoted.mpr (.inr ⟨hne, fun hf => hnot (h.found_active v hf), hactive⟩)
    exact hne (hall v hmem _ htarget)
  · intro hcurrent
    have hgone : ∀ v ∈ activeRows (promoted threshold call run found s.tables),
        v = call.indexVersion := by
      intro v hv
      rcases mem_activeRows_promoted.mp hv with ⟨heq, _⟩ | ⟨_, hnot, hactive⟩
      · exact heq
      · exfalso
        cases hnew : newestSince snapshot s.tables with
        | none => exact hnot (hfound v (h.unchanged hnew ▸ hactive) hactive)
        | some w =>
          obtain ⟨hw, _⟩ := h.newest w (by rw [hnew]; rfl)
          obtain rfl := hsingle v hactive w hw
          exact hnot (hfound v (hcurrent v (by rw [hnew]; rfl)) hactive)
    intro v hv w hw
    rw [hgone v hv, hgone w hw]

/-! ## Every run -/

omit [DecidableEq V] in
/-- A step of one transaction that commits nothing. -/
theorem Inv.move {s s' : Db V} {t : Nat} {o : Option (Txn V)} (h : Inv s)
    (htables : s'.tables = s.tables) (hexcl : Exclusive s'.locks)
    (hlocks : ∀ v t', t' ≠ t → (v, t') ∈ s.locks → (v, t') ∈ s'.locks)
    (htxns : s'.txns = Function.update s.txns t o) (ho : ∀ txn, o = some txn → Sound s' t txn) :
    Inv s' where
  keyed := htables ▸ h.keyed
  exclusive := hexcl
  single := htables ▸ h.single
  sound t' txn htxn := by
    rw [htxns] at htxn
    by_cases ht : t' = t
    · subst ht
      rw [Function.update_self] at htxn
      exact ho txn htxn
    · rw [Function.update_of_ne ht] at htxn
      exact (h.sound t' txn htxn).frame htables fun v => hlocks v t' ht

omit [DecidableEq V] in
theorem Inv.setTxn {s : Db V} {t : Nat} {txn : Txn V} (h : Inv s) (ho : Sound s t txn) :
    Inv (s.setTxn t (some txn)) :=
  h.move rfl h.exclusive (fun _ _ _ hv => hv) rfl fun txn' htxn' => by
    obtain rfl := Option.some.inj htxn'
    exact ho.frame rfl fun _ hv => hv

omit [DecidableEq V] in
theorem Inv.finish {s : Db V} (h : Inv s) (t : Nat) : Inv (s.finish t) :=
  h.move rfl (h.exclusive.release t) (fun _ _ hne hv => mem_release hne hv) rfl
    fun txn htxn => by cases htxn

theorem Inv.lock {s : Db V} {t : Nat} {v : V} {txn : Txn V} (h : Inv s)
    (hfree : free s.locks v t = true)
    (ho : Sound { s.setTxn t (some txn) with locks := acquire s.locks v t } t txn) :
    Inv { s.setTxn t (some txn) with locks := acquire s.locks v t } :=
  h.move rfl (h.exclusive.acquire hfree) (fun _ _ _ hv => mem_acquire hv) rfl
    fun txn' htxn' => by
      obtain rfl := Option.some.inj htxn'
      exact ho

theorem Inv.commit {s : Db V} {t : Nat} {call : Call V} {snapshot : Tables V} {found : List V}
    (threshold : Rat) (run : Option EvaluationRun) (h : Inv s)
    (hread : Reading s t call snapshot [] found)
    (hcurrent : ∀ v ∈ newestSince snapshot s.tables, v ∈ activeRows snapshot) :
    Inv { s.finish t with tables := promoted threshold call run found s.tables } where
  keyed := (keys_promoted threshold call run found s.tables).symm ▸ h.keyed
  exclusive := h.exclusive.release t
  single := (commit_single_iff threshold run h hread).mpr hcurrent
  sound t' txn htxn := by
    have htxn : Function.update s.txns t none t' = some txn := htxn
    by_cases ht : t' = t
    · rw [ht, Function.update_self] at htxn
      cases htxn
    · rw [Function.update_of_ne ht] at htxn
      exact (h.sound t' txn htxn).of_other threshold run hread h.exclusive ht

theorem inv_step {threshold : Rat} {s s' : Db V} {l : Label V} (h : Inv s) (hok : Current s l)
    (hstep : step threshold s l = some s') : Inv s' := by
  cases l with
  | begin t call loaded =>
    simp only [step] at hstep
    split at hstep
    · obtain rfl := Option.some.inj hstep
      exact h.setTxn trivial
    · cases hstep
  | lockTarget t =>
    simp only [step] at hstep
    split at hstep
    · rename_i call prior htxn
      split at hstep
      · obtain rfl := Option.some.inj hstep
        exact h.setTxn trivial
      · rename_i row hrow
        split at hstep
        · rename_i hfree
          obtain rfl := Option.some.inj hstep
          refine h.lock hfree ?_
          split
          · trivial
          · exact ⟨acquired _ _ _, get_mem_keys hrow⟩
        · cases hstep
    · cases hstep
  | gate t run =>
    simp only [step] at hstep
    split at hstep
    · rename_i call prior htxn
      have hheld : (call.indexVersion, t) ∈ s.locks ∧ call.indexVersion ∈ s.tables.keys :=
        h.sound t _ htxn
      split at hstep <;> obtain rfl := Option.some.inj hstep
      · exact h.setTxn hheld
      · exact h.setTxn trivial
    · cases hstep
  | selectActive t order =>
    simp only [step] at hstep
    split at hstep
    · rename_i call prior run htxn
      split at hstep
      · rename_i hperm
        obtain rfl := Option.some.inj hstep
        obtain ⟨htarget, hknown⟩ := h.sound t _ htxn
        have hnone : newestSince s.tables s.tables = none := if_pos (Nat.le_refl _)
        refine h.setTxn ⟨htarget, hknown, fun v hv => hperm.mem_iff.mp hv, by simp, by simp,
          fun v hv => .inl (hperm.mem_iff.mpr hv), Nat.le_refl _, fun _ => rfl, ?_⟩
        intro v hv
        rw [hnone] at hv
        cases hv
      · cases hstep
    · cases hstep
  | lockNext t =>
    simp only [step] at hstep
    split at hstep
    · rename_i call prior run snapshot v todo found htxn
      split at hstep
      · rename_i hfree
        obtain rfl := Option.some.inj hstep
        have hread : Reading s t call snapshot (v :: todo) found := h.sound t _ htxn
        exact h.lock hfree (hread.lockNext _)
      · cases hstep
    · cases hstep
  | flush t =>
    simp only [step] at hstep
    split at hstep
    · rename_i call prior run snapshot found htxn
      obtain rfl := Option.some.inj hstep
      have hread : Reading s t call snapshot [] found := h.sound t _ htxn
      exact h.setTxn hread
    · cases hstep
  | commit t =>
    simp only [step] at hstep
    split at hstep
    · rename_i call prior run snapshot found htxn
      obtain rfl := Option.some.inj hstep
      have hread : readFrom s (.commit t) = some snapshot := by simp only [readFrom, htxn]
      exact h.commit threshold run (h.sound t _ htxn) (hok snapshot hread)
    · obtain rfl := Option.some.inj hstep
      exact h.finish t
    · cases hstep
  | rollback t =>
    simp only [step] at hstep
    split at hstep
    · obtain rfl := Option.some.inj hstep
      exact h.finish t
    · cases hstep

/-- No transaction is running. -/
structure Idle (s : Db V) : Prop where
  locks : s.locks = []
  txns : ∀ t, s.txns t = none

/-- **One active row, as long as promotions commit on current rows.** -/
theorem promotions_single {threshold : Rat} {s s' : Db V} {ls : List (Label V)}
    (hidle : Idle s) (hkeys : s.tables.keys.Nodup) (hsingle : AtMostOneActive s.tables)
    (hok : Along (step threshold) Current s ls) (hrun : exec (step threshold) s ls = some s') :
    AtMostOneActive s'.tables := by
  have hstart : Inv s := by
    refine ⟨hkeys, hidle.locks ▸ exclusive_nil, hsingle, fun t txn htxn => ?_⟩
    rw [hidle.txns t] at htxn
    cases htxn
  exact (exec_invariant (fun _ _ _ h hok hstep => inv_step h hok hstep) hstart hok hrun).single

/-! ## Two promotions at once -/

def twoCandidates : Db Nat where
  tables :=
    { indexVersions := [(0, ⟨.active, some 0⟩), (1, ⟨.candidate, none⟩), (2, ⟨.candidate, none⟩)]
      auditEvents := [] }
  locks := []
  txns _ := none

def forced (indexVersion : Nat) : Call Nat := ⟨indexVersion, "admin".toList, [], true, 1⟩

/-- One promotion at a time. -/
def inTurn : List (Label Nat) :=
  [.begin 1 (forced 1) false, .lockTarget 1, .gate 1 none, .selectActive 1 [0], .lockNext 1, .flush 1,
    .commit 1, .begin 2 (forced 2) true, .lockTarget 2, .gate 2 none, .selectActive 2 [1],
    .lockNext 2, .flush 2, .commit 2]

/-- Both read the active rows before one of them commits. -/
def atOnce : List (Label Nat) :=
  [.begin 1 (forced 1) false, .begin 2 (forced 2) false, .lockTarget 1, .lockTarget 2, .gate 1 none,
    .gate 2 none, .selectActive 1 [0], .selectActive 2 [0], .lockNext 1, .flush 1, .commit 1,
    .lockNext 2, .flush 2, .commit 2]

theorem promotions_single_inTurn : ∃ s, exec (step 1) twoCandidates inTurn = some s ∧
    AtMostOneActive s.tables := by
  have hidle : Idle twoCandidates := ⟨rfl, fun _ => rfl⟩
  have hrun : ∃ s, exec (step 1) twoCandidates inTurn = some s := by
    refine Option.isSome_iff_exists.mp ?_
    decide
  obtain ⟨s, hs⟩ := hrun
  exact ⟨s, hs, promotions_single hidle (by decide) (by decide) (by decide) hs⟩

/-- The second finds the row it waited for demoted and never sees the one that
the first activated. -/
theorem promotions_atOnce : AtMostOneActive twoCandidates.tables ∧
    ((exec (step 1) twoCandidates atOnce).map fun s => activeRows s.tables) = some [1, 2] := by
  decide

end CiteVyn.Services
