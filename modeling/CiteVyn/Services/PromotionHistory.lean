import CiteVyn.Services.IndexResolution

/-! # Promotions one after another

What a call of `promote_version` does when no other transaction runs beside it,
what a history of such calls leaves in the table, and what the read side then
says about it. -/
namespace CiteVyn.Services
open CiteVyn.Lib.Locks CiteVyn.Lib.OrderBy CiteVyn.Lib.Runs

variable {V : Type*} [DecidableEq V]

/-- A call with what it reads beside the index rows: the bar that is set, and
the target's newest completed run. -/
structure Attempt (V : Type*) where
  call : Call V
  threshold : Rat
  latestRun : Option EvaluationRun
  deriving DecidableEq

/-- `promote_version`: nothing to write when the target is active, else what it
writes. -/
def promoteVersion (a : Attempt V) (tables : Tables V) :
    Except (PromoteError V) (Option (Tables V)) :=
  match tables.get a.call.indexVersion with
  | none => .error (.indexVersionNotFound a.call.indexVersion)
  | some row =>
    if row.status = .active then .ok none
    else
      match gate a.threshold a.call a.latestRun with
      | .error error => .error error
      | .ok () =>
        .ok (some (promoted a.threshold a.call a.latestRun (activeRows tables) tables))

/-- The transaction around it: an error rolls back. -/
def transact (tables : Tables V) (a : Attempt V) : Tables V :=
  match promoteVersion a tables with
  | .ok (some tables') => tables'
  | .ok none => tables
  | .error _ => tables

def history (tables : Tables V) (attempts : List (Attempt V)) : Tables V :=
  attempts.foldl transact tables

/-- The call promotes its target. -/
def TakesEffect (a : Attempt V) (tables : Tables V) : Prop :=
  ∃ row, tables.get a.call.indexVersion = some row ∧ row.status ≠ .active ∧
    gate a.threshold a.call a.latestRun = .ok ()

instance decidableGate (threshold : Rat) (call : Call V) (run : Option EvaluationRun) :
    Decidable (gate threshold call run = .ok ()) :=
  match gate threshold call run with
  | .ok () => isTrue rfl
  | .error _ => isFalse nofun

instance decidableTakesEffect (a : Attempt V) (tables : Tables V) :
    Decidable (TakesEffect a tables) :=
  match h : tables.get a.call.indexVersion with
  | none => isFalse fun ⟨_, hrow, _⟩ => by rw [h] at hrow; cases hrow
  | some row =>
    decidable_of_iff (row.status ≠ .active ∧ gate a.threshold a.call a.latestRun = .ok ())
      ⟨fun hrow => ⟨row, h, hrow⟩, fun ⟨_, hget, hrow⟩ => by
        obtain rfl := Option.some.inj (h.symm.trans hget)
        exact hrow⟩

theorem promoteVersion_of_takesEffect {a : Attempt V} {tables : Tables V}
    (h : TakesEffect a tables) : promoteVersion a tables =
      .ok (some (promoted a.threshold a.call a.latestRun (activeRows tables) tables)) := by
  obtain ⟨row, hrow, hactive, hgate⟩ := h
  simp only [promoteVersion, hrow, if_neg hactive, hgate]

theorem transact_of_takesEffect {a : Attempt V} {tables : Tables V} (h : TakesEffect a tables) :
    transact tables a = promoted a.threshold a.call a.latestRun (activeRows tables) tables := by
  rw [transact, promoteVersion_of_takesEffect h]

/-- A call that promotes nothing changes nothing. -/
theorem transact_of_not {a : Attempt V} {tables : Tables V} (h : ¬TakesEffect a tables) :
    transact tables a = tables := by
  unfold transact promoteVersion
  cases hrow : tables.get a.call.indexVersion with
  | none => rfl
  | some row =>
    by_cases hactive : row.status = .active
    · simp only [if_pos hactive]
    · cases hgate : gate a.threshold a.call a.latestRun with
      | error error => simp only [if_neg hactive]
      | ok u => exact absurd ⟨row, hrow, hactive, hgate⟩ h

theorem keys_transact (tables : Tables V) (a : Attempt V) : (transact tables a).keys = tables.keys := by
  by_cases h : TakesEffect a tables
  · rw [transact_of_takesEffect h, keys_promoted]
  · rw [transact_of_not h]

/-- Where a row of the table comes from after a promotion. -/
theorem mem_transact {a : Attempt V} {tables : Tables V} (hkeys : tables.keys.Nodup)
    (h : TakesEffect a tables) {x : V × IndexVersion} :
    x ∈ (transact tables a).indexVersions ↔ ∃ y ∈ tables.indexVersions,
      (y.1 = a.call.indexVersion ∧ x = (y.1, { status := .active, promotedAt := some a.call.now })) ∨
      (y.1 ≠ a.call.indexVersion ∧ y.2.status = .active ∧
        x = (y.1, { y.2 with status := .previousGood })) ∨
      (y.1 ≠ a.call.indexVersion ∧ y.2.status ≠ .active ∧ x = y) := by
  rw [transact_of_takesEffect h, promoted, List.mem_map]
  refine exists_congr fun y => and_congr_right fun hy => ?_
  have hactive : y.1 ∈ activeRows tables ↔ y.2.status = .active := by
    rw [mem_activeRows]
    constructor
    · rintro ⟨row, hmem, hrow⟩
      rwa [← Tables.row_eq hkeys hmem hy rfl]
    · intro hrow
      exact ⟨y.2, hy, hrow⟩
  by_cases htarget : y.1 = a.call.indexVersion
  · simp [htarget, eq_comm]
  · by_cases hrow : y.2.status = .active
    · simp [htarget, hrow, hactive, eq_comm]
    · simp [htarget, hrow, hactive, eq_comm]

/-- The row a promotion leaves active: its target's, stamped. -/
theorem rowsOf_active_transact {a : Attempt V} {tables : Tables V} (hkeys : tables.keys.Nodup)
    (h : TakesEffect a tables) : rowsOf .active (transact tables a) =
      [(a.call.indexVersion, { status := .active, promotedAt := some a.call.now })] := by
  have htarget : a.call.indexVersion ∈ tables.keys := by
    obtain ⟨row, hrow, _⟩ := h
    exact get_mem_keys hrow
  have hkeys' : (transact tables a).keys.Nodup := (keys_transact tables a).symm ▸ hkeys
  have hnodup : (rowsOf .active (transact tables a)).Nodup :=
    hkeys'.of_map.sublist List.filter_sublist
  refine List.perm_singleton.mp ((List.perm_ext_iff_of_nodup hnodup (List.nodup_singleton _)).mpr
    fun x => ?_)
  rw [mem_rowsOf, mem_transact hkeys h, List.mem_singleton]
  constructor
  · rintro ⟨⟨y, _, ⟨heq, rfl⟩ | ⟨_, _, rfl⟩ | ⟨_, hne, rfl⟩⟩, hactive⟩
    · rw [heq]
    · cases hactive
    · exact absurd hactive hne
  · rintro rfl
    obtain ⟨y, hy, heq⟩ := List.mem_map.mp htarget
    exact ⟨⟨y, hy, .inl ⟨heq, by rw [heq]⟩⟩, rfl⟩

/-- The rows that have been active before: those that were, and the rows that
the promotion takes the place of. -/
theorem mem_rowsOf_previousGood_transact {a : Attempt V} {tables : Tables V}
    (hkeys : tables.keys.Nodup) (h : TakesEffect a tables) {x : V × IndexVersion} :
    x ∈ rowsOf .previousGood (transact tables a) ↔ x.1 ≠ a.call.indexVersion ∧
      (x ∈ rowsOf .previousGood tables ∨
        ∃ y ∈ rowsOf .active tables, x = (y.1, { y.2 with status := .previousGood })) := by
  rw [mem_rowsOf, mem_transact hkeys h]
  constructor
  · rintro ⟨⟨y, hy, ⟨_, rfl⟩ | ⟨hne, hactive, rfl⟩ | ⟨hne, _, rfl⟩⟩, hstatus⟩
    · cases hstatus
    · exact ⟨hne, .inr ⟨y, mem_rowsOf.mpr ⟨hy, hactive⟩, rfl⟩⟩
    · exact ⟨hne, .inl (mem_rowsOf.mpr ⟨hy, hstatus⟩)⟩
  · rintro ⟨hne, hx | ⟨y, hy, rfl⟩⟩
    · obtain ⟨hmem, hstatus⟩ := mem_rowsOf.mp hx
      exact ⟨⟨x, hmem, .inr (.inr ⟨hne, by simp [hstatus], rfl⟩)⟩, hstatus⟩
    · obtain ⟨hmem, hactive⟩ := mem_rowsOf.mp hy
      exact ⟨⟨y, hmem, .inr (.inl ⟨hne, hactive, rfl⟩)⟩, rfl⟩

/-! ## The transaction runs alone

The same call as the steps of a transaction, when no other transaction is
under way. -/

/-- The statements of the call, in order. -/
def serial (t : Nat) (a : Attempt V) (tables : Tables V) : List (Label V) :=
  match tables.get a.call.indexVersion with
  | none => [.begin t a.call false, .lockTarget t, .rollback t]
  | some row =>
    if row.status = .active then [.begin t a.call false, .lockTarget t, .commit t]
    else
      match gate a.threshold a.call a.latestRun with
      | .error _ => [.begin t a.call false, .lockTarget t, .gate t a.latestRun, .rollback t]
      | .ok () =>
        [.begin t a.call false, .lockTarget t, .gate t a.latestRun,
          .selectActive t (activeRows tables)] ++
        (activeRows tables).map (fun _ => .lockNext t) ++ [.flush t, .commit t]

theorem promoted_congr {threshold : Rat} {call : Call V} {run : Option EvaluationRun}
    {found found' : List V} {tables : Tables V} (h : ∀ v, v ∈ found ↔ v ∈ found') :
    promoted threshold call run found tables = promoted threshold call run found' tables := by
  simp only [promoted, h]

/-- Alone, the transaction locks all the rows it read and finds them active. -/
theorem exec_lockNext (threshold : Rat) {t : Nat} {call : Call V} {prior : Option IndexStatus}
    {run : Option EvaluationRun} {snapshot : Tables V} (todo : List V) {found : List V} {s : Db V}
    (hlocks : ∀ p ∈ s.locks, p.2 = t) (hactive : ∀ v ∈ todo, v ∈ activeRows s.tables)
    (htxn : s.txns t = some ⟨call, prior, .selecting run snapshot todo found⟩) :
    ∃ locks : List (V × Nat), (∀ p ∈ locks, p.2 = t) ∧
      exec (step threshold) s (todo.map fun _ => .lockNext t) = some { s with
        locks := locks
        txns := Function.update s.txns t
          (some ⟨call, prior, .selecting run snapshot [] (todo.reverse ++ found)⟩) } := by
  induction todo generalizing s found with
  | nil =>
    refine ⟨s.locks, hlocks, ?_⟩
    rw [List.map_nil, exec, List.reverse_nil, List.nil_append, ← htxn, Function.update_eq_self]
  | cons v todo ih =>
    have hfree : free s.locks v t = true := free_iff.mpr fun o ho => hlocks _ ho
    have hstep : step threshold s (.lockNext t) = some
        { s.setTxn t (some ⟨call, prior, .selecting run snapshot todo (v :: found)⟩) with
          locks := acquire s.locks v t } := by
      simp only [step, htxn, hfree, if_true, if_pos (hactive v List.mem_cons_self)]
    obtain ⟨locks, hheld, hexec⟩ := ih (s := { s.setTxn t
        (some ⟨call, prior, .selecting run snapshot todo (v :: found)⟩) with
        locks := acquire s.locks v t })
      (fun p hp => (List.mem_cons.mp hp).elim (fun h => by rw [h]) (hlocks p))
      (fun w hw => hactive w (List.mem_cons_of_mem v hw)) (Function.update_self ..)
    refine ⟨locks, hheld, ?_⟩
    rw [List.map_cons, exec, hstep, Option.bind_some, hexec, List.reverse_cons, List.append_assoc,
      List.singleton_append, Db.setTxn, Function.update_idem]

omit [DecidableEq V] in
/-- The end of a transaction that ran alone: the database without it. -/
theorem finish_alone {s s' : Db V} {t : Nat} {o : Option (Txn V)} (hlocks : s.locks = [])
    (htxn : s.txns t = none) (hheld : ∀ p ∈ s'.locks, p.2 = t)
    (htxns : s'.txns = Function.update s.txns t o) :
    s'.finish t = { s with tables := s'.tables } := by
  have hrelease : release s'.locks t = [] :=
    List.filter_eq_nil_iff.mpr fun p hp => by simp [hheld p hp]
  have hnone : Function.update s.txns t none = s.txns := by rw [← htxn, Function.update_eq_self]
  rw [Db.finish, Db.setTxn, hrelease, htxns, Function.update_idem, hnone, ← hlocks]

/-- What there is while the transaction holds its target's lock. -/
def Db.holding (s : Db V) (t : Nat) (txn : Txn V) : Db V :=
  { s.setTxn t (some txn) with locks := acquire s.locks txn.call.indexVersion t }

omit [DecidableEq V] in
theorem holding_held {s : Db V} {t : Nat} (txn : Txn V) (hlocks : s.locks = []) :
    ∀ p ∈ (s.holding t txn).locks, p.2 = t := by
  intro p hp
  rw [Db.holding, hlocks] at hp
  rw [List.mem_singleton.mp hp]

theorem step_holding {threshold : Rat} {s : Db V} {t : Nat} {call : Call V} {run : Option EvaluationRun}
    {error : PromoteError V} (hgate : gate threshold call run = .error error) :
    step threshold (s.holding t ⟨call, none, .targetLocked⟩) (.gate t run) =
      some (s.holding t ⟨call, none, .raised error⟩) := by
  simp only [step, Db.holding, Db.setTxn, Function.update_self, Function.update_idem, hgate]

/-- From the gate on, when it lets the call through. -/
theorem exec_gated {threshold : Rat} {s : Db V} {t : Nat} {call : Call V} {run : Option EvaluationRun}
    (hlocks : s.locks = []) (htxn : s.txns t = none) (hgate : gate threshold call run = .ok ()) :
    exec (step threshold) (s.holding t ⟨call, none, .targetLocked⟩)
      (.gate t run :: .selectActive t (activeRows s.tables) ::
        ((activeRows s.tables).map (fun _ => .lockNext t) ++ [.flush t, .commit t])) =
      some { s with tables := promoted threshold call run (activeRows s.tables) s.tables } := by
  have hgated : step threshold (s.holding t ⟨call, none, .targetLocked⟩) (.gate t run) =
      some (s.holding t ⟨call, none, .gated run⟩) := by
    simp only [step, Db.holding, Db.setTxn, Function.update_self, Function.update_idem, hgate]
  have hselect : step threshold (s.holding t ⟨call, none, .gated run⟩)
      (.selectActive t (activeRows s.tables)) =
      some (s.holding t ⟨call, none, .selecting run s.tables (activeRows s.tables) []⟩) := by
    simp only [step, Db.holding, Db.setTxn, Function.update_self, Function.update_idem,
      List.Perm.refl, if_true]
  obtain ⟨locks, hheld, hfound⟩ := exec_lockNext threshold (activeRows s.tables)
    (s := s.holding t ⟨call, none, .selecting run s.tables (activeRows s.tables) []⟩)
    (holding_held _ hlocks) (fun v hv => hv) (Function.update_self ..)
  rw [exec_of_step hgated, exec_of_step hselect, exec_append, hfound, Option.bind_some]
  simp only [exec, step, Db.holding, Db.setTxn, Function.update_self, Function.update_idem,
    Option.bind_some, List.append_nil]
  rw [finish_alone hlocks htxn hheld rfl, promoted_congr fun v => List.mem_reverse]

/-- **Alone, the transaction is the function**: its statements end with the
table that `transact` gives, and nothing else changed. -/
theorem exec_serial {s : Db V} {t : Nat} (a : Attempt V) (hlocks : s.locks = [])
    (htxn : s.txns t = none) : exec (step a.threshold) s (serial t a s.tables) =
      some { s with tables := transact s.tables a } := by
  obtain ⟨call, threshold, run⟩ := a
  have hbegin : step threshold s (.begin t call false) =
      some (s.setTxn t (some ⟨call, none, .begun⟩)) := by
    simp only [step, htxn, Bool.false_eq_true, if_false]
  have hfree : free s.locks call.indexVersion t = true :=
    free_iff.mpr fun o ho => by rw [hlocks] at ho; cases ho
  cases hrow : s.tables.get call.indexVersion with
  | none =>
    have hlock : step threshold (s.setTxn t (some ⟨call, none, .begun⟩)) (.lockTarget t) =
        some (s.setTxn t (some ⟨call, none, .raised (.indexVersionNotFound call.indexVersion)⟩)) := by
      simp only [step, Db.setTxn, Function.update_self, Function.update_idem, hrow]
    simp only [serial, hrow, transact, promoteVersion]
    rw [exec_of_step hbegin, exec_of_step hlock, exec_singleton]
    simp only [step, Db.setTxn, Function.update_self]
    rw [finish_alone hlocks htxn (fun p hp => by rw [hlocks] at hp; cases hp) rfl]
  | some row =>
    have hlock : step threshold (s.setTxn t (some ⟨call, none, .begun⟩)) (.lockTarget t) =
        some (s.holding t ⟨call, none, if row.status = .active then .unchanged else .targetLocked⟩) := by
      simp only [step, Db.holding, Db.setTxn, Function.update_self, Function.update_idem, hrow,
        hfree, if_true, Option.getD_none]
    by_cases hactive : row.status = .active
    · rw [if_pos hactive] at hlock
      simp only [serial, hrow, transact, promoteVersion, if_pos hactive]
      rw [exec_of_step hbegin, exec_of_step hlock, exec_singleton]
      simp only [step, Db.holding, Db.setTxn, Function.update_self]
      have hheld := holding_held (s := s) (t := t) ⟨call, none, .unchanged⟩ hlocks
      exact congrArg some (finish_alone hlocks htxn hheld rfl)
    · rw [if_neg hactive] at hlock
      cases hgate : gate threshold call run with
      | error error =>
        simp only [serial, hrow, transact, promoteVersion, if_neg hactive, hgate]
        rw [exec_of_step hbegin, exec_of_step hlock, exec_of_step (step_holding hgate),
          exec_singleton]
        simp only [step, Db.holding, Db.setTxn, Function.update_self]
        have hheld := holding_held (s := s) (t := t) ⟨call, none, .raised error⟩ hlocks
        exact congrArg some (finish_alone hlocks htxn hheld rfl)
      | ok u =>
        simp only [serial, hrow, transact, promoteVersion, if_neg hactive, hgate]
        rw [List.append_assoc, List.cons_append, exec_of_step hbegin, List.cons_append,
          exec_of_step hlock]
        exact exec_gated hlocks htxn hgate

/-! ## Histories -/

section Stamps
variable [LinearOrder V]

/-- The stamps tell the order of the promotions behind a table, all of them
before a time: no row that was active before has a newer stamp than the one
that is. -/
structure Stamped (tables : Tables V) (now : Nat) : Prop where
  before : ∀ x ∈ tables.indexVersions, x.2.status = .active ∨ x.2.status = .previousGood →
    ∀ stamp ∈ x.2.promotedAt, stamp < now
  newest : ∀ x ∈ rowsOf .active tables, ∀ y ∈ rowsOf .previousGood tables, orderKey y ≤ orderKey x

omit [DecidableEq V] in
theorem orderKey_le_of_stamp {x y : V × IndexVersion} {now : Nat} (hx : x.2.promotedAt = some now)
    (hy : ∀ stamp ∈ y.2.promotedAt, stamp < now) : orderKey y ≤ orderKey x := by
  refine Prod.Lex.toLex_le_toLex.mpr (.inl ?_)
  rw [hx]
  cases h : y.2.promotedAt with
  | none => exact WithBot.bot_lt_coe now
  | some stamp => exact WithBot.coe_lt_coe.mpr (hy stamp h)

omit [DecidableEq V] in
theorem Stamped.mono {tables : Tables V} {now later : Nat} (h : Stamped tables now)
    (hle : now ≤ later) : Stamped tables later :=
  ⟨fun x hx hstatus stamp hstamp => (h.before x hx hstatus stamp hstamp).trans_le hle, h.newest⟩

/-- A promotion at a later time keeps the stamps in order. -/
theorem Stamped.transact {a : Attempt V} {tables : Tables V} {later : Nat}
    (hkeys : tables.keys.Nodup) (h : Stamped tables a.call.now) (hlater : a.call.now < later) :
    Stamped (transact tables a) later := by
  by_cases heffect : TakesEffect a tables
  · have hprevious : ∀ y ∈ rowsOf .previousGood (Services.transact tables a),
        ∀ stamp ∈ y.2.promotedAt, stamp < a.call.now := by
      intro y hy
      obtain ⟨_, hy | ⟨z, hz, rfl⟩⟩ := (mem_rowsOf_previousGood_transact hkeys heffect).mp hy
      · obtain ⟨hmem, hstatus⟩ := mem_rowsOf.mp hy
        exact h.before y hmem (.inr hstatus)
      · obtain ⟨hmem, hstatus⟩ := mem_rowsOf.mp hz
        exact h.before z hmem (.inl hstatus)
    have hactive := rowsOf_active_transact hkeys heffect
    constructor
    · intro x hx hstatus stamp hstamp
      rcases hstatus with hstatus | hstatus
      · have hx := hactive ▸ mem_rowsOf.mpr ⟨hx, hstatus⟩
        obtain rfl := List.mem_singleton.mp hx
        obtain rfl := Option.some.inj hstamp
        exact hlater
      · exact (hprevious x (mem_rowsOf.mpr ⟨hx, hstatus⟩) stamp hstamp).trans hlater
    · intro x hx y hy
      obtain rfl := List.mem_singleton.mp (hactive ▸ hx)
      exact orderKey_le_of_stamp rfl (hprevious y hy)
  · rw [transact_of_not heffect]
    exact h.mono hlater.le

/-- The stamps are in order before each call of a history. -/
theorem Stamped.history {tables : Tables V} {earlier later : List (Attempt V)} {a : Attempt V}
    (hkeys : tables.keys.Nodup)
    (htimes : (earlier ++ a :: later).Pairwise fun b c => b.call.now < c.call.now)
    (h : ∀ b ∈ earlier ++ a :: later, Stamped tables b.call.now) :
    Stamped (history tables earlier) a.call.now := by
  induction earlier generalizing tables with
  | nil => exact h a List.mem_cons_self
  | cons b earlier ih =>
    obtain ⟨hb, htimes⟩ := List.pairwise_cons.mp htimes
    refine ih ((keys_transact tables b).symm ▸ hkeys) htimes fun c hc => ?_
    exact (h b List.mem_cons_self).transact hkeys (hb c hc)

end Stamps

end CiteVyn.Services
