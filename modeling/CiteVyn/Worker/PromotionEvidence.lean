import CiteVyn.Worker.EvaluationPointer

/-! # What the gate's evidence is about

A run is evidence for the name of a version, and an ingestion rewrites the
documents behind the name in place. The gate takes the newest completed run
whatever has been ingested since, so what the run measured is what the version
holds only when nothing has. -/
namespace CiteVyn.Worker
open CiteVyn.Lib.OrderBy CiteVyn.Lib.Runs CiteVyn.Services

variable {V : Type*} {H : Type*} [DecidableEq V]

/-- The run that a promotion past its gate was let through on. -/
def gatedOn : Phase V → Option (Option EvaluationRun)
  | .gated latestRun => some latestRun
  | .selecting latestRun _ _ _ => some latestRun
  | .flushed latestRun _ _ => some latestRun
  | _ => none

/-- A completed run of the version, at or above the bar. -/
structure Evidence (threshold : Rat) (s : System V H) (v : V) (row : EvaluationRow V) : Prop where
  mem : row ∈ s.runs
  version : row.indexVersion = v
  completed : row.completed = true
  rate : ∃ rate, passRateFromMetrics row.metrics = some rate ∧ threshold ≤ rate

/-- A promotion that commits without force was gated on a run of its target at or
above the bar, and each statement of that run read the documents that the target
holds now. -/
def Evidenced (threshold : Rat) (s : System V H) : Action V H → Prop
  | .promotion (.commit t) => ∀ call prior latestRun snapshot found,
      s.db.txns t = some ⟨call, prior, .flushed latestRun snapshot found⟩ → call.force = false →
        ∃ row, latestRun.map EvaluationRun.runId = some row.runId ∧
          Evidence threshold s call.indexVersion row ∧
          ∀ seen ∈ s.reads row.runId, seen.2 = (s.index call.indexVersion).documents
  | _ => True

/-- A promotion commits with no source ingested into its target since the first
statement of the run that it was gated on. -/
def Settled (s : System V H) : Action V H → Prop
  | .promotion (.commit t) => ∀ txn ∈ s.db.txns t, txn.call.force = false →
      ∀ latestRun ∈ gatedOn txn.phase, ∀ run ∈ latestRun, ∀ seen ∈ (s.reads run.runId).head?,
        seen.1 = s.ingested txn.call.indexVersion
  | _ => True

instance decidableSettled (s : System V H) (l : Action V H) : Decidable (Settled s l) :=
  match l with
  | .promotion (.commit t) => inferInstanceAs (Decidable (∀ txn ∈ s.db.txns t,
      txn.call.force = false → ∀ latestRun ∈ gatedOn txn.phase, ∀ run ∈ latestRun,
        ∀ seen ∈ (s.reads run.runId).head?, seen.1 = s.ingested txn.call.indexVersion))
  | .promotion (.begin ..) | .promotion (.lockTarget _) | .promotion (.gate ..)
  | .promotion (.selectActive ..) | .promotion (.lockNext _) | .promotion (.flush _)
  | .promotion (.rollback _) | .ensure .. | .ingest .. | .advance .. | .start .. | .read _ | .score ..
  | .finish _ | .crash _ => isTrue trivial

/-! ## What a step does to the documents, the reads and the promotions -/

/-- A step leaves the documents of a version alone, or ingests a source. -/
theorem act_ingested {threshold : Rat} {s s' : System V H} {l : Action V H}
    (h : act threshold s l = some s') (v : V) : s.ingested v ≤ s'.ingested v ∧
      (s'.ingested v = s.ingested v → (s'.index v).documents = (s.index v).documents) := by
  cases l with
  | ensure w sourceVersionHash stamp =>
    obtain rfl := Option.some.inj h
    refine ⟨Nat.le_refl _, fun _ => ?_⟩
    change (Function.update s.index w _ v).documents = _
    by_cases hv : v = w
    · rw [hv, Function.update_self, ensureIndexVersion_documents]
    · rw [Function.update_of_ne hv]
  | advance w sourceVersionHash =>
    obtain rfl := Option.some.inj h
    refine ⟨Nat.le_refl _, fun _ => ?_⟩
    change (Function.update s.index w _ v).documents = _
    by_cases hv : v = w
    · rw [hv, Function.update_self]
      rfl
    · rw [Function.update_of_ne hv]
  | ingest w runner source attempt =>
    simp only [act] at h
    split at h
    · rename_i index hrun
      obtain rfl := Option.some.inj h
      change s.ingested v ≤ Function.update s.ingested w _ v ∧
        (Function.update s.ingested w _ v = s.ingested v →
          (Function.update s.index w index v).documents = _)
      by_cases hv : v = w
      · subst hv
        rw [Function.update_self]
        exact ⟨Nat.le_succ _, fun heq => absurd heq (Nat.succ_ne_self _)⟩
      · rw [Function.update_of_ne hv, Function.update_of_ne hv]
        exact ⟨Nat.le_refl _, fun _ => rfl⟩
    · obtain rfl := Option.some.inj h
      exact ⟨Nat.le_refl _, fun _ => rfl⟩
  | promotion | start | read | score | finish | crash =>
    simp only [act] at h
    repeat' split at h
    all_goals first
      | cases h; done
      | obtain ⟨db, _, rfl⟩ := Option.map_eq_some_iff.mp h
        exact ⟨Nat.le_refl _, fun _ => rfl⟩
      | obtain rfl := Option.some.inj h
        exact ⟨Nat.le_refl _, fun _ => rfl⟩

/-- A step reads for one of the evaluations, or for none. -/
theorem act_reads {threshold : Rat} {s s' : System V H} {l : Action V H}
    (h : act threshold s l = some s') : s'.reads = s.reads ∨
      ∃ runId e, s.evaluating runId = some e ∧ s' = { s with
        reads := Function.update s.reads runId
          (s.reads runId ++ [(s.ingested e.indexVersion, (s.index e.indexVersion).documents)]) } := by
  cases l with
  | read runId =>
    simp only [act] at h
    split at h
    · rename_i e he
      exact .inr ⟨runId, e, he, (Option.some.inj h).symm⟩
    · cases h
  | promotion | ensure | ingest | advance | start | score | finish | crash =>
    simp only [act] at h
    repeat' split at h
    all_goals first
      | cases h; done
      | obtain ⟨db, _, rfl⟩ := Option.map_eq_some_iff.mp h
        exact .inl rfl
      | obtain rfl := Option.some.inj h
        exact .inl rfl

/-- A step moves a promotion, or none. -/
theorem act_txns {threshold : Rat} {s s' : System V H} {l : Action V H}
    (h : act threshold s l = some s') : s'.db.txns = s.db.txns ∨
      ∃ l', GateReads s l' ∧ step threshold s.db l' = some s'.db ∧ s'.runs = s.runs := by
  cases l with
  | promotion l =>
    simp only [act] at h
    split at h
    · obtain ⟨db, hdb, rfl⟩ := Option.map_eq_some_iff.mp h
      exact .inr ⟨l, ‹_›, hdb, rfl⟩
    · cases h
  | ensure | ingest | advance | start | read | score | finish | crash =>
    simp only [act] at h
    repeat' split at h
    all_goals first
      | cases h; done
      | obtain rfl := Option.some.inj h
        exact .inl rfl

/-- The transaction that a step belongs to. -/
def owner : Services.Label V → Nat
  | .begin t _ _ | .lockTarget t | .gate t _ | .selectActive t _ | .lockNext t | .flush t | .commit t
  | .rollback t => t

theorem txns_step_of_ne {threshold : Rat} {db db' : Db V} {l : Services.Label V} {t : Nat}
    (h : step threshold db l = some db') (ht : t ≠ owner l) : db'.txns t = db.txns t := by
  cases l with
  | begin | lockTarget | gate | selectActive | lockNext | flush | commit | rollback =>
    simp only [step] at h
    repeat' split at h
    all_goals first
      | cases h; done
      | obtain rfl := Option.some.inj h
        exact Function.update_of_ne ht ..

/-- A promotion past its gate was past it before, or is let through now. -/
theorem gated_step {threshold : Rat} {db db' : Db V} {l : Services.Label V} {t : Nat} {txn : Txn V}
    {latestRun : Option EvaluationRun} (h : step threshold db l = some db')
    (htxn : db'.txns t = some txn) (hgated : gatedOn txn.phase = some latestRun) :
    ∃ before, db.txns t = some before ∧ before.call = txn.call ∧
      (gatedOn before.phase = some latestRun ∨
        l = .gate t latestRun ∧ gate threshold txn.call latestRun = .ok ()) := by
  by_cases ht : t = owner l
  · subst ht
    -- the transaction's own step: what it becomes is in the step
    have hself {o : Option (Txn V)} (h : Function.update db.txns (owner l) o (owner l) = some txn) :
        o = some txn := by rwa [Function.update_self] at h
    cases l with
    | gate t run =>
      simp only [step] at h
      split at h
      · rename_i call prior hbefore
        split at h <;> obtain rfl := Option.some.inj h <;> obtain rfl := Option.some.inj (hself htxn)
        · obtain rfl := Option.some.inj hgated
          exact ⟨_, hbefore, rfl, .inr ⟨rfl, ‹_›⟩⟩
        · cases hgated
      · cases h
    | selectActive t order =>
      simp only [step] at h
      split at h
      · rename_i call prior run hbefore
        split at h
        · obtain rfl := Option.some.inj h
          obtain rfl := Option.some.inj (hself htxn)
          exact ⟨_, hbefore, rfl, .inl hgated⟩
        · cases h
      · cases h
    | lockNext t =>
      simp only [step] at h
      split at h
      · rename_i call prior run snapshot v todo found hbefore
        split at h
        · obtain rfl := Option.some.inj h
          obtain rfl := Option.some.inj (hself htxn)
          exact ⟨_, hbefore, rfl, .inl hgated⟩
        · cases h
      · cases h
    | flush t =>
      simp only [step] at h
      split at h
      · rename_i call prior run snapshot found hbefore
        obtain rfl := Option.some.inj h
        obtain rfl := Option.some.inj (hself htxn)
        exact ⟨_, hbefore, rfl, .inl hgated⟩
      · cases h
    | lockTarget t =>
      simp only [step] at h
      split at h
      · split at h
        · obtain rfl := Option.some.inj h
          obtain rfl := Option.some.inj (hself htxn)
          cases hgated
        · split at h
          · obtain rfl := Option.some.inj h
            obtain rfl := Option.some.inj (hself htxn)
            simp only at hgated
            split at hgated <;> cases hgated
          · cases h
      · cases h
    | begin t call loaded =>
      simp only [step] at h
      split at h
      · obtain rfl := Option.some.inj h
        obtain rfl := Option.some.inj (hself htxn)
        cases hgated
      · cases h
    | commit t | rollback t =>
      simp only [step] at h
      repeat' split at h
      all_goals first
        | cases h; done
        | obtain rfl := Option.some.inj h
          cases hself htxn
  · rw [txns_step_of_ne h ht] at htxn
    exact ⟨txn, htxn, rfl, .inl hgated⟩

/-- A completed run stays in the table. -/
theorem evidence_act {threshold : Rat} {s s' : System V H} {l : Action V H} {v : V}
    {row : EvaluationRow V} (hs : Recorded s) (h : act threshold s l = some s')
    (hrow : Evidence threshold s v row) : Evidence threshold s' v row := by
  refine ⟨?_, hrow.version, hrow.completed, hrow.rate⟩
  rcases act_runs h with hframe | ⟨_, _, _, hstart⟩ | ⟨ended, e, _, hend⟩
  · exact hframe.runs.symm ▸ hrow.mem
  · exact hstart.runs.symm ▸ List.mem_append_left _ hrow.mem
  · refine (mem_finishes hend hs.ids).mpr (.inr ⟨hrow.mem, fun hid => ?_⟩)
    have hcompleted := hrow.completed
    rw [List.inj_on_of_nodup_map hs.ids hrow.mem hend.mem hid, hs.running hend] at hcompleted
    cases hcompleted

/-! ## What holds of the reads and the promotions -/

/-- The reads of a run are in the order of the ingestions, and those since the
last one are of the documents that the version holds. -/
structure Tracked (threshold : Rat) (s : System V H) : Prop where
  recorded : Recorded s
  seen : ∀ row ∈ s.runs, ∀ p ∈ s.reads row.runId, p.1 ≤ s.ingested row.indexVersion ∧
    (p.1 = s.ingested row.indexVersion → p.2 = (s.index row.indexVersion).documents)
  order : ∀ runId, (s.reads runId).Pairwise fun p q => p.1 ≤ q.1
  unread : ∀ runId, runId ∉ s.runs.map EvaluationRow.runId → s.reads runId = []
  gated : ∀ t txn latestRun, s.db.txns t = some txn → gatedOn txn.phase = some latestRun →
    txn.call.force = true ∨ ∃ row, latestRun.map EvaluationRun.runId = some row.runId ∧
      Evidence threshold s txn.call.indexVersion row

omit [DecidableEq V] in
theorem Quiet.tracked (threshold : Rat) {s : System V H} (h : Quiet s) : Tracked threshold s where
  recorded := h.recorded
  seen row hrow := by
    rw [h.runs] at hrow
    cases hrow
  order runId := by
    rw [h.reads]
    exact List.Pairwise.nil
  unread runId _ := h.reads runId
  gated t txn latestRun htxn := by
    rw [h.txns] at htxn
    cases htxn

/-- The reads of a run of the table, after a step. -/
theorem Tracked.seen_act {threshold : Rat} {s s' : System V H} {l : Action V H}
    (hs : Tracked threshold s) (h : act threshold s l = some s') {row : EvaluationRow V}
    (hread : s'.reads = s.reads) (hrow : row ∈ s.runs) {p : Nat × List Document}
    (hp : p ∈ s'.reads row.runId) : p.1 ≤ s'.ingested row.indexVersion ∧
      (p.1 = s'.ingested row.indexVersion → p.2 = (s'.index row.indexVersion).documents) := by
  rw [hread] at hp
  obtain ⟨hle, hdocuments⟩ := hs.seen row hrow p hp
  obtain ⟨hmono, hsame⟩ := act_ingested h row.indexVersion
  refine ⟨hle.trans hmono, fun heq => ?_⟩
  rw [hsame (by omega)]
  exact hdocuments (by omega)

theorem Tracked.act {threshold : Rat} {s s' : System V H} {l : Action V H}
    (hs : Tracked threshold s) (h : act threshold s l = some s') : Tracked threshold s' where
  recorded := hs.recorded.act h
  seen row hrow p hp := by
    rcases act_reads h with hread | ⟨runId, e, he, rfl⟩
    · -- the row is the one before, or its run has read nothing yet
      have hold : (∃ r ∈ s.runs, r.runId = row.runId ∧ r.indexVersion = row.indexVersion) ∨
          row.runId ∉ s.runs.map EvaluationRow.runId := by
        rcases act_runs h with hframe | ⟨started, _, _, hstart⟩ | ⟨ended, e, _, hend⟩
        · exact .inl ⟨row, hframe.runs ▸ hrow, rfl, rfl⟩
        · rcases List.mem_append.mp (hstart.runs ▸ hrow) with hrow | hrow
          · exact .inl ⟨row, hrow, rfl, rfl⟩
          · rw [List.mem_singleton.mp hrow]
            exact .inr hstart.fresh
        · rcases (mem_finishes hend hs.recorded.ids).mp hrow with rfl | ⟨hrow, _⟩
          · exact .inl ⟨ended, hend.mem, rfl, rfl⟩
          · exact .inl ⟨row, hrow, rfl, rfl⟩
      rcases hold with ⟨r, hr, hid, hversion⟩ | hfresh
      · rw [← hid] at hp
        rw [← hversion]
        exact hs.seen_act h hread hr hp
      · rw [hread, hs.unread row.runId hfresh] at hp
        cases hp
    · by_cases hid : row.runId = runId
      · subst hid
        change p ∈ Function.update s.reads row.runId _ row.runId at hp
        rw [Function.update_self, List.mem_append, List.mem_singleton] at hp
        rcases hp with hp | rfl
        · exact hs.seen row hrow p hp
        · obtain ⟨r, hr, hid, hversion, _⟩ := hs.recorded.busy row.runId e he
          obtain rfl := List.inj_on_of_nodup_map hs.recorded.ids hr hrow hid
          rw [← hversion]
          exact ⟨Nat.le_refl _, fun _ => rfl⟩
      · change p ∈ Function.update s.reads runId _ row.runId at hp
        rw [Function.update_of_ne hid] at hp
        exact hs.seen row hrow p hp
  order runId := by
    rcases act_reads h with hread | ⟨id, e, he, rfl⟩
    · rw [hread]
      exact hs.order runId
    · change (Function.update s.reads id _ runId).Pairwise _
      by_cases hid : runId = id
      · subst hid
        rw [Function.update_self, List.pairwise_append]
        refine ⟨hs.order runId, List.pairwise_singleton _ _, fun p hp q hq => ?_⟩
        obtain ⟨row, hrow, hid, hversion, _⟩ := hs.recorded.busy runId e he
        rw [List.mem_singleton.mp hq, ← hversion]
        exact (hs.seen row hrow p (hid ▸ hp)).1
      · rw [Function.update_of_ne hid]
        exact hs.order runId
  unread runId hrunId := by
    have hids : ∀ id ∈ s.runs.map EvaluationRow.runId, id ∈ s'.runs.map EvaluationRow.runId := by
      intro id hmem
      rcases act_runs h with hframe | ⟨started, _, _, hstart⟩ | ⟨ended, e, _, hend⟩
      · exact hframe.runs.symm ▸ hmem
      · rw [hstart.runs, List.map_append]
        exact List.mem_append_left _ hmem
      · exact (ids_finishes hend).symm ▸ hmem
    have hunread := hs.unread runId fun hmem => hrunId (hids runId hmem)
    rcases act_reads h with hread | ⟨id, e, he, rfl⟩
    · rw [hread, hunread]
    · change Function.update s.reads id _ runId = []
      rw [Function.update_of_ne, hunread]
      intro hid
      obtain ⟨row, hrow, hrun, _⟩ := hs.recorded.busy id e he
      exact hrunId (List.mem_map.mpr ⟨row, hrow, hrun.trans hid.symm⟩)
  gated t txn latestRun htxn hgated := by
    have hkeep : ∀ row, Evidence threshold s txn.call.indexVersion row →
        Evidence threshold s' txn.call.indexVersion row := fun row => evidence_act hs.recorded h
    rcases act_txns h with hsame | ⟨l', hreads, hstep, _⟩
    · refine (hs.gated t txn latestRun (hsame ▸ htxn) hgated).imp id ?_
      exact fun ⟨row, hrow, hevidence⟩ => ⟨row, hrow, hkeep row hevidence⟩
    · obtain ⟨before, hbefore, hcall, hgated' | ⟨rfl, hgate⟩⟩ := gated_step hstep htxn hgated
      · refine (hcall ▸ hs.gated t before latestRun hbefore hgated').imp id ?_
        exact fun ⟨row, hrow, hevidence⟩ => ⟨row, hrow, hkeep row hevidence⟩
      · refine (gate_ok hgate).imp id fun ⟨run, rate, hrun, hrate, hle⟩ => ?_
        -- what the gate read is the newest completed run of its target
        have hlatest := hreads before hbefore
        rw [hcall, hrun, gateRun] at hlatest
        obtain ⟨row, hrow, rfl⟩ := Option.map_eq_some_iff.mp hlatest.symm
        obtain ⟨hmem, hversion, hcompleted⟩ := mem_completedRuns.mp (mem_of_first hrow)
        exact ⟨row, by rw [hrun]; rfl, hkeep row ⟨hmem, hversion, hcompleted, rate, hrate, hle⟩⟩

/-- **The evidence of a promotion is about what is promoted**, in every run of
ingestions, evaluations and promotions in which each promotion commits with no
source ingested into its target since the first statement of the run that it was
gated on. -/
theorem promotions_evidenced {threshold : Rat} {s : System V H} {ls : List (Action V H)}
    (hs : Quiet s) (hok : Along (act threshold) Settled s ls) :
    Along (act threshold) (Evidenced threshold) s ls := by
  refine along_of_invariant (fun s l s' (hI : Tracked threshold s) _ h => hI.act h) ?_
    (hs.tracked threshold) hok
  intro s l hI hsettled
  unfold Evidenced
  split
  · intro call prior latestRun snapshot found htxn hforce
    rcases hI.gated _ _ latestRun htxn rfl with h | ⟨row, hrow, hevidence⟩
    · exact absurd (h.symm.trans hforce) nofun
    · refine ⟨row, hrow, hevidence, fun seen hseen => ?_⟩
      obtain ⟨run, hrun, hid⟩ := Option.map_eq_some_iff.mp hrow
      obtain ⟨hle, hdocuments⟩ := hI.seen row hevidence.mem seen hseen
      rw [← hevidence.version]
      refine hdocuments (Nat.le_antisymm hle ?_)
      -- the first read is the oldest, and it is current
      cases hreads : s.reads row.runId with
      | nil =>
        rw [hreads] at hseen
        cases hseen
      | cons first rest =>
        have hfirst := hsettled _ htxn hforce latestRun rfl run hrun first
          (by rw [hid, hreads]; rfl)
        have horder := hI.order row.runId
        rw [hreads] at horder hseen
        rw [hevidence.version]
        rcases List.mem_cons.mp hseen with rfl | hseen
        · exact hfirst.ge
        · exact hfirst.ge.trans ((List.pairwise_cons.mp horder).1 seen hseen)
  · trivial

/-! ## A source ingested again -/

def codexSource : SourceSpec where
  name := "codex".toList
  productArea := "codex".toList
  title := "Codex".toList
  location := "codex.md".toList
  sourceUrl := []
  contentAsOf := none

def ingestText (text : String) : Action Nat Unit :=
  .ingest 0 ⟨none, none, ()⟩ codexSource ⟨some text.toList, true, true⟩

/-- The first version of the document is measured, and passes. -/
def measured : List (Action Nat Unit) :=
  [ingestText "## Install\nRun the installer.", startAt 1 10, .read 1, .score 1 ["codex".toList],
    .finish 1]

/-- The statements of an unforced promotion before its commit. -/
def promoting : List (Action Nat Unit) :=
  [.promotion (.begin 1 ⟨0, "admin".toList, [], false, 30⟩ false), .promotion (.lockTarget 1),
    .promotion (.gate 1 (some ⟨1, some 1⟩)), .promotion (.selectActive 1 []), .promotion (.flush 1)]

/-- The document is replaced after it was measured. -/
def reingested : List (Action Nat Unit) :=
  measured ++ ingestText "## Removed\nNothing here." :: promoting

/-- A document that is measured and promoted. -/
theorem promotions_evidenced_measured :
    (exec (act 1) candidateSystem (measured ++ promoting ++ [.promotion (.commit 1)])).isSome = true ∧
      Along (act 1) (Evidenced 1) candidateSystem
        (measured ++ promoting ++ [.promotion (.commit 1)]) :=
  ⟨by decide +kernel, promotions_evidenced candidateSystem_quiet (by decide +kernel)⟩

/-- An unforced promotion is about to commit on a run that read other documents. -/
def stale (s : System Nat Unit) : Bool :=
  match s.db.txns 1 with
  | some ⟨call, _, .flushed (some run) _ _⟩ =>
    !call.force && (s.reads run.runId).any fun seen =>
      seen.2 ≠ (s.index call.indexVersion).documents
  | _ => false

theorem not_evidenced_of_stale {threshold : Rat} {s : System Nat Unit} (h : stale s = true) :
    ¬Evidenced threshold s (.promotion (.commit 1)) := by
  intro hevidenced
  unfold stale at h
  split at h
  · rename_i call prior run snapshot found htxn
    obtain ⟨hforce, hany⟩ := Bool.and_eq_true_iff.mp h
    obtain ⟨seen, hseen, hne⟩ := List.any_eq_true.mp hany
    obtain ⟨row, hrow, _, hall⟩ := hevidenced call prior (some run) snapshot found htxn
      (by simpa using hforce)
    have hid : run.runId = row.runId := Option.some.inj hrow
    exact of_decide_eq_true hne (hall seen (hid ▸ hseen))
  · cases h

/-- The gate lets the new document through on the run of the old one. -/
theorem promotions_evidenced_reingested : Quiet candidateSystem ∧
    ∃ s, exec (act 1) candidateSystem reingested = some s ∧
      (act 1 s (.promotion (.commit 1))).isSome = true ∧
      ¬Evidenced 1 s (.promotion (.commit 1)) := by
  have hrun : ((exec (act 1) candidateSystem reingested).any fun s =>
      stale s && (act 1 s (.promotion (.commit 1))).isSome) = true := by decide +kernel
  obtain ⟨s, hs, hstale⟩ := (Option.any_eq_true ..).mp hrun
  obtain ⟨hstale, hcommits⟩ := Bool.and_eq_true_iff.mp hstale
  exact ⟨candidateSystem_quiet, s, hs, hcommits, not_evidenced_of_stale hstale⟩

end CiteVyn.Worker
