import CiteVyn.Services.Digest

/-! # What the digests cover

A change is stamped with the start of the watcher's run and can be read once its page is
committed; a digest selects by the stamp, and an account's next digest begins where its
last one started. -/
namespace CiteVyn.Services.Digest
open CiteVyn.Lib.Runs CiteVyn.Lib.Threads CiteVyn.Text CiteVyn.Watch

variable (digestMaxPerRun : Nat) (sha : Str → Str) {W : Type} [DecidableEq W]

/-- The account has been mailed the change. -/
def Server.Mailed (s : Server W) (userId : Str) (c : DocChange) : Prop :=
  ∃ m ∈ s.mails, m.userId = userId ∧ c ∈ m.changes

/-- A digest that started at or after the change's stamp has read the changes. -/
def Server.Past (s : Server W) (c : DocChange) : Prop := ∃ start ∈ s.starts, c.detectedAt ≤ start

/-- The account has been mailed every change that a digest so far could have had. -/
def Server.Covered (s : Server W) (userId : Str) : Prop :=
  ∀ c ∈ s.store.changes, s.Past c → s.Mailed userId c

/-- The start of the latest digest, or of everything. -/
def Server.latest (s : Server W) (origin : Int) : Int := s.starts.headD origin

/-- The cap does not keep the run from the account. -/
def Place.reaches (userId : Str) : Place → Bool
  | .looping r todo => userId ∉ todo.map Prod.fst || r.sent + r.failed < digestMaxPerRun
  | _ => true

/-- Digests one at a time, at most seven days apart and in different weeks, that reach
the account and whose sends all return; and the account stays a recipient. -/
def scheduled (origin : Int) (userId : Str) (s : Server W) : Label W → Prop
  | .visit now _ => origin ≤ now
  | .edit users => userId ∈ (recipients users).map Prod.fst
  | .start _ now =>
    (∀ w, s.places w = none) ∧ s.latest origin ≤ now ∧ now ≤ s.latest origin + window ∧
      ∀ start ∈ s.starts, weekStart start ≠ weekStart now
  | .advance w => (s.places w).all (Place.reaches digestMaxPerRun userId)
  | .send _ outcome => outcome = .returned
  | .fail _ => False
  | .read _ | .claim _ _ | .release _ => True

/-- No page stores a change stamped at or before the start of a digest that has already
read the changes. -/
def settled (s : Server W) : Label W → Bool
  | .visit now v => (s.store.visit sha now {} v).all fun (store, _) =>
    store.changes = s.store.changes || s.starts.all fun start => start < now
  | _ => true

instance [Fintype W] (origin : Int) (userId : Str) (s : Server W) :
    (l : Label W) → Decidable (scheduled digestMaxPerRun origin userId s l)
  | .start _ now => inferInstanceAs (Decidable ((∀ w, s.places w = none) ∧ s.latest origin ≤ now ∧
      now ≤ s.latest origin + window ∧ ∀ start ∈ s.starts, weekStart start ≠ weekStart now))
  | .visit now _ => inferInstanceAs (Decidable (origin ≤ now))
  | .edit users => inferInstanceAs (Decidable (userId ∈ (recipients users).map Prod.fst))
  | .advance w => inferInstanceAs (Decidable ((s.places w).all (Place.reaches digestMaxPerRun userId) = true))
  | .send _ outcome => inferInstanceAs (Decidable (outcome = .returned))
  | .fail _ => isFalse not_false
  | .read _ | .claim _ _ | .release _ => isTrue trivial

/-! ## What a digest owes -/

/-- The account has not been claimed for in the week of the run. -/
def Unclaimed (rows : List DigestSend) (userId : Str) (week : Int) : Prop :=
  ∀ row ∈ rows, row.userId = userId → row.weekStart ≠ week

/-- The account's digests so far leave the change to this one. -/
def Free (rows : List DigestSend) (userId : Str) (week : Int) (c : DocChange) : Prop :=
  Unclaimed rows userId week ∧ ∀ row ∈ rows, row.userId = userId → row.sentAt < c.detectedAt

/-- The run has the account on its list and the change for it. -/
structure Listed (rows : List DigestSend) (userId : Str) (c : DocChange) (r : Run) (todo : List (Str × Str)) : Prop where
  listed : userId ∈ todo.map Prod.fst
  unread : userId ∉ r.claimed
  mine : c ∈ r.mine userId
  unclaimed : Unclaimed rows userId (weekStart r.now)

/-- Where a run that owes the account the change is. -/
def Place.Owes (rows : List DigestSend) (userId : Str) (c : DocChange) : Place → Prop
  | .started now changes => c ∈ changes ∧ Free rows userId (weekStart now) c
  | .listed now changes rcpts =>
    c ∈ changes ∧ Free rows userId (weekStart now) c ∧ userId ∈ rcpts.map Prod.fst
  | .checked now changes rcpts claimed =>
    c ∈ changes ∧ Free rows userId (weekStart now) c ∧ userId ∈ rcpts.map Prod.fst ∧ userId ∉ claimed
  | .looping r todo => Listed rows userId c r todo
  | .claiming r user _ mine todo =>
    (user = userId ∧ c ∈ mine ∧ Unclaimed rows userId (weekStart r.now)) ∨ user ≠ userId ∧ Listed rows userId c r todo
  | .sending r user _ mine _ todo =>
    (user = userId ∧ c ∈ mine) ∨ user ≠ userId ∧ Listed rows userId c r todo
  | .releasing _ _ _ _ _ => False

/-- The start of the run that is there. -/
def Place.now : Place → Int
  | .started now _ | .listed now _ _ | .checked now _ _ _ => now
  | .looping r _ | .claiming r _ _ _ _ | .sending r _ _ _ _ _ | .releasing r _ _ _ _ => r.now

structure Covering (origin : Int) (userId : Str) (s : Server W) : Prop where
  recipient : userId ∈ (recipients s.users).map Prod.fst
  rows : ∀ row ∈ s.rows, row.sentAt ∈ s.starts ∧ row.weekStart = weekStart row.sentAt
  ordered : ∀ start ∈ s.starts, start ≤ s.latest origin
  stamped : ∀ c ∈ s.store.changes, origin ≤ c.detectedAt
  single : ∀ w w' p p', s.places w = some p → s.places w' = some p' → w = w'
  begun : ∀ w p, s.places w = some p → p.now ∈ s.starts
  kept : ∀ c ∈ s.store.changes, s.Past c →
    s.Mailed userId c ∨ ∃ w p, s.places w = some p ∧ p.Owes s.rows userId c

omit [DecidableEq W] in
theorem Covering.new {origin : Int} {userId : Str} {users : List User}
    (h : userId ∈ (recipients users).map Prod.fst) : Covering origin userId (Server.new users : Server W) where
  recipient := h
  rows := fun _ h => by cases h
  ordered := fun _ h => by cases h
  stamped := fun _ h => by cases h
  single := fun _ _ _ _ h => by cases h
  begun := fun _ _ h => by cases h
  kept := fun _ h => by cases h

section

variable {digestMaxPerRun : Nat} {sha : Str → Str} {s s' : Server W} {l : Label W} {w : W} {origin : Int}
  {userId : Str} {c : DocChange}

omit [DecidableEq W] in
/-- When no digest goes on, nothing is owed. -/
theorem Covering.covered (hc : Covering origin userId s) (hidle : ∀ w, s.places w = none) : s.Covered userId := by
  intro c hmem hpast
  obtain hmailed | ⟨w, p, hp, -⟩ := hc.kept c hmem hpast
  · exact hmailed
  · rw [hidle w] at hp
    cases hp

/-- A row for another account leaves what is owed to this one. -/
theorem Unclaimed.cons {rows : List DigestSend} {row : DigestSend} {week : Int} (h : Unclaimed rows userId week)
    (hother : row.userId ≠ userId) : Unclaimed (row :: rows) userId week :=
  List.forall_mem_cons.mpr ⟨fun hmine => (hother hmine).elim, h⟩

theorem Listed.cons {rows : List DigestSend} {row : DigestSend} {r : Run} {todo : List (Str × Str)}
    (h : Listed rows userId c r todo) (hother : row.userId ≠ userId) : Listed (row :: rows) userId c r todo :=
  { h with unclaimed := h.unclaimed.cons hother }

omit [DecidableEq W] in
/-- The reads of a run find the account and nothing that it has been sent since. -/
theorem reads_owes {s : Server W} {p p' : Place} (h : Reads s p p')
    (hrcpt : userId ∈ (recipients s.users).map Prod.fst) (howes : p.Owes s.rows userId c) :
    p'.Owes s.rows userId c := by
  cases h with
  | recipients now changes => exact ⟨howes.1, howes.2, hrcpt⟩
  | claimed now changes rcpts =>
    obtain ⟨hmem, hfree, hlisted⟩ := howes
    refine ⟨hmem, hfree, hlisted, ?_⟩
    rintro hclaimed
    obtain ⟨row, hrow, rfl⟩ := List.mem_map.mp hclaimed
    obtain ⟨hthere, hweek⟩ := List.mem_filter.mp hrow
    exact hfree.1 row hthere rfl (of_decide_eq_true hweek)
  | sends now changes rcpts claimed =>
    obtain ⟨hmem, hfree, hlisted, hunread⟩ := howes
    refine ⟨hlisted, hunread, mem_mine.mpr ⟨hmem, fun since hsince => ?_⟩, hfree.1⟩
    obtain ⟨row, hrow, hmine, rfl⟩ := row_of_lastSent hsince
    exact hfree.2 row hrow hmine

omit [DecidableEq W] in
theorem reads_now {s : Server W} {p p' : Place} (h : Reads s p p') : p'.now = p.now := by
  cases h <;> rfl

/-- A run comes to the account, or has it ahead still. -/
theorem advance_owes {rows : List DigestSend} {r : Run} {todo : List (Str × Str)} (h : Listed rows userId c r todo)
    (hcap : r.sent + r.failed < digestMaxPerRun) :
    ∃ p, r.advance digestMaxPerRun todo = some p ∧ p.Owes rows userId c := by
  cases todo with
  | nil => cases h.listed
  | cons next todo =>
    obtain ⟨user, email⟩ := next
    rw [Run.advance]
    by_cases hmine : user = userId
    · subst hmine
      rw [if_neg h.unread, if_neg (List.ne_nil_of_mem h.mine), if_neg (by omega)]
      exact ⟨_, rfl, .inl ⟨rfl, h.mine, h.unclaimed⟩⟩
    · have hlater : userId ∈ todo.map Prod.fst := by
        simpa [Ne.symm hmine] using h.listed
      have hlisted : Listed rows userId c r todo := { h with listed := hlater }
      split_ifs
      · exact ⟨_, rfl, hlisted⟩
      · exact ⟨_, rfl, hlisted⟩
      · omega
      · exact ⟨_, rfl, .inr ⟨hmine, hlisted⟩⟩

theorem advance_now {r : Run} {todo : List (Str × Str)} {p : Place} (h : r.advance digestMaxPerRun todo = some p) :
    p.now = r.now := by
  cases todo with
  | nil => cases h
  | cons next todo =>
    rw [Run.advance] at h
    split_ifs at h
    all_goals cases h
    all_goals rfl

omit [DecidableEq W] in
/-- A change that no digest could have had is in the window of the next, and it is new to
the account. -/
theorem Covering.due (hc : Covering origin userId s) {now : Int} (hmem : c ∈ s.store.changes) (hpast : ¬ s.Past c)
    (hbefore : c.detectedAt ≤ now) (hwindow : now ≤ s.latest origin + window)
    (hweek : ∀ start ∈ s.starts, weekStart start ≠ weekStart now) :
    c ∈ recentChanges s.store.changes now ∧ Free s.rows userId (weekStart now) c := by
  have hnew : ∀ start ∈ s.starts, start < c.detectedAt := fun start hstart =>
    not_le.mp fun hle => hpast ⟨start, hstart, hle⟩
  have hlatest : s.latest origin ≤ c.detectedAt := by
    unfold Server.latest
    cases hstarts : s.starts with
    | nil => exact hc.stamped c hmem
    | cons start starts => exact le_of_lt (hnew start (hstarts ▸ List.mem_cons_self))
  refine ⟨mem_recent.mpr ⟨hmem, by omega, hbefore⟩, fun row hrow _ => ?_, fun row hrow _ => ?_⟩
  · obtain ⟨hstart, hrowWeek⟩ := hc.rows row hrow
    rw [hrowWeek]
    exact hweek row.sentAt hstart
  · exact hnew row.sentAt (hc.rows row hrow).1

/-- The only run takes a step: what it owed is mailed, or it owes it still. -/
theorem Covering.move (hc : Covering origin userId s) {p : Place} (hw : s.places w = some p) {p' : Option Place}
    {rows : List DigestSend} {drawn : List Nat} {mails : List Mail} (hnow : ∀ q, p' = some q → q.now = p.now)
    (hrows : ∀ row ∈ rows, row ∈ s.rows ∨ row.sentAt = p.now ∧ row.weekStart = weekStart p.now)
    (hmails : s.mails ⊆ mails)
    (howes : ∀ c, p.Owes s.rows userId c →
      (∃ m ∈ mails, m.userId = userId ∧ c ∈ m.changes) ∨ ∃ q, p' = some q ∧ q.Owes rows userId c) :
    Covering origin userId { s.goto w p' with rows := rows, drawn := drawn, mails := mails } where
  recipient := hc.recipient
  rows := by
    intro row hrow
    rcases hrows row hrow with hthere | ⟨hsent, hweek⟩
    · exact hc.rows row hthere
    · rw [hweek, hsent]
      exact ⟨hc.begun w p hw, rfl⟩
  ordered := hc.ordered
  stamped := hc.stamped
  single := by
    have honly : ∀ w' q, s.places w' = some q → w' = w := fun w' q h => hc.single w' w q p h hw
    intro w₁ w₂ p₁ p₂ h₁ h₂
    rw [eq_of_put honly h₁, eq_of_put honly h₂]
  begun := forall_put hc.begun fun q hq => by
    rw [hnow q hq]
    exact hc.begun w p hw
  kept := by
    intro c hmem hpast
    obtain ⟨m, hm, hmailed⟩ | ⟨w₁, p₁, hp₁, howed⟩ := hc.kept c hmem hpast
    · exact .inl ⟨m, hmails hm, hmailed⟩
    · obtain rfl : w₁ = w := hc.single w₁ w p₁ p hp₁ hw
      obtain rfl : p = p₁ := Option.some.inj (hw.symm.trans hp₁)
      obtain hmailed | ⟨q, rfl, hq⟩ := howes c howed
      · exact .inl hmailed
      · exact .inr ⟨w₁, q, put_self _ _ _, hq⟩

theorem Covering.step (hc : Covering origin userId s) (hok : scheduled digestMaxPerRun origin userId s l)
    (hsettled : settled sha s l = true) (h : Digest.step digestMaxPerRun sha s l = some s') : Covering origin userId s' := by
  cases step_turn h with
  | @visit now v store stats hvisit =>
    obtain hsame | ⟨new, hnew, rfl⟩ := visit_changes hvisit
    · exact ⟨hc.recipient, hc.rows, hc.ordered, by rw [hsame]; exact hc.stamped, hc.single, hc.begun,
        by rw [hsame]; exact hc.kept⟩
    · have hlater : ∀ start ∈ s.starts, start < new.detectedAt := by
        simpa [settled, hvisit, hnew] using hsettled
      refine ⟨hc.recipient, hc.rows, hc.ordered, ?_, hc.single, hc.begun, ?_⟩
      · intro c hmem
        rw [hnew, List.mem_append, List.mem_singleton] at hmem
        obtain hmem | rfl := hmem
        · exact hc.stamped c hmem
        · exact hok
      · intro c hmem hpast
        rw [hnew, List.mem_append, List.mem_singleton] at hmem
        obtain hmem | rfl := hmem
        · exact hc.kept c hmem hpast
        · obtain ⟨start, hstart, hle⟩ := hpast
          exact absurd hle (not_le.mpr (hlater start hstart))
  | edit users => exact ⟨hok, hc.rows, hc.ordered, hc.stamped, hc.single, hc.begun, hc.kept⟩
  | @nothing w now hw hnone =>
    obtain ⟨hidle, hafter, hwindow, hweek⟩ := hok
    refine ⟨hc.recipient, fun row hrow => ⟨List.mem_cons_of_mem _ (hc.rows row hrow).1, (hc.rows row hrow).2⟩, ?_,
      hc.stamped, hc.single, fun w' p hp => List.mem_cons_of_mem _ (hc.begun w' p hp), ?_⟩
    · exact List.forall_mem_cons.mpr ⟨le_refl now, fun start hstart => (hc.ordered start hstart).trans hafter⟩
    · rintro c hmem ⟨start, hstart, hle⟩
      by_cases hpast : s.Past c
      · exact hc.kept c hmem hpast
      · rcases List.mem_cons.mp hstart with rfl | hstart
        · have hdue := hc.due hmem hpast hle hwindow hweek
          rw [hnone] at hdue
          cases hdue.1
        · exact (hpast ⟨start, hstart, hle⟩).elim
  | @start w now hw hsome =>
    obtain ⟨hidle, hafter, hwindow, hweek⟩ := hok
    have hplaces : ∀ w' p, put s.places w (some (.started now (recentChanges s.store.changes now))) w' = some p →
        w' = w ∧ p = .started now (recentChanges s.store.changes now) := by
      intro w' p hput
      rcases put_cases hput with ⟨rfl, heq⟩ | ⟨-, hthere⟩
      · exact ⟨rfl, (Option.some.inj heq).symm⟩
      · rw [hidle w'] at hthere
        cases hthere
    refine ⟨hc.recipient, fun row hrow => ⟨List.mem_cons_of_mem _ (hc.rows row hrow).1, (hc.rows row hrow).2⟩, ?_,
      hc.stamped, ?_, ?_, ?_⟩
    · exact List.forall_mem_cons.mpr ⟨le_refl now, fun start hstart => (hc.ordered start hstart).trans hafter⟩
    · intro w₁ w₂ p₁ p₂ h₁ h₂
      rw [(hplaces w₁ p₁ h₁).1, (hplaces w₂ p₂ h₂).1]
    · intro w' p hp
      rw [(hplaces w' p hp).2]
      exact List.mem_cons_self
    · rintro c hmem ⟨start, hstart, hle⟩
      by_cases hpast : s.Past c
      · exact .inl (hc.covered hidle c hmem hpast)
      · rcases List.mem_cons.mp hstart with rfl | hstart
        · exact .inr ⟨w, _, put_self _ _ _, hc.due hmem hpast hle hwindow hweek⟩
        · exact (hpast ⟨start, hstart, hle⟩).elim
  | read hw hreads =>
    exact hc.move hw (forall_moved (reads_now hreads)) (fun _ h => .inl h) (fun _ h => h) fun c howes =>
      .inr ⟨_, rfl, reads_owes hreads hc.recipient howes⟩
  | @advance w r todo hw =>
    refine hc.move hw (fun _ => advance_now) (fun _ h => .inl h) (fun _ h => h) fun c howes => ?_
    have hcap : r.sent + r.failed < digestMaxPerRun := by
      have hlisted : userId ∈ todo.map Prod.fst := howes.listed
      simpa [scheduled, hw, Place.reaches, hlisted] using hok
    exact .inr (advance_owes howes hcap)
  | @claim w sendId r user email mine todo hw _ _ =>
    refine hc.move hw ?_ ?_ (fun _ h => h) fun c howes => ?_
    · exact forall_moved rfl
    · intro row hrow
      rcases List.mem_cons.mp hrow with rfl | hthere
      · exact .inr ⟨rfl, rfl⟩
      · exact .inl hthere
    · obtain ⟨hmine, hmem, -⟩ | ⟨hother, hlisted⟩ := howes
      · exact .inr ⟨_, rfl, .inl ⟨hmine, hmem⟩⟩
      · exact .inr ⟨_, rfl, .inr ⟨hother, hlisted.cons hother⟩⟩
  | @refused w sendId r user email mine todo hw htaken =>
    refine hc.move hw ?_ (fun _ h => .inl h) (fun _ h => h) fun c howes => ?_
    · exact forall_moved rfl
    · obtain ⟨rfl, -, hunclaimed⟩ | ⟨hother, hlisted⟩ := howes
      · refine absurd (accepts_iff.mpr fun row hrow heq => ?_) (by rw [htaken]; exact Bool.false_ne_true)
        exact hunclaimed row hrow (congrArg Prod.fst heq) (congrArg Prod.snd heq)
      · exact .inr ⟨_, rfl, hlisted⟩
  | @returned w r user email mine sendId todo hw =>
    refine hc.move hw ?_ (fun _ h => .inl h) (List.subset_cons_self _ _) fun c howes => ?_
    · exact forall_moved rfl
    · obtain ⟨hmine, hmem⟩ | ⟨hother, hlisted⟩ := howes
      · exact .inl ⟨_, List.mem_cons_self, hmine, hmem⟩
      · exact .inr ⟨_, rfl, ⟨hlisted.listed, hlisted.unread, hlisted.mine, hlisted.unclaimed⟩⟩
  | raised raised hw hfailed => exact (hfailed hok).elim
  | @release w r user sendId raised todo hw =>
    refine hc.move hw ?_ (fun _ h => .inl (List.mem_filter.mp h).1) (fun _ h => h) fun c howes => howes.elim
    cases raised with
    | true => exact forall_gone
    | false => exact forall_moved rfl
  | fail _ => exact hok.elim

/-! ## A change that has been missed -/

omit [DecidableEq W] in
variable (userId c s) in
/-- The account has not been mailed the change, and a mail to it started at or after the
change's stamp. -/
structure Missed : Prop where
  later : ∃ m ∈ s.mails, m.userId = userId ∧ c.detectedAt ≤ m.sentAt
  never : ¬ s.Mailed userId c

/-- What has been missed stays missed. -/
theorem Missed.step (hm : Missed s userId c) (ha : Alone s)
    (h : Digest.step digestMaxPerRun sha s l = some s') : Missed s' userId c := by
  cases step_turn h with
  | @returned w r user email mine sendId todo hw =>
    obtain ⟨-, hnewer⟩ := ha.knows w _ hw
    obtain ⟨m, hmem, hmine, hlate⟩ := hm.later
    refine ⟨⟨m, List.mem_cons_of_mem _ hmem, hmine, hlate⟩, ?_⟩
    rintro ⟨m', hmem', huser, hc⟩
    rcases List.mem_cons.mp hmem' with rfl | hmem'
    · exact absurd hlate (not_le.mpr (hnewer m hmem (hmine.trans huser.symm) c hc))
    · exact hm.never ⟨m', hmem', huser, hc⟩
  | _ => exact ⟨hm.later, hm.never⟩

omit [DecidableEq W] in
theorem alone_of_scheduled (h : scheduled digestMaxPerRun origin userId s l) : alone s l := by
  cases l with
  | start w now => exact h.1
  | _ => trivial

theorem Missed.run {ls : List (Label W)} (hm : Missed s userId c) (hi : Inv s) (ha : Alone s)
    (hok : Along (Digest.step digestMaxPerRun sha) (scheduled digestMaxPerRun origin userId) s ls)
    (h : exec (Digest.step digestMaxPerRun sha) s ls = some s') : ¬ s'.Mailed userId c := by
  have hall : Missed s' userId c ∧ Inv s' ∧ Alone s' :=
    exec_invariant (I := fun s => Missed s userId c ∧ Inv s ∧ Alone s)
      (fun _ _ _ hs hok h => ⟨hs.1.step hs.2.2 h, hs.2.1.step h, hs.2.2.step hs.2.1 (alone_of_scheduled hok) h⟩)
      ⟨hm, hi, ha⟩ hok h
  exact hall.1.never

end

end CiteVyn.Services.Digest
