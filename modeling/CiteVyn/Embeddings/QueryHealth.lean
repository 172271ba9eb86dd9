import CiteVyn.Lib.Leases
import CiteVyn.Lib.Runs
import CiteVyn.Lib.Vouchers
import CiteVyn.Text.Python

/-! # Whether the provider refuses the account

`app/embeddings/query_health.py`, with the two places of the answer path that report to
it and the health route that asks. Questions and probes of any number of machines share
one Redis. A command that has been sent is executed at any later time, or never, or once
more for a retry; its sender may have stopped waiting by then. -/
namespace CiteVyn.Embeddings.QueryHealth
open CiteVyn.Lib.Leases CiteVyn.Lib.Runs CiteVyn.Lib.Threads CiteVyn.Lib.Vouchers CiteVyn.Text

/-! ## Times as text -/

/-- `datetime`. -/
structure DateTime where
  year : Nat
  month : Nat
  day : Nat
  hour : Nat
  minute : Nat
  second : Nat
  microsecond : Nat
  /-- `utcoffset` in microseconds, none for a naive time -/
  offset : Option Int
  deriving DecidableEq, Repr

/-- `%0*d` -/
def padded (width n : Nat) : Str := (Nat.toDigits 10 n).leftpad width '0'

/-- `:ss` and `.ffffff`, where they are not zero. -/
def offsetTail (micros : Nat) : Str :=
  if micros = 0 then []
  else ':' :: padded 2 (micros / 1000000) ++
    if micros % 1000000 = 0 then [] else '.' :: padded 6 (micros % 1000000)

def offsetText (offset : Int) : Str :=
  (if offset < 0 then '-' else '+') :: padded 2 (offset.natAbs / 3600000000) ++
    ':' :: padded 2 (offset.natAbs / 60000000 % 60) ++ offsetTail (offset.natAbs % 60000000)

/-- `datetime.isoformat`. -/
def DateTime.isoformat (d : DateTime) : Str :=
  padded 4 d.year ++ '-' :: padded 2 d.month ++ '-' :: padded 2 d.day ++ 'T' :: padded 2 d.hour ++
    ':' :: padded 2 d.minute ++ ':' :: padded 2 d.second ++
    (if d.microsecond = 0 then [] else '.' :: padded 6 d.microsecond) ++ (d.offset.map offsetText).getD []

/-- `_valid_time`, from `datetime.fromisoformat`. -/
def validTime (fromisoformat : Str → Option DateTime) (value : Str) : Option Str :=
  (fromisoformat value).bind fun parsed => if parsed.isoformat = value then some value else none

/-! ## The tracker -/

/-- `query_embedder_self_check_interval_seconds`. -/
structure Interval where
  seconds : Nat
  off_or_ten_minutes : seconds = 0 ∨ 600 ≤ seconds
  le : seconds ≤ 604800
  deriving DecidableEq

/-- How an embedding call ends. -/
inductive Outcome where
  /-- a vector -/
  | vector
  /-- `EmbedderUnavailable` with `account_refused`, recorded at a time of the process's own clock -/
  | refused (at_ : DateTime)
  /-- anything else -/
  | unsettled
  deriving DecidableEq, Repr

/-- What Redis is sent. -/
inductive Command where
  /-- `set(self.key, now.isoformat(), nx=True)` -/
  | setRefused (at_ : DateTime)
  /-- `delete(self.key)` -/
  | clear
  /-- `set(self.self_check_key, "1", nx=True, ex=interval_seconds)` -/
  | claim (interval : Interval)
  /-- `get(self.key)` -/
  | get
  deriving DecidableEq

/-- What has been executed of the commands that write the record. -/
inductive Event where
  | refused (at_ : DateTime)
  | cleared
  deriving DecidableEq, Repr

/-- Where a question or a probe is. -/
inductive Place where
  /-- `claim_self_check` waits for its answer -/
  | claiming
  /-- it has won; the embedder is built next -/
  | won (lease : Lease)
  /-- the paid call -/
  | calling (lease : Lease)
  /-- `_call` waits, in a probe or not -/
  | recording (probe : Bool)
  /-- `status` waits -/
  | reading
  deriving DecidableEq

/-- `status`. -/
inductive Status where
  | ok
  | refused (since : Option Str)
  | unavailable
  deriving DecidableEq, Repr

/-- What a probe has reported, with what had been executed when Redis answered it. -/
structure Report where
  status : Status
  log : List Event
  deriving DecidableEq, Repr

/-- A paid call of a self-check. -/
structure Call where
  lease : Lease
  startedAt : Int
  deriving DecidableEq, Repr

structure World (W : Type) where
  /-- the clock of Redis, in milliseconds -/
  now : Int
  refusedSince : Option Str
  selfCheck : Option Lease
  /-- the commands on their way, each with the one who waits for it -/
  sent : List (Option W × Command)
  places : W → Option Place
  /-- the events so far, the latest first -/
  log : List Event
  grants : List Lease
  calls : List Call
  reports : List Report

inductive Label (W : Type) where
  | tick (elapsed : Nat)
  /-- the vector arm of an answer ends -/
  | question (w : W) (outcome : Outcome)
  /-- `health_index` begins, a paid-call slot being free or not -/
  | probe (w : W) (interval : Interval) (slotFree : Bool)
  /-- Redis executes a command; its answer arrives or is lost, and the client may send it again -/
  | execute (i : Nat) (answered again : Bool)
  /-- a command never arrives -/
  | lose (i : Nat)
  /-- the wait for Redis times out or fails -/
  | giveUp (w : W)
  /-- `embed` of the self-check begins -/
  | start (w : W)
  /-- the self-check ends; without `embed` when no embedder could be built -/
  | settle (w : W) (outcome : Outcome)
  /-- the request is cut off -/
  | cancel (w : W)

variable (fromisoformat : Str → Option DateTime) {W : Type} [DecidableEq W]

/-- The one who waits for an answer no longer does. -/
def orphan (sent : List (Option W × Command)) (w : W) : List (Option W × Command) :=
  sent.map fun c => if c.1 = some w then (none, c.2) else c

/-- A command is sent, and its answer awaited. -/
def World.send (s : World W) (w : W) (c : Command) (p : Place) : World W :=
  { s with sent := (some w, c) :: orphan s.sent w, places := put s.places w (some p) }

/-- The request ends. -/
def World.close (s : World W) (w : W) : World W :=
  { s with sent := orphan s.sent w, places := put s.places w none }

/-- A call to the tracker is over, whatever came of it. -/
def World.recorded (s : World W) (w : W) : Bool → World W
  | true => s.send w .get .reading
  | false => s.close w

/-- `record_failure` and `record_success`. -/
def World.record (s : World W) (w : W) (probe : Bool) : Outcome → World W
  | .vector => s.send w .clear (.recording probe)
  | .refused at_ => s.send w (.setRefused at_) (.recording probe)
  | .unsettled => s.recorded w probe

/-- A key that has not run out. -/
def leaseOf (now : Int) (interval : Interval) : Lease := ⟨now, 1000 * interval.seconds⟩

/-- A command is executed. -/
def World.apply (s : World W) : Command → World W
  | .setRefused at_ =>
    { s with
      refusedSince := if s.refusedSince.isNone then some at_.isoformat else s.refusedSince
      log := .refused at_ :: s.log }
  | .clear => { s with refusedSince := none, log := .cleared :: s.log }
  | .claim interval =>
    if Free s.selfCheck s.now then
      { s with selfCheck := some (leaseOf s.now interval), grants := leaseOf s.now interval :: s.grants }
    else s
  | .get => s

/-- What `status` makes of the answer. -/
def statusOf : Option Str → Status
  | none => .ok
  | some since => .refused (validTime fromisoformat since)

/-- The answer to a command reaches the one who waits for it; `before` is the world that
the command found. -/
def World.answer (s before : World W) (w : W) : Command → World W
  | .setRefused _ | .clear =>
    match s.places w with
    | some (.recording probe) => s.recorded w probe
    | _ => s
  | .claim interval =>
    match s.places w with
    | some .claiming =>
      if Free before.selfCheck before.now then
        { s with sent := orphan s.sent w, places := put s.places w (some (.won (leaseOf before.now interval))) }
      else s.send w .get .reading
    | _ => s
  | .get =>
    match s.places w with
    | some .reading =>
      { s.close w with reports := ⟨statusOf fromisoformat before.refusedSince, before.log⟩ :: s.reports }
    | _ => s

/-- The commands left once one has been executed or lost. -/
def World.took (s : World W) (i : Nat) (left : Option (Option W × Command)) : World W :=
  { s with sent := s.sent.take i ++ left.toList ++ s.sent.drop (i + 1) }

def step (s : World W) : Label W → Option (World W)
  | .tick elapsed => some { s with now := s.now + elapsed }
  | .question w outcome =>
    match s.places w with
    | some _ => none
    | none => some (s.record w false outcome)
  | .probe w interval slotFree =>
    match s.places w with
    | some _ => none
    | none =>
      if interval.seconds = 0 ∨ slotFree = false then some (s.send w .get .reading)
      else some (s.send w (.claim interval) .claiming)
  | .execute i answered again =>
    match s.sent[i]? with
    | none => none
    | some (owner, c) =>
      let s' := (s.took i (if again then some (if answered then none else owner, c) else none)).apply c
      match owner with
      | some w => some (if answered then s'.answer fromisoformat s w c else s')
      | none => some s'
  | .lose i => if i < s.sent.length then some (s.took i none) else none
  | .giveUp w =>
    match s.places w with
    | some .claiming => some (s.send w .get .reading)
    | some (.recording probe) => some (s.recorded w probe)
    | some .reading => some { s.close w with reports := ⟨.unavailable, s.log⟩ :: s.reports }
    | _ => none
  | .start w =>
    match s.places w with
    | some (.won lease) =>
      some { s with places := put s.places w (some (.calling lease)), calls := ⟨lease, s.now⟩ :: s.calls }
    | _ => none
  | .settle w outcome =>
    match s.places w with
    | some (.won _) => if outcome = .unsettled then some (s.recorded w true) else none
    | some (.calling _) => some (s.record w true outcome)
    | _ => none
  | .cancel w =>
    match s.places w with
    | some _ => some (s.close w)
    | none => none

/-- Redis is empty and nothing is going on. -/
def World.new : World W := ⟨0, none, none, [], idle, [], [], [], []⟩

/-! ## What a step comes to -/

/-- The event of a command. -/
def eventOf : Command → Option Event
  | .setRefused at_ => some (.refused at_)
  | .clear => some .cleared
  | .claim _ | .get => none

/-- The lease that a probe has won and not used yet. -/
def wonLease : Place → Option Lease
  | .won lease => some lease
  | _ => none

/-- A command has been executed. -/
def World.executed (s s' : World W) (answered : Bool) (c : Command) : Option W → World W
  | some w => if answered then s'.answer fromisoformat s w c else s'
  | none => s'

/-- The steps, with what each finds and what it leaves. -/
inductive Turn (s : World W) : Label W → World W → Prop where
  | tick (elapsed : Nat) : Turn s (.tick elapsed) { s with now := s.now + elapsed }
  | record {l w outcome} (probe : Bool) (hl : l = .question w outcome ∨ l = .settle w outcome) :
    Turn s l (s.record w probe outcome)
  | recorded {l} (w : W) (probe : Bool) : Turn s l (s.recorded w probe)
  | send {l} (w : W) {c p} (hp : wonLease p = none) (hevent : eventOf c = none)
    (hclaim : ∀ interval, c = .claim interval → interval.seconds ≠ 0) : Turn s l (s.send w c p)
  | execute {i answered again owner c} (left : Option (Option W × Command)) (hc : (owner, c) ∈ s.sent)
    (hleft : ∀ o, left = some o → o.2 = c) :
    Turn s (.execute i answered again) (s.executed fromisoformat ((s.took i left).apply c) answered c owner)
  | lose (i : Nat) : Turn s (.lose i) (s.took i none)
  | unavailable (w : W) : Turn s (.giveUp w) { s.close w with reports := ⟨.unavailable, s.log⟩ :: s.reports }
  | start {w lease} (hw : s.places w = some (.won lease)) :
    Turn s (.start w)
      { s with places := put s.places w (some (.calling lease)), calls := ⟨lease, s.now⟩ :: s.calls }

theorem step_turn {fromisoformat : Str → Option DateTime} {s s' : World W} {l : Label W}
    (h : step fromisoformat s l = some s') : Turn fromisoformat s l s' := by
  cases l with
  | tick elapsed =>
    cases h
    exact .tick elapsed
  | question w outcome =>
    simp only [step] at h
    split at h
    · cases h
    · cases h
      exact .record false (.inl rfl)
  | probe w interval slotFree =>
    simp only [step] at h
    split at h
    · cases h
    · split at h
      · cases h
        exact .send w rfl rfl fun _ heq => by cases heq
      · rename_i hon
        cases h
        refine .send w rfl rfl ?_
        rintro _ ⟨⟩
        exact (not_or.mp hon).1
  | execute i answered again =>
    simp only [step] at h
    split at h
    · cases h
    · rename_i owner c hsent
      have hleft : ∀ o, (if again then some (if answered then none else owner, c) else none) = some o → o.2 = c := by
        intro o ho
        split at ho
        · cases ho
          rfl
        · cases ho
      split at h
      · cases h
        exact .execute _ (List.mem_of_getElem? hsent) hleft
      · cases h
        exact .execute _ (List.mem_of_getElem? hsent) hleft
  | lose i =>
    simp only [step] at h
    split at h
    · cases h
      exact .lose i
    · cases h
  | giveUp w =>
    simp only [step] at h
    split at h
    · cases h
      exact .send w rfl rfl fun _ heq => by cases heq
    · cases h
      exact .recorded w _
    · cases h
      exact .unavailable w
    · cases h
  | start w =>
    simp only [step] at h
    split at h
    · rename_i lease hw
      cases h
      exact .start hw
    · cases h
  | settle w outcome =>
    simp only [step] at h
    split at h
    · split at h
      · cases h
        exact .recorded w true
      · cases h
    · cases h
      exact .record true (.inr rfl)
    · cases h
  | cancel w =>
    simp only [step] at h
    split at h
    · cases h
      exact .recorded w false
    · cases h

/-! ## What a timestamp looks like -/

/-- A character of a timestamp. -/
def isTimeChar (c : Char) : Bool := c.isDigit || ['-', ':', 'T', '.', '+'].contains c

def Timelike (s : Str) : Prop := ∀ c ∈ s, isTimeChar c = true

theorem Timelike.nil : Timelike [] := fun _ h => by cases h

theorem Timelike.cons {c : Char} {s : Str} (hc : isTimeChar c = true) (h : Timelike s) : Timelike (c :: s) :=
  List.forall_mem_cons.mpr ⟨hc, h⟩

theorem Timelike.append {s t : Str} (hs : Timelike s) (ht : Timelike t) : Timelike (s ++ t) :=
  List.forall_mem_append.mpr ⟨hs, ht⟩

/-- A lease of ten minutes or more. -/
def Long (l : Lease) : Prop := 600000 ≤ l.duration

/-- `loose` are the grants that nobody has been told of yet. -/
structure Inv (loose : List Lease) (s : World W) : Prop where
  granted : Granted s.now s.selfCheck s.grants
  ledger : Ledger s.grants loose (fun w => (s.places w).bind wonLease) (s.calls.map Call.lease)
  long : ∀ l ∈ s.grants, Long l
  asked : ∀ interval, .claim interval ∈ s.sent.map Prod.snd → interval.seconds ≠ 0
  started : ∀ c ∈ s.calls, c.lease.grantedAt ≤ c.startedAt

omit [DecidableEq W] in
theorem Inv.new : Inv [] (World.new : World W) where
  granted := .nil 0
  ledger := Ledger.nil
  long := fun _ h => by cases h
  asked := fun _ h => by cases h
  started := fun _ h => by cases h

section

variable {fromisoformat : Str → Option DateTime} {s s' : World W} {loose : List Lease} {w : W}

@[simp] theorem orphan_commands (sent : List (Option W × Command)) (w : W) :
    (orphan sent w).map Prod.snd = sent.map Prod.snd := by
  rw [orphan, List.map_map]
  refine List.map_congr_left fun c _ => ?_
  simp only [Function.comp_apply]
  split
  · rfl
  · rfl

/-- A process goes on to a place where it has won nothing. -/
theorem Inv.goto (hi : Inv loose s) (w : W) {p : Option Place} (hp : p.bind wonLease = none)
    {sent : List (Option W × Command)} (hsent : ∀ interval, .claim interval ∈ sent.map Prod.snd → interval.seconds ≠ 0)
    (reports : List Report) :
    Inv loose { s with sent := sent, places := put s.places w p, reports := reports } where
  granted := hi.granted
  ledger := by
    dsimp only
    rw [put_bind, hp]
    exact hi.ledger.drop w
  long := hi.long
  asked := hsent
  started := hi.started

theorem Inv.send (hi : Inv loose s) (w : W) {c : Command} {p : Place} (hp : wonLease p = none)
    (hc : ∀ interval, c = .claim interval → interval.seconds ≠ 0) : Inv loose (s.send w c p) := by
  refine hi.goto w (p := some p) hp ?_ s.reports
  intro interval hmem
  rw [List.map_cons, orphan_commands] at hmem
  rcases List.mem_cons.mp hmem with heq | hmem
  · exact hc interval heq.symm
  · exact hi.asked interval hmem

theorem Inv.close (hi : Inv loose s) (w : W) (reports : List Report) :
    Inv loose { s.close w with reports := reports } := by
  refine hi.goto w rfl ?_ reports
  show ∀ interval, .claim interval ∈ (orphan s.sent w).map Prod.snd → interval.seconds ≠ 0
  rw [orphan_commands]
  exact hi.asked

theorem Inv.recorded (hi : Inv loose s) (w : W) (probe : Bool) : Inv loose (s.recorded w probe) := by
  cases probe with
  | true => exact hi.send w rfl fun _ heq => by cases heq
  | false => exact hi.close w s.reports

theorem Inv.record (hi : Inv loose s) (w : W) (probe : Bool) (outcome : Outcome) : Inv loose (s.record w probe outcome) := by
  cases outcome with
  | vector => exact hi.send w rfl fun _ heq => by cases heq
  | refused at_ => exact hi.send w rfl fun _ heq => by cases heq
  | unsettled => exact hi.recorded w probe

omit [DecidableEq W] in
theorem mem_took {i : Nat} {left : Option (Option W × Command)} {c : Command}
    (hleft : ∀ o, left = some o → o.2 ∈ s.sent.map Prod.snd) (h : c ∈ (s.took i left).sent.map Prod.snd) :
    c ∈ s.sent.map Prod.snd := by
  obtain ⟨o, ho, rfl⟩ := List.mem_map.mp h
  rcases List.mem_append.mp ho with ho | ho
  · rcases List.mem_append.mp ho with ho | ho
    · exact List.mem_map_of_mem (List.mem_of_mem_take ho)
    · exact hleft o (Option.mem_toList.mp ho)
  · exact List.mem_map_of_mem (List.mem_of_mem_drop ho)

omit [DecidableEq W] in
theorem Inv.took (hi : Inv loose s) {i : Nat} {left : Option (Option W × Command)}
    (hleft : ∀ o, left = some o → o.2 ∈ s.sent.map Prod.snd) : Inv loose (s.took i left) :=
  ⟨hi.granted, hi.ledger, hi.long, fun interval hmem => hi.asked interval (mem_took hleft hmem), hi.started⟩

/-- The grants that a command makes. -/
def granting (s : World W) : Command → List Lease
  | .claim interval => if Free s.selfCheck s.now then [leaseOf s.now interval] else []
  | _ => []

omit [DecidableEq W] in
theorem Inv.apply (hi : Inv [] s) {c : Command} (hc : ∀ interval, c = .claim interval → interval.seconds ≠ 0) :
    Inv (granting s c) (s.apply c) := by
  cases c with
  | setRefused at_ => exact ⟨hi.granted, hi.ledger, hi.long, hi.asked, hi.started⟩
  | clear => exact ⟨hi.granted, hi.ledger, hi.long, hi.asked, hi.started⟩
  | get => exact hi
  | claim interval =>
    rw [World.apply, granting]
    split
    · rename_i hfree
      have hten : 600 ≤ interval.seconds := interval.off_or_ten_minutes.resolve_left (hc interval rfl)
      refine ⟨hi.granted.grant hfree _, hi.ledger.issue (hi.granted.grant_new hfree _), ?_, hi.asked, hi.started⟩
      refine List.forall_mem_cons.mpr ⟨?_, hi.long⟩
      show 600000 ≤ 1000 * interval.seconds
      omega
    · exact hi

omit [DecidableEq W] in
theorem Inv.tight (hi : Inv loose s) : Inv [] s :=
  ⟨hi.granted, hi.ledger.shrink (List.Subset.refl _) (List.nil_sublist _), hi.long, hi.asked, hi.started⟩

/-- The answer to a claim hands the grant over, if somebody waits for it. -/
theorem Inv.answer {before : World W} {c : Command} (hi : Inv (granting before c) s) (w : W) :
    Inv [] (s.answer fromisoformat before w c) := by
  cases c with
  | setRefused at_ =>
    rw [World.answer]
    split
    · exact Inv.recorded hi w _
    · exact hi
  | clear =>
    rw [World.answer]
    split
    · exact Inv.recorded hi w _
    · exact hi
  | get =>
    rw [World.answer]
    split
    · exact Inv.close hi w _
    · exact hi
  | claim interval =>
    rw [World.answer]
    split
    · split
      · rename_i hfree
        rw [granting, if_pos hfree] at hi
        refine ⟨hi.granted, ?_, hi.long, ?_, hi.started⟩
        · dsimp only
          rw [put_bind]
          exact hi.ledger.take w List.mem_cons_self (List.nil_sublist _) List.not_mem_nil
        · dsimp only
          rw [orphan_commands]
          exact hi.asked
      · exact hi.tight.send w rfl fun _ heq => by cases heq
    · exact hi.tight

theorem Inv.step {l : Label W} (hi : Inv [] s) (h : QueryHealth.step fromisoformat s l = some s') : Inv [] s' := by
  cases step_turn h with
  | tick elapsed => exact ⟨hi.granted.tick (by simp), hi.ledger, hi.long, hi.asked, hi.started⟩
  | record probe _ => exact hi.record _ probe _
  | recorded w probe => exact hi.recorded w probe
  | send w hp _ hclaim => exact hi.send w hp hclaim
  | @execute i answered again owner c left hc hleft =>
    have hmem : c ∈ s.sent.map Prod.snd := List.mem_map_of_mem (f := Prod.snd) hc
    have happlied : Inv (granting s c) ((s.took i left).apply c) := by
      refine Inv.apply (s := s.took i left) (hi.took fun o ho => hleft o ho ▸ hmem) ?_
      rintro interval rfl
      exact hi.asked interval hmem
    cases owner with
    | none => exact happlied.tight
    | some w =>
      cases answered with
      | true => exact happlied.answer w
      | false => exact happlied.tight
  | lose i => exact hi.took fun _ ho => by cases ho
  | unavailable w => exact hi.close w _
  | @start w lease hw =>
    have htaken : (s.places w).bind wonLease = some lease := by
      rw [hw]
      rfl
    refine ⟨hi.granted, ?_, hi.long, hi.asked, ?_⟩
    · dsimp only
      rw [put_bind]
      exact hi.ledger.spend htaken
    · exact List.forall_mem_cons.mpr ⟨hi.granted.past lease (hi.ledger.taken_issued w lease htaken), hi.started⟩

theorem Inv.run {ls : List (Label W)} (h : exec (QueryHealth.step fromisoformat) World.new ls = some s) : Inv [] s :=
  exec_history (I := fun _ s => Inv [] s) Inv.new (fun _ _ _ _ _ hi h => hi.step h) h

end

/-- However questions and probes of any number of machines interleave, with answers lost
and commands repeated, each paid call of a self-check has a grant of the lock of its own,
of ten minutes or more, and no two of these grants overlap. -/
theorem self_checks_apart (fromisoformat : Str → Option DateTime) {ls : List (Label W)} {s : World W}
    (hrun : exec (step fromisoformat) World.new ls = some s) :
    s.calls.Pairwise (fun c c' => c.lease.Apart c'.lease) ∧
      ∀ c ∈ s.calls, 600000 ≤ c.lease.duration ∧ c.lease.grantedAt ≤ c.startedAt := by
  have hi := Inv.run hrun
  have hissued : ∀ c ∈ s.calls, c.lease ∈ s.grants := fun c hc => hi.ledger.spent_issued (List.mem_map_of_mem hc)
  refine ⟨?_, fun c hc => ⟨hi.long _ (hissued c hc), hi.started c hc⟩⟩
  have hdistinct : s.calls.Pairwise fun c c' => c.lease ≠ c'.lease := List.pairwise_map.mp hi.ledger.spent_nodup
  exact hdistinct.imp_of_mem fun hc hc' hne => hi.granted.apart (hissued _ hc) (hissued _ hc') hne

def exampleTime : DateTime := ⟨2026, 3, 1, 9, 30, 0, 250000, some 0⟩

/-- As on the one text that the example reads. -/
def exampleFromisoformat (text : Str) : Option DateTime := if text = exampleTime.isoformat then some exampleTime else none

def exampleInterval : Interval := ⟨600, .inr (by decide), by decide⟩

/-- A question is refused; a probe checks, is refused too and reports; one in the interval
does not check, one after it does and finds the account in order. -/
def probes : List (Label Bool) :=
  [.question true (.refused exampleTime), .execute 0 true false, .tick 1000,
    .probe false exampleInterval true, .execute 0 true false, .start false,
    .settle false (.refused { exampleTime with second := 2 }), .execute 0 true false, .execute 0 true false,
    .probe true exampleInterval true, .execute 0 true false, .execute 0 true false, .tick 600001,
    .probe false exampleInterval true, .execute 0 true false, .start false, .settle false .vector, .execute 0 true false,
    .execute 0 true false]

theorem self_checks_apart_probes :
    ∃ s, exec (step exampleFromisoformat) World.new probes = some s ∧ s.calls.map Call.startedAt = [601001, 1000] ∧
      s.calls.Pairwise fun c c' => c.lease.Apart c'.lease := by
  have hrun : ∃ s ∈ exec (step exampleFromisoformat) World.new probes, s.calls.map Call.startedAt = [601001, 1000] := by
    decide +kernel
  obtain ⟨s, hs, hcalls⟩ := hrun
  exact ⟨s, hs, hcalls, (self_checks_apart exampleFromisoformat hs).1⟩

/-! ## The record -/

/-- The first refusal since the record was last cleared. -/
def standing : List Event → Option DateTime
  | [] => none
  | .cleared :: _ => none
  | .refused at_ :: log => (standing log).or (some at_)

/-- The text of the record after the events. -/
def recordOf (log : List Event) : Option Str := (standing log).map DateTime.isoformat

structure Recorded (s : World W) : Prop where
  record : s.refusedSince = recordOf s.log
  reports : ∀ r ∈ s.reports, r.log <:+ s.log ∧
    (r.status = .unavailable ∨ r.status = statusOf fromisoformat (recordOf r.log))

/-- Nothing has been executed. -/
structure Quiet (s s' : World W) : Prop where
  refusedSince : s'.refusedSince = s.refusedSince
  log : s'.log = s.log
  reports : s'.reports = s.reports

section

variable {fromisoformat : Str → Option DateTime} {s s' : World W} {w : W} {l : Label W}

theorem quiet_recorded (s : World W) (w : W) (probe : Bool) : Quiet s (s.recorded w probe) := by
  cases probe with
  | true => exact ⟨rfl, rfl, rfl⟩
  | false => exact ⟨rfl, rfl, rfl⟩

theorem quiet_record (s : World W) (w : W) (probe : Bool) (outcome : Outcome) : Quiet s (s.record w probe outcome) := by
  cases outcome with
  | vector => exact ⟨rfl, rfl, rfl⟩
  | refused at_ => exact ⟨rfl, rfl, rfl⟩
  | unsettled => exact quiet_recorded s w probe

omit [DecidableEq W] in
theorem Recorded.quiet (hr : Recorded fromisoformat s) (h : Quiet s s') : Recorded fromisoformat s' where
  record := by
    rw [h.refusedSince, h.log]
    exact hr.record
  reports := by
    rw [h.reports, h.log]
    exact hr.reports

omit [DecidableEq W] in
theorem apply_log (s : World W) (c : Command) : (s.apply c).log = (eventOf c).toList ++ s.log := by
  cases c with
  | claim interval =>
    rw [World.apply]
    split
    · rfl
    · rfl
  | _ => rfl

omit [DecidableEq W] in
/-- A refusal is written only where there is none. -/
theorem Recorded.apply (hr : Recorded fromisoformat s) (c : Command) : Recorded fromisoformat (s.apply c) where
  record := by
    have hrecord := hr.record
    cases c with
    | setRefused at_ =>
      rw [World.apply, recordOf, standing]
      rw [recordOf] at hrecord
      cases hstanding : standing s.log with
      | none =>
        rw [hstanding] at hrecord
        simp [hrecord]
      | some first =>
        rw [hstanding] at hrecord
        simp [hrecord]
    | clear => rfl
    | claim interval =>
      rw [World.apply]
      split
      · exact hrecord
      · exact hrecord
    | get => exact hrecord
  reports := by
    intro r hmem
    have hreports : (s.apply c).reports = s.reports := by
      cases c with
      | claim interval =>
        rw [World.apply]
        split
        · rfl
        · rfl
      | _ => rfl
    obtain ⟨hsuffix, hstatus⟩ := hr.reports r (hreports ▸ hmem)
    exact ⟨apply_log s c ▸ hsuffix.trans (List.suffix_append _ _), hstatus⟩

omit [DecidableEq W] in
/-- A report is added of what was executed by then. -/
theorem Recorded.report (hr : Recorded fromisoformat s) {r : Report} (hlog : r.log <:+ s.log)
    (hstatus : r.status = .unavailable ∨ r.status = statusOf fromisoformat (recordOf r.log))
    {places : W → Option Place} {sent : List (Option W × Command)} :
    Recorded fromisoformat { s with sent := sent, places := places, reports := r :: s.reports } :=
  ⟨hr.record, List.forall_mem_cons.mpr ⟨⟨hlog, hstatus⟩, hr.reports⟩⟩

theorem Recorded.answer {before : World W} (hr : Recorded fromisoformat s) (hbefore : Recorded fromisoformat before)
    (hlog : before.log <:+ s.log) (w : W) (c : Command) : Recorded fromisoformat (s.answer fromisoformat before w c) := by
  cases c with
  | setRefused at_ =>
    rw [World.answer]
    split
    · exact hr.quiet (quiet_recorded s w _)
    · exact hr
  | clear =>
    rw [World.answer]
    split
    · exact hr.quiet (quiet_recorded s w _)
    · exact hr
  | claim interval =>
    rw [World.answer]
    split
    · split
      · exact hr.quiet ⟨rfl, rfl, rfl⟩
      · exact hr.quiet ⟨rfl, rfl, rfl⟩
    · exact hr
  | get =>
    rw [World.answer]
    split
    · exact hr.report hlog (.inr (congrArg (statusOf fromisoformat) hbefore.record))
    · exact hr

theorem Recorded.step (hr : Recorded fromisoformat s) (h : QueryHealth.step fromisoformat s l = some s') :
    Recorded fromisoformat s' := by
  cases step_turn h with
  | tick _ => exact hr.quiet ⟨rfl, rfl, rfl⟩
  | record probe _ => exact hr.quiet (quiet_record s _ probe _)
  | recorded w probe => exact hr.quiet (quiet_recorded s w probe)
  | send w _ _ _ => exact hr.quiet ⟨rfl, rfl, rfl⟩
  | @execute i answered again owner c left _ _ =>
    have happlied : Recorded fromisoformat ((s.took i left).apply c) :=
      Recorded.apply (s := s.took i left) (hr.quiet ⟨rfl, rfl, rfl⟩) c
    cases owner with
    | none => exact happlied
    | some w =>
      cases answered with
      | true =>
        refine happlied.answer hr ?_ w c
        rw [apply_log]
        exact List.suffix_append _ _
      | false => exact happlied
  | lose _ => exact hr.quiet ⟨rfl, rfl, rfl⟩
  | unavailable w => exact hr.report (List.suffix_refl _) (.inl rfl)
  | start _ => exact hr.quiet ⟨rfl, rfl, rfl⟩

/-! ## What the events tell of -/

/-- The events on their way. -/
def pending (s : World W) : List Event := s.sent.filterMap fun c => eventOf c.2

end

end CiteVyn.Embeddings.QueryHealth
