import CiteVyn.Billing.Entitlement
import CiteVyn.Lib.Locks
import CiteVyn.Lib.Runs
import CiteVyn.Lib.Threads

/-! # The webhook handlers of one subscription

`apply_event` and `_sync` of `app/billing/memberships.py`, and the commit of the
route that calls them. Stripe's subscription changes at any time; every handler
reads it before it chooses an account, locks that account's user row and reads
the subscription again. -/
namespace CiteVyn.Billing
open CiteVyn.Lib.Locks CiteVyn.Lib.Runs CiteVyn.Lib.Threads CiteVyn.Text

/-- What `apply_event` returns for an event it has not seen. -/
inductive Outcome where
  | applied
  | appliedAccountMismatch
  | unmatched
  | ignored
  deriving DecidableEq, Repr

/-- `StripeEvent`. -/
structure StripeEvent where
  stripeEventId : Str
  eventType : Str
  eventCreated : Int
  accountId : Option Str
  outcome : Outcome
  receivedAt : Time
  deriving DecidableEq, Repr

/-! ## Reading an event -/

/-- `_SUBSCRIPTION_EVENTS`. -/
def subscriptionEvents : List Str :=
  ["customer.subscription.created".toList, "customer.subscription.updated".toList,
    "customer.subscription.deleted".toList]

/-- `_INVOICE_EVENTS`. -/
def invoiceEvents : List Str :=
  ["invoice.payment_failed".toList, "invoice.paid".toList, "invoice.payment_succeeded".toList]

/-- `_obj`. -/
def obj (event : Value) : Value := (event.get "data").get "object"

/-- `_subscription_id`. -/
def subscriptionId (kind : Str) (obj : Value) : Option Str :=
  if kind ∈ subscriptionEvents then (obj.get "id").str?
  else
    match obj.get "subscription" with
    | .str sub => some sub
    | _ => (((obj.get "parent").get "subscription_details").get "subscription").str?

/-- `str(value or "")`; `none` raises. -/
def textOf (p : Printing) (value : Value) : Option Str :=
  if value.truthy then pyStr p value else some []

/-- What a handler keeps of its event. -/
structure Delivery where
  eventId : Str
  kind : Str
  created : Int
  now : Time
  deriving DecidableEq, Repr

/-- What the event asks for: to sync the subscription it names, if any, or nothing. -/
inductive Concern where
  | sync (sub : Option Str)
  | nothing
  deriving DecidableEq, Repr

/-- The part of `apply_event` before anything is fetched; `none` raises, and an
event without an id is dropped. -/
def readEvent (p : Printing) (event : Value) (now : Time) : Option (Delivery × Concern) := do
  let eventId ← textOf p (event.get "id")
  let kind ← textOf p (event.get "type")
  let created ← number (event.get "created")
  let concern := if kind ∈ subscriptionEvents ++ invoiceEvents
    then .sync (subscriptionId kind (obj event)) else .nothing
  if eventId.isEmpty then none else return (⟨eventId, kind, created.getD 0, now⟩, concern)

/-! ## The handlers -/

/-- Where a handler is. -/
inductive Handler where
  /-- its event is not recorded yet -/
  | checked (d : Delivery)
  | fetched (d : Delivery) (first : Value)
  /-- about to lock the user row of the account -/
  | bound (d : Delivery) (account : Str)
  | locked (d : Delivery) (account : Str)
  /-- with the subscription read inside the lock, and which of Stripe's states it was -/
  | refetched (d : Delivery) (account : Str) (sub : Value) (revision : Nat)
  | reread (d : Delivery) (account : Str) (sub : Value) (revision : Nat) (m : Option Membership)
  /-- about to record an event that changes no membership -/
  | recording (d : Delivery) (account : Option Str) (outcome : Outcome)

variable {W : Type}

structure World (W : Type) where
  /-- the subscription, at Stripe -/
  stripe : Value
  /-- how often it has changed; nothing reads it -/
  revision : Nat
  row : Option Membership
  /-- which of Stripe's states the row was written from; nothing reads it -/
  rowRevision : Nat
  stripeEvents : List StripeEvent
  locks : List (Str × W)
  handlers : W → Option Handler
  /-- a handler has committed what it fetched inside its lock after Stripe's last
  change; nothing reads it -/
  settled : Bool

inductive Label (W : Type) where
  /-- the subscription or its metadata changes at Stripe -/
  | change (sub : Value)
  | receive (h : W) (event : Value) (now : Time)
  | advance (h : W)
  /-- a fetch fails, or the request dies -/
  | fail (h : W)

/-- What the handlers run against. -/
structure Deployment where
  printing : Printing
  /-- the subscription -/
  subId : Str
  /-- the rows of `users` -/
  users : List Str
  graceDays : Int

/-- The columns of a row after a flush: those that differ from what was loaded
are written. -/
def Membership.update (loaded new current : Membership) : Membership where
  accountId := if new.accountId = loaded.accountId then current.accountId else new.accountId
  plan := if new.plan = loaded.plan then current.plan else new.plan
  status := if new.status = loaded.status then current.status else new.status
  billingInterval :=
    if new.billingInterval = loaded.billingInterval then current.billingInterval else new.billingInterval
  stripeCustomerId :=
    if new.stripeCustomerId = loaded.stripeCustomerId then current.stripeCustomerId
    else new.stripeCustomerId
  currentPeriodEnd :=
    if new.currentPeriodEnd = loaded.currentPeriodEnd then current.currentPeriodEnd
    else new.currentPeriodEnd
  cancelAtPeriodEnd :=
    if new.cancelAtPeriodEnd = loaded.cancelAtPeriodEnd then current.cancelAtPeriodEnd
    else new.cancelAtPeriodEnd
  graceUntil := if new.graceUntil = loaded.graceUntil then current.graceUntil else new.graceUntil
  createdAt := if new.createdAt = loaded.createdAt then current.createdAt else new.createdAt
  updatedAt := if new.updatedAt = loaded.updatedAt then current.updatedAt else new.updatedAt

/-- The row that a handler commits over the row there is; `none` is a constraint
that fails. -/
def written (loaded : Option Membership) (new : Membership) (current : Option Membership) :
    Option Membership :=
  match loaded, current with
  | none, none => some new
  | some loaded, some current => some (loaded.update new current)
  | _, _ => none

variable [DecidableEq W]

/-- The handler is at another place. -/
def World.goto (w : World W) (h : W) (handler : Handler) : World W :=
  { w with handlers := put w.handlers h (some handler) }

/-- The transaction of a handler ends, and its locks with it. -/
def World.leave (w : World W) (h : W) : World W :=
  { w with handlers := put w.handlers h none, locks := release w.locks h }

/-- The event goes into `stripe_events`, unless its id is there already. -/
def World.record (w : World W) (d : Delivery) (account : Option Str) (outcome : Outcome) :
    Option (World W) :=
  if d.eventId ∈ w.stripeEvents.map StripeEvent.stripeEventId then none
  else some { w with
    stripeEvents := ⟨d.eventId, d.kind.take 128, d.created, account, outcome, d.now⟩ :: w.stripeEvents }

/-- `_store`, the record of the event and the commit of the route; `none` raises. -/
def World.commit (p : Deployment) (w : World W) (d : Delivery) (account : Str) (sub : Value)
    (revision : Nat) (m : Option Membership) : Option (World W) := do
  let new ← store p.printing (m.getD (newMembership account d.now)) sub d.now p.graceDays
  let row ← written m new w.row
  let w ← w.record d (some new.accountId)
    (if claimedAccount sub = some new.accountId then .applied else .appliedAccountMismatch)
  return { w with
    row := some row
    rowRevision := revision
    settled := w.settled || revision = w.revision }

def step (p : Deployment) (w : World W) : Label W → Option (World W)
  | .change sub => some { w with stripe := sub, revision := w.revision + 1, settled := false }
  | .receive h event now =>
    match w.handlers h, readEvent p.printing event now with
    | none, none => some w
    | none, some (d, concern) =>
      if d.eventId ∈ w.stripeEvents.map StripeEvent.stripeEventId then some w
      else
        match concern with
        | .nothing => some (w.goto h (.recording d none .ignored))
        | .sync none => some (w.goto h (.recording d none .unmatched))
        | .sync (some sub) => if sub = p.subId then some (w.goto h (.checked d)) else none
    | _, _ => none
  | .advance h =>
    match w.handlers h with
    | none => none
    | some (.checked d) => some (w.goto h (.fetched d w.stripe))
    | some (.fetched d first) =>
      match (w.row.map Membership.accountId).or (claimedAccount first) with
      | none => some (w.goto h (.recording d none .unmatched))
      | some account => some (w.goto h (.bound d account))
    | some (.bound d account) =>
      if account ∈ p.users then
        if free w.locks account h then
          some { w.goto h (.locked d account) with locks := acquire w.locks account h }
        else none
      else some (w.goto h (.recording d (some account) .unmatched))
    | some (.locked d account) => some (w.goto h (.refetched d account w.stripe w.revision))
    | some (.refetched d account sub revision) =>
      some (w.goto h (.reread d account sub revision w.row))
    | some (.reread d account sub revision m) =>
      some ((((w.commit p d account sub revision m)).getD w).leave h)
    | some (.recording d account outcome) => some (((w.record d account outcome).getD w).leave h)
  | .fail h =>
    match w.handlers h with
    | some _ => some (w.leave h)
    | none => none

/-! ## What a commit writes -/

/-- The row has the status, the period end and the flag of the subscription. -/
def Matches (p : Printing) (m : Membership) (sub : Value) : Prop :=
  statusOf p sub = some m.status ∧ periodEnd sub = some m.currentPeriodEnd ∧
    m.cancelAtPeriodEnd = cancelOf sub

/-- A flush over the row that was loaded writes the new one. -/
theorem update_self (loaded new : Membership) : loaded.update new loaded = new := by
  obtain ⟨_, _, _, _, _, _, _, _, _, _⟩ := new
  simp only [Membership.update, ite_eq_right_iff, Membership.mk.injEq]
  exact ⟨Eq.symm, Eq.symm, Eq.symm, Eq.symm, Eq.symm, Eq.symm, Eq.symm, Eq.symm, Eq.symm, Eq.symm⟩

theorem update_accountId {loaded new : Membership} (current : Membership)
    (h : new.accountId = loaded.accountId) : (loaded.update new current).accountId = current.accountId :=
  if_pos h

omit [DecidableEq W] in
theorem record_eq_some {w w' : World W} {d : Delivery} {account : Option Str} {outcome : Outcome}
    (h : w.record d account outcome = some w') :
    d.eventId ∉ w.stripeEvents.map StripeEvent.stripeEventId ∧ w' = { w with
      stripeEvents :=
        ⟨d.eventId, d.kind.take 128, d.created, account, outcome, d.now⟩ :: w.stripeEvents } := by
  unfold World.record at h
  split at h
  · cases h
  · exact ⟨‹_›, (Option.some.inj h).symm⟩

omit [DecidableEq W] in
/-- What a handler that commits writes: the row it stored, and its event. -/
theorem commit_eq_some {p : Deployment} {w w' : World W} {d : Delivery} {account : Str} {sub : Value}
    {revision : Nat} {m : Option Membership} (h : w.commit p d account sub revision m = some w') :
    ∃ new row event,
      store p.printing (m.getD (newMembership account d.now)) sub d.now p.graceDays = some new ∧
      written m new w.row = some row ∧
      event.stripeEventId ∉ w.stripeEvents.map StripeEvent.stripeEventId ∧
      w' = { w with
        stripeEvents := event :: w.stripeEvents
        row := some row
        rowRevision := revision
        settled := w.settled || revision = w.revision } := by
  obtain ⟨new, hnew, h⟩ := Option.bind_eq_some_iff.mp h
  obtain ⟨row, hrow, h⟩ := Option.bind_eq_some_iff.mp h
  obtain ⟨w₁, hw₁, h⟩ := Option.bind_eq_some_iff.mp h
  obtain ⟨hfresh, rfl⟩ := record_eq_some hw₁
  exact ⟨new, row, _, hnew, hrow, hfresh, (Option.some.inj h).symm⟩

theorem store_matches {p : Printing} {m new : Membership} {sub : Value} {now : Time} {graceDays : Int}
    (h : store p m sub now graceDays = some new) : Matches p new sub := by
  obtain ⟨hstatus, hend, hcancel, _, _⟩ := store_eq_some h
  exact ⟨hstatus, hend, hcancel⟩

/-- The account of a row outlives whatever a handler writes over it. -/
theorem written_accountId {p : Printing} {m : Option Membership} {new current row : Membership}
    {sub : Value} {now : Time} {graceDays : Int} {account : Str} {created : Time}
    (hnew : store p (m.getD (newMembership account created)) sub now graceDays = some new)
    (h : written m new (some current) = some row) : row.accountId = current.accountId := by
  obtain ⟨_, _, _, haccount, _⟩ := store_eq_some hnew
  cases m with
  | none => cases h
  | some loaded =>
    obtain rfl := Option.some.inj h
    exact update_accountId current haccount

/-! ## The invariant -/

/-- The account whose user row the handler has locked. -/
def Handler.lock : Handler → Option Str
  | .locked _ account | .refetched _ account _ _ | .reread _ account _ _ _ => some account
  | _ => none

/-- What the handler has fetched inside its lock. -/
def Handler.fetch : Handler → Option (Str × Value × Nat)
  | .refetched _ account sub revision | .reread _ account sub revision _ =>
    some (account, sub, revision)
  | _ => none

/-- What a handler inside its lock has fetched is no older than what a row of the
locked account was written from. -/
structure Fetched (w : World W) (account : Str) (sub : Value) (revision : Nat) : Prop where
  past : revision ≤ w.revision
  current : revision = w.revision → sub = w.stripe
  newer : ∀ m, w.row = some m → m.accountId = account → w.rowRevision ≤ revision

/-- What holds in every state. -/
structure Inv (p : Deployment) (w : World W) : Prop where
  exclusive : Exclusive w.locks
  holds : ∀ h handler, w.handlers h = some handler → ∀ account, handler.lock = some account →
    (account, h) ∈ w.locks
  fetched : ∀ h handler, w.handlers h = some handler → ∀ account sub revision,
    handler.fetch = some (account, sub, revision) → Fetched w account sub revision
  loaded : ∀ h handler, w.handlers h = some handler → ∀ d account sub revision m,
    handler = .reread d account sub revision (some m) → w.row = some m ∧ m.accountId = account
  recorded : (w.stripeEvents.map StripeEvent.stripeEventId).Nodup
  past : w.rowRevision ≤ w.revision
  current : ∀ m, w.row = some m → w.rowRevision = w.revision → Matches p.printing m w.stripe
  settled : w.settled = true → w.row.isSome = true ∧ w.rowRevision = w.revision

omit [DecidableEq W] in
theorem Fetched.transfer {w w' : World W} {account : Str} {sub : Value} {revision : Nat}
    (h : Fetched w account sub revision) (hrevision : w'.revision = w.revision)
    (hstripe : w'.stripe = w.stripe)
    (hrow : ∀ m, w'.row = some m → m.accountId = account → w'.rowRevision ≤ revision) :
    Fetched w' account sub revision where
  past := hrevision ▸ h.past
  current hr := hstripe ▸ h.current (hr.trans hrevision)
  newer := hrow

theorem Inv.goto {p : Deployment} {w : World W} (hi : Inv p w) (h : W) (handler : Handler)
    (hlock : ∀ account, handler.lock = some account → (account, h) ∈ w.locks)
    (hfetch : ∀ account sub revision, handler.fetch = some (account, sub, revision) →
      Fetched w account sub revision)
    (hloaded : ∀ d account sub revision m, handler = .reread d account sub revision (some m) →
      w.row = some m ∧ m.accountId = account) : Inv p (w.goto h handler) where
  exclusive := hi.exclusive
  holds := forall_put hi.holds (forall_moved hlock)
  fetched := forall_put
    (fun h' handler' hh account sub revision hf =>
      (hi.fetched h' handler' hh account sub revision hf).transfer rfl rfl
        (hi.fetched h' handler' hh account sub revision hf).newer)
    (forall_moved fun account sub revision hf =>
      (hfetch account sub revision hf).transfer rfl rfl (hfetch account sub revision hf).newer)
  loaded := forall_put hi.loaded (forall_moved hloaded)
  recorded := hi.recorded
  past := hi.past
  current := hi.current
  settled := hi.settled

/-- A handler ends, having written nothing to the row. -/
theorem Inv.leave {p : Deployment} {w : World W} (hi : Inv p w) (h : W) : Inv p (w.leave h) where
  exclusive := hi.exclusive.release h
  holds h' handler hh account hlock := by
    rcases put_cases hh with ⟨_, hnone⟩ | ⟨hne, hh⟩
    · cases hnone
    · exact mem_release hne (hi.holds h' handler hh account hlock)
  fetched := forall_put
    (fun h' handler hh account sub revision hf =>
      (hi.fetched h' handler hh account sub revision hf).transfer rfl rfl
        (hi.fetched h' handler hh account sub revision hf).newer)
    forall_gone
  loaded := forall_put hi.loaded forall_gone
  recorded := hi.recorded
  past := hi.past
  current := hi.current
  settled := hi.settled

omit [DecidableEq W] in
theorem Inv.record {p : Deployment} {w w' : World W} {d : Delivery} {account : Option Str}
    {outcome : Outcome} (hi : Inv p w) (hr : w.record d account outcome = some w') : Inv p w' := by
  obtain ⟨hfresh, rfl⟩ := record_eq_some hr
  exact {
    exclusive := hi.exclusive
    holds := hi.holds
    fetched := fun h handler hh account sub revision hf =>
      (hi.fetched h handler hh account sub revision hf).transfer rfl rfl
        (hi.fetched h handler hh account sub revision hf).newer
    loaded := hi.loaded
    recorded := List.nodup_cons.mpr ⟨hfresh, hi.recorded⟩
    past := hi.past
    current := hi.current
    settled := hi.settled }

/-- A handler that commits writes over the row it loaded, or creates it. -/
theorem Inv.commit {p : Deployment} {w w' : World W} {h : W} {d : Delivery} {account : Str}
    {sub : Value} {revision : Nat} {m : Option Membership} (hi : Inv p w)
    (hh : w.handlers h = some (.reread d account sub revision m))
    (hc : w.commit p d account sub revision m = some w') : Inv p (w'.leave h) := by
  obtain ⟨new, row, event, hnew, hwritten, hfresh, rfl⟩ := commit_eq_some hc
  obtain ⟨hpast, hcurrent, hnewer⟩ := hi.fetched h _ hh account sub revision rfl
  have hlock : (account, h) ∈ w.locks := hi.holds h _ hh account rfl
  obtain ⟨_, _, _, haccount, _⟩ := store_eq_some hnew
  -- the new row is the stored one, of the locked account, and no older than the one before
  have hrow : row = new ∧ row.accountId = account ∧ (w.row.isSome = true → w.rowRevision ≤ revision) := by
    cases m with
    | none =>
      cases hw : w.row with
      | none =>
        rw [hw] at hwritten
        obtain rfl := Option.some.inj hwritten
        exact ⟨rfl, haccount, by simp⟩
      | some current =>
        rw [hw] at hwritten
        cases hwritten
    | some loaded =>
      obtain ⟨hw, hloaded⟩ := hi.loaded h _ hh d account sub revision loaded rfl
      rw [hw] at hwritten
      obtain rfl := Option.some.inj hwritten
      rw [update_self]
      exact ⟨rfl, haccount.trans hloaded, fun _ => hnewer loaded hw hloaded⟩
  obtain ⟨rfl, hof, hle⟩ := hrow
  -- no other handler is inside the lock of this account
  have hother : ∀ h' handler, h' ≠ h → w.handlers h' = some handler →
      handler.lock ≠ some account := fun h' handler hne hh' hlock' =>
    hne (hi.exclusive account h' h (hi.holds h' handler hh' account hlock') hlock)
  exact {
    exclusive := hi.exclusive.release h
    holds := fun h' handler hh' account' hlock' => by
      rcases put_cases hh' with ⟨_, hnone⟩ | ⟨hne, hh'⟩
      · cases hnone
      · exact mem_release hne (hi.holds h' handler hh' account' hlock')
    fetched := fun h' handler hh' account' sub' revision' hf => by
      rcases put_cases hh' with ⟨_, hnone⟩ | ⟨hne, hh'⟩
      · cases hnone
      · refine (hi.fetched h' handler hh' account' sub' revision' hf).transfer rfl rfl ?_
        intro m' hm' hm'account
        obtain rfl := Option.some.inj hm'
        refine absurd ?_ (hother h' handler hne hh')
        rw [← hof, hm'account]
        cases handler <;> simp [Handler.fetch] at hf
        · simp [Handler.lock, hf.1]
        · simp [Handler.lock, hf.1]
    loaded := fun h' handler hh' d' account' sub' revision' m' hhandler => by
      rcases put_cases hh' with ⟨_, hnone⟩ | ⟨hne, hh'⟩
      · cases hnone
      · obtain ⟨hw, hm'⟩ := hi.loaded h' handler hh' d' account' sub' revision' m' hhandler
        -- the row it has loaded is of the account it has locked, and so is this one
        have hsame : row.accountId = m'.accountId := by
          rw [hw] at hwritten
          exact written_accountId hnew hwritten
        refine absurd ?_ (hother h' handler hne hh')
        rw [hhandler, ← hof, hsame, hm']
        rfl
    recorded := List.nodup_cons.mpr ⟨hfresh, hi.recorded⟩
    past := hpast
    current := fun m' hm' hrev => by
      obtain rfl := Option.some.inj hm'
      have hsub : sub = w.stripe := hcurrent hrev
      rw [← hsub]
      exact store_matches hnew
    settled := fun hs => by
      refine ⟨rfl, ?_⟩
      rcases Bool.or_eq_true_iff.mp hs with hs | hs
      · obtain ⟨hsome, heq⟩ := hi.settled hs
        exact le_antisymm hpast (heq ▸ hle hsome)
      · exact of_decide_eq_true hs }

/-- The account a handler has locked that is about to read the row again. -/
def Handler.rereads : Handler → Option Str
  | .refetched _ account _ _ => some account
  | _ => none

/-- A handler that reads the row again inside its lock finds none, or one of the
account it has locked. -/
def FindsItsOwn (w : World W) : Label W → Prop
  | .advance h => ∀ account ∈ (w.handlers h).bind Handler.rereads, ∀ m ∈ w.row, m.accountId = account
  | _ => True

instance decidableFindsItsOwn (w : World W) : ∀ l : Label W, Decidable (FindsItsOwn w l)
  | .advance h => inferInstanceAs (Decidable
      (∀ account ∈ (w.handlers h).bind Handler.rereads, ∀ m ∈ w.row, m.accountId = account))
  | .change _ | .receive _ _ _ | .fail _ => isTrue trivial

omit [DecidableEq W] in
/-- The subscription changes: what was fetched before is no longer the newest. -/
theorem Inv.change {p : Deployment} {w : World W} (hi : Inv p w) (sub : Value) :
    Inv p { w with stripe := sub, revision := w.revision + 1, settled := false } where
  exclusive := hi.exclusive
  holds := hi.holds
  fetched := fun h handler hh account sub' revision hf =>
    ⟨Nat.le_succ_of_le (hi.fetched h handler hh account sub' revision hf).past,
      fun hr => absurd (hi.fetched h handler hh account sub' revision hf).past
        (by rw [hr]; exact Nat.not_succ_le_self _),
      (hi.fetched h handler hh account sub' revision hf).newer⟩
  loaded := hi.loaded
  recorded := hi.recorded
  past := Nat.le_succ_of_le hi.past
  current := fun m _ hr => absurd hi.past (by rw [hr]; exact Nat.not_succ_le_self _)
  settled := fun h => by cases h

theorem Inv.acquire {p : Deployment} {w : World W} {h : W} {account : Str} (hi : Inv p w)
    (hfree : free w.locks account h = true) : Inv p { w with locks := acquire w.locks account h } where
  exclusive := hi.exclusive.acquire hfree
  holds := fun h' handler hh account' hlock => mem_acquire (hi.holds h' handler hh account' hlock)
  fetched := fun h' handler hh account' sub revision hf =>
    (hi.fetched h' handler hh account' sub revision hf).transfer rfl rfl
      (hi.fetched h' handler hh account' sub revision hf).newer
  loaded := hi.loaded
  recorded := hi.recorded
  past := hi.past
  current := hi.current
  settled := hi.settled

/-- A handler that has locked nothing and read nothing that it is to keep. -/
structure Handler.Starts (handler : Handler) : Prop where
  lock : handler.lock = none
  fetch : handler.fetch = none
  loaded : ∀ d account sub revision m, handler ≠ .reread d account sub revision (some m)

theorem Inv.starts {p : Deployment} {w : World W} (hi : Inv p w) (h : W) {handler : Handler}
    (hstarts : handler.Starts) : Inv p (w.goto h handler) :=
  hi.goto h handler (by simp [hstarts.lock]) (by simp [hstarts.fetch])
    fun d a s r m heq => absurd heq (hstarts.loaded d a s r m)

theorem starts_recording (d : Delivery) (account : Option Str) (outcome : Outcome) :
    (Handler.recording d account outcome).Starts := ⟨rfl, rfl, by simp⟩

/-- An event that arrives starts a handler at most. -/
theorem receive_cases {p : Deployment} {w w' : World W} {h : W} {event : Value} {now : Time}
    (hs : step p w (.receive h event now) = some w') :
    w' = w ∨ ∃ handler, handler.Starts ∧ w' = w.goto h handler := by
  rw [step] at hs
  split at hs
  · exact .inl (Option.some.inj hs).symm
  · rename_i d concern _ _
    split at hs
    · exact .inl (Option.some.inj hs).symm
    · refine .inr ?_
      cases concern with
      | nothing => exact ⟨_, starts_recording d none .ignored, (Option.some.inj hs).symm⟩
      | sync sub =>
        cases sub with
        | none => exact ⟨_, starts_recording d none .unmatched, (Option.some.inj hs).symm⟩
        | some sub =>
          simp only at hs
          split at hs
          · exact ⟨.checked d, ⟨rfl, rfl, by simp⟩, (Option.some.inj hs).symm⟩
          · cases hs
  · cases hs

theorem Inv.advance {p : Deployment} {w w' : World W} {h : W} (hi : Inv p w)
    (hok : FindsItsOwn w (.advance h)) (hs : step p w (.advance h) = some w') : Inv p w' := by
  rw [step] at hs
  split at hs
  · cases hs
  · obtain rfl := Option.some.inj hs
    exact hi.starts h ⟨rfl, rfl, by simp⟩
  · split at hs
    · obtain rfl := Option.some.inj hs
      exact hi.starts h (starts_recording _ _ _)
    · obtain rfl := Option.some.inj hs
      exact hi.starts h ⟨rfl, rfl, by simp⟩
  · rename_i d account _
    split at hs
    · split at hs
      · rename_i hfree
        obtain rfl := Option.some.inj hs
        refine (hi.acquire hfree).goto h (.locked d account) ?_ (by simp [Handler.fetch]) (by simp)
        intro account' hlock
        obtain rfl := Option.some.inj hlock
        exact acquired _ _ _
      · cases hs
    · obtain rfl := Option.some.inj hs
      exact hi.starts h (starts_recording _ _ _)
  · rename_i d account hh
    obtain rfl := Option.some.inj hs
    refine hi.goto h _ (hi.holds h (.locked d account) hh) ?_ (by simp)
    intro account' sub revision hf
    obtain ⟨rfl, rfl, rfl⟩ : account = account' ∧ w.stripe = sub ∧ w.revision = revision := by
      simpa [Handler.fetch] using hf
    exact ⟨le_rfl, fun _ => rfl, fun _ _ _ => hi.past⟩
  · rename_i d account sub revision hh
    obtain rfl := Option.some.inj hs
    refine hi.goto h _ (hi.holds h (.refetched d account sub revision) hh)
      (hi.fetched h (.refetched d account sub revision) hh) ?_
    intro d' account' sub' revision' m heq
    obtain ⟨_, rfl, _, _, hrow⟩ := Handler.reread.inj heq
    exact ⟨hrow, hok account (by rw [hh]; rfl) m hrow⟩
  · rename_i d account sub revision m hh
    obtain rfl := Option.some.inj hs
    cases hc : w.commit p d account sub revision m with
    | none => exact hi.leave h
    | some w' => exact hi.commit hh hc
  · rename_i d account outcome hh
    obtain rfl := Option.some.inj hs
    cases hr : w.record d account outcome with
    | none => exact hi.leave h
    | some w' => exact (hi.record hr).leave h

theorem step_inv {p : Deployment} {w w' : World W} {l : Label W} (hi : Inv p w)
    (hok : FindsItsOwn w l) (hs : step p w l = some w') : Inv p w' := by
  cases l with
  | change sub =>
    obtain rfl := Option.some.inj hs
    exact hi.change sub
  | receive h event now =>
    rcases receive_cases hs with rfl | ⟨handler, hstarts, rfl⟩
    · exact hi
    · exact hi.starts h hstarts
  | advance h => exact hi.advance hok hs
  | fail h =>
    rw [step] at hs
    split at hs
    · obtain rfl := Option.some.inj hs
      exact hi.leave h
    · cases hs

/-! ## Runs -/

/-- The account of the row, once there is one. -/
theorem step_accountId {p : Deployment} {w w' : World W} {l : Label W} (hs : step p w l = some w')
    {m : Membership} (hm : w.row = some m) : ∃ m', w'.row = some m' ∧ m'.accountId = m.accountId := by
  have hkeep : ∀ w₁ : World W, w₁.row = w.row → ∃ m', w₁.row = some m' ∧ m'.accountId = m.accountId :=
    fun w₁ h => ⟨m, h.trans hm, rfl⟩
  cases l with
  | change sub =>
    obtain rfl := Option.some.inj hs
    exact hkeep _ rfl
  | receive h event now =>
    rcases receive_cases hs with rfl | ⟨handler, -, rfl⟩
    · exact hkeep _ rfl
    · exact hkeep _ rfl
  | advance h =>
    rw [step] at hs
    split at hs
    · cases hs
    · obtain rfl := Option.some.inj hs
      exact hkeep _ rfl
    · split at hs <;> obtain rfl := Option.some.inj hs <;> exact hkeep _ rfl
    · split at hs
      · split at hs
        · obtain rfl := Option.some.inj hs
          exact hkeep _ rfl
        · cases hs
      · obtain rfl := Option.some.inj hs
        exact hkeep _ rfl
    · obtain rfl := Option.some.inj hs
      exact hkeep _ rfl
    · obtain rfl := Option.some.inj hs
      exact hkeep _ rfl
    · rename_i d account sub revision loaded _
      obtain rfl := Option.some.inj hs
      cases hc : w.commit p d account sub revision loaded with
      | none => exact hkeep _ rfl
      | some w' =>
        obtain ⟨new, row, event, hnew, hwritten, _, rfl⟩ := commit_eq_some hc
        rw [hm] at hwritten
        exact ⟨row, rfl, written_accountId hnew hwritten⟩
    · rename_i d account outcome _
      obtain rfl := Option.some.inj hs
      cases hr : w.record d account outcome with
      | none => exact hkeep _ rfl
      | some w' =>
        obtain ⟨_, rfl⟩ := record_eq_some hr
        exact hkeep _ rfl
  | fail h =>
    rw [step] at hs
    split at hs
    · obtain rfl := Option.some.inj hs
      exact hkeep _ rfl
    · cases hs

/-- A subscription that no event has been received for. -/
def World.new (stripe : Value) : World W := ⟨stripe, 0, none, 0, [], [], idle, false⟩

omit [DecidableEq W] in
theorem inv_new (p : Deployment) (stripe : Value) : Inv p (World.new stripe : World W) where
  exclusive := exclusive_nil
  holds _ _ hh := by cases hh
  fetched _ _ hh := by cases hh
  loaded _ _ hh := by cases hh
  recorded := List.nodup_nil
  past := le_rfl
  current _ hm := by cases hm
  settled hs := by cases hs

/-- **Deliveries converge**, whatever their order and overlap, in every run whose
handlers find the row they have locked the account of: the row is Stripe's once
a handler has committed what it fetched inside its lock after Stripe's last
change; no event is recorded twice; the account of the row stays; and a handler
that fails writes nothing. -/
theorem deliveries_converge {p : Deployment} {stripe : Value} {ls ls' : List (Label W)}
    {w w' : World W} (hok : Along (step p) FindsItsOwn (World.new stripe) (ls ++ ls'))
    (hrun : exec (step p) (World.new stripe) ls = some w) (hrun' : exec (step p) w ls' = some w') :
    (w'.settled = true → ∃ m, w'.row = some m ∧ Matches p.printing m w'.stripe) ∧
    (w'.stripeEvents.map StripeEvent.stripeEventId).Nodup ∧
    (∀ m, w.row = some m → ∃ m', w'.row = some m' ∧ m'.accountId = m.accountId) ∧
    ∀ h w'', step p w' (.fail h) = some w'' →
      w''.row = w'.row ∧ w''.stripeEvents = w'.stripeEvents := by
  have hall : exec (step p) (World.new stripe) (ls ++ ls') = some w' := by
    rw [exec_append, hrun]
    exact hrun'
  have hi : Inv p w' := exec_invariant (fun _ _ _ hi hok hs => step_inv hi hok hs) (inv_new p stripe)
    hok hall
  refine ⟨fun hs => ?_, hi.recorded, ?_, fun h w'' hs => ?_⟩
  · obtain ⟨hsome, hcurrent⟩ := hi.settled hs
    obtain ⟨m, hm⟩ := Option.isSome_iff_exists.mp hsome
    exact ⟨m, hm, hi.current m hm hcurrent⟩
  · refine exec_relates (R := fun w w' => ∀ m, w.row = some m →
      ∃ m', w'.row = some m' ∧ m'.accountId = m.accountId) ?_ ?_ ?_ ls' w w'
      (along_of_mem ls' w fun _ _ _ => trivial) hrun'
    · exact fun w m hm => ⟨m, hm, rfl⟩
    · intro a b c hab hbc m hm
      obtain ⟨m₁, hm₁, ha₁⟩ := hab m hm
      obtain ⟨m₂, hm₂, ha₂⟩ := hbc m₁ hm₁
      exact ⟨m₂, hm₂, ha₂.trans ha₁⟩
    · exact fun w l w' (_ : True) hs m hm => step_accountId hs hm
  · rw [step] at hs
    split at hs
    · obtain rfl := Option.some.inj hs
      exact ⟨rfl, rfl⟩
    · cases hs

/-! ## Two deliveries -/

def twoAccounts : Deployment where
  printing := .ascii
  subId := "sub_1".toList
  users := ["usr_a".toList, "usr_b".toList]
  graceDays := 7

def subscription (status account : String) : Value :=
  .dict [("status".toList, .str status.toList),
    ("metadata".toList, .dict [("account_id".toList, .str account.toList)])]

def updated (id : String) : Value :=
  .dict [("id".toList, .str id.toList), ("type".toList, .str "customer.subscription.updated".toList),
    ("data".toList, .dict [("object".toList, .dict [("id".toList, .str "sub_1".toList)])])]

/-- The first handler has fetched inside its lock, the subscription is canceled,
the second handler waits for the lock and the first one commits. -/
def canceledMeanwhile : List (Label Bool) :=
  (.receive true (updated "evt_1") 0 :: List.replicate 4 (.advance true) : List (Label Bool)) ++
    [.change (subscription "canceled" "usr_a"), .receive false (updated "evt_2") 1,
      .advance false, .advance false, .advance true, .advance true]

theorem deliveries_converge_canceled :
    ∃ w, exec (step twoAccounts) (World.new (subscription "active" "usr_a"))
      (canceledMeanwhile ++ List.replicate 4 (.advance false)) = some w ∧
      ∃ m, w.row = some m ∧ Matches .ascii m w.stripe := by
  have hok : Along (step twoAccounts) FindsItsOwn (World.new (subscription "active" "usr_a"))
      (canceledMeanwhile ++ List.replicate 4 (.advance false)) := by decide +kernel
  have hfirst : (exec (step twoAccounts) (World.new (subscription "active" "usr_a"))
      canceledMeanwhile).isSome = true := by decide +kernel
  have hsecond : ∃ w ∈ exec (step twoAccounts) (World.new (subscription "active" "usr_a"))
      (canceledMeanwhile ++ List.replicate 4 (.advance false)), w.settled = true := by decide +kernel
  obtain ⟨w, hw⟩ := Option.isSome_iff_exists.mp hfirst
  obtain ⟨w', hw', hsettled⟩ := hsecond
  have hrest : exec (step twoAccounts) w (List.replicate 4 (.advance false)) = some w' := by
    have h := exec_append (step twoAccounts) (World.new (subscription "active" "usr_a"))
      canceledMeanwhile (List.replicate 4 (.advance false))
    rw [hw, Option.bind_some] at h
    exact h.symm.trans hw'
  exact ⟨w', hw', (deliveries_converge hok hw hrest).1 hsettled⟩

/-- The metadata moves to another account between two first fetches: the first
handler locks the old account, the second one the new, and the subscription is
canceled before the second one's fetch inside its lock. -/
def metadataMoves : List (Label Bool) :=
  ([.receive true (updated "evt_1") 0, .advance true, .advance true,
    .change (subscription "active" "usr_b"), .receive false (updated "evt_2") 1,
    .advance false, .advance false, .advance true, .advance true,
    .change (subscription "canceled" "usr_b")] : List (Label Bool)) ++ List.replicate 4 (.advance false) ++
    [.advance true, .advance true]

/-- The first handler writes what it has fetched over the second one's row. -/
theorem deliveries_diverge :
    ∃ w, exec (step twoAccounts) (World.new (subscription "active" "usr_a")) metadataMoves = some w ∧
      w.settled = true ∧ w.handlers true = none ∧ w.handlers false = none ∧
        ∃ m, w.row = some m ∧ ¬Matches .ascii m w.stripe := by
  have h : ∃ w ∈ exec (step twoAccounts) (World.new (subscription "active" "usr_a")) metadataMoves,
      w.settled = true ∧ (w.handlers true).isNone = true ∧ (w.handlers false).isNone = true ∧
        ∃ m ∈ w.row, statusOf .ascii w.stripe ≠ some m.status := by decide +kernel
  obtain ⟨w, hw, hsettled, htrue, hfalse, m, hm, hstatus⟩ := h
  exact ⟨w, hw, hsettled, Option.isNone_iff_eq_none.mp htrue, Option.isNone_iff_eq_none.mp hfalse,
    m, hm, fun hmatch => hstatus hmatch.1⟩

end CiteVyn.Billing
