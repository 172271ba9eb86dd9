import CiteVyn.Text.Values

/-! # The membership row and what it grants

`_store`, `is_pro` and `account_is_pro` of `app/billing/memberships.py`. The
status follows the subscription; the grace of a failed payment follows the
history of statuses, and the entitlement reads both. -/
namespace CiteVyn.Billing
open CiteVyn.Text

/-- A UTC `datetime`, in microseconds since the epoch. -/
abbrev Time := Int

/-- `timedelta(days=1)`. -/
def day : Int := 86400000000

/-- The columns of a membership that the webhook writes. -/
structure Membership where
  accountId : Str
  plan : Str
  status : Str
  billingInterval : Option Str
  stripeCustomerId : Option Str
  currentPeriodEnd : Option Time
  cancelAtPeriodEnd : Bool
  graceUntil : Option Time
  createdAt : Time
  updatedAt : Time
  deriving DecidableEq, Repr

/-- `_PAID`. -/
def paidStatuses : List Str := ["active".toList, "trialing".toList]

def pastDue : Str := "past_due".toList

/-- `is_pro`. -/
def isPro (membership : Option Membership) (now : Time) : Bool :=
  match membership with
  | none => false
  | some m =>
    if m.status ∈ paidStatuses then true
    else
      match m.graceUntil with
      | some grace => m.status = pastDue && now < grace
      | none => false

/-- `account_is_pro`. -/
def accountIsPro (memberships : List Membership) (now : Time) : Bool :=
  memberships.any fun m => isPro (some m) now

/-- `_first_item`. -/
def firstItem (sub : Value) : Value :=
  match (sub.get "items").get "data" with
  | .list (item :: _) => item
  | _ => .none

/-- `int(raw)` where `raw` is an `int | float`; `none` raises. -/
def number : Value → Option (Option Int)
  | .bool b => some (some b.toNat)
  | .int n => some (some n)
  | .float x => x.toInt.map some
  | _ => some none

/-- `datetime.fromtimestamp(_, UTC)`; a year outside 1 to 9999 raises. -/
def fromTimestamp (seconds : Int) : Option Time :=
  if -62135596800 ≤ seconds ∧ seconds ≤ 253402300799 then some (seconds * 1000000) else none

/-- `+ timedelta(days=_)`; a year outside 1 to 9999 raises. -/
def addDays (t : Time) (days : Int) : Option Time :=
  let t := t + days * day
  if -62135596800000000 ≤ t ∧ t ≤ 253402300799999999 then some t else none

/-- `_period_end`; `none` raises. -/
def periodEnd (sub : Value) : Option (Option Time) :=
  let raw := match sub.get "current_period_end" with
    | .none => (firstItem sub).get "current_period_end"
    | raw => raw
  (number raw).bind fun seconds =>
    match seconds with
    | none => some none
    | some seconds => (fromTimestamp seconds).map some

/-- `_interval`. -/
def interval (sub : Value) : Option Str :=
  (((firstItem sub).get "price").get "recurring").get "interval" |>.str?

/-- The status that `_store` writes; `none` raises. -/
def statusOf (p : Printing) (sub : Value) : Option Str :=
  let status := sub.get "status"
  if status.truthy then pyStr p status else some "incomplete".toList

/-- The flag that `_store` writes. -/
def cancelOf (sub : Value) : Bool :=
  (sub.get "cancel_at_period_end").truthy ||
    match sub.get "cancel_at" with
    | .none => false
    | _ => true

/-- `_claimed_account`. -/
def claimedAccount (sub : Value) : Option Str := ((sub.get "metadata").get "account_id").str?

/-- The row that `_sync` adds for a new subscription, before `_store`. -/
def newMembership (account : Str) (now : Time) : Membership where
  accountId := account
  plan := "pro".toList
  status := []
  billingInterval := none
  stripeCustomerId := none
  currentPeriodEnd := none
  cancelAtPeriodEnd := false
  graceUntil := none
  createdAt := now
  updatedAt := now

/-- The deadline that `_store` writes: a retry does not restart it; `none`
raises. -/
def graceAfter (graceUntil : Option Time) (status : Str) (now : Time) (graceDays : Int) :
    Option (Option Time) :=
  if status = pastDue then
    match graceUntil with
    | none => (addDays now graceDays).map some
    | some grace => some (some grace)
  else some none

/-- `_store`; `none` raises, and the transaction is rolled back. -/
def store (p : Printing) (m : Membership) (sub : Value) (now : Time) (graceDays : Int) :
    Option Membership := do
  let status ← statusOf p sub
  let currentPeriodEnd ← periodEnd sub
  let graceUntil ← graceAfter m.graceUntil status now graceDays
  return { m with
    status := status
    billingInterval := interval sub
    stripeCustomerId := (sub.get "customer").str?
    currentPeriodEnd := currentPeriodEnd
    cancelAtPeriodEnd := cancelOf sub
    graceUntil := graceUntil
    updatedAt := now }

theorem graceAfter_eq_some {grace grace' : Option Time} {status : Str} {now : Time} {graceDays : Int}
    (h : graceAfter grace status now graceDays = some grace') :
    grace' = if status = pastDue then some (grace.getD (now + graceDays * day)) else none := by
  unfold graceAfter at h
  split at h
  · rename_i hdue
    rw [if_pos hdue]
    cases grace with
    | some t => exact (Option.some.inj h).symm
    | none =>
      obtain ⟨t, ht, rfl⟩ := Option.map_eq_some_iff.mp h
      simp only [addDays] at ht
      split at ht
      · rw [← Option.some.inj ht]
        rfl
      · cases ht
  · rename_i hdue
    rw [if_neg hdue]
    exact (Option.some.inj h).symm

/-- What an application that does not raise writes. -/
theorem store_eq_some {p : Printing} {m m' : Membership} {sub : Value} {now : Time} {graceDays : Int}
    (h : store p m sub now graceDays = some m') :
    statusOf p sub = some m'.status ∧ periodEnd sub = some m'.currentPeriodEnd ∧
      m'.cancelAtPeriodEnd = cancelOf sub ∧ m'.accountId = m.accountId ∧
      m'.graceUntil =
        if m'.status = pastDue then some (m.graceUntil.getD (now + graceDays * day)) else none := by
  obtain ⟨status, hstatus, h⟩ := Option.bind_eq_some_iff.mp h
  obtain ⟨currentPeriodEnd, hend, h⟩ := Option.bind_eq_some_iff.mp h
  obtain ⟨graceUntil, hgrace, h⟩ := Option.bind_eq_some_iff.mp h
  obtain rfl := Option.some.inj h
  exact ⟨hstatus, hend, rfl, rfl, graceAfter_eq_some hgrace⟩

/-! ## A history of applications -/

/-- A row, with the statuses that were stored and when, newest first. -/
structure History where
  membership : Membership
  stored : List (Str × Time)

/-- One application of `_store` to a row. -/
def History.apply (p : Printing) (graceDays : Int) (h : History) (application : Value × Time) : History :=
  match store p h.membership application.1 application.2 graceDays with
  | some m => ⟨m, (m.status, application.2) :: h.stored⟩
  | none => h

/-- The time of the first of the applications since which every status was past
due. -/
def pastDueSince : List (Str × Time) → Option Time
  | [] => none
  | (status, t) :: older => if status = pastDue then some ((pastDueSince older).getD t) else none

/-- An unbroken run of `past_due` counts from its first application. -/
theorem pastDueSince_run {newer older : List (Str × Time)} {t : Time}
    (hnewer : ∀ s ∈ newer, s.1 = pastDue) (holder : pastDueSince older = none) :
    pastDueSince (newer ++ (pastDue, t) :: older) = some t := by
  induction newer with
  | nil => simp [pastDueSince, holder]
  | cons s newer ih =>
    obtain ⟨hs, hrest⟩ := List.forall_mem_cons.mp hnewer
    rw [List.cons_append, pastDueSince, if_pos hs, ih hrest, Option.getD_some]

/-- What a row's status and grace say about its history. -/
structure Tracks (graceDays : Int) (h : History) : Prop where
  status : h.membership.status = (h.stored.head?.map Prod.fst).getD []
  grace : h.membership.graceUntil = (pastDueSince h.stored).map (· + graceDays * day)

theorem Tracks.apply {p : Printing} {graceDays : Int} {h : History} (ht : Tracks graceDays h)
    (application : Value × Time) : Tracks graceDays (h.apply p graceDays application) := by
  unfold History.apply
  split
  · rename_i m hm
    obtain ⟨_, _, _, _, hgrace⟩ := store_eq_some hm
    refine ⟨rfl, ?_⟩
    rw [hgrace, ht.grace]
    simp only [pastDueSince]
    by_cases hdue : m.status = pastDue
    · rw [if_pos hdue, if_pos hdue]
      cases pastDueSince h.stored <;> rfl
    · rw [if_neg hdue, if_neg hdue]
      rfl
  · exact ht

end CiteVyn.Billing
