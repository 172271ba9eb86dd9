import CiteVyn.Text.Values

/-! # The answer allowance

`app/access/quota.py`: how many answers an account has used and may still ask for. The
kind of allowance comes from `app/access/policy.py`, the numbers from the settings. -/
namespace CiteVyn.Access.Quota
open CiteVyn.Text

/-! ## Months -/

/-- A day in microseconds. -/
def day : Int := 86400000000

/-- The year, month and day of the month of a day, in days since the epoch. Years are
taken to begin in March, so that the leap day comes last. -/
def civil (days : Int) : Int × Int × Int :=
  let shifted := days + 719468
  let doe := shifted % 146097
  let yoe := (doe - doe / 1460 + doe / 36524 - doe / 146096) / 365
  let doy := doe - (365 * yoe + yoe / 4 - yoe / 100)
  let mp := (5 * doy + 2) / 153
  let month := if mp < 10 then mp + 3 else mp - 9
  (yoe + shifted / 146097 * 400 + (if month ≤ 2 then 1 else 0), month, doy - (153 * mp + 2) / 5 + 1)

/-- The first of a month, in days since the epoch. -/
def firstOf (year month : Int) : Int :=
  let y := if month ≤ 2 then year - 1 else year
  let yoe := y % 400
  let doy := (153 * (if month > 2 then month - 3 else month + 9) + 2) / 5
  y / 400 * 146097 + yoe * 365 + yoe / 4 - yoe / 100 + doy - 719468

/-- `month_start`. -/
def monthStart (now : Int) : Int := (now / day - ((civil (now / day)).2.2 - 1)) * day

/-- `_next_month`. -/
def nextMonth (start : Int) : Int :=
  match civil (start / day) with
  | (year, month, _) => (if month = 12 then firstOf (year + 1) 1 else firstOf year (month + 1)) * day

theorem civil_day_pos (days : Int) : 1 ≤ (civil days).2.2 := by
  unfold civil
  dsimp only
  omega

theorem monthStart_le (now : Int) : monthStart now ≤ now := by
  have hday := civil_day_pos (now / day)
  unfold monthStart
  unfold day at *
  omega

-- half past two on 1 March 2024
example : monthStart 1709260200000000 = 1709251200000000 ∧ nextMonth 1709251200000000 = 1711929600000000 := by
  decide

/-! ## The policy -/

inductive Capability where
  | public_
  | signIn
  | manageAccount
  | chat
  | history
  | exactSearch
  | feedback
  | billing
  | operate
  | weeklyDigest
  | mcpAsk
  | apiKeys
  | shareAnswer
  | usageInsights
  | watchAlerts
  | byok
  deriving DecidableEq, Repr

inductive Tier where
  | anonymous
  | free
  | pro
  deriving DecidableEq, Repr

/-- `Tier.value`. -/
def Tier.value : Tier → Str
  | .anonymous => "anonymous".toList
  | .free => "free".toList
  | .pro => "pro".toList

inductive Allowance where
  | none
  /-- the free trial -/
  | once
  | monthly
  deriving DecidableEq, Repr

/-- `_EVERYONE`. -/
def everyone : List Capability := [.public_, .signIn]

/-- `_ACCOUNT`. -/
def accountAdds : List Capability :=
  [.manageAccount, .chat, .history, .exactSearch, .feedback, .billing, .weeklyDigest]

/-- `_PRO`. -/
def proAdds : List Capability := [.mcpAsk, .apiKeys, .shareAnswer, .usageInsights, .watchAlerts, .byok]

/-- The capabilities of `POLICY`. -/
def Tier.capabilities : Tier → List Capability
  | .anonymous => everyone
  | .free => everyone ++ accountAdds
  | .pro => everyone ++ accountAdds ++ proAdds

/-- The allowances of `POLICY`. -/
def Tier.allowance : Tier → Allowance
  | .anonymous => .none
  | .free => .once
  | .pro => .monthly

/-- `has_capability`. -/
def hasCapability (tier : Tier) (capability : Capability) : Bool := capability ∈ tier.capabilities

/-! ## Addresses -/

/-- What is asked of the interpreter about addresses: `str.lower`, which has nothing left
to do once it is done, and the SHA-256 of a text. -/
structure Addressing where
  lower : Str → Str
  sha : Str → Str
  lower_lower : ∀ email, lower (strip (lower (strip email))) = lower (strip email)

/-- `strip().lower()`. -/
def Addressing.normal (a : Addressing) (email : Str) : Str := a.lower (strip email)

theorem normal_normal (a : Addressing) (email : Str) : a.normal (a.normal email) = a.normal email :=
  a.lower_lower email

/-- `email_hash`. -/
def emailHash (a : Addressing) (email : Str) : Str := a.sha (a.normal email)

/-- The case of ASCII letters, and SHA-256 of one address and of the others. -/
def exampleAddressing : Addressing where
  lower s := s.map Char.toLower
  sha s :=
    if s = "a@example.com".toList then
      "08168cd80dfd534ab0f10af10f1303fe00af2d43ab5c1432360d137f8197e17a".toList
    else s
  lower_lower email := by
    rw [strip_map isSpace_toLower, strip_strip, List.map_map]
    exact List.map_congr_left fun c _ => toLower_toLower c

/-! ## What has been used -/

/-- `User`. -/
structure User where
  userId : Str
  email : Option Str
  emailVerifiedAt : Option Int
  deriving DecidableEq, Repr

/-- `AnswerUsage`. -/
structure AnswerUsage where
  userId : Str
  occurredAt : Int
  paidBy : Str
  channel : Str
  tier : Str
  deriving DecidableEq, Repr

/-- `DeletedAccount`. -/
structure DeletedAccount where
  emailHash : Str
  trialAnswersUsed : Nat
  deletedAt : Int
  deriving DecidableEq, Repr

structure Settings where
  accessModelEnabled : Bool
  accessFreeTrialAnswers : Nat
  accessProMonthlyAnswers : Nat
  deriving DecidableEq, Repr

/-- `paid_by` of an answer that the platform pays for. -/
def platform : Str := "platform".toList

/-- `counted_rows`. -/
def countedRows (userId : Str) (since : Option Int) (row : AnswerUsage) : Bool :=
  row.userId = userId && row.paidBy = platform &&
    since.all fun since => since ≤ row.occurredAt && row.tier = Tier.pro.value

inductive Kind where
  | trial
  | monthly
  | none
  deriving DecidableEq, Repr

/-- `Usage`. -/
structure Usage where
  kind : Kind
  used : Nat
  limit : Nat
  resetsAt : Option Int
  verified : Bool
  deriving DecidableEq, Repr

def Usage.remaining (usage : Usage) : Nat := usage.limit - usage.used

/-- `since`. -/
def Allowance.since (allowance : Allowance) (now : Int) : Option Int :=
  match allowance with
  | .monthly => some (monthStart now)
  | _ => Option.none

/-- `user is not None and user.email_verified_at is not None`. -/
def isVerified (user : Option User) : Bool := user.any fun user => user.emailVerifiedAt.isSome

/-- `user.email`, if there is any. -/
def User.address (user : User) : Option Str := user.email.filter fun email => !email.isEmpty

/-- `carried`: what deleted accounts with the address of this one have used. -/
def carriedOver (a : Addressing) (stones : List DeletedAccount) (user : Option User) : Nat :=
  ((user.bind User.address).bind fun email =>
    stones.find? fun stone => stone.emailHash = emailHash a email).elim 0 DeletedAccount.trialAnswersUsed

variable (settings : Settings) (tier : Tier)

/-- `usage_for`, on what it reads: the account, the number of its rows that count and what
is carried over. -/
def usageOf (now : Int) (user : Option User) (used carried : Nat) : Usage :=
  let verified := isVerified user
  match tier.allowance with
  | .monthly =>
    ⟨.monthly, used, settings.accessProMonthlyAnswers, some (nextMonth (monthStart now)), verified⟩
  | .once =>
    ⟨.trial, used + carried, if verified then settings.accessFreeTrialAnswers else 0, Option.none, verified⟩
  | .none => ⟨.none, 0, 0, Option.none, verified⟩

/-- `usage_for`. -/
def usageFor (a : Addressing) (users : List User) (rows : List AnswerUsage) (stones : List DeletedAccount)
    (userId : Str) (now : Int) : Usage :=
  let user := users.find? fun user => user.userId = userId
  usageOf settings tier now user (rows.countP (countedRows userId (tier.allowance.since now))) (carriedOver a stones user)

/-! ## Refusals -/

/-- What stands in the details of an error. -/
inductive Detail where
  | text (s : Str)
  | number (n : Nat)
  /-- by `isoformat`, or null -/
  | time (at_ : Option Int)
  deriving DecidableEq, Repr

/-- An error response. -/
structure ApiError where
  code : Str
  message : Str
  details : List (Str × Detail)
  deriving DecidableEq, Repr

/-- `refuse_if_used_up`. -/
def refuseIfUsedUp (usage : Usage) : Except ApiError Unit :=
  if 0 < usage.remaining then .ok ()
  else if usage.kind = .trial ∧ usage.verified = false then
    .error ⟨"verification_required".toList, "Verify your email address to start your free questions.".toList, []⟩
  else if tier = .pro then
    .error ⟨"quota_exceeded".toList, "You have used this month's questions.".toList,
      [("used".toList, .number usage.used), ("limit".toList, .number usage.limit),
        ("resets_at".toList, .time usage.resetsAt)]⟩
  else
    .error ⟨"plan_required".toList, "You have used your free questions. Upgrade to Pro to keep asking.".toList,
      [("capability".toList, .text "chat".toList), ("required_tier".toList, .text Tier.pro.value),
        ("reason".toList, .text "trial_used".toList), ("used".toList, .number usage.used),
        ("limit".toList, .number usage.limit)]⟩

/-! ## Answers -/

/-- `value is False`. -/
def isFalse : Value → Bool
  | .bool b => !b
  | _ => false

/-- `is_counted_answer`. -/
def isCountedAnswer (response : Value) : Bool :=
  isFalse (response.get "no_answer") && isFalse (response.get "unsupported") &&
    match response.get "citations" with
    | .list items => !items.isEmpty
    | _ => false

inductive Channel where
  | chat
  | mcp
  deriving DecidableEq, Repr

def Channel.value : Channel → Str
  | .chat => "chat".toList
  | .mcp => "mcp".toList

/-- `usage_row`. -/
def usageRow (userId : Str) (now : Int) (channel : Channel) : AnswerUsage :=
  ⟨userId, now, platform, channel.value, tier.value⟩

/-! ## What the allowance counts -/

/-- The number that the tier has. -/
def allowanceLimit : Nat :=
  match tier.allowance with
  | .monthly => settings.accessProMonthlyAnswers
  | .once => settings.accessFreeTrialAnswers
  | .none => 0

theorem used_lt_limit_of_ok {tier : Tier} {usage : Usage} (h : refuseIfUsedUp tier usage = .ok ()) :
    usage.used < usage.limit := by
  have hremaining : 0 < usage.remaining := by
    by_contra hnone
    rw [refuseIfUsedUp, if_neg hnone] at h
    split_ifs at h
  exact Nat.lt_of_sub_pos hremaining

/-- A caller that is not refused has counted fewer than the tier has. -/
theorem used_lt_of_ok {settings : Settings} {tier : Tier} {now : Int} {user : Option User} {used carried : Nat}
    (h : refuseIfUsedUp tier (usageOf settings tier now user used carried) = .ok ()) :
    used < allowanceLimit settings tier := by
  have hless := used_lt_limit_of_ok h
  cases tier with
  | anonymous => exact absurd hless (lt_irrefl 0)
  | free =>
    change used + carried < (if isVerified user then settings.accessFreeTrialAnswers else 0) at hless
    change used < settings.accessFreeTrialAnswers
    split at hless <;> omega
  | pro => exact hless

/-- The row of an answer counts in the month of the answer. -/
theorem countedRows_usageRow {tier : Tier} (userId : Str) {now now' : Int} (channel : Channel)
    (h : tier.allowance = .monthly → monthStart now = monthStart now') :
    countedRows userId (tier.allowance.since now) (usageRow tier userId now' channel) = true := by
  cases tier with
  | anonymous => simp [countedRows, usageRow, Tier.allowance, Allowance.since]
  | free => simp [countedRows, usageRow, Tier.allowance, Allowance.since]
  | pro =>
    have hle := monthStart_le now'
    rw [← h rfl] at hle
    simp [countedRows, usageRow, Tier.allowance, Allowance.since, hle]

end CiteVyn.Access.Quota
