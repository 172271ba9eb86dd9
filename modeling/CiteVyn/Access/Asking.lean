import CiteVyn.Access.Quota
import CiteVyn.Lib.Runs

/-! # Asking within the allowance

`post_message` of `app/api/routes/messages.py` and `_ask_docs` of
`app/api/routes/mcp.py`, for the requests of one account at one tier. A request counts
what has been used and is answered later; the row of the answer is committed with it. -/
namespace CiteVyn.Access.Asking
open CiteVyn.Access.Quota CiteVyn.Lib.Runs CiteVyn.Text

/-- How a request ends. -/
inductive Outcome where
  | refused (e : ApiError)
  | toolError (text : Str)
  /-- anything else is raised -/
  | failed
  /-- the commit has landed -/
  | replied (response : Value) (row : Option AnswerUsage)

/-- Where a request is. -/
inductive Place where
  | arrived (channel : Channel)
  /-- it has read the account -/
  | identified (channel : Channel) (now : Int) (user : Option User)
  /-- and counted its rows -/
  | counted (channel : Channel) (now : Int) (user : Option User) (used : Nat)
  /-- the orchestrator is at work; an answer to a metered request gets a row -/
  | answering (channel : Channel) (metered : Bool)
  | answered (channel : Channel) (metered : Bool) (response : Value)
  | ended (outcome : Outcome)

def Place.inFlight : Place → Bool
  | .ended _ => false
  | _ => true

structure Server where
  /-- the account's row of `users` -/
  user : Option User
  stones : List DeletedAccount
  /-- `answer_usage` -/
  rows : List AnswerUsage
  /-- the requests of the account so far -/
  requests : List Place
  /-- the largest number of them that have been in flight at once; nothing reads it -/
  peak : Nat

inductive Label where
  | arrive (channel : Channel)
  /-- the account's row and the tombstones change -/
  | edit (user : Option User) (stones : List DeletedAccount)
  /-- an answer to another account -/
  | other (row : AnswerUsage)
  /-- the request reads the account, its rows and the tombstone, in turn -/
  | read (i : Nat) (now : Int)
  /-- a rate limit stops it -/
  | limit (i : Nat)
  | answer (i : Nat) (response : Value)
  | commit (i : Nat) (now : Int)
  | fail (i : Nat)

variable (settings : Settings) (a : Addressing) (tier : Tier) (userId : Str)

def Server.goto (s : Server) (i : Nat) (p : Place) : Server := { s with requests := s.requests.set i p }

/-- A chat request that reaches its handler without an account. -/
def authRequired : ApiError := ⟨"auth_required".toList, "Sign in to use this.".toList, []⟩

def needsPro : Str :=
  "The CiteVyn MCP server needs a Pro plan. Upgrade to Pro on the CiteVyn site.".toList

def monthUsed : Str := "You have used this month's questions. They come back on the 1st.".toList

def tooQuickly : Str := "Too many questions too quickly. Try again in a few minutes.".toList

/-- A request that has arrived reads the account, unless it is let through or turned away. -/
def Channel.next (now : Int) (user : Option User) : Channel → Place
  | .chat =>
    if settings.accessModelEnabled = false then .answering .chat false
    else if tier = .anonymous then .ended (.refused authRequired)
    else .identified .chat now user
  | .mcp => if hasCapability tier .mcpAsk then .identified .mcp now user else .ended (.toolError needsPro)

/-- The check of a request that has counted. -/
def checked (channel : Channel) (usage : Usage) : Place :=
  match refuseIfUsedUp tier usage, channel with
  | .ok (), channel => .answering channel true
  | .error e, .chat => .ended (.refused e)
  | .error _, .mcp => .ended (.toolError monthUsed)

/-- The row that is committed with a response. -/
def rowOf (channel : Channel) (metered : Bool) (response : Value) (now : Int) : Option AnswerUsage :=
  if metered && isCountedAnswer response then some (usageRow tier userId now channel) else none

def step (s : Server) : Label → Option Server
  | .arrive channel =>
    let requests := s.requests ++ [.arrived channel]
    some { s with requests := requests, peak := max s.peak (requests.countP Place.inFlight) }
  | .edit user stones => some { s with user := user, stones := stones }
  | .other row => if row.userId = userId then none else some { s with rows := s.rows ++ [row] }
  | .read i now =>
    match s.requests[i]? with
    | some (.arrived channel) => some (s.goto i (Channel.next settings tier now s.user channel))
    | some (.identified channel now user) =>
      some (s.goto i (.counted channel now user (s.rows.countP (countedRows userId (tier.allowance.since now)))))
    | some (.counted channel now user used) =>
      some (s.goto i (checked tier channel (usageOf settings tier now user used (carriedOver a s.stones user))))
    | _ => none
  | .limit i =>
    match s.requests[i]? with
    | some (.answering .mcp _) => some (s.goto i (.ended (.toolError tooQuickly)))
    | _ => none
  | .answer i response =>
    match s.requests[i]? with
    | some (.answering channel metered) => some (s.goto i (.answered channel metered response))
    | _ => none
  | .commit i now =>
    match s.requests[i]? with
    | some (.answered channel metered response) =>
      some { s.goto i (.ended (.replied response (rowOf tier userId channel metered response now))) with
        rows := s.rows ++ (rowOf tier userId channel metered response now).toList }
    | _ => none
  | .fail i =>
    match s.requests[i]? with
    | some p => if p.inFlight then some (s.goto i (.ended .failed)) else none
    | none => none

/-- Nothing has been asked yet. -/
def Server.new (user : Option User) (stones : List DeletedAccount) (rows : List AnswerUsage) : Server :=
  ⟨user, stones, rows, [], 0⟩

/-- The times of a step are in the period of `start`. -/
def inPeriod (start : Int) : Label → Prop
  | .read _ now | .commit _ now => tier.allowance = .monthly → monthStart now = monthStart start
  | _ => True

instance (start : Int) : (l : Label) → Decidable (inPeriod tier start l)
  | .read _ now | .commit _ now =>
    inferInstanceAs (Decidable (tier.allowance = .monthly → monthStart now = monthStart start))
  | .arrive _ | .edit _ _ | .other _ | .limit _ | .answer _ _ | .fail _ => isTrue trivial

/-! ## Requests that may still add a row -/

/-- The request has counted fewer than the tier has. -/
def Place.pending : Place → Bool
  | .counted _ _ _ used => used < allowanceLimit settings tier
  | .answering _ metered | .answered _ metered _ => metered
  | _ => false

/-- The request has added a row. -/
def Place.paid : Place → Bool
  | .ended (.replied _ (some _)) => true
  | _ => false

section

variable {settings : Settings} {a : Addressing} {tier : Tier} {userId : Str} {start : Int} {s s' : Server}
  {l : Label} {i : Nat} {p q : Place}

theorem pending_inFlight (h : p.pending settings tier = true) : p.inFlight = true := by
  cases p with
  | ended _ => cases h
  | _ => rfl

/-- One request moves. -/
theorem countP_goto (f : Place → Bool) (h : s.requests[i]? = some p) :
    (s.goto i q).requests.countP f + (f p).toNat = s.requests.countP f + (f q).toNat := by
  obtain ⟨hlt, rfl⟩ := List.getElem?_eq_some_iff.mp h
  have hset := List.countP_set (p := f) (a := q) hlt
  have htoNat : ∀ b : Bool, (if b then 1 else 0) = b.toNat := fun b => by cases b <;> rfl
  have hpos : (f s.requests[i]).toNat ≤ s.requests.countP f := by
    cases hf : f s.requests[i] with
    | false => exact Nat.zero_le _
    | true => exact List.countP_pos_iff.mpr ⟨_, List.getElem_mem hlt, hf⟩
  rw [htoNat, htoNat] at hset
  rw [Server.goto, hset]
  omega

theorem since_eq {now : Int} (h : tier.allowance = .monthly → monthStart now = monthStart start) :
    tier.allowance.since now = tier.allowance.since start := by
  cases hallowance : tier.allowance with
  | monthly => rw [Allowance.since, Allowance.since, h hallowance]
  | once => rfl
  | none => rfl

variable (settings tier userId start) in
/-- What the requests of a period have counted and may still add. -/
structure Inv (s : Server) : Prop where
  bound : s.rows.countP (countedRows userId (tier.allowance.since start)) +
      s.requests.countP (Place.pending settings tier) = 0 ∨
    s.rows.countP (countedRows userId (tier.allowance.since start)) +
      s.requests.countP (Place.pending settings tier) + 1 ≤ allowanceLimit settings tier + s.peak
  peak : s.requests.countP Place.inFlight ≤ s.peak
  ledger : s.rows.countP (countedRows userId (tier.allowance.since start)) = s.requests.countP Place.paid
  period : ∀ channel now user, .identified channel now user ∈ s.requests →
    tier.allowance.since now = tier.allowance.since start
  counted : ∀ response row, .ended (.replied response (some row)) ∈ s.requests → isCountedAnswer response = true

theorem Inv.new {user : Option User} {stones : List DeletedAccount} {rows : List AnswerUsage}
    (h : rows.countP (countedRows userId (tier.allowance.since start)) = 0) :
    Inv settings tier userId start (Server.new user stones rows) where
  bound := .inl (by rw [Server.new, h]; rfl)
  peak := le_refl _
  ledger := h
  period := fun _ _ _ h => by cases h
  counted := fun _ _ h => by cases h

/-- A request moves on, and no row is added: it goes on, or it is admitted below the limit,
or it may add nothing any more. -/
theorem Inv.goto (hi : Inv settings tier userId start s) (hp : s.requests[i]? = some p)
    (hflight : q.inFlight = true → p.inFlight = true)
    (hpending : q.pending settings tier = true → p.pending settings tier = true ∨
      s.rows.countP (countedRows userId (tier.allowance.since start)) < allowanceLimit settings tier)
    (hpaid : q.paid = p.paid)
    (hperiod : ∀ channel now user, q = .identified channel now user →
      tier.allowance.since now = tier.allowance.since start)
    (hcounted : ∀ response row, q = .ended (.replied response (some row)) → isCountedAnswer response = true) :
    Inv settings tier userId start (s.goto i q) := by
  have hpeak : (s.goto i q).requests.countP Place.inFlight ≤ s.peak := by
    have hmoved := countP_goto (q := q) Place.inFlight hp
    have hle : q.inFlight.toNat ≤ p.inFlight.toNat := by
      cases hq : q.inFlight with
      | false => exact Nat.zero_le _
      | true => rw [hflight hq]
    have := hi.peak
    omega
  have hmem : ∀ {p'}, p' ∈ (s.goto i q).requests → p' = q ∨ p' ∈ s.requests := fun h =>
    (List.mem_or_eq_of_mem_set h).symm
  refine ⟨?_, hpeak, ?_, ?_, ?_⟩
  · have hmoved := countP_goto (q := q) (Place.pending settings tier) hp
    have hall : (s.goto i q).requests.countP (Place.pending settings tier) ≤
        (s.goto i q).requests.countP Place.inFlight :=
      List.countP_mono_left fun p' _ h => pending_inFlight h
    change s.rows.countP _ + _ = 0 ∨ s.rows.countP _ + _ + 1 ≤ _ + s.peak
    cases hq : q.pending settings tier with
    | false =>
      rw [hq] at hmoved
      have := hi.bound
      simp only [Bool.toNat_false] at hmoved
      omega
    | true =>
      obtain hadmitted | hbelow := hpending hq
      · rw [hq, hadmitted] at hmoved
        have := hi.bound
        omega
      · right
        omega
  · have hmoved := countP_goto (q := q) Place.paid hp
    rw [hpaid] at hmoved
    have := hi.ledger
    change s.rows.countP _ = _
    omega
  · intro channel now user h
    rcases hmem h with heq | hthere
    · exact hperiod channel now user heq.symm
    · exact hi.period channel now user hthere
  · intro response row h
    rcases hmem h with heq | hthere
    · exact hcounted response row heq.symm
    · exact hi.counted response row hthere

theorem next_cases (settings : Settings) (tier : Tier) (now : Int) (user : Option User) (channel : Channel) :
    Channel.next settings tier now user channel = .answering channel false ∨
      Channel.next settings tier now user channel = .identified channel now user ∨
      ∃ outcome, Channel.next settings tier now user channel = .ended outcome ∧ (Place.ended outcome).paid = false := by
  cases channel with
  | chat =>
    rw [Channel.next]
    split_ifs
    · exact .inl rfl
    · exact .inr (.inr ⟨_, rfl, rfl⟩)
    · exact .inr (.inl rfl)
  | mcp =>
    rw [Channel.next]
    split_ifs
    · exact .inr (.inl rfl)
    · exact .inr (.inr ⟨_, rfl, rfl⟩)

/-- A request goes on after the check only if it had counted fewer than the tier has. -/
theorem checked_cases (settings : Settings) (tier : Tier) (channel : Channel) (now : Int) (user : Option User)
    (used carried : Nat) :
    (checked tier channel (usageOf settings tier now user used carried) = .answering channel true ∧
        used < allowanceLimit settings tier) ∨
      ∃ outcome, checked tier channel (usageOf settings tier now user used carried) = .ended outcome ∧
        (Place.ended outcome).paid = false := by
  unfold checked
  cases hrefuse : refuseIfUsedUp tier (usageOf settings tier now user used carried) with
  | ok _ => exact .inl ⟨rfl, used_lt_of_ok hrefuse⟩
  | error e => cases channel <;> exact .inr ⟨_, rfl, rfl⟩

/-- A request that ends without a row. -/
theorem Inv.finish (hi : Inv settings tier userId start s) (hp : s.requests[i]? = some p)
    (hpaid : p.paid = false) {outcome : Outcome} (hfree : (Place.ended outcome).paid = false) :
    Inv settings tier userId start (s.goto i (.ended outcome)) := by
  refine hi.goto hp (fun h => by cases h) (fun h => by cases h) (hfree.trans hpaid.symm) (fun _ _ _ h => by cases h) ?_
  rintro response row heq
  cases heq
  cases hfree

/-- The commit of an answer. -/
theorem Inv.commit (hi : Inv settings tier userId start s) {channel : Channel} {metered : Bool} {response : Value}
    (hp : s.requests[i]? = some (.answered channel metered response)) {now : Int}
    (hnow : tier.allowance = .monthly → monthStart now = monthStart start) :
    Inv settings tier userId start { s.goto i (.ended (.replied response
        (rowOf tier userId channel metered response now))) with
      rows := s.rows ++ (rowOf tier userId channel metered response now).toList } := by
  cases hrow : rowOf tier userId channel metered response now with
  | none =>
    have hdone : Inv settings tier userId start (s.goto i (.ended (.replied response none))) := hi.finish hp rfl rfl
    rw [Option.toList_none, List.append_nil]
    exact hdone
  | some row =>
    unfold rowOf at hrow
    split at hrow
    · rename_i hcounts
      obtain ⟨rfl, hcounted⟩ := Bool.and_eq_true_iff.mp hcounts
      cases hrow
      have hnew : countedRows userId (tier.allowance.since start) (usageRow tier userId now channel) = true :=
        countedRows_usageRow userId channel fun hmonthly => (hnow hmonthly).symm
      have hrows : (s.rows ++ [usageRow tier userId now channel]).countP
          (countedRows userId (tier.allowance.since start)) =
          s.rows.countP (countedRows userId (tier.allowance.since start)) + 1 := by
        rw [List.countP_append, List.countP_singleton, if_pos hnew]
      have hpending := countP_goto (q := .ended (.replied response (some (usageRow tier userId now channel))))
        (Place.pending settings tier) hp
      have hflight := countP_goto (q := .ended (.replied response (some (usageRow tier userId now channel))))
        Place.inFlight hp
      have hpaid := countP_goto (q := .ended (.replied response (some (usageRow tier userId now channel))))
        Place.paid hp
      simp only [Place.pending, Place.inFlight, Place.paid, Bool.toNat_true, Bool.toNat_false] at hpending hflight hpaid
      have hbound := hi.bound
      have hpeak := hi.peak
      have hledger := hi.ledger
      refine ⟨?_, ?_, ?_, ?_, ?_⟩
      · right
        dsimp only [Option.toList_some]
        rw [hrows]
        change _ ≤ _ + s.peak
        omega
      · dsimp only
        change _ ≤ s.peak
        omega
      · dsimp only [Option.toList_some]
        rw [hrows]
        omega
      · intro channel' now' user h
        rcases List.mem_or_eq_of_mem_set h with hthere | heq
        · exact hi.period channel' now' user hthere
        · cases heq
      · intro response' row h
        rcases List.mem_or_eq_of_mem_set h with hthere | heq
        · exact hi.counted response' row hthere
        · cases heq
          exact hcounted
    · cases hrow

theorem Inv.step (hi : Inv settings tier userId start s) (hok : inPeriod tier start l)
    (h : Asking.step settings a tier userId s l = some s') : Inv settings tier userId start s' := by
  cases l with
  | arrive channel =>
    cases h
    have hmem : ∀ {p : Place}, p ∈ s.requests ++ [Place.arrived channel] → p ∈ s.requests ∨ p = Place.arrived channel := fun h => by
      simpa using h
    refine ⟨?_, le_max_right _ _, ?_, ?_, ?_⟩
    · dsimp only
      rw [List.countP_append]
      have := hi.bound
      have := le_max_left s.peak ((s.requests ++ [Place.arrived channel]).countP Place.inFlight)
      simp only [List.countP_singleton, Place.pending, Bool.false_eq_true, if_false]
      omega
    · dsimp only
      rw [List.countP_append]
      exact hi.ledger
    · intro channel' now user h
      obtain hthere | heq := hmem h
      · exact hi.period channel' now user hthere
      · cases heq
    · intro response row h
      obtain hthere | heq := hmem h
      · exact hi.counted response row hthere
      · cases heq
  | edit user stones =>
    cases h
    exact ⟨hi.bound, hi.peak, hi.ledger, hi.period, hi.counted⟩
  | other row =>
    simp only [Asking.step] at h
    split at h
    · cases h
    · rename_i hother
      cases h
      have hrow : countedRows userId (tier.allowance.since start) row = false := by
        simp [countedRows, hother]
      have hsame : (s.rows ++ [row]).countP (countedRows userId (tier.allowance.since start)) =
          s.rows.countP (countedRows userId (tier.allowance.since start)) := by
        rw [List.countP_append, List.countP_singleton, if_neg (by simp [hrow]), Nat.add_zero]
      exact ⟨by rw [hsame]; exact hi.bound, hi.peak, by rw [hsame]; exact hi.ledger, hi.period, hi.counted⟩
  | read i now =>
    simp only [Asking.step] at h
    split at h
    · rename_i channel hp
      cases h
      obtain heq | heq | ⟨outcome, heq, hfree⟩ := next_cases settings tier now s.user channel
      · rw [heq]
        exact hi.goto hp (fun _ => rfl) (fun h => by cases h) rfl (fun _ _ _ h => by cases h) (fun _ _ h => by cases h)
      · rw [heq]
        refine hi.goto hp (fun _ => rfl) (fun h => by cases h) rfl ?_ (fun _ _ h => by cases h)
        rintro _ _ _ ⟨⟩
        exact since_eq hok
      · rw [heq]
        exact hi.finish hp rfl hfree
    · rename_i channel now' user hp
      cases h
      refine hi.goto hp (fun _ => rfl) ?_ rfl (fun _ _ _ h => by cases h) (fun _ _ h => by cases h)
      -- the rows are counted in the same period
      rw [hi.period channel now' user (List.mem_of_getElem? hp)]
      exact fun h => .inr (of_decide_eq_true h)
    · rename_i channel now' user used hp
      cases h
      obtain ⟨heq, hbelow⟩ | ⟨outcome, heq, hfree⟩ :=
        checked_cases settings tier channel now' user used (carriedOver a s.stones user)
      · rw [heq]
        exact hi.goto hp (fun _ => rfl) (fun _ => .inl (decide_eq_true hbelow)) rfl (fun _ _ _ h => by cases h)
          (fun _ _ h => by cases h)
      · rw [heq]
        exact hi.finish hp rfl hfree
    · cases h
  | limit i =>
    simp only [Asking.step] at h
    split at h
    · rename_i metered hp
      cases h
      exact hi.finish hp rfl rfl
    · cases h
  | answer i response =>
    simp only [Asking.step] at h
    split at h
    · rename_i channel metered hp
      cases h
      exact hi.goto hp (fun _ => rfl) (fun h => .inl h) rfl (fun _ _ _ h => by cases h) (fun _ _ h => by cases h)
    · cases h
  | commit i now =>
    simp only [Asking.step] at h
    split at h
    · rename_i channel metered response hp
      cases h
      exact hi.commit hp hok
    · cases h
  | fail i =>
    simp only [Asking.step] at h
    split at h
    · rename_i p hp
      split at h
      · rename_i hflight
        cases h
        refine hi.finish hp ?_ rfl
        cases p with
        | ended _ => cases hflight
        | _ => rfl
      · cases h
    · cases h

end

/-- For the requests of an account in one period at one tier: the committed answers that
count are at most the limit and one less than the most requests in flight at once; and
they are those of the requests that have ended with an answer that counts. -/
theorem overshoot_bounded (settings : Settings) (a : Addressing) (tier : Tier) (userId : Str) (start : Int)
    (user : Option User) (stones : List DeletedAccount) (rows : List AnswerUsage) (ls : List Label) (s : Server)
    (hfresh : rows.countP (countedRows userId (tier.allowance.since start)) = 0)
    (hrun : exec (step settings a tier userId) (Server.new user stones rows) ls = some s)
    (hperiod : ∀ l ∈ ls, inPeriod tier start l) :
    s.rows.countP (countedRows userId (tier.allowance.since start)) ≤ allowanceLimit settings tier + s.peak - 1 ∧
      s.rows.countP (countedRows userId (tier.allowance.since start)) = s.requests.countP Place.paid ∧
      ∀ response row, .ended (.replied response (some row)) ∈ s.requests → isCountedAnswer response = true := by
  have hi : Inv settings tier userId start s :=
    exec_invariant (fun _ _ _ hi hok h => hi.step hok h) (Inv.new hfresh)
      (along_of_mem ls _ fun l hl _ => hperiod l hl) hrun
  refine ⟨?_, hi.ledger, hi.counted⟩
  have := hi.bound
  omega

def exampleSettings : Settings := ⟨true, 25, 1⟩

def exampleAnswer : Value :=
  .dict [("no_answer".toList, .bool false), ("unsupported".toList, .bool false),
    ("citations".toList, .list [.str "https://example.com".toList])]

/-- With one answer a month, two requests on the two routes count before either is
answered; a third is refused. -/
def together : List Label :=
  [.arrive .chat, .arrive .mcp, .read 0 1, .read 1 2, .read 0 0, .read 1 0, .read 0 0, .read 1 0,
    .answer 0 exampleAnswer, .answer 1 exampleAnswer, .commit 0 3, .arrive .chat, .read 2 4, .read 2 0, .read 2 0,
    .commit 1 5]

theorem overshoot_bounded_together :
    ∃ s, exec (step exampleSettings exampleAddressing .pro "usr_1".toList)
        (Server.new (some ⟨"usr_1".toList, some "a@example.com".toList, some 0⟩) [] []) together = some s ∧
      s.rows.map AnswerUsage.channel = ["chat".toList, "mcp".toList] ∧ s.peak = 2 ∧
      s.rows.countP (countedRows "usr_1".toList (some 0)) ≤ 1 + s.peak - 1 ∧
      s.rows.countP (countedRows "usr_1".toList (some 0)) = s.requests.countP Place.paid := by
  have hrun : ∃ s ∈ exec (step exampleSettings exampleAddressing .pro "usr_1".toList)
      (Server.new (some ⟨"usr_1".toList, some "a@example.com".toList, some 0⟩) [] []) together,
      s.rows.map AnswerUsage.channel = ["chat".toList, "mcp".toList] ∧ s.peak = 2 := by
    decide +kernel
  obtain ⟨s, hs, hrows, hpeak⟩ := hrun
  have hperiod : ∀ l ∈ together, inPeriod .pro 0 l := by decide
  obtain ⟨hbound, hledger, -⟩ := overshoot_bounded exampleSettings exampleAddressing .pro "usr_1".toList 0 _ [] [] together s rfl hs hperiod
  exact ⟨s, hs, hrows, hpeak, hbound, hledger⟩

end CiteVyn.Access.Asking
