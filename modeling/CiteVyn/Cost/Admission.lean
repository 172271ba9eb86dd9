import CiteVyn.Cost.Meter
import CiteVyn.Lib.Runs
import Mathlib.Algebra.Order.Field.Rat
import Mathlib.Tactic.Linarith

/-! # The daily budget and the slots for paid calls

`enforce_budget` of `app/cost/budget.py`, the semaphore of
`app/cost/admission.py`, and the callers of `MeteredLLMClient.complete` and of
`MeteredEmbedder.embed` in one process. -/
namespace CiteVyn.Cost
open CiteVyn.Lib.Runs CiteVyn.Text

/-! ## The budget -/

/-- The settings that guard the spend; the limits are checked not to be negative. -/
structure Settings where
  costBudgetEnabled : Bool
  costSoftDailyUsd : ℚ
  costHardDailyUsd : ℚ
  costBudgetFailClosed : Bool
  costMaxConcurrentCalls : Nat
  soft_nonneg : 0 ≤ costSoftDailyUsd
  hard_nonneg : 0 ≤ costHardDailyUsd
  cap_pos : 1 ≤ costMaxConcurrentCalls

inductive BudgetState where
  | ok
  | soft
  | hard
  deriving DecidableEq, Repr

/-- `utc_day_start`. -/
def utcDayStart (now : Time) : Time := now - now % 86400000000

/-- `spend_since`. -/
def spendSince (calls : List ProviderCall) (since : Time) : Nat :=
  ((calls.filter fun call => since ≤ call.occurredAt).map ProviderCall.costUsd).sum

/-- `classify`. -/
def classify (spend : Nat) (settings : Settings) : BudgetState :=
  if settings.costHardDailyUsd ≤ spend then .hard
  else if settings.costSoftDailyUsd ≤ spend then .soft
  else .ok

/-- `enforce_budget` on the spend it has read, or on a store it could not read;
`none` raises `CostLimitReached`. -/
def enforceBudget (settings : Settings) (spend : Option Nat) : Option BudgetState :=
  match settings.costBudgetEnabled, spend with
  | false, _ => some .ok
  | true, none => if settings.costBudgetFailClosed then none else some .ok
  | true, some spend =>
    match classify spend settings with
    | .hard => none
    | state => some state

/-! ## The callers -/

/-- A call: of `complete`, with the characters of its prompt, or of `embed`. -/
inductive Request where
  | complete (promptChars maxTokens : Nat)
  | embed (chars : Nat)
  deriving DecidableEq, Repr

/-- What the provider's client returns. -/
inductive Reply where
  | result (result : LLMResult)
  | vector (usage : EmbeddingUsage)
  deriving DecidableEq, Repr

/-- Where a caller is. -/
inductive Caller where
  | arrived (r : Request)
  /-- about to read the spend of a day -/
  | checking (r : Request) (since : Time)
  /-- past the budget check, waiting for a slot -/
  | admitted (r : Request)
  /-- in the provider call, with a slot -/
  | calling (r : Request)
  /-- the slot is released, and the row not committed -/
  | metering (row : ProviderCall)
  | gone
  deriving DecidableEq, Repr

def Caller.isAdmitted : Caller → Bool
  | .admitted _ => true
  | _ => false

def Caller.isCalling : Caller → Bool
  | .calling _ => true
  | _ => false

/-- The provider call has started, and its cost is not recorded. -/
def Caller.unrecorded : Caller → Bool
  | .calling _ | .metering _ => true
  | _ => false

structure World where
  now : Time
  /-- the rows of `provider_calls`, the last one first -/
  providerCalls : List ProviderCall
  callers : List Caller
  deriving DecidableEq, Repr

inductive Label where
  | arrive (r : Request)
  | advance (i : Nat)
  /-- the store cannot be read -/
  | unreadable (i : Nat)
  | finish (i : Nat) (reply : Reply)
  /-- the provider call or the record fails, or the request dies -/
  | fail (i : Nat)
  | tick (now : Time)

/-- What the callers run against. -/
structure Deployment where
  settings : Settings
  priceFor : PriceBook
  embeddingProvider : Str
  embeddingModel : Str

/-- The row for a call that has returned. -/
def Request.row (p : Deployment) (now : Time) : Request → Reply → Option ProviderCall
  | .complete promptChars maxTokens, .result result =>
    some (llmCall p.priceFor result promptChars maxTokens now)
  | .embed chars, .vector usage =>
    some (embeddingCall p.priceFor p.embeddingProvider p.embeddingModel usage chars now)
  | _, _ => none

/-- Nothing is sent, and nothing metered, for an empty text. -/
def Request.enter : Request → Caller
  | .embed 0 => .gone
  | r => .arrived r

/-- Where the budget check leaves a caller. -/
def Request.checked (p : Deployment) (r : Request) (spend : Option Nat) : Caller :=
  match enforceBudget p.settings spend with
  | some _ => .admitted r
  | none => .gone

/-- The caller is at another place. -/
def World.goto (w : World) (i : Nat) (c : Caller) : World := { w with callers := w.callers.set i c }

/-- `today_spend`. -/
def World.todaySpend (w : World) : Nat := spendSince w.providerCalls (utcDayStart w.now)

/-- How many calls have started that are not recorded. -/
def World.unrecorded (w : World) : Nat := w.callers.countP Caller.unrecorded

def step (p : Deployment) (w : World) : Label → Option World
  | .arrive r => some { w with callers := w.callers ++ [r.enter] }
  | .advance i =>
    match w.callers[i]? with
    | some (.arrived r) =>
      some (w.goto i (if p.settings.costBudgetEnabled then .checking r (utcDayStart w.now)
        else .admitted r))
    | some (.checking r since) =>
      some (w.goto i (r.checked p (some (spendSince w.providerCalls since))))
    | some (.admitted r) =>
      -- `async with get_semaphore(settings)`
      if w.callers.countP Caller.isCalling < p.settings.costMaxConcurrentCalls then
        some (w.goto i (.calling r))
      else none
    | some (.metering row) => some { w.goto i .gone with providerCalls := row :: w.providerCalls }
    | _ => none
  | .unreadable i =>
    match w.callers[i]? with
    | some (.checking r _) => some (w.goto i (r.checked p none))
    | _ => none
  | .finish i reply =>
    match w.callers[i]? with
    | some (.calling r) => (r.row p w.now reply).map fun row => w.goto i (.metering row)
    | _ => none
  | .fail i =>
    match w.callers[i]? with
    | some _ => some (w.goto i .gone)
    | none => none
  | .tick now => if w.now ≤ now then some { w with now } else none

/-! ## Spend -/

theorem utcDayStart_mono {a b : Int} (h : a ≤ b) : utcDayStart a ≤ utcDayStart b := by
  show a - a % 86400000000 ≤ b - b % 86400000000
  omega

theorem spendSince_cons (call : ProviderCall) (calls : List ProviderCall) (since : Time) :
    spendSince (call :: calls) since =
      (if since ≤ call.occurredAt then call.costUsd else 0) + spendSince calls since := by
  by_cases h : since ≤ call.occurredAt
  · simp [spendSince, h]
  · simp [spendSince, h]

/-- A later day has no more spend. -/
theorem spendSince_anti {since since' : Time} (h : since ≤ since') (calls : List ProviderCall) :
    spendSince calls since' ≤ spendSince calls since := by
  induction calls with
  | nil => exact le_rfl
  | cons call calls ih =>
    rw [spendSince_cons, spendSince_cons]
    refine Nat.add_le_add ?_ ih
    by_cases hc : since' ≤ call.occurredAt
    · simp [hc, h.trans hc]
    · simp [hc]

/-- The last rows add no more than what they cost. -/
theorem spendSince_drop (since : Time) : ∀ (k : Nat) (calls : List ProviderCall),
    spendSince calls since ≤ spendSince (calls.drop k) since +
      ((calls.take k).map ProviderCall.costUsd).sum
  | 0, calls => by simp
  | _ + 1, [] => by simp
  | k + 1, call :: calls => by
    have ih := spendSince_drop since k calls
    rw [spendSince_cons]
    simp only [List.drop_succ_cons, List.take_succ_cons, List.map_cons, List.sum_cons]
    split <;> omega

/-- A caller that a check of the spend lets through has found it under the limit. -/
theorem checked_admitted {p : Deployment} {r r' : Request} {spend : Nat}
    (henabled : p.settings.costBudgetEnabled = true)
    (h : r.checked p (some spend) = .admitted r') : (spend : ℚ) < p.settings.costHardDailyUsd := by
  by_contra hge
  have hhard : classify spend p.settings = .hard := if_pos (not_lt.mp hge)
  simp [Request.checked, enforceBudget, henabled, hhard] at h

/-! ## The invariant -/

/-- What holds in every state: a caller past its check has found a spend that is
still under the limit, and all but the last rows are within it, as many of them
as there are slots that no unrecorded call stands for. -/
structure Inv (p : Deployment) (w : World) : Prop where
  enabled : ∀ r since, .checking r since ∈ w.callers → p.settings.costBudgetEnabled = true
  checking : ∀ r since, .checking r since ∈ w.callers → since ≤ utcDayStart w.now
  admitted : ∀ r, .admitted r ∈ w.callers → (w.todaySpend : ℚ) < p.settings.costHardDailyUsd
  overshoot : ∃ k, k + w.unrecorded ≤ p.settings.costMaxConcurrentCalls ∧
    (spendSince (w.providerCalls.drop k) (utcDayStart w.now) : ℚ) ≤ p.settings.costHardDailyUsd

theorem unrecorded_goto {w : World} {i : Nat} {c : Caller} (c' : Caller)
    (h : w.callers[i]? = some c) :
    (w.goto i c').unrecorded + c.unrecorded.toNat = w.unrecorded + c'.unrecorded.toNat := by
  obtain ⟨hi, rfl⟩ := List.getElem?_eq_some_iff.mp h
  have hpos : w.callers[i].unrecorded = true → 0 < w.callers.countP Caller.unrecorded := fun hc =>
    List.countP_pos_iff.mpr ⟨_, List.getElem_mem hi, hc⟩
  simp only [World.unrecorded, World.goto, List.countP_set hi]
  cases hc : w.callers[i].unrecorded <;> cases c'.unrecorded <;> simp
  · have := hpos hc
    omega
  · have := hpos hc
    omega

/-- A caller moves, and no call has started. -/
theorem Inv.goto {p : Deployment} {w : World} {i : Nat} {c c' : Caller} (hi : Inv p w)
    (hc : w.callers[i]? = some c) (hcount : c'.unrecorded = true → c.unrecorded = true)
    (hchecking : ∀ r since, c' = .checking r since →
      p.settings.costBudgetEnabled = true ∧ since ≤ utcDayStart w.now)
    (hadmitted : ∀ r, c' = .admitted r → (w.todaySpend : ℚ) < p.settings.costHardDailyUsd) :
    Inv p (w.goto i c') where
  enabled r since h := by
    rcases List.mem_or_eq_of_mem_set h with h | h
    · exact hi.enabled r since h
    · exact (hchecking r since h.symm).1
  checking r since h := by
    rcases List.mem_or_eq_of_mem_set h with h | h
    · exact hi.checking r since h
    · exact (hchecking r since h.symm).2
  admitted r h := by
    rcases List.mem_or_eq_of_mem_set h with h | h
    · exact hi.admitted r h
    · exact hadmitted r h.symm
  overshoot := by
    obtain ⟨k, hk, hspend⟩ := hi.overshoot
    have hle : (w.goto i c').unrecorded ≤ w.unrecorded := by
      have := unrecorded_goto c' hc
      cases hc' : c'.unrecorded with
      | false => simp [hc'] at this; omega
      | true => simp [hc', hcount hc'] at this; omega
    exact ⟨k, by omega, hspend⟩

/-- An admitted caller starts its call while fewer than all slots stand for
unrecorded ones. -/
theorem Inv.start {p : Deployment} {w : World} {i : Nat} {r : Request} (hi : Inv p w)
    (hc : w.callers[i]? = some (.admitted r))
    (hslots : w.unrecorded < p.settings.costMaxConcurrentCalls) : Inv p (w.goto i (.calling r)) where
  enabled r' since h := by
    rcases List.mem_or_eq_of_mem_set h with h | h
    · exact hi.enabled r' since h
    · cases h
  checking r' since h := by
    rcases List.mem_or_eq_of_mem_set h with h | h
    · exact hi.checking r' since h
    · cases h
  admitted r' h := by
    rcases List.mem_or_eq_of_mem_set h with h | h
    · exact hi.admitted r' h
    · cases h
  overshoot := by
    have hspend : (w.todaySpend : ℚ) < p.settings.costHardDailyUsd :=
      hi.admitted r (List.mem_of_getElem? hc)
    have hcount : (w.goto i (.calling r)).unrecorded = w.unrecorded + 1 := unrecorded_goto _ hc
    exact ⟨0, by omega, hspend.le⟩

/-- A row is recorded, and no caller waits if it reaches the limit. -/
theorem Inv.record {p : Deployment} {w : World} {i : Nat} {row : ProviderCall} (hi : Inv p w)
    (hc : w.callers[i]? = some (.metering row))
    (hlast : p.settings.costHardDailyUsd ≤
        (spendSince (row :: w.providerCalls) (utcDayStart w.now) : ℚ) →
      ∀ c ∈ w.callers, c.isAdmitted = false) :
    Inv p { w.goto i .gone with providerCalls := row :: w.providerCalls } where
  enabled r since h := by
    rcases List.mem_or_eq_of_mem_set h with h | h
    · exact hi.enabled r since h
    · cases h
  checking r since h := by
    rcases List.mem_or_eq_of_mem_set h with h | h
    · exact hi.checking r since h
    · cases h
  admitted r h := by
    rcases List.mem_or_eq_of_mem_set h with h | h
    · by_contra hge
      have := hlast (not_lt.mp hge) _ h
      cases this
    · cases h
  overshoot := by
    obtain ⟨k, hk, hspend⟩ := hi.overshoot
    have hcount : (w.goto i .gone).unrecorded + 1 = w.unrecorded := unrecorded_goto _ hc
    refine ⟨k + 1, ?_, hspend⟩
    show k + 1 + (w.goto i .gone).unrecorded ≤ p.settings.costMaxConcurrentCalls
    omega

/-- The day may end. -/
theorem Inv.tick {p : Deployment} {w : World} {now : Time} (hi : Inv p w) (h : w.now ≤ now) :
    Inv p { w with now } where
  enabled := hi.enabled
  checking r since hmem := (hi.checking r since hmem).trans (utcDayStart_mono h)
  admitted r hmem := by
    have hle : spendSince w.providerCalls (utcDayStart now) ≤ w.todaySpend :=
      spendSince_anti (utcDayStart_mono h) w.providerCalls
    exact lt_of_le_of_lt (by exact_mod_cast hle) (hi.admitted r hmem)
  overshoot := by
    obtain ⟨k, hk, hspend⟩ := hi.overshoot
    have hle := spendSince_anti (utcDayStart_mono h) (w.providerCalls.drop k)
    exact ⟨k, hk, le_trans (by exact_mod_cast hle) hspend⟩

theorem Inv.arrive {p : Deployment} {w : World} (hi : Inv p w) (r : Request) :
    Inv p { w with callers := w.callers ++ [r.enter] } := by
  have henter : r.enter = .gone ∨ r.enter = .arrived r := by
    unfold Request.enter
    split
    · exact .inl rfl
    · exact .inr rfl
  have hmem : ∀ c ∈ w.callers ++ [r.enter], c ∈ w.callers ∨ c = .gone ∨ c = .arrived r := by
    intro c hc
    rcases List.mem_append.mp hc with hc | hc
    · exact .inl hc
    · rw [List.mem_singleton] at hc
      exact .inr (hc ▸ henter)
  have hcount : (w.callers ++ [r.enter]).countP Caller.unrecorded = w.unrecorded := by
    have hnot : r.enter.unrecorded = false := by
      rcases henter with h | h <;> rw [h] <;> rfl
    simp [World.unrecorded, List.countP_append, hnot]
  refine ⟨fun r' since h => ?_, fun r' since h => ?_, fun r' h => ?_, ?_⟩
  · rcases hmem _ h with h | h | h
    · exact hi.enabled r' since h
    · cases h
    · cases h
  · rcases hmem _ h with h | h | h
    · exact hi.checking r' since h
    · cases h
    · cases h
  · rcases hmem _ h with h | h | h
    · exact hi.admitted r' h
    · cases h
    · cases h
  · obtain ⟨k, hk, hspend⟩ := hi.overshoot
    refine ⟨k, ?_, hspend⟩
    show k + (w.callers ++ [r.enter]).countP Caller.unrecorded ≤ p.settings.costMaxConcurrentCalls
    omega

/-! ## Runs -/

/-- A caller goes on in time: a call starts while fewer than all slots stand for
unrecorded ones, and a record that takes the spend to the limit finds no caller
waiting between its check and its slot. -/
def AdvancesInTime (p : Deployment) (w : World) : Caller → Prop
  | .arrived _ => p.settings.costBudgetEnabled = true
  | .admitted _ => w.unrecorded < p.settings.costMaxConcurrentCalls
  | .metering row =>
    p.settings.costHardDailyUsd ≤ (spendSince (row :: w.providerCalls) (utcDayStart w.now) : ℚ) →
      ∀ c ∈ w.callers, c.isAdmitted = false
  | _ => True

/-- The budget is enforced, and the step is in time. -/
def InTime (p : Deployment) (w : World) : Label → Prop
  | .advance i => ∀ c ∈ w.callers[i]?, AdvancesInTime p w c
  | .unreadable _ => p.settings.costBudgetFailClosed = true
  | _ => True

instance decidableAdvancesInTime (p : Deployment) (w : World) :
    ∀ c : Caller, Decidable (AdvancesInTime p w c)
  | .arrived _ => inferInstanceAs (Decidable (p.settings.costBudgetEnabled = true))
  | .admitted _ => inferInstanceAs (Decidable (w.unrecorded < p.settings.costMaxConcurrentCalls))
  | .metering row => inferInstanceAs (Decidable (p.settings.costHardDailyUsd ≤
      (spendSince (row :: w.providerCalls) (utcDayStart w.now) : ℚ) →
        ∀ c ∈ w.callers, c.isAdmitted = false))
  | .checking _ _ | .calling _ | .gone => isTrue trivial

instance decidableInTime (p : Deployment) (w : World) : ∀ l : Label, Decidable (InTime p w l)
  | .advance i => inferInstanceAs (Decidable (∀ c ∈ w.callers[i]?, AdvancesInTime p w c))
  | .unreadable _ => inferInstanceAs (Decidable (p.settings.costBudgetFailClosed = true))
  | .arrive _ | .finish _ _ | .fail _ | .tick _ => isTrue trivial

theorem step_inv {p : Deployment} {w w' : World} {l : Label} (hi : Inv p w) (hok : InTime p w l)
    (hs : step p w l = some w') : Inv p w' := by
  cases l with
  | arrive r =>
    obtain rfl := Option.some.inj hs
    exact hi.arrive r
  | advance i =>
    rw [step] at hs
    split at hs
    · rename_i r hc
      obtain rfl := Option.some.inj hs
      have henabled : p.settings.costBudgetEnabled = true := hok _ hc
      rw [if_pos henabled]
      refine hi.goto hc (by simp [Caller.unrecorded]) ?_ (by simp)
      intro r' since h
      obtain ⟨_, rfl⟩ := Caller.checking.inj h
      exact ⟨henabled, le_rfl⟩
    · rename_i r since hc
      obtain rfl := Option.some.inj hs
      have hmem := List.mem_of_getElem? hc
      have henabled := hi.enabled r since hmem
      have hle := spendSince_anti (hi.checking r since hmem) w.providerCalls
      refine hi.goto hc ?_ ?_ ?_
      · unfold Request.checked
        split <;> simp [Caller.unrecorded]
      · unfold Request.checked
        split <;> simp
      · intro r' h
        exact lt_of_le_of_lt (by exact_mod_cast hle) (checked_admitted henabled h)
    · rename_i r hc
      split at hs
      · obtain rfl := Option.some.inj hs
        exact hi.start hc (hok _ hc)
      · cases hs
    · rename_i row hc
      obtain rfl := Option.some.inj hs
      exact hi.record hc (hok _ hc)
    · cases hs
  | unreadable i =>
    rw [step] at hs
    split at hs
    · rename_i r since hc
      obtain rfl := Option.some.inj hs
      have henabled := hi.enabled r since (List.mem_of_getElem? hc)
      have hclosed : p.settings.costBudgetFailClosed = true := hok
      have hgone : r.checked p none = .gone := by
        simp [Request.checked, enforceBudget, henabled, hclosed]
      rw [hgone]
      exact hi.goto hc (by simp [Caller.unrecorded]) (by simp) (by simp)
    · cases hs
  | finish i reply =>
    rw [step] at hs
    split at hs
    · rename_i r hc
      obtain ⟨row, _, rfl⟩ := Option.map_eq_some_iff.mp hs
      exact hi.goto hc (by simp [Caller.unrecorded]) (by simp) (by simp)
    · cases hs
  | fail i =>
    rw [step] at hs
    split at hs
    · rename_i c hc
      obtain rfl := Option.some.inj hs
      exact hi.goto hc (by simp [Caller.unrecorded]) (by simp) (by simp)
    · cases hs
  | tick now =>
    rw [step] at hs
    split at hs
    · obtain rfl := Option.some.inj hs
      exact hi.tick ‹_›
    · cases hs

/-- A process that no caller has reached. -/
def World.new (now : Time) (rows : List ProviderCall) : World := ⟨now, rows, []⟩

theorem inv_new {p : Deployment} {now : Time} {rows : List ProviderCall}
    (h : (spendSince rows (utcDayStart now) : ℚ) ≤ p.settings.costHardDailyUsd) :
    Inv p (World.new now rows) where
  enabled _ _ h := by cases h
  checking _ _ h := by cases h
  admitted _ h := by cases h
  overshoot := ⟨0, by simp [World.unrecorded, World.new], h⟩

/-- **The budget holds** in every run in time: no provider call starts once the
recorded spend has reached the hard limit, and the spend past it is at most the
cost of the last calls, as many as there are slots. -/
theorem spend_bounded {p : Deployment} {now : Time} {rows : List ProviderCall} {ls : List Label}
    {w : World} (hrows : (spendSince rows (utcDayStart now) : ℚ) ≤ p.settings.costHardDailyUsd)
    (hok : Along (step p) (InTime p) (World.new now rows) ls)
    (hrun : exec (step p) (World.new now rows) ls = some w) :
    (∀ i r w', w.callers[i]? = some (.admitted r) → step p w (.advance i) = some w' →
      (w.todaySpend : ℚ) < p.settings.costHardDailyUsd) ∧
    ∃ past, past <+: w.providerCalls ∧
      past.length + w.unrecorded ≤ p.settings.costMaxConcurrentCalls ∧
      (w.todaySpend : ℚ) ≤
        p.settings.costHardDailyUsd + ((past.map ProviderCall.costUsd).sum : ℕ) := by
  have hi : Inv p w := exec_invariant (fun _ _ _ hi hok hs => step_inv hi hok hs) (inv_new hrows)
    hok hrun
  refine ⟨fun i r w' hc _ => hi.admitted r (List.mem_of_getElem? hc), ?_⟩
  obtain ⟨k, hk, hspend⟩ := hi.overshoot
  refine ⟨w.providerCalls.take k, List.take_prefix k _, ?_, ?_⟩
  · have := List.length_take_le k w.providerCalls
    omega
  · have hdrop : w.todaySpend ≤ _ := spendSince_drop (utcDayStart w.now) k w.providerCalls
    have hcast : (w.todaySpend : ℚ) ≤ (spendSince (w.providerCalls.drop k) (utcDayStart w.now) : ℚ) +
        (((w.providerCalls.take k).map ProviderCall.costUsd).sum : ℕ) := by exact_mod_cast hdrop
    linarith

/-! ## Callers behind the semaphore -/

/-- One slot, a limit of ten dollars and a model at ten dollars for a token. -/
def oneSlot : Deployment where
  settings := {
    costBudgetEnabled := true
    costSoftDailyUsd := 5000000
    costHardDailyUsd := 10000000
    costBudgetFailClosed := true
    costMaxConcurrentCalls := 1
    soft_nonneg := by decide
    hard_nonneg := by decide
    cap_pos := le_rfl }
  priceFor _ _ := some ⟨10000000000000, 0⟩
  embeddingProvider := "openrouter".toList
  embeddingModel := "openai/text-embedding-3-small".toList

def oneToken : Reply := .result ⟨"ok".toList, 1, 0, "gpt-4o".toList, "router".toList⟩

/-- A caller gets its slot, its call returns and its row is committed. -/
def calls (i : Nat) : List Label := [.advance i, .finish i oneToken, .advance i]

/-- A caller gets past the budget check. -/
def enters (i : Nat) : List Label := [.arrive (.complete 8 64), .advance i, .advance i]

theorem spend_bounded_two :
    ∃ w, exec (step oneSlot) (World.new 0 []) (enters 0 ++ calls 0 ++ enters 1) = some w ∧
      ∃ past, past <+: w.providerCalls ∧ past.length + w.unrecorded ≤ 1 ∧
        (w.todaySpend : ℚ) ≤ 10000000 + ((past.map ProviderCall.costUsd).sum : ℕ) := by
  have hok : Along (step oneSlot) (InTime oneSlot) (World.new 0 [])
      (enters 0 ++ calls 0 ++ enters 1) := by decide +kernel
  have hsome : (exec (step oneSlot) (World.new 0 [])
      (enters 0 ++ calls 0 ++ enters 1)).isSome = true := by decide +kernel
  obtain ⟨w, hw⟩ := Option.isSome_iff_exists.mp hsome
  exact ⟨w, hw, (spend_bounded (p := oneSlot) (by decide +kernel) hok hw).2⟩

/-- Three callers are past the check when the first one starts: the third one
starts at twice the limit, and the spend past it is that of two calls. -/
theorem spend_unbounded :
    ∃ w w', exec (step oneSlot) (World.new 0 [])
        (enters 0 ++ enters 1 ++ enters 2 ++ calls 0 ++ calls 1) = some w ∧
      w.callers[2]? = some (.admitted (.complete 8 64)) ∧
      oneSlot.settings.costHardDailyUsd ≤ (w.todaySpend : ℚ) ∧
      exec (step oneSlot) w (calls 2) = some w' ∧
      ∀ past, past <+: w'.providerCalls → past.length ≤ oneSlot.settings.costMaxConcurrentCalls →
        oneSlot.settings.costHardDailyUsd + ((past.map ProviderCall.costUsd).sum : ℕ) <
          (w'.todaySpend : ℚ) := by
  have h : ∃ w ∈ exec (step oneSlot) (World.new 0 [])
        (enters 0 ++ enters 1 ++ enters 2 ++ calls 0 ++ calls 1),
      w.callers[2]? = some (.admitted (.complete 8 64)) ∧
      oneSlot.settings.costHardDailyUsd ≤ (w.todaySpend : ℚ) ∧
      ∃ w' ∈ exec (step oneSlot) w (calls 2),
        ∀ past ∈ w'.providerCalls.inits, past.length ≤ oneSlot.settings.costMaxConcurrentCalls →
          oneSlot.settings.costHardDailyUsd + ((past.map ProviderCall.costUsd).sum : ℕ) <
            (w'.todaySpend : ℚ) := by decide +kernel
  obtain ⟨w, hw, hthird, hreached, w', hw', hover⟩ := h
  exact ⟨w, w', hw, hthird, hreached, hw', fun past hprefix => hover past
    (List.mem_inits _ _ |>.mpr hprefix)⟩

end CiteVyn.Cost
