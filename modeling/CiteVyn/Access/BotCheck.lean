import CiteVyn.Access.Pow
import CiteVyn.Billing.Entitlement
import CiteVyn.Lib.Locks
import CiteVyn.Lib.Runs
import CiteVyn.Lib.Threads

/-! # The sign-up bot check

`app/access/bot_check.py`. A request that brings a solution records the challenge
as used, in a transaction of its own that first deletes the records of challenges
long expired. A request reads the clock once, before it does either. -/
namespace CiteVyn.Access.BotCheck
open CiteVyn.Billing (fromTimestamp)
open CiteVyn.Lib.Locks CiteVyn.Lib.Runs CiteVyn.Lib.Threads CiteVyn.Text

structure Settings extends Digests where
  accessModelEnabled : Bool
  /-- empty where none is configured -/
  botCheckSecret : Str
  botCheckMaxNumber : Int
  botCheckTtlSeconds : Int

/-- `BotCheckUse`. -/
structure BotCheckUse where
  challenge : Str
  usedAt : Int
  expiresAt : Int
  deriving DecidableEq, Repr

/-- `_CLEANUP_MARGIN`. -/
def cleanupMargin : Int := 60000000

/-- `expires_at` of a challenge with this salt; none raises. -/
def expiryOf (salt : Str) : Option Int :=
  (int (afterLast expiresMark salt)).toOption.bind fun seconds => fromTimestamp seconds

/-- What `require_bot_check` comes to before it awaits `_use_once`. -/
inductive Verdict where
  /-- the access model is off -/
  | off
  /-- 403 `bot_check_failed` -/
  | refused
  | raised
  /-- the solution of the challenge with this salt is to be used -/
  | use (salt : Str) (use : BotCheckUse)
  deriving DecidableEq, Repr

/-- `require_bot_check` up to `_use_once`; there is no payload where the header is
missing or `_decode` refuses it. -/
def requireBotCheck (settings : Settings) (payload : Option Payload) (now : Int) : Verdict :=
  if !settings.accessModelEnabled then .off
  else
    match payload with
    | none => .refused
    | some payload =>
      if settings.botCheckSecret.isEmpty then .refused
      else
        match verifySolution settings.toDigests settings.botCheckSecret payload now with
        | .error (.powError _) => .refused
        | .error _ => .raised
        | .ok challenge =>
          match payload.salt with
          | .text (.plain salt) =>
            match expiryOf salt with
            | some expiresAt => .use salt ⟨challenge, now, expiresAt⟩
            | none => .raised
          | _ => .raised

/-! ## Requests -/

/-- Where a request is in `_use_once`. -/
inductive Check where
  | verified (salt : Str) (use : BotCheckUse)
  /-- its transaction has deleted `old` -/
  | cleaned (salt : Str) (use : BotCheckUse) (old : List BotCheckUse)
  deriving DecidableEq, Repr

structure Server (W : Type) where
  now : Int
  rows : List BotCheckUse
  /-- the rows that open transactions have deleted, by their keys -/
  locks : List (Str × W)
  checks : W → Option Check
  /-- the challenges that have been issued -/
  issued : List Challenge
  /-- the challenges that have been accepted, each with its salt -/
  accepted : List (Str × Str)
  /-- the cutoffs of the clean-ups that have been committed -/
  cutoffs : List Int

inductive Label (W : Type) where
  | tick (elapsed : Nat)
  /-- `bot_check_challenge` -/
  | issue (token : Str) (number : Int)
  | require (w : W) (payload : Option Payload)
  /-- the clean-up of `_use_once` -/
  | clean (w : W)
  /-- its insert and commit; the reply can be lost -/
  | commit (w : W) (replied : Bool)
  /-- the database fails, or the request is cancelled -/
  | fail (w : W)

/-- The cutoff of the clean-up of a request. -/
def BotCheckUse.cutoff (use : BotCheckUse) : Int := use.usedAt - cleanupMargin

/-- The rows that a clean-up deletes. -/
def expired (rows : List BotCheckUse) (cutoff : Int) : List BotCheckUse :=
  rows.filter fun row => row.expiresAt < cutoff

variable {W : Type} [DecidableEq W]

def Server.put (s : Server W) (w : W) (check : Option Check) : Server W :=
  { s with checks := Lib.Threads.put s.checks w check }

/-- The transaction of a request ends. -/
def Server.close (s : Server W) (w : W) : Server W :=
  { s with locks := release s.locks w, checks := Lib.Threads.put s.checks w none }

/-- The rows as the transaction of a request sees them, before its insert. -/
def Server.kept (s : Server W) (old : List BotCheckUse) : List BotCheckUse :=
  s.rows.filter fun row => row ∉ old

/-- The insert and the commit of `_use_once`. -/
def Server.commit (s : Server W) (w : W) (salt : Str) (use : BotCheckUse) (old : List BotCheckUse)
    (replied : Bool) : Server W :=
  if (s.kept old).any fun row => row.challenge = use.challenge then s.close w
  else
    { s.close w with
      rows := use :: s.kept old
      accepted := if replied then (salt, use.challenge) :: s.accepted else s.accepted
      cutoffs := use.cutoff :: s.cutoffs }

def step (settings : Settings) (s : Server W) : Label W → Option (Server W)
  | .tick elapsed => some { s with now := s.now + elapsed }
  | .issue token number =>
    match makeChallenge settings.toDigests settings.botCheckSecret settings.botCheckMaxNumber
        settings.botCheckTtlSeconds (s.now / 1000000) token number with
    | .ok challenge => some { s with issued := challenge :: s.issued }
    | .error _ => none
  | .require w payload =>
    match s.checks w with
    | some _ => none
    | none =>
      match requireBotCheck settings payload s.now with
      | .use salt use => some (s.put w (some (.verified salt use)))
      | _ => some s
  | .clean w =>
    match s.checks w with
    | some (.verified salt use) =>
      -- a row that another transaction has deleted is waited for
      if (expired s.rows use.cutoff).all fun row => free s.locks row.challenge w then
        some { s.put w (some (.cleaned salt use (expired s.rows use.cutoff))) with
          locks := (expired s.rows use.cutoff).foldr (fun row locks => acquire locks row.challenge w) s.locks }
      else none
    | _ => none
  | .commit w replied =>
    match s.checks w with
    | some (.cleaned salt use old) =>
      -- so is a key that another transaction has deleted
      if free s.locks use.challenge w then some (s.commit w salt use old replied) else none
    | _ => none
  | .fail w => some (s.close w)

def Server.new (now : Int) : Server W := ⟨now, [], [], idle, [], [], []⟩

/-- A request commits only while no clean-up has gone past the expiry of its challenge. -/
def unswept (s : Server W) : Label W → Bool
  | .commit w _ =>
    match s.checks w with
    | some (.cleaned _ use _) => s.cutoffs.all fun cutoff => cutoff ≤ use.expiresAt
    | _ => true
  | _ => true

/-! ## The record of an accepted challenge -/

/-- The challenge is on record, or a clean-up has gone past its expiry. -/
def Recorded (rows : List BotCheckUse) (cutoffs : List Int) (salt challenge : Str) : Prop :=
  ∃ expiresAt, expiryOf salt = some expiresAt ∧
    ((∃ row ∈ rows, row.challenge = challenge ∧ row.expiresAt = expiresAt) ∨
      ∃ cutoff ∈ cutoffs, expiresAt < cutoff)

/-- What a request has found out stands. -/
def Check.Sound : Check → Prop
  | .verified salt use => expiryOf salt = some use.expiresAt ∧ use.usedAt < use.expiresAt
  | .cleaned salt use old => expiryOf salt = some use.expiresAt ∧ use.usedAt < use.expiresAt ∧
      ∀ row ∈ old, row.expiresAt < use.cutoff

structure Inv (s : Server W) : Prop where
  once : s.accepted.Nodup
  recorded : ∀ p ∈ s.accepted, Recorded s.rows s.cutoffs p.1 p.2
  sound : ∀ w check, s.checks w = some check → check.Sound

theorem requireBotCheck_use {settings : Settings} {payload : Option Payload} {now : Int} {salt : Str}
    {use : BotCheckUse} (h : requireBotCheck settings payload now = .use salt use) :
    (Check.verified salt use).Sound := by
  unfold requireBotCheck at h
  split at h
  · cases h
  · split at h
    · cases h
    · rename_i payload
      split at h
      · cases h
      · split at h
        · cases h
        · cases h
        · rename_i challenge hverified
          obtain ⟨salt', n, hsalt, -, hint, hnow⟩ := verifySolution_ok hverified
          rw [hsalt] at h
          dsimp only at h
          split at h
          · rename_i expiresAt hexpiry
            cases h
            refine ⟨hexpiry, ?_⟩
            rw [expiryOf, hint] at hexpiry
            simp only [Except.toOption, Option.bind_some, fromTimestamp] at hexpiry
            split at hexpiry
            · cases hexpiry
              show now < n * 1000000
              omega
            · cases hexpiry
          · cases h

omit [DecidableEq W] in
theorem Inv.new (now : Int) : Inv (Server.new now : Server W) where
  once := List.nodup_nil
  recorded _ h := by cases h
  sound _ _ h := by cases h

/-- A request that moves, with the rows left alone. -/
theorem Inv.moved {s : Server W} (hi : Inv s) {w : W} {check : Option Check}
    (hcheck : ∀ c, check = some c → c.Sound) : ∀ w' c, Lib.Threads.put s.checks w check w' = some c → c.Sound :=
  forall_put hi.sound hcheck

theorem Inv.commit {s : Server W} (hi : Inv s) {w : W} {salt : Str} {use : BotCheckUse}
    {old : List BotCheckUse} (replied : Bool) (hw : (Check.cleaned salt use old).Sound)
    (hswept : ∀ cutoff ∈ s.cutoffs, cutoff ≤ use.expiresAt) : Inv (s.commit w salt use old replied) := by
  obtain ⟨hexpiry, hnow, hold⟩ := hw
  unfold Server.commit
  split
  · exact ⟨hi.once, hi.recorded, hi.moved fun c h => by cases h⟩
  · rename_i hfree
    have hnew : (salt, use.challenge) ∉ s.accepted := by
      intro hmem
      obtain ⟨expiresAt, hsome, hrec⟩ := hi.recorded _ hmem
      obtain rfl : use.expiresAt = expiresAt := Option.some.inj (hexpiry.symm.trans hsome)
      rcases hrec with ⟨row, hrow, hchallenge, hexpires⟩ | ⟨cutoff, hcutoff, hlt⟩
      · -- its own clean-up leaves the row, since the challenge had not expired
        have hleft : row ∉ old := by
          intro h
          have := hold row h
          rw [BotCheckUse.cutoff, cleanupMargin] at this
          omega
        exact hfree (List.any_eq_true.mpr ⟨row, List.mem_filter.mpr ⟨hrow, by simpa using hleft⟩,
          by simpa using hchallenge⟩)
      · exact absurd (hswept cutoff hcutoff) (by omega)
    have hstays : ∀ p ∈ s.accepted, Recorded (use :: s.kept old) (use.cutoff :: s.cutoffs) p.1 p.2 := by
      intro p hp
      obtain ⟨expiresAt, hsome, hrec⟩ := hi.recorded p hp
      refine ⟨expiresAt, hsome, ?_⟩
      rcases hrec with ⟨row, hrow, hchallenge, rfl⟩ | ⟨cutoff, hcutoff, hlt⟩
      · by_cases hmem : row ∈ old
        · exact .inr ⟨_, List.mem_cons_self, hold row hmem⟩
        · exact .inl ⟨row, List.mem_cons_of_mem _ (List.mem_filter.mpr ⟨hrow, by simpa using hmem⟩),
            hchallenge, rfl⟩
      · exact .inr ⟨cutoff, List.mem_cons_of_mem _ hcutoff, hlt⟩
    refine ⟨?_, ?_, hi.moved fun c h => by cases h⟩
    · cases replied
      · exact hi.once
      · exact List.nodup_cons.mpr ⟨hnew, hi.once⟩
    · intro p hp
      cases replied
      · exact hstays p hp
      · rcases List.mem_cons.mp hp with rfl | hp
        · exact ⟨use.expiresAt, hexpiry, .inl ⟨use, List.mem_cons_self, rfl, rfl⟩⟩
        · exact hstays p hp

theorem Inv.step {settings : Settings} {s s' : Server W} {l : Label W} (hi : Inv s) (hok : unswept s l = true)
    (h : step settings s l = some s') : Inv s' := by
  cases l with
  | tick elapsed =>
    cases h
    exact ⟨hi.once, hi.recorded, hi.sound⟩
  | issue token number =>
    simp only [BotCheck.step] at h
    split at h
    · cases h
      exact ⟨hi.once, hi.recorded, hi.sound⟩
    · cases h
  | require w payload =>
    simp only [BotCheck.step] at h
    split at h
    · cases h
    · split at h
      · rename_i salt use huse
        cases h
        refine ⟨hi.once, hi.recorded, hi.moved ?_⟩
        intro c hc
        cases hc
        exact requireBotCheck_use huse
      · cases h
        exact hi
  | clean w =>
    simp only [BotCheck.step] at h
    split at h
    · rename_i salt use hw
      split at h
      · cases h
        refine ⟨hi.once, hi.recorded, hi.moved ?_⟩
        intro c hc
        cases hc
        obtain ⟨hexpiry, hnow⟩ := hi.sound w _ hw
        exact ⟨hexpiry, hnow, fun row hrow => by simpa using (List.mem_filter.mp hrow).2⟩
      · cases h
    · cases h
  | commit w replied =>
    simp only [BotCheck.step] at h
    split at h
    · rename_i salt use old hw
      split at h
      · cases h
        rw [unswept, hw] at hok
        exact hi.commit replied (hi.sound w _ hw) fun cutoff h => by
          simpa using List.all_eq_true.mp hok cutoff h
      · cases h
    · cases h
  | fail w =>
    cases h
    exact ⟨hi.once, hi.recorded, hi.moved fun c h => by cases h⟩

/-! ## One solution, one attempt -/

/-- However the requests interleave, no challenge is accepted twice, so long as no
request commits once a clean-up has gone past the expiry of its challenge. -/
theorem accepted_once (settings : Settings) (now : Int) (ls : List (Label W)) (s : Server W)
    (hok : Along (step settings) (fun s l => unswept s l = true) (Server.new now) ls)
    (h : exec (step settings) (Server.new now) ls = some s) : s.accepted.Nodup :=
  (exec_invariant (fun _ _ _ hi hok h => Inv.step hi hok h) (Inv.new now) hok h).once

/-- SHA-256 and HMAC-SHA-256, on two challenges. -/
def exampleDigests : Digests where
  sha256 text :=
    if text = "00112233445566778899aabb?expires=6007".toList then
      "d3ea66581edd68a614ebe4c501f7c99f15e73a6e1dbea369996851622952f32d".toList
    else "d74bcd018891c4dac2fd8260daf966c6c3c1faaa0c3d10fca2dd4d8ba42b2872".toList
  hmacSha256 _ text :=
    if text.take 24 = "00112233445566778899aabb".toList then
      "ade4d4ea4a7921e4edf972efeb35dee998168ebaa52d6c76a99343adf0eea916".toList
    else "3537d8060594eec12815ab1311a65cf0a241ebfed1b7560ac85bda143d882eda".toList

def exampleSettings : Settings where
  toDigests := exampleDigests
  accessModelEnabled := true
  botCheckSecret := "secret".toList
  botCheckMaxNumber := 10
  botCheckTtlSeconds := 600

/-- The solution of a challenge. -/
def solution (salt : String) (number : Int) : Option Payload :=
  match hash exampleDigests salt.toList number with
  | .ok challenge => some ⟨.text (.plain salt.toList), .int number, .text (.plain challenge),
      .text (.plain (sign exampleDigests "secret".toList salt.toList challenge))⟩
  | .error _ => none

def firstSolution : Option Payload := solution "00112233445566778899aabb?expires=600" 7

/-- One solution is sent twice, one request after the other. -/
def sentTwice : List (Label Nat) :=
  [.issue "00112233445566778899aabb".toList 7, .require 0 firstSolution, .clean 0, .commit 0 true,
    .require 1 firstSolution, .clean 1, .commit 1 true]

theorem accepted_once_sentTwice :
    ∃ s, exec (step exampleSettings) (Server.new 0) sentTwice = some s ∧ s.accepted.length = 1 ∧
      s.accepted.Nodup := by
  have hrun : ∃ s ∈ exec (step exampleSettings) (Server.new 0) sentTwice, s.accepted.length = 1 := by
    decide +kernel
  have hok : Along (step exampleSettings) (fun s l => unswept s l = true) (Server.new 0) sentTwice := by
    decide +kernel
  obtain ⟨s, hs, hlength⟩ := hrun
  exact ⟨s, hs, hlength, accepted_once exampleSettings 0 sentTwice s hok hs⟩

/-- The same solution is sent twice at once; one of the two requests is held up until
another has cleaned up. -/
def stalled : List (Label Nat) :=
  [.issue "00112233445566778899aabb".toList 7, .require 0 firstSolution, .require 1 firstSolution,
    .clean 1, .commit 1 true, .tick 661000000, .issue "ccddeeff0011223344556677".toList 3,
    .require 2 (solution "ccddeeff0011223344556677?expires=1261" 3), .clean 2, .commit 2 true,
    .clean 0, .commit 0 true]

theorem accepted_twice :
    ∃ s ∈ exec (step exampleSettings) (Server.new 0) stalled,
      ∃ c ∈ s.issued, s.accepted.count (c.salt, c.challenge) = 2 := by
  decide +kernel

end CiteVyn.Access.BotCheck
