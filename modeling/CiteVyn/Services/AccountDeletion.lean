import CiteVyn.Access.Quota
import CiteVyn.Billing.Entitlement
import CiteVyn.Lib.Runs
import CiteVyn.Lib.Threads
import Mathlib.Data.List.Sort

/-! # Deleting an account

`app/services/account_deletion.py` and the list of `app/core/deletion_list.py`, which
stands outside the database: `delete_account` and `reapply_deletions`, with every call to
the database or to Redis a step that may fail. -/
namespace CiteVyn.Services.AccountDeletion
open CiteVyn.Billing (Membership)
open CiteVyn.Access.Quota CiteVyn.Lib.Runs CiteVyn.Lib.Threads CiteVyn.Text

/-! ## What a deletion does to the tables -/

structure Tables where
  users : List User
  memberships : List Membership
  /-- `answer_usage` -/
  rows : List AnswerUsage
  /-- `deleted_accounts` -/
  stones : List DeletedAccount

def Tables.ids (t : Tables) : List Str := t.users.map User.userId

/-- How an account is named. -/
inductive Name where
  | email (email : Str)
  | userId (userId : Str)
  deriving DecidableEq, Repr

inductive FindError where
  | accountNotFound
  | ambiguousAddress (found : Nat)
  deriving DecidableEq, Repr

/-- `ENDED_STATUSES`. -/
def endedStatuses : List Str := ["canceled".toList, "incomplete_expired".toList]

/-- `is_registered_principal`. -/
def isRegisteredPrincipal (userId : Str) : Bool := "usr_".toList.isPrefixOf userId

def theOne : List User → Except FindError User
  | [] => .error .accountNotFound
  | [user] => .ok user
  | users => .error (.ambiguousAddress users.length)

variable (a : Addressing) (stored : Str → Str)

/-- `_find`; `stored` is what the database makes of a stored address, `lower(trim(..))`. -/
def find (t : Tables) : Name → Except FindError User
  | .userId userId =>
    if isRegisteredPrincipal userId then theOne (t.users.filter fun user => user.userId = userId)
    else .error .accountNotFound
  | .email email => theOne (t.users.filter fun user => user.email.map stored = some (a.normal email))

/-- `DeletionPlan`. -/
structure DeletionPlan where
  userId : Str
  hasAddress : Bool
  trialAnswersUsed : Nat
  carriedOver : Nat
  liveSubscriptions : List Str
  deriving DecidableEq, Repr

/-- `_plan`. -/
def plan (t : Tables) (user : User) : DeletionPlan where
  userId := user.userId
  hasAddress := user.address.isSome
  trialAnswersUsed := t.rows.countP (countedRows user.userId none)
  carriedOver := carriedOver a t.stones (some user)
  liveSubscriptions :=
    (((t.memberships.filter fun m => m.accountId = user.userId).map Membership.status).filter fun status =>
      status ∉ endedStatuses).insertionSort fun x y => textLe x y

/-- The tombstone of an address takes more answers. -/
def bury (key : Str) (used : Nat) (when_ : Int) (stones : List DeletedAccount) : List DeletedAccount :=
  if stones.any fun stone => stone.emailHash = key then
    stones.map fun stone =>
      if stone.emailHash = key then
        { stone with trialAnswersUsed := stone.trialAnswersUsed + used, deletedAt := when_ }
      else stone
  else stones ++ [⟨key, used, when_⟩]

/-- `_remove`, with the rows that go with the account. -/
def remove (t : Tables) (user : User) (p : DeletionPlan) (when_ : Int) : Tables where
  users := t.users.filter fun other => other.userId ≠ user.userId
  memberships := t.memberships.filter fun m => m.accountId ≠ user.userId
  rows := t.rows.filter fun row => row.userId ≠ user.userId
  stones := user.address.elim t.stones fun email => bury (emailHash a email) p.trialAnswersUsed when_ t.stones

/-- `DeletionReport`. -/
structure DeletionReport where
  userId : Str
  trialAnswersUsed : Nat
  carriedOver : Nat
  tombstoneTotal : Option Nat
  deriving DecidableEq, Repr

def report (p : DeletionPlan) : DeletionReport :=
  ⟨p.userId, p.trialAnswersUsed, p.carriedOver,
    if p.hasAddress then some (p.carriedOver + p.trialAnswersUsed) else none⟩

/-- How a write ends: it has landed, it has landed and the reply is lost, or it has not. -/
inductive Reply where
  | ok
  | lost
  | failed
  deriving DecidableEq, Repr

def Reply.landed : Reply → Bool
  | .failed => false
  | _ => true

/-! ## Deletions and runs that apply them again -/

/-- `KEEP`, sixty days. -/
def keep : Int := 60 * 86400000000

/-- Where a call of `delete_account`, or a run of `reapply_deletions`, is. -/
inductive Place where
  | finding (name : Name) (now : Int)
  /-- the account's row is locked -/
  | found (user : User) (now : Int)
  | planned (user : User) (p : DeletionPlan) (now : Int)
  /-- the transaction has the tombstone and has deleted the row -/
  | removed (user : User) (p : DeletionPlan) (now : Int)
  /-- the account is listed, and the commit is next -/
  | recorded (user : User) (p : DeletionPlan) (now : Int)
  /-- an error has been raised: the row that is still locked, and what may be listed -/
  | unwinding (locked listed : Option Str)
  /-- `_unlist_if_still_there` -/
  | checking (userId : Str)
  | forgetting (userId : Str)
  /-- a run has read the list -/
  | reading (entries : List (Str × Int))
  /-- and which of the accounts are there; it comes to the next -/
  | looping (entries : List (Str × Int)) (todo : List Str)
  /-- the account's row is locked and has been deleted in the transaction -/
  | again (user : User) (p : DeletionPlan) (when_ : Int) (entries : List (Str × Int)) (todo : List Str)
  deriving DecidableEq, Repr

inductive Result where
  | returned (report : DeletionReport)
  | raised
  deriving DecidableEq, Repr

structure Server (W : Type) where
  tables : Tables
  /-- the list, by account -/
  list : List (Str × Int)
  /-- the accounts whose rows are locked -/
  locks : List Str
  places : W → Option Place
  results : List (W × Result)
  /-- the accounts that a call may have listed and has ended without reaching the list
  with `forget`; nothing reads it -/
  kept : List Str

inductive Label (W : Type) where
  /-- accounts come and their rows change; a restore brings some back -/
  | edit (t : Tables)
  | request (w : W) (name : Name) (now : Int)
  /-- a run drops what is older than `KEEP` and reads the list -/
  | reapply (w : W) (now : Int) (dropped : Reply) (read : Bool)
  /-- the next statements in the database; they may fail -/
  | advance (w : W) (ok : Bool)
  | record (w : W) (reply : Reply)
  | commit (w : W) (reply : Reply)
  | rollback (w : W) (ok : Bool)
  | check (w : W) (ok : Bool)
  | forget (w : W) (reply : Reply)
  /-- the process ends -/
  | crash (w : W)

variable (configured : Bool) {W : Type} [DecidableEq W]

def Server.goto (s : Server W) (w : W) (p : Option Place) : Server W := { s with places := put s.places w p }

/-- A call raises; an account that it may have listed stays on the list. -/
def Server.raise (s : Server W) (w : W) (listed : Option Str) : Server W :=
  { s.goto w none with results := (w, .raised) :: s.results, kept := listed.toList ++ s.kept }

def Server.lock (s : Server W) (userId : Str) : Server W := { s with locks := userId :: s.locks }

def Server.unlock (s : Server W) (userId : Option Str) : Server W :=
  { s with locks := s.locks.filter fun other => some other ≠ userId }

/-- The row that a thread has locked. -/
def Place.locked : Place → Option Str
  | .found user _ | .planned user _ _ | .removed user _ _ | .recorded user _ _ | .again user _ _ _ _ =>
    some user.userId
  | .unwinding locked _ => locked
  | _ => none

/-- The account that a call may have listed. -/
def Place.listed : Place → Option Str
  | .recorded user _ _ => some user.userId
  | .unwinding _ listed => listed
  | .checking userId | .forgetting userId => some userId
  | _ => none

/-- `zadd`. -/
def listAdd (list : List (Str × Int)) (userId : Str) (when_ : Int) : List (Str × Int) :=
  (userId, when_) :: list.filter fun entry => entry.1 ≠ userId

/-- The statements of a thread up to the next that another system has a part in. -/
def Server.advance (s : Server W) (w : W) : Place → Option (Server W)
  | .finding name now =>
    match find a stored s.tables name with
    | .error _ => some (s.goto w (some (.unwinding none none)))
    | .ok user =>
      if user.userId ∈ s.locks then none else some ((s.lock user.userId).goto w (some (.found user now)))
  | .found user now =>
    let p := plan a s.tables user
    if p.liveSubscriptions = [] then some (s.goto w (some (.planned user p now)))
    else some (s.goto w (some (.unwinding (some user.userId) none)))
  | .planned user p now => some (s.goto w (some (.removed user p now)))
  | .removed user p now => if configured then none else some (s.goto w (some (.recorded user p now)))
  | .reading entries =>
    let present := (s.tables.ids.filter fun userId => userId ∈ entries.map Prod.fst).insertionSort fun x y => textLe x y
    some (s.goto w (some (.looping entries present)))
  | .looping _ [] => some (s.goto w none)
  | .looping entries (userId :: todo) =>
    match find a stored s.tables (.userId userId) with
    | .error _ => some (s.goto w (some (.looping entries todo)))
    | .ok user =>
      if user.userId ∈ s.locks then none
      else
        let when_ := ((entries.find? fun entry => entry.1 = userId).map Prod.snd).getD 0
        some ((s.lock user.userId).goto w (some (.again user (plan a s.tables user) when_ entries todo)))
  | _ => none

/-- A statement of a thread fails. -/
def Server.stumble (s : Server W) (w : W) : Place → Option (Server W)
  | .finding _ _ => some (s.goto w (some (.unwinding none none)))
  | .found user _ | .planned user _ _ => some (s.goto w (some (.unwinding (some user.userId) none)))
  | .reading _ => some (s.goto w none)
  | .looping entries (_ :: todo) => some (s.goto w (some (.looping entries todo)))
  | .again user _ _ entries todo => some ((s.unlock (some user.userId)).goto w (some (.looping entries todo)))
  | _ => none

def step (s : Server W) : Label W → Option (Server W)
  | .edit t => if s.tables.ids ⊆ t.ids then some { s with tables := t } else none
  | .request w name now =>
    match s.places w with
    | some _ => none
    | none => some (s.goto w (some (.finding name now)))
  | .reapply w now dropped read =>
    match s.places w with
    | some _ => none
    | none =>
      let list := if dropped.landed then s.list.filter fun entry => now - keep < entry.2 else s.list
      let s := { s with list := list }
      if configured && dropped = .ok && read then some (s.goto w (some (.reading list))) else some s
  | .advance w ok =>
    (s.places w).bind fun p => if ok then s.advance a stored configured w p else s.stumble w p
  | .record w reply =>
    match s.places w with
    | some (.removed user p now) =>
      if configured then
        let s := if reply.landed then { s with list := listAdd s.list user.userId now } else s
        if reply = .ok then some (s.goto w (some (.recorded user p now)))
        else some (s.goto w (some (.unwinding (some user.userId) (some user.userId))))
      else none
    | _ => none
  | .commit w reply =>
    match s.places w with
    | some (.recorded user p now) =>
      let listed := if configured then some user.userId else none
      match reply with
      | .ok =>
        some { (s.unlock (some user.userId)).goto w none with
          tables := remove a s.tables user p now
          results := (w, .returned (report p)) :: s.results
          kept := listed.toList ++ s.kept }
      | .lost =>
        some { (s.unlock (some user.userId)).goto w (some (.unwinding none listed)) with
          tables := remove a s.tables user p now }
      | .failed => some (s.goto w (some (.unwinding (some user.userId) listed)))
    | some (.again user p when_ entries todo) =>
      let s := (s.unlock (some user.userId)).goto w (some (.looping entries todo))
      some (if reply.landed then { s with tables := remove a s.tables user p when_ } else s)
    | _ => none
  | .rollback w ok =>
    match s.places w with
    | some (.unwinding locked listed) =>
      match ok, listed with
      | true, some userId => some ((s.unlock locked).goto w (some (.checking userId)))
      | _, listed => some ((s.unlock locked).raise w listed)
    | _ => none
  | .check w ok =>
    match s.places w with
    | some (.checking userId) =>
      if ok && userId ∈ s.tables.ids then some (s.goto w (some (.forgetting userId)))
      else some (s.raise w (some userId))
    | _ => none
  | .forget w reply =>
    match s.places w with
    | some (.forgetting userId) =>
      if reply.landed then some { s.raise w none with list := s.list.filter fun entry => entry.1 ≠ userId }
      else some (s.raise w (some userId))
    | _ => none
  | .crash w =>
    (s.places w).map fun p => { (s.unlock p.locked).goto w none with kept := p.listed.toList ++ s.kept }

/-- Nobody has asked for a deletion yet. -/
def Server.new (t : Tables) : Server W := ⟨t, [], [], idle, [], []⟩

/-! ## What is on the list -/

/-- An account on the list has been left there, or a call that has listed it goes on. -/
def Accounted (s : Server W) : Prop :=
  ∀ userId ∈ s.list.map Prod.fst, userId ∈ s.kept ∨ ∃ w p, s.places w = some p ∧ p.listed = some userId

omit [DecidableEq W] in
theorem Accounted.new (t : Tables) : Accounted (Server.new t : Server W) := fun _ h => by cases h

section

variable {a : Addressing} {stored : Str → Str} {configured : Bool} {s s' : Server W} {l : Label W} {w : W}

/-- A thread moves: what it may have listed it may still have listed, or it has left it. -/
theorem Accounted.move (hs : Accounted s) {p : Option Place} {list : List (Str × Int)} {kept : List Str}
    (hlist : ∀ userId ∈ list.map Prod.fst, userId ∈ s.list.map Prod.fst ∨ p.bind Place.listed = some userId)
    (hkept : s.kept ⊆ kept)
    (hleft : ∀ userId, (s.places w).bind Place.listed = some userId → userId ∈ list.map Prod.fst →
      p.bind Place.listed = some userId ∨ userId ∈ kept) {tables : Tables} {locks : List Str}
    {results : List (W × Result)} :
    Accounted (⟨tables, list, locks, put s.places w p, results, kept⟩ : Server W) := by
  have hmoved : ∀ userId, p.bind Place.listed = some userId →
      ∃ w' p', put s.places w p w' = some p' ∧ p'.listed = some userId := by
    intro userId h
    obtain ⟨q, rfl, hq⟩ := Option.bind_eq_some_iff.mp h
    exact ⟨w, q, put_self _ _ _, hq⟩
  intro userId h
  rcases hlist userId h with hthere | hnew
  · rcases hs userId hthere with hkeep | ⟨w', p', hp', hlisted⟩
    · exact .inl (hkept hkeep)
    · by_cases hw : w' = w
      · subst hw
        rcases hleft userId (by rw [hp']; exact hlisted) h with hstill | hkeep
        · exact .inr (hmoved userId hstill)
        · exact .inl hkeep
      · exact .inr ⟨w', p', (put_of_ne _ _ hw).trans hp', hlisted⟩
  · exact .inr (hmoved userId hnew)

end

/-- The thread may still delete or list the account. -/
def Place.touches (userId : Str) : Place → Bool
  | .found user _ | .planned user _ _ | .removed user _ _ | .recorded user _ _ => user.userId = userId
  | .reading entries => userId ∈ entries.map Prod.fst
  | .looping _ todo => userId ∈ todo
  | .again user _ _ _ todo => user.userId = userId || userId ∈ todo
  | .finding _ _ | .unwinding _ _ | .checking _ | .forgetting _ => false

/-- The step is a deletion that is asked for and finds the account. -/
def asksFor (userId : Str) (s : Server W) : Label W → Bool
  | .advance w true =>
    match s.places w with
    | some (.finding name _) => (find a stored s.tables name).toOption.any fun user => user.userId = userId
    | _ => false
  | _ => false

section

variable {a : Addressing} {stored : Str → Str} {configured : Bool} {s s' : Server W} {l : Label W} {w : W} {p : Place}
  {userId : Str}

theorem theOne_mem {users : List User} {user : User} (h : theOne users = .ok user) : user ∈ users := by
  match users, h with
  | [_], rfl => exact List.mem_singleton_self _

theorem find_userId {t : Tables} {user : User} (h : find a stored t (.userId userId) = .ok user) :
    user.userId = userId := by
  rw [find] at h
  split at h
  · exact of_decide_eq_true (List.mem_filter.mp (theOne_mem h)).2
  · cases h

/-- What the statements of a thread change. -/
theorem advance_cases (h : s.advance a stored configured w p = some s') (hw : s.places w = some p) :
    p.listed = none ∧ ∃ locks p', s' = { s with locks := locks, places := put s.places w p' } ∧
      ∀ userId, p.touches userId = false → asksFor a stored userId s (.advance w true) = false →
        ∀ q, p' = some q → q.touches userId = false := by
  cases p with
  | finding name now =>
    rw [Server.advance] at h
    split at h
    · cases h
      exact ⟨rfl, _, _, rfl, fun userId _ _ => forall_moved rfl⟩
    · rename_i user hfind
      split at h
      · cases h
      · cases h
        refine ⟨rfl, _, _, rfl, fun userId _ hasks => ?_⟩
        rintro _ ⟨⟩
        simp only [asksFor, hw, hfind] at hasks
        exact hasks
  | found user now =>
    rw [Server.advance] at h
    split at h
    · cases h
      exact ⟨rfl, _, _, rfl, fun userId htouches _ => forall_moved htouches⟩
    · cases h
      exact ⟨rfl, _, _, rfl, fun userId _ _ => forall_moved rfl⟩
  | planned user p now =>
    cases h
    exact ⟨rfl, _, _, rfl, fun userId htouches _ => forall_moved htouches⟩
  | removed user p now =>
    rw [Server.advance] at h
    split at h
    · cases h
    · cases h
      exact ⟨rfl, _, _, rfl, fun userId htouches _ => forall_moved htouches⟩
  | reading entries =>
    cases h
    refine ⟨rfl, _, _, rfl, fun userId htouches _ => ?_⟩
    rintro _ ⟨⟩
    have hunread : userId ∉ entries.map Prod.fst := of_decide_eq_false htouches
    refine decide_eq_false fun htodo => hunread ?_
    have hpresent := (List.perm_insertionSort _ _).mem_iff.mp htodo
    exact of_decide_eq_true (List.mem_filter.mp hpresent).2
  | looping entries todo =>
    cases todo with
    | nil =>
      cases h
      exact ⟨rfl, _, _, rfl, fun userId _ _ => forall_gone⟩
    | cons next todo =>
      rw [Server.advance] at h
      split at h
      · cases h
        refine ⟨rfl, _, _, rfl, fun userId htouches _ => ?_⟩
        rintro _ ⟨⟩
        exact decide_eq_false fun hmem => of_decide_eq_false htouches (List.mem_cons_of_mem _ hmem)
      · rename_i user hfind
        split at h
        · cases h
        · cases h
          refine ⟨rfl, _, _, rfl, fun userId htouches _ => ?_⟩
          rintro _ ⟨⟩
          have hother : userId ∉ next :: todo := of_decide_eq_false htouches
          rw [List.mem_cons, not_or] at hother
          simp only [Place.touches, find_userId hfind, Bool.or_eq_false_iff, decide_eq_false_iff_not]
          exact ⟨Ne.symm hother.1, hother.2⟩
  | recorded _ _ _ | unwinding _ _ | checking _ | forgetting _ | again _ _ _ _ _ => cases h

theorem stumble_cases (h : s.stumble w p = some s') :
    p.listed = none ∧ ∃ locks p', s' = { s with locks := locks, places := put s.places w p' } ∧
      ∀ userId, p.touches userId = false → ∀ q, p' = some q → q.touches userId = false := by
  cases p with
  | finding _ _ | found _ _ | planned _ _ _ =>
    cases h
    exact ⟨rfl, _, _, rfl, fun userId _ => forall_moved rfl⟩
  | reading _ =>
    cases h
    exact ⟨rfl, _, _, rfl, fun userId _ => forall_gone⟩
  | looping entries todo =>
    cases todo with
    | nil => cases h
    | cons next todo =>
      cases h
      refine ⟨rfl, _, _, rfl, fun userId htouches => ?_⟩
      rintro _ ⟨⟩
      exact decide_eq_false fun hmem => of_decide_eq_false htouches (List.mem_cons_of_mem _ hmem)
  | again user p when_ entries todo =>
    cases h
    refine ⟨rfl, _, _, rfl, fun userId htouches => ?_⟩
    rintro _ ⟨⟩
    exact (Bool.or_eq_false_iff.mp htouches).2
  | removed _ _ _ | recorded _ _ _ | unwinding _ _ | checking _ | forgetting _ => cases h

theorem mem_unlisted {list : List (Str × Int)} {keep : Str × Int → Bool} (h : userId ∈ (list.filter keep).map Prod.fst) :
    userId ∈ list.map Prod.fst := (List.filter_sublist.map _).subset h

theorem mem_listAdd {list : List (Str × Int)} {user : Str} {when_ : Int}
    (h : userId ∈ (listAdd list user when_).map Prod.fst) : userId ∈ list.map Prod.fst ∨ user = userId := by
  rw [listAdd, List.map_cons, List.mem_cons] at h
  rcases h with rfl | h
  · exact .inr rfl
  · exact .inl (mem_unlisted h)

/-- Without Redis there is no list. -/
theorem step_off (hoff : s.list = []) (h : AccountDeletion.step a stored false s l = some s') : s'.list = [] := by
  cases l with
  | edit t =>
    simp only [AccountDeletion.step] at h
    split at h <;> cases h
    exact hoff
  | request w name now =>
    simp only [AccountDeletion.step] at h
    split at h <;> cases h
    exact hoff
  | reapply w now dropped read =>
    simp only [AccountDeletion.step, hoff, List.filter_nil, ite_self] at h
    split at h <;> cases h
    rfl
  | advance w ok =>
    obtain ⟨p, hw, h⟩ := Option.bind_eq_some_iff.mp h
    cases ok with
    | true =>
      obtain ⟨-, locks, p', rfl, -⟩ := advance_cases h hw
      exact hoff
    | false =>
      obtain ⟨-, locks, p', rfl, -⟩ := stumble_cases h
      exact hoff
  | record w reply =>
    simp only [AccountDeletion.step] at h
    split at h <;> cases h
  | commit w reply =>
    simp only [AccountDeletion.step] at h
    repeat' split at h
    all_goals cases h
    all_goals exact hoff
  | rollback w ok =>
    simp only [AccountDeletion.step] at h
    repeat' split at h
    all_goals cases h
    all_goals exact hoff
  | check w ok =>
    simp only [AccountDeletion.step] at h
    repeat' split at h
    all_goals cases h
    all_goals exact hoff
  | forget w reply =>
    simp only [AccountDeletion.step] at h
    repeat' split at h
    all_goals cases h
    · rw [hoff]
      rfl
    · exact hoff
  | crash w =>
    obtain ⟨p, hw, rfl⟩ := Option.map_eq_some_iff.mp h
    exact hoff

theorem Accounted.step (hs : Accounted s) (hoff : configured = false → s.list = [])
    (h : AccountDeletion.step a stored configured s l = some s') :
    Accounted s' := by
  cases l with
  | edit t =>
    simp only [AccountDeletion.step] at h
    split at h
    · cases h
      exact hs
    · cases h
  | request w name now =>
    simp only [AccountDeletion.step] at h
    split at h
    · cases h
    · rename_i hw
      cases h
      exact hs.move (fun _ h => .inl h) (fun _ h => h) fun _ h => by rw [hw] at h; cases h
  | reapply w now dropped read =>
    simp only [AccountDeletion.step] at h
    split at h
    · cases h
    · rename_i hw
      have hless : ∀ userId ∈ (if dropped.landed then s.list.filter fun entry => now - keep < entry.2
          else s.list).map Prod.fst, userId ∈ s.list.map Prod.fst := by
        intro userId hmem
        split at hmem
        · exact mem_unlisted hmem
        · exact hmem
      split at h
      · cases h
        exact hs.move (fun _ h => .inl (hless _ h)) (fun _ h => h) fun _ h => by rw [hw] at h; cases h
      · cases h
        exact fun userId hmem => hs userId (hless userId hmem)
  | advance w ok =>
    obtain ⟨p, hw, h⟩ := Option.bind_eq_some_iff.mp h
    cases ok with
    | true =>
      obtain ⟨hlisted, locks, p', rfl, -⟩ := advance_cases h hw
      exact hs.move (fun _ h => .inl h) (fun _ h => h) fun _ h => by rw [hw, Option.bind_some, hlisted] at h; cases h
    | false =>
      obtain ⟨hlisted, locks, p', rfl, -⟩ := stumble_cases h
      exact hs.move (fun _ h => .inl h) (fun _ h => h) fun _ h => by rw [hw, Option.bind_some, hlisted] at h; cases h
  | record w reply =>
    simp only [AccountDeletion.step] at h
    split at h
    · rename_i user p now hw
      split at h
      · have hleft : ∀ userId, (s.places w).bind Place.listed = some userId → False := fun _ h => by
          rw [hw] at h
          cases h
        cases reply with
        | ok =>
          cases h
          exact hs.move (fun _ h => (mem_listAdd h).imp_right (congrArg some)) (fun _ h => h)
            fun userId h => (hleft userId h).elim
        | lost =>
          cases h
          exact hs.move (fun _ h => (mem_listAdd h).imp_right (congrArg some)) (fun _ h => h)
            fun userId h => (hleft userId h).elim
        | failed =>
          cases h
          exact hs.move (fun _ h => .inl h) (fun _ h => h) fun userId h => (hleft userId h).elim
      · cases h
    · cases h
  | commit w reply =>
    have hstep := h
    simp only [AccountDeletion.step] at h
    split at h
    · rename_i user p now hw
      have hmine : ∀ userId, (s.places w).bind Place.listed = some userId → user.userId = userId := fun _ h => by
        rw [hw] at h
        exact Option.some.inj h
      cases configured with
      | true =>
        cases reply with
        | ok =>
          cases h
          refine hs.move (fun _ h => .inl h) (List.subset_append_right _ _) fun userId h _ => .inr ?_
          rw [hmine userId h]
          exact List.mem_cons_self
        | lost =>
          cases h
          refine hs.move (fun _ h => .inl h) (fun _ h => h) ?_
          exact fun userId h _ => .inl (congrArg some (hmine userId h))
        | failed =>
          cases h
          refine hs.move (fun _ h => .inl h) (fun _ h => h) ?_
          exact fun userId h _ => .inl (congrArg some (hmine userId h))
      | false =>
        have hnone : s'.list = [] := step_off (hoff rfl) hstep
        intro userId hmem
        rw [hnone] at hmem
        cases hmem
    · rename_i user p when_ entries todo hw
      have hleft : ∀ userId, (s.places w).bind Place.listed = some userId → False := fun _ h => by
        rw [hw] at h
        cases h
      split at h
      all_goals cases h
      all_goals exact hs.move (fun _ h => .inl h) (fun _ h => h) fun userId h => (hleft userId h).elim
    · cases h
  | rollback w ok =>
    simp only [AccountDeletion.step] at h
    split at h
    · rename_i locked listed hw
      have hmine : ∀ userId, (s.places w).bind Place.listed = some userId → listed = some userId := fun _ h => by
        rw [hw] at h
        exact h
      split at h
      · cases h
        refine hs.move (fun _ h => .inl h) (fun _ h => h) ?_
        exact fun userId h _ => .inl (hmine userId h)
      · cases h
        refine hs.move (fun _ h => .inl h) (List.subset_append_right _ _) fun userId h _ => .inr ?_
        rw [hmine userId h]
        exact List.mem_cons_self
    · cases h
  | check w ok =>
    simp only [AccountDeletion.step] at h
    split at h
    · rename_i user hw
      have hmine : ∀ userId, (s.places w).bind Place.listed = some userId → user = userId := fun _ h => by
        rw [hw] at h
        exact Option.some.inj h
      split at h
      · cases h
        refine hs.move (fun _ h => .inl h) (fun _ h => h) ?_
        exact fun userId h _ => .inl (congrArg some (hmine userId h))
      · cases h
        refine hs.move (fun _ h => .inl h) (List.subset_append_right _ _) fun userId h _ => .inr ?_
        rw [hmine userId h]
        exact List.mem_cons_self
    · cases h
  | forget w reply =>
    simp only [AccountDeletion.step] at h
    split at h
    · rename_i user hw
      have hmine : ∀ userId, (s.places w).bind Place.listed = some userId → user = userId := fun _ h => by
        rw [hw] at h
        exact Option.some.inj h
      split at h
      · cases h
        refine hs.move (fun _ h => .inl (mem_unlisted h)) (List.subset_append_right _ _) fun userId h hmem => ?_
        rw [← hmine userId h] at hmem
        obtain ⟨entry, hentry, heq⟩ := List.mem_map.mp hmem
        exact (of_decide_eq_true (List.mem_filter.mp hentry).2 heq).elim
      · cases h
        refine hs.move (fun _ h => .inl h) (List.subset_append_right _ _) fun userId h _ => .inr ?_
        rw [hmine userId h]
        exact List.mem_cons_self
    · cases h
  | crash w =>
    obtain ⟨p, hw, rfl⟩ := Option.map_eq_some_iff.mp h
    refine hs.move (fun _ h => .inl h) (List.subset_append_right _ _) fun userId h _ => .inr ?_
    rw [hw, Option.bind_some] at h
    rw [h]
    exact List.mem_cons_self

variable (userId s) in
/-- The account is there and not on the list, and no thread may still delete or list it. -/
structure Clear : Prop where
  there : userId ∈ s.tables.ids
  unlisted : userId ∉ s.list.map Prod.fst
  apart : ∀ w p, s.places w = some p → p.touches userId = false

/-- A thread moves that keeps away from the account. -/
theorem Clear.move (hc : Clear s userId) {p : Option Place} (hp : ∀ q, p = some q → q.touches userId = false)
    {tables : Tables} {list : List (Str × Int)} (hthere : userId ∈ tables.ids)
    (hunlisted : userId ∉ list.map Prod.fst) {locks : List Str} {results : List (W × Result)} {kept : List Str} :
    Clear (⟨tables, list, locks, put s.places w p, results, kept⟩ : Server W) userId :=
  ⟨hthere, hunlisted, forall_put hc.apart hp⟩

/-- A deletion leaves the other accounts. -/
theorem mem_ids_remove (a : Addressing) (p : DeletionPlan) (when_ : Int) {t : Tables} {user : User} (h : userId ∈ t.ids)
    (hother : user.userId ≠ userId) : userId ∈ (remove a t user p when_).ids := by
  obtain ⟨other, hmem, rfl⟩ := List.mem_map.mp h
  exact List.mem_map_of_mem (List.mem_filter.mpr ⟨hmem, decide_eq_true (Ne.symm hother)⟩)

theorem Clear.step (hc : Clear s userId) (hasks : asksFor a stored userId s l = false)
    (h : AccountDeletion.step a stored configured s l = some s') : Clear s' userId := by
  cases l with
  | edit t =>
    simp only [AccountDeletion.step] at h
    split at h
    · rename_i hstays
      cases h
      exact ⟨hstays hc.there, hc.unlisted, hc.apart⟩
    · cases h
  | request w name now =>
    simp only [AccountDeletion.step] at h
    split at h
    · cases h
    · cases h
      exact hc.move (forall_moved rfl) hc.there hc.unlisted
  | reapply w now dropped read =>
    simp only [AccountDeletion.step] at h
    have hless : userId ∉ (if dropped.landed then s.list.filter fun entry => now - keep < entry.2
        else s.list).map Prod.fst := by
      split
      · exact fun hmem => hc.unlisted (mem_unlisted hmem)
      · exact hc.unlisted
    split at h
    · cases h
    · split at h
      · cases h
        refine hc.move (forall_moved ?_) hc.there hless
        exact decide_eq_false hless
      · cases h
        exact ⟨hc.there, hless, hc.apart⟩
  | advance w ok =>
    obtain ⟨p, hw, h⟩ := Option.bind_eq_some_iff.mp h
    cases ok with
    | true =>
      obtain ⟨-, locks, p', rfl, hp'⟩ := advance_cases h hw
      exact hc.move (hp' userId (hc.apart w p hw) hasks) hc.there hc.unlisted
    | false =>
      obtain ⟨-, locks, p', rfl, hp'⟩ := stumble_cases h
      exact hc.move (hp' userId (hc.apart w p hw)) hc.there hc.unlisted
  | record w reply =>
    simp only [AccountDeletion.step] at h
    split at h
    · rename_i user p now hw
      have hother : user.userId ≠ userId := of_decide_eq_false (hc.apart w _ hw)
      have hadded : userId ∉ (listAdd s.list user.userId now).map Prod.fst := fun hmem =>
        (mem_listAdd hmem).elim hc.unlisted hother
      split at h
      · cases reply with
        | ok =>
          cases h
          refine hc.move (forall_moved ?_) hc.there hadded
          exact decide_eq_false hother
        | lost =>
          cases h
          exact hc.move (forall_moved rfl) hc.there hadded
        | failed =>
          cases h
          exact hc.move (forall_moved rfl) hc.there hc.unlisted
      · cases h
    · cases h
  | commit w reply =>
    simp only [AccountDeletion.step] at h
    split at h
    · rename_i user p now hw
      have hother : user.userId ≠ userId := of_decide_eq_false (hc.apart w _ hw)
      have hthere := mem_ids_remove a p now hc.there hother
      cases reply with
      | ok =>
        cases h
        exact hc.move forall_gone hthere hc.unlisted
      | lost =>
        cases h
        exact hc.move (forall_moved rfl) hthere hc.unlisted
      | failed =>
        cases h
        exact hc.move (forall_moved rfl) hc.there hc.unlisted
    · rename_i user p when_ entries todo hw
      obtain ⟨huser, htodo⟩ := Bool.or_eq_false_iff.mp (hc.apart w _ hw)
      have hthere := mem_ids_remove a p when_ hc.there (of_decide_eq_false huser)
      split at h
      · cases h
        refine hc.move (forall_moved ?_) hthere hc.unlisted
        exact htodo
      · cases h
        refine hc.move (forall_moved ?_) hc.there hc.unlisted
        exact htodo
    · cases h
  | rollback w ok =>
    simp only [AccountDeletion.step] at h
    split at h
    · split at h
      · cases h
        exact hc.move (forall_moved rfl) hc.there hc.unlisted
      · cases h
        exact hc.move forall_gone hc.there hc.unlisted
    · cases h
  | check w ok =>
    simp only [AccountDeletion.step] at h
    split at h
    · split at h
      · cases h
        exact hc.move (forall_moved rfl) hc.there hc.unlisted
      · cases h
        exact hc.move forall_gone hc.there hc.unlisted
    · cases h
  | forget w reply =>
    simp only [AccountDeletion.step] at h
    split at h
    · split at h
      · cases h
        exact hc.move forall_gone hc.there fun hmem => hc.unlisted (mem_unlisted hmem)
      · cases h
        exact hc.move forall_gone hc.there hc.unlisted
    · cases h
  | crash w =>
    obtain ⟨p, hw, rfl⟩ := Option.map_eq_some_iff.mp h
    exact hc.move forall_gone hc.there hc.unlisted

end

/-- An account that is there, that no call so far has left on the list, and that no call
or run of the list still has to do with, is not deleted unless its deletion is asked for
again. A call that raises leaves it on the list only where it has listed it and the check
after the rollback has not found it, or `forget` has not reached the list. -/
theorem failed_deletion_stays (a : Addressing) (stored : Str → Str) (configured : Bool) (t : Tables)
    (ls : List (Label W)) (s : Server W) (userId : Str)
    (hrun : exec (step a stored configured) (Server.new t) ls = some s)
    (hthere : userId ∈ s.tables.ids) (hkept : userId ∉ s.kept)
    (hdone : ∀ w p, s.places w = some p → p.touches userId = false ∧ p.listed ≠ some userId)
    (later : List (Label W)) (s' : Server W)
    (hasks : Along (step a stored configured) (fun s l => asksFor a stored userId s l = false) s later)
    (h : exec (step a stored configured) s later = some s') : userId ∈ s'.tables.ids := by
  have hs : Accounted s ∧ (configured = false → s.list = []) :=
    exec_history (I := fun _ s => Accounted s ∧ (configured = false → s.list = []))
      ⟨Accounted.new t, fun _ => rfl⟩
      (fun _ _ _ _ _ hs h => ⟨hs.1.step hs.2 h, fun hoff => by subst hoff; exact step_off (hs.2 rfl) h⟩) hrun
  have hunlisted : userId ∉ s.list.map Prod.fst := by
    intro hmem
    obtain hkeep | ⟨w, p, hw, hlisted⟩ := hs.1 userId hmem
    · exact hkept hkeep
    · exact (hdone w p hw).2 hlisted
  have hclear : Clear s userId := ⟨hthere, hunlisted, fun w p hw => (hdone w p hw).1⟩
  have hlater : Clear s' userId :=
    exec_invariant (I := fun s => Clear s userId) (fun _ _ _ hc hok h => hc.step hok h) hclear hasks h
  exact hlater.there

def exampleId : Str := "usr_1".toList

def exampleTables : Tables where
  users := [⟨exampleId, some "a@example.com".toList, some 0⟩]
  memberships := []
  rows := []
  stones := []

/-- A call whose commit does not land: it finds the account after the rollback. -/
def failedCall : List (Label Bool) :=
  [.request true (.email " A@example.com".toList) 10, .advance true true, .advance true true, .advance true true,
    .record true .ok, .commit true .failed, .rollback true true, .check true true]

/-- A run of the list. -/
def hourlyRun : List (Label Bool) :=
  [.reapply false 20 .ok true, .advance false true, .advance false true, .commit false .ok, .advance false true]

theorem failed_deletion_stays_forgotten :
    ∃ s, exec (step exampleAddressing id true) (Server.new exampleTables) (failedCall ++ [.forget true .lost]) = some s ∧
      s.results = [(true, .raised)] ∧
      ∃ s', exec (step exampleAddressing id true) s [.reapply false 20 .ok true, .advance false true, .advance false true] =
          some s' ∧ exampleId ∈ s'.tables.ids := by
  have hrun : ∃ s ∈ exec (step exampleAddressing id true) (Server.new exampleTables) (failedCall ++ [.forget true .lost]),
      s.results = [(true, .raised)] ∧ exampleId ∈ s.tables.ids ∧ exampleId ∉ s.kept ∧ (∀ w, s.places w = none) ∧
      Along (step exampleAddressing id true) (fun s l => asksFor exampleAddressing id exampleId s l = false) s
        [.reapply false 20 .ok true, .advance false true, .advance false true] ∧
      (exec (step exampleAddressing id true) s [.reapply false 20 .ok true, .advance false true, .advance false true]).isSome := by
    decide +kernel
  obtain ⟨s, hs, hresults, hthere, hkept, hidle, hasks, hlater⟩ := hrun
  obtain ⟨s', hs'⟩ := Option.isSome_iff_exists.mp hlater
  have hdone : ∀ w p, s.places w = some p → p.touches exampleId = false ∧ p.listed ≠ some exampleId := by
    intro w p hw
    rw [hidle w] at hw
    cases hw
  exact ⟨s, hs, hresults, s', hs', failed_deletion_stays exampleAddressing id true exampleTables _ s exampleId hs hthere
    hkept hdone _ s' hasks hs'⟩

/-- When `forget` does not reach the list, the next run of the list deletes the account,
though the call has raised. -/
theorem failed_deletion_applied_again :
    ∃ s, exec (step exampleAddressing id true) (Server.new exampleTables) (failedCall ++ [.forget true .failed]) = some s ∧
      s.results = [(true, .raised)] ∧ exampleId ∈ s.tables.ids ∧ (∀ w, s.places w = none) ∧
      Along (step exampleAddressing id true) (fun s l => asksFor exampleAddressing id exampleId s l = false) s hourlyRun ∧
      ∃ s', exec (step exampleAddressing id true) s hourlyRun = some s' ∧ exampleId ∉ s'.tables.ids := by
  decide +kernel

end CiteVyn.Services.AccountDeletion
