import CiteVyn.Lib.Locks
import CiteVyn.Lib.Runs
import CiteVyn.Lib.Threads
import CiteVyn.Text.Python
import Mathlib.Data.List.Nodup

/-! # External identities and the accounts they map to

`_resolve_or_create_identity` and `_link_identity` of `app/api/routes/oauth.py`,
and the registration of `app/api/routes/auth.py`. Each request reads the tables,
inserts what it has not found and commits at its end; an inserted row keeps its
unique key from every other transaction until then. -/
namespace CiteVyn.Auth
open CiteVyn.Lib.Locks CiteVyn.Lib.Runs CiteVyn.Lib.Threads CiteVyn.Text

/-! ## Rows -/

/-- A `user_id`: a prefix and a `uuid4`. -/
inductive UserId where
  | usr (id : Nat)
  | anon (id : Nat)
  deriving DecidableEq, Repr

/-- `is_registered_principal`. -/
def UserId.isRegistered : UserId → Bool
  | usr _ => true
  | anon _ => false

/-- `startswith(ANONYMOUS_USER_PREFIX)`. -/
def UserId.isAnonymous : UserId → Bool
  | usr _ => false
  | anon _ => true

inductive Provider where
  | github
  | google
  deriving DecidableEq, Repr

/-- `(provider, provider_account_id)`. -/
structure External where
  provider : Provider
  accountId : Str
  deriving DecidableEq, Repr

/-- `User`. -/
structure User where
  userId : UserId
  email : Option Str
  deriving DecidableEq, Repr

/-- `UserIdentity`. -/
structure UserIdentity where
  external : External
  userId : UserId
  deriving DecidableEq, Repr

structure Tables where
  users : List User
  identities : List UserIdentity
  deriving DecidableEq, Repr

/-- The account that an external identity maps to. -/
def Tables.owner (t : Tables) (e : External) : Option UserId :=
  (t.identities.find? fun i => i.external = e).map UserIdentity.userId

/-- The address is stored. -/
def Tables.emailTaken (t : Tables) (email : Str) : Bool := t.users.any fun user => user.email = some email

/-- A value that a unique constraint is on. -/
inductive UniqueKey where
  /-- `ix_users_email` -/
  | email (email : Str)
  /-- `uq_user_identities_provider_account` -/
  | external (e : External)
  deriving DecidableEq, Repr

/-- A committed row has the value. -/
def Tables.stored (t : Tables) : UniqueKey → Bool
  | .email email => t.emailTaken email
  | .external e => (t.owner e).isSome

/-! ## Requests -/

/-- `_Identity`, as a provider reports it. -/
structure Identity where
  providerAccountId : Str
  email : Option Str
  emailVerified : Bool
  deriving DecidableEq, Repr

/-- `email_for_new_user`, before the address is looked up. -/
def Identity.emailForNewUser (identity : Identity) : Option Str :=
  match identity.email with
  | some email =>
    if identity.emailVerified && !email.isEmpty && email.all (·.toNat < 128) then
      some (lower (strip email))
    else none
  | none => none

/-- `LinkResult`. -/
inductive LinkResult where
  | linked
  | alreadyLinkedSame
  | linkedElsewhere
  deriving DecidableEq, Repr

/-- A login: the identity, the address for a new user and the id it would get. -/
structure Login where
  external : External
  email : Option Str
  newUser : UserId
  deriving DecidableEq, Repr

/-- Where a request is. -/
inductive Request where
  /-- about to look the identity up -/
  | login (r : Login)
  /-- about to look the address up -/
  | missed (r : Login)
  /-- about to insert the user -/
  | checked (r : Login)
  | userFlushed (r : Login)
  /-- about to read the winner -/
  | rolledBack (e : External)
  /-- `_resolve_or_create_identity` has returned, and nothing is inserted -/
  | resolved (e : External) (result : Option UserId)
  /-- it has returned the new user -/
  | created (r : Login)
  | link (e : External) (target : UserId)
  | linkMissed (e : External) (target : UserId)
  | linkRolledBack (e : External) (target : UserId)
  /-- `_link_identity` has returned -/
  | linkReturned (e : External) (target : UserId) (result : LinkResult)
  | register (email : Str) (newUser : UserId)
  | registering (email : Str) (newUser : UserId)
  | registered (email : Str) (newUser : UserId)
  deriving DecidableEq, Repr

/-- What a request does next. -/
inductive Action where
  | goto (r : Request)
  /-- to insert a row with a unique value, if it has one, or to roll back on a
  conflict and go on, if it does -/
  | insert (key : Option UniqueKey) (r : Request) (conflict : Option Request)
  | commit
  | stop

/-- `winner` as a connect reads it. -/
def linkOutcome (target : UserId) (owner : Option UserId) : LinkResult :=
  if owner = some target then .alreadyLinkedSame else .linkedElsewhere

/-- The next statement of a request, on the committed rows. -/
def Request.next (t : Tables) : Request → Action
  | .login r =>
    match t.owner r.external with
    | some user => .goto (.resolved r.external (some user))
    | none => .goto (.missed r)
  | .missed r => .goto (.checked { r with email := r.email.filter fun email => !t.emailTaken email })
  | .checked r => .insert (r.email.map .email) (.userFlushed r) (some (.rolledBack r.external))
  | .userFlushed r =>
    .insert (some (.external r.external)) (.created r) (some (.rolledBack r.external))
  | .rolledBack e => .goto (.resolved e (t.owner e))
  | .resolved _ _ | .created _ => .commit
  | .link e target =>
    match t.owner e with
    | some user => .goto (.linkReturned e target (linkOutcome target (some user)))
    | none => .goto (.linkMissed e target)
  | .linkMissed e target =>
    .insert (some (.external e)) (.linkReturned e target .linked) (some (.linkRolledBack e target))
  | .linkRolledBack e target => .goto (.linkReturned e target (linkOutcome target (t.owner e)))
  | .linkReturned _ _ _ => .commit
  | .register email newUser =>
    if t.emailTaken email then .stop else .goto (.registering email newUser)
  | .registering email newUser => .insert (some (.email email)) (.registered email newUser) none
  | .registered _ _ => .commit

/-- The user that the transaction of a request has inserted. -/
def Request.pendingUser : Request → Option User
  | .userFlushed r | .created r => some ⟨r.newUser, r.email⟩
  | .registered email newUser => some ⟨newUser, some email⟩
  | _ => none

/-- The identity that the transaction of a request has inserted. -/
def Request.pendingIdentity : Request → Option UserIdentity
  | .created r => some ⟨r.external, r.newUser⟩
  | .linkReturned e target .linked => some ⟨e, target⟩
  | _ => none

/-- The id that a request has drawn. -/
def Request.newUser : Request → Option UserId
  | .login r | .missed r | .checked r | .userFlushed r | .created r => some r.newUser
  | .register _ newUser | .registering _ newUser | .registered _ newUser => some newUser
  | _ => none

/-- What a request has returned once it has committed. -/
inductive Answer where
  | login (e : External) (result : Option UserId)
  | link (e : External) (target : UserId) (result : LinkResult)
  deriving DecidableEq, Repr

def Request.answer : Request → Option Answer
  | .resolved e result => some (.login e result)
  | .created r => some (.login r.external (some r.newUser))
  | .linkReturned e target result => some (.link e target result)
  | _ => none

/-! ## The system -/

variable {W : Type}

structure World (W : Type) where
  /-- the committed rows -/
  tables : Tables
  /-- the unique values of the rows inserted and not committed -/
  locks : List (UniqueKey × W)
  requests : W → Option Request
  /-- the ids that have been drawn -/
  drawn : List UserId
  answers : List Answer

inductive Label (W : Type) where
  /-- a request arrives, with the id it would give to a new user -/
  | login (h : W) (provider : Provider) (identity : Identity) (newUser : Nat)
  | link (h : W) (provider : Provider) (identity : Identity) (target : UserId)
  | register (h : W) (email : Str) (newUser : Nat)
  | advance (h : W)
  /-- the request dies, and its transaction is rolled back -/
  | fail (h : W)

variable [DecidableEq W]

def World.goto (w : World W) (h : W) (r : Request) : World W :=
  { w with requests := put w.requests h (some r) }

/-- The row is inserted, and its unique value taken. -/
def World.take (w : World W) (h : W) (key : UniqueKey) (r : Request) : World W :=
  { w with locks := acquire w.locks key h, requests := put w.requests h (some r) }

/-- The transaction ends without its rows; the request goes on, or not. -/
def World.rollback (w : World W) (h : W) (r : Option Request) : World W :=
  { w with locks := release w.locks h, requests := put w.requests h r }

/-- The rows of a request join the tables. -/
def Tables.add (t : Tables) (r : Request) : Tables where
  users := r.pendingUser.toList ++ t.users
  identities := r.pendingIdentity.toList ++ t.identities

def World.commit (w : World W) (h : W) (r : Request) : World W :=
  { w with
    tables := w.tables.add r
    locks := release w.locks h
    requests := put w.requests h none
    answers := r.answer.toList ++ w.answers }

/-- A request arrives, with a new id if it needs one. -/
def World.arrive (w : World W) (h : W) (r : Request) : Option (World W) :=
  match w.requests h, r.newUser with
  | some _, _ => none
  | none, none => some (w.goto h r)
  | none, some id =>
    if id ∈ w.drawn then none else some { w.goto h r with drawn := id :: w.drawn }

def World.act (w : World W) (h : W) (r : Request) : Action → Option (World W)
  | .goto r' => some (w.goto h r')
  | .insert none r' _ => some (w.goto h r')
  | .insert (some key) r' conflict =>
    if w.tables.stored key then some (w.rollback h conflict)
    else if free w.locks key h then some (w.take h key r')
    else none
  | .commit => some (w.commit h r)
  | .stop => some (w.rollback h none)

def step (w : World W) : Label W → Option (World W)
  | .login h provider identity newUser =>
    w.arrive h (.login ⟨⟨provider, identity.providerAccountId⟩, identity.emailForNewUser, .usr newUser⟩)
  | .link h provider identity target =>
    if target ∈ w.tables.users.map User.userId then
      w.arrive h (.link ⟨provider, identity.providerAccountId⟩ target)
    else none
  | .register h email newUser => w.arrive h (.register email (.usr newUser))
  | .advance h =>
    match w.requests h with
    | some r => w.act h r (r.next w.tables)
    | none => none
  | .fail h =>
    match w.requests h with
    | some _ => some (w.rollback h none)
    | none => none

/-! ## Mappings -/

/-- No mapping is lost or changed. -/
def Tables.Keeps (t t' : Tables) : Prop := ∀ e user, t.owner e = some user → t'.owner e = some user

theorem owner_add {t : Tables} {r : Request} {i : UserIdentity} (h : r.pendingIdentity = some i)
    (e : External) : (t.add r).owner e = if i.external = e then some i.userId else t.owner e := by
  simp only [Tables.owner, Tables.add, h, Option.toList_some, List.singleton_append, List.find?_cons]
  split <;> rename_i heq
  · simp [of_decide_eq_true heq]
  · simp [of_decide_eq_false heq]

theorem owner_add_none {t : Tables} {r : Request} (h : r.pendingIdentity = none) (e : External) :
    (t.add r).owner e = t.owner e := by
  simp [Tables.owner, Tables.add, h]

theorem keeps_add {t : Tables} {r : Request}
    (h : ∀ i ∈ r.pendingIdentity, t.owner i.external = none) : t.Keeps (t.add r) := by
  intro e user howner
  cases hi : r.pendingIdentity with
  | none => rwa [owner_add_none hi]
  | some i =>
    have hne : i.external ≠ e := by
      rintro rfl
      rw [h i hi] at howner
      cases howner
    rwa [owner_add hi, if_neg hne]

/-- What a request has read or returned is so. -/
def Request.Truthful (t : Tables) : Request → Prop
  | .resolved e (some user) => t.owner e = some user
  | .linkRolledBack e _ => ∃ user, t.owner e = some user
  | .linkReturned e target .alreadyLinkedSame => t.owner e = some target
  | .linkReturned e target .linkedElsewhere => ∃ user, user ≠ target ∧ t.owner e = some user
  | _ => True

/-- What a request has answered is so. -/
def Answer.Truthful (t : Tables) : Answer → Prop
  | .login e (some user) => t.owner e = some user
  | .login _ none => True
  | .link e target .linkedElsewhere => ∃ user, user ≠ target ∧ t.owner e = some user
  | .link e target _ => t.owner e = some target

theorem Request.Truthful.mono {t t' : Tables} (hkeeps : t.Keeps t') {r : Request}
    (h : r.Truthful t) : r.Truthful t' := by
  unfold Request.Truthful at h ⊢
  split at h
  · exact hkeeps _ _ h
  · obtain ⟨user, h⟩ := h
    exact ⟨user, hkeeps _ _ h⟩
  · exact hkeeps _ _ h
  · obtain ⟨user, hne, h⟩ := h
    exact ⟨user, hne, hkeeps _ _ h⟩
  · trivial

theorem Answer.Truthful.mono {t t' : Tables} (hkeeps : t.Keeps t') {a : Answer}
    (h : a.Truthful t) : a.Truthful t' := by
  unfold Answer.Truthful at h ⊢
  split at h
  · exact hkeeps _ _ h
  · trivial
  · obtain ⟨user, hne, h⟩ := h
    exact ⟨user, hne, hkeeps _ _ h⟩
  · exact hkeeps _ _ h

theorem linkOutcome_truthful {t : Tables} {e : External} {target user : UserId}
    (h : t.owner e = some user) :
    (Request.linkReturned e target (linkOutcome target (some user))).Truthful t := by
  unfold linkOutcome
  split
  · rename_i heq
    rwa [Option.some.inj heq] at h
  · rename_i hne
    exact ⟨user, fun heq => hne (congrArg some heq), h⟩

/-! ## The invariant -/

/-- What the next statement of a request gives, on the rows it reads: a place
whose readings are so, with an inserted identity only under its own key. -/
def Action.Sound (t : Tables) : Action → Prop
  | .goto r => r.Truthful t ∧ r.pendingIdentity = none
  | .insert key r conflict =>
    r.Truthful t ∧ (∀ i ∈ r.pendingIdentity, key = some (.external i.external)) ∧
      ∀ k ∈ key, t.stored k = true → ∀ c ∈ conflict, c.Truthful t ∧ c.pendingIdentity = none
  | .commit | .stop => True

theorem linkOutcome_not_linked (target : UserId) (owner : Option UserId) (e : External) :
    (Request.linkReturned e target (linkOutcome target owner)).pendingIdentity = none := by
  unfold linkOutcome
  split <;> rfl

theorem next_sound {t : Tables} {r : Request} (h : r.Truthful t) : (r.next t).Sound t := by
  cases r with
  | login r =>
    cases howner : t.owner r.external with
    | some user =>
      simp only [Request.next, howner]
      exact ⟨howner, rfl⟩
    | none =>
      simp only [Request.next, howner]
      exact ⟨trivial, rfl⟩
  | missed r => exact ⟨trivial, rfl⟩
  | checked r =>
    refine ⟨trivial, fun i hi => (Option.not_mem_none i hi).elim, fun k _ _ c hc => ?_⟩
    obtain rfl := Option.some.inj hc
    exact ⟨trivial, rfl⟩
  | userFlushed r =>
    refine ⟨trivial, fun i hi => ?_, fun k _ _ c hc => ?_⟩
    · obtain rfl := Option.some.inj hi
      rfl
    · obtain rfl := Option.some.inj hc
      exact ⟨trivial, rfl⟩
  | rolledBack e =>
    refine ⟨?_, rfl⟩
    cases howner : t.owner e with
    | some user => exact howner
    | none => trivial
  | resolved e result => trivial
  | created r => trivial
  | link e target =>
    cases howner : t.owner e with
    | some user =>
      simp only [Request.next, howner]
      exact ⟨linkOutcome_truthful howner, linkOutcome_not_linked _ _ _⟩
    | none =>
      simp only [Request.next, howner]
      exact ⟨trivial, rfl⟩
  | linkMissed e target =>
    refine ⟨trivial, fun i hi => ?_, fun k hk hstored c hc => ?_⟩
    · obtain rfl := Option.some.inj hi
      rfl
    · obtain rfl := Option.some.inj hk
      obtain rfl := Option.some.inj hc
      exact ⟨Option.isSome_iff_exists.mp hstored, rfl⟩
  | linkRolledBack e target =>
    obtain ⟨user, howner⟩ := h
    simp only [Request.next, howner]
    exact ⟨linkOutcome_truthful howner, linkOutcome_not_linked _ _ _⟩
  | linkReturned e target result => trivial
  | register email newUser =>
    simp only [Request.next]
    split
    · trivial
    · exact ⟨trivial, rfl⟩
  | registering email newUser =>
    exact ⟨trivial, fun i hi => (Option.not_mem_none i hi).elim,
      fun k _ _ c hc => (Option.not_mem_none c hc).elim⟩
  | registered email newUser => trivial

structure Inv (w : World W) : Prop where
  exclusive : Exclusive w.locks
  distinct : (w.tables.identities.map UserIdentity.external).Nodup
  held : ∀ h r, w.requests h = some r → ∀ i ∈ r.pendingIdentity,
    (.external i.external, h) ∈ w.locks ∧ w.tables.owner i.external = none
  truthful : ∀ h r, w.requests h = some r → r.Truthful w.tables
  answered : ∀ a ∈ w.answers, a.Truthful w.tables

theorem Inv.goto {w : World W} {h : W} {r : Request} (hinv : Inv w) (hr : r.Truthful w.tables)
    (hnone : r.pendingIdentity = none) : Inv (w.goto h r) where
  exclusive := hinv.exclusive
  distinct := hinv.distinct
  held := forall_put hinv.held fun r' heq i hi => by
    obtain rfl := Option.some.inj heq
    rw [hnone] at hi
    cases hi
  truthful := forall_put hinv.truthful (forall_moved hr)
  answered := hinv.answered

theorem Inv.take {w : World W} {h : W} {key : UniqueKey} {r : Request} (hinv : Inv w)
    (hfree : free w.locks key h = true) (hstored : w.tables.stored key = false)
    (hr : r.Truthful w.tables) (hkey : ∀ i ∈ r.pendingIdentity, some key = some (.external i.external)) :
    Inv (w.take h key r) where
  exclusive := hinv.exclusive.acquire hfree
  distinct := hinv.distinct
  held := by
    refine forall_put (fun h' r' hr' i hi => ?_) fun r' heq i hi => ?_
    · exact ⟨mem_acquire (hinv.held h' r' hr' i hi).1, (hinv.held h' r' hr' i hi).2⟩
    · obtain rfl := Option.some.inj heq
      obtain rfl := Option.some.inj (hkey i hi)
      refine ⟨acquired _ _ _, ?_⟩
      change w.tables.owner i.external = none
      simpa [Tables.stored] using hstored
  truthful := forall_put hinv.truthful (forall_moved hr)
  answered := hinv.answered

/-- The others keep their locks when one releases its own. -/
theorem Inv.others_hold {w : World W} {h : W} (hinv : Inv w) {r : Option Request}
    (hr : ∀ r', r = some r' → r'.pendingIdentity = none) :
    ∀ h' r', put w.requests h r h' = some r' → ∀ i ∈ r'.pendingIdentity,
      (.external i.external, h') ∈ release w.locks h ∧ w.tables.owner i.external = none := by
  intro h' r' hr' i hi
  rcases put_cases hr' with ⟨_, hmoved⟩ | ⟨hne, hthere⟩
  · rw [hr r' hmoved] at hi
    cases hi
  · obtain ⟨hlock, howner⟩ := hinv.held h' r' hthere i hi
    exact ⟨mem_release hne hlock, howner⟩

theorem Inv.rollback {w : World W} {h : W} {r : Option Request} (hinv : Inv w)
    (hr : ∀ r', r = some r' → r'.Truthful w.tables ∧ r'.pendingIdentity = none) :
    Inv (w.rollback h r) where
  exclusive := hinv.exclusive.release h
  distinct := hinv.distinct
  held := hinv.others_hold fun r' heq => (hr r' heq).2
  truthful := forall_put hinv.truthful fun r' heq => (hr r' heq).1
  answered := hinv.answered

/-- The identity that a request has inserted is not mapped. -/
theorem Inv.keeps_commit {w : World W} {h : W} {r : Request} (hinv : Inv w)
    (hr : w.requests h = some r) : w.tables.Keeps (w.commit h r).tables :=
  keeps_add fun i hi => (hinv.held h r hr i hi).2

theorem not_owned {t : Tables} {e : External} (h : t.owner e = none) :
    e ∉ t.identities.map UserIdentity.external := by
  intro hmem
  obtain ⟨i, hi, rfl⟩ := List.mem_map.mp hmem
  rw [Tables.owner, Option.map_eq_none_iff, List.find?_eq_none] at h
  exact h i hi (decide_eq_true rfl)

theorem answer_truthful {t : Tables} {r : Request} (h : r.Truthful t)
    (hpending : ∀ i ∈ r.pendingIdentity, t.owner i.external = none) :
    ∀ a ∈ r.answer, a.Truthful (t.add r) := by
  have hkeeps := keeps_add hpending
  intro a ha
  cases r with
  | resolved e result =>
    obtain rfl := Option.some.inj ha
    cases result with
    | some user => exact hkeeps _ _ h
    | none => trivial
  | created r =>
    obtain rfl := Option.some.inj ha
    exact (owner_add rfl _).trans (if_pos rfl)
  | linkReturned e target result =>
    obtain rfl := Option.some.inj ha
    cases result with
    | linked => exact (owner_add rfl _).trans (if_pos rfl)
    | alreadyLinkedSame => exact hkeeps _ _ h
    | linkedElsewhere =>
      obtain ⟨user, hne, howner⟩ := h
      exact ⟨user, hne, hkeeps _ _ howner⟩
  | _ => cases ha

theorem Inv.commit {w : World W} {h : W} {r : Request} (hinv : Inv w)
    (hr : w.requests h = some r) : Inv (w.commit h r) where
  exclusive := hinv.exclusive.release h
  distinct := by
    change ((r.pendingIdentity.toList ++ w.tables.identities).map UserIdentity.external).Nodup
    cases hi : r.pendingIdentity with
    | none => exact hinv.distinct
    | some i =>
      exact List.nodup_cons.mpr ⟨not_owned (hinv.held h r hr i hi).2, hinv.distinct⟩
  held := by
    intro h' r' hr' i hi
    rcases put_cases hr' with ⟨_, hmoved⟩ | ⟨hne, hthere⟩
    · cases hmoved
    · obtain ⟨hlock, howner⟩ := hinv.held h' r' hthere i hi
      refine ⟨mem_release hne hlock, ?_⟩
      change (w.tables.add r).owner i.external = none
      cases hj : r.pendingIdentity with
      | none => rwa [owner_add_none hj]
      | some j =>
        -- the two rows have keys of their own, since each is locked by its writer
        have hkeys : j.external ≠ i.external := by
          intro heq
          exact hne (hinv.exclusive _ _ _ hlock (heq ▸ (hinv.held h r hr j hj).1))
        rwa [owner_add hj, if_neg hkeys]
  truthful := by
    refine forall_put (fun h' r' hr' => ?_) forall_gone
    exact (hinv.truthful h' r' hr').mono (hinv.keeps_commit hr)
  answered := by
    intro a ha
    rcases List.mem_append.mp ha with ha | ha
    · exact answer_truthful (hinv.truthful h r hr) (fun i hi => (hinv.held h r hr i hi).2) a
        (Option.mem_toList.mp ha)
    · exact (hinv.answered a ha).mono (hinv.keeps_commit hr)

theorem Inv.act {w w' : World W} {h : W} {r : Request} {action : Action} (hinv : Inv w)
    (hr : w.requests h = some r) (hsound : action.Sound w.tables) (hact : w.act h r action = some w') :
    Inv w' ∧ w.tables.Keeps w'.tables := by
  cases action with
  | goto r' =>
    obtain rfl := Option.some.inj hact
    exact ⟨hinv.goto hsound.1 hsound.2, fun _ _ h => h⟩
  | insert key r' conflict =>
    obtain ⟨htruthful, hkey, hconflict⟩ := hsound
    cases key with
    | none =>
      obtain rfl := Option.some.inj hact
      refine ⟨hinv.goto htruthful ?_, fun _ _ h => h⟩
      exact Option.eq_none_iff_forall_not_mem.mpr fun i hi => by cases hkey i hi
    | some key =>
      rw [World.act] at hact
      split at hact
      · rename_i hstored
        obtain rfl := Option.some.inj hact
        exact ⟨hinv.rollback (hconflict key rfl hstored), fun _ _ h => h⟩
      · rename_i hstored
        split at hact
        · rename_i hfree
          obtain rfl := Option.some.inj hact
          exact ⟨hinv.take hfree (Bool.not_eq_true _ ▸ hstored) htruthful hkey, fun _ _ h => h⟩
        · cases hact
  | commit =>
    obtain rfl := Option.some.inj hact
    exact ⟨hinv.commit hr, hinv.keeps_commit hr⟩
  | stop =>
    obtain rfl := Option.some.inj hact
    exact ⟨hinv.rollback fun r' heq => (by cases heq), fun _ _ h => h⟩

theorem Inv.arrive {w w' : World W} {h : W} {r : Request} (hinv : Inv w)
    (hr : r.Truthful w.tables) (hnone : r.pendingIdentity = none) (harrive : w.arrive h r = some w') :
    Inv w' ∧ w.tables.Keeps w'.tables := by
  have hgoto : Inv (w.goto h r) := hinv.goto hr hnone
  unfold World.arrive at harrive
  split at harrive
  · cases harrive
  · obtain rfl := Option.some.inj harrive
    exact ⟨hgoto, fun _ _ h => h⟩
  · split at harrive
    · cases harrive
    · obtain rfl := Option.some.inj harrive
      exact ⟨⟨hgoto.exclusive, hgoto.distinct, hgoto.held, hgoto.truthful, hgoto.answered⟩,
        fun _ _ h => h⟩

theorem Inv.step {w w' : World W} {l : Label W} (hinv : Inv w) (hstep : step w l = some w') :
    Inv w' ∧ w.tables.Keeps w'.tables := by
  cases l with
  | login h provider identity newUser => exact hinv.arrive (by trivial) rfl hstep
  | link h provider identity target =>
    simp only [Auth.step] at hstep
    split at hstep
    · exact hinv.arrive (by trivial) rfl hstep
    · cases hstep
  | register h email newUser => exact hinv.arrive (by trivial) rfl hstep
  | advance h =>
    simp only [Auth.step] at hstep
    split at hstep
    · rename_i r hr
      exact hinv.act hr (next_sound (hinv.truthful h r hr)) hstep
    · cases hstep
  | fail h =>
    simp only [Auth.step] at hstep
    split at hstep
    · obtain rfl := Option.some.inj hstep
      exact ⟨hinv.rollback fun r' heq => (by cases heq), fun _ _ h => h⟩
    · cases hstep

/-- No request has arrived. -/
def World.new (t : Tables) : World W := ⟨t, [], idle, t.users.map User.userId, []⟩

omit [DecidableEq W] in
theorem Inv.new {t : Tables} (h : (t.identities.map UserIdentity.external).Nodup) :
    Inv (World.new t : World W) where
  exclusive := exclusive_nil
  distinct := h
  held := fun _ _ h => by cases h
  truthful := fun _ _ h => by cases h
  answered := fun _ h => by cases h

/-- A run keeps the invariant, and the mappings with it. -/
theorem Inv.exec {w w' : World W} {ls : List (Label W)} (hinv : Inv w)
    (h : exec Auth.step w ls = some w') : Inv w' ∧ w.tables.Keeps w'.tables := by
  induction ls generalizing w with
  | nil =>
    obtain rfl := Option.some.inj h
    exact ⟨hinv, fun _ _ h => h⟩
  | cons l ls ih =>
    obtain ⟨w₁, hl, hrest⟩ := exec_cons h
    obtain ⟨hinv₁, hkeeps₁⟩ := hinv.step hl
    obtain ⟨hinv', hkeeps'⟩ := ih hinv₁ hrest
    exact ⟨hinv', fun e user howner => hkeeps' e user (hkeeps₁ e user howner)⟩

/-- Whatever the interleaving, an identity maps to one user, for good, and what
the connects and the logins have returned agrees with it. -/
theorem mapping_stable {t : Tables} (ht : (t.identities.map UserIdentity.external).Nodup)
    {ls ls' : List (Label W)} {w w' : World W} (h : exec step (World.new t) ls = some w)
    (h' : exec step w ls' = some w') :
    (w'.tables.identities.map UserIdentity.external).Nodup ∧
      (∀ e user, w.tables.owner e = some user → w'.tables.owner e = some user) ∧
      (∀ e target result, .link e target result ∈ w.answers →
        (w'.tables.owner e).isSome ∧ (result = .linkedElsewhere ↔ w'.tables.owner e ≠ some target)) ∧
      (∀ e user, .login e (some user) ∈ w.answers → w'.tables.owner e = some user) ∧
      -- before the commit, of the tables with the rows of the request
      ∀ i r, w.requests i = some r → ∀ a ∈ r.answer, a.Truthful (w.tables.add r) := by
  obtain ⟨hinv, -⟩ := (Inv.new ht).exec h
  obtain ⟨hinv', hkeeps⟩ := hinv.exec h'
  have hanswered : ∀ a ∈ w.answers, a.Truthful w'.tables := fun a ha => (hinv.answered a ha).mono hkeeps
  refine ⟨hinv'.distinct, hkeeps, fun e target result ha => ?_, fun e user ha => hanswered _ ha,
    fun i r hr => answer_truthful (hinv.truthful i r hr) fun j hj => (hinv.held i r hr j hj).2⟩
  cases result with
  | linkedElsewhere =>
    obtain ⟨user, hne, howner⟩ := hanswered _ ha
    simp [howner, hne]
  | _ => simp [show w'.tables.owner e = some target from hanswered _ ha]

/-- Two first logins with one account of a provider, and a connect of it. -/
def racing : List (Label Nat) :=
  let octocat : Identity := ⟨"583231".toList, none, false⟩
  [.login 0 .github octocat 1, .login 1 .github octocat 2, .link 2 .github octocat (.usr 0),
    .advance 0, .advance 1, .advance 2, .advance 0, .advance 1, .advance 0, .advance 1,
    .advance 0, .advance 0]

theorem mapping_stable_racing :
    ∃ w w', exec step (World.new ⟨[⟨.usr 0, none⟩], []⟩) racing = some w ∧
      exec step w [.advance 1, .advance 1, .advance 1, .advance 2, .advance 2, .advance 2] = some w' ∧
      w'.tables.owner ⟨.github, "583231".toList⟩ = some (.usr 1) ∧
      (w'.tables.identities.map UserIdentity.external).Nodup := by
  have hrun : ∃ w ∈ exec step (World.new ⟨[⟨.usr 0, none⟩], []⟩) racing,
      .login ⟨.github, "583231".toList⟩ (some (.usr 1)) ∈ w.answers ∧
      ∃ w' ∈ exec step w [.advance 1, .advance 1, .advance 1, .advance 2, .advance 2, .advance 2],
        w'.answers.length = 3 := by
    decide +kernel
  obtain ⟨w, hw, ha, w', hw', -⟩ := hrun
  obtain ⟨hnodup, -, -, hlogin, -⟩ :=
    mapping_stable (t := ⟨[⟨.usr 0, none⟩], []⟩) (by decide) hw hw'
  exact ⟨w, w', hw, hw', hlogin _ _ ha, hnodup⟩

/-! ## Logins that return no user -/

/-- The address that a login has looked up as free is not stored when the login
inserts its user, or its identity is mapped by then. -/
def Request.addressFree (t : Tables) : Request → Bool
  | .checked r => (r.email.all fun email => !t.emailTaken email) || (t.owner r.external).isSome
  | _ => true

def addressFree (w : World W) : Label W → Bool
  | .advance h => (w.requests h).all fun r => r.addressFree w.tables
  | _ => true

/-- The places that an action may lead to. -/
def Action.Leads (t : Tables) (q : Request) : Action → Prop
  | .goto r => q = r
  | .insert key r conflict => q = r ∨ ∃ k, key = some k ∧ t.stored k = true ∧ conflict = some q
  | .commit | .stop => False

/-- What an action does: it moves the request, or it commits. -/
theorem act_effect {w w' : World W} {h : W} {r : Request} {action : Action}
    (hact : w.act h r action = some w') :
    ∃ r', w'.requests = put w.requests h r' ∧ w'.drawn = w.drawn ∧
      ((w'.tables = w.tables ∧ w'.answers = w.answers ∧ ∀ q, r' = some q → action.Leads w.tables q) ∨
        (action = .commit ∧ r' = none ∧ w'.tables = w.tables.add r ∧
          w'.answers = r.answer.toList ++ w.answers)) := by
  cases action with
  | goto r' =>
    obtain rfl := Option.some.inj hact
    exact ⟨some r', rfl, rfl, .inl ⟨rfl, rfl, fun q hq => (Option.some.inj hq).symm⟩⟩
  | insert key r' conflict =>
    cases key with
    | none =>
      obtain rfl := Option.some.inj hact
      exact ⟨some r', rfl, rfl, .inl ⟨rfl, rfl, fun q hq => .inl (Option.some.inj hq).symm⟩⟩
    | some key =>
      rw [World.act] at hact
      split at hact
      · rename_i hstored
        obtain rfl := Option.some.inj hact
        exact ⟨conflict, rfl, rfl, .inl ⟨rfl, rfl, fun q hq => .inr ⟨key, rfl, hstored, hq⟩⟩⟩
      · split at hact
        · obtain rfl := Option.some.inj hact
          exact ⟨some r', rfl, rfl, .inl ⟨rfl, rfl, fun q hq => .inl (Option.some.inj hq).symm⟩⟩
        · cases hact
  | commit =>
    obtain rfl := Option.some.inj hact
    exact ⟨none, rfl, rfl, .inr ⟨rfl, rfl, rfl, rfl⟩⟩
  | stop =>
    obtain rfl := Option.some.inj hact
    exact ⟨none, rfl, rfl, .inl ⟨rfl, rfl, forall_gone⟩⟩

/-- A request has a user to return, or will find one. -/
def Request.Resolves (t : Tables) : Request → Prop
  | .rolledBack e => ∃ user, t.owner e = some user
  | .resolved _ none => False
  | _ => True

theorem Request.Resolves.mono {t t' : Tables} (hkeeps : t.Keeps t') {r : Request}
    (h : r.Resolves t) : r.Resolves t' := by
  cases r with
  | rolledBack e =>
    obtain ⟨user, howner⟩ := h
    exact ⟨user, hkeeps _ _ howner⟩
  | resolved e result =>
    cases result with
    | some user => trivial
    | none => exact h
  | _ => trivial

/-- A request resolves at every place it goes to, unless its address is stored
and its identity is not mapped. -/
theorem next_resolves {t : Tables} {r q : Request} (h : r.Resolves t)
    (hfree : r.addressFree t = true) (hleads : (r.next t).Leads t q) : q.Resolves t := by
  cases r with
  | login r =>
    simp only [Request.next] at hleads
    split at hleads <;> (obtain rfl := hleads; trivial)
  | checked r =>
    rcases hleads with rfl | ⟨k, hk, hstored, hq⟩
    · trivial
    · obtain rfl := Option.some.inj hq
      obtain ⟨email, hemail, rfl⟩ := Option.map_eq_some_iff.mp hk
      rw [Tables.stored] at hstored
      rw [Request.addressFree, hemail, Option.all_some, hstored] at hfree
      exact Option.isSome_iff_exists.mp hfree
  | userFlushed r =>
    rcases hleads with rfl | ⟨k, hk, hstored, hq⟩
    · trivial
    · obtain rfl := Option.some.inj hk
      obtain rfl := Option.some.inj hq
      exact Option.isSome_iff_exists.mp hstored
  | rolledBack e =>
    obtain ⟨user, howner⟩ := h
    obtain rfl := hleads
    rw [howner]
    trivial
  | link e target =>
    simp only [Request.next] at hleads
    split at hleads <;> (obtain rfl := hleads; trivial)
  | linkMissed e target =>
    rcases hleads with rfl | ⟨k, hk, hstored, hq⟩
    · trivial
    · obtain rfl := Option.some.inj hq
      trivial
  | register email newUser =>
    simp only [Request.next] at hleads
    split at hleads
    · exact hleads.elim
    · obtain rfl := hleads
      trivial
  | registering email newUser =>
    rcases hleads with rfl | ⟨k, hk, hstored, hq⟩
    · trivial
    · cases hq
  | missed r | linkRolledBack e target =>
    obtain rfl := hleads
    trivial
  | resolved e result | created r | linkReturned e target result | registered email newUser =>
    exact hleads.elim

/-- Every login has a user to return, or will find one, and none has returned
without one. -/
structure Resolving (w : World W) : Prop where
  requests : ∀ h r, w.requests h = some r → r.Resolves w.tables
  answers : ∀ e, .login e none ∉ w.answers

theorem Resolving.arrive {w w' : World W} {h : W} {r : Request} (hw : Resolving w)
    (hr : r.Resolves w.tables) (harrive : w.arrive h r = some w') : Resolving w' := by
  have hgoto : ∀ h' r', put w.requests h (some r) h' = some r' → r'.Resolves w.tables :=
    forall_put hw.requests (forall_moved hr)
  unfold World.arrive at harrive
  split at harrive
  · cases harrive
  · obtain rfl := Option.some.inj harrive
    exact ⟨hgoto, hw.answers⟩
  · split at harrive
    · cases harrive
    · obtain rfl := Option.some.inj harrive
      exact ⟨hgoto, hw.answers⟩

theorem Resolving.advance {w w' : World W} {h : W} (hinv : Inv w) (hw : Resolving w)
    (hfree : addressFree w (.advance h) = true) (hstep : step w (.advance h) = some w') : Resolving w' := by
  have hkeeps := (hinv.step hstep).2
  simp only [step] at hstep
  split at hstep
  · rename_i r hr
    have hresolves := hw.requests h r hr
    obtain ⟨r', hrequests, -, ⟨htables, hanswers, hleads⟩ | ⟨-, rfl, -, hanswers⟩⟩ := act_effect hstep
    · refine ⟨?_, hanswers ▸ hw.answers⟩
      rw [hrequests, htables]
      rw [addressFree, hr, Option.all_some] at hfree
      exact forall_put hw.requests fun q hq => next_resolves hresolves hfree (hleads q hq)
    · constructor
      · rw [hrequests]
        exact forall_put (fun i q hq => (hw.requests i q hq).mono hkeeps) forall_gone
      · intro e ha
        rw [hanswers] at ha
        rcases List.mem_append.mp ha with ha | ha
        · have ha := Option.mem_toList.mp ha
          cases r with
          | resolved e' result =>
            cases Option.some.inj ha
            exact hresolves
          | created r => cases Option.some.inj ha
          | linkReturned e' target result => cases Option.some.inj ha
          | _ => cases ha
        · exact hw.answers e ha
  · cases hstep

theorem Resolving.step {w w' : World W} {l : Label W} (hinv : Inv w) (hw : Resolving w)
    (hfree : addressFree w l = true) (hstep : step w l = some w') : Resolving w' := by
  cases l with
  | login h provider identity newUser => exact hw.arrive (by trivial) hstep
  | link h provider identity target =>
    simp only [Auth.step] at hstep
    split at hstep
    · exact hw.arrive (by trivial) hstep
    · cases hstep
  | register h email newUser => exact hw.arrive (by trivial) hstep
  | advance h => exact hw.advance hinv hfree hstep
  | fail h =>
    simp only [Auth.step] at hstep
    split at hstep
    · obtain rfl := Option.some.inj hstep
      exact ⟨forall_put hw.requests forall_gone, hw.answers⟩
    · cases hstep

/-- In a run whose logins find the address they have looked up as free, or their
identity mapped, `_resolve_or_create_identity` returns a user. A login that finds
neither returns none when it goes on at once. -/
theorem login_resolves {t : Tables} (ht : (t.identities.map UserIdentity.external).Nodup)
    {ls : List (Label W)} {w : World W} (h : exec step (World.new t) ls = some w) :
    (Along step (addressFree · · = true) (World.new t) ls →
      (∀ i e, w.requests i ≠ some (.resolved e none)) ∧ ∀ e, .login e none ∉ w.answers) ∧
    ∀ i, addressFree w (.advance i) = false →
      ∃ w' e, exec step w [.advance i, .advance i] = some w' ∧
        w'.requests i = some (.resolved e none) := by
  constructor
  · intro hok
    have hboth : Inv w ∧ Resolving w := by
      refine exec_invariant (I := fun w => Inv w ∧ Resolving w) ?_ ?_ hok h
      · intro s l s' hs hfree hstep
        exact ⟨(hs.1.step hstep).1, hs.2.step hs.1 hfree hstep⟩
      · exact ⟨Inv.new ht, fun _ _ h => (by cases h), fun _ h => (by cases h)⟩
    exact ⟨fun i e hi => hboth.2.requests i _ hi, hboth.2.answers⟩
  · intro i hfree
    rw [addressFree, Option.all_eq_false] at hfree
    obtain ⟨r, hr, hfree⟩ := hfree
    cases r with
    | checked r =>
      obtain ⟨htaken, hnone⟩ : (∃ email, r.email = some email ∧ w.tables.emailTaken email = true) ∧
          w.tables.owner r.external = none := by
        simpa [Request.addressFree, Option.all_eq_false] using hfree
      obtain ⟨email, hemail, htaken⟩ := htaken
      have hcheck : step w (.advance i) = some (w.rollback i (some (.rolledBack r.external))) := by
        have hstored : w.tables.stored (.email email) = true := htaken
        simp only [step, hr, Request.next, hemail, Option.map_some, World.act, hstored, if_true]
      refine ⟨(w.rollback i (some (.rolledBack r.external))).goto i (.resolved r.external none),
        r.external, ?_, put_self _ _ _⟩
      simp only [exec, hcheck, Option.bind_some]
      simp [step, World.rollback, Request.next, World.act, hnone]
    | _ => cases hfree

/-- A login looks an address up, a registration of the address commits, and the
login inserts its user. -/
def squatted : List (Label Nat) :=
  [.login 0 .github ⟨"583231".toList, some "Ada@example.org".toList, true⟩ 1,
    .register 1 "ada@example.org".toList 2, .advance 0, .advance 0,
    .advance 1, .advance 1, .advance 1, .advance 0, .advance 0, .advance 0]

theorem login_unresolved :
    ∃ w, exec step (World.new ⟨[], []⟩) squatted = some w ∧
      Answer.login ⟨.github, "583231".toList⟩ none ∈ w.answers := by
  have hrun : ∃ w ∈ exec step (World.new ⟨[], []⟩) squatted,
      Answer.login ⟨.github, "583231".toList⟩ none ∈ w.answers := by
    decide +kernel
  obtain ⟨w, hw, ha⟩ := hrun
  exact ⟨w, hw, ha⟩

theorem login_resolves_racing :
    ∃ w, exec step (World.new ⟨[⟨.usr 0, none⟩], []⟩) racing = some w ∧
      ∀ e, .login e none ∉ w.answers := by
  have hrun : ∃ w ∈ exec step (World.new ⟨[⟨.usr 0, none⟩], []⟩) racing, True := by
    decide +kernel
  have hfree : Along step (addressFree · · = true) (World.new ⟨[⟨.usr 0, none⟩], []⟩) racing := by
    decide +kernel
  obtain ⟨w, hw, -⟩ := hrun
  exact ⟨w, hw, ((login_resolves (t := ⟨[⟨.usr 0, none⟩], []⟩) (by decide) hw).1 hfree).2⟩

/-! ## New ids -/

/-- The account that a connect is for. -/
def Request.target : Request → Option UserId
  | .link _ target | .linkMissed _ target | .linkRolledBack _ target
  | .linkReturned _ target _ => some target
  | _ => none

/-- A request keeps its target and the id it has drawn, if it keeps any. -/
theorem next_keeps {t : Tables} {r q : Request} (h : (r.next t).Leads t q) :
    q.target = r.target ∧ ∀ id ∈ q.newUser, id ∈ r.newUser := by
  cases r with
  | login r | link e target =>
    simp only [Request.next] at h
    split at h <;> (obtain rfl := h; simp [Request.target, Request.newUser])
  | missed r | rolledBack e | linkRolledBack e target =>
    obtain rfl := h
    simp [Request.target, Request.newUser]
  | checked r | userFlushed r | linkMissed e target | registering email newUser =>
    rcases h with rfl | ⟨k, -, -, hq⟩
    · simp [Request.target, Request.newUser]
    · simp only [Option.some.injEq, reduceCtorEq] at hq
      all_goals (obtain rfl := hq; simp [Request.target, Request.newUser])
  | register email newUser =>
    simp only [Request.next] at h
    split at h
    · exact h.elim
    · obtain rfl := h
      simp [Request.target, Request.newUser]
  | resolved e result | created r | linkReturned e target result | registered email newUser =>
    exact h.elim

theorem pendingUser_new {r : Request} : ∀ user ∈ r.pendingUser, r.newUser = some user.userId := by
  intro user h
  cases r with
  | userFlushed r | created r | registered email newUser =>
    obtain rfl := Option.some.inj h
    rfl
  | _ => cases h

/-- A connect inserts an identity of its target and no user. -/
theorem pending_of_target {r : Request} {target : UserId} (h : r.target = some target) :
    r.pendingUser = none ∧ ∀ i ∈ r.pendingIdentity, i.userId = target := by
  cases r with
  | link e t | linkMissed e t | linkRolledBack e t => exact ⟨rfl, fun i hi => (by cases hi)⟩
  | linkReturned e t result =>
    obtain rfl := Option.some.inj h
    refine ⟨rfl, fun i hi => ?_⟩
    cases result with
    | linked =>
      obtain rfl := Option.some.inj hi
      rfl
    | _ => cases hi
  | _ => cases h

/-- Anything else inserts an identity of the user it inserts. -/
theorem pending_of_no_target {r : Request} (h : r.target = none) :
    ∀ i ∈ r.pendingIdentity, ∃ user, r.pendingUser = some user ∧ user.userId = i.userId := by
  intro i hi
  cases r with
  | created r =>
    obtain rfl := Option.some.inj hi
    exact ⟨_, rfl, rfl⟩
  | linkReturned e target result => cases h
  | _ => cases hi

/-- An id that a request has drawn is no other request's and no user's. -/
structure Fresh (w : World W) : Prop where
  users : ∀ id ∈ w.tables.users.map User.userId, id ∈ w.drawn
  drawn : ∀ h r, w.requests h = some r → ∀ id ∈ r.newUser, id ∈ w.drawn
  unused : ∀ h r, w.requests h = some r → ∀ id ∈ r.newUser, id ∉ w.tables.users.map User.userId
  apart : ∀ h r h' r', w.requests h = some r → w.requests h' = some r' →
    ∀ id ∈ r.newUser, id ∈ r'.newUser → h = h'

/-- A request that draws nothing takes the place of another, or goes. -/
theorem Fresh.moved {w w' : World W} {h : W} {r' : Option Request} (hw : Fresh w)
    (hrequests : w'.requests = put w.requests h r') (hdrawn : w'.drawn = w.drawn)
    (htables : w'.tables = w.tables)
    (hkeeps : ∀ q, r' = some q → ∀ id ∈ q.newUser, ∃ r, w.requests h = some r ∧ id ∈ r.newUser) :
    Fresh w' := by
  have hthere : ∀ i q, w'.requests i = some q → ∀ id ∈ q.newUser,
      ∃ r, w.requests i = some r ∧ id ∈ r.newUser := by
    rw [hrequests]
    intro i q hq id hid
    rcases put_cases hq with ⟨rfl, hmoved⟩ | ⟨_, hthere⟩
    · exact hkeeps q hmoved id hid
    · exact ⟨q, hthere, hid⟩
  constructor
  · rw [htables, hdrawn]
    exact hw.users
  · intro i q hq id hid
    obtain ⟨r, hr, hid⟩ := hthere i q hq id hid
    rw [hdrawn]
    exact hw.drawn i r hr id hid
  · intro i q hq id hid
    obtain ⟨r, hr, hid⟩ := hthere i q hq id hid
    rw [htables]
    exact hw.unused i r hr id hid
  · intro i q i' q' hq hq' id hid hid'
    obtain ⟨r, hr, hid⟩ := hthere i q hq id hid
    obtain ⟨r', hr', hid'⟩ := hthere i' q' hq' id hid'
    exact hw.apart i r i' r' hr hr' id hid hid'

theorem Fresh.committed {w w' : World W} {h : W} {r : Request} (hw : Fresh w)
    (hr : w.requests h = some r) (hrequests : w'.requests = put w.requests h none)
    (hdrawn : w'.drawn = w.drawn) (htables : w'.tables = w.tables.add r) : Fresh w' := by
  have hthere : ∀ i q, w'.requests i = some q → i ≠ h ∧ w.requests i = some q := by
    rw [hrequests]
    intro i q hq
    rcases put_cases hq with ⟨_, hmoved⟩ | hthere
    · cases hmoved
    · exact hthere
  have husers : ∀ id ∈ w'.tables.users.map User.userId,
      id ∈ r.newUser ∨ id ∈ w.tables.users.map User.userId := by
    rw [htables]
    intro id hid
    rw [Tables.add, List.map_append] at hid
    rcases List.mem_append.mp hid with hid | hid
    · obtain ⟨user, huser, rfl⟩ := List.mem_map.mp hid
      exact .inl (pendingUser_new user (Option.mem_toList.mp huser))
    · exact .inr hid
  constructor
  · intro id hid
    rw [hdrawn]
    exact (husers id hid).elim (hw.drawn h r hr id) (hw.users id)
  · intro i q hq
    rw [hdrawn]
    exact hw.drawn i q (hthere i q hq).2
  · intro i q hq id hid hmem
    obtain ⟨hne, hq⟩ := hthere i q hq
    rcases husers id hmem with hnew | hold
    · exact hne (hw.apart i q h r hq hr id hid hnew)
    · exact hw.unused i q hq id hid hold
  · intro i q i' q' hq hq'
    exact hw.apart i q i' q' (hthere i q hq).2 (hthere i' q' hq').2

theorem Fresh.arrive {w w' : World W} {h : W} {r : Request} (hw : Fresh w)
    (harrive : w.arrive h r = some w') : Fresh w' := by
  unfold World.arrive at harrive
  split at harrive
  · cases harrive
  · rename_i hnone
    obtain rfl := Option.some.inj harrive
    refine hw.moved rfl rfl rfl fun q hq id hid => ?_
    obtain rfl := Option.some.inj hq
    rw [hnone] at hid
    cases hid
  · rename_i id _ hid
    split at harrive
    · cases harrive
    · rename_i hnew
      obtain rfl := Option.some.inj harrive
      -- the id is new to every request that was there
      have hother : ∀ i q, w.requests i = some q → id ∉ q.newUser :=
        fun i q hq hmem => hnew (hw.drawn i q hq id hmem)
      have hown : ∀ i q, put w.requests h (some r) i = some q → ∀ id' ∈ q.newUser,
          (i = h ∧ id' = id) ∨ (i ≠ h ∧ w.requests i = some q) := by
        intro i q hq id' hid'
        rcases put_cases hq with ⟨rfl, hmoved⟩ | hthere
        · obtain rfl := Option.some.inj hmoved
          rw [hid] at hid'
          exact .inl ⟨rfl, (Option.some.inj hid').symm⟩
        · exact .inr hthere
      constructor
      · exact fun id' hid' => List.mem_cons_of_mem _ (hw.users id' hid')
      · intro i q hq id' hid'
        rcases hown i q hq id' hid' with ⟨_, rfl⟩ | ⟨_, hq⟩
        · exact List.mem_cons_self
        · exact List.mem_cons_of_mem _ (hw.drawn i q hq id' hid')
      · intro i q hq id' hid'
        rcases hown i q hq id' hid' with ⟨_, rfl⟩ | ⟨_, hq⟩
        · exact fun hmem => hnew (hw.users _ hmem)
        · exact hw.unused i q hq id' hid'
      · intro i q i' q' hq hq' id' hid' hid''
        rcases hown i q hq id' hid' with ⟨rfl, rfl⟩ | ⟨_, hold⟩ <;>
          rcases hown i' q' hq' _ hid'' with ⟨rfl, hsame⟩ | ⟨_, hold'⟩
        · rfl
        · exact (hother i' q' hold' hid'').elim
        · exact (hother i q hold (hsame ▸ hid')).elim
        · exact hw.apart i q i' q' hold hold' id' hid' hid''

theorem Fresh.act {w w' : World W} {h : W} {r : Request} (hw : Fresh w)
    (hr : w.requests h = some r) (hact : w.act h r (r.next w.tables) = some w') : Fresh w' := by
  obtain ⟨r', hrequests, hdrawn, ⟨htables, -, hleads⟩ | ⟨-, rfl, htables, -⟩⟩ := act_effect hact
  · exact hw.moved hrequests hdrawn htables fun q hq id hid =>
      ⟨r, hr, (next_keeps (hleads q hq)).2 id hid⟩
  · exact hw.committed hr hrequests hdrawn htables

/-- What a step of a request does: it moves the request, which keeps its target,
or it commits. -/
theorem advance_effect {w w' : World W} {h : W} (hstep : step w (.advance h) = some w') :
    ∃ r r', w.requests h = some r ∧ w'.requests = put w.requests h r' ∧
      ((w'.tables = w.tables ∧ ∀ q, r' = some q → q.target = r.target) ∨
        (r' = none ∧ w'.tables = w.tables.add r)) := by
  simp only [step] at hstep
  split at hstep
  · rename_i r hr
    obtain ⟨r', hrequests, -, ⟨htables, -, hleads⟩ | ⟨-, hnone, htables, -⟩⟩ := act_effect hstep
    · exact ⟨r, r', hr, hrequests, .inl ⟨htables, fun q hq => (next_keeps (hleads q hq)).1⟩⟩
    · exact ⟨r, r', hr, hrequests, .inr ⟨hnone, htables⟩⟩
  · cases hstep

theorem Fresh.advance {w w' : World W} {h : W} (hw : Fresh w)
    (hstep : step w (.advance h) = some w') : Fresh w' := by
  simp only [step] at hstep
  split at hstep
  · rename_i r hr
    exact hw.act hr hstep
  · cases hstep

theorem arrive_effect {w w' : World W} {h : W} {r : Request} (harrive : w.arrive h r = some w') :
    w'.requests = put w.requests h (some r) ∧ w'.tables = w.tables := by
  unfold World.arrive at harrive
  split at harrive
  · cases harrive
  · obtain rfl := Option.some.inj harrive
    exact ⟨rfl, rfl⟩
  · split at harrive
    · cases harrive
    · obtain rfl := Option.some.inj harrive
      exact ⟨rfl, rfl⟩

theorem Fresh.rollback {w : World W} (hw : Fresh w) (h : W) : Fresh (w.rollback h none) :=
  hw.moved rfl rfl rfl forall_gone

/-- Another transaction commits a user. -/
def World.addUser (w : World W) (user : User) : World W :=
  { w with
    tables := { w.tables with users := user :: w.tables.users }
    drawn := user.userId :: w.drawn }

omit [DecidableEq W] in
theorem Fresh.addUser {w : World W} {user : User} (hw : Fresh w) (hnew : user.userId ∉ w.drawn) :
    Fresh (w.addUser user) where
  users := by
    intro id hid
    rcases List.mem_cons.mp hid with rfl | hid
    · exact List.mem_cons_self
    · exact List.mem_cons_of_mem _ (hw.users id hid)
  drawn := fun h r hr id hid => List.mem_cons_of_mem _ (hw.drawn h r hr id hid)
  unused := by
    intro h r hr id hid hmem
    rcases List.mem_cons.mp hmem with rfl | hmem
    · exact hnew (hw.drawn h r hr _ hid)
    · exact hw.unused h r hr id hid hmem
  apart := hw.apart

omit [DecidableEq W] in
theorem Fresh.new (t : Tables) : Fresh (World.new t : World W) where
  users := fun _ h => h
  drawn := fun _ _ h => by cases h
  unused := fun _ _ h => by cases h
  apart := fun _ _ _ _ h => by cases h

end CiteVyn.Auth
