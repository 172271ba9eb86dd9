import CiteVyn.Auth.AuthSessions

/-! # Chat sessions and the accounts that claim them

`resolve_principal`, `claim_and_login` and `revoke_current_session` of
`app/core/auth_sessions.py`, in the requests that call them. An `UPDATE` takes the
rows it has found one by one: it waits for a row that another transaction has
updated, and reads it again. -/
namespace CiteVyn.Auth.Ownership
open CiteVyn.Lib.Locks CiteVyn.Lib.Runs CiteVyn.Lib.Threads CiteVyn.Text

/-! ## Chat sessions -/

/-- `Session`. -/
structure Session where
  sessionId : Nat
  userId : UserId
  deriving DecidableEq, Repr

def ownerOf (sessions : List Session) (sessionId : Nat) : Option UserId :=
  (sessions.find? fun c => c.sessionId = sessionId).map Session.userId

/-- The sessions of a user. -/
def ownedBy (sessions : List Session) (user : UserId) : List Nat :=
  (sessions.filter fun c => c.userId = user).map Session.sessionId

/-- The rows with some of them another user's. -/
def reassign (sessions : List Session) (claimed : List Nat) (user : UserId) : List Session :=
  sessions.map fun c => if c.sessionId ∈ claimed then { c with userId := user } else c

theorem ownerOf_cons (c : Session) (sessions : List Session) (sessionId : Nat) :
    ownerOf (c :: sessions) sessionId =
      if c.sessionId = sessionId then some c.userId else ownerOf sessions sessionId := by
  unfold ownerOf
  rw [List.find?_cons]
  by_cases h : c.sessionId = sessionId <;> simp [h]

theorem ownerOf_reassign (sessions : List Session) (claimed : List Nat) (user : UserId)
    (sessionId : Nat) :
    ownerOf (reassign sessions claimed user) sessionId =
      if sessionId ∈ claimed then (ownerOf sessions sessionId).map fun _ => user
      else ownerOf sessions sessionId := by
  induction sessions with
  | nil => simp [reassign, ownerOf]
  | cons c sessions ih =>
    have hid : (if c.sessionId ∈ claimed then { c with userId := user } else c).sessionId = c.sessionId := by
      split <;> rfl
    rw [reassign, List.map_cons, ownerOf_cons, ownerOf_cons, hid]
    by_cases hc : c.sessionId = sessionId
    · subst hc
      by_cases hmem : c.sessionId ∈ claimed <;> simp [hmem]
    · simpa [hc, reassign] using ih

theorem mem_of_ownerOf {sessions : List Session} {sessionId : Nat} {user : UserId}
    (h : ownerOf sessions sessionId = some user) : sessionId ∈ sessions.map Session.sessionId := by
  obtain ⟨c, hc, -⟩ := Option.map_eq_some_iff.mp h
  exact List.mem_map.mpr ⟨c, List.mem_of_find?_eq_some hc, by simpa using List.find?_some hc⟩

/-! ## Requests -/

/-- Where a request is. Each has a handler of its own. -/
inductive Route where
  /-- `resolve_principal` has found the principal, or is to mint one -/
  | visiting (principal : Option UserId)
  /-- `claim_and_login` has looked the cookie up -/
  | entering (cookie : Option Str) (user : UserId) (magicLinkVerifiedAt : Option Int)
    (oldRow : Option AuthSession)
  /-- it updates the sessions that it has found; `claimed` are its own until it commits -/
  | claiming (cookie : Option Str) (user : UserId) (magicLinkVerifiedAt : Option Int)
    (oldRow : Option AuthSession) (found claimed : List Nat)
  /-- `revoke_current_session` has looked the cookie up -/
  | leaving (cookie : Option Str) (row : Option AuthSession)
  /-- `claim_and_login` or `revoke_current_session` has committed -/
  | ended (cookie : Option Str)
  | done
  deriving DecidableEq, Repr

variable {W : Type}

structure Server (W : Type) where
  now : Int
  authSessions : List AuthSession
  sessions : List Session
  /-- the sessions updated and not committed -/
  locks : List (Nat × W)
  routes : W → Option Route
  /-- the ids of rows that have been drawn -/
  uuids : List Nat
  principals : List Nat
  /-- the ids that cookies have named -/
  presented : List Nat

inductive Label (W : Type) where
  | tick (elapsed : Nat)
  /-- a session or message route -/
  | visit (h : W) (cookie : Option Str)
  /-- it commits, with a session of its own or none, and what a new principal would draw -/
  | finish (h : W) (sessionId : Option Nat) (principal : Nat) (draw : Draw)
  /-- `claim_and_login` for the account that a registration has inserted or a login,
  an emailed link or a provider has proved -/
  | enter (h : W) (cookie : Option Str) (account : Nat) (magicLinkVerifiedAt : Option Int)
  | advance (h : W)
  | commit (h : W) (draw : Draw)
  | logout (h : W) (cookie : Option Str)
  | revoke (h : W)
  | fail (h : W)

/-- The sessions that the `UPDATE` of `claim_and_login` finds. -/
def toClaim (sessions : List Session) (user : UserId) : Option AuthSession → List Nat
  | some oldRow =>
    if oldRow.userId ≠ user ∧ oldRow.userId.isAnonymous = true then ownedBy sessions oldRow.userId else []
  | none => []

variable (site : Site) (listed : UserId → Bool)

def Server.tryResolve (s : Server W) (cookie : Option Str) : Option AuthSession :=
  tryResolveAuthSession site listed s.now s.authSessions cookie

variable [DecidableEq W]

/-- A request arrives with a cookie. -/
def Server.arrive (s : Server W) (h : W) (cookie : Option Str) (r : Route) : Option (Server W) :=
  match s.routes h with
  | none =>
    some { s with
      routes := put s.routes h (some r)
      presented := (cookie.bind site.cookieId).toList ++ s.presented }
  | some _ => none

def Server.goto (s : Server W) (h : W) (r : Route) : Server W :=
  { s with routes := put s.routes h (some r) }

/-- `_create_auth_session`. A drawn id is no row's, and nobody has guessed it. -/
def Server.openSession (s : Server W) (draw : Draw) (user : UserId) (magicLinkVerifiedAt : Option Int) :
    Option (Server W) :=
  if draw.authSessionId ∈ s.uuids ∨ draw.authSessionId ∈ s.presented then none
  else
    some { s with
      authSessions := createAuthSession site s.now draw user magicLinkVerifiedAt :: s.authSessions
      uuids := draw.authSessionId :: s.uuids }

/-- `_mint_principal`. -/
def Server.mintPrincipal (s : Server W) (principal : Nat) (draw : Draw) : Option (Server W) :=
  if principal ∈ s.principals then none
  else Server.openSession site { s with principals := principal :: s.principals } draw (.anon principal) none

/-- A session route commits. -/
def Server.close (s : Server W) (h : W) (owner : UserId) : Option Nat → Option (Server W)
  | none => some (s.goto h .done)
  | some sessionId =>
    if sessionId ∈ s.uuids then none
    else
      some { s with
        sessions := ⟨sessionId, owner⟩ :: s.sessions
        uuids := sessionId :: s.uuids
        routes := put s.routes h (some .done) }

/-- The row of a cookie is deleted, if it was one. -/
def Server.dropRow (s : Server W) (row : Option AuthSession) : Server W :=
  { s with authSessions := row.elim s.authSessions fun row => deleteAuthSession s.authSessions row.authSessionId }

def Server.advance (s : Server W) (h : W) : Route → Option (Server W)
  | .entering cookie user stamp oldRow =>
    some (s.goto h (.claiming cookie user stamp oldRow (toClaim s.sessions user oldRow) []))
  | .claiming cookie user stamp (some oldRow) (sessionId :: found) claimed =>
    if free s.locks sessionId h then
      if ownerOf s.sessions sessionId = some oldRow.userId then
        some { s.goto h (.claiming cookie user stamp (some oldRow) found (sessionId :: claimed)) with
          locks := acquire s.locks sessionId h }
      else some (s.goto h (.claiming cookie user stamp (some oldRow) found claimed))
    else none
  | _ => none

def step (s : Server W) : Label W → Option (Server W)
  | .tick elapsed => some { s with now := s.now + elapsed }
  | .visit h cookie =>
    s.arrive site h cookie (.visiting ((s.tryResolve site listed cookie).map AuthSession.userId))
  | .finish h sessionId principal draw =>
    match s.routes h with
    | some (.visiting (some owner)) => s.close h owner sessionId
    | some (.visiting none) =>
      (s.mintPrincipal site principal draw).bind fun s => s.close h (.anon principal) sessionId
    | _ => none
  | .enter h cookie account stamp =>
    if listed (.usr account) then none
    else s.arrive site h cookie (.entering cookie (.usr account) stamp (s.tryResolve site listed cookie))
  | .advance h => (s.routes h).bind (s.advance h)
  | .commit h draw =>
    match s.routes h with
    | some (.claiming cookie user stamp oldRow [] claimed) =>
      ((s.dropRow oldRow).openSession site draw user stamp).map fun s =>
        { s with
          sessions := reassign s.sessions claimed user
          locks := release s.locks h
          routes := put s.routes h (some (.ended cookie)) }
    | _ => none
  | .logout h cookie => s.arrive site h cookie (.leaving cookie (s.tryResolve site listed cookie))
  | .revoke h =>
    match s.routes h with
    | some (.leaving cookie row) => some ((s.dropRow row).goto h (.ended cookie))
    | _ => none
  | .fail h =>
    match s.routes h with
    | some _ => some { s.goto h .done with locks := release s.locks h }
    | none => none

/-! ## Cookies that no longer resolve -/

/-- Time goes on, and an id that a cookie has named finds no other row. -/
structure Ages (s s' : Server W) : Prop where
  now : s.now ≤ s'.now
  presented : s.presented ⊆ s'.presented
  rows : ∀ id ∈ s.presented, ∀ row,
    (s'.authSessions.find? fun row => row.authSessionId = id) = some row →
    (s.authSessions.find? fun row => row.authSessionId = id) = some row

/-- The cookie does not resolve, and its id has been named. -/
def Dead (s : Server W) (cookieValue : Str) : Prop :=
  lookupAuthSession site listed s.now s.authSessions cookieValue = none ∧
    ∀ id, site.cookieId cookieValue = some id → id ∈ s.presented

section
variable {site : Site} {listed : UserId → Bool} {s s' s'' : Server W} {h : W}

omit [DecidableEq W]

theorem Ages.same (hnow : s'.now = s.now) (hpresented : s'.presented = s.presented)
    (hrows : s'.authSessions = s.authSessions) : Ages s s' := by
  constructor
  · exact Int.le_of_eq hnow.symm
  · rw [hpresented]
    exact fun _ h => h
  · rw [hrows]
    exact fun _ _ _ h => h

theorem Ages.trans (h : Ages s s') (h' : Ages s' s'') : Ages s s'' :=
  ⟨Int.le_trans h.now h'.now, fun _ hid => h'.presented (h.presented hid),
    fun id hid row hrow => h.rows id hid row (h'.rows id (h.presented hid) row hrow)⟩

theorem Ages.dead (h : Ages s s') {cookieValue : Str} (hdead : Dead site listed s cookieValue) :
    Dead site listed s' cookieValue :=
  ⟨lookup_none_mono hdead.1 h.now fun id hid => h.rows id (hdead.2 id hid),
    fun id hid => h.presented (hdead.2 id hid)⟩

theorem tick_ages (s : Server W) (elapsed : Nat) : Ages s { s with now := s.now + elapsed } :=
  ⟨Int.le_add_of_nonneg_right (Int.natCast_nonneg elapsed), fun _ h => h, fun _ _ _ h => h⟩

theorem find_dropRow (s : Server W) (row : Option AuthSession) (id : Nat) :
    ((s.dropRow row).authSessions.find? fun row => row.authSessionId = id) =
      if row.map AuthSession.authSessionId = some id then none
      else s.authSessions.find? fun row => row.authSessionId = id := by
  cases row with
  | none => simp [Server.dropRow]
  | some row =>
    change ((deleteAuthSession s.authSessions row.authSessionId).find? _) = _
    rw [find_deleteAuthSession]
    simp [eq_comm]

theorem dropRow_ages (s : Server W) (row : Option AuthSession) : Ages s (s.dropRow row) := by
  refine ⟨Int.le_refl _, fun _ h => h, fun id _ found hfound => ?_⟩
  rw [find_dropRow] at hfound
  split at hfound
  · cases hfound
  · exact hfound

theorem Ages.dropRow (h : Ages s s') (row : Option AuthSession) : Ages (s.dropRow row) (s'.dropRow row) := by
  refine ⟨h.now, h.presented, fun id hid found hfound => ?_⟩
  rw [find_dropRow] at hfound ⊢
  split at hfound
  · cases hfound
  · rename_i hkept
    rw [if_neg hkept]
    exact h.rows id hid found hfound

theorem openSession_ages {draw : Draw} {user : UserId} {stamp : Option Int}
    (hopen : s.openSession site draw user stamp = some s') : Ages s s' := by
  unfold Server.openSession at hopen
  split at hopen
  · cases hopen
  · rename_i hnew
    obtain rfl := Option.some.inj hopen
    refine ⟨Int.le_refl _, fun _ h => h, fun id hid row hrow => ?_⟩
    have hne : draw.authSessionId ≠ id := by
      rintro rfl
      exact hnew (.inr hid)
    rwa [List.find?_cons_of_neg (by simp [createAuthSession, hne])] at hrow

/-- A cookie that has been looked up is dead once its row is dropped. -/
def Spent (site : Site) (listed : UserId → Bool) (s : Server W) (cookie : Option Str)
    (row : Option AuthSession) : Prop :=
  ∀ cookieValue, cookie = some cookieValue → Dead site listed (s.dropRow row) cookieValue

theorem Spent.ages {cookie : Option Str} {row : Option AuthSession}
    (h : Spent site listed s cookie row) (hages : Ages s s') : Spent site listed s' cookie row :=
  fun v hv => (hages.dropRow row).dead (h v hv)

theorem spent_of_tryResolve {cookie : Option Str} (s : Server W)
    (hpresented : ∀ v, cookie = some v → ∀ id, site.cookieId v = some id → id ∈ s.presented) :
    Spent site listed s cookie (s.tryResolve site listed cookie) := by
  rintro v rfl
  refine ⟨?_, hpresented v rfl⟩
  refine Option.eq_none_iff_forall_ne_some.mpr fun row hrow => ?_
  obtain ⟨id, hid, hfind, hsecret, hrest⟩ := lookup_eq_some_iff.mp hrow
  rw [find_dropRow] at hfind
  split at hfind
  · cases hfind
  · rename_i hkept
    -- the cookie would have found the row that has been dropped
    have hlookup : lookupAuthSession site listed s.now s.authSessions v = some row :=
      lookup_eq_some_iff.mpr ⟨id, hid, hfind, hsecret, hrest⟩
    have hresolve : s.tryResolve site listed (some v) = some row := by
      unfold Server.tryResolve tryResolveAuthSession
      have hne : v.isEmpty = false := by
        cases v with
        | nil => cases hsecret
        | cons c v => rfl
      simp only [hne, Bool.false_eq_true, if_false, hlookup]
    rw [hresolve] at hkept
    exact hkept (by simpa using List.find?_some hfind)

theorem mintPrincipal_ages {principal : Nat} {draw : Draw}
    (hmint : s.mintPrincipal site principal draw = some s') : Ages s s' := by
  unfold Server.mintPrincipal at hmint
  split at hmint
  · cases hmint
  · have hsame : Ages s { s with principals := principal :: s.principals } := Ages.same rfl rfl rfl
    exact hsame.trans (openSession_ages hmint)

/-- A new auth session changes no chat session. -/
theorem openSession_kept {draw : Draw} {user : UserId} {stamp : Option Int}
    (hopen : s.openSession site draw user stamp = some s') :
    s'.sessions = s.sessions ∧ s'.locks = s.locks ∧ s'.routes = s.routes ∧ s.uuids ⊆ s'.uuids := by
  unfold Server.openSession at hopen
  split at hopen
  · cases hopen
  · obtain rfl := Option.some.inj hopen
    exact ⟨rfl, rfl, rfl, List.subset_cons_self _ _⟩

theorem mintPrincipal_kept {principal : Nat} {draw : Draw}
    (hmint : s.mintPrincipal site principal draw = some s') :
    s'.sessions = s.sessions ∧ s'.locks = s.locks ∧ s'.routes = s.routes ∧ s.uuids ⊆ s'.uuids := by
  unfold Server.mintPrincipal at hmint
  split at hmint
  · cases hmint
  · obtain ⟨hsessions, hlocks, hroutes, huuids⟩ := openSession_kept hmint
    exact ⟨hsessions, hlocks, hroutes, huuids⟩

end

section
variable {site : Site} {listed : UserId → Bool} {s s' : Server W} {h : W} {l : Label W}

theorem arrive_ages {cookie : Option Str} {r : Route} (harrive : s.arrive site h cookie r = some s') :
    Ages s s' := by
  unfold Server.arrive at harrive
  split at harrive
  · obtain rfl := Option.some.inj harrive
    exact ⟨Int.le_refl _, List.subset_append_right _ _, fun _ _ _ h => h⟩
  · cases harrive

theorem close_ages {owner : UserId} {sessionId : Option Nat}
    (hclose : s.close h owner sessionId = some s') : Ages s s' := by
  cases sessionId with
  | none =>
    obtain rfl := Option.some.inj hclose
    exact Ages.same rfl rfl rfl
  | some sessionId =>
    simp only [Server.close] at hclose
    split at hclose
    · cases hclose
    · obtain rfl := Option.some.inj hclose
      exact Ages.same rfl rfl rfl

theorem advance_ages {r : Route} (hstep : s.advance h r = some s') : Ages s s' := by
  unfold Server.advance at hstep
  split at hstep
  · obtain rfl := Option.some.inj hstep
    exact Ages.same rfl rfl rfl
  · split at hstep
    · split at hstep <;> (obtain rfl := Option.some.inj hstep; exact Ages.same rfl rfl rfl)
    · cases hstep
  · cases hstep

theorem commit_ages {draw : Draw} (hstep : step site listed s (.commit h draw) = some s') :
    Ages s s' := by
  simp only [step] at hstep
  split at hstep
  · rename_i cookie user stamp oldRow claimed hr
    obtain ⟨s₁, hopen, rfl⟩ := Option.map_eq_some_iff.mp hstep
    have hall : Ages s s₁ := (dropRow_ages s oldRow).trans (openSession_ages hopen)
    exact ⟨hall.now, hall.presented, hall.rows⟩
  · cases hstep

theorem step_ages (hstep : step site listed s l = some s') : Ages s s' := by
  cases l with
  | tick elapsed =>
    obtain rfl := Option.some.inj hstep
    exact tick_ages s elapsed
  | visit h cookie => exact arrive_ages hstep
  | finish h sessionId principal draw =>
    simp only [step] at hstep
    split at hstep
    · exact close_ages hstep
    · obtain ⟨s₁, hmint, hclose⟩ := Option.bind_eq_some_iff.mp hstep
      exact (mintPrincipal_ages hmint).trans (close_ages hclose)
    · cases hstep
  | enter h cookie account stamp =>
    simp only [step] at hstep
    split at hstep
    · cases hstep
    · exact arrive_ages hstep
  | advance h =>
    obtain ⟨r, -, hadvance⟩ := Option.bind_eq_some_iff.mp hstep
    exact advance_ages hadvance
  | commit h draw => exact commit_ages hstep
  | logout h cookie => exact arrive_ages hstep
  | revoke h =>
    simp only [step] at hstep
    split at hstep
    · rename_i row _
      obtain rfl := Option.some.inj hstep
      have hages := dropRow_ages s row
      exact ⟨hages.now, hages.presented, hages.rows⟩
    · cases hstep
  | fail h =>
    simp only [step] at hstep
    split at hstep
    · obtain rfl := Option.some.inj hstep
      exact Ages.same rfl rfl rfl
    · cases hstep

end

/-! ## Sessions that change owners -/

/-- `claim_and_login` is called for the account with a cookie that resolves to the row. -/
def Entered (h : W) (account : Nat) (row : AuthSession) (s : Server W) (l : Label W) : Prop :=
  ∃ cookie stamp, l = .enter h cookie account stamp ∧ s.tryResolve site listed cookie = some row

/-- What a request that claims has been called with. -/
structure Entrance (past : (Server W → Label W → Prop) → Prop) (s : Server W) (h : W)
    (cookie : Option Str) (user : UserId) (oldRow : Option AuthSession) : Prop where
  spent : Spent site listed s cookie oldRow
  entered : ∃ account, user = .usr account ∧
    ∀ row, oldRow = some row → past (Entered site listed h account row)

def Route.Held (past : (Server W → Label W → Prop) → Prop) (s : Server W) (h : W) : Route → Prop
  | .visiting _ | .done => True
  | .entering cookie user _ oldRow => Entrance site listed past s h cookie user oldRow
  | .claiming cookie user _ oldRow found claimed =>
    Entrance site listed past s h cookie user oldRow ∧
      (∀ id ∈ found ++ claimed, ∃ row, oldRow = some row ∧ row.userId.isAnonymous = true) ∧
      ∀ id ∈ claimed, (id, h) ∈ s.locks ∧
        ∀ row, oldRow = some row → ownerOf s.sessions id = some row.userId
  | .leaving cookie row => Spent site listed s cookie row
  | .ended cookie => Spent site listed s cookie none

structure Inv (past : (Server W → Label W → Prop) → Prop) (s : Server W) : Prop where
  exclusive : Exclusive s.locks
  drawn : ∀ c ∈ s.sessions, c.sessionId ∈ s.uuids
  held : ∀ h r, s.routes h = some r → r.Held site listed past s h

section
variable {site : Site} {listed : UserId → Bool} {past past' : (Server W → Label W → Prop) → Prop}
  {s s' : Server W} {h : W} {l : Label W}

omit [DecidableEq W]

theorem Entrance.carry {cookie : Option Str} {user : UserId} {oldRow : Option AuthSession}
    (he : Entrance site listed past s h cookie user oldRow) (hages : Ages s s')
    (hpast : ∀ P, past P → past' P) : Entrance site listed past' s' h cookie user oldRow := by
  obtain ⟨account, huser, hentered⟩ := he.entered
  exact ⟨he.spent.ages hages, account, huser, fun row hrow => hpast _ (hentered row hrow)⟩

/-- What a request holds it still holds when its sessions stay as they are. -/
theorem Route.Held.carry {r : Route} (hr : r.Held site listed past s h) (hages : Ages s s')
    (hlocks : ∀ id, (id, h) ∈ s.locks → (id, h) ∈ s'.locks)
    (howners : ∀ id owner, (id, h) ∈ s.locks → ownerOf s.sessions id = some owner →
      ownerOf s'.sessions id = some owner)
    (hpast : ∀ P, past P → past' P) : r.Held site listed past' s' h := by
  cases r with
  | visiting principal => trivial
  | done => trivial
  | entering cookie user stamp oldRow => exact Entrance.carry hr hages hpast
  | claiming cookie user stamp oldRow found claimed =>
    obtain ⟨hentrance, hanonymous, hclaimed⟩ := hr
    refine ⟨hentrance.carry hages hpast, hanonymous, fun id hid => ?_⟩
    obtain ⟨hlock, howner⟩ := hclaimed id hid
    exact ⟨hlocks id hlock, fun row hrow => howners id row.userId hlock (howner row hrow)⟩
  | leaving cookie row => exact Spent.ages hr hages
  | ended cookie => exact Spent.ages hr hages

theorem Inv.mono (hinv : Inv site listed past s) (hpast : ∀ P, past P → past' P) :
    Inv site listed past' s :=
  ⟨hinv.exclusive, hinv.drawn, fun h r hr =>
    (hinv.held h r hr).carry (Ages.same rfl rfl rfl) (fun _ h => h) (fun _ _ _ h => h) hpast⟩

/-- Some of the sessions are another user's now, and one may be new. -/
theorem ownerOf_kept {id owner} (hdrawn : ∀ c ∈ s.sessions, c.sessionId ∈ s.uuids) {sessionId : Nat}
    (hnew : sessionId ∉ s.uuids) (user : UserId) (howner : ownerOf s.sessions id = some owner) :
    ownerOf (⟨sessionId, user⟩ :: s.sessions) id = some owner := by
  rw [ownerOf_cons, if_neg, howner]
  rintro rfl
  obtain ⟨c, hc, rfl⟩ := List.mem_map.mp (mem_of_ownerOf howner)
  exact hnew (hdrawn c hc)

end

section
variable {site : Site} {listed : UserId → Bool} {past : (Server W → Label W → Prop) → Prop}
  {s s' : Server W} {h : W} {l : Label W}

/-- A request moves, and leaves the sessions of the others as they are. -/
theorem Inv.moves {route : Route} (hinv : Inv site listed past s) (hages : Ages s s')
    (hexclusive : Exclusive s'.locks) (hdrawn : ∀ c ∈ s'.sessions, c.sessionId ∈ s'.uuids)
    (hroutes : s'.routes = put s.routes h (some route))
    (hlocks : ∀ i id, i ≠ h → (id, i) ∈ s.locks → (id, i) ∈ s'.locks)
    (howners : ∀ i id owner, i ≠ h → (id, i) ∈ s.locks → ownerOf s.sessions id = some owner →
      ownerOf s'.sessions id = some owner)
    (hroute : route.Held site listed past s' h) : Inv site listed past s' where
  exclusive := hexclusive
  drawn := hdrawn
  held := by
    intro i r hr
    rw [hroutes] at hr
    rcases put_cases hr with ⟨rfl, hmoved⟩ | ⟨hne, hthere⟩
    · exact Option.some.inj hmoved ▸ hroute
    · exact (hinv.held i r hthere).carry hages (fun id => hlocks i id hne)
        (fun id owner => howners i id owner hne) fun _ hP => hP

theorem Inv.goto {r : Route} (hinv : Inv site listed past s) (hr : r.Held site listed past s h) :
    Inv site listed past (s.goto h r) :=
  hinv.moves (Ages.same rfl rfl rfl) hinv.exclusive hinv.drawn rfl (fun _ _ _ h => h)
    (fun _ _ _ _ _ h => h)
    (hr.carry (Ages.same rfl rfl rfl) (fun _ h => h) (fun _ _ _ h => h) fun _ h => h)

theorem Inv.arrive {cookie : Option Str} {r : Route} (hinv : Inv site listed past s)
    (harrive : s.arrive site h cookie r = some s')
    (hr : r.Held site listed past s' h) : Inv site listed past s' := by
  have hages := arrive_ages harrive
  unfold Server.arrive at harrive
  split at harrive
  · obtain rfl := Option.some.inj harrive
    exact hinv.moves hages hinv.exclusive hinv.drawn rfl (fun _ _ _ h => h) (fun _ _ _ _ _ h => h) hr
  · cases harrive

/-- The row that the cookie has resolved to is spent with it. -/
theorem arrive_spent {cookie : Option Str} {r : Route} (harrive : s.arrive site h cookie r = some s') :
    Spent site listed s' cookie (s.tryResolve site listed cookie) := by
  unfold Server.arrive at harrive
  split at harrive
  · obtain rfl := Option.some.inj harrive
    refine spent_of_tryResolve { s with presented := _, routes := _ } ?_
    rintro v rfl id hid
    exact List.mem_append_left _ (Option.mem_toList.mpr hid)
  · cases harrive

theorem Inv.close {owner : UserId} {sessionId : Option Nat} (hinv : Inv site listed past s)
    (hclose : s.close h owner sessionId = some s') : Inv site listed past s' := by
  cases sessionId with
  | none =>
    obtain rfl := Option.some.inj hclose
    exact hinv.goto (by trivial)
  | some sessionId =>
    simp only [Server.close] at hclose
    split at hclose
    · cases hclose
    · rename_i hnew
      obtain rfl := Option.some.inj hclose
      refine hinv.moves ⟨Int.le_refl _, fun _ h => h, fun _ _ _ h => h⟩ hinv.exclusive ?_ rfl
        (fun _ _ _ h => h) (fun _ _ _ _ _ howner => ownerOf_kept hinv.drawn hnew owner howner)
        (by trivial)
      intro c hc
      rcases List.mem_cons.mp hc with rfl | hc
      · exact List.mem_cons_self
      · exact List.mem_cons_of_mem _ (hinv.drawn c hc)

omit [DecidableEq W] in
theorem Inv.mintPrincipal {principal : Nat} {draw : Draw} (hinv : Inv site listed past s)
    (hmint : s.mintPrincipal site principal draw = some s') : Inv site listed past s' := by
  obtain ⟨hsessions, hlocks, hroutes, huuids⟩ := mintPrincipal_kept hmint
  refine ⟨hlocks ▸ hinv.exclusive, fun c hc => huuids (hinv.drawn c (hsessions ▸ hc)), ?_⟩
  intro i r hr
  rw [hroutes] at hr
  refine (hinv.held i r hr).carry (mintPrincipal_ages hmint) ?_ ?_ fun _ h => h
  · rw [hlocks]
    exact fun _ h => h
  · rw [hsessions]
    exact fun _ _ _ h => h

theorem toClaim_anonymous {user : UserId} {oldRow : Option AuthSession} {id : Nat}
    {sessions : List Session} (h : id ∈ toClaim sessions user oldRow) :
    ∃ row, oldRow = some row ∧ row.userId.isAnonymous = true := by
  cases oldRow with
  | none => cases h
  | some row =>
    simp only [toClaim] at h
    split at h
    · rename_i hclaims
      exact ⟨row, rfl, hclaims.2⟩
    · cases h

theorem Inv.advance {r : Route} (hinv : Inv site listed past s) (hr : s.routes h = some r)
    (hstep : s.advance h r = some s') : Inv site listed past s' := by
  have hheld := hinv.held h r hr
  cases r with
  | entering cookie user stamp oldRow =>
    obtain rfl := Option.some.inj hstep
    refine hinv.goto ⟨hheld, fun id hid => ?_, fun id hid => by cases hid⟩
    rw [List.append_nil] at hid
    exact toClaim_anonymous hid
  | claiming cookie user stamp oldRow found claimed =>
    obtain ⟨hentrance, hanonymous, hclaimed⟩ := hheld
    cases oldRow with
    | none => simp [Server.advance] at hstep
    | some oldRow =>
      cases found with
      | nil => simp [Server.advance] at hstep
      | cons id found =>
        simp only [Server.advance] at hstep
        split at hstep
        · rename_i hfree
          split at hstep
          · rename_i howner
            obtain rfl := Option.some.inj hstep
            refine hinv.moves (Ages.same rfl rfl rfl) (hinv.exclusive.acquire hfree) hinv.drawn rfl
              (fun _ _ _ h => mem_acquire h) (fun _ _ _ _ _ h => h) ⟨?_, ?_, ?_⟩
            · exact hentrance.carry (Ages.same rfl rfl rfl) fun _ h => h
            · intro id' hid'
              refine hanonymous id' ?_
              simp only [List.mem_append, List.mem_cons] at hid' ⊢
              tauto
            · intro id' hid'
              rcases List.mem_cons.mp hid' with rfl | hid'
              · refine ⟨acquired _ _ _, fun row hrow => ?_⟩
                obtain rfl := Option.some.inj hrow
                exact howner
              · exact ⟨mem_acquire (hclaimed id' hid').1, (hclaimed id' hid').2⟩
          · obtain rfl := Option.some.inj hstep
            exact hinv.goto ⟨hentrance, fun id' hid' => hanonymous id' (List.mem_cons_of_mem _ hid'),
              hclaimed⟩
        · cases hstep
  | visiting principal => cases hstep
  | leaving cookie row => cases hstep
  | ended cookie => cases hstep
  | done => cases hstep

theorem reassign_drawn {sessions : List Session} {uuids claimed : List Nat} (user : UserId)
    (h : ∀ c ∈ sessions, c.sessionId ∈ uuids) :
    ∀ c ∈ reassign sessions claimed user, c.sessionId ∈ uuids := by
  intro c hc
  obtain ⟨c', hc', rfl⟩ := List.mem_map.mp hc
  split
  · exact h c' hc'
  · exact h c' hc'

theorem Inv.commit {draw : Draw} (hinv : Inv site listed past s)
    (hstep : step site listed s (.commit h draw) = some s') : Inv site listed past s' := by
  simp only [step] at hstep
  split at hstep
  · rename_i cookie user stamp oldRow claimed hr
    obtain ⟨s₁, hopen, rfl⟩ := Option.map_eq_some_iff.mp hstep
    obtain ⟨hentrance, hanonymous, hclaimed⟩ := hinv.held h _ hr
    have hages : Ages (s.dropRow oldRow) s₁ := openSession_ages hopen
    obtain ⟨hsessions, hlocks, hroutes, huuids⟩ := openSession_kept hopen
    have hall : Ages s s₁ := (dropRow_ages s oldRow).trans hages
    refine hinv.moves ⟨hall.now, hall.presented, hall.rows⟩ ?_ ?_ (by rw [hroutes]; rfl) ?_ ?_ ?_
    · rw [hlocks]
      exact hinv.exclusive.release h
    · rw [hsessions]
      exact reassign_drawn user fun c hc => huuids (hinv.drawn c hc)
    · intro i id hne hlock
      rw [hlocks]
      exact mem_release hne hlock
    · intro i id owner hne hlock howner
      -- a session that another request has updated is not among the ones that commit
      have hother : id ∉ claimed := fun hmem => hne (hinv.exclusive id i h hlock (hclaimed id hmem).1)
      change ownerOf (reassign s₁.sessions claimed user) id = some owner
      rw [ownerOf_reassign, if_neg hother, hsessions]
      exact howner
    · exact fun v hv => hages.dead (hentrance.spent v hv)
  · cases hstep

theorem Inv.step (hinv : Inv site listed past s) (hnow : ∀ P : Server W → Label W → Prop, P s l → past P)
    (hstep : step site listed s l = some s') : Inv site listed past s' := by
  cases l with
  | tick elapsed =>
    obtain rfl := Option.some.inj hstep
    refine ⟨hinv.exclusive, hinv.drawn, fun i r hr => ?_⟩
    exact (hinv.held i r hr).carry (tick_ages s elapsed) (fun _ h => h)
      (fun _ _ _ h => h) fun _ h => h
  | visit h cookie => exact hinv.arrive hstep (by trivial)
  | finish h sessionId principal draw =>
    simp only [Ownership.step] at hstep
    split at hstep
    · exact hinv.close hstep
    · obtain ⟨s₁, hmint, hclose⟩ := Option.bind_eq_some_iff.mp hstep
      exact (hinv.mintPrincipal hmint).close hclose
    · cases hstep
  | enter h cookie account stamp =>
    have hentered : ∀ row, s.tryResolve site listed cookie = some row →
        past (Entered site listed h account row) :=
      fun row hrow => hnow _ ⟨cookie, stamp, rfl, hrow⟩
    simp only [Ownership.step] at hstep
    split at hstep
    · cases hstep
    · exact hinv.arrive hstep ⟨arrive_spent hstep, account, rfl, hentered⟩
  | advance h =>
    obtain ⟨r, hr, hadvance⟩ := Option.bind_eq_some_iff.mp hstep
    exact hinv.advance hr hadvance
  | commit h draw => exact hinv.commit hstep
  | logout h cookie => exact hinv.arrive hstep (arrive_spent hstep)
  | revoke h =>
    simp only [Ownership.step] at hstep
    split at hstep
    · rename_i cookie row hr
      obtain rfl := Option.some.inj hstep
      have hages := dropRow_ages s row
      exact hinv.moves ⟨hages.now, hages.presented, hages.rows⟩ hinv.exclusive hinv.drawn rfl
        (fun _ _ _ h => h) (fun _ _ _ _ _ h => h) (hinv.held h _ hr)
    · cases hstep
  | fail h =>
    simp only [Ownership.step] at hstep
    split at hstep
    · obtain rfl := Option.some.inj hstep
      exact hinv.moves (Ages.same rfl rfl rfl) (hinv.exclusive.release h) hinv.drawn rfl
        (fun _ _ hne hlock => mem_release hne hlock) (fun _ _ _ _ _ h => h) (by trivial)
    · cases hstep

/-- A session route adds a session at most. -/
theorem close_owner {user : UserId} {sessionId : Option Nat}
    (hdrawn : ∀ c ∈ s.sessions, c.sessionId ∈ s.uuids) (hclose : s.close h user sessionId = some s')
    {id : Nat} {owner : UserId} (howner : ownerOf s.sessions id = some owner) :
    ownerOf s'.sessions id = some owner := by
  cases sessionId with
  | none =>
    obtain rfl := Option.some.inj hclose
    exact howner
  | some sessionId =>
    simp only [Server.close] at hclose
    split at hclose
    · cases hclose
    · rename_i hnew
      obtain rfl := Option.some.inj hclose
      exact ownerOf_kept hdrawn hnew user howner

/-- What a claim that commits does to a session. -/
theorem commit_owner {draw : Draw} (hinv : Inv site listed past s)
    (hstep : step site listed s (.commit h draw) = some s') {id : Nat} {owner : UserId}
    (howner : ownerOf s.sessions id = some owner) :
    ownerOf s'.sessions id = some owner ∨
      ∃ account row, row.userId = owner ∧ owner.isAnonymous = true ∧
        ownerOf s'.sessions id = some (.usr account) ∧ past (Entered site listed h account row) := by
  simp only [step] at hstep
  split at hstep
  · rename_i cookie user stamp oldRow claimed hr
    obtain ⟨s₁, hopen, rfl⟩ := Option.map_eq_some_iff.mp hstep
    obtain ⟨hentrance, hanonymous, hclaimed⟩ := hinv.held h _ hr
    obtain ⟨hsessions, -⟩ := openSession_kept hopen
    have hafter : ownerOf (reassign s₁.sessions claimed user) id =
        if id ∈ claimed then some user else some owner := by
      rw [hsessions, show (s.dropRow oldRow).sessions = s.sessions from rfl, ownerOf_reassign, howner]
      rfl
    by_cases hmem : id ∈ claimed
    · obtain ⟨row, hrow, hanon⟩ := hanonymous id hmem
      obtain ⟨account, rfl, hentered⟩ := hentrance.entered
      have hrowner := (hclaimed id hmem).2 row hrow
      rw [howner] at hrowner
      obtain rfl := Option.some.inj hrowner
      exact .inr ⟨account, row, rfl, hanon, hafter.trans (if_pos hmem), hentered row hrow⟩
    · exact .inl (hafter.trans (if_neg hmem))
  · cases hstep

/-- A step that commits no claim changes no session's owner. -/
theorem step_owner (hinv : Inv site listed past s) (hcommit : ∀ h draw, l ≠ .commit h draw)
    (hstep : step site listed s l = some s') {id : Nat} {owner : UserId}
    (howner : ownerOf s.sessions id = some owner) : ownerOf s'.sessions id = some owner := by
  have harrived : ∀ {h cookie r}, s.arrive site h cookie r = some s' → s'.sessions = s.sessions := by
    intro h cookie r harrive
    unfold Server.arrive at harrive
    split at harrive
    · obtain rfl := Option.some.inj harrive
      rfl
    · cases harrive
  cases l with
  | commit h draw => exact absurd rfl (hcommit h draw)
  | finish h sessionId principal draw =>
    simp only [step] at hstep
    split at hstep
    · exact close_owner hinv.drawn hstep howner
    · obtain ⟨s₁, hmint, hclose⟩ := Option.bind_eq_some_iff.mp hstep
      refine close_owner (hinv.mintPrincipal hmint).drawn hclose ?_
      rw [(mintPrincipal_kept hmint).1, howner]
    · cases hstep
  | tick elapsed =>
    obtain rfl := Option.some.inj hstep
    exact howner
  | visit h cookie | logout h cookie => rw [harrived hstep, howner]
  | enter h cookie account stamp =>
    simp only [step] at hstep
    split at hstep
    · cases hstep
    · rw [harrived hstep, howner]
  | advance h =>
    obtain ⟨r, -, hadvance⟩ := Option.bind_eq_some_iff.mp hstep
    unfold Server.advance at hadvance
    split at hadvance
    · obtain rfl := Option.some.inj hadvance
      exact howner
    · split at hadvance
      · split at hadvance <;> (obtain rfl := Option.some.inj hadvance; exact howner)
      · cases hadvance
    · cases hadvance
  | revoke h | fail h =>
    simp only [step] at hstep
    split at hstep
    · obtain rfl := Option.some.inj hstep
      exact howner
    · cases hstep

/-- A chat session changes its owner only when a claim of it commits. -/
theorem owner_changes (hinv : Inv site listed past s) (hstep : step site listed s l = some s')
    {id : Nat} {owner : UserId} (howner : ownerOf s.sessions id = some owner)
    (hchanged : ownerOf s'.sessions id ≠ some owner) :
    ∃ h draw account row, l = .commit h draw ∧ row.userId = owner ∧ owner.isAnonymous = true ∧
      ownerOf s'.sessions id = some (.usr account) ∧ past (Entered site listed h account row) := by
  by_cases hcommit : ∃ h draw, l = .commit h draw
  · obtain ⟨h, draw, rfl⟩ := hcommit
    rcases commit_owner hinv hstep howner with hsame | ⟨account, row, hrest⟩
    · exact absurd hsame hchanged
    · exact ⟨h, draw, account, row, rfl, hrest⟩
  · exact absurd (step_owner hinv (fun h draw hl => hcommit ⟨h, draw, hl⟩) hstep howner) hchanged

end

/-- No request has arrived. -/
def Server.new (now : Int) (authSessions : List AuthSession) (sessions : List Session) : Server W where
  now := now
  authSessions := authSessions
  sessions := sessions
  locks := []
  routes := idle
  uuids := authSessions.map AuthSession.authSessionId ++ sessions.map Session.sessionId
  principals := []
  presented := []

omit [DecidableEq W] in
theorem Inv.new {site : Site} {listed : UserId → Bool} {past : (Server W → Label W → Prop) → Prop}
    (now : Int) (authSessions : List AuthSession) (sessions : List Session) :
    Inv site listed past (Server.new now authSessions sessions) where
  exclusive := exclusive_nil
  drawn := fun _ hc => List.mem_append_right _ (List.mem_map_of_mem hc)
  held := fun _ _ h => by cases h

/-- In every run, a chat session goes from an anonymous principal to the account
that has logged in with a cookie of it, by the commit of that login, and changes
its owner in no other way; and the cookie of a claim or a logout that has committed
never resolves again. -/
theorem owners_and_cookies {site : Site} {listed : UserId → Bool} {now : Int}
    {authSessions : List AuthSession} {sessions : List Session} {ls : List (Label W)} {s : Server W}
    (hrun : exec (step site listed) (Server.new now authSessions sessions) ls = some s) :
    (∀ l s' id owner, step site listed s l = some s' → ownerOf s.sessions id = some owner →
      ownerOf s'.sessions id ≠ some owner →
      ∃ h draw account row, l = .commit h draw ∧ row.userId = owner ∧ owner.isAnonymous = true ∧
        ownerOf s'.sessions id = some (.usr account) ∧
        Took (step site listed) (Server.new now authSessions sessions) ls
          (Entered site listed h account row)) ∧
    ∀ h cookieValue, s.routes h = some (.ended (some cookieValue)) → ∀ ls' s',
      exec (step site listed) s ls' = some s' →
      lookupAuthSession site listed s'.now s'.authSessions cookieValue = none := by
  have hinv : Inv site listed
      (Took (step site listed) (Server.new now authSessions sessions) ls) s := by
    refine exec_history
      (I := fun ls s => Inv site listed
        (Took (step site listed) (Server.new now authSessions sessions) ls) s)
      (Inv.new now authSessions sessions) (fun ls s₁ l s₂ hrun₁ hinv₁ hstep => ?_) hrun
    exact (hinv₁.mono fun P hP => hP.append [l]).step (fun P hP => Took.last hrun₁ hP) hstep
  refine ⟨fun l s' id owner hstep howner hchanged => owner_changes hinv hstep howner hchanged,
    fun h v hr ls' s' hrun' => ?_⟩
  have hany : Along (step site listed) (fun _ _ => True) s ls' :=
    along_of_mem ls' s fun _ _ _ => trivial
  have hages : Ages s s' := exec_relates (fun _ => Ages.same rfl rfl rfl) (fun _ _ _ => Ages.trans)
    (fun _ _ _ _ => step_ages) ls' s s' hany hrun'
  exact (hages.dead (hinv.held h _ hr v rfl)).1

/-- The cookie of the session with the id 1 and a secret of zeros. -/
def firstCookie : Str := List.replicate 31 '0' ++ "1.".toList ++ List.replicate 64 '0'

/-- A new visitor asks, and an account logs in with the visitor's cookie. -/
def claimingHistory : List (Label Nat) :=
  [.visit 0 none, .finish 0 (some 7) 3 ⟨1, List.replicate 64 '0'⟩,
    .enter 1 (some firstCookie) 4 none, .advance 1, .advance 1]

theorem owners_and_cookies_claiming :
    ∃ s s', exec (step exampleSite fun _ => false) (Server.new 0 [] []) claimingHistory = some s ∧
      step exampleSite (fun _ => false) s (.commit 1 ⟨5, List.replicate 64 '1'⟩) = some s' ∧
      (∃ h draw account row, Label.commit 1 ⟨5, List.replicate 64 '1'⟩ = .commit h draw ∧
        row.userId = .anon 3 ∧ UserId.isAnonymous (.anon 3) = true ∧
        ownerOf s'.sessions 7 = some (.usr account) ∧
        Took (step exampleSite fun _ => false) (Server.new 0 [] []) claimingHistory
          (Entered exampleSite (fun _ => false) h account row)) ∧
      lookupAuthSession exampleSite (fun _ => false) s'.now s'.authSessions firstCookie = none := by
  have hrun : ∃ s ∈ exec (step exampleSite fun _ => false) (Server.new 0 [] []) claimingHistory,
      ownerOf s.sessions 7 = some (.anon 3) ∧
      ∃ s' ∈ step exampleSite (fun _ => false) s (.commit 1 ⟨5, List.replicate 64 '1'⟩),
        ownerOf s'.sessions 7 = some (.usr 4) ∧ s'.routes 1 = some (.ended (some firstCookie)) := by
    decide +kernel
  obtain ⟨s, hs, howner, s', hs', howner', hended⟩ := hrun
  have hs'' : exec (step exampleSite fun _ => false) (Server.new 0 [] [])
      (claimingHistory ++ [.commit 1 ⟨5, List.replicate 64 '1'⟩]) = some s' := by
    rw [exec_append, hs, Option.bind_some, exec_singleton]
    exact hs'
  refine ⟨s, s', hs, hs', (owners_and_cookies hs).1 _ s' 7 _ hs' howner ?_,
    (owners_and_cookies hs'').2 1 firstCookie hended [] s' rfl⟩
  rw [howner']
  simp

end CiteVyn.Auth.Ownership
