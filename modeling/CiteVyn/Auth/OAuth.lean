import CiteVyn.Auth.AuthSessions
import CiteVyn.Lib.Vouchers

/-! # OAuth sign-ins and connects

The start routes and the callback of `app/api/routes/oauth.py`. A nonce is bound
to the auth session that has started the flow, and a callback deletes it before
it does anything with an identity. -/
namespace CiteVyn.Auth.OAuth
open CiteVyn.Lib.Locks CiteVyn.Lib.Runs CiteVyn.Lib.Threads CiteVyn.Text

/-! ## Nonces -/

/-- `OAuthNonce`. -/
structure OAuthNonce where
  nonceId : Nat
  provider : Str
  authSessionId : Option Nat
  returnIntent : Str
  expiresAt : Int
  deriving DecidableEq, Repr

def intentLogin : Str := "login".toList

def intentConnect : Str := "connect".toList

def nonceTtlSeconds : Int := 300

/-- The keys of `_PROVIDERS`. -/
def providers (name : Str) : Option Provider :=
  if name = "github".toList then some .github
  else if name = "google".toList then some .google
  else none

/-- `_require_provider`, none for a 404. -/
def requireProvider (site : Site) (name : Str) : Option Provider :=
  (providers name).filter site.hasCredentials

/-- `_session_is_fresh`. -/
def sessionIsFresh (site : Site) (now : Int) (session : AuthSession) : Bool :=
  now - session.createdAt ≤ seconds site.oauthConnectMaxSessionAgeSeconds

/-- The predicates of the delete of `_claim_nonce`. -/
def OAuthNonce.claimable (nonceId : Nat) (provider : Str) (authSessionId : Nat) (n : OAuthNonce) : Bool :=
  n.nonceId = nonceId && n.provider = provider && n.authSessionId = some authSessionId

/-- `_claim_nonce`: the nonce, if one is deleted, and the nonces that stay. -/
def claimNonce (site : Site) (nonces : List OAuthNonce) (state : Option Str) (provider : Str)
    (authSessionId : Option Nat) : Option OAuthNonce × List OAuthNonce :=
  match state, authSessionId with
  | some state, some authSessionId =>
    if state.isEmpty then (none, nonces)
    else
      match site.uuid state with
      | none => (none, nonces)
      | some nonceId =>
        (nonces.find? (OAuthNonce.claimable nonceId provider authSessionId),
          nonces.filter fun n => !n.claimable nonceId provider authSessionId)
  | _, _ => (none, nonces)

/-! ## Routes -/

/-- What a callback is given. -/
structure Callback where
  provider : Str
  cookie : Option Str
  error : Option Str
  state : Option Str
  code : Option Str
  deriving DecidableEq, Repr

/-- Where a request is. Each has a handler of its own. -/
inductive Route where
  /-- about to insert a nonce, for its session or for one to be minted -/
  | starting (provider returnIntent : Str) (authSessionId : Option Nat)
  /-- `current_auth_session_id` has been resolved -/
  | called (c : Callback) (current : Option Nat)
  /-- about to check the expiry of the nonce that it has claimed -/
  | claimed (c : Callback) (nonce : OAuthNonce)
  /-- waiting for the provider -/
  | asking (c : Callback) (nonce : OAuthNonce)
  /-- about to resolve the target -/
  | connecting (c : Callback) (nonce : OAuthNonce) (provider : Provider) (identity : Identity)
  /-- in `_link_identity` -/
  | linking (c : Callback) (nonce : OAuthNonce) (target : UserId)
  /-- in `_resolve_or_create_identity` -/
  | loggingIn (c : Callback) (nonce : OAuthNonce)
  /-- in `claim_and_login`, which has looked the cookie up -/
  | rotating (c : Callback) (nonce : OAuthNonce) (user : UserId) (oldRow : Option AuthSession)
  | done

def Route.callback : Route → Option Callback
  | .starting _ _ _ | .done => none
  | .called c _ | .claimed c _ | .asking c _ | .connecting c _ _ _ | .linking c _ _ | .loggingIn c _
  | .rotating c _ _ _ => some c

/-- The nonce that a callback has claimed. -/
def Route.nonce : Route → Option OAuthNonce
  | .starting _ _ _ | .called _ _ | .done => none
  | .claimed _ n | .asking _ n | .connecting _ n _ _ | .linking _ n _ | .loggingIn _ n
  | .rotating _ n _ _ => some n

variable {W : Type}

/-- A nonce that has been claimed, and by which callback. -/
structure Claim (W : Type) where
  handler : W
  callback : Callback
  nonce : OAuthNonce

structure Server (W : Type) where
  ids : World W
  now : Int
  listed : UserId → Bool
  authSessions : List AuthSession
  nonces : List OAuthNonce
  routes : W → Option Route
  /-- the ids of rows that have been drawn -/
  uuids : List Nat
  /-- the sessions whose cookie a response has set -/
  setCookies : List Nat
  claims : List (Claim W)

inductive Label (W : Type) where
  | tick (elapsed : Nat)
  | setListed (listed : UserId → Bool)
  | start (h : W) (provider : Str) (cookie : Option Str)
  | connectStart (h : W) (provider : Str) (cookie : Option Str)
  /-- the nonce of a start route, with what a new principal would draw -/
  | insertNonce (h : W) (nonceId principal : Nat) (draw : Draw)
  | callback (h : W) (c : Callback)
  | advance (h : W)
  /-- the provider answers, and a new user would draw an id -/
  | fetched (h : W) (identity : Identity) (newUser : Nat)
  /-- `claim_and_login` issues its session, and the callback commits -/
  | rotate (h : W) (draw : Draw)
  /-- the provider fails, or the request dies -/
  | fail (h : W)
  /-- the other routes -/
  | signIn (user : UserId) (draw : Draw)
  | signOut (authSessionId : Nat)

/-- The request that a step is of. -/
def Label.handler : Label W → Option W
  | .insertNonce h _ _ _ | .advance h | .fetched h _ _ | .rotate h _ | .fail h => some h
  | _ => none

def Server.tryResolve (site : Site) (s : Server W) (cookie : Option Str) : Option AuthSession :=
  tryResolveAuthSession site s.listed s.now s.authSessions cookie

variable [DecidableEq W]

def Server.goto (s : Server W) (h : W) (r : Route) : Server W :=
  { s with routes := put s.routes h (some r) }

/-- The request is over, and what its transaction holds is rolled back. -/
def Server.leave (s : Server W) (h : W) : Server W :=
  { s with ids := s.ids.rollback h none, routes := put s.routes h (some .done) }

/-- `_create_auth_session`, with the cookie. -/
def Server.openSession (site : Site) (s : Server W) (draw : Draw) (user : UserId) : Option (Server W) :=
  if draw.authSessionId ∈ s.uuids then none
  else
    some { s with
      authSessions := createAuthSession site s.now draw user none :: s.authSessions
      uuids := draw.authSessionId :: s.uuids
      setCookies := draw.authSessionId :: s.setCookies }

/-- The session is deleted, and its nonces with it. -/
def Server.dropSession (s : Server W) (authSessionId : Nat) : Server W :=
  { s with
    authSessions := deleteAuthSession s.authSessions authSessionId
    nonces := s.nonces.filter fun n => n.authSessionId ≠ some authSessionId }

/-- `_mint_principal`. -/
def Server.mintPrincipal (site : Site) (s : Server W) (principal : Nat) (draw : Draw) : Option (Server W) :=
  if .anon principal ∈ s.ids.drawn then none
  else
    Server.openSession site { s with ids := s.ids.addUser ⟨.anon principal, none⟩ } draw (.anon principal)

/-- The nonce of `_start_oauth_flow`; its session has to be there. -/
def Server.addNonce (s : Server W) (h : W) (nonceId : Nat) (provider returnIntent : Str)
    (authSessionId : Nat) : Option (Server W) :=
  if nonceId ∈ s.uuids then none
  else if authSessionId ∈ s.authSessions.map AuthSession.authSessionId then
    some { s with
      nonces := ⟨nonceId, provider, some authSessionId, returnIntent, s.now + seconds nonceTtlSeconds⟩ ::
        s.nonces
      uuids := nonceId :: s.uuids
      routes := put s.routes h (some .done) }
  else some (s.leave h)

/-- The claim of a callback; it goes on with the nonce, or is over. -/
def Server.claim (site : Site) (s : Server W) (h : W) (c : Callback) (current : Option Nat)
    (next : OAuthNonce → Route) : Server W :=
  match claimNonce site s.nonces c.state c.provider current with
  | (some nonce, nonces) =>
    { s with
      nonces := nonces
      claims := ⟨h, c, nonce⟩ :: s.claims
      routes := put s.routes h (some (next nonce)) }
  | (none, nonces) => { s with nonces := nonces, routes := put s.routes h (some .done) }

/-- A query parameter is absent, or empty. -/
def missing (value : Option Str) : Bool := value.all List.isEmpty

/-- `oauth_callback` from the claim of its nonce. -/
def Server.called (site : Site) (s : Server W) (h : W) (c : Callback) (current : Option Nat) : Server W :=
  if !missing c.error then s.claim site h c current fun _ => .done
  else
    match requireProvider site c.provider with
    | none => s.leave h
    | some _ =>
      if missing c.state || missing c.code || current.isNone then s.leave h
      else s.claim site h c current fun nonce => .claimed c nonce

/-- `_resolve_connect_target`. -/
def Server.resolveConnectTarget (s : Server W) (nonce : OAuthNonce) : Option UserId :=
  match nonce.authSessionId with
  | none => none
  | some authSessionId =>
    (resolvePrincipalByAuthSessionId s.listed s.now s.authSessions authSessionId).filter
      UserId.isRegistered

/-- A statement of the request's transaction on the identities. -/
def Server.within (s : Server W) (l : Auth.Label W) (next : World W → Server W → Server W) :
    Option (Server W) :=
  (Auth.step s.ids l).map fun ids => next ids { s with ids := ids }

/-- The next statement of the request's transaction; the route ends with it. -/
def Server.follow (s : Server W) (h : W) : Option (Server W) :=
  s.within (.advance h) fun ids s =>
    if (ids.requests h).isSome then s else { s with routes := put s.routes h (some .done) }

/-- What `_resolve_or_create_identity` has returned. -/
def loginResult : Request → Option (Option UserId)
  | .resolved _ result => some result
  | .created r => some (some r.newUser)
  | _ => none

def Server.advance (site : Site) (s : Server W) (h : W) : Route → Option (Server W)
  | .called c current => some (s.called site h c current)
  | .claimed c nonce => some (if nonce.expiresAt ≤ s.now then s.leave h else s.goto h (.asking c nonce))
  | .connecting c nonce provider identity =>
    match s.resolveConnectTarget nonce with
    | none => some (s.leave h)
    | some target =>
      s.within (.link h provider identity target) fun _ s => s.goto h (.linking c nonce target)
  | .linking _ _ _ => s.follow h
  | .loggingIn c nonce =>
    match (s.ids.requests h).bind loginResult with
    | none => s.follow h
    | some none => some (s.leave h)
    | some (some user) =>
      some (if s.listed user then s.leave h
        else s.goto h (.rotating c nonce user (s.tryResolve site c.cookie)))
  | .starting _ _ _ | .asking _ _ | .rotating _ _ _ _ | .done => none

def step (site : Site) (s : Server W) : Label W → Option (Server W)
  | .tick elapsed => some { s with now := s.now + elapsed }
  | .setListed listed => some { s with listed := listed }
  | .start h provider cookie =>
    match s.routes h, requireProvider site provider with
    | none, some _ =>
      some (s.goto h (.starting provider intentLogin
        ((s.tryResolve site cookie).map AuthSession.authSessionId)))
    | _, _ => none
  | .connectStart h provider cookie =>
    match s.routes h, requireProvider site provider, s.tryResolve site cookie with
    | none, some _, some session =>
      if session.userId.isRegistered && sessionIsFresh site s.now session then
        some (s.goto h (.starting provider intentConnect (some session.authSessionId)))
      else none
    | _, _, _ => none
  | .insertNonce h nonceId principal draw =>
    match s.routes h with
    | some (.starting provider returnIntent (some authSessionId)) =>
      s.addNonce h nonceId provider returnIntent authSessionId
    | some (.starting provider returnIntent none) =>
      (s.mintPrincipal site principal draw).bind fun s =>
        s.addNonce h nonceId provider returnIntent draw.authSessionId
    | _ => none
  | .callback h c =>
    match s.routes h with
    | none => some (s.goto h (.called c ((s.tryResolve site c.cookie).map AuthSession.authSessionId)))
    | some _ => none
  | .advance h => (s.routes h).bind (s.advance site h)
  | .fetched h identity newUser =>
    match s.routes h with
    | some (.asking c nonce) =>
      match requireProvider site c.provider with
      | none => none
      | some provider =>
        if nonce.returnIntent = intentConnect then
          some (s.goto h (.connecting c nonce provider identity))
        else if nonce.returnIntent = intentLogin then
          s.within (.login h provider identity newUser) fun _ s => s.goto h (.loggingIn c nonce)
        else some (s.leave h)
    | _ => none
  | .rotate h draw =>
    match s.routes h with
    | some (.rotating _ _ user oldRow) =>
      (Server.openSession site (oldRow.elim s fun row => s.dropSession row.authSessionId) draw user).bind
        fun s => s.within (.advance h) fun _ s => { s with routes := put s.routes h (some .done) }
    | _ => none
  | .fail h => some (s.leave h)
  | .signIn user draw =>
    if user ∈ s.ids.tables.users.map User.userId then s.openSession site draw user else none
  | .signOut authSessionId => some (s.dropSession authSessionId)

/-! ## Single use -/

theorem claimNonce_cases (site : Site) (nonces : List OAuthNonce) (state : Option Str)
    (provider : Str) (current : Option Nat) :
    claimNonce site nonces state provider current = (none, nonces) ∨
      ∃ n ∈ nonces, state.bind site.uuid = some n.nonceId ∧ n.provider = provider ∧
        n.authSessionId = current ∧ current ≠ none ∧
        ∃ kept, claimNonce site nonces state provider current = (some n, kept) ∧
          kept.Sublist nonces ∧ n ∉ kept ∧ ∀ m ∈ nonces, m.nonceId ≠ n.nonceId → m ∈ kept := by
  unfold claimNonce
  split
  · rename_i state id
    split
    · exact .inl rfl
    · split
      · exact .inl rfl
      · rename_i nonceId hid
        cases hfind : nonces.find? (OAuthNonce.claimable nonceId provider id) with
        | none =>
          have hnone := List.find?_eq_none.mp hfind
          left
          rw [List.filter_eq_self.mpr fun m hm => by simpa using hnone m hm]
        | some n =>
          have hn : (n.nonceId = nonceId ∧ n.provider = provider) ∧ n.authSessionId = some id := by
            simpa [OAuthNonce.claimable] using List.find?_some hfind
          obtain ⟨⟨rfl, hprovider⟩, hsession⟩ := hn
          refine .inr ⟨n, List.mem_of_find?_eq_some hfind, hid, hprovider, hsession, by simp, _, rfl,
            List.filter_sublist, ?_, ?_⟩
          · intro hmem
            have := (List.mem_filter.mp hmem).2
            simp [List.find?_some hfind] at this
          · intro m hm hne
            exact List.mem_filter.mpr ⟨hm, by simp [OAuthNonce.claimable, hne]⟩
  · exact .inl rfl

/-- No id is a nonce's twice, claimed nonces included. -/
structure Ledger (s : Server W) : Prop where
  nonces : (s.nonces.map OAuthNonce.nonceId).Nodup
  claims : (s.claims.map fun k => k.nonce.nonceId).Nodup
  apart : ∀ k ∈ s.claims, k.nonce.nonceId ∉ s.nonces.map OAuthNonce.nonceId
  nonceDrawn : ∀ n ∈ s.nonces, n.nonceId ∈ s.uuids
  claimDrawn : ∀ k ∈ s.claims, k.nonce.nonceId ∈ s.uuids

omit [DecidableEq W] in
/-- The nonces are vouchers, and a callback spends one as it takes it. -/
theorem ledger_iff {s : Server W} :
    Ledger s ↔ Lib.Vouchers.Ledger s.uuids (s.nonces.map OAuthNonce.nonceId) (idle : Unit → Option Nat)
      (s.claims.map fun k => k.nonce.nonceId) := by
  constructor
  · intro h
    exact {
      stored_nodup := h.nonces
      spent_nodup := h.claims
      stored_issued := List.forall_mem_map.mpr h.nonceDrawn
      spent_issued := List.forall_mem_map.mpr h.claimDrawn
      taken_issued := fun _ _ ht => by cases ht
      spent_gone := List.forall_mem_map.mpr h.apart
      taken_gone := fun _ _ ht => by cases ht
      taken_unspent := fun _ _ ht => by cases ht
      taken_once := fun _ _ _ ht => by cases ht }
  · intro h
    exact ⟨h.stored_nodup, h.spent_nodup, fun k hk => h.spent_gone _ (List.mem_map_of_mem hk),
      List.forall_mem_map.mp h.stored_issued, List.forall_mem_map.mp h.spent_issued⟩

omit [DecidableEq W] in
theorem Ledger.shrink {s s' : Server W} (h : Ledger s) (hnonces : s'.nonces.Sublist s.nonces)
    (hclaims : s'.claims = s.claims) (huuids : s.uuids ⊆ s'.uuids) : Ledger s' := by
  rw [ledger_iff, hclaims]
  exact (ledger_iff.mp h).shrink huuids (hnonces.map _)

omit [DecidableEq W] in
theorem Ledger.add {s s' : Server W} {n : OAuthNonce} (h : Ledger s)
    (hnew : n.nonceId ∉ s.uuids) (hnonces : s'.nonces = n :: s.nonces)
    (hclaims : s'.claims = s.claims) (huuids : s'.uuids = n.nonceId :: s.uuids) : Ledger s' := by
  rw [ledger_iff, hnonces, hclaims, huuids]
  exact (ledger_iff.mp h).issue hnew

omit [DecidableEq W] in
theorem Ledger.claim {s s' : Server W} {k : Claim W} {kept : List OAuthNonce} (h : Ledger s)
    (hmem : k.nonce ∈ s.nonces) (hkept : kept.Sublist s.nonces) (hgone : k.nonce ∉ kept)
    (hnonces : s'.nonces = kept) (hclaims : s'.claims = k :: s.claims) (huuids : s'.uuids = s.uuids) :
    Ledger s' := by
  have hidGone : k.nonce.nonceId ∉ kept.map OAuthNonce.nonceId := by
    intro hid
    obtain ⟨m, hm, heq⟩ := List.mem_map.mp hid
    obtain rfl := List.inj_on_of_nodup_map h.nonces (hkept.subset hm) hmem heq
    exact hgone hm
  rw [ledger_iff, hnonces, hclaims, huuids]
  exact (ledger_iff.mp h).cash (w := ()) rfl (List.mem_map_of_mem hmem) (hkept.map _) hidGone

/-! ## What the routes hold -/

/-- The callback arrives with a cookie that resolves to the session. -/
def Opens (site : Site) (h : W) (c : Callback) (authSessionId : Option Nat) (s : Server W)
    (l : Label W) : Prop :=
  l = .callback h c ∧
    ∃ row, s.tryResolve site c.cookie = some row ∧ authSessionId = some row.authSessionId

/-- The session is there, and is the user's. -/
def OwnedBy (authSessionId : Option Nat) (user : UserId) (s : Server W) (_ : Label W) : Prop :=
  ∃ row ∈ s.authSessions, authSessionId = some row.authSessionId ∧ row.userId = user

section
variable {site : Site} {past : (Server W → Label W → Prop) → Prop} {s s' : Server W} {h : W}
  {l : Label W}

/-- A claim meets every predicate. -/
structure Claim.Matched (site : Site) (past : (Server W → Label W → Prop) → Prop) (k : Claim W) : Prop where
  nonceId : k.callback.state.bind site.uuid = some k.nonce.nonceId
  provider : k.callback.provider = k.nonce.provider
  session : past (Opens site k.handler k.callback k.nonce.authSessionId)

/-- What a request at its place holds, with its statement on the identities. -/
def Route.Held (site : Site) (past : (Server W → Label W → Prop) → Prop) (h : W)
    (request : Option Request) : Route → Prop
  | .starting _ _ _ | .done => True
  | .called c current => ∀ id, current = some id →
    past (Opens site h c current) ∧ c.cookie.bind site.cookieId = current
  | .claimed c n | .asking c n => c.cookie.bind site.cookieId = n.authSessionId
  | .connecting _ n _ _ => n.returnIntent = intentConnect
  | .linking _ n target => n.returnIntent = intentConnect ∧ past (OwnedBy n.authSessionId target) ∧
    ∃ r, request = some r ∧ r.target = some target
  | .loggingIn c n => n.returnIntent = intentLogin ∧ c.cookie.bind site.cookieId = n.authSessionId ∧
    ∃ r, request = some r ∧ r.target = none
  | .rotating _ n _ oldRow => n.returnIntent = intentLogin ∧
    (∀ row, oldRow = some row → n.authSessionId = some row.authSessionId) ∧
    ∃ r, request = some r ∧ r.target = none

structure Bound (site : Site) (past : (Server W → Label W → Prop) → Prop) (s : Server W) : Prop where
  ledger : Ledger s
  fresh : Fresh s.ids
  matched : ∀ k ∈ s.claims, k.Matched site past
  held : ∀ h r, s.routes h = some r → r.Held site past h (s.ids.requests h)
  backed : ∀ h r, s.routes h = some r → ∀ c ∈ r.callback, ∀ n ∈ r.nonce, ⟨h, c, n⟩ ∈ s.claims

omit [DecidableEq W] in
theorem cookieId_of_opens {cookie : Option Str} {row : AuthSession}
    (h : s.tryResolve site cookie = some row) : cookie.bind site.cookieId = some row.authSessionId := by
  obtain ⟨cookieValue, rfl, hlookup⟩ := tryResolve_spec h
  exact cookieId_of_lookup hlookup

omit [DecidableEq W] in
/-- The requests stay where they are. -/
theorem Bound.still (hb : Bound site past s) (hledger : Ledger s') (hfresh : Fresh s'.ids)
    (hclaims : s'.claims = s.claims) (hroutes : s'.routes = s.routes)
    (hrequests : s'.ids.requests = s.ids.requests) : Bound site past s' where
  ledger := hledger
  fresh := hfresh
  matched := hclaims ▸ hb.matched
  held := by
    rw [hroutes, hrequests]
    exact hb.held
  backed := by
    rw [hroutes, hclaims]
    exact hb.backed

/-- One request moves, or is over. -/
theorem Bound.moves {route : Route} {request : Option Request} (hb : Bound site past s)
    (hledger : Ledger s') (hfresh : Fresh s'.ids) (hclaims : s'.claims = s.claims)
    (hroutes : s'.routes = put s.routes h (some route))
    (hrequests : s'.ids.requests = put s.ids.requests h request)
    (hroute : route.Held site past h request ∧
      ∀ c ∈ route.callback, ∀ n ∈ route.nonce, ⟨h, c, n⟩ ∈ s.claims) : Bound site past s' where
  ledger := hledger
  fresh := hfresh
  matched := hclaims ▸ hb.matched
  held := by
    intro i r hr
    rw [hroutes] at hr
    rw [hrequests]
    rcases put_cases hr with ⟨rfl, hmoved⟩ | ⟨hne, hthere⟩
    · rw [put_self]
      exact Option.some.inj hmoved ▸ hroute.1
    · rw [put_of_ne _ _ hne]
      exact hb.held i r hthere
  backed := by
    intro i r hr
    rw [hroutes] at hr
    rw [hclaims]
    rcases put_cases hr with ⟨rfl, hmoved⟩ | ⟨_, hthere⟩
    · exact Option.some.inj hmoved ▸ hroute.2
    · exact hb.backed i r hthere

/-- A request ends. -/
theorem Bound.ends {request : Option Request} (hb : Bound site past s)
    (hledger : Ledger s') (hfresh : Fresh s'.ids) (hclaims : s'.claims = s.claims)
    (hroutes : s'.routes = put s.routes h (some .done))
    (hrequests : s'.ids.requests = put s.ids.requests h request) : Bound site past s' :=
  hb.moves hledger hfresh hclaims hroutes hrequests ⟨trivial, fun c hc => by cases hc⟩

theorem Bound.goto {r : Route} (hb : Bound site past s) (hheld : r.Held site past h (s.ids.requests h))
    (hbacked : ∀ c ∈ r.callback, ∀ n ∈ r.nonce, ⟨h, c, n⟩ ∈ s.claims) : Bound site past (s.goto h r) :=
  hb.moves ⟨hb.ledger.nonces, hb.ledger.claims, hb.ledger.apart, hb.ledger.nonceDrawn,
    hb.ledger.claimDrawn⟩ hb.fresh rfl rfl (put_there s.ids.requests h).symm ⟨hheld, hbacked⟩

theorem Bound.leave (hb : Bound site past s) (h : W) : Bound site past (s.leave h) :=
  hb.ends (hb.ledger.shrink (List.Sublist.refl _) rfl fun _ h => h) (hb.fresh.rollback h) rfl rfl rfl

omit [DecidableEq W] in
theorem Bound.openSession {draw : Draw} {user : UserId} (hb : Bound site past s)
    (hopen : s.openSession site draw user = some s') : Bound site past s' := by
  unfold Server.openSession at hopen
  split at hopen
  · cases hopen
  · obtain rfl := Option.some.inj hopen
    exact hb.still (hb.ledger.shrink (List.Sublist.refl _) rfl (List.subset_cons_self _ _)) hb.fresh
      rfl rfl rfl

omit [DecidableEq W] in
theorem Bound.dropSession (hb : Bound site past s) (authSessionId : Nat) :
    Bound site past (s.dropSession authSessionId) :=
  hb.still (hb.ledger.shrink List.filter_sublist rfl fun _ h => h) hb.fresh rfl rfl rfl

omit [DecidableEq W] in
theorem Bound.mintPrincipal {principal : Nat} {draw : Draw} (hb : Bound site past s)
    (hmint : s.mintPrincipal site principal draw = some s') : Bound site past s' := by
  unfold Server.mintPrincipal at hmint
  split at hmint
  · cases hmint
  · rename_i hnew
    have hadded : Bound site past { s with ids := s.ids.addUser ⟨.anon principal, none⟩ } :=
      hb.still (hb.ledger.shrink (List.Sublist.refl _) rfl fun _ h => h) (hb.fresh.addUser hnew)
        rfl rfl rfl
    exact hadded.openSession hmint

theorem Bound.addNonce {nonceId authSessionId : Nat} {provider returnIntent : Str}
    (hb : Bound site past s)
    (hadd : s.addNonce h nonceId provider returnIntent authSessionId = some s') : Bound site past s' := by
  unfold Server.addNonce at hadd
  split at hadd
  · cases hadd
  · rename_i hnew
    split at hadd
    · obtain rfl := Option.some.inj hadd
      exact hb.ends (hb.ledger.add hnew rfl rfl rfl) hb.fresh rfl rfl (put_there s.ids.requests h).symm
    · obtain rfl := Option.some.inj hadd
      exact hb.leave h

theorem Bound.claim {c : Callback} {current : Option Nat} {next : OAuthNonce → Route}
    (hb : Bound site past s)
    (hcurrent : ∀ id, current = some id → past (Opens site h c current))
    (hnext : ∀ n, n.authSessionId = current → current ≠ none →
      (next n).Held site past h (s.ids.requests h) ∧
        ∀ c' ∈ (next n).callback, ∀ n' ∈ (next n).nonce, c' = c ∧ n' = n) :
    Bound site past (s.claim site h c current next) := by
  unfold Server.claim
  rcases claimNonce_cases site s.nonces c.state c.provider current with
    heq | ⟨n, hmem, hid, hprovider, hsession, hnone, kept, heq, hkept, hgone, -⟩
  · simp only [heq]
    exact hb.ends (hb.ledger.shrink (List.Sublist.refl _) rfl fun _ h => h) hb.fresh rfl rfl
      (put_there s.ids.requests h).symm
  · simp only [heq]
    obtain ⟨id, hcur⟩ := Option.ne_none_iff_exists'.mp hnone
    constructor
    · exact hb.ledger.claim hmem hkept hgone rfl rfl rfl
    · exact hb.fresh
    · intro k hk
      rcases List.mem_cons.mp hk with rfl | hk
      · exact ⟨hid, hprovider.symm, hsession ▸ hcurrent id hcur⟩
      · exact hb.matched k hk
    · intro i r hr
      rcases put_cases hr with ⟨rfl, hmoved⟩ | ⟨_, hthere⟩
      · exact Option.some.inj hmoved ▸ (hnext n hsession hnone).1
      · exact hb.held i r hthere
    · intro i r hr c' hc' n' hn'
      rcases put_cases hr with ⟨rfl, hmoved⟩ | ⟨_, hthere⟩
      · obtain rfl := Option.some.inj hmoved
        obtain ⟨rfl, rfl⟩ := (hnext n hsession hnone).2 c' hc' n' hn'
        exact List.mem_cons_self
      · exact List.mem_cons_of_mem _ (hb.backed i r hthere c' hc' n' hn')

theorem Bound.called {c : Callback} {current : Option Nat} (hb : Bound site past s)
    (hr : s.routes h = some (.called c current)) : Bound site past (s.called site h c current) := by
  have hheld := hb.held h _ hr
  have hcurrent : ∀ id, current = some id → past (Opens site h c current) :=
    fun id hid => (hheld id hid).1
  unfold Server.called
  split
  · exact hb.claim hcurrent fun n _ _ => ⟨trivial, fun c' hc => by cases hc⟩
  · split
    · exact hb.leave h
    · split
      · exact hb.leave h
      · refine hb.claim hcurrent fun n hsession hnone => ⟨?_, fun c' hc n' hn => ?_⟩
        · obtain ⟨id, hid⟩ := Option.ne_none_iff_exists'.mp hnone
          exact (hheld id hid).2.trans hsession.symm
        · exact ⟨(Option.some.inj hc).symm, (Option.some.inj hn).symm⟩

theorem within_some {l : Auth.Label W} {next : World W → Server W → Server W}
    (hstep : s.within l next = some s') :
    ∃ ids, Auth.step s.ids l = some ids ∧ next ids { s with ids := ids } = s' :=
  Option.map_eq_some_iff.mp hstep

omit [DecidableEq W] in
theorem owned_of_target {n : OAuthNonce} {target : UserId}
    (h : s.resolveConnectTarget n = some target) (l : Label W) : OwnedBy n.authSessionId target s l := by
  unfold Server.resolveConnectTarget at h
  split at h
  · cases h
  · rename_i id hid
    obtain ⟨hresolve, -⟩ := Option.filter_eq_some_iff.mp h
    obtain ⟨row, hmem, hrow, huser, -⟩ := resolvePrincipal_spec hresolve
    exact ⟨row, hmem, by rw [hid, hrow], huser⟩

theorem Bound.follow {r : Route} (hb : Bound site past s) (hr : s.routes h = some r)
    (hstep : s.follow h = some s')
    (hheld : ∀ q q', s.ids.requests h = some q → q'.target = q.target → r.Held site past h (some q')) :
    Bound site past s' := by
  obtain ⟨ids, hids, rfl⟩ := within_some hstep
  obtain ⟨q, q', hq, hrequests, heffect⟩ := advance_effect hids
  have hledger : Ledger { s with ids := ids } :=
    hb.ledger.shrink (List.Sublist.refl _) rfl fun _ h => h
  rw [hrequests, put_self]
  cases q' with
  | none =>
    exact hb.ends (hledger.shrink (List.Sublist.refl _) rfl fun _ h => h) (hb.fresh.advance hids)
      rfl rfl hrequests
  | some q' =>
    refine hb.moves hledger (hb.fresh.advance hids) rfl
      ((put_there s.routes h).symm.trans (by rw [hr])) hrequests ⟨?_, hb.backed h r hr⟩
    rcases heffect with ⟨-, hkeeps⟩ | ⟨hnone, -⟩
    · exact hheld q q' hq (hkeeps q' rfl)
    · cases hnone

theorem Bound.advance {r : Route} (hb : Bound site past s) (hnow : ∀ P : Server W → Label W → Prop, P s l → past P)
    (hr : s.routes h = some r) (hstep : s.advance site h r = some s') : Bound site past s' := by
  have hheld := hb.held h r hr
  have hbacked := hb.backed h r hr
  cases r with
  | called c current =>
    obtain rfl := Option.some.inj hstep
    exact hb.called hr
  | claimed c n =>
    obtain rfl := Option.some.inj hstep
    split
    · exact hb.leave h
    · exact hb.goto hheld hbacked
  | connecting c n provider identity =>
    simp only [Server.advance] at hstep
    split at hstep
    · obtain rfl := Option.some.inj hstep
      exact hb.leave h
    · rename_i target htarget
      obtain ⟨ids, hids, rfl⟩ := within_some hstep
      simp only [Auth.step] at hids
      split at hids
      · obtain ⟨hrequests, -⟩ := arrive_effect hids
        exact hb.moves (hb.ledger.shrink (List.Sublist.refl _) rfl fun _ h => h) (hb.fresh.arrive hids)
          rfl rfl hrequests ⟨⟨hheld, hnow _ (owned_of_target htarget l), _, rfl, rfl⟩, hbacked⟩
      · cases hids
  | linking c n target =>
    refine hb.follow hr hstep fun q q' hq hkeeps => ?_
    obtain ⟨hintent, howned, q₀, hq₀, htarget⟩ := hheld
    rw [hq] at hq₀
    obtain rfl := Option.some.inj hq₀
    exact ⟨hintent, howned, q', rfl, hkeeps.trans htarget⟩
  | loggingIn c n =>
    obtain ⟨hintent, hcookie, q₀, hq₀, htarget⟩ := hheld
    simp only [Server.advance] at hstep
    split at hstep
    · refine hb.follow hr hstep fun q q' hq hkeeps => ?_
      rw [hq] at hq₀
      obtain rfl := Option.some.inj hq₀
      exact ⟨hintent, hcookie, q', rfl, hkeeps.trans htarget⟩
    · obtain rfl := Option.some.inj hstep
      exact hb.leave h
    · rename_i user _
      obtain rfl := Option.some.inj hstep
      split
      · exact hb.leave h
      · refine hb.goto ⟨hintent, fun row hrow => ?_, q₀, hq₀, htarget⟩ hbacked
        exact hcookie.symm.trans (cookieId_of_opens hrow)
  | starting provider intent session => cases hstep
  | asking c n => cases hstep
  | rotating c n user oldRow => cases hstep
  | done => cases hstep

theorem Bound.fetched {identity : Identity} {newUser : Nat} (hb : Bound site past s)
    (hstep : step site s (.fetched h identity newUser) = some s') : Bound site past s' := by
  simp only [step] at hstep
  split at hstep
  · rename_i c n hr
    have hheld := hb.held h _ hr
    have hbacked := hb.backed h _ hr
    split at hstep
    · cases hstep
    · split at hstep
      · rename_i hintent
        obtain rfl := Option.some.inj hstep
        exact hb.goto hintent hbacked
      · split at hstep
        · rename_i hintent
          obtain ⟨ids, hids, rfl⟩ := within_some hstep
          obtain ⟨hrequests, -⟩ := arrive_effect hids
          exact hb.moves (hb.ledger.shrink (List.Sublist.refl _) rfl fun _ h => h)
            (hb.fresh.arrive hids) rfl rfl hrequests ⟨⟨hintent, hheld, _, rfl, rfl⟩, hbacked⟩
        · obtain rfl := Option.some.inj hstep
          exact hb.leave h
  · cases hstep

theorem Bound.rotate {draw : Draw} (hb : Bound site past s)
    (hstep : step site s (.rotate h draw) = some s') : Bound site past s' := by
  simp only [step] at hstep
  split at hstep
  · rename_i c n user oldRow hr
    obtain ⟨s₁, hopen, hcommit⟩ := Option.bind_eq_some_iff.mp hstep
    have hdropped : Bound site past (oldRow.elim s fun row => s.dropSession row.authSessionId) := by
      cases oldRow with
      | none => exact hb
      | some row => exact hb.dropSession row.authSessionId
    have hopened := hdropped.openSession hopen
    obtain ⟨ids, hids, rfl⟩ := within_some hcommit
    obtain ⟨q, q', -, hrequests, -⟩ := advance_effect hids
    exact hopened.ends (hopened.ledger.shrink (List.Sublist.refl _) rfl fun _ h => h)
      (hopened.fresh.advance hids) rfl rfl hrequests
  · cases hstep

/-- Every step keeps what is bound, with the state it starts from in the past. -/
theorem Bound.step (hb : Bound site past s) (hnow : ∀ P : Server W → Label W → Prop, P s l → past P)
    (hstep : step site s l = some s') : Bound site past s' := by
  cases l with
  | tick elapsed =>
    obtain rfl := Option.some.inj hstep
    exact hb.still (hb.ledger.shrink (List.Sublist.refl _) rfl fun _ h => h) hb.fresh rfl rfl rfl
  | setListed listed =>
    obtain rfl := Option.some.inj hstep
    exact hb.still (hb.ledger.shrink (List.Sublist.refl _) rfl fun _ h => h) hb.fresh rfl rfl rfl
  | start h provider cookie =>
    simp only [OAuth.step] at hstep
    split at hstep
    · obtain rfl := Option.some.inj hstep
      exact hb.goto (by trivial) fun c hc => by cases hc
    · cases hstep
  | connectStart h provider cookie =>
    simp only [OAuth.step] at hstep
    split at hstep
    · split at hstep
      · obtain rfl := Option.some.inj hstep
        exact hb.goto (by trivial) fun c hc => by cases hc
      · cases hstep
    · cases hstep
  | insertNonce h nonceId principal draw =>
    simp only [OAuth.step] at hstep
    split at hstep
    · exact hb.addNonce hstep
    · obtain ⟨s₁, hmint, hadd⟩ := Option.bind_eq_some_iff.mp hstep
      exact (hb.mintPrincipal hmint).addNonce hadd
    · cases hstep
  | callback h c =>
    simp only [OAuth.step] at hstep
    split at hstep
    · obtain rfl := Option.some.inj hstep
      refine hb.goto (fun id hid => ?_) fun _ _ n hn => by cases hn
      obtain ⟨row, hrow, rfl⟩ := Option.map_eq_some_iff.mp hid
      rw [hrow]
      exact ⟨hnow _ ⟨rfl, row, hrow, rfl⟩, cookieId_of_opens hrow⟩
    · cases hstep
  | advance h =>
    obtain ⟨r, hr, hadvance⟩ := Option.bind_eq_some_iff.mp hstep
    exact hb.advance hnow hr hadvance
  | fetched h identity newUser => exact hb.fetched hstep
  | rotate h draw => exact hb.rotate hstep
  | fail h =>
    obtain rfl := Option.some.inj hstep
    exact hb.leave h
  | signIn user draw =>
    simp only [OAuth.step] at hstep
    split at hstep
    · exact hb.openSession hstep
    · cases hstep
  | signOut authSessionId =>
    obtain rfl := Option.some.inj hstep
    exact hb.dropSession authSessionId

/-! ## What a step of a callback does to the rows -/

/-- The users, the identities, the sessions and the cookies are as they were. -/
def Quiet (s s' : Server W) : Prop :=
  s'.ids.tables = s.ids.tables ∧ s'.authSessions = s.authSessions ∧ s'.setCookies = s.setCookies

/-- No nonce goes but by the claim of the callback. -/
def Spares (h : W) (c : Callback) (s s' : Server W) : Prop :=
  Quiet s s' ∧ ∀ n ∈ s.nonces, n ∉ s'.nonces → s'.claims = ⟨h, c, n⟩ :: s.claims

omit [DecidableEq W] in
theorem Quiet.spares {c : Callback} (hquiet : Quiet s s') (hnonces : s'.nonces = s.nonces) :
    Spares h c s s' :=
  ⟨hquiet, fun _ hn hgone => absurd (hnonces ▸ hn) hgone⟩

theorem leave_spares (s : Server W) (h : W) (c : Callback) : Spares h c s (s.leave h) :=
  Quiet.spares ⟨rfl, rfl, rfl⟩ rfl

theorem goto_spares (s : Server W) (h : W) (c : Callback) (r : Route) : Spares h c s (s.goto h r) :=
  Quiet.spares ⟨rfl, rfl, rfl⟩ rfl

theorem claim_spares (hledger : Ledger s) (c : Callback) (current : Option Nat)
    (next : OAuthNonce → Route) : Spares h c s (s.claim site h c current next) := by
  unfold Server.claim
  rcases claimNonce_cases site s.nonces c.state c.provider current with
    heq | ⟨n, hmem, -, -, -, -, kept, heq, -, -, hothers⟩
  · simp only [heq]
    exact Quiet.spares ⟨rfl, rfl, rfl⟩ rfl
  · simp only [heq]
    refine ⟨⟨rfl, rfl, rfl⟩, fun m hm hgone => ?_⟩
    -- the nonce that has gone has the id of the one that was claimed
    have hid : m.nonceId = n.nonceId := by
      by_contra hne
      exact hgone (hothers m hm hne)
    obtain rfl := List.inj_on_of_nodup_map hledger.nonces hm hmem hid
    rfl

theorem called_spares (hledger : Ledger s) (c : Callback) (current : Option Nat) :
    Spares h c s (s.called site h c current) := by
  unfold Server.called
  split
  · exact claim_spares hledger c current _
  · split
    · exact leave_spares s h c
    · split
      · exact leave_spares s h c
      · exact claim_spares hledger c current _

/-- A step of a callback claims its nonce, takes a statement of its transaction on
the identities, rotates the cookie, or does nothing to the rows. -/
theorem step_cases {r : Route} {c : Callback} (hledger : Ledger s) (hr : s.routes h = some r)
    (hc : r.callback = some c) (hl : l.handler = some h) (hstep : step site s l = some s') :
    Spares h c s s' ∨
      (s.follow h = some s' ∧ ((∃ n target, r = .linking c n target) ∨ ∃ n, r = .loggingIn c n)) ∨
      ∃ n user oldRow draw, r = .rotating c n user oldRow ∧ l = .rotate h draw := by
  cases l with
  | tick elapsed | setListed listed | start i provider cookie | connectStart i provider cookie
  | callback i c | signIn user draw | signOut id => cases hl
  | fail i =>
    obtain rfl := Option.some.inj hl
    obtain rfl := Option.some.inj hstep
    exact .inl (leave_spares s i c)
  | insertNonce i nonceId principal draw =>
    obtain rfl := Option.some.inj hl
    simp only [step, hr] at hstep
    cases r with
    | starting provider intent session => cases hc
    | _ => cases hstep
  | fetched i identity newUser =>
    obtain rfl := Option.some.inj hl
    simp only [step] at hstep
    split at hstep
    · split at hstep
      · cases hstep
      · split at hstep
        · obtain rfl := Option.some.inj hstep
          exact .inl (goto_spares s i c _)
        · split at hstep
          · obtain ⟨ids, hids, rfl⟩ := within_some hstep
            exact .inl (Quiet.spares ⟨(arrive_effect hids).2, rfl, rfl⟩ rfl)
          · obtain rfl := Option.some.inj hstep
            exact .inl (leave_spares s i c)
    · cases hstep
  | rotate i draw =>
    obtain rfl := Option.some.inj hl
    simp only [step, hr] at hstep
    cases r with
    | rotating c' n user oldRow =>
      obtain rfl := Option.some.inj hc
      exact .inr (.inr ⟨n, user, oldRow, draw, rfl, rfl⟩)
    | _ => cases hstep
  | advance i =>
    obtain rfl := Option.some.inj hl
    simp only [step, hr, Option.bind_some] at hstep
    cases r with
    | called c' current =>
      obtain rfl := Option.some.inj hc
      obtain rfl := Option.some.inj hstep
      exact .inl (called_spares hledger c' current)
    | claimed c' n =>
      obtain rfl := Option.some.inj hstep
      split
      · exact .inl (leave_spares s i c)
      · exact .inl (goto_spares s i c _)
    | connecting c' n provider identity =>
      simp only [Server.advance] at hstep
      split at hstep
      · obtain rfl := Option.some.inj hstep
        exact .inl (leave_spares s i _)
      · obtain ⟨ids, hids, rfl⟩ := within_some hstep
        simp only [Auth.step] at hids
        split at hids
        · exact .inl (Quiet.spares ⟨(arrive_effect hids).2, rfl, rfl⟩ rfl)
        · cases hids
    | linking c' n target =>
      obtain rfl := Option.some.inj hc
      exact .inr (.inl ⟨hstep, .inl ⟨n, target, rfl⟩⟩)
    | loggingIn c' n =>
      obtain rfl := Option.some.inj hc
      simp only [Server.advance] at hstep
      split at hstep
      · exact .inr (.inl ⟨hstep, .inr ⟨n, rfl⟩⟩)
      · obtain rfl := Option.some.inj hstep
        exact .inl (leave_spares s i _)
      · obtain rfl := Option.some.inj hstep
        split
        · exact .inl (leave_spares s i _)
        · exact .inl (goto_spares s i _ _)
    | starting provider intent session => cases hc
    | asking c' n => cases hstep
    | rotating c' n user oldRow => cases hstep
    | done => cases hstep

/-- The rows that a statement of the request's transaction commits. -/
theorem follow_rows (hstep : s.follow h = some s') :
    s'.nonces = s.nonces ∧ s'.authSessions = s.authSessions ∧ s'.setCookies = s.setCookies ∧
      ∃ q, s.ids.requests h = some q ∧
        (s'.ids.tables = s.ids.tables ∨ s'.ids.tables = s.ids.tables.add q) := by
  obtain ⟨ids, hids, rfl⟩ := within_some hstep
  obtain ⟨q, q', hq, -, heffect⟩ := advance_effect hids
  split <;> exact ⟨rfl, rfl, rfl, q, hq, heffect.imp And.left And.right⟩

omit [DecidableEq W] in
theorem openSession_rows {draw : Draw} {user : UserId} (hopen : s.openSession site draw user = some s') :
    s'.ids = s.ids ∧ s'.nonces = s.nonces ∧ s'.routes = s.routes := by
  unfold Server.openSession at hopen
  split at hopen
  · cases hopen
  · obtain rfl := Option.some.inj hopen
    exact ⟨rfl, rfl, rfl⟩

/-- The rows that the end of a login commits. -/
theorem rotate_rows {n : OAuthNonce} {c : Callback} {user : UserId} {oldRow : Option AuthSession}
    {draw : Draw} (hr : s.routes h = some (.rotating c n user oldRow))
    (hstep : step site s (.rotate h draw) = some s') :
    (∀ m ∈ s.nonces, m ∉ s'.nonces → ∃ row, oldRow = some row ∧ m.authSessionId = some row.authSessionId) ∧
      ∃ q, s.ids.requests h = some q ∧
        (s'.ids.tables = s.ids.tables ∨ s'.ids.tables = s.ids.tables.add q) := by
  simp only [step, hr] at hstep
  obtain ⟨s₁, hopen, hcommit⟩ := Option.bind_eq_some_iff.mp hstep
  obtain ⟨hids₁, hnonces₁, -⟩ := openSession_rows hopen
  obtain ⟨ids, hids, rfl⟩ := within_some hcommit
  cases oldRow with
  | none =>
    rw [hids₁] at hids
    obtain ⟨q, q', hq, -, heffect⟩ := advance_effect hids
    refine ⟨fun m hm hgone => absurd (hnonces₁ ▸ hm) hgone, q, hq, ?_⟩
    exact heffect.imp And.left And.right
  | some row =>
    rw [hids₁] at hids
    obtain ⟨q, q', hq, -, heffect⟩ := advance_effect hids
    refine ⟨fun m hm hgone => ⟨row, rfl, ?_⟩, q, hq, heffect.imp And.left And.right⟩
    by_contra hne
    refine hgone ?_
    change m ∈ s₁.nonces
    rw [hnonces₁]
    exact List.mem_filter.mpr ⟨hm, by simpa using hne⟩

/-- What a step of a callback may do, with the nonce that it has claimed. -/
structure Confined (past : (Server W → Label W → Prop) → Prop) (s s' : Server W) (h : W) (c : Callback)
    (claimed : Option OAuthNonce) : Prop where
  /-- a nonce goes by its claim, or with the session that the login has rotated -/
  nonces : ∀ n ∈ s.nonces, n ∉ s'.nonces → s'.claims = ⟨h, c, n⟩ :: s.claims ∨
    ∃ m, claimed = some m ∧ m.returnIntent = intentLogin ∧ n.authSessionId = m.authSessionId
  unclaimed : claimed = none → Quiet s s'
  connect : ∀ m, claimed = some m → m.returnIntent = intentConnect →
    s'.ids.tables.users = s.ids.tables.users ∧ s'.authSessions = s.authSessions ∧
      s'.setCookies = s.setCookies ∧
      (s'.ids.tables.identities = s.ids.tables.identities ∨
        ∃ i, s'.ids.tables.identities = i :: s.ids.tables.identities ∧
          past (OwnedBy m.authSessionId i.userId))
  login : ∀ m, claimed = some m → m.returnIntent = intentLogin →
    s'.ids.tables.identities = s.ids.tables.identities ∨
      ∃ i user, s'.ids.tables.identities = i :: s.ids.tables.identities ∧ i.userId = user.userId ∧
        s'.ids.tables.users = user :: s.ids.tables.users ∧
        user.userId ∉ s.ids.tables.users.map User.userId

omit [DecidableEq W] in
theorem Spares.confined {c : Callback} (hspares : Spares h c s s') (claimed : Option OAuthNonce) :
    Confined past s s' h c claimed := by
  obtain ⟨⟨htables, hsessions, hcookies⟩, hnonces⟩ := hspares
  constructor
  · exact fun n hn hgone => .inl (hnonces n hn hgone)
  · exact fun _ => ⟨htables, hsessions, hcookies⟩
  · intro m _ _
    rw [htables]
    exact ⟨rfl, hsessions, hcookies, .inl rfl⟩
  · intro m _ _
    rw [htables]
    exact .inl rfl

omit [DecidableEq W] in
/-- A login that commits gives the identity to a user of its own. -/
theorem login_rows (hfresh : Fresh s.ids) {q : Request} (hq : s.ids.requests h = some q)
    (htarget : q.target = none) {t : Tables}
    (htables : t = s.ids.tables ∨ t = s.ids.tables.add q) :
    t.identities = s.ids.tables.identities ∨
      ∃ i user, t.identities = i :: s.ids.tables.identities ∧ i.userId = user.userId ∧
        t.users = user :: s.ids.tables.users ∧ user.userId ∉ s.ids.tables.users.map User.userId := by
  rcases htables with rfl | rfl
  · exact .inl rfl
  · cases hi : q.pendingIdentity with
    | none => exact .inl (by simp [Tables.add, hi])
    | some i =>
      obtain ⟨user, huser, hid⟩ := pending_of_no_target htarget i hi
      refine .inr ⟨i, user, by simp [Tables.add, hi], hid.symm, by simp [Tables.add, huser], ?_⟩
      exact hfresh.unused h q hq user.userId (pendingUser_new user huser)

theorem intents_differ {n : OAuthNonce} (hconnect : n.returnIntent = intentConnect)
    (hlogin : n.returnIntent = intentLogin) : False := by
  rw [hconnect] at hlogin
  exact absurd hlogin (by decide)

theorem Bound.linking_confined {c : Callback} {n : OAuthNonce} {target : UserId} (hb : Bound site past s)
    (hr : s.routes h = some (.linking c n target)) (hstep : s.follow h = some s') :
    Confined past s s' h c (some n) := by
  obtain ⟨hintent, howned, q, hq, htarget⟩ := hb.held h _ hr
  obtain ⟨hnonces, hsessions, hcookies, q', hq', htables⟩ := follow_rows hstep
  obtain rfl := Option.some.inj (hq.symm.trans hq')
  obtain ⟨huser, hidentity⟩ := pending_of_target htarget
  constructor
  · exact fun m hm hgone => absurd (hnonces ▸ hm) hgone
  · intro hnone
    cases hnone
  · intro m hm _
    obtain rfl := Option.some.inj hm
    rcases htables with htables | htables
    · rw [htables]
      exact ⟨rfl, hsessions, hcookies, .inl rfl⟩
    · rw [htables]
      refine ⟨by simp [Tables.add, huser], hsessions, hcookies, ?_⟩
      cases hi : q.pendingIdentity with
      | none => exact .inl (by simp [Tables.add, hi])
      | some i =>
        refine .inr ⟨i, by simp [Tables.add, hi], ?_⟩
        rw [hidentity i hi]
        exact howned
  · intro m hm hlogin
    obtain rfl := Option.some.inj hm
    exact (intents_differ hintent hlogin).elim

omit [DecidableEq W] in
/-- A login that has claimed its nonce. -/
theorem login_confined {c : Callback} {n : OAuthNonce} (hfresh : Fresh s.ids)
    (hintent : n.returnIntent = intentLogin) {q : Request} (hq : s.ids.requests h = some q)
    (htarget : q.target = none)
    (hnonces : ∀ m ∈ s.nonces, m ∉ s'.nonces → m.authSessionId = n.authSessionId)
    (htables : s'.ids.tables = s.ids.tables ∨ s'.ids.tables = s.ids.tables.add q) :
    Confined past s s' h c (some n) := by
  constructor
  · exact fun m hm hgone => .inr ⟨n, rfl, hintent, hnonces m hm hgone⟩
  · intro hnone
    cases hnone
  · intro m hm hconnect
    obtain rfl := Option.some.inj hm
    exact (intents_differ hconnect hintent).elim
  · exact fun m _ _ => login_rows hfresh hq htarget htables

theorem Bound.confined {r : Route} {c : Callback} (hb : Bound site past s) (hr : s.routes h = some r)
    (hc : r.callback = some c) (hl : l.handler = some h) (hstep : OAuth.step site s l = some s') :
    Confined past s s' h c r.nonce := by
  rcases step_cases hb.ledger hr hc hl hstep with
    hspares | ⟨hfollow, ⟨n, target, rfl⟩ | ⟨n, rfl⟩⟩ | ⟨n, user, oldRow, draw, rfl, rfl⟩
  · exact hspares.confined r.nonce
  · exact hb.linking_confined hr hfollow
  · obtain ⟨hintent, -, q, hq, htarget⟩ := hb.held h _ hr
    obtain ⟨hnonces, -, -, q', hq', htables⟩ := follow_rows hfollow
    obtain rfl := Option.some.inj (hq.symm.trans hq')
    exact login_confined hb.fresh hintent hq htarget
      (fun m hm hgone => absurd (hnonces ▸ hm) hgone) htables
  · obtain ⟨hintent, hold, q, hq, htarget⟩ := hb.held h _ hr
    obtain ⟨hnonces, q', hq', htables⟩ := rotate_rows hr hstep
    obtain rfl := Option.some.inj (hq.symm.trans hq')
    refine login_confined hb.fresh hintent hq htarget (fun m hm hgone => ?_) htables
    obtain ⟨row, hrow, hsession⟩ := hnonces m hm hgone
    exact hsession.trans (hold row hrow).symm

end

/-- No request has arrived. -/
def Server.new (t : Tables) (now : Int) (listed : UserId → Bool) (authSessions : List AuthSession)
    (nonces : List OAuthNonce) : Server W where
  ids := World.new t
  now := now
  listed := listed
  authSessions := authSessions
  nonces := nonces
  routes := idle
  uuids := nonces.map OAuthNonce.nonceId ++ authSessions.map AuthSession.authSessionId
  setCookies := []
  claims := []

omit [DecidableEq W] in
theorem Bound.new {site : Site} {past : (Server W → Label W → Prop) → Prop} (t : Tables) (now : Int)
    (listed : UserId → Bool) (authSessions : List AuthSession) {nonces : List OAuthNonce}
    (h : (nonces.map OAuthNonce.nonceId).Nodup) :
    Bound site past (Server.new t now listed authSessions nonces) where
  ledger := {
    nonces := h
    claims := List.nodup_nil
    apart := fun _ hk => by cases hk
    nonceDrawn := fun n hn => List.mem_append_left _ (List.mem_map_of_mem hn)
    claimDrawn := fun _ hk => by cases hk }
  fresh := Fresh.new t
  matched := fun _ hk => by cases hk
  held := fun _ _ hr => by cases hr
  backed := fun _ _ hr => by cases hr

omit [DecidableEq W] in
/-- A longer run has taken more. -/
theorem Bound.mono {site : Site} {past past' : (Server W → Label W → Prop) → Prop} {s : Server W}
    (hb : Bound site past s) (hpast : ∀ P, past P → past' P) : Bound site past' s where
  ledger := hb.ledger
  fresh := hb.fresh
  matched := fun k hk => ⟨(hb.matched k hk).nonceId, (hb.matched k hk).provider, hpast _ (hb.matched k hk).session⟩
  held := by
    intro h r hr
    have hheld := hb.held h r hr
    cases r with
    | called c current => exact fun id hid => ⟨hpast _ (hheld id hid).1, (hheld id hid).2⟩
    | linking c n target => exact ⟨hheld.1, hpast _ hheld.2.1, hheld.2.2⟩
    | _ => exact hheld
  backed := hb.backed

/-- In every run, a nonce is claimed once, by a callback whose cookie has resolved
to its session and whose provider is its own. A request that works on a nonce has
claimed it, and each of its steps is confined to what the nonce allows. -/
theorem callback_confined {site : Site} {t : Tables} {now : Int} {listed : UserId → Bool}
    {authSessions : List AuthSession} {nonces : List OAuthNonce}
    (hnonces : (nonces.map OAuthNonce.nonceId).Nodup) {ls : List (Label W)} {s : Server W}
    (hrun : exec (step site) (Server.new t now listed authSessions nonces) ls = some s) :
    (s.claims.map fun k => k.nonce.nonceId).Nodup ∧
      (∀ k ∈ s.claims,
        k.Matched site (Took (step site) (Server.new t now listed authSessions nonces) ls)) ∧
      ∀ h r c, s.routes h = some r → r.callback = some c →
        (∀ n, r.nonce = some n → ⟨h, c, n⟩ ∈ s.claims) ∧
        ∀ l s', l.handler = some h → step site s l = some s' →
          Confined (Took (step site) (Server.new t now listed authSessions nonces) ls) s s' h c
            r.nonce := by
  have hb : Bound site (Took (step site) (Server.new t now listed authSessions nonces) ls) s := by
    refine exec_history
      (I := fun ls s => Bound site (Took (step site) (Server.new t now listed authSessions nonces) ls) s)
      (Bound.new t now listed authSessions hnonces) (fun ls s₁ l s₂ hrun₁ hb₁ hstep => ?_) hrun
    exact (hb₁.mono fun P hP => hP.append [l]).step (fun P hP => Took.last hrun₁ hP) hstep
  exact ⟨hb.ledger.claims, hb.matched, fun h r c hr hc =>
    ⟨fun n hn => hb.backed h r hr c hc n hn, fun l s' hl hstep => hb.confined hr hc hl hstep⟩⟩

/-- A browser without a session starts a login and comes back to it; its cookie is
about to be rotated. -/
def signingIn : List (Label Nat) :=
  [.start 0 "github".toList none, .insertNonce 0 2 3 ⟨1, List.replicate 64 '0'⟩,
    .callback 1 ⟨"github".toList,
      some (List.replicate 31 '0' ++ "1.".toList ++ List.replicate 64 '0'), none,
      some (List.replicate 31 '0' ++ "2".toList), some "code".toList⟩,
    .advance 1, .advance 1, .fetched 1 ⟨"583231".toList, none, false⟩ 4,
    .advance 1, .advance 1, .advance 1, .advance 1, .advance 1]

theorem callback_confined_signingIn :
    ∃ s s' r c, exec (step exampleSite) (Server.new ⟨[], []⟩ 0 (fun _ => false) [] []) signingIn = some s ∧
      s.routes 1 = some r ∧ r.callback = some c ∧
      step exampleSite s (.rotate 1 ⟨5, List.replicate 64 '1'⟩) = some s' ∧
      (s.claims.map fun k => k.nonce.nonceId) = [2] ∧
      Confined (Took (step exampleSite) (Server.new ⟨[], []⟩ 0 (fun _ => false) [] []) signingIn) s s' 1 c
        r.nonce := by
  have hrun : ∃ s ∈ exec (step exampleSite) (Server.new ⟨[], []⟩ 0 (fun _ => false) [] []) signingIn,
      ((s.routes 1).bind Route.callback).isSome ∧
      (step exampleSite s (.rotate 1 ⟨5, List.replicate 64 '1'⟩)).isSome ∧
      (s.claims.map fun k => k.nonce.nonceId) = [2] := by
    decide +kernel
  obtain ⟨s, hs, hroute, hrotate, hclaims⟩ := hrun
  obtain ⟨c, hbind⟩ := Option.isSome_iff_exists.mp hroute
  obtain ⟨r, hr, hc⟩ := Option.bind_eq_some_iff.mp hbind
  obtain ⟨s', hs'⟩ := Option.isSome_iff_exists.mp hrotate
  obtain ⟨-, -, hconfined⟩ := callback_confined (by decide) hs
  exact ⟨s, s', r, c, hs, hr, hc, hs', hclaims, (hconfined 1 r c hr hc).2 _ s' rfl hs'⟩

end CiteVyn.Auth.OAuth
