import CiteVyn.Auth.AuthSessions
import CiteVyn.Lib.Vouchers

/-! # Emailed links and the password changes that they let through

The routes of `app/api/routes/magic_link.py`, `update_password` of
`app/api/routes/auth.py` and `claim_and_login`. A transaction reads what has been
committed, and its own writes are seen once it commits. -/
namespace CiteVyn.Auth.StepUp
open CiteVyn.Lib.Runs CiteVyn.Lib.Threads CiteVyn.Lib.Vouchers CiteVyn.Text

/-! ## Rows -/

/-- What the routes take from elsewhere besides: the digests and the lifetime of a link. -/
structure Config extends Site where
  /-- `hash_token` -/
  hashToken : Str → Str
  /-- `hash_password`, with the salt that it has drawn -/
  hashPassword : Str → Str → Str
  /-- `verify_password` -/
  verifyPassword : Str → Str → Bool
  magicLinkTtlSeconds : Int

/-- `User`. -/
structure Account where
  userId : UserId
  passwordHash : Option Str
  deriving DecidableEq, Repr

/-- `MagicLinkToken`. -/
structure MagicLinkToken where
  tokenId : Nat
  secretHash : Str
  userId : UserId
  expiresAt : Int
  deriving DecidableEq, Repr

/-- `PasswordUpdateRequest`. -/
structure PasswordUpdateRequest where
  currentPassword : Option Str
  newPassword : Str
  deriving DecidableEq, Repr

/-- A link that has been redeemed, and the session that has redeemed it. -/
structure Redemption where
  tokenId : Nat
  authSessionId : Nat
  userId : UserId
  verifiedAt : Int
  deriving DecidableEq, Repr

/-- A password change that has gone through without the current password, and
when the requirement was waived. -/
structure WaivedChange where
  authSessionId : Nat
  userId : UserId
  waivedAt : Int
  deriving DecidableEq, Repr

def tokenMaxLength : Nat := 128

/-- `_parse_token`. -/
def parseToken (site : Site) (value : Str) : Option (Nat × Str) :=
  if value.isEmpty ∨ tokenMaxLength < value.length then none
  else if (cookieSecret value).isEmpty then none
  else (site.cookieId value).map fun tokenId => (tokenId, cookieSecret value)

/-- `step_up_active`. -/
def stepUpActive (site : Site) (now : Int) (session : AuthSession) : Bool :=
  match session.magicLinkVerifiedAt with
  | none => false
  | some stamped =>
    0 ≤ now - stamped && now - stamped ≤ seconds site.passwordStepUpWindowSeconds

/-- The sessions that `revoke_other_sessions` deletes. -/
def otherSessions (rows : List AuthSession) (current : AuthSession) : List Nat :=
  (rows.filter fun row => row.userId = current.userId ∧ row.authSessionId ≠ current.authSessionId).map
    AuthSession.authSessionId

def linksOf (links : List MagicLinkToken) (user : UserId) : List Nat :=
  (links.filter fun link => link.userId = user).map MagicLinkToken.tokenId

def setPassword (accounts : List Account) (user : UserId) (passwordHash : Str) : List Account :=
  accounts.map fun a => if a.userId = user then { a with passwordHash := some passwordHash } else a

/-- `current.magic_link_verified_at = None`: a row that had no stamp is not written. -/
def clearStamp (rows : List AuthSession) (current : AuthSession) : List AuthSession :=
  if current.magicLinkVerifiedAt.isSome then
    rows.map fun row =>
      if row.authSessionId = current.authSessionId then { row with magicLinkVerifiedAt := none } else row
  else rows

/-! ## Requests -/

/-- Where a request is. Each has a handler of its own. -/
inductive Route where
  /-- `update_password` has resolved the session -/
  | updating (body : PasswordUpdateRequest) (current : AuthSession)
  /-- it has loaded the account -/
  | deciding (body : PasswordUpdateRequest) (current : AuthSession) (passwordHash : Option Str)
  /-- waiting for the hash, with the time at which the current password was waived -/
  | hashing (body : PasswordUpdateRequest) (current : AuthSession) (waivedAt : Option Int)
  /-- `revoke_other_sessions` has deleted `others` -/
  | revoking (current : AuthSession) (waivedAt : Option Int) (passwordHash : Str) (others : List Nat)
  /-- it has deleted `links` too -/
  | clearing (current : AuthSession) (waivedAt : Option Int) (passwordHash : Str)
    (others links : List Nat)
  /-- `magic_link_request` has deleted `replaced` -/
  | requesting (user : UserId) (expiresAt : Int) (replaced : List Nat)
  /-- `_claim_token` has committed -/
  | claimed (cookie : Option Str) (link : MagicLinkToken)
  /-- the link has not expired -/
  | unexpired (cookie : Option Str) (link : MagicLinkToken)
  /-- `claim_and_login` is called, for an emailed link with its id and the stamp -/
  | proven (cookie : Option Str) (redeemed : Option (Nat × Int)) (user : UserId)
  /-- it has looked the cookie up -/
  | entering (redeemed : Option (Nat × Int)) (user : UserId) (oldRow : Option AuthSession)
  | done
  deriving DecidableEq, Repr

/-- The link that a request has claimed. -/
def Route.link : Route → Option Nat
  | .claimed _ link | .unexpired _ link => some link.tokenId
  | .proven _ redeemed _ | .entering redeemed _ _ => redeemed.map Prod.fst
  | _ => none

/-- Whether `update_password` goes on without the current password, or with it. -/
def checkCurrent (config : Config) (now : Int) (body : PasswordUpdateRequest) (current : AuthSession) :
    Option Str → Route
  | none => .hashing body current none
  | some passwordHash =>
    if stepUpActive config.toSite now current then .hashing body current (some now)
    else
      match body.currentPassword with
      | none => .done
      | some currentPassword =>
        if currentPassword.isEmpty then .done
        else if config.verifyPassword currentPassword passwordHash then .hashing body current none
        else .done

variable {W : Type}

structure Server (W : Type) where
  now : Int
  accounts : List Account
  links : List MagicLinkToken
  authSessions : List AuthSession
  routes : W → Option Route
  /-- the ids that have been drawn -/
  uuids : List Nat
  redemptions : List Redemption
  waived : List WaivedChange

inductive Label (W : Type) where
  | tick (elapsed : Int)
  | update (h : W) (cookie : Option Str) (body : PasswordUpdateRequest)
  /-- the hash is ready -/
  | hash (h : W) (salt : Str)
  /-- `update_password` commits -/
  | commit (h : W)
  /-- `magic_link_request` for the account of an address -/
  | requestLink (h : W) (user : UserId)
  | sendLink (h : W) (tokenId : Nat) (secret : Str)
  /-- `magic_link_confirm` -/
  | redeem (h : W) (token : Str) (cookie : Option Str)
  /-- `claim_and_login` after a registration or another login -/
  | login (h : W) (account : Nat) (cookie : Option Str)
  | advance (h : W)
  /-- `claim_and_login` commits -/
  | enter (h : W) (draw : Draw)
  /-- an anonymous principal is minted -/
  | visit (principal : Nat) (draw : Draw)
  /-- a session is deleted: a logout or the deletion of its account -/
  | drop (authSessionId : Nat)
  /-- a link is deleted with its account -/
  | dropLink (tokenId : Nat)
  | fail (h : W)

variable (config : Config) (listed : UserId → Bool)

def Server.tryResolve (s : Server W) (cookie : Option Str) : Option AuthSession :=
  tryResolveAuthSession config.toSite listed s.now s.authSessions cookie

/-- `_create_auth_session`. A drawn id is new. -/
def Server.openSession (s : Server W) (draw : Draw) (user : UserId) (magicLinkVerifiedAt : Option Int) :
    Option (Server W) :=
  if draw.authSessionId ∈ s.uuids then none
  else
    some { s with
      authSessions := createAuthSession config.toSite s.now draw user magicLinkVerifiedAt :: s.authSessions
      uuids := draw.authSessionId :: s.uuids }

/-- A session is deleted, if there is one. -/
def Server.dropRow (s : Server W) (row : Option AuthSession) : Server W :=
  { s with authSessions := row.elim s.authSessions fun row => deleteAuthSession s.authSessions row.authSessionId }

variable [DecidableEq W]

def Server.goto (s : Server W) (h : W) (r : Route) : Server W :=
  { s with routes := put s.routes h (some r) }

/-- A request arrives. -/
def Server.arrive (s : Server W) (h : W) (r : Route) : Option (Server W) :=
  match s.routes h with
  | none => some (s.goto h r)
  | some _ => none

/-- A request goes on, up to its next wait. -/
def Server.next (s : Server W) : Route → Option Route
  | .updating body current =>
    (s.accounts.find? fun a => a.userId = current.userId).map fun a =>
      .deciding body current a.passwordHash
  | .deciding body current passwordHash => some (checkCurrent config s.now body current passwordHash)
  | .revoking current waivedAt passwordHash others =>
    some (.clearing current waivedAt passwordHash others (linksOf s.links current.userId))
  | .claimed cookie link => some (if link.expiresAt ≤ s.now then .done else .unexpired cookie link)
  | .unexpired cookie link =>
    some (if s.accounts.any fun a => a.userId = link.userId then
        .proven cookie (some (link.tokenId, s.now)) link.userId
      else .done)
  | .proven cookie redeemed user =>
    some (if listed user then .done else .entering redeemed user (s.tryResolve config listed cookie))
  | _ => none

/-- `update_password` commits. The update of its own row fails when the row is gone
(`StaleDataError`). -/
def Server.commit (s : Server W) (h : W) (current : AuthSession) (waivedAt : Option Int)
    (passwordHash : Str) (others links : List Nat) : Server W :=
  if current.magicLinkVerifiedAt.isSome ∧
      ¬ s.authSessions.any fun row => row.authSessionId = current.authSessionId then
    s.goto h .done
  else
    { s with
      accounts := setPassword s.accounts current.userId passwordHash
      authSessions := (clearStamp s.authSessions current).filter fun row => row.authSessionId ∉ others
      links := s.links.filter fun link => link.tokenId ∉ links
      waived := (waivedAt.map fun t => ⟨current.authSessionId, current.userId, t⟩).toList ++ s.waived
      routes := put s.routes h (some .done) }

def step (s : Server W) : Label W → Option (Server W)
  | .tick elapsed => some { s with now := s.now + elapsed }
  | .update h cookie body =>
    match s.tryResolve config listed cookie with
    | none => s.arrive h .done
    | some current =>
      if current.userId.isRegistered then s.arrive h (.updating body current) else s.arrive h .done
  | .hash h salt =>
    match s.routes h with
    | some (.hashing body current waivedAt) =>
      some (s.goto h (.revoking current waivedAt (config.hashPassword salt body.newPassword)
        (otherSessions s.authSessions current)))
    | _ => none
  | .commit h =>
    match s.routes h with
    | some (.clearing current waivedAt passwordHash others links) =>
      some (s.commit h current waivedAt passwordHash others links)
    | _ => none
  | .requestLink h user =>
    s.arrive h (if s.accounts.any fun a => a.userId = user then
        .requesting user (s.now + seconds config.magicLinkTtlSeconds) (linksOf s.links user)
      else .done)
  | .sendLink h tokenId secret =>
    match s.routes h with
    | some (.requesting user expiresAt replaced) =>
      if tokenId ∈ s.uuids then none
      else
        some { s.goto h .done with
          links := ⟨tokenId, config.hashToken secret, user, expiresAt⟩ ::
            s.links.filter fun link => link.tokenId ∉ replaced
          uuids := tokenId :: s.uuids }
    | _ => none
  | .redeem h token cookie =>
    match parseToken config.toSite token with
    | none => s.arrive h .done
    | some (tokenId, secret) =>
      match s.links.find? fun link => link.tokenId = tokenId ∧ link.secretHash = config.hashToken secret with
      | none => s.arrive h .done
      | some link =>
        Server.arrive { s with links := s.links.filter fun l => l.tokenId ≠ link.tokenId } h
          (.claimed cookie link)
  | .login h account cookie => s.arrive h (.proven cookie none (.usr account))
  | .advance h => ((s.routes h).bind (s.next config listed)).map (s.goto h)
  | .enter h draw =>
    match s.routes h with
    | some (.entering redeemed user oldRow) =>
      ((s.dropRow oldRow).openSession config draw user (redeemed.map Prod.snd)).map fun s =>
        { s.goto h .done with
          redemptions := (redeemed.map fun (tokenId, verifiedAt) =>
            ⟨tokenId, draw.authSessionId, user, verifiedAt⟩).toList ++ s.redemptions }
    | _ => none
  | .visit principal draw => s.openSession config draw (.anon principal) none
  | .drop authSessionId => some { s with authSessions := deleteAuthSession s.authSessions authSessionId }
  | .dropLink tokenId => some { s with links := s.links.filter fun link => link.tokenId ≠ tokenId }
  | .fail h =>
    match s.routes h with
    | some _ => some (s.goto h .done)
    | none => none

/-- No session and no link yet. -/
def Server.new (now : Int) (accounts : List Account) : Server W where
  now := now
  accounts := accounts
  links := []
  authSessions := []
  routes := idle
  uuids := []
  redemptions := []
  waived := []

/-! ## What a stamp and a waiver stand for -/

/-- The session's own redemption, with its window open at the time. -/
def Covered (site : Site) (redemptions : List Redemption) (authSessionId : Nat) (user : UserId)
    (t : Int) : Prop :=
  ∃ r ∈ redemptions, r.authSessionId = authSessionId ∧ r.userId = user ∧ r.verifiedAt ≤ t ∧
    t ≤ r.verifiedAt + seconds site.passwordStepUpWindowSeconds

/-- A stamp is that of the session's own redemption. -/
def Verified (redemptions : List Redemption) (row : AuthSession) : Prop :=
  ∀ stamp, row.magicLinkVerifiedAt = some stamp →
    ∃ r ∈ redemptions, r.authSessionId = row.authSessionId ∧ r.userId = row.userId ∧ r.verifiedAt = stamp

def Route.Held (site : Site) (redemptions : List Redemption) : Route → Prop
  | .updating _ current | .deciding _ current _ => Verified redemptions current
  | .hashing _ current waivedAt | .revoking current waivedAt _ _ | .clearing current waivedAt _ _ _ =>
    ∀ t, waivedAt = some t → current.magicLinkVerifiedAt.isSome = true ∧
      Covered site redemptions current.authSessionId current.userId t
  | _ => True

structure Inv (site : Site) (s : Server W) : Prop where
  ledger : Ledger s.uuids (s.links.map MagicLinkToken.tokenId) (fun h => (s.routes h).bind Route.link)
    (s.redemptions.map Redemption.tokenId)
  drawn : ∀ r ∈ s.redemptions, r.authSessionId ∈ s.uuids
  sessions_nodup : (s.redemptions.map Redemption.authSessionId).Nodup
  stamped : ∀ row ∈ s.authSessions, Verified s.redemptions row
  held : ∀ h r, s.routes h = some r → r.Held site s.redemptions
  covered : ∀ c ∈ s.waived, Covered site s.redemptions c.authSessionId c.userId c.waivedAt

section
variable {config : Config} {site : Site} {listed : UserId → Bool} {redemptions redemptions' : List Redemption}
  {s s' : Server W} {h : W} {l : Label W}

omit [DecidableEq W]

theorem Covered.mono {id : Nat} {user : UserId} {t : Int} (hsub : redemptions ⊆ redemptions')
    (hc : Covered site redemptions id user t) : Covered site redemptions' id user t := by
  obtain ⟨r, hr, hrest⟩ := hc
  exact ⟨r, hsub hr, hrest⟩

theorem Verified.mono {row : AuthSession} (hsub : redemptions ⊆ redemptions')
    (hv : Verified redemptions row) : Verified redemptions' row := by
  intro stamp hstamp
  obtain ⟨r, hr, hrest⟩ := hv stamp hstamp
  exact ⟨r, hsub hr, hrest⟩

theorem Route.Held.mono {r : Route} (hsub : redemptions ⊆ redemptions')
    (hr : r.Held site redemptions) : r.Held site redemptions' := by
  cases r with
  | updating | deciding => exact Verified.mono hsub hr
  | hashing | revoking | clearing => exact fun t ht => ⟨(hr t ht).1, (hr t ht).2.mono hsub⟩
  | requesting | claimed | unexpired | proven | entering | done => trivial

/-- A session that steps up has redeemed a link inside the window. -/
theorem covered_of_stepUpActive {now : Int} {current : AuthSession} (hv : Verified redemptions current)
    (hactive : stepUpActive site now current = true) :
    current.magicLinkVerifiedAt.isSome = true ∧
      Covered site redemptions current.authSessionId current.userId now := by
  unfold stepUpActive at hactive
  split at hactive
  · cases hactive
  · rename_i stamped hstamp
    obtain ⟨r, hr, hid, huser, rfl⟩ := hv stamped hstamp
    simp only [Bool.and_eq_true, decide_eq_true_eq] at hactive
    refine ⟨by rw [hstamp]; rfl, r, hr, hid, huser, ?_, ?_⟩ <;> omega

theorem checkCurrent_held {now : Int} {body : PasswordUpdateRequest} {current : AuthSession}
    (hv : Verified redemptions current) (passwordHash : Option Str) :
    (checkCurrent config now body current passwordHash).Held config.toSite redemptions := by
  unfold checkCurrent
  split
  · exact fun t ht => by cases ht
  · split
    · rename_i hactive
      intro t ht
      obtain rfl := Option.some.inj ht
      exact covered_of_stepUpActive hv hactive
    · split
      · trivial
      · split
        · trivial
        · split
          · exact fun t ht => by cases ht
          · trivial

theorem checkCurrent_link (now : Int) (body : PasswordUpdateRequest) (current : AuthSession)
    (passwordHash : Option Str) : (checkCurrent config now body current passwordHash).link = none := by
  unfold checkCurrent
  split
  · rfl
  · split
    · rfl
    · split
      · rfl
      · split
        · rfl
        · split <;> rfl

theorem openSession_eq {draw : Draw} {user : UserId} {stamp : Option Int}
    (hopen : s.openSession config draw user stamp = some s') :
    draw.authSessionId ∉ s.uuids ∧
      s' = { s with
        authSessions := createAuthSession config.toSite s.now draw user stamp :: s.authSessions
        uuids := draw.authSessionId :: s.uuids } := by
  unfold Server.openSession at hopen
  split at hopen
  · cases hopen
  · rename_i hnew
    exact ⟨hnew, (Option.some.inj hopen).symm⟩

theorem dropRow_sublist (s : Server W) (row : Option AuthSession) :
    (s.dropRow row).authSessions.Sublist s.authSessions := by
  cases row with
  | none => exact List.Sublist.refl _
  | some row => exact List.filter_sublist

theorem verified_clearStamp {rows : List AuthSession} {current : AuthSession}
    (hv : ∀ row ∈ rows, Verified redemptions row) :
    ∀ row ∈ clearStamp rows current, Verified redemptions row := by
  unfold clearStamp
  split
  · intro row hrow
    obtain ⟨row', hrow', rfl⟩ := List.mem_map.mp hrow
    split
    · exact fun stamp hstamp => by cases hstamp
    · exact hv row' hrow'
  · exact hv

end

section
variable {config : Config} {site : Site} {listed : UserId → Bool} {s s' : Server W} {h : W} {l : Label W}

/-- A request moves, with the link that it has claimed or without one. -/
theorem Inv.goto {r : Route} (hinv : Inv site s) (hr : r.Held site s.redemptions)
    (hlink : r.link = none ∨ r.link = (s.routes h).bind Route.link) : Inv site (s.goto h r) where
  ledger := by
    change Ledger _ _ (fun h' => (put s.routes h (some r) h').bind Route.link) _
    rw [put_bind, Option.bind_some]
    rcases hlink with hnone | hsame
    · rw [hnone]
      exact hinv.ledger.drop h
    · rw [hsame, put_there (fun h' => (s.routes h').bind Route.link) h]
      exact hinv.ledger
  drawn := hinv.drawn
  sessions_nodup := hinv.sessions_nodup
  stamped := hinv.stamped
  held := forall_put hinv.held (forall_moved hr)
  covered := hinv.covered

theorem Inv.done (hinv : Inv site s) (h : W) : Inv site (s.goto h .done) :=
  hinv.goto trivial (.inl rfl)

theorem Inv.arrive {r : Route} (hinv : Inv site s) (harrive : s.arrive h r = some s')
    (hr : r.Held site s.redemptions) (hlink : r.link = none) : Inv site s' := by
  unfold Server.arrive at harrive
  split at harrive
  · obtain rfl := Option.some.inj harrive
    exact hinv.goto hr (.inl hlink)
  · cases harrive

omit [DecidableEq W] in
/-- Sessions and links go. -/
theorem Inv.shrink {rows : List AuthSession} {links : List MagicLinkToken} (hinv : Inv site s)
    (hrows : rows ⊆ s.authSessions) (hlinks : links.Sublist s.links) :
    Inv site { s with authSessions := rows, links := links } where
  ledger := hinv.ledger.shrink (fun _ h => h) (hlinks.map _)
  drawn := hinv.drawn
  sessions_nodup := hinv.sessions_nodup
  stamped := fun row hrow => hinv.stamped row (hrows hrow)
  held := hinv.held
  covered := hinv.covered

omit [DecidableEq W] in
theorem Inv.visit {draw : Draw} {principal : Nat} (hinv : Inv site s)
    (hopen : s.openSession config draw (.anon principal) none = some s') : Inv site s' := by
  obtain ⟨-, rfl⟩ := openSession_eq hopen
  refine ⟨hinv.ledger.shrink (List.subset_cons_self _ _) (List.Sublist.refl _),
    fun r hr => List.mem_cons_of_mem _ (hinv.drawn r hr), hinv.sessions_nodup, ?_, hinv.held, hinv.covered⟩
  intro row hrow
  rcases List.mem_cons.mp hrow with rfl | hrow
  · exact fun stamp hstamp => by cases hstamp
  · exact hinv.stamped row hrow

theorem Inv.next {r r' : Route} (hinv : Inv config.toSite s) (hr : s.routes h = some r)
    (hnext : s.next config listed r = some r') : Inv config.toSite (s.goto h r') := by
  have hheld := hinv.held h r hr
  have hlink : (s.routes h).bind Route.link = r.link := by rw [hr]; rfl
  cases r with
  | updating body current =>
    obtain ⟨a, -, rfl⟩ := Option.map_eq_some_iff.mp hnext
    exact hinv.goto hheld (.inl rfl)
  | deciding body current passwordHash =>
    obtain rfl := Option.some.inj hnext
    exact hinv.goto (checkCurrent_held hheld passwordHash) (.inl (checkCurrent_link _ _ _ _))
  | revoking current waivedAt passwordHash others =>
    obtain rfl := Option.some.inj hnext
    exact hinv.goto hheld (.inl rfl)
  | claimed cookie link =>
    obtain rfl := Option.some.inj hnext
    split
    · exact hinv.done h
    · exact hinv.goto trivial (.inr hlink.symm)
  | unexpired cookie link =>
    obtain rfl := Option.some.inj hnext
    split
    · exact hinv.goto trivial (.inr hlink.symm)
    · exact hinv.done h
  | proven cookie redeemed user =>
    obtain rfl := Option.some.inj hnext
    split
    · exact hinv.done h
    · exact hinv.goto trivial (.inr hlink.symm)
  | hashing => cases hnext
  | clearing => cases hnext
  | requesting => cases hnext
  | entering => cases hnext
  | done => cases hnext

theorem Inv.commit {current : AuthSession} {waivedAt : Option Int} {passwordHash : Str}
    {others links : List Nat} (hinv : Inv site s)
    (hr : s.routes h = some (.clearing current waivedAt passwordHash others links)) :
    Inv site (s.commit h current waivedAt passwordHash others links) := by
  have hheld := hinv.held h _ hr
  have hdone := hinv.done h
  unfold Server.commit
  split
  · exact hdone
  · refine ⟨hdone.ledger.shrink (fun _ h => h) (List.filter_sublist.map _), hinv.drawn,
      hinv.sessions_nodup, ?_, hdone.held, ?_⟩
    · intro row hrow
      exact verified_clearStamp hinv.stamped row (List.mem_filter.mp hrow).1
    · intro c hc
      rcases List.mem_append.mp hc with hc | hc
      · obtain ⟨t, ht, rfl⟩ := Option.map_eq_some_iff.mp (Option.mem_toList.mp hc)
        exact (hheld t ht).2
      · exact hinv.covered c hc

theorem Inv.sendLink {tokenId : Nat} {secret : Str} (hinv : Inv config.toSite s)
    (hstep : step config listed s (.sendLink h tokenId secret) = some s') : Inv config.toSite s' := by
  simp only [step] at hstep
  split at hstep
  · rename_i user expiresAt replaced hr
    split at hstep
    · cases hstep
    · rename_i hnew
      obtain rfl := Option.some.inj hstep
      have hdone := hinv.done h
      refine ⟨?_, fun r hr => List.mem_cons_of_mem _ (hinv.drawn r hr), hinv.sessions_nodup,
        hinv.stamped, hdone.held, hinv.covered⟩
      exact (hdone.ledger.shrink (fun _ h => h) (List.filter_sublist.map _)).issue hnew
  · cases hstep

/-- The link goes from the table to the request. -/
theorem Inv.claim {link : MagicLinkToken} {cookie : Option Str} (hinv : Inv site s)
    (hmem : link ∈ s.links)
    (harrive : Server.arrive { s with links := s.links.filter fun l => l.tokenId ≠ link.tokenId } h
      (.claimed cookie link) = some s') : Inv site s' := by
  unfold Server.arrive at harrive
  split at harrive
  · obtain rfl := Option.some.inj harrive
    refine ⟨?_, hinv.drawn, hinv.sessions_nodup, hinv.stamped,
      forall_put hinv.held (forall_moved trivial), hinv.covered⟩
    change Ledger _ _ (fun h' => (put s.routes h (some (.claimed cookie link)) h').bind Route.link) _
    rw [put_bind]
    refine hinv.ledger.take h (List.mem_map_of_mem hmem) (List.filter_sublist.map _) ?_
    intro hgone
    obtain ⟨l, hl, hid⟩ := List.mem_map.mp hgone
    exact of_decide_eq_true (List.mem_filter.mp hl).2 hid
  · cases harrive

/-- The new session is the only one that has redeemed its link. -/
theorem Inv.enter {draw : Draw} (hinv : Inv config.toSite s)
    (hstep : step config listed s (.enter h draw) = some s') : Inv config.toSite s' := by
  simp only [step] at hstep
  split at hstep
  · rename_i redeemed user oldRow hr
    obtain ⟨s₁, hopen, rfl⟩ := Option.map_eq_some_iff.mp hstep
    obtain ⟨hnew, rfl⟩ := openSession_eq hopen
    have hdone := hinv.done h
    have hdropped : ∀ row ∈ (s.dropRow oldRow).authSessions, Verified s.redemptions row :=
      fun row hrow => hinv.stamped row ((dropRow_sublist s oldRow).subset hrow)
    cases redeemed with
    | none =>
      refine ⟨hdone.ledger.shrink (List.subset_cons_self _ _) (List.Sublist.refl _),
        fun r hr => List.mem_cons_of_mem _ (hinv.drawn r hr), hinv.sessions_nodup, ?_, hdone.held,
        hinv.covered⟩
      intro row hrow
      rcases List.mem_cons.mp hrow with rfl | hrow
      · exact fun stamp hstamp => by cases hstamp
      · exact hdropped row hrow
    | some redeemed =>
      obtain ⟨tokenId, verifiedAt⟩ := redeemed
      have hsub : s.redemptions ⊆ ⟨tokenId, draw.authSessionId, user, verifiedAt⟩ :: s.redemptions :=
        List.subset_cons_self _ _
      refine ⟨?_, ?_, ?_, ?_, fun h' r hr' => (hdone.held h' r hr').mono hsub,
        fun c hc => (hinv.covered c hc).mono hsub⟩
      · change Ledger _ _ (fun h' => (put s.routes h (some Route.done) h').bind Route.link) _
        rw [put_bind]
        refine (hinv.ledger.spend (w := h) ?_).shrink (List.subset_cons_self _ _) (List.Sublist.refl _)
        rw [hr]
        rfl
      · intro r hr'
        rcases List.mem_cons.mp hr' with rfl | hr'
        · exact List.mem_cons_self
        · exact List.mem_cons_of_mem _ (hinv.drawn r hr')
      · refine List.nodup_cons.mpr ⟨fun hmem => ?_, hinv.sessions_nodup⟩
        obtain ⟨r, hr', hid⟩ := List.mem_map.mp hmem
        have hdrawn := hinv.drawn r hr'
        rw [hid] at hdrawn
        exact hnew hdrawn
      · intro row hrow
        rcases List.mem_cons.mp hrow with rfl | hrow
        · intro stamp hstamp
          exact ⟨_, List.mem_cons_self, rfl, rfl, Option.some.inj hstamp⟩
        · exact (hdropped row hrow).mono hsub
  · cases hstep

theorem Inv.step (hinv : Inv config.toSite s) (hstep : step config listed s l = some s') :
    Inv config.toSite s' := by
  cases l with
  | tick elapsed =>
    obtain rfl := Option.some.inj hstep
    exact ⟨hinv.ledger, hinv.drawn, hinv.sessions_nodup, hinv.stamped, hinv.held, hinv.covered⟩
  | update h cookie body =>
    simp only [StepUp.step] at hstep
    split at hstep
    · exact hinv.arrive hstep trivial rfl
    · rename_i current hcurrent
      obtain ⟨v, -, hlookup⟩ := tryResolve_spec hcurrent
      obtain ⟨_, -, hfind, -⟩ := lookup_eq_some_iff.mp hlookup
      split at hstep
      · exact hinv.arrive hstep (hinv.stamped current (List.mem_of_find?_eq_some hfind)) rfl
      · exact hinv.arrive hstep trivial rfl
  | hash h salt =>
    simp only [StepUp.step] at hstep
    split at hstep
    · rename_i body current waivedAt hr
      obtain rfl := Option.some.inj hstep
      have hheld := hinv.held h _ hr
      exact hinv.goto hheld (.inl rfl)
    · cases hstep
  | commit h =>
    simp only [StepUp.step] at hstep
    split at hstep
    · rename_i hr
      obtain rfl := Option.some.inj hstep
      exact hinv.commit hr
    · cases hstep
  | requestLink h user =>
    refine hinv.arrive hstep ?_ ?_
    · split <;> trivial
    · split <;> rfl
  | sendLink h tokenId secret => exact hinv.sendLink hstep
  | redeem h token cookie =>
    simp only [StepUp.step] at hstep
    split at hstep
    · exact hinv.arrive hstep trivial rfl
    · split at hstep
      · exact hinv.arrive hstep trivial rfl
      · rename_i link hlink
        exact hinv.claim (List.mem_of_find?_eq_some hlink) hstep
  | login h account cookie =>
    exact hinv.arrive hstep trivial rfl
  | advance h =>
    obtain ⟨r', hnext, rfl⟩ := Option.map_eq_some_iff.mp hstep
    obtain ⟨r, hr, hnext⟩ := Option.bind_eq_some_iff.mp hnext
    exact hinv.next hr hnext
  | enter h draw => exact hinv.enter hstep
  | visit principal draw => exact hinv.visit hstep
  | drop authSessionId =>
    obtain rfl := Option.some.inj hstep
    exact hinv.shrink List.filter_sublist.subset (List.Sublist.refl _)
  | dropLink tokenId =>
    obtain rfl := Option.some.inj hstep
    exact hinv.shrink (fun _ h => h) List.filter_sublist
  | fail h =>
    simp only [StepUp.step] at hstep
    split at hstep
    · obtain rfl := Option.some.inj hstep
      exact hinv.done h
    · cases hstep

end

/-! ## One change for each link -/

/-- An update whose current password was waived commits while its row still has the stamp. -/
def stampKept (s : Server W) : Label W → Bool
  | .commit h =>
    match s.routes h with
    | some (.clearing current (some _) _ _ _) =>
      s.authSessions.all fun row =>
        row.authSessionId ≠ current.authSessionId || row.magicLinkVerifiedAt.isSome
    | _ => true
  | _ => true

/-- The changes that a link has let through. -/
def Server.letThrough (s : Server W) (tokenId : Nat) : List WaivedChange :=
  s.waived.filter fun c =>
    s.redemptions.any fun r => r.tokenId = tokenId && r.authSessionId = c.authSessionId

structure Once (s : Server W) : Prop where
  cleared : ∀ c ∈ s.waived, ∀ row ∈ s.authSessions, row.authSessionId = c.authSessionId →
    row.magicLinkVerifiedAt = none
  once : (s.waived.map WaivedChange.authSessionId).Nodup

/-- A row is new, or has lost its stamp, or is as it was. -/
def Worn (s s' : Server W) : Prop :=
  ∀ row ∈ s'.authSessions,
    row.authSessionId ∉ s.uuids ∨ row.magicLinkVerifiedAt = none ∨ row ∈ s.authSessions

/-- Distinct keys that are all the same are at most one. -/
theorem length_le_one_of_nodup_map {α β : Type} {f : α → β} {as : List α} (hnodup : (as.map f).Nodup)
    (hsame : ∀ a ∈ as, ∀ b ∈ as, f a = f b) : as.length ≤ 1 := by
  cases as with
  | nil => exact Nat.zero_le 1
  | cons a as =>
    cases as with
    | nil => exact Nat.le_refl 1
    | cons b as =>
      have hne := (List.nodup_cons.mp hnodup).1
      exact absurd (hsame a (by simp) b (by simp) ▸ List.mem_cons_self) hne

section
variable {config : Config} {site : Site} {listed : UserId → Bool} {s s' : Server W} {h : W} {l : Label W}

omit [DecidableEq W]

theorem Worn.subset (hsub : s'.authSessions ⊆ s.authSessions) : Worn s s' :=
  fun _ hrow => .inr (.inr (hsub hrow))

theorem openSession_worn {draw : Draw} {user : UserId} {stamp : Option Int}
    (hopen : s.openSession config draw user stamp = some s') : s'.waived = s.waived ∧ Worn s s' := by
  obtain ⟨hnew, rfl⟩ := openSession_eq hopen
  refine ⟨rfl, fun row hrow => ?_⟩
  rcases List.mem_cons.mp hrow with rfl | hrow
  · exact .inl hnew
  · exact .inr (.inr hrow)

theorem mem_clearStamp {rows : List AuthSession} {current row : AuthSession}
    (hrow : row ∈ clearStamp rows current) :
    (row.magicLinkVerifiedAt = none ∨ row ∈ rows) ∧
      (current.magicLinkVerifiedAt.isSome = true → row.authSessionId = current.authSessionId →
        row.magicLinkVerifiedAt = none) := by
  unfold clearStamp at hrow
  split at hrow
  · obtain ⟨row', hrow', rfl⟩ := List.mem_map.mp hrow
    split
    · exact ⟨.inl rfl, fun _ _ => rfl⟩
    · rename_i hne
      exact ⟨.inr hrow', fun _ hid => absurd hid hne⟩
  · rename_i hstamp
    exact ⟨.inr hrow, fun hsome => absurd hsome hstamp⟩

/-- A session's stamp is never set again. -/
theorem Once.kept (hinv : Inv site s) (honce : Once s) (hwaived : s'.waived = s.waived)
    (hworn : Worn s s') : Once s' := by
  refine ⟨fun c hc row hrow hid => ?_, hwaived ▸ honce.once⟩
  rw [hwaived] at hc
  rcases hworn row hrow with hnew | hnone | hthere
  · obtain ⟨r, hr, hrid, -⟩ := hinv.covered c hc
    exact absurd (hid ▸ hrid ▸ hinv.drawn r hr) hnew
  · exact hnone
  · exact honce.cleared c hc row hthere hid

end

section
variable {config : Config} {site : Site} {listed : UserId → Bool} {s s' : Server W} {h : W} {l : Label W}

theorem arrive_worn {r : Route} (harrive : s.arrive h r = some s') :
    s'.waived = s.waived ∧ Worn s s' := by
  unfold Server.arrive at harrive
  split at harrive
  · obtain rfl := Option.some.inj harrive
    exact ⟨rfl, Worn.subset fun _ h => h⟩
  · cases harrive

/-- Only an update that commits changes a password. -/
theorem step_worn (hcommit : ∀ h, l ≠ .commit h) (hstep : step config listed s l = some s') :
    s'.waived = s.waived ∧ Worn s s' := by
  have hsame : Worn s s := Worn.subset fun _ h => h
  cases l with
  | commit h => exact absurd rfl (hcommit h)
  | tick elapsed =>
    obtain rfl := Option.some.inj hstep
    exact ⟨rfl, hsame⟩
  | update h cookie body =>
    simp only [step] at hstep
    split at hstep
    · exact arrive_worn hstep
    · split at hstep <;> exact arrive_worn hstep
  | hash h salt =>
    simp only [step] at hstep
    split at hstep
    · obtain rfl := Option.some.inj hstep
      exact ⟨rfl, hsame⟩
    · cases hstep
  | requestLink h user => exact arrive_worn hstep
  | sendLink h tokenId secret =>
    simp only [step] at hstep
    split at hstep
    · split at hstep
      · cases hstep
      · obtain rfl := Option.some.inj hstep
        exact ⟨rfl, hsame⟩
    · cases hstep
  | redeem h token cookie =>
    simp only [step] at hstep
    split at hstep
    · exact arrive_worn hstep
    · split at hstep
      · exact arrive_worn hstep
      · obtain ⟨hwaived, hworn⟩ := arrive_worn hstep
        exact ⟨hwaived, hworn⟩
  | login h account cookie => exact arrive_worn hstep
  | advance h =>
    obtain ⟨r', -, rfl⟩ := Option.map_eq_some_iff.mp hstep
    exact ⟨rfl, hsame⟩
  | enter h draw =>
    simp only [step] at hstep
    split at hstep
    · rename_i redeemed user oldRow hr
      obtain ⟨s₁, hopen, rfl⟩ := Option.map_eq_some_iff.mp hstep
      obtain ⟨hwaived, hworn⟩ := openSession_worn hopen
      refine ⟨hwaived, fun row hrow => ?_⟩
      rcases hworn row hrow with hnew | hnone | hthere
      · exact .inl hnew
      · exact .inr (.inl hnone)
      · exact .inr (.inr ((dropRow_sublist s oldRow).subset hthere))
    · cases hstep
  | visit principal draw => exact openSession_worn hstep
  | drop authSessionId =>
    obtain rfl := Option.some.inj hstep
    exact ⟨rfl, Worn.subset List.filter_sublist.subset⟩
  | dropLink tokenId =>
    obtain rfl := Option.some.inj hstep
    exact ⟨rfl, hsame⟩
  | fail h =>
    simp only [step] at hstep
    split at hstep
    · obtain rfl := Option.some.inj hstep
      exact ⟨rfl, hsame⟩
    · cases hstep

theorem Once.commit {current : AuthSession} {waivedAt : Option Int} {passwordHash : Str}
    {others links : List Nat} (hinv : Inv site s) (honce : Once s)
    (hr : s.routes h = some (.clearing current waivedAt passwordHash others links))
    (hkept : stampKept s (.commit h) = true) :
    Once (s.commit h current waivedAt passwordHash others links) := by
  unfold Server.commit
  split
  · exact honce.kept hinv rfl (Worn.subset fun _ h => h)
  · rename_i hthere
    have hworn : ∀ row ∈ (clearStamp s.authSessions current).filter fun row => row.authSessionId ∉ others,
        row ∈ clearStamp s.authSessions current := fun row hrow => (List.mem_filter.mp hrow).1
    have hkept' : Once { s with
        authSessions := (clearStamp s.authSessions current).filter fun row => row.authSessionId ∉ others } :=
      honce.kept hinv rfl fun row hrow => .inr (mem_clearStamp (hworn row hrow)).1
    cases waivedAt with
    | none => exact ⟨hkept'.cleared, honce.once⟩
    | some t =>
      obtain ⟨hstamp, -⟩ := hinv.held h _ hr t rfl
      -- the row is there with its stamp, so no change has gone through for this session
      have hfirst : ∀ c ∈ s.waived, c.authSessionId ≠ current.authSessionId := by
        intro c hc hid
        simp only [hstamp, true_and, not_not, List.any_eq_true, decide_eq_true_eq] at hthere
        obtain ⟨row, hrow, hrid⟩ := hthere
        simp only [stampKept, hr, List.all_eq_true] at hkept
        have hsome := hkept row hrow
        rw [honce.cleared c hc row hrow (hrid.trans hid.symm)] at hsome
        simp [hrid] at hsome
      refine ⟨fun c hc row hrow hid => ?_, ?_⟩
      · rcases List.mem_cons.mp hc with rfl | hc
        · exact (mem_clearStamp (hworn row hrow)).2 hstamp hid
        · exact hkept'.cleared c hc row hrow hid
      · refine List.nodup_cons.mpr ⟨fun hmem => ?_, honce.once⟩
        obtain ⟨c, hc, hid⟩ := List.mem_map.mp hmem
        exact hfirst c hc hid

theorem Once.step (hinv : Inv config.toSite s) (honce : Once s) (hkept : stampKept s l = true)
    (hstep : step config listed s l = some s') : Once s' := by
  by_cases hcommit : ∃ h, l = .commit h
  · obtain ⟨h, rfl⟩ := hcommit
    simp only [StepUp.step] at hstep
    split at hstep
    · rename_i hr
      obtain rfl := Option.some.inj hstep
      exact honce.commit hinv hr hkept
    · cases hstep
  · obtain ⟨hwaived, hworn⟩ := step_worn (fun h hl => hcommit ⟨h, hl⟩) hstep
    exact honce.kept hinv hwaived hworn

omit [DecidableEq W] in
theorem Inv.new (site : Site) (now : Int) (accounts : List Account) :
    Inv site (Server.new now accounts : Server W) where
  ledger := Ledger.nil
  drawn := fun _ h => by cases h
  sessions_nodup := List.nodup_nil
  stamped := fun _ h => by cases h
  held := fun _ _ h => by cases h
  covered := fun _ h => by cases h

omit [DecidableEq W] in
theorem Once.new (now : Int) (accounts : List Account) : Once (Server.new now accounts : Server W) where
  cleared := fun _ h => by cases h
  once := List.nodup_nil

omit [DecidableEq W] in
/-- The changes of one link are changes of one session. -/
theorem Inv.letThrough_length (hinv : Inv site s) (honce : Once s) (tokenId : Nat) :
    (s.letThrough tokenId).length ≤ 1 := by
  have hnodup : ((s.letThrough tokenId).map WaivedChange.authSessionId).Nodup :=
    honce.once.sublist (List.filter_sublist.map _)
  have hredeemed : ∀ c ∈ s.letThrough tokenId,
      ∃ r ∈ s.redemptions, r.tokenId = tokenId ∧ r.authSessionId = c.authSessionId := by
    intro c hc
    obtain ⟨r, hr, hids⟩ := List.any_eq_true.mp (List.mem_filter.mp hc).2
    exact ⟨r, hr, by simpa using hids⟩
  refine length_le_one_of_nodup_map hnodup fun c hc c' hc' => ?_
  obtain ⟨r, hr, hlink, hid⟩ := hredeemed c hc
  obtain ⟨r', hr', hlink', hid'⟩ := hredeemed c' hc'
  obtain rfl : r = r' := List.inj_on_of_nodup_map hinv.ledger.spent_nodup hr hr' (hlink.trans hlink'.symm)
  exact hid.symm.trans hid'

end

/-- In every run in which an update that was let through without the current
password always commits while its session still has the stamp, each change of that
kind is of a session that has redeemed a link, inside the window of that redemption,
and no link lets two of them through. -/
theorem waiver_one_shot {config : Config} {listed : UserId → Bool} {now : Int} {accounts : List Account}
    {ls : List (Label W)} {s : Server W}
    (hkept : Along (step config listed) (fun s l => stampKept s l = true) (Server.new now accounts) ls)
    (hrun : exec (step config listed) (Server.new now accounts) ls = some s) :
    (∀ c ∈ s.waived, ∃ r ∈ s.redemptions, r.authSessionId = c.authSessionId ∧ r.userId = c.userId ∧
      r.verifiedAt ≤ c.waivedAt ∧ c.waivedAt ≤ r.verifiedAt + seconds config.passwordStepUpWindowSeconds) ∧
    ∀ tokenId, (s.letThrough tokenId).length ≤ 1 := by
  have hinv : Inv config.toSite s ∧ Once s :=
    exec_invariant (I := fun s => Inv config.toSite s ∧ Once s)
      (fun _ _ _ hI hok hstep => ⟨hI.1.step hstep, hI.2.step hI.1 hok hstep⟩)
      ⟨Inv.new config.toSite now accounts, Once.new now accounts⟩ hkept hrun
  exact ⟨hinv.1.covered, hinv.1.letThrough_length hinv.2⟩

/-- Three passwords have been hashed. -/
def exampleHash (password : Str) : Str :=
  if password = "first password".toList then
    "$argon2id$v=19$m=19456,t=2,p=1$MDAwMDAwMDAwMDAwMDAwMA$myLnC0LtPORgsZzJL6tYS5MqtXuZ0qd/L4gKmxIlKp8".toList
  else if password = "second password".toList then
    "$argon2id$v=19$m=19456,t=2,p=1$MTExMTExMTExMTExMTExMQ$s6G8OcThTlK29cENj4cobv3LjpCN/C6xq4GA5wkna8A".toList
  else
    "$argon2id$v=19$m=19456,t=2,p=1$MjIyMjIyMjIyMjIyMjIyMg$H7JPLtIHFE0I5vxmwkq236O9FO9rwk85CoL5UyX8qJA".toList

def exampleConfig : Config where
  toSite := exampleSite
  hashToken := exampleSite.hashSecret
  hashPassword _ password := exampleHash password
  verifyPassword password passwordHash := passwordHash = exampleHash password
  magicLinkTtlSeconds := 600

def exampleAccount : Account := ⟨.usr 4, some (exampleHash "first password".toList)⟩

/-- The link with the id 1 and a secret of zeros. -/
def exampleToken : Str := List.replicate 31 '0' ++ "1.".toList ++ List.replicate 64 '0'

/-- The cookie of the session with the id 2 and a secret of ones. -/
def exampleCookie : Str := List.replicate 31 '0' ++ "2.".toList ++ List.replicate 64 '1'

/-- A link is sent and redeemed. -/
def redeemingHistory : List (Label Nat) :=
  [.requestLink 0 (.usr 4), .sendLink 0 1 (List.replicate 64 '0'), .redeem 1 exampleToken none,
    .advance 1, .advance 1, .advance 1, .enter 1 ⟨2, List.replicate 64 '1'⟩]

/-- A new password without the current one. -/
def updating (h : Nat) (newPassword : Str) : List (Label Nat) :=
  [.update h (some exampleCookie) ⟨none, newPassword⟩, .advance h, .advance h]

def changing (h : Nat) (salt : Char) : List (Label Nat) :=
  [.hash h (List.replicate 16 salt), .advance h, .commit h]

/-- One change goes through, and the next is refused. -/
def inTurn : List (Label Nat) :=
  redeemingHistory ++ updating 2 "second password".toList ++ changing 2 '1' ++
    updating 3 "third password".toList

/-- Both are let through before either has its hash. -/
def atOnce : List (Label Nat) :=
  redeemingHistory ++ updating 2 "second password".toList ++ updating 3 "third password".toList ++
    changing 2 '1' ++ changing 3 '2'

theorem waiver_one_shot_in_turn :
    ∃ s, exec (step exampleConfig fun _ => false) (Server.new 0 [exampleAccount]) inTurn = some s ∧
      s.waived = [⟨2, .usr 4, 0⟩] ∧
      (∀ c ∈ s.waived, ∃ r ∈ s.redemptions, r.authSessionId = c.authSessionId ∧ r.userId = c.userId ∧
        r.verifiedAt ≤ c.waivedAt ∧
        c.waivedAt ≤ r.verifiedAt + seconds exampleConfig.passwordStepUpWindowSeconds) ∧
      ∀ tokenId, (s.letThrough tokenId).length ≤ 1 := by
  have hrun : ∃ s ∈ exec (step exampleConfig fun _ => false) (Server.new 0 [exampleAccount]) inTurn,
      s.waived = [⟨2, .usr 4, 0⟩] := by
    decide +kernel
  have hkept : Along (step exampleConfig fun _ => false) (fun s l => stampKept s l = true)
      (Server.new 0 [exampleAccount]) inTurn := by
    decide +kernel
  obtain ⟨s, hs, hwaived⟩ := hrun
  exact ⟨s, hs, hwaived, waiver_one_shot hkept hs⟩

/-- Two requests read the stamp before either clears it, and both change the password. -/
theorem waiver_two_shots :
    ∃ s, exec (step exampleConfig fun _ => false) (Server.new 0 [exampleAccount]) atOnce = some s ∧
      s.letThrough 1 = [⟨2, .usr 4, 0⟩, ⟨2, .usr 4, 0⟩] ∧
      s.accounts = [⟨.usr 4, some (exampleHash "third password".toList)⟩] := by
  decide +kernel

end CiteVyn.Auth.StepUp
