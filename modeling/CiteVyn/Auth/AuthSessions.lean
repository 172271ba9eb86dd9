import CiteVyn.Auth.Identities

/-! # Auth sessions

The rows behind the session cookies and the lookups of `app/core/auth_sessions.py`. -/
namespace CiteVyn.Auth
open CiteVyn.Text

/-- `AuthSession`. -/
structure AuthSession where
  authSessionId : Nat
  secretHash : Str
  userId : UserId
  createdAt : Int
  expiresAt : Int
  magicLinkVerifiedAt : Option Int
  deriving DecidableEq, Repr

/-- A `timedelta`; times are in microseconds. -/
def seconds (n : Int) : Int := 1000000 * n

/-- What the routes take from elsewhere: the reading of an id, the digest of a
secret and the settings. -/
structure Site where
  /-- `uuid.UUID(hex=...)`, none for a `ValueError` -/
  uuid : Str → Option Nat
  /-- `_hash_secret` -/
  hashSecret : Str → Str
  /-- `_provider_credentials` finds both -/
  hasCredentials : Provider → Bool
  authSessionTtlSeconds : Int
  oauthConnectMaxSessionAgeSeconds : Int
  passwordStepUpWindowSeconds : Int

variable (site : Site) (listed : UserId → Bool) (now : Int) (rows : List AuthSession)

/-- The id that a cookie value names. -/
def Site.cookieId (cookieValue : Str) : Option Nat := site.uuid (cookieValue.takeWhile (· ≠ '.'))

/-- What comes after the first dot. -/
def cookieSecret (cookieValue : Str) : Str := (cookieValue.dropWhile (· ≠ '.')).drop 1

/-- `_lookup_auth_session`. -/
def lookupAuthSession (cookieValue : Str) : Option AuthSession :=
  if (cookieSecret cookieValue).isEmpty then none
  else
    match site.cookieId cookieValue with
    | none => none
    | some authSessionId =>
      match rows.find? fun row => row.authSessionId = authSessionId with
      | none => none
      | some row =>
        if site.hashSecret (cookieSecret cookieValue) ≠ row.secretHash then none
        else if row.expiresAt ≤ now then none
        else if listed row.userId then none
        else some row

/-- `try_resolve_auth_session`. -/
def tryResolveAuthSession : Option Str → Option AuthSession
  | none => none
  | some cookieValue =>
    if cookieValue.isEmpty then none else lookupAuthSession site listed now rows cookieValue

/-- `resolve_principal_by_auth_session_id`. -/
def resolvePrincipalByAuthSessionId (authSessionId : Nat) : Option UserId :=
  match rows.find? fun row => row.authSessionId = authSessionId with
  | none => none
  | some row => if row.expiresAt ≤ now then none else if listed row.userId then none else some row.userId

/-- The id and the secret of a new session. -/
structure Draw where
  authSessionId : Nat
  secret : Str
  deriving DecidableEq, Repr

/-- The row of `_create_auth_session`. -/
def createAuthSession (draw : Draw) (userId : UserId) (magicLinkVerifiedAt : Option Int) : AuthSession where
  authSessionId := draw.authSessionId
  secretHash := site.hashSecret draw.secret
  userId := userId
  createdAt := now
  expiresAt := now + seconds site.authSessionTtlSeconds
  magicLinkVerifiedAt := magicLinkVerifiedAt

/-- The rows without one of them. -/
def deleteAuthSession (authSessionId : Nat) : List AuthSession :=
  rows.filter fun row => row.authSessionId ≠ authSessionId

variable {site listed now rows}

theorem lookup_eq_some_iff {cookieValue : Str} {row : AuthSession} :
    lookupAuthSession site listed now rows cookieValue = some row ↔
      ∃ id, site.cookieId cookieValue = some id ∧
        (rows.find? fun row => row.authSessionId = id) = some row ∧
        (cookieSecret cookieValue).isEmpty = false ∧
        site.hashSecret (cookieSecret cookieValue) = row.secretHash ∧
        now < row.expiresAt ∧ listed row.userId = false := by
  unfold lookupAuthSession
  cases hsecret : (cookieSecret cookieValue).isEmpty with
  | true => simp
  | false =>
    cases hid : site.cookieId cookieValue with
    | none => simp
    | some id =>
      cases hfind : rows.find? fun row => row.authSessionId = id with
      | none => simp [hfind]
      | some row' =>
        constructor
        · intro h
          simp only [Bool.false_eq_true, if_false, hfind] at h
          split at h
          · cases h
          · rename_i hhash
            split at h
            · cases h
            · rename_i hlive
              split at h
              · cases h
              · rename_i hlisted
                obtain rfl := Option.some.inj h
                exact ⟨id, rfl, hfind, rfl, not_not.mp hhash, Int.not_le.mp hlive,
                  Bool.eq_false_iff.mpr hlisted⟩
        · rintro ⟨id', heq, hrow, -, hhash, hlive, hlisted⟩
          obtain rfl := Option.some.inj heq
          obtain rfl := Option.some.inj (hfind.symm.trans hrow)
          simp [hfind, hhash, Int.not_le.mpr hlive, hlisted]

/-- A cookie that resolves names the row. -/
theorem cookieId_of_lookup {cookieValue : Str} {row : AuthSession}
    (h : lookupAuthSession site listed now rows cookieValue = some row) :
    site.cookieId cookieValue = some row.authSessionId := by
  obtain ⟨id, hid, hfind, -⟩ := lookup_eq_some_iff.mp h
  rw [hid, show row.authSessionId = id by simpa using List.find?_some hfind]

/-- A cookie that does not resolve still does not at a later time, when its id
finds no other row. -/
theorem lookup_none_mono {cookieValue : Str} {now' : Int} {rows' : List AuthSession}
    (h : lookupAuthSession site listed now rows cookieValue = none) (hnow : now ≤ now')
    (hrows : ∀ id, site.cookieId cookieValue = some id → ∀ row,
      (rows'.find? fun row => row.authSessionId = id) = some row →
      (rows.find? fun row => row.authSessionId = id) = some row) :
    lookupAuthSession site listed now' rows' cookieValue = none := by
  refine Option.eq_none_iff_forall_ne_some.mpr fun row hrow => ?_
  obtain ⟨id, hid, hfind, hsecret, hhash, hlive, hlisted⟩ := lookup_eq_some_iff.mp hrow
  have hlookup := lookup_eq_some_iff.mpr
    ⟨id, hid, hrows id hid row hfind, hsecret, hhash, Int.lt_of_le_of_lt hnow hlive, hlisted⟩
  rw [h] at hlookup
  cases hlookup

theorem tryResolve_spec {cookie : Option Str} {row : AuthSession}
    (h : tryResolveAuthSession site listed now rows cookie = some row) :
    ∃ cookieValue, cookie = some cookieValue ∧
      lookupAuthSession site listed now rows cookieValue = some row := by
  unfold tryResolveAuthSession at h
  split at h
  · cases h
  · rename_i cookieValue
    split at h
    · cases h
    · exact ⟨cookieValue, rfl, h⟩

theorem resolvePrincipal_spec {authSessionId : Nat} {user : UserId}
    (h : resolvePrincipalByAuthSessionId listed now rows authSessionId = some user) :
    ∃ row ∈ rows, row.authSessionId = authSessionId ∧ row.userId = user ∧ now < row.expiresAt := by
  unfold resolvePrincipalByAuthSessionId at h
  split at h
  · cases h
  · rename_i row hrow
    split at h
    · cases h
    · rename_i hlive
      split at h
      · cases h
      · exact ⟨row, List.mem_of_find?_eq_some hrow, by simpa using List.find?_some hrow,
          Option.some.inj h, Int.not_le.mp hlive⟩

/-- An id finds what it has found, or nothing, once a row is deleted. -/
theorem find_deleteAuthSession (authSessionId id : Nat) :
    ((deleteAuthSession rows authSessionId).find? fun row => row.authSessionId = id) =
      if id = authSessionId then none else rows.find? fun row => row.authSessionId = id := by
  rw [deleteAuthSession, List.find?_filter]
  split
  · rename_i heq
    subst heq
    simp
  · rename_i hne
    congr 1
    funext row
    by_cases hid : row.authSessionId = id
    · simp [hid, hne]
    · simp [hid]

/-- Ids are written with decimal digits here, and two secrets have been drawn. -/
def exampleSite : Site where
  uuid s := if s.length = 32 ∧ s.all isAsciiDigit then some (digitsValue s) else none
  hashSecret secret :=
    if secret = List.replicate 64 '0' then
      "60e05bd1b195af2f94112fa7197a5c88289058840ce7c6df9693756bc6250f55".toList
    else "3138bb9bc78df27c473ecfd1410f7bd45ebac1f59cf3ff9cfe4db77aab7aedd3".toList
  hasCredentials _ := true
  authSessionTtlSeconds := 15552000
  oauthConnectMaxSessionAgeSeconds := 3600
  passwordStepUpWindowSeconds := 900

end CiteVyn.Auth
