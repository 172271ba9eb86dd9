import CiteVyn.Lib.OrderBy
import CiteVyn.Lib.OwnerLocks
import CiteVyn.Lib.Runs
import CiteVyn.Text.Python

/-! # API keys

The routes of `app/api/routes/api_keys.py`, and `authenticate_api_key` of
`app/access/api_keys.py` as `require_api_key` calls it. Each statement of a
transaction sees what has been committed by then; the row of the account is locked
from the statement that selects it to the end of the transaction. An id that is
drawn is new. -/
namespace CiteVyn.Access.ApiKeys
open CiteVyn.Lib.Locks CiteVyn.Lib.OrderBy CiteVyn.Lib.OwnerLocks CiteVyn.Lib.Runs CiteVyn.Lib.Threads CiteVyn.Text

/-! ## Keys -/

/-- `ApiKey`. -/
structure ApiKey where
  keyId : Str
  userId : Str
  name : Str
  secretHash : Str
  scope : String
  createdAt : Int
  lastUsedAt : Option Int
  revokedAt : Option Int
  deriving DecidableEq, Repr

/-- What the routes take from elsewhere. -/
structure Config where
  accessModelEnabled : Bool
  /-- `hash_token` -/
  hashToken : Str → Str
  /-- `unicodedata.category` -/
  category : Char → String

/-- `PREFIX`. -/
def keyPrefix : Str := "cvk_".toList

/-- `DISPLAY_CHARS`. -/
def displayChars : Nat := keyPrefix.length + 8

/-- `MAX_LIVE_KEYS`. -/
def maxLiveKeys : Nat := 10

/-- `NewKey.raw`. -/
def rawKey (keyId secret : Str) : Str := keyPrefix ++ keyId ++ '_' :: secret

/-- `[0-9a-f]`. -/
def isHex (c : Char) : Bool := "0123456789abcdef".toList.contains c

/-- The groups of `_SHAPE.fullmatch(raw.strip())`. -/
def parseKey (raw : Str) : Option (Str × Str) :=
  let s := strip raw
  let keyId := (s.drop 4).take 32
  let secret := s.drop 37
  if s.take 4 = keyPrefix ∧ keyId.length = 32 ∧ keyId.all isHex ∧ s[36]? = some '_' ∧
      secret.length = 64 ∧ secret.all isHex then some (keyId, secret)
  else none

/-- The key of an `Authorization` header, if its scheme is `Bearer`. -/
def bearerOf (authorization : Str) : Option Str :=
  let scheme := authorization.takeWhile (· ≠ ' ')
  let raw := (authorization.dropWhile (· ≠ ' ')).drop 1
  if lower scheme = "bearer".toList ∧ raw ≠ [] then some raw else none

/-- The id and the secret that a request presents. -/
def presented (authorization : Str) : Option (Str × Str) := (bearerOf authorization).bind parseKey

/-- `_JOINERS`. -/
def joiners : List Char := ['\u200c', '\u200d']

/-- `NewKeyRequest.name`. -/
def Config.keyName (config : Config) (value : Str) : Option Str :=
  if 200 < value.length then none
  else
    let value := strip value
    if value.length = 0 ∨ 64 < value.length then none
    else if value.any fun c => ["Cc", "Cf", "Zl", "Zp"].contains (config.category c) && !joiners.contains c then none
    else some value

/-- `_view`. -/
structure KeyView where
  keyId : Str
  name : Str
  shown : Str
  scope : String
  createdAt : Int
  lastUsedAt : Option Int
  deriving DecidableEq, Repr

def ApiKey.view (row : ApiKey) : KeyView where
  keyId := row.keyId
  name := row.name
  shown := (keyPrefix ++ row.keyId).take displayChars
  scope := row.scope
  createdAt := row.createdAt
  lastUsedAt := row.lastUsedAt

/-- The row of `make_key`. -/
def makeKey (config : Config) (userId name : Str) (now : Int) (keyId secret : Str) : ApiKey where
  keyId := keyId
  userId := userId
  name := name
  secretHash := config.hashToken secret
  scope := "mcp"
  createdAt := now
  lastUsedAt := none
  revokedAt := none

def ApiKey.live (row : ApiKey) : Bool := row.revokedAt.isNone

/-- The live keys of an account are counted. -/
def liveKeys (rows : List ApiKey) (userId : Str) : Nat := rows.countP fun row => row.userId = userId ∧ row.live

/-! ## Requests -/

/-- Where a request is, by the statement that comes next. -/
inductive Place where
  /-- the row lock -/
  | locking (userId name : Str)
  /-- it has locked the row, or there is none -/
  | counting (userId name : Str) (locked : Bool)
  | inserting (userId name : Str) (locked : Bool)
  /-- the update and the commit of `revoke_key` -/
  | revoking (keyId : Str) (revokedAt : Int)
  /-- the secret is right; the deletion list is next -/
  | checking (row : ApiKey)
  /-- the commit of `last_used_at` -/
  | recording (row : ApiKey) (usedAt : Int)
  deriving DecidableEq, Repr

/-- What a request answers. -/
inductive Reply where
  /-- 201, with the key itself -/
  | created (view : KeyView) (raw : Str)
  | keys (views : List KeyView)
  /-- 204 -/
  | revoked
  | authenticated (keyId userId : Str)
  | notFound
  | validationError
  | tooManyApiKeys
  | authRequired
  /-- 503: the deletion list cannot be read -/
  | unavailable
  /-- a row that is gone, or an account -/
  | raised
  deriving DecidableEq, Repr

structure Server (W : Type) where
  now : Int
  /-- the accounts there are -/
  users : List Str
  rows : List ApiKey
  /-- the locks on the rows of accounts -/
  locks : List (Str × W)
  places : W → Option Place
  /-- the ids that have been drawn -/
  drawn : List Str
  replies : List (W × Reply)

inductive Label (W : Type) where
  | tick (elapsed : Nat)
  /-- a request for a new key arrives -/
  | create (w : W) (userId name : Str)
  /-- a statement of `create_key` that needs nothing from outside -/
  | advance (w : W)
  /-- the insert and the commit, with what `make_key` draws; the reply can be lost -/
  | insert (w : W) (keyId secret : Str) (replied : Bool)
  /-- `list_keys` -/
  | list (w : W) (userId : Str)
  /-- `revoke_key` loads the row -/
  | revoke (w : W) (userId keyId : Str)
  /-- `authenticate_api_key` loads the row -/
  | authenticate (w : W) (authorization : Str)
  /-- `is_listed`: its answer, if the list can be read -/
  | listed (w : W) (answer : Option Bool)
  /-- a revocation or the time of a use is written -/
  | commit (w : W)
  /-- the database fails, or the request is cancelled -/
  | fail (w : W)
  /-- an account is deleted with its keys -/
  | deleteAccount (userId : Str)

variable {W : Type} [DecidableEq W]

def Server.goto (s : Server W) (w : W) (p : Place) : Server W := { s with places := put s.places w (some p) }

/-- The transaction of a request ends, and with it the request. -/
def Server.close (s : Server W) (w : W) (reply : Option Reply) : Server W :=
  { s with
    locks := release s.locks w
    places := put s.places w none
    replies := (reply.map fun reply => (w, reply)).toList ++ s.replies }

/-- The next statement of `create_key`. -/
def Server.advance (s : Server W) (w : W) : Place → Option (Server W)
  | .locking userId name =>
    if userId ∈ s.users then
      if free s.locks userId w then
        some { s.goto w (.counting userId name true) with locks := acquire s.locks userId w }
      else none
    else some (s.goto w (.counting userId name false))
  | .counting userId name locked =>
    if maxLiveKeys ≤ liveKeys s.rows userId then some (s.close w (some .tooManyApiKeys))
    else some (s.goto w (.inserting userId name locked))
  | _ => none

/-- The rows after a revocation. -/
def revokedRows (rows : List ApiKey) (keyId : Str) (now : Int) : List ApiKey :=
  rows.map fun row => if row.keyId = keyId then { row with revokedAt := some now } else row

/-- The rows after a use. -/
def usedRows (rows : List ApiKey) (keyId : Str) (now : Int) : List ApiKey :=
  rows.map fun row => if row.keyId = keyId then { row with lastUsedAt := some now } else row

/-- `list_keys`. -/
def listKeys (rows : List ApiKey) (userId : Str) : List KeyView :=
  (orderBy ApiKey.createdAt (rows.filter fun row => row.userId = userId ∧ row.live)).map ApiKey.view

def step (config : Config) (s : Server W) : Label W → Option (Server W)
  | .tick elapsed => some { s with now := s.now + elapsed }
  | .create w userId name =>
    match s.places w with
    | some _ => none
    | none =>
      if config.accessModelEnabled then
        match config.keyName name with
        | none => some (s.close w (some .validationError))
        | some name => some (s.goto w (.locking userId name))
      else some (s.close w (some .notFound))
  | .advance w => (s.places w).bind (s.advance w)
  | .insert w keyId secret replied =>
    match s.places w with
    | some (.inserting userId name _) =>
      if keyId ∈ s.drawn then none
      else if userId ∈ s.users then
        let row := makeKey config userId name s.now keyId secret
        some { s.close w (if replied then some (.created row.view (rawKey keyId secret)) else none) with
          rows := row :: s.rows
          drawn := keyId :: s.drawn }
      else some { s.close w (some .raised) with drawn := keyId :: s.drawn }
    | _ => none
  | .list w userId =>
    match s.places w with
    | some _ => none
    | none =>
      if config.accessModelEnabled then some (s.close w (some (.keys (listKeys s.rows userId))))
      else some (s.close w (some .notFound))
  | .revoke w userId keyId =>
    match s.places w with
    | some _ => none
    | none =>
      if config.accessModelEnabled && s.rows.any fun row =>
          row.keyId = keyId ∧ row.userId = userId ∧ row.revokedAt = none then
        some (s.goto w (.revoking keyId s.now))
      else some (s.close w (some .notFound))
  | .authenticate w authorization =>
    match s.places w with
    | some _ => none
    | none =>
      if config.accessModelEnabled then
        match presented authorization with
        | none => some (s.close w (some .authRequired))
        | some (keyId, secret) =>
          match s.rows.find? fun row => row.keyId = keyId with
          | none => some (s.close w (some .authRequired))
          | some row =>
            if row.revokedAt = none ∧ config.hashToken secret = row.secretHash then some (s.goto w (.checking row))
            else some (s.close w (some .authRequired))
      else some (s.close w (some .notFound))
  | .listed w answer =>
    match s.places w with
    | some (.checking row) =>
      match (if "usr_".toList.isPrefixOf row.userId then answer else some false) with
      | none => some (s.close w (some .unavailable))
      | some true => some (s.close w (some .authRequired))
      | some false => some (s.goto w (.recording row s.now))
    | _ => none
  | .commit w =>
    match s.places w with
    | some (.revoking keyId revokedAt) =>
      if s.rows.any fun row => row.keyId = keyId then
        some { s.close w (some .revoked) with rows := revokedRows s.rows keyId revokedAt }
      else some (s.close w (some .raised))
    | some (.recording row usedAt) =>
      if s.rows.any fun r => r.keyId = row.keyId then
        some { s.close w (some (.authenticated row.keyId row.userId)) with
          rows := usedRows s.rows row.keyId usedAt }
      else some (s.close w (some .raised))
    | _ => none
  | .fail w =>
    match s.places w with
    | some _ => some (s.close w none)
    | none => none
  | .deleteAccount userId =>
    -- the deletion takes the row's lock itself
    if s.locks.all fun lock => lock.1 ≠ userId then
      some { s with
        users := s.users.filter (· ≠ userId)
        rows := s.rows.filter fun row => row.userId ≠ userId }
    else none

/-- No key yet. -/
def Server.new (now : Int) (users : List Str) : Server W := ⟨now, users, [], [], idle, [], []⟩

/-- A revocation is committed. -/
def Revokes (keyId : Str) (s : Server W) : Label W → Prop
  | .commit w => ∃ revokedAt, s.places w = some (.revoking keyId revokedAt)
  | _ => False

/-- What a step can do. -/
inductive Turn (config : Config) (s : Server W) : Label W → Server W → Prop where
  | tick (elapsed : Nat) : Turn config s (.tick elapsed) { s with now := s.now + elapsed }
  | asks {w name} (userId name' : Str) : Turn config s (.create w userId name') (s.goto w (.locking userId name))
  | locks {w userId name} (hfree : free s.locks userId w) :
    Turn config s (.advance w) { s.goto w (.counting userId name true) with locks := acquire s.locks userId w }
  | orphaned {w userId name} (hgone : userId ∉ s.users) :
    Turn config s (.advance w) (s.goto w (.counting userId name false))
  | counts {w userId name locked} (hw : s.places w = some (.counting userId name locked))
    (hroom : liveKeys s.rows userId < maxLiveKeys) :
    Turn config s (.advance w) (s.goto w (.inserting userId name locked))
  | inserts {w userId name locked keyId secret replied} (hw : s.places w = some (.inserting userId name locked))
    (hnew : keyId ∉ s.drawn) (huser : userId ∈ s.users) (reply : Option Reply)
    (hreply : ∀ keyId userId, reply ≠ some (.authenticated keyId userId)) :
    Turn config s (.insert w keyId secret replied)
      { s.close w reply with
        rows := makeKey config userId name s.now keyId secret :: s.rows
        drawn := keyId :: s.drawn }
  | draws (w : W) (keyId secret : Str) (replied : Bool) :
    Turn config s (.insert w keyId secret replied) { s.close w (some .raised) with drawn := keyId :: s.drawn }
  | finds {w userId row} (hrow : row ∈ s.rows) :
    Turn config s (.revoke w userId row.keyId) (s.goto w (.revoking row.keyId s.now))
  | presents {w authorization row secret} (hrow : row ∈ s.rows)
    (hpresented : presented authorization = some (row.keyId, secret)) (hlive : row.revokedAt = none)
    (hhash : config.hashToken secret = row.secretHash) :
    Turn config s (.authenticate w authorization) (s.goto w (.checking row))
  | clears {w row answer} (hw : s.places w = some (.checking row))
    (hanswer : "usr_".toList <+: row.userId → answer = some false) :
    Turn config s (.listed w answer) (s.goto w (.recording row s.now))
  | revokes {w keyId revokedAt} (hw : s.places w = some (.revoking keyId revokedAt)) :
    Turn config s (.commit w) { s.close w (some .revoked) with rows := revokedRows s.rows keyId revokedAt }
  | misses {w keyId revokedAt} (hw : s.places w = some (.revoking keyId revokedAt))
    (hgone : ∀ row ∈ s.rows, row.keyId ≠ keyId) : Turn config s (.commit w) (s.close w (some .raised))
  | uses {w row usedAt} (hw : s.places w = some (.recording row usedAt)) :
    Turn config s (.commit w)
      { s.close w (some (.authenticated row.keyId row.userId)) with rows := usedRows s.rows row.keyId usedAt }
  | closes {l} (w : W) (reply : Option Reply) (hquiet : ∀ keyId, ¬Revokes keyId s l)
    (hreply : ∀ keyId userId, reply ≠ some (.authenticated keyId userId)) : Turn config s l (s.close w reply)
  | deletes (userId : Str) :
    Turn config s (.deleteAccount userId)
      { s with
        users := s.users.filter (· ≠ userId)
        rows := s.rows.filter fun row => row.userId ≠ userId }

variable {config : Config} {s s' : Server W} {w : W} {l : Label W}

/-- A request that arrives can be answered at once. -/
theorem Turn.refuses (w : W) {reply : Reply} (hquiet : ∀ keyId, ¬Revokes keyId s l)
    (hreply : ∀ keyId userId, reply ≠ .authenticated keyId userId) : Turn config s l (s.close w (some reply)) :=
  .closes w _ hquiet fun keyId userId heq => hreply keyId userId (Option.some.inj heq)

theorem advance_turn {p : Place} (hw : s.places w = some p) (h : s.advance w p = some s') :
    Turn config s (.advance w) s' := by
  cases p with
  | locking userId name =>
    simp only [Server.advance] at h
    split at h
    · split at h
      · rename_i hfree
        cases h
        exact .locks hfree
      · cases h
    · rename_i hgone
      cases h
      exact .orphaned hgone
  | counting userId name locked =>
    simp only [Server.advance] at h
    split at h
    · cases h
      exact .refuses w (fun _ => id) fun _ _ heq => by cases heq
    · rename_i hroom
      cases h
      exact .counts hw (not_le.mp hroom)
  | inserting userId name locked => cases h
  | revoking keyId revokedAt => cases h
  | checking row => cases h
  | recording row usedAt => cases h

theorem authenticate_turn {authorization : Str} (h : step config s (.authenticate w authorization) = some s') :
    Turn config s (.authenticate w authorization) s' := by
  simp only [ApiKeys.step] at h
  split at h
  · cases h
  · split at h
    · split at h
      · cases h
        exact .refuses w (fun _ => id) fun _ _ heq => by cases heq
      · rename_i keyId secret hpresented
        split at h
        · cases h
          exact .refuses w (fun _ => id) fun _ _ heq => by cases heq
        · rename_i row hfind
          split at h
          · rename_i hrow
            cases h
            obtain rfl : row.keyId = keyId :=
              of_decide_eq_true (List.find?_some (p := fun row : ApiKey => row.keyId = keyId) hfind)
            exact .presents (List.mem_of_find?_eq_some hfind) hpresented hrow.1 hrow.2
          · cases h
            exact .refuses w (fun _ => id) fun _ _ heq => by cases heq
    · cases h
      exact .refuses w (fun _ => id) fun _ _ heq => by cases heq

theorem commit_turn (h : step config s (.commit w) = some s') : Turn config s (.commit w) s' := by
  simp only [ApiKeys.step] at h
  split at h
  · rename_i keyId revokedAt hw
    split at h
    · cases h
      exact .revokes hw
    · rename_i hgone
      cases h
      exact .misses hw fun row hrow heq => hgone (List.any_eq_true.mpr ⟨row, hrow, decide_eq_true heq⟩)
  · rename_i row usedAt hw
    split at h
    · cases h
      exact .uses hw
    · cases h
      exact .refuses w (fun _ ⟨_, hw'⟩ => by cases hw.symm.trans hw') fun _ _ heq => by cases heq
  · cases h

theorem step_turn (h : step config s l = some s') : Turn config s l s' := by
  cases l with
  | tick elapsed =>
    cases h
    exact .tick elapsed
  | create w userId name =>
    simp only [ApiKeys.step] at h
    split at h
    · cases h
    · split at h
      · split at h
        · cases h
          exact .refuses w (fun _ => id) fun _ _ heq => by cases heq
        · cases h
          exact .asks userId name
      · cases h
        exact .refuses w (fun _ => id) fun _ _ heq => by cases heq
  | advance w =>
    obtain ⟨p, hw, hadvance⟩ := Option.bind_eq_some_iff.mp h
    exact advance_turn hw hadvance
  | insert w keyId secret replied =>
    simp only [ApiKeys.step] at h
    split at h
    · rename_i userId name locked hw
      split at h
      · cases h
      · rename_i hnew
        split at h
        · rename_i huser
          cases h
          refine .inserts hw hnew huser _ fun _ _ => ?_
          split <;> exact fun heq => by cases heq
        · cases h
          exact .draws w keyId secret replied
    · cases h
  | list w userId =>
    simp only [ApiKeys.step] at h
    split at h
    · cases h
    · split at h <;>
      · cases h
        exact .refuses w (fun _ => id) fun _ _ heq => by cases heq
  | revoke w userId keyId =>
    simp only [ApiKeys.step] at h
    split at h
    · cases h
    · split at h
      · rename_i hfound
        cases h
        simp only [Bool.and_eq_true, List.any_eq_true, decide_eq_true_eq] at hfound
        obtain ⟨-, row, hrow, rfl, -⟩ := hfound
        exact .finds hrow
      · cases h
        exact .refuses w (fun _ => id) fun _ _ heq => by cases heq
  | authenticate w authorization => exact authenticate_turn h
  | listed w answer =>
    simp only [ApiKeys.step] at h
    split at h
    · rename_i row hw
      split at h
      · cases h
        exact .refuses w (fun _ => id) fun _ _ heq => by cases heq
      · cases h
        exact .refuses w (fun _ => id) fun _ _ heq => by cases heq
      · rename_i hanswer
        cases h
        refine .clears hw fun hprefix => ?_
        rwa [if_pos (List.isPrefixOf_iff_prefix.mpr hprefix)] at hanswer
    · cases h
  | commit w => exact commit_turn h
  | fail w =>
    simp only [ApiKeys.step] at h
    split at h
    · cases h
      exact .closes w none (fun _ => id) fun _ _ heq => by cases heq
    · cases h
  | deleteAccount userId =>
    simp only [ApiKeys.step] at h
    split at h
    · cases h
      exact .deletes userId
    · cases h

/-! ## Room for a key -/

/-- The account whose row a request has locked. -/
def Place.lock : Place → Option Str
  | .counting userId _ true | .inserting userId _ true => some userId
  | _ => none

/-- A request that inserts has found fewer keys than there may be. -/
def Place.Knows : Place → List ApiKey → Prop
  | .inserting _ _ _, rows => rows.countP ApiKey.live < maxLiveKeys
  | _, _ => True

def rules : Rules Str Place ApiKey where
  owner := ApiKey.userId
  lock := Place.lock
  knows := Place.Knows
  whole rows := rows.countP ApiKey.live ≤ maxLiveKeys

/-- A request without the lock found no account. -/
def Place.Orphan (users : List Str) : Place → Prop
  | .counting userId _ false | .inserting userId _ false => userId ∉ users
  | _ => True

structure Inv (s : Server W) : Prop where
  guarded : Guarded rules s.rows s.locks s.places
  orphan : ∀ w p, s.places w = some p → p.Orphan s.users
  distinct : (s.rows.map ApiKey.keyId).Nodup
  drawn : ∀ row ∈ s.rows, row.keyId ∈ s.drawn

theorem liveKeys_eq (rows : List ApiKey) (userId : Str) :
    liveKeys rows userId = (rowsOf ApiKey.userId rows userId).countP ApiKey.live := by
  rw [liveKeys, rowsOf, List.countP_filter]
  simp only [Bool.decide_and, Bool.decide_eq_true, Bool.and_comm]

theorem rowsOf_revokedRows (rows : List ApiKey) (keyId : Str) (now : Int) (userId : Str) :
    rowsOf ApiKey.userId (revokedRows rows keyId now) userId =
      revokedRows (rowsOf ApiKey.userId rows userId) keyId now :=
  rowsOf_map (fun row => by split <;> rfl) rows userId

theorem rowsOf_usedRows (rows : List ApiKey) (keyId : Str) (now : Int) (userId : Str) :
    rowsOf ApiKey.userId (usedRows rows keyId now) userId = usedRows (rowsOf ApiKey.userId rows userId) keyId now :=
  rowsOf_map (fun row => by split <;> rfl) rows userId

theorem countP_revokedRows (rows : List ApiKey) (keyId : Str) (now : Int) :
    (revokedRows rows keyId now).countP ApiKey.live ≤ rows.countP ApiKey.live := by
  rw [revokedRows, List.countP_map]
  refine List.countP_mono_left fun row _ hlive => ?_
  rw [Function.comp_apply] at hlive
  split at hlive
  · cases hlive
  · exact hlive

theorem countP_usedRows (rows : List ApiKey) (keyId : Str) (now : Int) :
    (usedRows rows keyId now).countP ApiKey.live = rows.countP ApiKey.live := by
  rw [usedRows, List.countP_map]
  refine List.countP_congr fun row _ => ?_
  rw [Function.comp_apply]
  split <;> rfl

@[simp] theorem map_keyId_revokedRows (rows : List ApiKey) (keyId : Str) (now : Int) :
    (revokedRows rows keyId now).map ApiKey.keyId = rows.map ApiKey.keyId := by
  rw [revokedRows, List.map_map]
  refine List.map_congr_left fun row _ => ?_
  rw [Function.comp_apply]
  split <;> rfl

@[simp] theorem map_keyId_usedRows (rows : List ApiKey) (keyId : Str) (now : Int) :
    (usedRows rows keyId now).map ApiKey.keyId = rows.map ApiKey.keyId := by
  rw [usedRows, List.map_map]
  refine List.map_congr_left fun row _ => ?_
  rw [Function.comp_apply]
  split <;> rfl

omit [DecidableEq W] in
theorem Inv.new (now : Int) (users : List Str) : Inv (Server.new now users : Server W) where
  guarded := Guarded.idle fun _ => Nat.zero_le _
  orphan _ _ h := by cases h
  distinct := List.nodup_nil
  drawn _ h := by cases h

/-- A request comes to a place that says nothing of locks or rows. -/
theorem Inv.goto (hi : Inv s) {p : Place} (hlock : p.lock = none) (horphan : p.Orphan s.users) : Inv (s.goto w p) :=
  { hi with
    guarded := hi.guarded.goto (fun _ h => by cases hlock.symm.trans h) fun _ h => by cases hlock.symm.trans h
    orphan := forall_put hi.orphan (forall_moved horphan) }

theorem Inv.close (hi : Inv s) (w : W) (reply : Option Reply) : Inv (s.close w reply) :=
  { hi with
    guarded := hi.guarded.close w
    orphan := forall_put hi.orphan forall_gone }

theorem Inv.counts (hi : Inv s) {userId name : Str} {locked : Bool} (hw : s.places w = some (.counting userId name locked))
    (hroom : liveKeys s.rows userId < maxLiveKeys) : Inv (s.goto w (.inserting userId name locked)) := by
  have horphan := hi.orphan w _ hw
  cases locked with
  | false => exact hi.goto rfl horphan
  | true =>
    refine { hi with
      guarded := hi.guarded.move hw rfl fun k hk _ => ?_
      orphan := forall_put hi.orphan (forall_moved trivial) }
    obtain rfl := Option.some.inj hk
    rw [liveKeys_eq] at hroom
    exact hroom

theorem Inv.insert (hi : Inv s) {userId name : Str} {locked : Bool}
    (hw : s.places w = some (.inserting userId name locked)) (huser : userId ∈ s.users) {keyId : Str}
    (hnew : keyId ∉ s.drawn) (secret : Str) (reply : Option Reply) :
    Inv { s.close w reply with
      rows := makeKey config userId name s.now keyId secret :: s.rows
      drawn := keyId :: s.drawn } := by
  have horphan := hi.orphan w _ hw
  obtain rfl : locked = true := by
    cases locked with
    | true => rfl
    | false => exact absurd huser horphan
  have hroom := hi.guarded.knows w _ userId hw rfl
  exact {
    guarded := by
      refine hi.guarded.finish (hi.guarded.locked w _ userId hw rfl)
        (fun k hk => rowsOf_cons_of_ne (Ne.symm hk) s.rows) ?_
      show (rowsOf ApiKey.userId (makeKey config userId name s.now keyId secret :: s.rows)
        (makeKey config userId name s.now keyId secret).userId).countP ApiKey.live ≤ maxLiveKeys
      rw [rowsOf_cons_self, List.countP_cons_of_pos rfl]
      exact hroom
    orphan := forall_put hi.orphan forall_gone
    distinct := by
      refine List.nodup_cons.mpr ⟨fun hmem => hnew ?_, hi.distinct⟩
      obtain ⟨row, hrow, heq⟩ := List.mem_map.mp hmem
      exact (heq ▸ hi.drawn row hrow : (makeKey config userId name s.now keyId secret).keyId ∈ s.drawn)
    drawn := by
      intro row hrow
      rcases List.mem_cons.mp hrow with rfl | hrow
      · exact List.mem_cons_self
      · exact List.mem_cons_of_mem _ (hi.drawn row hrow) }

omit [DecidableEq W] in
/-- Fewer keys, or the same, with their ids. -/
theorem Inv.withRows (hi : Inv s) {rows : List ApiKey}
    (hfewer : ∀ userId, (rowsOf ApiKey.userId rows userId).countP ApiKey.live ≤
      (rowsOf ApiKey.userId s.rows userId).countP ApiKey.live)
    (hids : List.Sublist (rows.map ApiKey.keyId) (s.rows.map ApiKey.keyId)) : Inv { s with rows := rows } :=
  { hi with
    guarded := by
      refine hi.guarded.change (fun p k hp => ?_) fun k => (hfewer k).trans
      cases p with
      | inserting userId name locked => exact (hfewer k).trans_lt hp
      | locking userId name => trivial
      | counting userId name locked => trivial
      | revoking keyId revokedAt => trivial
      | checking row => trivial
      | recording row usedAt => trivial
    distinct := hi.distinct.sublist hids
    drawn := by
      intro row hrow
      obtain ⟨row', hrow', heq⟩ := List.mem_map.mp (hids.subset (List.mem_map_of_mem hrow))
      exact heq ▸ hi.drawn row' hrow' }

omit [DecidableEq W] in
theorem Inv.revoke (hi : Inv s) (keyId : Str) (now : Int) : Inv { s with rows := revokedRows s.rows keyId now } :=
  hi.withRows (fun userId => rowsOf_revokedRows s.rows keyId now userId ▸ countP_revokedRows _ keyId now)
    (by rw [map_keyId_revokedRows])

omit [DecidableEq W] in
theorem Inv.use (hi : Inv s) (keyId : Str) (now : Int) : Inv { s with rows := usedRows s.rows keyId now } :=
  hi.withRows (fun userId => rowsOf_usedRows s.rows keyId now userId ▸ (countP_usedRows _ keyId now).le)
    (by rw [map_keyId_usedRows])

omit [DecidableEq W] in
theorem Inv.deleteAccount (hi : Inv s) (userId : Str) :
    Inv { s with
      users := s.users.filter (· ≠ userId)
      rows := s.rows.filter fun row => row.userId ≠ userId } := by
  have hrows : Inv { s with rows := s.rows.filter fun row => row.userId ≠ userId } := hi.withRows
    (fun k => rowsOf_filter ApiKey.userId _ s.rows k ▸ (List.filter_sublist).countP_le)
    (List.filter_sublist.map ApiKey.keyId)
  refine { hrows with orphan := fun w p hp => ?_ }
  have horphan := hi.orphan w p hp
  cases p with
  | counting userId' name locked =>
    cases locked with
    | true => trivial
    | false => exact fun hmem => horphan (List.mem_of_mem_filter hmem)
  | inserting userId' name locked =>
    cases locked with
    | true => trivial
    | false => exact fun hmem => horphan (List.mem_of_mem_filter hmem)
  | locking userId' name => trivial
  | revoking keyId revokedAt => trivial
  | checking row => trivial
  | recording row usedAt => trivial

theorem Inv.step (hi : Inv s) (h : step config s l = some s') : Inv s' := by
  cases step_turn h with
  | tick elapsed => exact { hi with }
  | asks _ _ => exact hi.goto rfl trivial
  | locks hfree =>
    exact { hi with
      guarded := hi.guarded.acquire hfree rfl trivial
      orphan := forall_put hi.orphan (forall_moved trivial) }
  | orphaned hgone => exact hi.goto rfl hgone
  | counts hw hroom => exact hi.counts hw hroom
  | inserts hw hnew huser reply _ => exact hi.insert hw huser hnew _ reply
  | draws w keyId _ _ =>
    exact { hi.close w (some .raised) with
      drawn := fun row hrow => List.mem_cons_of_mem _ (hi.drawn row hrow) }
  | finds _ => exact hi.goto rfl trivial
  | presents _ _ _ _ => exact hi.goto rfl trivial
  | clears _ _ => exact hi.goto rfl trivial
  | revokes _ => exact (hi.close _ _).revoke _ _
  | misses _ _ => exact hi.close _ _
  | uses _ => exact (hi.close _ _).use _ _
  | closes w reply _ _ => exact hi.close w reply
  | deletes userId => exact hi.deleteAccount userId

theorem inv_exec {now : Int} {users : List Str} {ls : List (Label W)}
    (h : exec (step config) (Server.new now users) ls = some s) : Inv s := by
  have hall : Along (step config) (fun _ _ => True) (Server.new now users) ls := along_of_mem ls _ fun _ _ _ => trivial
  exact exec_invariant (fun _ _ _ hi _ hstep => hi.step hstep) (Inv.new now users) hall h

def exampleUser : Str := "usr_1".toList

def exampleKey : Str := List.replicate 32 'a'

def exampleSecret : Str := List.replicate 64 '0'

/-- `hash_token`, of the one secret there is. -/
def exampleConfig : Config where
  accessModelEnabled := true
  hashToken secret :=
    if secret = exampleSecret then "60e05bd1b195af2f94112fa7197a5c88289058840ce7c6df9693756bc6250f55".toList else []
  category _ := "Ll"

/-- Two requests for a key: the second waits for the lock. -/
def created : List (Label Nat) :=
  [.create 0 exampleUser "laptop".toList, .create 1 exampleUser "phone".toList, .advance 0, .advance 0,
    .insert 0 exampleKey exampleSecret true, .advance 1]

/-- A key is issued to an account there is. -/
def Issues (keyId userId secret : Str) (s : Server W) : Label W → Prop
  | .insert w keyId' secret' _ =>
    keyId' = keyId ∧ secret' = secret ∧ userId ∈ s.users ∧ ∃ name locked, s.places w = some (.inserting userId name locked)
  | _ => False

/-- The header presents a key of the account, issued and not revoked by the end of the run. -/
def Valid (config : Config) (s₀ : Server W) (ls : List (Label W)) (authorization keyId userId : Str) : Prop :=
  ∃ s secret issued, exec (step config) s₀ ls = some s ∧ userId ∈ s.users ∧
    presented authorization = some (keyId, secret) ∧ config.hashToken secret = config.hashToken issued ∧
    Took (step config) s₀ ls (Issues keyId userId issued) ∧ ¬Took (step config) s₀ ls (Revokes keyId)

/-- The request has presented a valid key. -/
def Asked (config : Config) (s₀ : Server W) (ls : List (Label W)) (w : W) (keyId userId : Str) : Prop :=
  ∃ pre authorization post, ls = pre ++ .authenticate w authorization :: post ∧
    Valid config s₀ pre authorization keyId userId

/-- The request has presented a valid key, and the deletion list does not hold its account. -/
def Cleared (config : Config) (s₀ : Server W) (ls : List (Label W)) (w : W) (keyId userId : Str) : Prop :=
  ∃ pre answer post, ls = pre ++ .listed w answer :: post ∧ Asked config s₀ pre w keyId userId ∧
    ("usr_".toList <+: userId → answer = some false)

variable {s₀ : Server W} {ls : List (Label W)}

theorem Asked.append {keyId userId : Str} (h : Asked config s₀ ls w keyId userId) (ls' : List (Label W)) :
    Asked config s₀ (ls ++ ls') w keyId userId := by
  obtain ⟨pre, authorization, post, rfl, hvalid⟩ := h
  exact ⟨pre, authorization, post ++ ls', by simp, hvalid⟩

theorem Cleared.append {keyId userId : Str} (h : Cleared config s₀ ls w keyId userId) (ls' : List (Label W)) :
    Cleared config s₀ (ls ++ ls') w keyId userId := by
  obtain ⟨pre, answer, post, rfl, hasked⟩ := h
  exact ⟨pre, answer, post ++ ls', by simp, hasked⟩

/-- What a place says of the run so far. -/
def Place.Told (config : Config) (s₀ : Server W) (ls : List (Label W)) (drawn : List Str) (w : W) : Place → Prop
  | .revoking keyId _ => keyId ∈ drawn
  | .checking row => Asked config s₀ ls w row.keyId row.userId
  | .recording row _ => Cleared config s₀ ls w row.keyId row.userId
  | _ => True

structure History (config : Config) (s₀ : Server W) (ls : List (Label W)) (s : Server W) : Prop where
  account : ∀ row ∈ s.rows, row.userId ∈ s.users
  drawn : ∀ row ∈ s.rows, row.keyId ∈ s.drawn
  issued : ∀ row ∈ s.rows, ∃ secret, row.secretHash = config.hashToken secret ∧
    Took (step config) s₀ ls (Issues row.keyId row.userId secret)
  revoked : ∀ keyId, Took (step config) s₀ ls (Revokes keyId) → keyId ∈ s.drawn
  live : ∀ row ∈ s.rows, row.revokedAt = none → ¬Took (step config) s₀ ls (Revokes row.keyId)
  told : ∀ w p, s.places w = some p → p.Told config s₀ ls s.drawn w
  answered : ∀ w keyId userId, (w, .authenticated keyId userId) ∈ s.replies → Cleared config s₀ ls w keyId userId

theorem History.new (now : Int) (users : List Str) :
    History config (Server.new now users) [] (Server.new now users : Server W) where
  account _ h := by cases h
  drawn _ h := by cases h
  issued _ h := by cases h
  revoked _ h := absurd h took_nil
  live _ h := by cases h
  told _ _ h := by cases h
  answered _ _ _ h := by cases h

/-- The run goes on with a step that revokes no key that is live after it. -/
theorem History.append (hh : History config s₀ ls s') (hrun : exec (step config) s₀ ls = some s)
    (hplaces : s'.places = s.places)
    (hlive : ∀ keyId, Revokes keyId s l → ∀ row ∈ s'.rows, row.revokedAt = none → row.keyId ≠ keyId) :
    History config s₀ (ls ++ [l]) s' where
  account := hh.account
  drawn := hh.drawn
  issued row hrow := by
    obtain ⟨secret, hsecret, htook⟩ := hh.issued row hrow
    exact ⟨secret, hsecret, htook.append [l]⟩
  revoked keyId htook := by
    rcases (took_snoc hrun).mp htook with htook | hlast
    · exact hh.revoked keyId htook
    · cases l with
      | commit w =>
        obtain ⟨revokedAt, hw⟩ := hlast
        exact hh.told w _ (hplaces ▸ hw)
      | _ => cases hlast
  live row hrow hrevoked htook := by
    rcases (took_snoc hrun).mp htook with htook | hlast
    · exact hh.live row hrow hrevoked htook
    · exact hlive _ hlast row hrow hrevoked rfl
  told w p hp := by
    have htold := hh.told w p hp
    cases p with
    | revoking keyId revokedAt => exact htold
    | checking row => exact Asked.append htold [l]
    | recording row usedAt => exact Cleared.append htold [l]
    | locking userId name => trivial
    | counting userId name locked => trivial
    | inserting userId name locked => trivial
  answered w keyId userId hmem := (hh.answered w keyId userId hmem).append [l]

theorem History.wait (hh : History config s₀ ls s) (hrun : exec (step config) s₀ ls = some s) (l : Label W)
    (hl : ∀ keyId, ¬Revokes keyId s l) : History config s₀ (ls ++ [l]) s :=
  hh.append hrun rfl fun keyId hrevokes => absurd hrevokes (hl keyId)

theorem History.goto (hh : History config s₀ ls s) {p : Place} (hp : p.Told config s₀ ls s.drawn w) :
    History config s₀ ls (s.goto w p) :=
  { hh with told := forall_put hh.told (forall_moved hp) }

theorem History.close (hh : History config s₀ ls s) {reply : Option Reply}
    (hreply : ∀ keyId userId, reply = some (.authenticated keyId userId) → Cleared config s₀ ls w keyId userId) :
    History config s₀ ls (s.close w reply) :=
  { hh with
    told := forall_put hh.told forall_gone
    answered := by
      intro w' keyId userId hmem
      rcases List.mem_append.mp hmem with hnew | hold
      · rw [Option.mem_toList, Option.map_eq_some_iff] at hnew
        obtain ⟨reply', hreply', heq⟩ := hnew
        cases heq
        exact hreply keyId userId hreply'
      · exact hh.answered w' keyId userId hold }

theorem Place.Told.mono {drawn drawn' : List Str} {p : Place} (hp : p.Told config s₀ ls drawn w)
    (hsub : drawn ⊆ drawn') : p.Told config s₀ ls drawn' w := by
  cases p with
  | revoking keyId revokedAt => exact hsub hp
  | _ => exact hp

theorem History.draw (hh : History config s₀ ls s) (keyId : Str) :
    History config s₀ ls { s with drawn := keyId :: s.drawn } :=
  { hh with
    drawn := fun row hrow => List.mem_cons_of_mem _ (hh.drawn row hrow)
    revoked := fun keyId' htook => List.mem_cons_of_mem _ (hh.revoked keyId' htook)
    told := fun w p hp => Place.Told.mono (hh.told w p hp) (List.subset_cons_self _ _) }

/-- The rows of a revocation or of a use are those of before, no more of them live. -/
theorem History.withRows (hh : History config s₀ ls s) {rows : List ApiKey}
    (hrows : ∀ row ∈ rows, ∃ row' ∈ s.rows, row.keyId = row'.keyId ∧ row.userId = row'.userId ∧
      row.secretHash = row'.secretHash ∧ (row.revokedAt = none → row'.revokedAt = none)) :
    History config s₀ ls { s with rows := rows } :=
  { hh with
    account := by
      intro row hrow
      obtain ⟨row', hrow', -, huser, -⟩ := hrows row hrow
      exact huser ▸ hh.account row' hrow'
    drawn := by
      intro row hrow
      obtain ⟨row', hrow', hkey, -⟩ := hrows row hrow
      exact hkey ▸ hh.drawn row' hrow'
    issued := by
      intro row hrow
      obtain ⟨row', hrow', hkey, huser, hhash, -⟩ := hrows row hrow
      rw [hkey, huser, hhash]
      exact hh.issued row' hrow'
    live := by
      intro row hrow hrevoked
      obtain ⟨row', hrow', hkey, -, -, hlive⟩ := hrows row hrow
      exact hkey ▸ hh.live row' hrow' (hlive hrevoked) }

theorem History.revoke (hh : History config s₀ ls s) (keyId : Str) (now : Int) :
    History config s₀ ls { s with rows := revokedRows s.rows keyId now } := by
  refine hh.withRows fun row hrow => ?_
  obtain ⟨row', hrow', rfl⟩ := List.mem_map.mp hrow
  refine ⟨row', hrow', ?_⟩
  split
  · exact ⟨rfl, rfl, rfl, fun h => by cases h⟩
  · exact ⟨rfl, rfl, rfl, id⟩

theorem History.use (hh : History config s₀ ls s) (keyId : Str) (now : Int) :
    History config s₀ ls { s with rows := usedRows s.rows keyId now } := by
  refine hh.withRows fun row hrow => ?_
  obtain ⟨row', hrow', rfl⟩ := List.mem_map.mp hrow
  refine ⟨row', hrow', ?_⟩
  split <;> exact ⟨rfl, rfl, rfl, id⟩

theorem History.deleteAccount (hh : History config s₀ ls s) (userId : Str) :
    History config s₀ ls { s with
      users := s.users.filter (· ≠ userId)
      rows := s.rows.filter fun row => row.userId ≠ userId } :=
  { hh.withRows fun row hrow => ⟨row, List.mem_of_mem_filter hrow, rfl, rfl, rfl, id⟩ with
    account := by
      intro row hrow
      obtain ⟨hrow, hne⟩ := List.mem_filter.mp hrow
      exact List.mem_filter.mpr ⟨hh.account row hrow, hne⟩ }

/-- A key that was never drawn is issued. -/
theorem History.insert (hh : History config s₀ (ls ++ [l]) s) {userId name keyId secret : Str}
    (huser : userId ∈ s.users) (hnew : keyId ∉ s.drawn)
    (htook : Took (step config) s₀ (ls ++ [l]) (Issues keyId userId secret)) :
    History config s₀ (ls ++ [l])
      { s with
        rows := makeKey config userId name s.now keyId secret :: s.rows
        drawn := keyId :: s.drawn } :=
  { hh.draw keyId with
    account := List.forall_mem_cons.mpr ⟨huser, hh.account⟩
    drawn := List.forall_mem_cons.mpr ⟨List.mem_cons_self, (hh.draw keyId).drawn⟩
    issued := List.forall_mem_cons.mpr ⟨⟨secret, rfl, htook⟩, hh.issued⟩
    live := List.forall_mem_cons.mpr ⟨fun _ hrevoked => hnew (hh.revoked keyId hrevoked), hh.live⟩ }

theorem History.present (hh : History config s₀ ls s) (hrun : exec (step config) s₀ ls = some s) {authorization : Str}
    {row : ApiKey} {secret : Str} (hrow : row ∈ s.rows) (hpresented : presented authorization = some (row.keyId, secret))
    (hlive : row.revokedAt = none) (hhash : config.hashToken secret = row.secretHash) :
    History config s₀ (ls ++ [.authenticate w authorization]) (s.goto w (.checking row)) := by
  obtain ⟨issued, hissued, htook⟩ := hh.issued row hrow
  exact (hh.wait hrun (.authenticate w authorization) fun _ => id).goto
    ⟨ls, authorization, [], rfl, s, secret, issued, hrun, hh.account row hrow, hpresented, hhash.trans hissued, htook,
      hh.live row hrow hlive⟩

theorem History.commitRevoked (hh : History config s₀ ls s) (hrun : exec (step config) s₀ ls = some s) {keyId : Str}
    {revokedAt : Int} (hw : s.places w = some (.revoking keyId revokedAt)) :
    History config s₀ (ls ++ [.commit w])
      { s.close w (some .revoked) with rows := revokedRows s.rows keyId revokedAt } := by
  refine History.close (s := { s with rows := revokedRows s.rows keyId revokedAt })
    ((hh.revoke keyId revokedAt).append hrun rfl ?_) fun _ _ heq => by cases heq
  intro keyId' ⟨revokedAt', hw'⟩ row hrow hlive
  rw [hw] at hw'
  cases hw'
  obtain ⟨row', -, rfl⟩ := List.mem_map.mp hrow
  split at hlive
  · cases hlive
  · rename_i hne
    rwa [if_neg hne]

theorem History.step (hh : History config s₀ ls s) (hrun : exec (step config) s₀ ls = some s)
    (h : step config s l = some s') : History config s₀ (ls ++ [l]) s' := by
  cases step_turn h with
  | tick elapsed => exact { hh.wait hrun (.tick elapsed) fun _ => id with }
  | asks _ _ => exact (hh.wait hrun _ fun _ => id).goto trivial
  | @locks w userId name hfree =>
    exact { (hh.wait hrun _ fun _ => id).goto (p := .counting userId name true) trivial with }
  | orphaned hgone => exact (hh.wait hrun _ fun _ => id).goto trivial
  | counts hw hroom => exact (hh.wait hrun _ fun _ => id).goto trivial
  | @inserts w userId name locked _ _ _ hw hnew huser reply hreply =>
    exact ((hh.wait hrun _ fun _ => id).close fun keyId userId heq => absurd heq (hreply keyId userId)).insert huser hnew
      (Took.last hrun ⟨rfl, rfl, huser, name, locked, hw⟩)
  | draws w keyId secret replied =>
    have hclosed : History config s₀ (ls ++ [.insert w keyId secret replied]) (s.close w (some .raised)) :=
      (hh.wait hrun _ fun _ => id).close fun _ _ heq => by cases heq
    exact hclosed.draw keyId
  | finds hrow => exact (hh.wait hrun _ fun _ => id).goto (hh.drawn _ hrow)
  | presents hrow hpresented hlive hhash => exact hh.present hrun hrow hpresented hlive hhash
  | @clears w _ answer hw hanswer =>
    exact (hh.wait hrun _ fun _ => id).goto ⟨ls, answer, [], rfl, hh.told w _ hw, hanswer⟩
  | revokes hw => exact hh.commitRevoked hrun hw
  | misses hw hgone =>
    refine (hh.append hrun rfl ?_).close fun _ _ heq => by cases heq
    intro keyId' ⟨revokedAt', hw'⟩ row hrow _
    cases hw.symm.trans hw'
    exact hgone row hrow
  | @uses w row usedAt hw =>
    have hnow := hh.wait hrun (.commit w) fun _ ⟨_, hw'⟩ => by cases hw.symm.trans hw'
    refine History.close (s := { s with rows := usedRows s.rows row.keyId usedAt })
      (hnow.use row.keyId usedAt) fun keyId userId hreply => ?_
    cases hreply
    exact hnow.told w _ hw
  | closes w reply hquiet hreply =>
    exact (hh.wait hrun _ hquiet).close fun keyId userId heq => absurd heq (hreply keyId userId)
  | deletes userId => exact (hh.wait hrun _ fun _ => id).deleteAccount userId

/-- A request is authenticated as a key of an account only if it presented, at a time when
the account was there, a secret that hashes as that of a key issued to the account and not
revoked until then, and if the deletion list, read after that, did not hold the account. -/
theorem authenticated_keys {now : Int} {users : List Str} {keyId userId : Str}
    (h : exec (step config) (Server.new now users) ls = some s)
    (hreply : (w, .authenticated keyId userId) ∈ s.replies) :
    Cleared config (Server.new now users) ls w keyId userId := by
  have hhistory : History config (Server.new now users) ls s :=
    exec_history (I := fun ls s => History config (Server.new now users) ls s) (History.new now users)
      (fun _ _ _ _ hrun hh hstep => hh.step hrun hstep) h
  exact hhistory.answered w keyId userId hreply

/-- The key is used, and revoked. -/
def used : List (Label Nat) :=
  created ++ [.authenticate 2 ("Bearer ".toList ++ rawKey exampleKey exampleSecret), .listed 2 (some false),
    .revoke 0 exampleUser exampleKey, .commit 0, .commit 2]

theorem authenticated_keys_used :
    Cleared exampleConfig (Server.new 0 [exampleUser]) used 2 exampleKey exampleUser := by
  have hrun : ∃ s, exec (step exampleConfig) (Server.new 0 [exampleUser]) used = some s ∧
      (2, Reply.authenticated exampleKey exampleUser) ∈ s.replies := by
    decide +kernel
  obtain ⟨s, hs, hreply⟩ := hrun
  exact authenticated_keys hs hreply

end CiteVyn.Access.ApiKeys
