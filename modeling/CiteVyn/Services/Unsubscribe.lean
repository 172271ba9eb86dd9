import CiteVyn.Lib.Vouchers
import CiteVyn.Services.Digest
import CiteVyn.Text.Hex

/-! # Leaving the digest

The routes of `app/api/routes/digest.py` beside the runs that send the digest. A run
draws a token for each mail and keeps its hash with the claim; the link of the mail
holds the token. A request is answered once; what it has loaded it does not load again,
and its commit writes the columns that it has changed. -/
namespace CiteVyn.Services.Unsubscribe
open CiteVyn.Lib.Runs CiteVyn.Lib.Threads CiteVyn.Lib.Vouchers CiteVyn.Services.Digest CiteVyn.Text

structure Config where
  accessModelEnabled : Bool
  digestMaxPerRun : Nat
  /-- the hash of a page's text -/
  sha : Str → Str
  /-- `hash_token` -/
  hashToken : Str → Str

/-- `secrets.token_hex(32)` -/
def isToken (token : Str) : Bool := token.length = 64 && token.all isLowerHex

/-- A mail that a run has written, with the token of its link. -/
structure Letter where
  sendId : Nat
  userId : Str
  toAddr : Str
  token : Str
  deriving DecidableEq, Repr

/-- The `t` of the link. -/
def Letter.link (letter : Letter) : Str := uuidText letter.sendId ++ '.' :: letter.token

/-- The longest `t` that the routes take. -/
def maxLink : Nat := 200

inductive Reply where
  /-- `_view` -/
  | preference (subscribed verified : Bool)
  | notFound
  | verificationRequired
  /-- 422: the link is too long -/
  | validationError
  /-- `_INVALID` -/
  | invalid
  /-- the page with the button -/
  | button
  /-- the account that the link is of gets no more digests -/
  | stopped (userId : Str)
  /-- a row that is gone, or the request is cut off -/
  | raised
  deriving DecidableEq, Repr

inductive Request where
  /-- `put_digest` comes to its commit, with what it writes if it has changed anything -/
  | saving (userId : Str) (write : Option (Option Int)) (subscribed verified : Bool)
  /-- `unsubscribe` has loaded the row that `t` is of -/
  | found (row : DigestSend) (unsubscribedAt : Option Int) (t : Str)
  /-- and the user -/
  | loaded (row : DigestSend) (unsubscribedAt : Option Int) (t : Str) (user : Option User)
  | answered (reply : Reply)
  deriving DecidableEq, Repr

structure Office (W V : Type) where
  server : Server W
  /-- `DigestSend.token_hash` -/
  tokenHash : Nat → Str
  /-- `DigestSend.unsubscribed_at` -/
  unsubscribedAt : Nat → Option Int
  requests : V → Option Request
  /-- the ids of accounts so far -/
  known : List Str
  letters : List Letter

inductive Label (W V : Type) where
  /-- a watcher or a digest run takes a step -/
  | run (l : Digest.Label W)
  /-- the commit of a claim, with what the run has drawn -/
  | claim (w : W) (sendId : Nat) (token : Str)
  | register (user : User)
  /-- the other columns of a user -/
  | change (userId : Str) (email : Option Str) (emailVerifiedAt : Option Int)
  | deleteAccount (userId : Str)
  /-- `get_digest` -/
  | get (v : V) (userId : Str)
  /-- `put_digest` loads the user -/
  | put (v : V) (userId : Str) (subscribed : Bool) (now : Int)
  /-- `unsubscribe_page` -/
  | page (v : V) (t : Str)
  /-- `unsubscribe` loads the row -/
  | unsubscribe (v : V) (t : Str)
  /-- a request comes to its next statement -/
  | advance (v : V) (now : Int)
  /-- a request is cut off -/
  | cancel (v : V)

variable (config : Config) {W V : Type} [DecidableEq W] [DecidableEq V]

/-- `db.get(User, user_id)`. -/
def Office.user (s : Office W V) (userId : Str) : Option User := s.server.users.find? fun user => user.userId = userId

/-- The accounts there are. -/
def Office.accounts (s : Office W V) : List Str := s.server.users.map User.userId

/-- `t.partition(".")`, the id read. -/
def sendIdOf (t : Str) : Option Nat := readUuid (t.takeWhile (· ≠ '.'))

def tokenOf (t : Str) : Str := (t.dropWhile (· ≠ '.')).tail

/-- `_send_for`. -/
def Office.sendFor (s : Office W V) (t : Str) : Option DigestSend :=
  (sendIdOf t).bind fun key =>
    (s.server.rows.find? fun row => row.sendId = key).bind fun row =>
      if tokenOf t = [] ∨ config.hashToken (tokenOf t) ≠ s.tokenHash key then none else some row

def Office.answer (s : Office W V) (v : V) (reply : Reply) : Office W V :=
  { s with requests := put s.requests v (some (.answered reply)) }

def Office.goto (s : Office W V) (v : V) (request : Request) : Office W V :=
  { s with requests := put s.requests v (some request) }

/-- The users with one's `digest_opt_in_at` written. -/
def writeOptIn (users : List User) (userId : Str) (optIn : Option Int) : List User :=
  users.map fun user => if user.userId = userId then { user with digestOptInAt := optIn } else user

def Office.setOptIn (s : Office W V) (userId : Str) (optIn : Option Int) : Office W V :=
  { s with server := { s.server with users := writeOptIn s.server.users userId optIn } }

/-- `put_digest`, once it has loaded the user. -/
def putDigest (user : Option User) (subscribed : Bool) (now : Int) : Request :=
  match user with
  | none => .answered .notFound
  | some user =>
    if subscribed then
      if user.emailVerifiedAt.isNone then .answered .verificationRequired
      else .saving user.userId (if user.digestOptInAt.isNone then some (some now) else none) true true
    else .saving user.userId (if user.digestOptInAt.isSome then some none else none) false user.emailVerifiedAt.isSome

/-- A commit that updates the row of a user. -/
def Office.commitOptIn (s : Office W V) (userId : Str) : Option (Option Int) → Option (Office W V)
  | none => some s
  | some optIn => if userId ∈ s.accounts then some (s.setOptIn userId optIn) else none

/-- A commit that updates `unsubscribed_at`, unless it was set. -/
def Office.commitStop (s : Office W V) (row : DigestSend) (unsubscribedAt : Option Int) (now : Int) : Option (Office W V) :=
  if unsubscribedAt.isSome then some s
  else if s.server.rows.any fun row' => row'.sendId = row.sendId then
    some { s with unsubscribedAt := Function.update s.unsubscribedAt row.sendId (some now) }
  else none

/-- What a commit has written, or nothing of it. -/
def Office.commit (s : Office W V) (v : V) (written : Option (Office W V)) (reply : Reply) : Office W V :=
  match written with
  | some s' => s'.answer v reply
  | none => s.answer v .raised

/-- The next statement of a request. -/
def Office.advance (s : Office W V) (v : V) (now : Int) : Request → Option (Office W V)
  | .saving userId write subscribed verified =>
    some (s.commit v (s.commitOptIn userId write) (.preference subscribed verified))
  | .found row unsubscribedAt t => some (s.goto v (.loaded row unsubscribedAt t (s.user row.userId)))
  | .loaded row unsubscribedAt _ user =>
    let write := user.bind fun user => if user.digestOptInAt.isSome then some none else none
    some (s.commit v ((s.commitOptIn row.userId write).bind fun s => s.commitStop row unsubscribedAt now)
      (.stopped row.userId))
  | .answered _ => none

/-- A request comes in, if there has been none of its name. -/
def Office.open (s : Office W V) (v : V) (request : Request) : Option (Office W V) :=
  if (s.requests v).isSome then none else some (s.goto v request)

def step (s : Office W V) : Label W V → Option (Office W V)
  | .run (.edit _) | .run (.claim _ _) => none
  | .run l => (Digest.step config.digestMaxPerRun config.sha s.server l).map fun server => { s with server := server }
  | .claim w sendId token =>
    match s.server.places w with
    | some (.claiming r userId email _ todo) =>
      if 2 ^ 128 ≤ sendId ∨ isToken token = false then none
      else if userId ∈ s.accounts then
        (Digest.step config.digestMaxPerRun config.sha s.server (.claim w sendId)).map fun server =>
          if s.server.accepts userId (weekStart r.now) then
            { s with
              server := server
              tokenHash := Function.update s.tokenHash sendId (config.hashToken token)
              letters := ⟨sendId, userId, email, token⟩ :: s.letters }
          else { s with server := server }
      -- the foreign key refuses the row, which counts as a claim by another run
      else some { s with server := s.server.goto w (some (.looping r todo)) }
    | _ => none
  | .register user =>
    if user.userId ∈ s.known ∨ user.digestOptInAt.isSome then none
    else some { s with server := { s.server with users := user :: s.server.users }, known := user.userId :: s.known }
  | .change userId email emailVerifiedAt =>
    some { s with server := { s.server with
      users := s.server.users.map fun user =>
        if user.userId = userId then { user with email := email, emailVerifiedAt := emailVerifiedAt } else user } }
  | .deleteAccount userId =>
    some { s with server := { s.server with
      users := s.server.users.filter fun user => user.userId ≠ userId
      rows := s.server.rows.filter fun row => row.userId ≠ userId } }
  | .get v userId =>
    s.open v (.answered (
      if config.accessModelEnabled then
        match s.user userId with
        | some user => .preference user.digestOptInAt.isSome user.emailVerifiedAt.isSome
        | none => .notFound
      else .notFound))
  | .put v userId subscribed now =>
    s.open v (if config.accessModelEnabled then putDigest (s.user userId) subscribed now else .answered .notFound)
  | .page v t =>
    s.open v (.answered (
      if config.accessModelEnabled = false then .notFound
      else if maxLink < t.length then .validationError
      else if (s.sendFor config t).isSome then .button
      else .invalid))
  | .unsubscribe v t =>
    s.open v (
      if config.accessModelEnabled = false then .answered .notFound
      else if maxLink < t.length then .answered .validationError
      else
        match s.sendFor config t with
        | some row => .found row (s.unsubscribedAt row.sendId) t
        | none => .answered .invalid)
  | .advance v now => (s.requests v).bind (s.advance v now)
  | .cancel v =>
    match s.requests v with
    | some (.answered _) | none => none
    | some _ => some (s.answer v .raised)

/-- No account, and nothing sent. -/
def Office.new : Office W V := ⟨Server.new [], fun _ => [], fun _ => none, idle, [], []⟩

/-! ## What a step comes to -/

/-- The users after a commit. -/
def written (users : List User) (userId : Str) : Option (Option Int) → List User
  | none => users
  | some optIn => writeOptIn users userId optIn

/-- What a request has asked for. -/
def Asks (l : Label W V) (v : V) : Request → Prop
  | .saving userId write subscribed _ =>
    (∃ now, l = .put v userId subscribed now) ∧ (write = some none → subscribed = false)
  | .found _ _ t | .loaded _ _ t _ => l = .unsubscribe v t
  | .answered _ => True

/-- What a request comes to, and the users that it leaves. -/
inductive Next (s : Office W V) : Label W V → V → Request → List User → Prop where
  | arrived {l v request} (hnew : s.requests v = none) (hasks : Asks l v request)
    (hfound : ∀ row unsubscribedAt t, request = .found row unsubscribedAt t → s.sendFor config t = some row)
    (hloaded : ∀ row unsubscribedAt t user, request ≠ .loaded row unsubscribedAt t user)
    (hanswer : ∀ userId, request ≠ .answered (.stopped userId)) : Next s l v request s.server.users
  | loaded {v now row unsubscribedAt t} (hv : s.requests v = some (.found row unsubscribedAt t)) :
    Next s (.advance v now) v (.loaded row unsubscribedAt t (s.user row.userId)) s.server.users
  | saved {v now userId write subscribed verified} (hv : s.requests v = some (.saving userId write subscribed verified)) :
    Next s (.advance v now) v (.answered (.preference subscribed verified)) (written s.server.users userId write)
  | stopped {v now row unsubscribedAt t user} (hv : s.requests v = some (.loaded row unsubscribedAt t user)) :
    Next s (.advance v now) v (.answered (.stopped row.userId)) (written s.server.users row.userId
      (user.bind fun user => if user.digestOptInAt.isSome then some none else none))
  | raised {l v request} (hv : s.requests v = some request) (hopen : ∀ reply, request ≠ .answered reply) :
    Next s l v (.answered .raised) s.server.users

/-- The steps, with what each finds and what it leaves. -/
inductive Turn (s : Office W V) : Label W V → Office W V → Prop where
  | run {l server} (hedit : ∀ users, l ≠ .edit users) (hclaim : ∀ w sendId, l ≠ .claim w sendId)
    (h : Digest.Turn config.digestMaxPerRun config.sha s.server l server) : Turn s (.run l) { s with server := server }
  | claimed {w sendId token r userId email mine todo} (hw : s.server.places w = some (.claiming r userId email mine todo))
    (hid : sendId < 2 ^ 128) (htoken : isToken token = true) (haccount : userId ∈ s.accounts)
    (hnew : sendId ∉ s.server.drawn) :
    Turn s (.claim w sendId token)
      { s with
        server := { s.server.goto w (some (.sending r userId email mine sendId todo)) with
          rows := ⟨sendId, userId, weekStart r.now, r.now⟩ :: s.server.rows
          drawn := sendId :: s.server.drawn }
        tokenHash := Function.update s.tokenHash sendId (config.hashToken token)
        letters := ⟨sendId, userId, email, token⟩ :: s.letters }
  | refused {w sendId token r userId email mine todo} (hw : s.server.places w = some (.claiming r userId email mine todo)) :
    Turn s (.claim w sendId token) { s with server := s.server.goto w (some (.looping r todo)) }
  | register {user : User} (hnew : user.userId ∉ s.known) (hout : user.digestOptInAt = none) :
    Turn s (.register user)
      { s with server := { s.server with users := user :: s.server.users }, known := user.userId :: s.known }
  | change (userId : Str) (email : Option Str) (emailVerifiedAt : Option Int) :
    Turn s (.change userId email emailVerifiedAt)
      { s with server := { s.server with
        users := s.server.users.map fun user =>
          if user.userId = userId then { user with email := email, emailVerifiedAt := emailVerifiedAt } else user } }
  | delete (userId : Str) :
    Turn s (.deleteAccount userId)
      { s with server := { s.server with
        users := s.server.users.filter fun user => user.userId ≠ userId
        rows := s.server.rows.filter fun row => row.userId ≠ userId } }
  | request {l v request users} (unsubscribedAt : Nat → Option Int) (h : Next config s l v request users) :
    Turn s l
      { s with
        server := { s.server with users := users }
        unsubscribedAt := unsubscribedAt
        requests := put s.requests v (some request) }

section

variable {config : Config} {s s' : Office W V} {l : Label W V}

theorem open_turn {v : V} {request : Request} (h : s.open v request = some s') (hasks : Asks l v request)
    (hfound : ∀ row unsubscribedAt t, request = .found row unsubscribedAt t → s.sendFor config t = some row)
    (hloaded : ∀ row unsubscribedAt t user, request ≠ .loaded row unsubscribedAt t user)
    (hanswer : ∀ userId, request ≠ .answered (.stopped userId)) : Turn config s l s' := by
  simp only [Office.open] at h
  split at h
  · cases h
  · rename_i hnew
    cases h
    exact .request s.unsubscribedAt (.arrived (Option.not_isSome_iff_eq_none.mp hnew) hasks hfound hloaded hanswer)

/-- What a request answers at once is none of the replies that take a commit. -/
theorem answered_turn {v : V} {reply : Reply} (h : s.open v (.answered reply) = some s')
    (hanswer : ∀ userId, reply ≠ .stopped userId) : Turn config s l s' :=
  open_turn h trivial (fun _ _ _ heq => by cases heq) (fun _ _ _ _ heq => by cases heq)
    fun userId heq => hanswer userId (Request.answered.inj heq)

omit [DecidableEq W] [DecidableEq V] in
theorem user_some {userId : Str} {user : User} (h : s.user userId = some user) :
    user ∈ s.server.users ∧ user.userId = userId :=
  ⟨List.mem_of_find?_eq_some h, by simpa using List.find?_some h⟩

omit [DecidableEq W] [DecidableEq V] in
theorem putDigest_cases (s : Office W V) (userId : Str) (subscribed : Bool) (now : Int) :
    (∃ reply, putDigest (s.user userId) subscribed now = .answered reply ∧ ∀ userId, reply ≠ .stopped userId) ∨
      ∃ write verified, putDigest (s.user userId) subscribed now = .saving userId write subscribed verified ∧
        (write = some none → subscribed = false) := by
  cases huser : s.user userId with
  | none => exact .inl ⟨_, rfl, fun _ heq => by cases heq⟩
  | some user =>
    obtain rfl := (user_some huser).2
    cases subscribed with
    | true =>
      rw [putDigest, if_pos rfl]
      split
      · exact .inl ⟨_, rfl, fun _ heq => by cases heq⟩
      · refine .inr ⟨_, _, rfl, ?_⟩
        split
        · exact fun heq => by cases heq
        · exact fun heq => by cases heq
    | false => exact .inr ⟨_, _, rfl, fun _ => rfl⟩

omit [DecidableEq W] [DecidableEq V] in
/-- A commit has written all of it or nothing. -/
theorem commitOptIn_cases (s : Office W V) (userId : Str) (write : Option (Option Int)) :
    s.commitOptIn userId write = none ∨
      s.commitOptIn userId write =
        some { s with server := { s.server with users := written s.server.users userId write } } := by
  cases write with
  | none => exact .inr rfl
  | some optIn =>
    rw [Office.commitOptIn]
    split
    · exact .inr rfl
    · exact .inl rfl

omit [DecidableEq W] [DecidableEq V] in
theorem commitStop_cases (s : Office W V) (row : DigestSend) (unsubscribedAt : Option Int) (now : Int) :
    s.commitStop row unsubscribedAt now = none ∨
      ∃ stops, s.commitStop row unsubscribedAt now = some { s with unsubscribedAt := stops } := by
  rw [Office.commitStop]
  split
  · exact .inr ⟨s.unsubscribedAt, rfl⟩
  · split
    · exact .inr ⟨_, rfl⟩
    · exact .inl rfl

theorem advance_turn {v : V} {now : Int} {request : Request} (hv : s.requests v = some request)
    (h : s.advance v now request = some s') : Turn config s (.advance v now) s' := by
  cases request with
  | saving userId write subscribed verified =>
    cases h
    rcases commitOptIn_cases s userId write with hnone | hsome
    · rw [hnone]
      exact .request s.unsubscribedAt (.raised hv fun _ heq => by cases heq)
    · rw [hsome]
      exact .request s.unsubscribedAt (.saved hv)
  | found row unsubscribedAt t =>
    cases h
    exact .request s.unsubscribedAt (.loaded hv)
  | loaded row unsubscribedAt t user =>
    cases h
    rcases commitOptIn_cases s row.userId (user.bind fun user => if user.digestOptInAt.isSome then some none else none) with
      hnone | hsome
    · rw [hnone]
      exact .request s.unsubscribedAt (.raised hv fun _ heq => by cases heq)
    · rw [hsome, Option.bind_some]
      rcases commitStop_cases _ row unsubscribedAt now with hnone | ⟨stops, hstop⟩
      · rw [hnone]
        exact .request s.unsubscribedAt (.raised hv fun _ heq => by cases heq)
      · rw [hstop]
        exact .request stops (.stopped hv)
  | answered reply => cases h

theorem step_turn (h : step config s l = some s') : Turn config s l s' := by
  cases l with
  | run l =>
    have hrun : ∀ l, (∀ users, l ≠ .edit users) → (∀ w sendId, l ≠ .claim w sendId) →
        (Digest.step config.digestMaxPerRun config.sha s.server l).map (fun server => { s with server := server }) =
          some s' → Turn config s (.run l) s' := by
      intro l hedit hclaim h
      obtain ⟨server, hstep, rfl⟩ := Option.map_eq_some_iff.mp h
      exact .run hedit hclaim (Digest.step_turn hstep)
    cases l with
    | edit users => cases h
    | claim w sendId => cases h
    | _ => exact hrun _ (fun _ heq => by cases heq) (fun _ _ heq => by cases heq) h
  | claim w sendId token =>
    simp only [step] at h
    split at h
    · rename_i r userId email mine todo hw
      split at h
      · cases h
      · rename_i hdrawn
        obtain ⟨hid, htoken⟩ := not_or.mp hdrawn
        split at h
        · rename_i haccount
          obtain ⟨server, hstep, rfl⟩ := Option.map_eq_some_iff.mp h
          cases Digest.step_turn hstep with
          | claim hw' hnew hfree =>
            cases hw.symm.trans hw'
            rw [if_pos hfree]
            exact .claimed hw (not_le.mp hid) (Bool.not_eq_false _ ▸ htoken) haccount hnew
          | refused hw' htaken =>
            cases hw.symm.trans hw'
            rw [if_neg (Bool.eq_false_iff.mp htaken)]
            exact .refused hw
        · cases h
          exact .refused hw
    · cases h
  | register user =>
    simp only [step] at h
    split at h
    · cases h
    · rename_i hnot
      obtain ⟨hnew, hout⟩ := not_or.mp hnot
      cases h
      exact .register hnew (Option.not_isSome_iff_eq_none.mp hout)
  | change userId email emailVerifiedAt =>
    cases h
    exact .change userId email emailVerifiedAt
  | deleteAccount userId =>
    cases h
    exact .delete userId
  | get v userId =>
    refine answered_turn h ?_
    intro userId' heq
    split at heq
    · split at heq
      · cases heq
      · cases heq
    · cases heq
  | put v userId subscribed now =>
    simp only [step] at h
    split at h
    · rcases putDigest_cases s userId subscribed now with ⟨reply, heq, hreply⟩ | ⟨write, verified, heq, hwrite⟩
      · rw [heq] at h
        exact answered_turn h hreply
      · rw [heq] at h
        exact open_turn h ⟨⟨now, rfl⟩, hwrite⟩ (fun _ _ _ heq => by cases heq) (fun _ _ _ _ heq => by cases heq)
          fun _ heq => by cases heq
    · exact answered_turn h fun _ heq => by cases heq
  | page v t =>
    refine answered_turn h ?_
    intro userId heq
    split_ifs at heq
  | unsubscribe v t =>
    simp only [step] at h
    split_ifs at h
    · exact answered_turn h fun _ heq => by cases heq
    · exact answered_turn h fun _ heq => by cases heq
    · split at h
      · rename_i row hrow
        refine open_turn h rfl ?_ (fun _ _ _ _ heq => by cases heq) fun _ heq => by cases heq
        rintro _ _ _ ⟨⟩
        exact hrow
      · exact answered_turn h fun _ heq => by cases heq
  | advance v now =>
    obtain ⟨request, hv, hadvance⟩ := Option.bind_eq_some_iff.mp h
    exact advance_turn hv hadvance
  | cancel v =>
    simp only [step] at h
    split at h
    · cases h
    · cases h
    · rename_i request hopen hv
      cases h
      exact .request s.unsubscribedAt (.raised hv hopen)

end

/-! ## Links -/

/-- The send of a run that has claimed for it. -/
def sendOf : Place → Option Nat
  | .sending _ _ _ _ sendId _ | .releasing _ _ sendId _ _ => some sendId
  | _ => none

/-- A mail has been written to the account, and the row of its claim is there as long as
the account is. -/
structure Posted (s : Office W V) (sendId : Nat) (userId toAddr : Str) : Prop where
  known : userId ∈ s.known
  letter : ∃ token, ⟨sendId, userId, toAddr, token⟩ ∈ s.letters
  row : userId ∈ s.accounts → ∃ row ∈ s.server.rows, row.sendId = sendId ∧ row.userId = userId

/-- `t` has the token of a mail of the send. -/
def Presents (letters : List Letter) (row : DigestSend) (t : Str) : Prop :=
  ∃ letter ∈ letters, letter.sendId = row.sendId ∧ letter.userId = row.userId ∧ sendIdOf t = some letter.sendId ∧
    config.hashToken (tokenOf t) = config.hashToken letter.token

def Request.Sound (letters : List Letter) : Request → Prop
  | .found row _ t => Presents config letters row t
  | .loaded row _ t user => Presents config letters row t ∧ ∀ u, user = some u → u.userId = row.userId
  | _ => True

structure Letter.Kept (s : Office W V) (letter : Letter) : Prop where
  drawn : letter.sendId ∈ s.server.drawn
  small : letter.sendId < 2 ^ 128
  token : isToken letter.token = true
  hash : s.tokenHash letter.sendId = config.hashToken letter.token

structure Inv (s : Office W V) : Prop where
  ledger : Ledger s.server.drawn [] (fun w => (s.server.places w).bind sendOf) (s.server.mails.map Mail.sendId)
  accounts_known : s.accounts ⊆ s.known
  accounts_nodup : s.accounts.Nodup
  rows_once : (s.server.rows.map DigestSend.sendId).Nodup
  rows_posted : ∀ row ∈ s.server.rows, ∃ letter ∈ s.letters, letter.sendId = row.sendId ∧ letter.userId = row.userId
  letters : ∀ letter ∈ s.letters, letter.Kept config s
  mails : ∀ m ∈ s.server.mails, Posted s m.sendId m.userId m.toAddr
  sending : ∀ w r userId email mine sendId todo,
    s.server.places w = some (.sending r userId email mine sendId todo) → Posted s sendId userId email
  requests : ∀ v request, s.requests v = some request → request.Sound config s.letters

omit [DecidableEq W] [DecidableEq V] in
theorem Inv.new : Inv config (Office.new : Office W V) where
  ledger := Ledger.nil
  accounts_known := fun _ h => h
  accounts_nodup := List.nodup_nil
  rows_once := List.nodup_nil
  rows_posted := fun _ h => by cases h
  letters := fun _ h => by cases h
  mails := fun _ h => by cases h
  sending := fun _ _ _ _ _ _ _ h => by cases h
  requests := fun _ _ h => by cases h

/-- What the invariant speaks of, the requests apart, is the same. -/
structure Same (s s' : Office W V) : Prop where
  places : s'.server.places = s.server.places
  rows : s'.server.rows = s.server.rows
  drawn : s'.server.drawn = s.server.drawn
  mails : s'.server.mails = s.server.mails
  accounts : s'.accounts = s.accounts
  tokenHash : s'.tokenHash = s.tokenHash
  known : s'.known = s.known
  letters : s'.letters = s.letters

section

variable {config : Config} {s s' : Office W V} {l : Label W V}

omit [DecidableEq W] [DecidableEq V]

theorem Posted.mono {sendId : Nat} {userId toAddr : Str} (h : Posted s sendId userId toAddr) (hknown : s.known ⊆ s'.known)
    (hletters : s.letters ⊆ s'.letters) (haccount : userId ∈ s.known → userId ∈ s'.accounts → userId ∈ s.accounts)
    (hrows : ∀ row ∈ s.server.rows, row.sendId = sendId → row.userId ∈ s'.accounts → row ∈ s'.server.rows) :
    Posted s' sendId userId toAddr where
  known := hknown h.known
  letter := by
    obtain ⟨token, hletter⟩ := h.letter
    exact ⟨token, hletters hletter⟩
  row := by
    intro hthere
    obtain ⟨row, hrow, hid, rfl⟩ := h.row (haccount h.known hthere)
    exact ⟨row, hrows row hrow hid hthere, hid, rfl⟩

theorem Posted.keep {sendId : Nat} {userId toAddr : Str} (h : Posted s sendId userId toAddr) (hknown : s'.known = s.known)
    (hletters : s'.letters = s.letters) (haccounts : s'.accounts = s.accounts) (hrows : s'.server.rows = s.server.rows) :
    Posted s' sendId userId toAddr :=
  h.mono (hknown ▸ List.Subset.refl _) (hletters ▸ List.Subset.refl _) (fun _ hthere => haccounts ▸ hthere)
    fun _ hrow _ _ => hrows ▸ hrow

theorem Letter.Kept.keep {letter : Letter} (h : letter.Kept config s) (hdrawn : s'.server.drawn = s.server.drawn)
    (hhash : s'.tokenHash = s.tokenHash) : letter.Kept config s' :=
  ⟨hdrawn ▸ h.drawn, h.small, h.token, hhash ▸ h.hash⟩

theorem Presents.mono {letters letters' : List Letter} {row : DigestSend} {t : Str} (h : Presents config letters row t)
    (hletters : letters ⊆ letters') : Presents config letters' row t := by
  obtain ⟨letter, hmem, hrest⟩ := h
  exact ⟨letter, hletters hmem, hrest⟩

theorem Request.Sound.mono {letters letters' : List Letter} {request : Request} (h : request.Sound config letters)
    (hletters : letters ⊆ letters') : request.Sound config letters' := by
  cases request with
  | found row unsubscribedAt t => exact Presents.mono h hletters
  | loaded row unsubscribedAt t user => exact ⟨h.1.mono hletters, h.2⟩
  | _ => trivial

theorem Inv.same (hi : Inv config s) (h : Same s s')
    (hrequests : ∀ v request, s'.requests v = some request → request.Sound config s.letters) : Inv config s' where
  ledger := by
    rw [h.drawn, h.places, h.mails]
    exact hi.ledger
  accounts_known := by
    rw [h.accounts, h.known]
    exact hi.accounts_known
  accounts_nodup := by
    rw [h.accounts]
    exact hi.accounts_nodup
  rows_once := by
    rw [h.rows]
    exact hi.rows_once
  rows_posted := by
    rw [h.rows, h.letters]
    exact hi.rows_posted
  letters := by
    rw [h.letters]
    exact fun letter hletter => (hi.letters letter hletter).keep h.drawn h.tokenHash
  mails := by
    rw [h.mails]
    exact fun m hm => (hi.mails m hm).keep h.known h.letters h.accounts h.rows
  sending := by
    rw [h.places]
    exact fun w r userId email mine sendId todo hw =>
      (hi.sending w r userId email mine sendId todo hw).keep h.known h.letters h.accounts h.rows
  requests := by
    rw [h.letters]
    exact hrequests

end

section

variable {config : Config} {s s' : Office W V} {l : Label W V}

theorem send_goto (server : Server W) (w : W) (p : Option Place) :
    (fun w' => ((server.goto w p).places w').bind sendOf) =
      put (fun w' => (server.places w').bind sendOf) w (p.bind sendOf) :=
  put_bind server.places w p sendOf

omit [DecidableEq V] in
/-- A run that moves on without a send of its own. -/
theorem Inv.goto (hi : Inv config s) (w : W) {p : Option Place} (hp : p.bind sendOf = none) :
    Inv config { s with server := s.server.goto w p } where
  ledger := by
    rw [send_goto, hp]
    exact hi.ledger.drop w
  accounts_known := hi.accounts_known
  accounts_nodup := hi.accounts_nodup
  rows_once := hi.rows_once
  rows_posted := hi.rows_posted
  letters := fun letter hletter => (hi.letters letter hletter).keep rfl rfl
  mails := fun m hm => (hi.mails m hm).keep rfl rfl rfl rfl
  sending := by
    intro w' r userId email mine sendId todo hw'
    rcases put_cases hw' with ⟨-, hmoved⟩ | ⟨-, hthere⟩
    · rw [hmoved] at hp
      cases hp
    · exact (hi.sending w' r userId email mine sendId todo hthere).keep rfl rfl rfl rfl
  requests := hi.requests

omit [DecidableEq V] in
theorem Inv.run {l : Digest.Label W} {server : Server W} (hi : Inv config s) (hedit : ∀ users, l ≠ .edit users)
    (hclaim : ∀ w sendId, l ≠ .claim w sendId) (h : Digest.Turn config.digestMaxPerRun config.sha s.server l server) :
    Inv config { s with server := server } := by
  cases h with
  | visit _ => exact hi.same ⟨rfl, rfl, rfl, rfl, rfl, rfl, rfl, rfl⟩ hi.requests
  | edit users => exact absurd rfl (hedit users)
  | nothing _ _ => exact hi.same ⟨rfl, rfl, rfl, rfl, rfl, rfl, rfl, rfl⟩ hi.requests
  | @start w now _ _ =>
    exact (hi.goto w (p := some (.started now (recentChanges s.server.store.changes now))) rfl).same
      ⟨rfl, rfl, rfl, rfl, rfl, rfl, rfl, rfl⟩ hi.requests
  | read hw hreads =>
    refine hi.goto _ ?_
    cases hreads with
    | recipients => rfl
    | claimed => rfl
    | sends => rfl
  | @advance w r todo hw =>
    refine hi.goto w ?_
    cases todo with
    | nil => rfl
    | cons next todo =>
      rw [Run.advance]
      split_ifs
      all_goals rfl
  | claim _ _ _ => exact absurd rfl (hclaim _ _)
  | refused _ _ => exact absurd rfl (hclaim _ _)
  | @returned w r userId email mine sendId todo hw =>
    have htaken : (s.server.places w).bind sendOf = some sendId := by
      rw [hw]
      rfl
    have hposted := hi.sending w r userId email mine sendId todo hw
    have hmoved := hi.goto w (p := some (.looping { r with sent := r.sent + 1 } todo)) rfl
    exact {
      ledger := by
        dsimp only
        rw [send_goto]
        exact hi.ledger.spend htaken
      accounts_known := hi.accounts_known
      accounts_nodup := hi.accounts_nodup
      rows_once := hi.rows_once
      rows_posted := hi.rows_posted
      letters := fun letter hletter => (hi.letters letter hletter).keep rfl rfl
      mails := List.forall_mem_cons.mpr ⟨hposted.keep rfl rfl rfl rfl, fun m hm => (hi.mails m hm).keep rfl rfl rfl rfl⟩
      sending := fun w' r' userId' email' mine' sendId' todo' hw' =>
        (hmoved.sending w' r' userId' email' mine' sendId' todo' hw').keep rfl rfl rfl rfl
      requests := hi.requests }
  | @raised w outcome r userId email mine sendId todo raised hw _ =>
    have hsame : (some (Place.releasing r userId sendId raised todo)).bind sendOf = (s.server.places w).bind sendOf := by
      rw [hw]
      rfl
    refine { hi with ledger := ?_, letters := ?_, mails := ?_, sending := ?_ }
    · rw [send_goto, hsame, put_there]
      exact hi.ledger
    · exact fun letter hletter => (hi.letters letter hletter).keep rfl rfl
    · exact fun m hm => (hi.mails m hm).keep rfl rfl rfl rfl
    · intro w' r' userId' email' mine' sendId' todo' hw'
      rcases put_cases hw' with ⟨-, hmoved⟩ | ⟨-, hthere⟩
      · cases hmoved
      · exact (hi.sending w' r' userId' email' mine' sendId' todo' hthere).keep rfl rfl rfl rfl
  | @release w r userId sendId raised todo hw =>
    have htaken : (s.server.places w).bind sendOf = some sendId := by
      rw [hw]
      rfl
    have hp : (if raised then none else some (Place.looping { r with failed := r.failed + 1 } todo)).bind sendOf = none := by
      cases raised with
      | true => rfl
      | false => rfl
    have hmoved := hi.goto w hp
    have hkeep : ∀ {row : DigestSend}, row ∈ s.server.rows → row.sendId ≠ sendId →
        row ∈ s.server.rows.filter fun row => row.sendId ≠ sendId :=
      fun hrow hne => List.mem_filter.mpr ⟨hrow, decide_eq_true hne⟩
    refine { hmoved with rows_once := ?_, rows_posted := ?_, letters := ?_, mails := ?_, sending := ?_ }
    · exact hi.rows_once.sublist (List.filter_sublist.map _)
    · exact fun row hrow => hi.rows_posted row (List.mem_of_mem_filter hrow)
    · exact fun letter hletter => (hi.letters letter hletter).keep rfl rfl
    · intro m hm
      -- a send that has returned is not given back
      have hother : m.sendId ≠ sendId := by
        rintro heq
        exact hi.ledger.taken_unspent w sendId htaken (List.mem_map.mpr ⟨m, hm, heq⟩)
      exact (hi.mails m hm).mono (List.Subset.refl _) (List.Subset.refl _) (fun _ h => h) fun row hrow hid _ =>
        hkeep hrow (hid ▸ hother)
    · intro w' r' userId' email' mine' sendId' todo' hw'
      rcases put_cases hw' with ⟨-, hgone⟩ | ⟨hne, hthere⟩
      · rw [hgone] at hp
        cases hp
      · have hother : sendId' ≠ sendId := by
          rintro rfl
          refine hne (hi.ledger.taken_once w' w sendId' ?_ htaken)
          rw [hthere]
          rfl
        exact (hi.sending w' r' userId' email' mine' sendId' todo' hthere).mono (List.Subset.refl _) (List.Subset.refl _)
          (fun _ h => h) fun row hrow hid _ => hkeep hrow (hid ▸ hother)
  | fail _ => exact hi.goto _ rfl

omit [DecidableEq V] in
/-- A claim is committed with the hash of the token of its mail. -/
theorem Inv.claimed (hi : Inv config s) {w : W} {sendId : Nat} {token : Str} {r : Run} {userId email : Str}
    {mine : List Watch.DocChange} {todo : List (Str × Str)} (hid : sendId < 2 ^ 128) (htoken : isToken token = true)
    (haccount : userId ∈ s.accounts) (hnew : sendId ∉ s.server.drawn) :
    Inv config { s with
      server := { s.server.goto w (some (.sending r userId email mine sendId todo)) with
        rows := ⟨sendId, userId, weekStart r.now, r.now⟩ :: s.server.rows
        drawn := sendId :: s.server.drawn }
      tokenHash := Function.update s.tokenHash sendId (config.hashToken token)
      letters := ⟨sendId, userId, email, token⟩ :: s.letters } where
  ledger := by
    dsimp only
    rw [send_goto]
    exact (hi.ledger.issue hnew).take w List.mem_cons_self (List.nil_sublist _) List.not_mem_nil
  accounts_known := hi.accounts_known
  accounts_nodup := hi.accounts_nodup
  rows_once := by
    refine List.nodup_cons.mpr ⟨?_, hi.rows_once⟩
    intro hmem
    obtain ⟨row, hrow, rfl⟩ := List.mem_map.mp hmem
    obtain ⟨letter, hletter, hid, -⟩ := hi.rows_posted row hrow
    exact hnew (hid ▸ (hi.letters letter hletter).drawn)
  rows_posted := by
    refine List.forall_mem_cons.mpr ⟨⟨_, List.mem_cons_self, rfl, rfl⟩, fun row hrow => ?_⟩
    obtain ⟨letter, hletter, hrest⟩ := hi.rows_posted row hrow
    exact ⟨letter, List.mem_cons_of_mem _ hletter, hrest⟩
  letters := by
    refine List.forall_mem_cons.mpr ⟨⟨List.mem_cons_self, hid, htoken, Function.update_self ..⟩, ?_⟩
    intro letter hletter
    have hkept := hi.letters letter hletter
    have hother : letter.sendId ≠ sendId := fun heq => hnew (heq ▸ hkept.drawn)
    exact ⟨List.mem_cons_of_mem _ hkept.drawn, hkept.small, hkept.token,
      (Function.update_of_ne hother _ _).trans hkept.hash⟩
  mails := fun m hm => (hi.mails m hm).mono (List.Subset.refl _) (List.subset_cons_self _ _) (fun _ h => h)
    fun _ hrow _ _ => List.mem_cons_of_mem _ hrow
  sending := by
    intro w' r' userId' email' mine' sendId' todo' hw'
    rcases put_cases hw' with ⟨-, hmoved⟩ | ⟨-, hthere⟩
    · cases hmoved
      exact ⟨hi.accounts_known haccount, ⟨token, List.mem_cons_self⟩, fun _ => ⟨_, List.mem_cons_self, rfl, rfl⟩⟩
    · exact (hi.sending w' r' userId' email' mine' sendId' todo' hthere).mono (List.Subset.refl _)
        (List.subset_cons_self _ _) (fun _ h => h) fun _ hrow _ _ => List.mem_cons_of_mem _ hrow
  requests := fun v request hv => (hi.requests v request hv).mono (List.subset_cons_self _ _)

omit [DecidableEq W] [DecidableEq V] in
theorem Inv.register (hi : Inv config s) {user : User} (hnew : user.userId ∉ s.known) :
    Inv config { s with
      server := { s.server with users := user :: s.server.users }
      known := user.userId :: s.known } := by
  have hposted : ∀ {sendId userId toAddr}, Posted s sendId userId toAddr →
      Posted { s with
        server := { s.server with users := user :: s.server.users }
        known := user.userId :: s.known } sendId userId toAddr := by
    intro sendId userId toAddr h
    refine h.mono (List.subset_cons_self _ _) (List.Subset.refl _) ?_ fun _ hrow _ _ => hrow
    intro hknown hthere
    rcases List.mem_cons.mp hthere with rfl | hthere
    · exact absurd hknown hnew
    · exact hthere
  exact {
    ledger := hi.ledger
    accounts_known := List.cons_subset_cons _ hi.accounts_known
    accounts_nodup := List.nodup_cons.mpr ⟨fun h => hnew (hi.accounts_known h), hi.accounts_nodup⟩
    rows_once := hi.rows_once
    rows_posted := hi.rows_posted
    letters := fun letter hletter => (hi.letters letter hletter).keep rfl rfl
    mails := fun m hm => hposted (hi.mails m hm)
    sending := fun w r userId email mine sendId todo hw => hposted (hi.sending w r userId email mine sendId todo hw)
    requests := hi.requests }

omit [DecidableEq W] [DecidableEq V] in
/-- An account goes with the rows of its sends. -/
theorem Inv.delete (hi : Inv config s) (userId : Str) :
    Inv config { s with server := { s.server with
      users := s.server.users.filter fun user => user.userId ≠ userId
      rows := s.server.rows.filter fun row => row.userId ≠ userId } } := by
  have hleft : ((s.server.users.filter fun user => user.userId ≠ userId).map User.userId).Sublist s.accounts :=
    List.filter_sublist.map _
  have hposted : ∀ {sendId userId' toAddr}, Posted s sendId userId' toAddr →
      Posted { s with server := { s.server with
        users := s.server.users.filter fun user => user.userId ≠ userId
        rows := s.server.rows.filter fun row => row.userId ≠ userId } } sendId userId' toAddr := by
    intro sendId userId' toAddr h
    refine h.mono (List.Subset.refl _) (List.Subset.refl _) (fun _ hthere => hleft.subset hthere) ?_
    intro row hrow _ hthere
    obtain ⟨user, huser, hid⟩ := List.mem_map.mp hthere
    have hne := of_decide_eq_true (List.mem_filter.mp huser).2
    exact List.mem_filter.mpr ⟨hrow, decide_eq_true (hid ▸ hne)⟩
  exact {
    ledger := hi.ledger
    accounts_known := fun _ h => hi.accounts_known (hleft.subset h)
    accounts_nodup := hi.accounts_nodup.sublist hleft
    rows_once := hi.rows_once.sublist (List.filter_sublist.map _)
    rows_posted := fun row hrow => hi.rows_posted row (List.mem_of_mem_filter hrow)
    letters := fun letter hletter => (hi.letters letter hletter).keep rfl rfl
    mails := fun m hm => hposted (hi.mails m hm)
    sending := fun w r userId email mine sendId todo hw => hposted (hi.sending w r userId email mine sendId todo hw)
    requests := hi.requests }

omit [DecidableEq W] [DecidableEq V] in
theorem sendFor_some {t : Str} {row : DigestSend} (h : s.sendFor config t = some row) :
    sendIdOf t = some row.sendId ∧ row ∈ s.server.rows ∧ config.hashToken (tokenOf t) = s.tokenHash row.sendId := by
  obtain ⟨key, hkey, hrow⟩ := Option.bind_eq_some_iff.mp h
  obtain ⟨row', hfound, hchecked⟩ := Option.bind_eq_some_iff.mp hrow
  split at hchecked
  · cases hchecked
  · rename_i hright
    cases hchecked
    have hid : row.sendId = key := by simpa using List.find?_some hfound
    subst hid
    exact ⟨hkey, List.mem_of_find?_eq_some hfound, not_not.mp (not_or.mp hright).2⟩

omit [DecidableEq W] [DecidableEq V] in
theorem Inv.presents (hi : Inv config s) {t : Str} {row : DigestSend} (h : s.sendFor config t = some row) :
    Presents config s.letters row t := by
  obtain ⟨hkey, hrow, hhash⟩ := sendFor_some h
  obtain ⟨letter, hletter, hid, huser⟩ := hi.rows_posted row hrow
  exact ⟨letter, hletter, hid, huser, hid ▸ hkey, hhash.trans (hid ▸ (hi.letters letter hletter).hash)⟩

theorem written_ids (users : List User) (userId : Str) (write : Option (Option Int)) :
    (written users userId write).map User.userId = users.map User.userId := by
  cases write with
  | none => rfl
  | some optIn =>
    rw [written, writeOptIn, List.map_map]
    refine List.map_congr_left fun user _ => ?_
    simp only [Function.comp_apply]
    split
    · rfl
    · rfl

omit [DecidableEq W] in
theorem Inv.request {v : V} {request : Request} {users : List User} (hi : Inv config s) (unsubscribedAt : Nat → Option Int)
    (h : Next config s l v request users) :
    Inv config { s with
      server := { s.server with users := users }
      unsubscribedAt := unsubscribedAt
      requests := put s.requests v (some request) } := by
  have hids : users.map User.userId = s.accounts := by
    cases h with
    | saved _ => exact written_ids _ _ _
    | stopped _ => exact written_ids _ _ _
    | _ => rfl
  have hsound : request.Sound config s.letters := by
    cases h with
    | arrived _ _ hfound hloaded _ =>
      cases request with
      | found row unsubscribedAt t => exact hi.presents (hfound row unsubscribedAt t rfl)
      | loaded row unsubscribedAt t user => exact absurd rfl (hloaded row unsubscribedAt t user)
      | _ => trivial
    | loaded hv => exact ⟨hi.requests _ _ hv, fun user huser => (user_some huser).2⟩
    | _ => trivial
  refine hi.same ⟨rfl, rfl, rfl, rfl, hids, rfl, rfl, rfl⟩ ?_
  intro v' request' hv'
  rcases put_cases hv' with ⟨-, hmoved⟩ | ⟨-, hthere⟩
  · cases hmoved
    exact hsound
  · exact hi.requests v' request' hthere

theorem Inv.step (hi : Inv config s) (h : Unsubscribe.step config s l = some s') : Inv config s' := by
  cases step_turn h with
  | run hedit hclaim hturn => exact hi.run hedit hclaim hturn
  | claimed _ hid htoken haccount hnew => exact hi.claimed hid htoken haccount hnew
  | refused _ => exact hi.goto _ rfl
  | register hnew _ => exact hi.register hnew
  | change userId email emailVerifiedAt =>
    refine hi.same ⟨rfl, rfl, rfl, rfl, ?_, rfl, rfl, rfl⟩ hi.requests
    simp only [Office.accounts, List.map_map]
    refine List.map_congr_left fun user _ => ?_
    simp only [Function.comp_apply]
    split
    · rfl
    · rfl
  | delete userId => exact hi.delete userId
  | request unsubscribedAt hnext => exact hi.request unsubscribedAt hnext

theorem Inv.of_run {ls : List (Label W V)} (h : exec (Unsubscribe.step config) Office.new ls = some s) : Inv config s :=
  exec_history (I := fun _ s => Inv config s) (Inv.new config) (fun _ _ _ _ _ hi h => hi.step h) h

omit [DecidableEq W] [DecidableEq V] in
/-- The link of a mail is read as the send and the token of it. -/
theorem link_read {letter : Letter} (h : letter.Kept config s) :
    sendIdOf letter.link = some letter.sendId ∧ tokenOf letter.link = letter.token ∧ letter.link.length ≤ maxLink := by
  have hdot : ∀ c ∈ uuidText letter.sendId, decide (c ≠ '.') = true := fun c hc =>
    decide_eq_true fun heq => not_mem_uuidText (by decide) (by decide) (heq ▸ hc)
  have hlength : letter.token.length = 64 := by
    have htoken := h.token
    simp only [isToken, Bool.and_eq_true, decide_eq_true_eq] at htoken
    exact htoken.1
  refine ⟨?_, ?_, ?_⟩
  · rw [sendIdOf, Letter.link, List.takeWhile_append_of_pos hdot, List.takeWhile_cons_of_neg (by decide), List.append_nil,
      readUuid_uuidText h.small]
  · rw [tokenOf, Letter.link, List.dropWhile_append_of_pos hdot, List.dropWhile_cons_of_neg (by decide), List.tail_cons]
  · rw [Letter.link, List.length_append, List.length_cons, uuidText_length, hlength]
    decide

omit [DecidableEq W] [DecidableEq V] in
/-- The link of a mail finds the row of its claim, while the row is there. -/
theorem Inv.link_found (hi : Inv config s) {letter : Letter} (hletter : letter ∈ s.letters) {row : DigestSend}
    (hrow : row ∈ s.server.rows) (hid : row.sendId = letter.sendId) : s.sendFor config letter.link = some row := by
  have hkept := hi.letters letter hletter
  obtain ⟨hsend, htoken, -⟩ := link_read hkept
  have hfound : s.server.rows.find? (fun row => row.sendId = letter.sendId) = some row := by
    cases hfind : s.server.rows.find? fun row => row.sendId = letter.sendId with
    | none => exact absurd (decide_eq_true hid) (List.find?_eq_none.mp hfind row hrow)
    | some row' =>
      have hid' : row'.sendId = letter.sendId := by simpa using List.find?_some hfind
      rw [List.inj_on_of_nodup_map hi.rows_once (List.mem_of_find?_eq_some hfind) hrow (hid'.trans hid.symm)]
  have hright : ¬(letter.token = [] ∨ config.hashToken letter.token ≠ s.tokenHash letter.sendId) := by
    rintro (hempty | hother)
    · have hkeptToken := hkept.token
      rw [hempty] at hkeptToken
      cases hkeptToken
    · exact hother hkept.hash.symm
  rw [Office.sendFor, hsend, Option.bind_some, hfound, Option.bind_some, htoken, if_neg hright]

end

/-- However digest runs, requests, changes and deletions of accounts interleave, the link
of a mail whose send has returned is short enough to be taken and finds the claim of its
account as long as the account is there; and a link that finds a claim has the id of a
mail to the claim's account and a token with the hash of the mail's. -/
theorem links_found (config : Config) {ls : List (Label W V)} {s : Office W V}
    (hrun : exec (step config) Office.new ls = some s) :
    (∀ m ∈ s.server.mails, ∃ letter ∈ s.letters,
      letter.sendId = m.sendId ∧ letter.userId = m.userId ∧ letter.toAddr = m.toAddr ∧ letter.link.length ≤ maxLink ∧
      (m.userId ∈ s.accounts → ∃ row, s.sendFor config letter.link = some row ∧ row.userId = m.userId)) ∧
    ∀ t row, s.sendFor config t = some row → ∃ letter ∈ s.letters,
      letter.sendId = row.sendId ∧ letter.userId = row.userId ∧ sendIdOf t = some letter.sendId ∧
      config.hashToken (tokenOf t) = config.hashToken letter.token := by
  have hi := Inv.of_run hrun
  refine ⟨fun m hm => ?_, fun t row hrow => hi.presents hrow⟩
  obtain ⟨token, hletter⟩ := (hi.mails m hm).letter
  refine ⟨_, hletter, rfl, rfl, rfl, (link_read (hi.letters _ hletter)).2.2, fun hthere => ?_⟩
  obtain ⟨row, hrow, hid, huser⟩ := (hi.mails m hm).row hthere
  exact ⟨row, hi.link_found hletter hrow hid, huser⟩

def exampleConfig : Config := ⟨true, 500, Watch.exampleSha, fun token => 'h' :: token⟩

def exampleLetter : Letter := ⟨1, "usr_1".toList, "a@example.com".toList, List.replicate 64 'a'⟩

/-- An account opts in and gets a digest. -/
def digestSent : List (Label Bool Bool) :=
  [.register ⟨exampleLetter.userId, some exampleLetter.toAddr, some 0, none⟩, .put true exampleLetter.userId true 5,
    .advance true 5, .run (.visit 0 (exampleVisit ['a'] 0)), .run (.visit 1 (exampleVisit ['b'] 1)),
    .run (.start true 10), .run (.read true), .run (.read true), .run (.read true), .run (.advance true),
    .claim true 1 exampleLetter.token, .run (.send true .returned), .run (.advance true)]

theorem links_found_sent :
    ∃ s, exec (step exampleConfig) Office.new digestSent = some s ∧ s.server.mails.map Mail.sendId = [1] ∧
      exampleLetter.userId ∈ s.accounts ∧
      ∀ m ∈ s.server.mails, ∃ letter ∈ s.letters,
        letter.sendId = m.sendId ∧ letter.userId = m.userId ∧ letter.toAddr = m.toAddr ∧ letter.link.length ≤ maxLink ∧
        (m.userId ∈ s.accounts → ∃ row, s.sendFor exampleConfig letter.link = some row ∧ row.userId = m.userId) := by
  have hrun : ∃ s ∈ exec (step exampleConfig) Office.new digestSent,
      s.server.mails.map Mail.sendId = [1] ∧ exampleLetter.userId ∈ s.accounts := by
    decide +kernel
  obtain ⟨s, hs, hmails, hthere⟩ := hrun
  exact ⟨s, hs, hmails, hthere, (links_found exampleConfig hs).1⟩

end CiteVyn.Services.Unsubscribe
