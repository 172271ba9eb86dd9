import CiteVyn.Answer.Citations
import CiteVyn.Lib.Locks
import CiteVyn.Lib.Runs
import CiteVyn.Lib.Threads

/-! # Shared answers

`share_answer` and `revoke_share` of `app/api/routes/shares.py`. Each statement of
a transaction sees what has been committed by then; the row of the account is
locked from the statement that selects it to the end of the transaction. -/
namespace CiteVyn.Api.Shares
open CiteVyn.Answer (Citation docsAsOf)
open CiteVyn.Lib.Locks CiteVyn.Lib.Runs CiteVyn.Lib.Threads CiteVyn.Text

/-! ## Rows -/

/-- `MessageRole`. -/
inductive MessageRole where
  | user
  | assistant
  deriving DecidableEq, Repr

/-- `Message`. -/
structure Message where
  messageId : Nat
  sessionId : Nat
  role : MessageRole
  content : Str
  citations : Option (List Citation)
  createdAt : Int
  deriving DecidableEq, Repr

/-- `Session`. -/
structure Session where
  sessionId : Nat
  userId : Str
  expiresAt : Int
  deriving DecidableEq, Repr

/-- `SharedAnswer`. -/
structure SharedAnswer where
  shareId : Str
  userId : Str
  messageId : Nat
  question : Str
  answer : Str
  citations : List Citation
  docsAsOf : Option String
  answeredAt : Int
  createdAt : Int
  revokedAt : Option Int
  deriving DecidableEq, Repr

/-- `MAX_LIVE_SHARES`. -/
def maxLiveShares : Nat := 100

/-- `_SHARE_ID.fullmatch`. -/
def isShareId (s : Str) : Bool := s.length = 32 && s.all fun c => "0123456789abcdef".toList.contains c

/-- `live`: the shares of an account that have not been revoked. -/
def SharedAnswer.live (userId : Str) (row : SharedAnswer) : Bool := row.userId = userId && row.revokedAt.isNone

/-- Those of one message. -/
def SharedAnswer.liveOf (userId : Str) (messageId : Nat) (row : SharedAnswer) : Bool :=
  row.live userId && row.messageId = messageId

/-- `_question_for`: the last of the user's messages up to the answer. -/
def questionFor (messages : List Message) (answer : Message) : Str :=
  let asked := messages.filter fun m =>
    m.sessionId = answer.sessionId ∧ m.role = .user ∧ m.createdAt ≤ answer.createdAt
  match asked with
  | [] => []
  | m :: ms => (ms.foldl (fun last m => if last.createdAt < m.createdAt then m else last) m).content

/-! ## Requests -/

/-- The path and the caller of a share request. -/
structure Request where
  userId : Str
  sessionId : Nat
  messageId : Nat
  deriving DecidableEq, Repr

/-- Where a request is, by the statement that comes next. -/
inductive Place where
  /-- `require_message` -/
  | loading (r : Request)
  /-- the row lock -/
  | locking (r : Request) (answer : Message)
  /-- the share that exists -/
  | looking (r : Request) (answer : Message)
  | counting (r : Request) (answer : Message)
  /-- `_question_for` -/
  | asking (r : Request) (answer : Message)
  /-- the insert and the commit -/
  | inserting (r : Request) (answer : Message) (question : Str)
  /-- the update and the commit of `revoke_share` -/
  | revoking (shareId : Str)
  deriving DecidableEq, Repr

/-- What a request answers. -/
inductive Reply where
  /-- 201 -/
  | created (shareId : Str)
  /-- 200 with the share that exists -/
  | existing (shareId : Str)
  | revoked
  | notFound
  | validationError
  | tooManyShares
  /-- a row more than one was expected, or a key that is taken -/
  | raised
  deriving DecidableEq, Repr

structure Server (W : Type) where
  now : Int
  sessions : List Session
  messages : List Message
  rows : List SharedAnswer
  /-- the locks on the rows of accounts -/
  locks : List (Str × W)
  places : W → Option Place
  replies : List (W × Reply)

inductive Label (W : Type) where
  | tick (elapsed : Nat)
  /-- a message is stored -/
  | post (m : Message)
  /-- a share request arrives: `require_session` -/
  | share (w : W) (r : Request)
  /-- a statement of `share_answer` that needs nothing from outside -/
  | advance (w : W)
  /-- the insert and the commit, with the id drawn; the reply can be lost -/
  | insert (w : W) (shareId : Str) (replied : Bool)
  /-- `revoke_share` loads the row -/
  | revoke (w : W) (userId shareId : Str)
  /-- it commits -/
  | commit (w : W)
  /-- the database fails, or the request is cancelled -/
  | fail (w : W)

variable {W : Type} [DecidableEq W]

def Server.goto (s : Server W) (w : W) (p : Place) : Server W := { s with places := put s.places w (some p) }

/-- The transaction of a request ends, and with it the request. -/
def Server.close (s : Server W) (w : W) (reply : Option Reply) : Server W :=
  { s with
    locks := release s.locks w
    places := put s.places w none
    replies := (reply.map fun reply => (w, reply)).toList ++ s.replies }

/-- The next statement of `share_answer`. -/
def Server.advance (s : Server W) (w : W) : Place → Option (Server W)
  | .loading r =>
    match s.messages.find? fun m => m.messageId = r.messageId ∧ m.sessionId = r.sessionId with
    | none => some (s.close w (some .notFound))
    | some answer =>
      if answer.role ≠ .assistant ∨ (answer.citations.getD []).isEmpty then
        some (s.close w (some .validationError))
      else some (s.goto w (.locking r answer))
  | .locking r answer =>
    if free s.locks r.userId w then
      some { s.goto w (.looking r answer) with locks := acquire s.locks r.userId w }
    else none
  | .looking r answer =>
    match s.rows.filter (·.liveOf r.userId r.messageId) with
    | [] => some (s.goto w (.counting r answer))
    | [existing] => some (s.close w (some (.existing existing.shareId)))
    | _ => some (s.close w (some .raised))
  | .counting r answer =>
    if maxLiveShares ≤ s.rows.countP (·.live r.userId) then some (s.close w (some .tooManyShares))
    else some (s.goto w (.asking r answer))
  | .asking r answer => some (s.goto w (.inserting r answer (questionFor s.messages answer)))
  | _ => none

/-- The row of a share. -/
def newRow (now : Int) (r : Request) (answer : Message) (question shareId : Str) : SharedAnswer where
  shareId := shareId
  userId := r.userId
  messageId := r.messageId
  question := question
  answer := answer.content
  citations := answer.citations.getD []
  docsAsOf := docsAsOf (answer.citations.getD [])
  answeredAt := answer.createdAt
  createdAt := now
  revokedAt := none

/-- The shares after a revocation. -/
def revokedRows (rows : List SharedAnswer) (shareId : Str) (now : Int) : List SharedAnswer :=
  rows.map fun row => if row.shareId = shareId then { row with revokedAt := some now } else row

def step (s : Server W) : Label W → Option (Server W)
  | .tick elapsed => some { s with now := s.now + elapsed }
  | .post m => some { s with messages := s.messages ++ [m] }
  | .share w r =>
    match s.places w with
    | some _ => none
    | none =>
      if s.sessions.any fun c => c.sessionId = r.sessionId ∧ c.userId = r.userId ∧ s.now < c.expiresAt then
        some (s.goto w (.loading r))
      else some (s.close w (some .notFound))
  | .advance w => (s.places w).bind (s.advance w)
  | .insert w shareId replied =>
    match s.places w with
    | some (.inserting r answer question) =>
      if s.rows.any fun row => row.shareId = shareId then some (s.close w (some .raised))
      else
        some { s.close w (if replied then some (.created shareId) else none) with
          rows := newRow s.now r answer question shareId :: s.rows }
    | _ => none
  | .revoke w userId shareId =>
    match s.places w with
    | some _ => none
    | none =>
      if isShareId shareId && s.rows.any fun row =>
          row.shareId = shareId ∧ row.userId = userId ∧ row.revokedAt = none then
        some (s.goto w (.revoking shareId))
      else some (s.close w (some .notFound))
  | .commit w =>
    match s.places w with
    | some (.revoking shareId) =>
      some { s.close w (some .revoked) with rows := revokedRows s.rows shareId s.now }
    | _ => none
  | .fail w =>
    match s.places w with
    | some _ => some (s.close w none)
    | none => none

/-- No share yet. -/
def Server.new (now : Int) (sessions : List Session) (messages : List Message) : Server W :=
  ⟨now, sessions, messages, [], [], idle, []⟩

/-! ## What a request has found out stays so -/

/-- The account whose row a request has locked. -/
def Place.lock : Place → Option Str
  | .looking r _ | .counting r _ | .asking r _ | .inserting r _ _ => some r.userId
  | _ => none

/-- No live share of the message, and then room for another. -/
def Place.Sound (rows : List SharedAnswer) : Place → Prop
  | .counting r _ => rows.countP (·.liveOf r.userId r.messageId) = 0
  | .asking r _ | .inserting r _ _ =>
    rows.countP (·.liveOf r.userId r.messageId) = 0 ∧ rows.countP (·.live r.userId) < maxLiveShares
  | _ => True

structure Inv (s : Server W) : Prop where
  exclusive : Exclusive s.locks
  locked : ∀ w p userId, s.places w = some p → p.lock = some userId → (userId, w) ∈ s.locks
  single : ∀ userId messageId, s.rows.countP (·.liveOf userId messageId) ≤ 1
  capped : ∀ userId, s.rows.countP (·.live userId) ≤ maxLiveShares
  sound : ∀ w p, s.places w = some p → p.Sound s.rows

/-- More shares of other accounts, or fewer, change nothing for a request. -/
theorem Place.Sound.mono {rows rows' : List SharedAnswer} {p : Place} (h : p.Sound rows)
    (hmessage : ∀ userId messageId, p.lock = some userId →
      rows'.countP (·.liveOf userId messageId) ≤ rows.countP (·.liveOf userId messageId))
    (haccount : ∀ userId, p.lock = some userId →
      rows'.countP (·.live userId) ≤ rows.countP (·.live userId)) : p.Sound rows' := by
  cases p with
  | counting r answer => exact Nat.le_zero.mp ((hmessage r.userId r.messageId rfl).trans (le_of_eq h))
  | asking r answer =>
    exact ⟨Nat.le_zero.mp ((hmessage r.userId r.messageId rfl).trans (le_of_eq h.1)),
      (haccount r.userId rfl).trans_lt h.2⟩
  | inserting r answer question =>
    exact ⟨Nat.le_zero.mp ((hmessage r.userId r.messageId rfl).trans (le_of_eq h.1)),
      (haccount r.userId rfl).trans_lt h.2⟩
  | loading r => trivial
  | locking r answer => trivial
  | looking r answer => trivial
  | revoking shareId => trivial

omit [DecidableEq W] in
theorem Inv.new (now : Int) (sessions : List Session) (messages : List Message) :
    Inv (Server.new now sessions messages : Server W) where
  exclusive := exclusive_nil
  locked _ _ _ h := by cases h
  single _ _ := Nat.zero_le _
  capped _ := Nat.zero_le _
  sound _ _ h := by cases h

variable {s s' : Server W} {w : W}

theorem Inv.goto (hi : Inv s) {p : Place} (hlock : ∀ userId, p.lock = some userId → (userId, w) ∈ s.locks)
    (hp : p.Sound s.rows) : Inv (s.goto w p) where
  exclusive := hi.exclusive
  locked := by
    intro w' p' userId h hp'
    rcases put_cases h with ⟨rfl, hmoved⟩ | ⟨_, hthere⟩
    · exact hlock userId ((Option.some.inj hmoved) ▸ hp')
    · exact hi.locked w' p' userId hthere hp'
  single := hi.single
  capped := hi.capped
  sound := forall_put hi.sound (forall_moved hp)

theorem Inv.close (hi : Inv s) (w : W) (reply : Option Reply) : Inv (s.close w reply) where
  exclusive := hi.exclusive.release w
  locked := by
    intro w' p' userId h hp'
    rcases put_cases h with ⟨-, hgone⟩ | ⟨hne, hthere⟩
    · cases hgone
    · exact mem_release hne (hi.locked w' p' userId hthere hp')
  single := hi.single
  capped := hi.capped
  sound := forall_put hi.sound forall_gone

omit [DecidableEq W] in
/-- The shares change under requests that have found out what they have. -/
theorem Inv.withRows (hi : Inv s) {rows : List SharedAnswer}
    (hsingle : ∀ userId messageId, rows.countP (·.liveOf userId messageId) ≤ 1)
    (hcapped : ∀ userId, rows.countP (·.live userId) ≤ maxLiveShares)
    (hsound : ∀ w p, s.places w = some p → p.Sound rows) : Inv { s with rows := rows } :=
  { hi with single := hsingle, capped := hcapped, sound := hsound }

theorem Inv.lock (hi : Inv s) {userId : Str} (hfree : free s.locks userId w = true) :
    Inv { s with locks := acquire s.locks userId w } :=
  { hi with
    exclusive := hi.exclusive.acquire hfree
    locked := fun w' p' userId' h hp' => mem_acquire (hi.locked w' p' userId' h hp') }

theorem Inv.advance (hi : Inv s) {p : Place} (hw : s.places w = some p) (h : s.advance w p = some s') :
    Inv s' := by
  have hthere := hi.sound w p hw
  cases p with
  | loading r =>
    simp only [Server.advance] at h
    split at h
    · cases h
      exact hi.close w _
    · split at h
      · cases h
        exact hi.close w _
      · cases h
        exact hi.goto (fun _ h => by cases h) trivial
  | locking r answer =>
    simp only [Server.advance] at h
    split at h
    · rename_i hfree
      cases h
      refine (hi.lock hfree).goto (p := .looking r answer) ?_ trivial
      intro userId hp
      cases hp
      exact acquired s.locks r.userId w
    · cases h
  | looking r answer =>
    simp only [Server.advance] at h
    split at h
    · rename_i hnone
      cases h
      refine hi.goto (fun userId hp => hi.locked w _ userId hw hp) ?_
      show s.rows.countP _ = 0
      rw [List.countP_eq_length_filter, hnone]
      rfl
    · cases h
      exact hi.close w _
    · cases h
      exact hi.close w _
  | counting r answer =>
    simp only [Server.advance] at h
    split at h
    · cases h
      exact hi.close w _
    · rename_i hroom
      cases h
      exact hi.goto (fun userId hp => hi.locked w _ userId hw hp) ⟨hthere, not_le.mp hroom⟩
  | asking r answer =>
    simp only [Server.advance] at h
    cases h
    exact hi.goto (fun userId hp => hi.locked w _ userId hw hp) hthere
  | inserting r answer question => cases h
  | revoking shareId => cases h

/-- A new share counts for its account and its message. -/
theorem countP_newRow (now : Int) (r : Request) (answer : Message) (question shareId : Str)
    (rows : List SharedAnswer) (userId : Str) (messageId : Nat) :
    (newRow now r answer question shareId :: rows).countP (·.liveOf userId messageId) =
        rows.countP (·.liveOf userId messageId) + (if r.userId = userId ∧ r.messageId = messageId then 1 else 0) ∧
      (newRow now r answer question shareId :: rows).countP (·.live userId) =
        rows.countP (·.live userId) + (if r.userId = userId then 1 else 0) := by
  constructor
  · rw [List.countP_cons]
    by_cases huser : r.userId = userId <;> by_cases hmessage : r.messageId = messageId <;>
      simp [SharedAnswer.liveOf, SharedAnswer.live, newRow, huser, hmessage]
  · rw [List.countP_cons]
    by_cases huser : r.userId = userId <;> simp [SharedAnswer.live, newRow, huser]

theorem Inv.insert (hi : Inv s) {r : Request} {answer : Message} {question : Str}
    (hw : s.places w = some (.inserting r answer question)) (shareId : Str) (reply : Option Reply) :
    Inv { s.close w reply with rows := newRow s.now r answer question shareId :: s.rows } := by
  obtain ⟨hnone, hroom⟩ := hi.sound w _ hw
  have hcount := countP_newRow s.now r answer question shareId s.rows
  refine (hi.close w reply).withRows ?_ ?_ ?_
  · intro userId messageId
    rw [(hcount userId messageId).1]
    split
    · rename_i hsame
      rw [← hsame.1, ← hsame.2, hnone]
    · exact hi.single userId messageId
  · intro userId
    rw [(hcount userId 0).2]
    split
    · rename_i hsame
      rw [← hsame]
      exact hroom
    · exact hi.capped userId
  · intro w' p' h
    rcases put_cases h with ⟨-, hgone⟩ | ⟨hne, hthere⟩
    · cases hgone
    · -- another request has locked another account
      have hother : ∀ userId, p'.lock = some userId → r.userId ≠ userId := by
        rintro userId hp' rfl
        exact hne (hi.exclusive _ _ _ (hi.locked w' p' _ hthere hp') (hi.locked w _ _ hw rfl))
      refine (hi.sound w' p' hthere).mono ?_ ?_
      · intro userId messageId hp'
        rw [(hcount userId messageId).1, if_neg fun hsame => hother userId hp' hsame.1, Nat.add_zero]
      · intro userId hp'
        rw [(hcount userId 0).2, if_neg (hother userId hp'), Nat.add_zero]

/-- A revocation makes no share live. -/
theorem countP_revokedRows (rows : List SharedAnswer) (shareId : Str) (now : Int) (userId : Str) (messageId : Nat) :
    (revokedRows rows shareId now).countP (·.liveOf userId messageId) ≤
        rows.countP (·.liveOf userId messageId) ∧
      (revokedRows rows shareId now).countP (·.live userId) ≤ rows.countP (·.live userId) := by
  rw [revokedRows, List.countP_map, List.countP_map]
  constructor
  · refine List.countP_mono_left fun row _ h => ?_
    simp only [Function.comp_apply] at h
    split at h
    · simp [SharedAnswer.liveOf, SharedAnswer.live] at h
    · exact h
  · refine List.countP_mono_left fun row _ h => ?_
    simp only [Function.comp_apply] at h
    split at h
    · simp [SharedAnswer.live] at h
    · exact h

theorem Inv.revoke (hi : Inv s) (w : W) (shareId : Str) (reply : Option Reply) :
    Inv { s.close w reply with rows := revokedRows s.rows shareId s.now } := by
  have hcount := countP_revokedRows s.rows shareId s.now
  have hclosed := hi.close w reply
  exact hclosed.withRows (fun userId messageId => (hcount userId messageId).1.trans (hi.single userId messageId))
    (fun userId => (hcount userId 0).2.trans (hi.capped userId))
    fun w' p' h => (hclosed.sound w' p' h).mono (fun userId messageId _ => (hcount userId messageId).1)
      fun userId _ => (hcount userId 0).2

theorem Inv.step {l : Label W} (hi : Inv s) (h : step s l = some s') : Inv s' := by
  cases l with
  | tick elapsed =>
    cases h
    exact { hi with }
  | post m =>
    cases h
    exact { hi with }
  | share w r =>
    simp only [Shares.step] at h
    split at h
    · cases h
    · split at h
      · cases h
        exact hi.goto (fun _ h => by cases h) trivial
      · cases h
        exact hi.close w _
  | advance w =>
    obtain ⟨p, hw, hadvance⟩ := Option.bind_eq_some_iff.mp h
    exact hi.advance hw hadvance
  | insert w shareId replied =>
    simp only [Shares.step] at h
    split at h
    · rename_i r answer question hw
      split at h
      · cases h
        exact hi.close w _
      · cases h
        exact hi.insert hw shareId _
    · cases h
  | revoke w userId shareId =>
    simp only [Shares.step] at h
    split at h
    · cases h
    · split at h
      · cases h
        exact hi.goto (fun _ h => by cases h) trivial
      · cases h
        exact hi.close w _
  | commit w =>
    simp only [Shares.step] at h
    split at h
    · rename_i shareId hw
      cases h
      exact hi.revoke w shareId _
    · cases h
  | fail w =>
    simp only [Shares.step] at h
    split at h
    · cases h
      exact hi.close w _
    · cases h

omit [DecidableEq W] in
/-- The one live share of a message is what the select finds. -/
theorem Inv.found (hi : Inv s) {userId : Str} {messageId : Nat} {row : SharedAnswer} (hrow : row ∈ s.rows)
    (hlive : row.liveOf userId messageId = true) : s.rows.filter (·.liveOf userId messageId) = [row] := by
  have hmem : row ∈ s.rows.filter (·.liveOf userId messageId) := List.mem_filter.mpr ⟨hrow, hlive⟩
  have hlength : (s.rows.filter (·.liveOf userId messageId)).length ≤ 1 := by
    rw [← List.countP_eq_length_filter]
    exact hi.single userId messageId
  obtain ⟨found, hfound⟩ := List.length_eq_one_iff.mp (le_antisymm hlength (List.length_pos_of_mem hmem))
  rw [hfound] at hmem ⊢
  rw [List.mem_singleton.mp hmem]

/-! ## Live shares -/

/-- In every run an account has at most one live share of a message and at most
`maxLiveShares` of them; a request that looks for the live share of a message answers
with it, and a share is made only where there is none. -/
theorem live_shares {now : Int} {sessions : List Session} {messages : List Message} {ls : List (Label W)}
    (h : exec step (Server.new now sessions messages) ls = some s) :
    (∀ userId messageId, s.rows.countP (·.liveOf userId messageId) ≤ 1) ∧
    (∀ userId, s.rows.countP (·.live userId) ≤ maxLiveShares) ∧
    (∀ w r answer row s', s.places w = some (.looking r answer) → row ∈ s.rows →
      row.liveOf r.userId r.messageId = true → step s (.advance w) = some s' →
      s'.rows = s.rows ∧ s'.replies = (w, .existing row.shareId) :: s.replies) ∧
    ∀ w r answer question, s.places w = some (.inserting r answer question) →
      s.rows.countP (·.liveOf r.userId r.messageId) = 0 := by
  have hall : Along step (fun _ _ => True) (Server.new now sessions messages) ls :=
    along_of_mem ls _ fun _ _ _ => trivial
  have hi : Inv s := exec_invariant (fun _ _ _ hi _ h => hi.step h) (Inv.new now sessions messages) hall h
  refine ⟨hi.single, hi.capped, ?_, ?_⟩
  · intro w r answer row s' hw hrow hlive hstep
    rw [step, hw, Option.bind_some, Server.advance, hi.found hrow hlive] at hstep
    cases hstep
    exact ⟨rfl, rfl⟩
  · intro w r answer question hw
    exact (hi.sound w _ hw).1

def exampleRequest : Request := ⟨"usr_1".toList, 1, 2⟩

def exampleMessages : List Message :=
  [⟨1, 1, .user, "How much?".toList, none, 0⟩,
    ⟨2, 1, .assistant, "Five [1].".toList, some [⟨"docs", "Pricing", "https://example.com", "c1", none, 1⟩], 1⟩]

def exampleShareId : Str := List.replicate 32 '0'

/-- One answer is shared twice at once: the second request waits for the lock. -/
def sharedTwice : List (Label Nat) :=
  [.share 0 exampleRequest, .share 1 exampleRequest, .advance 0, .advance 1, .advance 0, .advance 0, .advance 0,
    .advance 0, .insert 0 exampleShareId true, .advance 1, .advance 1]

theorem live_shares_sharedTwice :
    ∃ s, exec step (Server.new 0 [⟨1, "usr_1".toList, 10⟩] exampleMessages) sharedTwice = some s ∧
      s.replies = [(1, .existing exampleShareId), (0, .created exampleShareId)] ∧
      (∀ userId messageId, s.rows.countP (·.liveOf userId messageId) ≤ 1) ∧
      ∀ userId, s.rows.countP (·.live userId) ≤ maxLiveShares := by
  have hrun : ∃ s ∈ exec step (Server.new 0 [⟨1, "usr_1".toList, 10⟩] exampleMessages) sharedTwice,
      s.replies = [(1, .existing exampleShareId), (0, .created exampleShareId)] := by
    decide +kernel
  obtain ⟨s, hs, hreplies⟩ := hrun
  obtain ⟨hsingle, hcapped, -⟩ := live_shares hs
  exact ⟨s, hs, hreplies, hsingle, hcapped⟩

end CiteVyn.Api.Shares
