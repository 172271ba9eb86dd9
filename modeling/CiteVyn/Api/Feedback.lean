import CiteVyn.Api.Shares
import CiteVyn.Lib.OwnerLocks

/-! # Votes on answers

`put_feedback` of `app/api/routes/feedback.py`. Each statement of a transaction sees what
has been committed by then; an update writes the columns that differ from the row as it
was loaded. -/
namespace CiteVyn.Api.Feedback
open CiteVyn.Api.Shares (MessageRole Session)
open CiteVyn.Lib.OwnerLocks CiteVyn.Lib.Runs CiteVyn.Lib.Threads CiteVyn.Text

inductive Rating where
  | up
  | down
  deriving DecidableEq, Repr

inductive FeedbackReason where
  | wrong
  | outdated
  | missingSource
  | unclear
  | other
  deriving DecidableEq, Repr

/-- The body of a request. -/
structure Body where
  rating : Rating
  reason : Option FeedbackReason
  comment : Option Str
  deriving DecidableEq, Repr

/-- `FeedbackRequest`: a reason explains a thumbs-down. -/
structure FeedbackRequest extends Body where
  explains : reason.isSome → rating = .down
  short : ∀ text ∈ comment, text.length ≤ 1000
  deriving DecidableEq, Repr

def Body.validate (body : Body) : Option FeedbackRequest :=
  if h : (body.reason.isSome → body.rating = .down) ∧ ∀ text ∈ body.comment, text.length ≤ 1000 then
    some { body with explains := h.1, short := h.2 }
  else none

/-! ## Rows -/

/-- `Message`. -/
structure Message where
  messageId : Nat
  sessionId : Nat
  role : MessageRole
  deriving DecidableEq, Repr

/-- What the votes are unique by. -/
structure Key where
  messageId : Nat
  userId : Str
  deriving DecidableEq, Repr

structure AnswerFeedback where
  feedbackId : Nat
  key : Key
  rating : Rating
  reason : Option FeedbackReason
  comment : Option Str
  createdAt : Int
  updatedAt : Int
  deriving DecidableEq, Repr

/-- A vote, with the time at which it was let in. -/
structure Vote where
  key : Key
  body : FeedbackRequest
  now : Int
  deriving DecidableEq, Repr

def Vote.row (v : Vote) (feedbackId : Nat) : AnswerFeedback where
  feedbackId := feedbackId
  key := v.key
  rating := v.body.rating
  reason := v.body.reason
  comment := v.body.comment
  createdAt := v.now
  updatedAt := v.now

/-- A column after an update: one that is set to what was loaded is not written. -/
def column {A : Type} [DecidableEq A] (loaded value stored : A) : A := if value = loaded then stored else value

/-- A row after the update of one that has loaded it. -/
def AnswerFeedback.update (row loaded : AnswerFeedback) (v : Vote) : AnswerFeedback :=
  { row with
    rating := column loaded.rating v.body.rating row.rating
    reason := column loaded.reason v.body.reason row.reason
    comment := column loaded.comment v.body.comment row.comment
    updatedAt := column loaded.updatedAt v.now row.updatedAt }

/-! ## Requests -/

/-- Where a request is, by the statement that comes next. -/
inductive Place where
  /-- `require_message` -/
  | loading (sessionId : Nat) (key : Key) (body : FeedbackRequest)
  /-- `_find_vote` -/
  | finding (v : Vote)
  /-- the insert and the commit -/
  | inserting (v : Vote)
  /-- the insert has been refused: `_find_vote` again -/
  | refused (v : Vote)
  /-- the update and the commit -/
  | updating (v : Vote) (loaded : AnswerFeedback)
  deriving DecidableEq, Repr

inductive Reply where
  | rated (messageId : Nat) (rating : Rating) (reason : Option FeedbackReason)
  | notFound
  | validationError
  /-- 500: no vote, more than one, or one that is gone before the update -/
  | raised
  deriving DecidableEq, Repr

structure Server (W : Type) where
  now : Int
  users : List Str
  sessions : List Session
  messages : List Message
  votes : List AnswerFeedback
  /-- the ids of users so far -/
  known : List Str
  /-- the ids of messages so far -/
  posted : List Nat
  /-- the ids of votes so far -/
  drawn : List Nat
  places : W → Option Place
  replies : List (W × Reply)

inductive Label (W : Type) where
  | tick (elapsed : Nat)
  | register (userId : Str)
  | chat (c : Session)
  | post (m : Message)
  /-- a login takes over the sessions of an anonymous principal -/
  | claim (anonymous userId : Str)
  | deleteAccount (userId : Str)
  /-- a vote comes in: `require_session` -/
  | put (w : W) (sessionId : Nat) (key : Key) (body : Body)
  /-- a statement that needs nothing from outside -/
  | advance (w : W)
  /-- the insert and the commit, with the id drawn -/
  | insert (w : W) (feedbackId : Nat)
  /-- the database fails, or the request is cancelled -/
  | fail (w : W)

variable {W : Type} [DecidableEq W]

def Server.goto (s : Server W) (w : W) (p : Place) : Server W := { s with places := put s.places w (some p) }

def Server.close (s : Server W) (w : W) (reply : Reply) : Server W :=
  { s with places := put s.places w none, replies := (w, reply) :: s.replies }

/-- The foreign keys of a vote. -/
def Server.There (s : Server W) (key : Key) : Prop :=
  key.userId ∈ s.users ∧ ∃ m ∈ s.messages, m.messageId = key.messageId

instance (s : Server W) (key : Key) : Decidable (s.There key) :=
  inferInstanceAs (Decidable (key.userId ∈ s.users ∧ ∃ m ∈ s.messages, m.messageId = key.messageId))

/-- `_find_vote`. -/
def Server.findVote (s : Server W) (key : Key) : List AnswerFeedback := rowsOf AnswerFeedback.key s.votes key

def Vote.reply (v : Vote) : Reply := .rated v.key.messageId v.body.rating v.body.reason

/-- The commit of an update. -/
def Server.update (s : Server W) (w : W) (v : Vote) (loaded : AnswerFeedback) : Server W :=
  if loaded.update loaded v = loaded then s.close w v.reply
  else if s.votes.any fun row => row.feedbackId = loaded.feedbackId then
    { s.close w v.reply with
      votes := s.votes.map fun row => if row.feedbackId = loaded.feedbackId then row.update loaded v else row }
  else s.close w .raised

/-- The next statement of `put_feedback`. -/
def Server.advance (s : Server W) (w : W) : Place → Option (Server W)
  | .loading sessionId key body =>
    match s.messages.find? fun m => m.messageId = key.messageId ∧ m.sessionId = sessionId with
    | none => some (s.close w .notFound)
    | some m =>
      if m.role = .assistant then some (s.goto w (.finding ⟨key, body, s.now⟩))
      else some (s.close w .validationError)
  | .finding v =>
    match s.findVote v.key with
    | [] => some (s.goto w (.inserting v))
    | [row] => some (s.goto w (.updating v row))
    | _ => some (s.close w .raised)
  | .refused v =>
    match s.findVote v.key with
    | [row] => some (s.goto w (.updating v row))
    | _ => some (s.close w .raised)
  | .updating v loaded => some (s.update w v loaded)
  | .inserting _ => none

/-- The sessions that go with an account, their messages, and the votes of either. -/
def Server.deleteAccount (s : Server W) (userId : Str) : Server W :=
  let gone := (s.sessions.filter fun c => c.userId = userId).map Session.sessionId
  let messages := s.messages.filter fun m => m.sessionId ∉ gone
  { s with
    users := s.users.filter (· ≠ userId)
    sessions := s.sessions.filter fun c => c.userId ≠ userId
    messages := messages
    votes := s.votes.filter fun row => row.key.userId ≠ userId ∧ row.key.messageId ∈ messages.map Message.messageId }

def step (s : Server W) : Label W → Option (Server W)
  | .tick elapsed => some { s with now := s.now + elapsed }
  | .register userId =>
    if userId ∈ s.known then none else some { s with users := userId :: s.users, known := userId :: s.known }
  | .chat c =>
    if c.userId ∈ s.users ∧ c.sessionId ∉ s.sessions.map Session.sessionId then
      some { s with sessions := c :: s.sessions }
    else none
  | .post m =>
    if m.sessionId ∈ s.sessions.map Session.sessionId ∧ m.messageId ∉ s.posted then
      some { s with messages := m :: s.messages, posted := m.messageId :: s.posted }
    else none
  | .claim anonymous userId =>
    if userId ∈ s.users then
      some { s with
        sessions := s.sessions.map fun c => if c.userId = anonymous then { c with userId := userId } else c }
    else none
  | .deleteAccount userId => some (s.deleteAccount userId)
  | .put w sessionId key body =>
    match s.places w with
    | some _ => none
    | none =>
      match body.validate with
      | none => some (s.close w .validationError)
      | some body =>
        if s.sessions.any fun c => c.sessionId = sessionId ∧ c.userId = key.userId ∧ s.now < c.expiresAt then
          some (s.goto w (.loading sessionId key body))
        else some (s.close w .notFound)
  | .advance w => (s.places w).bind (s.advance w)
  | .insert w feedbackId =>
    match s.places w with
    | some (.inserting v) =>
      if feedbackId ∈ s.drawn then none
      else if s.There v.key ∧ s.findVote v.key = [] then
        some { s.close w v.reply with votes := v.row feedbackId :: s.votes, drawn := feedbackId :: s.drawn }
      else some { s.goto w (.refused v) with drawn := feedbackId :: s.drawn }
    | _ => none
  | .fail w =>
    match s.places w with
    | some _ => some { s with places := put s.places w none }
    | none => none

/-- Nobody yet. -/
def Server.new (now : Int) : Server W := ⟨now, [], [], [], [], [], [], [], idle, []⟩

/-! ## What a step comes to -/

def Place.key : Place → Key
  | .loading _ key _ => key
  | .finding v | .inserting v | .refused v | .updating v _ => v.key

/-- The steps, with what each finds and what it leaves. -/
inductive Turn (s : Server W) : Label W → Server W → Prop where
  | tick (elapsed : Nat) : Turn s (.tick elapsed) { s with now := s.now + elapsed }
  | register {userId} (hnew : userId ∉ s.known) :
    Turn s (.register userId) { s with users := userId :: s.users, known := userId :: s.known }
  | chat {c} (huser : c.userId ∈ s.users) : Turn s (.chat c) { s with sessions := c :: s.sessions }
  | post {m} (hnew : m.messageId ∉ s.posted) :
    Turn s (.post m) { s with messages := m :: s.messages, posted := m.messageId :: s.posted }
  | claim {userId} (anonymous : Str) (huser : userId ∈ s.users) :
    Turn s (.claim anonymous userId)
      { s with sessions := s.sessions.map fun c => if c.userId = anonymous then { c with userId := userId } else c }
  | delete (userId : Str) : Turn s (.deleteAccount userId) (s.deleteAccount userId)
  | declines {l} (w : W) {reply : Reply} (hraised : reply ≠ .raised)
    (hrated : ∀ messageId rating reason, reply ≠ .rated messageId rating reason) : Turn s l (s.close w reply)
  | loads {w sessionId key} {body : Body} {c : Session} {request : FeedbackRequest} (hw : s.places w = none)
    (hbody : request.toBody = body) (hc : c ∈ s.sessions) (howner : c.userId = key.userId) :
    Turn s (.put w sessionId key body) (s.goto w (.loading sessionId key request))
  | lets {w sessionId key body m} (hw : s.places w = some (.loading sessionId key body)) (hm : m ∈ s.messages)
    (hkey : m.messageId = key.messageId) (hrole : m.role = .assistant) :
    Turn s (.advance w) (s.goto w (.finding ⟨key, body, s.now⟩))
  | misses {w v} (hw : s.places w = some (.finding v)) (hnone : s.findVote v.key = []) :
    Turn s (.advance w) (s.goto w (.inserting v))
  | meets {w v row} (hw : s.places w = some (.finding v) ∨ s.places w = some (.refused v))
    (hrow : s.findVote v.key = [row]) : Turn s (.advance w) (s.goto w (.updating v row))
  | doubles {w v} (hw : s.places w = some (.finding v) ∨ s.places w = some (.refused v))
    (hmany : s.findVote v.key = [] → s.places w = some (.refused v))
    (hrow : ∀ row, s.findVote v.key ≠ [row]) : Turn s (.advance w) (s.close w .raised)
  | keeps {w v loaded} (hw : s.places w = some (.updating v loaded)) (hsame : loaded.update loaded v = loaded) :
    Turn s (.advance w) (s.close w v.reply)
  | writes {w v loaded} (hw : s.places w = some (.updating v loaded)) :
    Turn s (.advance w)
      { s.close w v.reply with
        votes := s.votes.map fun row => if row.feedbackId = loaded.feedbackId then row.update loaded v else row }
  | strays {w v loaded} (hw : s.places w = some (.updating v loaded))
    (hgone : ∀ row ∈ s.votes, row.feedbackId ≠ loaded.feedbackId) : Turn s (.advance w) (s.close w .raised)
  | inserts {w v feedbackId} (hw : s.places w = some (.inserting v)) (hnew : feedbackId ∉ s.drawn) (hthere : s.There v.key)
    (hnone : s.findVote v.key = []) :
    Turn s (.insert w feedbackId)
      { s.close w v.reply with votes := v.row feedbackId :: s.votes, drawn := feedbackId :: s.drawn }
  | refuses {w v feedbackId} (hw : s.places w = some (.inserting v)) (hno : s.There v.key → s.findVote v.key ≠ []) :
    Turn s (.insert w feedbackId) { s.goto w (.refused v) with drawn := feedbackId :: s.drawn }
  | fails (w : W) : Turn s (.fail w) { s with places := put s.places w none }

section
variable {s s' : Server W} {l : Label W} {w : W}

theorem Body.validate_some {body : Body} {request : FeedbackRequest} (h : body.validate = some request) :
    request.toBody = body := by
  unfold Body.validate at h
  split at h
  · cases h
    rfl
  · cases h

theorem Turn.declined (w : W) {reply : Reply} (h : reply = .notFound ∨ reply = .validationError) :
    Turn s l (s.close w reply) := by
  rcases h with rfl | rfl
  · exact .declines w (fun heq => by cases heq) fun _ _ _ heq => by cases heq
  · exact .declines w (fun heq => by cases heq) fun _ _ _ heq => by cases heq

theorem advance_turn {p : Place} (hw : s.places w = some p) (h : s.advance w p = some s') : Turn s (.advance w) s' := by
  cases p with
  | loading sessionId key body =>
    simp only [Server.advance] at h
    split at h
    · cases h
      exact .declined w (.inl rfl)
    · rename_i m hm
      have hkey := of_decide_eq_true
        (List.find?_some (p := fun m : Message => m.messageId = key.messageId ∧ m.sessionId = sessionId) hm)
      split at h
      · rename_i hrole
        cases h
        exact .lets hw (List.mem_of_find?_eq_some hm) hkey.1 hrole
      · cases h
        exact .declined w (.inr rfl)
  | finding v =>
    simp only [Server.advance] at h
    split at h
    · rename_i hnone
      cases h
      exact .misses hw hnone
    · rename_i row hrow
      cases h
      exact .meets (.inl hw) hrow
    · rename_i hnone hrow
      cases h
      exact .doubles (.inl hw) (fun heq => absurd heq hnone) hrow
  | refused v =>
    simp only [Server.advance] at h
    split at h
    · rename_i row hrow
      cases h
      exact .meets (.inr hw) hrow
    · rename_i hrow
      cases h
      exact .doubles (.inr hw) (fun _ => hw) hrow
  | updating v loaded =>
    obtain rfl := Option.some.inj h
    unfold Server.update
    split
    · rename_i hsame
      exact .keeps hw hsame
    · split
      · exact .writes hw
      · rename_i hgone
        exact .strays hw fun row hrow heq => hgone (List.any_eq_true.mpr ⟨row, hrow, decide_eq_true heq⟩)
  | inserting v => cases h

theorem step_turn (h : step s l = some s') : Turn s l s' := by
  cases l with
  | tick elapsed =>
    cases h
    exact .tick elapsed
  | register userId =>
    simp only [step] at h
    split at h
    · cases h
    · rename_i hnew
      cases h
      exact .register hnew
  | chat c =>
    simp only [step] at h
    split at h
    · rename_i hc
      cases h
      exact .chat hc.1
    · cases h
  | post m =>
    simp only [step] at h
    split at h
    · rename_i hm
      cases h
      exact .post hm.2
    · cases h
  | claim anonymous userId =>
    simp only [step] at h
    split at h
    · rename_i huser
      cases h
      exact .claim anonymous huser
    · cases h
  | deleteAccount userId =>
    cases h
    exact .delete userId
  | put w sessionId key body =>
    simp only [step] at h
    split at h
    · cases h
    · rename_i hw
      split at h
      · cases h
        exact .declined w (.inr rfl)
      · rename_i request hbody
        split at h
        · rename_i hsession
          cases h
          obtain ⟨c, hc, hmatch⟩ := List.any_eq_true.mp hsession
          exact .loads hw (Body.validate_some hbody) hc (of_decide_eq_true hmatch).2.1
        · cases h
          exact .declined w (.inl rfl)
  | advance w =>
    obtain ⟨p, hw, hadvance⟩ := Option.bind_eq_some_iff.mp h
    exact advance_turn hw hadvance
  | insert w feedbackId =>
    simp only [step] at h
    split at h
    · rename_i v hw
      split at h
      · cases h
      · rename_i hnew
        split at h
        · rename_i hfree
          cases h
          exact .inserts hw hnew hfree.1 hfree.2
        · rename_i htaken
          cases h
          exact .refuses hw fun hthere hnone => htaken ⟨hthere, hnone⟩
    · cases h
  | fail w =>
    simp only [step] at h
    split at h
    · cases h
      exact .fails w
    · cases h

end

/-! ## One vote of an account on an answer -/

/-- The message, while it is there, is an answer. -/
def Server.Answers (s : Server W) (messageId : Nat) : Prop :=
  ∀ m ∈ s.messages, m.messageId = messageId → m.role = .assistant

/-- A request has found the account and the answer. -/
structure Server.Found (s : Server W) (key : Key) : Prop where
  user : key.userId ∈ s.known
  message : key.messageId ∈ s.posted
  answer : s.Answers key.messageId

/-- What a request has found stays so while the account and the answer are there. -/
def Place.Sound (s : Server W) : Place → Prop
  | .loading _ key _ => key.userId ∈ s.known
  | .finding v | .inserting v => s.Found v.key
  | .refused v => s.Found v.key ∧ (s.There v.key → ∃ row ∈ s.votes, row.key = v.key)
  | .updating v loaded =>
    s.Found v.key ∧ (s.There v.key → ∃ row ∈ s.votes, row.key = v.key ∧ row.feedbackId = loaded.feedbackId) ∧
      loaded.feedbackId ∈ s.drawn ∧ ∀ row ∈ s.votes, row.feedbackId = loaded.feedbackId → row.key = v.key

structure Inv (s : Server W) : Prop where
  known : ∀ userId ∈ s.users, userId ∈ s.known
  owners : ∀ c ∈ s.sessions, c.userId ∈ s.known
  posted : ∀ m ∈ s.messages, m.messageId ∈ s.posted
  distinct : (s.messages.map Message.messageId).Nodup
  keys : (s.votes.map AnswerFeedback.key).Nodup
  ids : (s.votes.map AnswerFeedback.feedbackId).Nodup
  drawn : ∀ row ∈ s.votes, row.feedbackId ∈ s.drawn
  about : ∀ row ∈ s.votes, s.There row.key ∧ s.Answers row.key.messageId
  places : ∀ w p, s.places w = some p → p.Sound s

/-- Nothing that is gone comes back, and a row goes with its account or its answer only. -/
structure Kept (s s' : Server W) : Prop where
  known : s.known ⊆ s'.known
  posted : s.posted ⊆ s'.posted
  drawn : s.drawn ⊆ s'.drawn
  users : ∀ userId ∈ s'.users, userId ∈ s.users ∨ userId ∉ s.known
  messages : ∀ m ∈ s'.messages, m ∈ s.messages ∨ m.messageId ∉ s.posted
  votes : ∀ row ∈ s.votes, s'.There row.key → ∃ row' ∈ s'.votes, row'.key = row.key ∧ row'.feedbackId = row.feedbackId
  rows : ∀ row' ∈ s'.votes, row'.feedbackId ∈ s.drawn →
    ∃ row ∈ s.votes, row'.key = row.key ∧ row'.feedbackId = row.feedbackId

section
variable {s s' : Server W} {l : Label W} {w : W}

omit [DecidableEq W] in
theorem Kept.refl (s : Server W) : Kept s s where
  known _ h := h
  posted _ h := h
  drawn _ h := h
  users _ h := .inl h
  messages _ h := .inl h
  votes row hrow _ := ⟨row, hrow, rfl, rfl⟩
  rows row hrow _ := ⟨row, hrow, rfl, rfl⟩

omit [DecidableEq W] in
theorem Kept.there (hk : Kept s s') {key : Key} (hf : s.Found key) (h : s'.There key) : s.There key := by
  obtain ⟨huser, m, hm, hkey⟩ := h
  refine ⟨(hk.users _ huser).resolve_right fun hnew => hnew hf.user, ?_⟩
  rcases hk.messages m hm with hold | hnew
  · exact ⟨m, hold, hkey⟩
  · exact absurd (hkey ▸ hf.message) hnew

omit [DecidableEq W] in
theorem Kept.found (hk : Kept s s') {key : Key} (hf : s.Found key) : s'.Found key where
  user := hk.known hf.user
  message := hk.posted hf.message
  answer m hm hkey := by
    rcases hk.messages m hm with hold | hnew
    · exact hf.answer m hold hkey
    · exact absurd (hkey ▸ hf.message) hnew

omit [DecidableEq W] in
theorem Kept.sound (hk : Kept s s') {p : Place} (hp : p.Sound s) : p.Sound s' := by
  cases p with
  | loading sessionId key body => exact hk.known hp
  | finding v => exact hk.found hp
  | inserting v => exact hk.found hp
  | refused v =>
    refine ⟨hk.found hp.1, fun hthere => ?_⟩
    obtain ⟨row, hrow, hkey⟩ := hp.2 (hk.there hp.1 hthere)
    obtain ⟨row', hrow', hkey', -⟩ := hk.votes row hrow (hkey ▸ hthere)
    exact ⟨row', hrow', hkey'.trans hkey⟩
  | updating v loaded =>
    obtain ⟨hfound, hrow, hdrawn, honly⟩ := hp
    refine ⟨hk.found hfound, fun hthere => ?_, hk.drawn hdrawn, fun row' hrow' hid' => ?_⟩
    · obtain ⟨row, hrow, hkey, hid⟩ := hrow (hk.there hfound hthere)
      obtain ⟨row', hrow', hkey', hid'⟩ := hk.votes row hrow (hkey ▸ hthere)
      exact ⟨row', hrow', hkey'.trans hkey, hid'.trans hid⟩
    · obtain ⟨row, hrow, hkey, hid⟩ := hk.rows row' hrow' (hid' ▸ hdrawn)
      exact hkey.trans (honly row hrow (hid.symm.trans hid'))

theorem Inv.goto (hi : Inv s) {p : Place} (hp : p.Sound s) : Inv (s.goto w p) :=
  have hkept : Kept s (s.goto w p) := { Kept.refl s with }
  { hi with places := forall_put (fun w' p' hp' => hkept.sound (hi.places w' p' hp')) (forall_moved (hkept.sound hp)) }

/-- A request ends. -/
theorem Inv.leave (hi : Inv s) (w : W) (replies : List (W × Reply)) :
    Inv { s with places := put s.places w none, replies := replies } :=
  have hkept : Kept s { s with places := put s.places w none, replies := replies } := { Kept.refl s with }
  { hi with places := forall_put (fun w' p' hp' => hkept.sound (hi.places w' p' hp')) forall_gone }

omit [DecidableEq W] in
theorem mem_findVote {key : Key} {row : AnswerFeedback} : row ∈ s.findVote key ↔ row ∈ s.votes ∧ row.key = key :=
  mem_rowsOf

omit [DecidableEq W] in
/-- An update of rows leaves them with their ids and keys. -/
theorem kept_update {f : AnswerFeedback → AnswerFeedback} (hid : ∀ row, (f row).feedbackId = row.feedbackId)
    (hkey : ∀ row, (f row).key = row.key) (places : W → Option Place) (replies : List (W × Reply)) :
    Kept s { s with votes := s.votes.map f, places := places, replies := replies } :=
  { Kept.refl s with
    votes := fun row hrow _ => ⟨f row, List.mem_map_of_mem hrow, hkey row, hid row⟩
    rows := List.forall_mem_map.mpr fun row hrow _ => ⟨row, hrow, hkey row, hid row⟩ }

omit [DecidableEq W] in
theorem kept_insert (row : AnswerFeedback) (hnew : row.feedbackId ∉ s.drawn) (places : W → Option Place)
    (replies : List (W × Reply)) :
    Kept s { s with votes := row :: s.votes, drawn := row.feedbackId :: s.drawn, places := places, replies := replies } :=
  { Kept.refl s with
    drawn := List.subset_cons_self _ _
    votes := fun row hrow _ => ⟨row, List.mem_cons_of_mem _ hrow, rfl, rfl⟩
    rows := List.forall_mem_cons.mpr ⟨fun hdrawn => absurd hdrawn hnew, fun row hrow _ => ⟨row, hrow, rfl, rfl⟩⟩ }

omit [DecidableEq W] in
theorem kept_draw (feedbackId : Nat) (places : W → Option Place) :
    Kept s { s with drawn := feedbackId :: s.drawn, places := places } :=
  { Kept.refl s with
    drawn := List.subset_cons_self _ _
    rows := fun row hrow _ => ⟨row, hrow, rfl, rfl⟩ }

omit [DecidableEq W] in
theorem kept_register {userId : Str} (hnew : userId ∉ s.known) :
    Kept s { s with users := userId :: s.users, known := userId :: s.known } :=
  { Kept.refl s with
    known := List.subset_cons_self _ _
    users := List.forall_mem_cons.mpr ⟨.inr hnew, fun _ h => .inl h⟩
    votes := fun row hrow _ => ⟨row, hrow, rfl, rfl⟩ }

omit [DecidableEq W] in
theorem kept_post {m : Message} (hnew : m.messageId ∉ s.posted) :
    Kept s { s with messages := m :: s.messages, posted := m.messageId :: s.posted } :=
  { Kept.refl s with
    posted := List.subset_cons_self _ _
    messages := List.forall_mem_cons.mpr ⟨.inr hnew, fun _ h => .inl h⟩
    votes := fun row hrow _ => ⟨row, hrow, rfl, rfl⟩ }

omit [DecidableEq W] in
/-- A row stays unless its account is the one deleted, or its answer goes with that. -/
theorem mem_deleteAccount {userId : Str} {row : AnswerFeedback} (hrow : row ∈ s.votes)
    (hthere : (s.deleteAccount userId).There row.key) : row ∈ (s.deleteAccount userId).votes := by
  obtain ⟨huser, m, hm, hkey⟩ := hthere
  refine List.mem_filter.mpr ⟨hrow, decide_eq_true ⟨?_, List.mem_map.mpr ⟨m, hm, hkey⟩⟩⟩
  exact of_decide_eq_true (List.mem_filter.mp huser).2

omit [DecidableEq W] in
theorem kept_deleteAccount (s : Server W) (userId : Str) : Kept s (s.deleteAccount userId) :=
  { Kept.refl s with
    users := fun _ h => .inl (List.mem_of_mem_filter h)
    messages := fun _ h => .inl (List.mem_of_mem_filter h)
    votes := fun row hrow hthere => ⟨row, mem_deleteAccount hrow hthere, rfl, rfl⟩
    rows := fun row hrow _ => ⟨row, List.mem_of_mem_filter hrow, rfl, rfl⟩ }

/-- Nothing that is gone comes back at a step. -/
theorem Turn.kept (h : Turn s l s') : Kept s s' := by
  cases h with
  | register hnew => exact kept_register hnew
  | post hnew => exact kept_post hnew
  | delete userId => exact kept_deleteAccount s userId
  | writes _ =>
    refine kept_update (fun row => ?_) (fun row => ?_) _ _
    · split <;> rfl
    · split <;> rfl
  | @inserts w v feedbackId _ hnew _ _ => exact kept_insert (v.row feedbackId) hnew _ _
  | @refuses w v feedbackId _ _ => exact kept_draw feedbackId _
  | _ => exact { Kept.refl s with }

theorem Inv.update (hi : Inv s) {f : AnswerFeedback → AnswerFeedback} (hid : ∀ row, (f row).feedbackId = row.feedbackId)
    (hkey : ∀ row, (f row).key = row.key) (replies : List (W × Reply)) :
    Inv { s with votes := s.votes.map f, places := put s.places w none, replies := replies } :=
  { hi with
    keys := by
      show ((s.votes.map f).map AnswerFeedback.key).Nodup
      rw [List.map_map, show AnswerFeedback.key ∘ f = AnswerFeedback.key from funext hkey]
      exact hi.keys
    ids := by
      show ((s.votes.map f).map AnswerFeedback.feedbackId).Nodup
      rw [List.map_map, show AnswerFeedback.feedbackId ∘ f = AnswerFeedback.feedbackId from funext hid]
      exact hi.ids
    drawn := List.forall_mem_map.mpr fun row hrow => (hid row).symm ▸ hi.drawn row hrow
    about := List.forall_mem_map.mpr fun row hrow => (hkey row).symm ▸ hi.about row hrow
    places := forall_put (fun w' p' hp' => (kept_update hid hkey _ _).sound (hi.places w' p' hp')) forall_gone }

theorem Inv.insert (hi : Inv s) {v : Vote} {feedbackId : Nat} (hfound : s.Found v.key) (hnew : feedbackId ∉ s.drawn)
    (hthere : s.There v.key) (hnone : s.findVote v.key = []) (replies : List (W × Reply)) :
    Inv { s with
      votes := v.row feedbackId :: s.votes
      drawn := feedbackId :: s.drawn
      places := put s.places w none
      replies := replies } :=
  { hi with
    keys := by
      refine List.nodup_cons.mpr ⟨fun hmem => ?_, hi.keys⟩
      obtain ⟨row, hrow, hkey⟩ := List.mem_map.mp hmem
      have hrow : row ∈ s.findVote v.key := mem_findVote.mpr ⟨hrow, hkey⟩
      rw [hnone] at hrow
      cases hrow
    ids := by
      refine List.nodup_cons.mpr ⟨fun hmem => hnew ?_, hi.ids⟩
      obtain ⟨row, hrow, hid⟩ := List.mem_map.mp hmem
      exact (show row.feedbackId = feedbackId from hid) ▸ hi.drawn row hrow
    drawn := List.forall_mem_cons.mpr ⟨List.mem_cons_self, fun row hrow => List.mem_cons_of_mem _ (hi.drawn row hrow)⟩
    about := List.forall_mem_cons.mpr ⟨⟨hthere, hfound.answer⟩, hi.about⟩
    places := forall_put
      (fun w' p' hp' => (kept_insert (v.row feedbackId) hnew _ _).sound (hi.places w' p' hp')) forall_gone }

/-- The insert has been refused by a row that is there, or a key that is gone. -/
theorem Inv.refuse (hi : Inv s) {v : Vote} (hfound : s.Found v.key) (hno : s.There v.key → s.findVote v.key ≠ [])
    (feedbackId : Nat) : Inv { s.goto w (.refused v) with drawn := feedbackId :: s.drawn } := by
  have hrefused : Place.Sound s (.refused v) := by
    refine ⟨hfound, fun hthere => ?_⟩
    obtain ⟨row, hrow⟩ := List.exists_mem_of_ne_nil _ (hno hthere)
    exact ⟨row, mem_findVote.mp hrow⟩
  have hkept := kept_draw (s := s) feedbackId (put s.places w (some (.refused v)))
  exact { hi with
    drawn := fun row hrow => List.mem_cons_of_mem _ (hi.drawn row hrow)
    places := forall_put (fun w' p' hp' => hkept.sound (hi.places w' p' hp')) (forall_moved (hkept.sound hrefused)) }

omit [DecidableEq W] in
theorem Inv.register (hi : Inv s) {userId : Str} (hnew : userId ∉ s.known) :
    Inv { s with users := userId :: s.users, known := userId :: s.known } :=
  { hi with
    known := List.forall_mem_cons.mpr ⟨List.mem_cons_self, fun u hu => List.mem_cons_of_mem _ (hi.known u hu)⟩
    owners := fun c hc => List.mem_cons_of_mem _ (hi.owners c hc)
    about := fun row hrow =>
      ⟨⟨List.mem_cons_of_mem _ (hi.about row hrow).1.1, (hi.about row hrow).1.2⟩, (hi.about row hrow).2⟩
    places := fun w' p' hp' => (kept_register hnew).sound (hi.places w' p' hp') }

omit [DecidableEq W] in
theorem Inv.post (hi : Inv s) {m : Message} (hnew : m.messageId ∉ s.posted) :
    Inv { s with messages := m :: s.messages, posted := m.messageId :: s.posted } := by
  refine { hi with
    posted := List.forall_mem_cons.mpr ⟨List.mem_cons_self, fun m' hm' => List.mem_cons_of_mem _ (hi.posted m' hm')⟩
    distinct := List.nodup_cons.mpr ⟨fun hmem => hnew ?_, hi.distinct⟩
    about := fun row hrow => ?_
    places := fun w' p' hp' => (kept_post hnew).sound (hi.places w' p' hp') }
  · obtain ⟨m', hm', heq⟩ := List.mem_map.mp hmem
    exact heq ▸ hi.posted m' hm'
  · obtain ⟨⟨huser, m', hm', hkey⟩, hanswer⟩ := hi.about row hrow
    refine ⟨⟨huser, m', List.mem_cons_of_mem _ hm', hkey⟩, List.forall_mem_cons.mpr ⟨fun heq => ?_, hanswer⟩⟩
    exact absurd (heq.trans hkey.symm ▸ hi.posted m' hm') hnew

omit [DecidableEq W] in
theorem Inv.deleteAccount (hi : Inv s) (userId : Str) : Inv (s.deleteAccount userId) where
  known u hu := hi.known u (List.mem_of_mem_filter hu)
  owners c hc := hi.owners c (List.mem_of_mem_filter hc)
  posted m hm := hi.posted m (List.mem_of_mem_filter hm)
  distinct := hi.distinct.sublist (List.filter_sublist.map _)
  keys := hi.keys.sublist (List.filter_sublist.map _)
  ids := hi.ids.sublist (List.filter_sublist.map _)
  drawn row hrow := hi.drawn row (List.mem_of_mem_filter hrow)
  about row hrow := by
    obtain ⟨hrow, hstays⟩ := List.mem_filter.mp hrow
    obtain ⟨hne, hmessage⟩ := of_decide_eq_true hstays
    obtain ⟨⟨huser, -⟩, hanswer⟩ := hi.about row hrow
    exact ⟨⟨List.mem_filter.mpr ⟨huser, decide_eq_true hne⟩, List.mem_map.mp hmessage⟩,
      fun m hm => hanswer m (List.mem_of_mem_filter hm)⟩
  places w' p' hp' := (kept_deleteAccount s userId).sound (hi.places w' p' hp')

theorem Inv.step (hi : Inv s) (h : step s l = some s') : Inv s' := by
  have hkept := (step_turn h).kept
  cases step_turn h with
  | tick elapsed => exact { hi with places := fun w' p' hp' => hkept.sound (hi.places w' p' hp') }
  | register hnew => exact hi.register hnew
  | chat huser =>
    exact { hi with
      owners := List.forall_mem_cons.mpr ⟨hi.known _ huser, hi.owners⟩
      places := fun w' p' hp' => hkept.sound (hi.places w' p' hp') }
  | post hnew => exact hi.post hnew
  | claim anonymous huser =>
    refine { hi with
      owners := List.forall_mem_map.mpr fun c hc => ?_
      places := fun w' p' hp' => hkept.sound (hi.places w' p' hp') }
    split
    · exact hi.known _ huser
    · exact hi.owners c hc
  | delete userId => exact hi.deleteAccount userId
  | declines w _ _ => exact hi.leave w _
  | @loads w sessionId key body c request _ _ hc howner =>
    have hknown : key.userId ∈ s.known := howner ▸ hi.owners c hc
    exact hi.goto (p := .loading sessionId key request) hknown
  | @lets w sessionId key body m hw hm hkey hrole =>
    refine hi.goto ⟨hi.places w _ hw, hkey ▸ hi.posted m hm, fun m' hm' hkey' => ?_⟩
    rwa [List.inj_on_of_nodup_map hi.distinct hm' hm (hkey'.trans hkey.symm)]
  | @misses w v hw _ =>
    have hfound : s.Found v.key := hi.places w _ hw
    exact hi.goto (p := .inserting v) hfound
  | @meets w v row hw hrow =>
    obtain ⟨hmem, hkey⟩ := mem_findVote.mp (hrow ▸ List.mem_singleton_self row)
    refine hi.goto ⟨?_, fun _ => ⟨row, hmem, hkey, rfl⟩, hi.drawn row hmem, fun row' hrow' hid => ?_⟩
    · exact hw.elim (fun hw => hi.places w _ hw) fun hw => (hi.places w _ hw).1
    · rwa [List.inj_on_of_nodup_map hi.ids hrow' hmem hid]
  | doubles _ _ _ => exact hi.leave _ _
  | keeps _ _ => exact hi.leave _ _
  | writes _ =>
    refine hi.update (fun row => ?_) (fun row => ?_) _
    · split <;> rfl
    · split <;> rfl
  | strays _ _ => exact hi.leave _ _
  | inserts hw hnew hthere hnone => exact hi.insert (hi.places _ _ hw) hnew hthere hnone _
  | refuses hw hno => exact hi.refuse (hi.places _ _ hw) hno _
  | fails w => exact hi.leave w s.replies

omit [DecidableEq W] in
theorem Inv.new (now : Int) : Inv (Server.new now : Server W) where
  known _ h := by cases h
  owners _ h := by cases h
  posted _ h := by cases h
  distinct := List.nodup_nil
  keys := List.nodup_nil
  ids := List.nodup_nil
  drawn _ h := by cases h
  about _ h := by cases h
  places _ _ h := by cases h

theorem Inv.of_run {now : Int} {ls : List (Label W)} (h : exec Feedback.step (Server.new now) ls = some s) : Inv s := by
  have hall : Along Feedback.step (fun _ _ => True) (Server.new now) ls := along_of_mem ls _ fun _ _ _ => trivial
  exact exec_invariant (fun _ _ _ hi _ hstep => hi.step hstep) (Inv.new now) hall h

omit [DecidableEq W] in
theorem same_reply {replies : List (W × Reply)} {w w' : W} {reply reply' : Reply}
    (h : (w', reply') :: replies = (w, reply) :: replies) : w' = w ∧ reply' = reply :=
  Prod.mk.inj (List.cons.inj h).1

/-- A vote is answered 500 only if its account or its answer is gone. -/
theorem raised_gone (hi : Inv s) (h : step s l = some s') (hreply : s'.replies = (w, .raised) :: s.replies) :
    ∃ p, s.places w = some p ∧ ¬s.There p.key := by
  cases step_turn h with
  | declines w' hraised _ => exact absurd (same_reply hreply).2 hraised
  | @doubles w' v hw hmany hrow =>
    obtain rfl : w' = w := (same_reply hreply).1
    rcases rowsOf_cases hi.keys v.key with hnone | ⟨row, -, -, hone⟩
    · refine ⟨.refused v, hmany hnone, fun hthere => ?_⟩
      obtain ⟨row, hmem, hkey⟩ := (hi.places w' _ (hmany hnone)).2 hthere
      have hmem : row ∈ s.findVote v.key := mem_findVote.mpr ⟨hmem, hkey⟩
      rw [show s.findVote v.key = [] from hnone] at hmem
      cases hmem
    · exact absurd hone (hrow row)
  | @strays w' v loaded hw hgone =>
    obtain rfl : w' = w := (same_reply hreply).1
    refine ⟨_, hw, fun hthere => ?_⟩
    obtain ⟨row, hrow, -, hid⟩ := (hi.places w' _ hw).2.1 hthere
    exact hgone row hrow hid
  | keeps _ _ => cases (same_reply hreply).2
  | writes _ => cases (same_reply hreply).2
  | inserts _ _ _ _ => cases (same_reply hreply).2
  | _ => exact absurd hreply.symm (List.cons_ne_self _ _)

/-- Whatever interleaves, an account has one vote on an answer at most, each vote is of an
account and an answer that are there, and a vote is answered 500 only if its account or
its answer is gone. -/
theorem one_vote {now : Int} {ls : List (Label W)} (h : exec step (Server.new now) ls = some s) :
    (s.votes.map AnswerFeedback.key).Nodup ∧
      (∀ row ∈ s.votes, s.There row.key ∧ s.Answers row.key.messageId) ∧
      ∀ l s' w, step s l = some s' → s'.replies = (w, .raised) :: s.replies →
        ∃ p, s.places w = some p ∧ ¬s.There p.key := by
  have hi := Inv.of_run h
  exact ⟨hi.keys, hi.about, fun l s' w hstep hreply => raised_gone hi hstep hreply⟩

end

def exampleKey : Key := ⟨1, "usr_1".toList⟩

/-- An account asks, and is answered. -/
def answered : List (Label Nat) :=
  [.register exampleKey.userId, .chat ⟨1, exampleKey.userId, 100⟩, .post ⟨1, 1, .assistant⟩]

def up : Body := ⟨.up, none, none⟩

def wrong : Body := ⟨.down, some .wrong, none⟩

/-- Two votes find none: the insert of the second is refused, and it updates. -/
def raced : List (Label Nat) :=
  answered ++ [.put 0 1 exampleKey up, .advance 0, .advance 0, .put 1 1 exampleKey wrong, .advance 1, .advance 1,
    .insert 0 7, .insert 1 8, .advance 1, .advance 1]

theorem one_vote_raced :
    ∃ s, exec step (Server.new 0) raced = some s ∧ s.votes.length = 1 ∧ (s.votes.map AnswerFeedback.key).Nodup := by
  have hrun : ∃ s, exec step (Server.new 0) raced = some s ∧ s.votes.length = 1 := by
    decide +kernel
  obtain ⟨s, hs, hone⟩ := hrun
  exact ⟨s, hs, hone, (one_vote hs).1⟩

/-! ## What a vote leaves -/

/-- The step is the commit of a vote. -/
def casts (key : Key) (s : Server W) : Label W → Bool
  | .insert w _ =>
    match s.places w with
    | some (.inserting v) => v.key = key ∧ s.There key ∧ s.findVote key = []
    | _ => false
  | .advance w =>
    match s.places w with
    | some (.updating v _) => v.key = key
    | _ => false
  | _ => false

def Place.body : Place → FeedbackRequest
  | .loading _ _ body => body
  | .finding v | .inserting v | .refused v | .updating v _ => v.body

/-- The row that an update has loaded is as it was. -/
def Place.Fresh (s : Server W) : Place → Prop
  | .updating v loaded => s.There v.key → loaded ∈ s.votes
  | _ => True

/-- The request is open, with nothing of what it has loaded out of date. -/
def Waiting (key : Key) (body : Body) (w : W) (s : Server W) : Prop :=
  ∃ p, s.places w = some p ∧ p.key = key ∧ p.body.toBody = body ∧ p.Fresh s

/-- The row holds the vote, all of it. -/
def Holds (key : Key) (body : Body) (s : Server W) : Prop :=
  ∃ row ∈ s.votes, row.key = key ∧ row.rating = body.rating ∧ row.reason = body.reason ∧ row.comment = body.comment

theorem column_self {A : Type} [DecidableEq A] (loaded value : A) : column loaded value loaded = value := by
  unfold column
  split
  · rename_i heq
    exact heq.symm
  · rfl

section
variable {s s' : Server W} {l : Label W} {w : W} {key : Key} {body : Body}

/-- A row stays as it is while no vote of its account on its answer is committed. -/
theorem votes_stay (hi : Inv s) (h : Turn s l s') (hcasts : casts key s l = false) {row : AnswerFeedback}
    (hrow : row ∈ s.votes) (hkey : row.key = key) (hthere : s'.There key) : row ∈ s'.votes := by
  cases h with
  | delete userId => exact mem_deleteAccount hrow (hkey ▸ hthere)
  | @writes w v loaded hw =>
    refine List.mem_map.mpr ⟨row, hrow, if_neg fun hid => ?_⟩
    have hv : v.key = key := ((hi.places w _ hw).2.2.2 row hrow hid).symm.trans hkey
    simp [casts, hw, hv] at hcasts
  | inserts _ _ _ _ => exact List.mem_cons_of_mem _ hrow
  | _ => exact hrow

theorem Place.Fresh.stay (hi : Inv s) (h : Turn s l s') (hcasts : casts key s l = false) {p : Place} (hp : p.Sound s)
    (hkey : p.key = key) (hfresh : p.Fresh s) : p.Fresh s' := by
  cases p with
  | updating v loaded =>
    intro hthere
    have hloaded := hfresh (h.kept.there hp.1 hthere)
    have hv : v.key = key := hkey
    exact votes_stay hi h hcasts hloaded ((hp.2.2.2 loaded hloaded rfl).trans hv) (hv ▸ hthere)
  | _ => trivial

/-- What a step does to a request: none, its end, its start, or a statement of it. -/
inductive Moves (s s' : Server W) (l : Label W) (w : W) : Option Place → Prop where
  | stays {t} (ht : t = s.places w) : Moves s s' l w t
  | ends : Moves s s' l w none
  | starts {p sessionId} (hw : s.places w = none) (hl : l = .put w sessionId p.key p.body.toBody) (hfresh : p.Fresh s') :
    Moves s s' l w (some p)
  | goes {p p'} (hw : s.places w = some p) (hkey : p'.key = p.key) (hbody : p'.body = p.body) (hfresh : p'.Fresh s') :
    Moves s s' l w (some p')

theorem Moves.put {w' : W} {t : Option Place} (h : w' = w → Moves s s' l w t) :
    Moves s s' l w (put s.places w' t w) := by
  by_cases hw : w' = w
  · subst hw
    rw [put_self]
    exact h rfl
  · exact .stays (put_of_ne _ _ (Ne.symm hw))

theorem Turn.moves (h : Turn s l s') (w : W) : Moves s s' l w (s'.places w) := by
  cases h with
  | declines _ _ _ => exact .put fun _ => .ends
  | loads hw hbody _ _ => exact .put fun heq => .starts (heq ▸ hw) (by rw [← heq, ← hbody]; rfl) trivial
  | @lets w' sessionId key body m hw _ _ _ =>
    exact .put fun heq => .goes (p := .loading sessionId key body) (heq ▸ hw) rfl rfl trivial
  | @misses w' v hw _ => exact .put fun heq => .goes (p := .finding v) (heq ▸ hw) rfl rfl trivial
  | @meets w' v row hw hrow =>
    have hmem := (mem_findVote.mp (hrow ▸ List.mem_singleton_self row)).1
    refine .put fun heq => ?_
    rcases hw with hw | hw
    · exact .goes (p := .finding v) (heq ▸ hw) rfl rfl fun _ => hmem
    · exact .goes (p := .refused v) (heq ▸ hw) rfl rfl fun _ => hmem
  | doubles _ _ _ => exact .put fun _ => .ends
  | keeps _ _ => exact .put fun _ => .ends
  | writes _ => exact .put fun _ => .ends
  | strays _ _ => exact .put fun _ => .ends
  | inserts _ _ _ _ => exact .put fun _ => .ends
  | @refuses w' v feedbackId hw _ =>
    exact .put fun heq => .goes (p := .inserting v) (heq ▸ hw) rfl rfl trivial
  | fails _ => exact .put fun _ => .ends
  | _ => exact .stays rfl

/-- While no other vote of the account on the answer is committed, what is loaded is up to date. -/
theorem Waiting.step (hi : Inv s) (hwait : Waiting key body w s) (h : step s l = some s') (hcasts : casts key s l = false)
    (hopen : (s'.places w).isSome) : Waiting key body w s' := by
  have hturn := step_turn h
  obtain ⟨p, hp, hkey, hbody, hfresh⟩ := hwait
  have hmoves := hturn.moves w
  obtain ⟨p', hp'⟩ := Option.isSome_iff_exists.mp hopen
  rw [hp'] at hmoves
  cases hmoves with
  | stays hsame =>
    obtain rfl : p' = p := Option.some.inj (hsame.trans hp)
    exact ⟨p', hp', hkey, hbody, Place.Fresh.stay hi hturn hcasts (hi.places w p' hp) hkey hfresh⟩
  | starts hw _ _ => cases hw.symm.trans hp
  | goes hw hkey' hbody' hfresh' =>
    cases hw.symm.trans hp
    exact ⟨p', hp', hkey'.trans hkey, (congrArg FeedbackRequest.toBody hbody').trans hbody, hfresh'⟩

theorem waiting_put {sessionId : Nat} (h : step s (.put w sessionId key body) = some s')
    (hopen : (s'.places w).isSome) : Waiting key body w s' := by
  simp only [Feedback.step] at h
  split at h
  · cases h
  · split at h
    · cases h
      simp [Server.close] at hopen
    · rename_i request hbody
      split at h
      · cases h
        exact ⟨.loading sessionId key request, put_self _ _ _, rfl, Body.validate_some hbody, trivial⟩
      · cases h
        simp [Server.close] at hopen

/-- A vote that is answered 200 was at its commit, and is in its row if that was loaded as it is. -/
theorem rated_turn (h : Turn s l s') {messageId : Nat} {rating : Rating} {reason : Option FeedbackReason}
    (hreply : s'.replies = (w, .rated messageId rating reason) :: s.replies) :
    ∃ v, (s.places w = some (.inserting v) ∨ ∃ loaded, s.places w = some (.updating v loaded)) ∧
      (∀ key, s'.There key → s.There key) ∧
      ((∀ loaded, s.places w = some (.updating v loaded) → loaded ∈ s.votes ∧ loaded.key = v.key) →
        Holds v.key v.body.toBody s') := by
  cases h with
  | declines w' _ hrated => exact absurd (same_reply hreply).2 (hrated _ _ _)
  | @keeps w' v loaded hw hsame =>
    obtain rfl : w' = w := (same_reply hreply).1
    refine ⟨v, .inr ⟨loaded, hw⟩, fun _ hthere => hthere, fun hloaded => ?_⟩
    obtain ⟨hmem, hkey⟩ := hloaded loaded hw
    have hrating := congrArg AnswerFeedback.rating hsame
    have hreason := congrArg AnswerFeedback.reason hsame
    have hcomment := congrArg AnswerFeedback.comment hsame
    simp only [AnswerFeedback.update, column_self] at hrating hreason hcomment
    exact ⟨loaded, hmem, hkey, hrating.symm, hreason.symm, hcomment.symm⟩
  | @writes w' v loaded hw =>
    obtain rfl : w' = w := (same_reply hreply).1
    refine ⟨v, .inr ⟨loaded, hw⟩, fun _ hthere => hthere, fun hloaded => ?_⟩
    obtain ⟨hmem, hkey⟩ := hloaded loaded hw
    exact ⟨loaded.update loaded v, List.mem_map.mpr ⟨loaded, hmem, if_pos rfl⟩, hkey,
      column_self _ _, column_self _ _, column_self _ _⟩
  | @inserts w' v feedbackId hw _ _ _ =>
    obtain rfl : w' = w := (same_reply hreply).1
    exact ⟨v, .inl hw, fun _ hthere => hthere, fun _ => ⟨v.row feedbackId, List.mem_cons_self, rfl, rfl, rfl, rfl⟩⟩
  | doubles _ _ _ => cases (same_reply hreply).2
  | strays _ _ => cases (same_reply hreply).2
  | _ => exact absurd hreply.symm (List.cons_ne_self _ _)

/-- A vote is in its row once it has been answered 200. -/
theorem Waiting.holds (hi : Inv s) (hwait : (s.places w).isSome → Waiting key body w s) (h : Feedback.step s l = some s')
    {messageId : Nat} {rating : Rating} {reason : Option FeedbackReason}
    (hreply : s'.replies = (w, .rated messageId rating reason) :: s.replies) :
    s'.Found key ∧ (s'.There key → Holds key body s') := by
  have hturn := step_turn h
  obtain ⟨v, hplace, hthere, hholds⟩ := rated_turn hturn hreply
  have hopen : (s.places w).isSome := by
    rcases hplace with hw | ⟨loaded, hw⟩ <;> rw [hw] <;> rfl
  obtain ⟨p, hp, rfl, rfl, hfresh⟩ := hwait hopen
  rcases hplace with hw | ⟨loaded, hw⟩
  · cases hw.symm.trans hp
    refine ⟨hturn.kept.found (hi.places w _ hw), fun _ => hholds fun loaded hw' => ?_⟩
    cases hw.symm.trans hw'
  · cases hw.symm.trans hp
    have hsound := hi.places w _ hw
    refine ⟨hturn.kept.found hsound.1, fun hstill => hholds fun loaded' hw' => ?_⟩
    cases hw.symm.trans hw'
    have hmem := hfresh (hthere _ hstill)
    exact ⟨hmem, hsound.2.2.2 loaded hmem rfl⟩

/-- A vote that is answered 200 is what the row of its account and its answer holds, all of
it, while both are there, if no other vote of the account on the answer is committed from
when it comes in. -/
theorem vote_stands {now : Int} {before during later : List (Label W)} {s₀ s₁ s₂ s₃ s₄ : Server W} {sessionId : Nat}
    (hbefore : exec step (Server.new now) before = some s₀) (hput : step s₀ (.put w sessionId key body) = some s₁)
    (hduring : exec step s₁ during = some s₂)
    (hopen : Along step (fun s l => (s.places w).isSome ∧ casts key s l = false) s₁ during)
    (hcommit : step s₂ l = some s₃)
    (hanswer : s₃.replies = (w, .rated key.messageId body.rating body.reason) :: s₂.replies)
    (hlater : exec step s₃ later = some s₄) (hquiet : Along step (fun s l => casts key s l = false) s₃ later)
    (hthere : s₄.There key) : Holds key body s₄ := by
  have hi₁ : Inv s₁ := (Inv.of_run hbefore).step hput
  obtain ⟨hi₂, hwait⟩ : Inv s₂ ∧ ((s₂.places w).isSome → Waiting key body w s₂) := exec_invariant
    (I := fun s => Inv s ∧ ((s.places w).isSome → Waiting key body w s))
    (fun _ _ _ hs hok h => ⟨hs.1.step h, (hs.2 hok.1).step hs.1 h hok.2⟩) ⟨hi₁, waiting_put hput⟩ hopen hduring
  have hrow := Waiting.holds hi₂ hwait hcommit hanswer
  have hlast : Inv s₄ ∧ s₄.Found key ∧ (s₄.There key → Holds key body s₄) := by
    refine exec_invariant (I := fun s => Inv s ∧ s.Found key ∧ (s.There key → Holds key body s))
      (fun s l s' hs hok h => ?_) ⟨hi₂.step hcommit, hrow⟩ hquiet hlater
    obtain ⟨hi, hfound, hholds⟩ := hs
    have hturn := step_turn h
    refine ⟨hi.step h, hturn.kept.found hfound, fun hstill => ?_⟩
    obtain ⟨row, hmem, hkey, hcolumns⟩ := hholds (hturn.kept.there hfound hstill)
    exact ⟨row, votes_stay hi hturn hok hmem hkey hstill, hkey, hcolumns⟩
  exact hlast.2.2 hthere

end

/-- Another vote comes in, finds the row, and is cut off. -/
theorem vote_stands_alone :
    ∃ s, exec step (Server.new 0) (answered ++ [.put 0 1 exampleKey wrong] ++ [.advance 0, .advance 0] ++
        [.insert 0 7] ++ [.put 1 1 exampleKey up, .advance 1, .advance 1, .fail 1]) = some s ∧ Holds exampleKey wrong s := by
  have hrun : ∃ s₀ ∈ exec step (Server.new 0) answered, ∃ s₁ ∈ step s₀ (.put 0 1 exampleKey wrong),
      ∃ s₂ ∈ exec step s₁ [.advance 0, .advance 0], ∃ s₃ ∈ step s₂ (.insert 0 7),
      ∃ s₄ ∈ exec step s₃ [.put 1 1 exampleKey up, .advance 1, .advance 1, .fail 1],
        Along step (fun s l => (s.places 0).isSome ∧ casts exampleKey s l = false) s₁ [.advance 0, .advance 0] ∧
        s₃.replies = (0, .rated 1 .down (some .wrong)) :: s₂.replies ∧
        Along step (fun s l => casts exampleKey s l = false) s₃ [.put 1 1 exampleKey up, .advance 1, .advance 1, .fail 1] ∧
        s₄.There exampleKey := by
    decide +kernel
  obtain ⟨s₀, h₀, s₁, h₁, s₂, h₂, s₃, h₃, s₄, h₄, hopen, hanswer, hquiet, hthere⟩ := hrun
  refine ⟨s₄, ?_, vote_stands h₀ h₁ h₂ hopen h₃ hanswer h₄ hquiet hthere⟩
  rw [exec_append, exec_append, exec_append, exec_append, h₀, Option.bind_some, exec_singleton, h₁, Option.bind_some, h₂,
    Option.bind_some, exec_singleton, h₃, Option.bind_some]
  exact h₄

def down : Body := ⟨.down, none, none⟩

/-- Two votes that have loaded the same row can leave a reason with a thumbs-up. -/
example : ∃ s, exec step (Server.new 0) (answered ++
      [.put 0 1 exampleKey down, .advance 0, .advance 0, .insert 0 7, .tick 1, .put 0 1 exampleKey up, .advance 0,
        .advance 0, .put 1 1 exampleKey wrong, .advance 1, .advance 1, .advance 0, .advance 1]) = some s ∧
    s.votes.map (fun row => (row.rating, row.reason)) = [(.up, some .wrong)] := by
  decide +kernel

/-! ## Where the columns come from -/

/-- A vote of the account on the answer has come in whose body meets `P`. -/
def Cast (now : Int) (ls : List (Label W)) (key : Key) (P : Body → Prop) : Prop :=
  Took step (Server.new now) ls fun _ l => ∃ w sessionId body, l = .put w sessionId key body ∧ P body

/-- Each column of the row is one of a vote of its account on its answer. -/
def Columns (now : Int) (ls : List (Label W)) (row : AnswerFeedback) : Prop :=
  Cast now ls row.key (·.rating = row.rating) ∧ Cast now ls row.key (·.reason = row.reason) ∧
    Cast now ls row.key (·.comment = row.comment)

structure Told (now : Int) (ls : List (Label W)) (s : Server W) : Prop where
  places : ∀ w p, s.places w = some p → Cast now ls p.key (· = p.body.toBody)
  votes : ∀ row ∈ s.votes, Columns now ls row

section
variable {now : Int} {ls : List (Label W)} {s s' : Server W} {l : Label W}

theorem Cast.mono {key : Key} {P Q : Body → Prop} (h : Cast now ls key P) (hPQ : ∀ body, P body → Q body) :
    Cast now ls key Q := by
  obtain ⟨pre, l, post, s, heq, hrun, w, sessionId, body, hl, hP⟩ := h
  exact ⟨pre, l, post, s, heq, hrun, w, sessionId, body, hl, hPQ body hP⟩

theorem Columns.of_vote {v : Vote} (h : Cast now ls v.key (· = v.body.toBody)) (feedbackId : Nat) :
    Columns now ls (v.row feedbackId) :=
  ⟨h.mono fun _ heq => heq ▸ rfl, h.mono fun _ heq => heq ▸ rfl, h.mono fun _ heq => heq ▸ rfl⟩

/-- An update takes each column from the row or from the vote. -/
theorem Columns.update {row loaded : AnswerFeedback} {v : Vote} (hrow : Columns now ls row) (hkey : row.key = v.key)
    (h : Cast now ls v.key (· = v.body.toBody)) : Columns now ls (row.update loaded v) := by
  have hcolumn : ∀ {A : Type} [DecidableEq A] (f : Body → A) (stored value loaded : A), value = f v.body.toBody →
      Cast now ls row.key (fun body => f body = stored) →
      Cast now ls row.key fun body => f body = column loaded value stored := by
    intro A _ f stored value loaded hvalue hstored
    unfold column
    split
    · exact hstored
    · rw [hkey]
      exact h.mono fun _ heq => heq ▸ hvalue.symm
  exact ⟨hcolumn Body.rating _ _ _ rfl hrow.1, hcolumn Body.reason _ _ _ rfl hrow.2.1,
    hcolumn Body.comment _ _ _ rfl hrow.2.2⟩

theorem Told.append (h : Told now ls s) (ls' : List (Label W)) : Told now (ls ++ ls') s where
  places w p hp := (h.places w p hp).append ls'
  votes row hrow := ⟨(h.votes row hrow).1.append ls', (h.votes row hrow).2.1.append ls', (h.votes row hrow).2.2.append ls'⟩

theorem Told.step (h : Told now ls s) (hrun : exec Feedback.step (Server.new now) ls = some s)
    (hstep : Feedback.step s l = some s') : Told now (ls ++ [l]) s' where
  places w p hp := by
    have hmoves := (step_turn hstep).moves w
    rw [hp] at hmoves
    cases hmoves with
    | stays hsame => exact (h.append [l]).places w p hsame.symm
    | starts _ hl _ => exact Took.last hrun ⟨w, _, _, hl, rfl⟩
    | goes hw hkey hbody _ =>
      rw [hkey, hbody]
      exact (h.append [l]).places w _ hw
  votes := by
    have hold := (h.append [l]).votes
    cases step_turn hstep with
    | delete userId => exact fun row hrow => hold row (List.mem_of_mem_filter hrow)
    | @writes w v loaded hw =>
      refine List.forall_mem_map.mpr fun row hrow => ?_
      split
      · rename_i hid
        have hkey := ((Inv.of_run hrun).places w _ hw).2.2.2 row hrow hid
        exact (hold row hrow).update hkey ((h.append _).places w _ hw)
      · exact hold row hrow
    | @inserts w v feedbackId hw _ _ _ =>
      exact List.forall_mem_cons.mpr ⟨Columns.of_vote ((h.append _).places w _ hw) feedbackId, hold⟩
    | _ => exact hold

/-- Whatever interleaves, each column of a row is one of a vote that its account has cast
on its answer. -/
theorem columns_cast (h : exec step (Server.new now) ls = some s) : ∀ row ∈ s.votes, Columns now ls row := by
  have hnew : Told now [] (Server.new now : Server W) := ⟨fun _ _ h => (by cases h), fun _ h => (by cases h)⟩
  have htold : Told now ls s := exec_history (I := fun ls s => Told now ls s) hnew
    (fun _ _ _ _ hrun htold hstep => htold.step hrun hstep) h
  exact htold.votes

end

theorem columns_cast_raced :
    ∃ s, exec step (Server.new 0) raced = some s ∧ s.votes.length = 1 ∧ ∀ row ∈ s.votes, Columns 0 raced row := by
  have hrun : ∃ s, exec step (Server.new 0) raced = some s ∧ s.votes.length = 1 := by
    decide +kernel
  obtain ⟨s, hs, hone⟩ := hrun
  exact ⟨s, hs, hone, columns_cast hs⟩

end CiteVyn.Api.Feedback
