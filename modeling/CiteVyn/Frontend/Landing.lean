import CiteVyn.Lib.Runs
import CiteVyn.Text.Python

/-! # The chat of the landing page, live

What `useLandingState` does with a question, from the ways to ask it to its answer, and
with a session that is resumed. A step is one event or the arrival of one response, with
everything that runs before the next of them. A handler is the one of the last render. -/
namespace CiteVyn.Frontend.Landing
open CiteVyn.Lib.Runs
open CiteVyn.Text (Str)

/-- The functions of a JavaScript string that the page calls. -/
structure Js where
  trim : Str → Str
  toLowerCase : Str → Str

inductive Screen where
  | landing
  | chat
  deriving DecidableEq

inductive Role where
  | user
  | bot
  deriving DecidableEq

variable {Sid : Type*}

structure ChatMessage (Sid : Type*) where
  role : Role
  text : Str
  /-- the session of an answer -/
  sessionId : Option Sid
  deriving DecidableEq

/-- What is rendered. -/
structure AppState (Sid : Type*) where
  screen : Screen
  heroInput : Str
  chatInput : Str
  messages : List (ChatMessage Sid)
  deriving DecidableEq

/-- A message as `getSession` has it. -/
structure StoredMessage where
  role : Role
  content : Str

/-- A question that is under way. -/
inductive Stage (Sid : Type*) where
  /-- `ensureSession` waits for a call of `createSession` -/
  | ensuring (promise : Nat)
  /-- `askQuestion` has been sent -/
  | asking (session : Sid)
  deriving DecidableEq

structure Ask (Sid : Type*) where
  text : Str
  stage : Stage Sid
  deriving DecidableEq

/-- The question of `enterChat` in its 60 ms, with what the call has captured. -/
structure Parked (Sid : Type*) where
  question : Str
  carried : Bool
  messages : List (ChatMessage Sid)
  deriving DecidableEq

/-- A question when it is sent, or an answer when it is appended. -/
structure Record (Sid : Type*) where
  text : Str
  session : Sid
  /-- the session has been created for the question -/
  created : Bool
  onScreen : Option Sid
  deriving DecidableEq

structure Page (Sid : Type*) where
  state : AppState Sid
  rendered : AppState Sid
  chatInputRef : Str
  inFlight : Nat
  failedQuestions : List Str
  sessionId : Option Sid
  sessionPromise : Option Nat
  resumeEpoch : Nat
  /-- how often `createSession` has been called -/
  created : Nat
  /-- its calls that are outstanding -/
  creations : List Nat
  asks : List (Ask Sid)
  timers : List (Parked Sid)
  /-- the epochs of the outstanding calls of `getSession` -/
  resumes : List Nat
  /-- the session of the transcript on screen: the resumed one, or the one created for it,
  until the server no longer has it; nothing reads this nor what follows -/
  onScreen : Option Sid
  lastQuestion : Option Str
  sent : List (Record Sid)
  answers : List (Record Sid)
  deriving DecidableEq

def AppState.initial : AppState Sid := ⟨.landing, [], [], []⟩

def Page.new : Page Sid :=
  ⟨.initial, .initial, [], 0, [], none, none, 0, 0, [], [], [], [], none, none, [], []⟩

/-! ## The dispatches -/

def addMessage (s : Page Sid) (m : ChatMessage Sid) : Page Sid :=
  { s with state := { s.state with messages := s.state.messages ++ [m] } }

/-- The message of a question. -/
def addQuestion (s : Page Sid) (text : Str) : Page Sid :=
  { addMessage s ⟨.user, text, none⟩ with lastQuestion := some text }

/-- `streamBot` of a text that is not an answer. -/
def notice (s : Page Sid) (text : Str) : Page Sid := addMessage s ⟨.bot, text, none⟩

def setChatInput (s : Page Sid) (value : Str) : Page Sid :=
  { s with chatInputRef := value, state := { s.state with chatInput := value } }

def setHeroInput (s : Page Sid) (value : Str) : Page Sid :=
  { s with state := { s.state with heroInput := value } }

def setScreen (s : Page Sid) (screen : Screen) : Page Sid :=
  { s with state := { s.state with screen := screen } }

/-- A render and its effects. -/
def render (s : Page Sid) : Page Sid :=
  { s with rendered := s.state, chatInputRef := s.state.chatInput }

/-! ## A question -/

/-- `markInFlight(1)` and `ensureSession`, up to the first response. -/
def ensureSession (s : Page Sid) (text : Str) : Page Sid :=
  let s := { s with inFlight := s.inFlight + 1 }
  match s.sessionId, s.sessionPromise with
  | some sid, _ =>
    { s with asks := ⟨text, .asking sid⟩ :: s.asks, sent := ⟨text, sid, false, s.onScreen⟩ :: s.sent }
  | none, some p => { s with asks := ⟨text, .ensuring p⟩ :: s.asks }
  | none, none =>
    { s with
      sessionPromise := some s.created
      created := s.created + 1
      creations := s.created :: s.creations
      asks := ⟨text, .ensuring s.created⟩ :: s.asks }

variable (js : Js)

def norm (text : Str) : Str := js.toLowerCase (js.trim text)

def signInNotice : Str := "Sign in with a free account to get cited answers.".toList

/-- `routeQuestion`; with the access model on, a visitor who is not signed in is gated. -/
def routeQuestion (s : Page Sid) (text : Str) (gated : Bool) : Page Sid :=
  if gated then notice { s with failedQuestions := norm js text :: s.failedQuestions } signInNotice
  else ensureSession s text

/-- `send`, as the render with these messages has it. -/
def send (s : Page Sid) (messages : List (ChatMessage Sid)) (text : Str) (gated : Bool) : Page Sid :=
  if messages.any fun m => m.role = .user && norm js m.text = norm js text then
    if norm js text ∈ s.failedQuestions then
      routeQuestion js
        (addQuestion { s with failedQuestions := s.failedQuestions.filter (· ≠ norm js text) } text) text gated
    else s
  else routeQuestion js (addQuestion s text) text gated

def maxQuestionLength : Nat := 4000

def submitChat (s : Page Sid) (gated : Bool) : Page Sid :=
  let t := js.trim s.rendered.chatInput
  if t = [] ∨ maxQuestionLength < t.length ∨ s.inFlight ≠ 0 then s
  else send js (setChatInput s []) s.rendered.messages t gated

/-- `park` of `enterChat`. -/
def park (s : Page Sid) (question : Str) (carried : Bool) : Page Sid :=
  if carried = false ∧ s.chatInputRef = [] then setChatInput s question else s

def enterChat (s : Page Sid) (q : Str) (carryHeroText : Bool) : Page Sid :=
  let carried := carryHeroText && s.rendered.chatInput.isEmpty && !(js.trim s.rendered.heroInput).isEmpty
  let entered := setScreen s .chat
  let entered := if carried then setHeroInput (setChatInput entered s.rendered.heroInput) [] else entered
  if q = [] then entered
  else if entered.inFlight ≠ 0 then park entered q carried
  else { entered with timers := ⟨q, carried, s.rendered.messages⟩ :: entered.timers }

/-- The end of the 60 ms. -/
def timeout (s : Page Sid) (t : Parked Sid) (gated : Bool) : Page Sid :=
  if s.inFlight ≠ 0 then park s t.question t.carried else send js s t.messages t.question gated

def askHero (s : Page Sid) : Page Sid :=
  let q := js.trim s.rendered.heroInput
  if q = [] ∨ maxQuestionLength < q.length then s else enterChat js (setHeroInput s []) q false

/-- The questions of `chatSuggestions`. -/
def chatSuggestions : List Str :=
  ["What is Claude Code?".toList, "What does the --model flag do in Codex?".toList,
    "How do I stream responses from the Gemini API?".toList, "What's the best laptop for AI coding?".toList]

/-! ## The responses -/

/-- What a request throws: whether it is a 404, and what `handleApiError` says. -/
structure Failure where
  notFound : Bool
  notice : Str

variable [DecidableEq Sid]

/-- The catch and the `finally` of `sendLive`. -/
def failAsk (s : Page Sid) (text : Str) (dead : Option Sid) (e : Failure) : Page Sid :=
  let s := if e.notFound then
      { s with
        sessionId := none
        sessionPromise := none
        onScreen := if s.onScreen = dead then none else s.onScreen }
    else s
  { notice { s with failedQuestions := norm js text :: s.failedQuestions } e.notice with inFlight := s.inFlight - 1 }

/-- The questions that wait for a call of `createSession`. -/
def waiting (s : Page Sid) (p : Nat) : List (Ask Sid) := s.asks.filter fun a => a.stage = .ensuring p

/-- `createSession` returns: the session is kept, and the questions that wait for it are sent. -/
def sessionCreated (s : Page Sid) (p : Nat) (sid : Sid) : Page Sid :=
  { s with
    creations := s.creations.filter (· ≠ p)
    sessionId := some sid
    asks := s.asks.map fun a => if a.stage = .ensuring p then ⟨a.text, .asking sid⟩ else a
    sent := (waiting s p).map (fun a => ⟨a.text, sid, true, s.onScreen⟩) ++ s.sent
    onScreen := s.onScreen.or (some sid) }

/-- `createSession` throws: its promise is forgotten, and the questions that wait for it fail. -/
def sessionFailed (s : Page Sid) (p : Nat) (e : Failure) : Page Sid :=
  (waiting s p).foldl (fun s a => failAsk js s a.text none e)
    { s with
      creations := s.creations.filter (· ≠ p)
      sessionPromise := none
      asks := s.asks.filter fun a => a.stage ≠ .ensuring p }

/-- `askQuestion` returns. -/
def answered (s : Page Sid) (a : Ask Sid) (sid : Sid) (answer : Str) : Page Sid :=
  { addMessage s ⟨.bot, js.trim answer, some sid⟩ with
    failedQuestions := s.failedQuestions.filter (· ≠ norm js a.text)
    asks := s.asks.erase a
    inFlight := s.inFlight - 1
    answers := ⟨a.text, sid, false, s.onScreen⟩ :: s.answers }

/-- `resumeSession` up to its request. -/
def resumeSession (s : Page Sid) : Page Sid :=
  { s with resumeEpoch := s.resumeEpoch + 1, resumes := (s.resumeEpoch + 1) :: s.resumes }

def StoredMessage.shown (m : StoredMessage) (sid : Sid) : ChatMessage Sid :=
  ⟨m.role, m.content, if m.role = .bot then some sid else none⟩

/-- `getSession` returns. -/
def resumed (s : Page Sid) (epoch : Nat) (sid : Sid) (messages : List StoredMessage) : Page Sid :=
  if epoch ≠ s.resumeEpoch then s
  else
    { s with
      sessionId := some sid
      state := { s.state with messages := messages.map fun m => m.shown sid, screen := .chat }
      onScreen := some sid }

/-! ## The page -/

inductive Label (Sid : Type*) where
  | render
  | typeHero (value : Str)
  | typeChat (value : Str)
  | submitChat (gated : Bool)
  | askHero
  /-- the other ways into the chat: without a question it is empty -/
  | enterChat (q : Str)
  | timeout (t : Parked Sid) (gated : Bool)
  | suggestion (q : Str) (gated : Bool)
  | backToLanding
  | createSession (p : Nat) (reply : Except Failure Sid)
  | askQuestion (a : Ask Sid) (reply : Except Failure Str)
  | resumeSession
  | getSession (epoch : Nat) (reply : Except Failure (Sid × List StoredMessage))

def step (s : Page Sid) : Label Sid → Option (Page Sid)
  | .render => some (render s)
  | .typeHero value => some (setHeroInput s value)
  | .typeChat value => some (setChatInput s value)
  | .submitChat gated => if s.rendered.screen = .chat then some (submitChat js s gated) else none
  | .askHero => if s.rendered.screen = .landing then some (askHero js s) else none
  | .enterChat q => some (enterChat js s q true)
  | .timeout t gated =>
    if t ∈ s.timers then some (timeout js { s with timers := s.timers.erase t } t gated) else none
  | .suggestion q gated =>
    if s.rendered.screen = .chat ∧ s.rendered.messages = [] ∧ q ∈ chatSuggestions then
      some (send js s s.rendered.messages q gated)
    else none
  | .backToLanding => some (setHeroInput (setScreen s .landing) [])
  | .createSession p (.ok sid) => if p ∈ s.creations then some (sessionCreated s p sid) else none
  | .createSession p (.error e) => if p ∈ s.creations then some (sessionFailed js s p e) else none
  | .askQuestion a reply =>
    match a.stage with
    | .ensuring _ => none
    | .asking sid =>
      if a ∈ s.asks then
        some (match reply with
          | .ok answer => answered js s a sid answer
          | .error e => failAsk js { s with asks := s.asks.erase a } a.text (some sid) e)
      else none
  | .resumeSession => some (resumeSession s)
  | .getSession epoch reply =>
    if epoch ∈ s.resumes then
      let s := { s with resumes := s.resumes.erase epoch }
      some (match reply with
        | .ok (sid, messages) => resumed s epoch sid messages
        | .error e => if epoch ≠ s.resumeEpoch then s else notice s e.notice)
    else none

/-! ## What the steps leave alone -/

/-- No question has been asked, and none has ended. -/
structure Same (s s' : Page Sid) : Prop where
  inFlight : s'.inFlight = s.inFlight
  asks : s'.asks = s.asks
  sessionId : s'.sessionId = s.sessionId
  sessionPromise : s'.sessionPromise = s.sessionPromise
  creations : s'.creations = s.creations
  onScreen : s'.onScreen = s.onScreen
  sent : s'.sent = s.sent
  answers : s'.answers = s.answers

/-- Nor has one been shown. -/
structure Quiet (s s' : Page Sid) : Prop extends Same s s' where
  lastQuestion : s'.lastQuestion = s.lastQuestion

/-- A question is shown, and asked unless the visitor is gated. -/
def Shown (s : Page Sid) (text : Str) (s' : Page Sid) : Prop :=
  ∃ t, Same s t ∧ t.lastQuestion = some text ∧ (s' = t ∨ s' = ensureSession t text)

omit [DecidableEq Sid] in
theorem Same.trans {s t u : Page Sid} (h : Same s t) (h' : Same t u) : Same s u where
  inFlight := h'.inFlight.trans h.inFlight
  asks := h'.asks.trans h.asks
  sessionId := h'.sessionId.trans h.sessionId
  sessionPromise := h'.sessionPromise.trans h.sessionPromise
  creations := h'.creations.trans h.creations
  onScreen := h'.onScreen.trans h.onScreen
  sent := h'.sent.trans h.sent
  answers := h'.answers.trans h.answers

omit [DecidableEq Sid] in
theorem Quiet.refl (s : Page Sid) : Quiet s s := ⟨⟨rfl, rfl, rfl, rfl, rfl, rfl, rfl, rfl⟩, rfl⟩

omit [DecidableEq Sid] in
theorem Quiet.trans {s t u : Page Sid} (h : Quiet s t) (h' : Quiet t u) : Quiet s u :=
  ⟨h.toSame.trans h'.toSame, h'.lastQuestion.trans h.lastQuestion⟩

omit [DecidableEq Sid] in
theorem Quiet.shown {s t s' : Page Sid} {text : Str} (h : Quiet s t) (h' : Shown t text s') : Shown s text s' := by
  obtain ⟨u, hsame, hlast, hs'⟩ := h'
  exact ⟨u, h.toSame.trans hsame, hlast, hs'⟩

section

variable {js}

omit [DecidableEq Sid]

theorem setChatInput_quiet (s : Page Sid) (value : Str) : Quiet s (setChatInput s value) :=
  ⟨⟨rfl, rfl, rfl, rfl, rfl, rfl, rfl, rfl⟩, rfl⟩

theorem setHeroInput_quiet (s : Page Sid) (value : Str) : Quiet s (setHeroInput s value) :=
  ⟨⟨rfl, rfl, rfl, rfl, rfl, rfl, rfl, rfl⟩, rfl⟩

theorem setScreen_quiet (s : Page Sid) (screen : Screen) : Quiet s (setScreen s screen) :=
  ⟨⟨rfl, rfl, rfl, rfl, rfl, rfl, rfl, rfl⟩, rfl⟩

theorem notice_quiet (s : Page Sid) (text : Str) : Quiet s (notice s text) :=
  ⟨⟨rfl, rfl, rfl, rfl, rfl, rfl, rfl, rfl⟩, rfl⟩

theorem park_quiet (s : Page Sid) (question : Str) (carried : Bool) : Quiet s (park s question carried) := by
  unfold park
  split
  · exact setChatInput_quiet s question
  · exact .refl s

theorem enterChat_quiet (s : Page Sid) (q : Str) (carryHeroText : Bool) : Quiet s (enterChat js s q carryHeroText) := by
  unfold enterChat
  extract_lets carried entered₀ entered
  have hentered : Quiet s entered := by
    refine (setScreen_quiet s .chat).trans ?_
    simp only [entered]
    split
    · exact (setChatInput_quiet _ _).trans (setHeroInput_quiet _ _)
    · exact .refl _
  split
  · exact hentered
  · split
    · exact hentered.trans (park_quiet entered q carried)
    · exact hentered.trans ⟨⟨rfl, rfl, rfl, rfl, rfl, rfl, rfl, rfl⟩, rfl⟩

theorem askHero_quiet (s : Page Sid) : Quiet s (askHero js s) := by
  unfold askHero
  extract_lets q
  split
  · exact .refl s
  · exact (setHeroInput_quiet s []).trans (enterChat_quiet _ q false)

theorem routeQuestion_shown {s t : Page Sid} {text : Str} (h : Same s t) (hlast : t.lastQuestion = some text)
    (gated : Bool) : Shown s text (routeQuestion js t text gated) := by
  unfold routeQuestion
  split
  · have hquiet : Quiet t (notice { t with failedQuestions := norm js text :: t.failedQuestions } signInNotice) :=
      ⟨⟨rfl, rfl, rfl, rfl, rfl, rfl, rfl, rfl⟩, rfl⟩
    exact ⟨_, h.trans hquiet.toSame, hquiet.lastQuestion.trans hlast, .inl rfl⟩
  · exact ⟨t, h, hlast, .inr rfl⟩

theorem send_cases (js : Js) (s : Page Sid) (messages : List (ChatMessage Sid)) (text : Str) (gated : Bool) :
    Quiet s (send js s messages text gated) ∨ Shown s text (send js s messages text gated) := by
  unfold send
  split
  · split
    · refine .inr (routeQuestion_shown ?_ rfl gated)
      exact ⟨rfl, rfl, rfl, rfl, rfl, rfl, rfl, rfl⟩
    · exact .inl (.refl s)
  · refine .inr (routeQuestion_shown ?_ rfl gated)
    exact ⟨rfl, rfl, rfl, rfl, rfl, rfl, rfl, rfl⟩

/-- The composer and the landing page send a question only while none is in flight. -/
theorem submitChat_cases (js : Js) (s : Page Sid) (gated : Bool) :
    Quiet s (submitChat js s gated) ∨ s.inFlight = 0 ∧ ∃ text, Shown s text (submitChat js s gated) := by
  unfold submitChat
  extract_lets t
  split
  · exact .inl (.refl s)
  · rename_i hsends
    have hfree : s.inFlight = 0 := by
      by_contra hbusy
      exact hsends (.inr (.inr hbusy))
    rcases send_cases js (setChatInput s []) s.rendered.messages t gated with hquiet | hshown
    · exact .inl ((setChatInput_quiet s []).trans hquiet)
    · exact .inr ⟨hfree, t, (setChatInput_quiet s []).shown hshown⟩

theorem timeout_cases (js : Js) (s : Page Sid) (t : Parked Sid) (gated : Bool) :
    Quiet s (timeout js s t gated) ∨ s.inFlight = 0 ∧ ∃ text, Shown s text (timeout js s t gated) := by
  unfold timeout
  split
  · exact .inl (park_quiet s t.question t.carried)
  · rename_i hfree
    rcases send_cases js s t.messages t.question gated with hquiet | hshown
    · exact .inl hquiet
    · exact .inr ⟨not_not.mp hfree, t.question, hshown⟩

end

/-- What a step can do. -/
inductive Moves (s : Page Sid) : Label Sid → Page Sid → Prop
  | quiet {l s'} (h : Quiet s s') : Moves s l s'
  | shown {l s' text} (hfree : s.inFlight = 0 ∨ ∃ q gated, l = .suggestion q gated) (h : Shown s text s') :
    Moves s l s'
  | created {p sid} (h : p ∈ s.creations) : Moves s (.createSession p (.ok sid)) (sessionCreated s p sid)
  | uncreated {p e} (h : p ∈ s.creations) : Moves s (.createSession p (.error e)) (sessionFailed js s p e)
  | answered {a sid answer} (hstage : a.stage = .asking sid) (h : a ∈ s.asks) :
    Moves s (.askQuestion a (.ok answer)) (answered js s a sid answer)
  | failed {a sid e} (hstage : a.stage = .asking sid) (h : a ∈ s.asks) :
    Moves s (.askQuestion a (.error e)) (failAsk js { s with asks := s.asks.erase a } a.text (some sid) e)
  | resumed {sid messages} {t : Page Sid} (h : Quiet s t) (hepoch : s.resumeEpoch = t.resumeEpoch) :
    Moves s (.getSession s.resumeEpoch (.ok (sid, messages))) (resumed t t.resumeEpoch sid messages)

theorem step_moves {js : Js} {s s' : Page Sid} {l : Label Sid} (h : step js s l = some s') : Moves js s l s' := by
  cases l with
  | render =>
    cases h
    exact .quiet ⟨⟨rfl, rfl, rfl, rfl, rfl, rfl, rfl, rfl⟩, rfl⟩
  | typeHero value =>
    cases h
    exact .quiet (setHeroInput_quiet s value)
  | typeChat value =>
    cases h
    exact .quiet (setChatInput_quiet s value)
  | submitChat gated =>
    obtain ⟨-, h⟩ := Option.ite_none_right_eq_some.mp h
    cases h
    rcases submitChat_cases js s gated with hquiet | ⟨hfree, text, hshown⟩
    · exact .quiet hquiet
    · exact .shown (.inl hfree) hshown
  | askHero =>
    obtain ⟨-, h⟩ := Option.ite_none_right_eq_some.mp h
    cases h
    exact .quiet (askHero_quiet s)
  | enterChat q =>
    cases h
    exact .quiet (enterChat_quiet s q true)
  | timeout t gated =>
    obtain ⟨-, h⟩ := Option.ite_none_right_eq_some.mp h
    cases h
    have htaken : Quiet s { s with timers := s.timers.erase t } := ⟨⟨rfl, rfl, rfl, rfl, rfl, rfl, rfl, rfl⟩, rfl⟩
    rcases timeout_cases js { s with timers := s.timers.erase t } t gated with hquiet | ⟨hfree, text, hshown⟩
    · exact .quiet (htaken.trans hquiet)
    · exact .shown (.inl hfree) (htaken.shown hshown)
  | suggestion q gated =>
    obtain ⟨-, h⟩ := Option.ite_none_right_eq_some.mp h
    cases h
    rcases send_cases js s s.rendered.messages q gated with hquiet | hshown
    · exact .quiet hquiet
    · exact .shown (.inr ⟨q, gated, rfl⟩) hshown
  | backToLanding =>
    cases h
    exact .quiet ((setScreen_quiet s .landing).trans (setHeroInput_quiet _ []))
  | createSession p reply =>
    cases reply with
    | ok sid =>
      obtain ⟨hp, h⟩ := Option.ite_none_right_eq_some.mp h
      cases h
      exact .created hp
    | error e =>
      obtain ⟨hp, h⟩ := Option.ite_none_right_eq_some.mp h
      cases h
      exact .uncreated hp
  | askQuestion a reply =>
    simp only [step] at h
    split at h
    · cases h
    · rename_i sid hstage
      obtain ⟨ha, h⟩ := Option.ite_none_right_eq_some.mp h
      cases h
      cases reply with
      | ok answer => exact .answered hstage ha
      | error e => exact .failed hstage ha
  | resumeSession =>
    cases h
    exact .quiet ⟨⟨rfl, rfl, rfl, rfl, rfl, rfl, rfl, rfl⟩, rfl⟩
  | getSession epoch reply =>
    obtain ⟨-, h⟩ := Option.ite_none_right_eq_some.mp h
    have htaken : Quiet s { s with resumes := s.resumes.erase epoch } :=
      ⟨⟨rfl, rfl, rfl, rfl, rfl, rfl, rfl, rfl⟩, rfl⟩
    cases reply with
    | ok reply =>
      cases h
      by_cases hepoch : epoch = s.resumeEpoch
      · subst hepoch
        exact .resumed htaken rfl
      · refine .quiet (htaken.trans ?_)
        dsimp only
        rw [resumed, if_pos hepoch]
        exact .refl _
    | error e =>
      cases h
      refine .quiet (htaken.trans ?_)
      dsimp only
      split
      · exact .refl _
      · exact notice_quiet _ e.notice

/-! ## The questions in flight -/

/-- `n` questions have failed. -/
structure Failed (s : Page Sid) (n : Nat) (s' : Page Sid) : Prop where
  inFlight : s'.inFlight = s.inFlight - n
  asks : s'.asks = s.asks
  sessionId : s'.sessionId = s.sessionId ∨ s'.sessionId = none
  sessionPromise : s'.sessionPromise = s.sessionPromise ∨ s'.sessionPromise = none
  creations : s'.creations = s.creations
  onScreen : s'.onScreen = s.onScreen
  lastQuestion : s'.lastQuestion = s.lastQuestion
  sent : s'.sent = s.sent
  answers : s'.answers = s.answers

theorem failAsk_failed {js : Js} (s : Page Sid) (text : Str) (e : Failure) : Failed s 1 (failAsk js s text none e) := by
  unfold failAsk
  cases e.notFound with
  | false => exact ⟨rfl, rfl, .inl rfl, .inl rfl, rfl, rfl, rfl, rfl, rfl⟩
  | true =>
    refine ⟨rfl, rfl, .inr rfl, .inr rfl, rfl, ?_, rfl, rfl, rfl⟩
    show (if s.onScreen = none then none else s.onScreen) = s.onScreen
    split
    · rename_i hnone
      exact hnone.symm
    · rfl

theorem failAsk_foldl {js : Js} (asks : List (Ask Sid)) (s : Page Sid) (e : Failure) :
    Failed s asks.length (asks.foldl (fun s a => failAsk js s a.text none e) s) := by
  induction asks generalizing s with
  | nil => exact ⟨rfl, rfl, .inl rfl, .inl rfl, rfl, rfl, rfl, rfl, rfl⟩
  | cons a asks ih =>
    have hone : Failed s 1 (failAsk js s a.text none e) := failAsk_failed s a.text e
    have hrest := ih (failAsk js s a.text none e)
    rw [List.foldl_cons]
    exact {
      inFlight := by rw [hrest.inFlight, hone.inFlight, List.length_cons]; omega
      asks := hrest.asks.trans hone.asks
      sessionId := by
        rcases hrest.sessionId with h | h
        · rw [h]
          exact hone.sessionId
        · exact .inr h
      sessionPromise := by
        rcases hrest.sessionPromise with h | h
        · rw [h]
          exact hone.sessionPromise
        · exact .inr h
      creations := hrest.creations.trans hone.creations
      onScreen := hrest.onScreen.trans hone.onScreen
      lastQuestion := hrest.lastQuestion.trans hone.lastQuestion
      sent := hrest.sent.trans hone.sent
      answers := hrest.answers.trans hone.answers }

/-- The state that `sessionFailed` ends the questions in. -/
def forgotten (s : Page Sid) (p : Nat) : Page Sid :=
  { s with
    creations := s.creations.filter (· ≠ p)
    sessionPromise := none
    asks := s.asks.filter fun a => a.stage ≠ .ensuring p }

theorem sessionFailed_failed (js : Js) (s : Page Sid) (p : Nat) (e : Failure) :
    Failed (forgotten s p) (waiting s p).length (sessionFailed js s p e) :=
  failAsk_foldl (waiting s p) (forgotten s p) e

omit [DecidableEq Sid] in
/-- A question is counted and listed. -/
theorem ensureSession_asks (s : Page Sid) (text : Str) :
    (ensureSession s text).inFlight = s.inFlight + 1 ∧ (ensureSession s text).lastQuestion = s.lastQuestion ∧
      ∃ stage, (ensureSession s text).asks = ⟨text, stage⟩ :: s.asks := by
  unfold ensureSession
  dsimp only
  split
  · exact ⟨rfl, rfl, _, rfl⟩
  · exact ⟨rfl, rfl, _, rfl⟩
  · exact ⟨rfl, rfl, _, rfl⟩

/-- The gate counts the questions that are under way. -/
def Counted (s : Page Sid) : Prop := s.inFlight = s.asks.length

theorem Counted.kept {js : Js} {s s' : Page Sid} {l : Label Sid} (hc : Counted s) (hstep : step js s l = some s') :
    Counted s' := by
  unfold Counted at *
  cases step_moves hstep with
  | quiet h => rw [h.inFlight, h.asks, hc]
  | shown _ h =>
    obtain ⟨t, hsame, -, rfl | rfl⟩ := h
    · rw [hsame.inFlight, hsame.asks, hc]
    · obtain ⟨hinFlight, -, stage, hasks⟩ := ensureSession_asks t _
      rw [hinFlight, hasks, List.length_cons, hsame.inFlight, hsame.asks, hc]
  | created _ => exact hc.trans (List.length_map _).symm
  | @uncreated p e _ =>
    have hf := sessionFailed_failed js s p e
    rw [hf.inFlight, hf.asks]
    show s.inFlight - (s.asks.filter fun a => a.stage = .ensuring p).length =
      (s.asks.filter fun a => a.stage ≠ .ensuring p).length
    have := List.length_eq_length_filter_add (l := s.asks) fun a => decide (a.stage = .ensuring p)
    simp only [decide_not]
    omega
  | answered _ h =>
    show s.inFlight - 1 = (s.asks.erase _).length
    rw [List.length_erase_of_mem h, hc]
  | @failed a sid e _ h =>
    have hone : s.inFlight - 1 = (s.asks.erase a).length := by rw [List.length_erase_of_mem h, hc]
    unfold failAsk
    cases e.notFound with
    | false => exact hone
    | true => exact hone
  | resumed h _ =>
    unfold resumed
    rw [if_neg (not_not.mpr rfl)]
    exact h.inFlight.trans (hc.trans (congrArg List.length h.asks.symm))

/-- At most one question is in flight, and it is the last one that was shown. -/
structure Single (s : Page Sid) : Prop where
  counted : Counted s
  single : s.asks.length ≤ 1
  last : ∀ a ∈ s.asks, s.lastQuestion = some a.text

/-- A suggestion is not picked while a question is in flight. -/
def Waits (s : Page Sid) : Label Sid → Prop
  | .suggestion _ _ => s.inFlight = 0
  | _ => True

instance (s : Page Sid) (l : Label Sid) : Decidable (Waits s l) := by
  unfold Waits
  split <;> infer_instance

theorem Single.kept {js : Js} {s s' : Page Sid} {l : Label Sid} (hs : Single s) (hok : Waits s l)
    (hstep : step js s l = some s') : Single s' := by
  have hrest : s'.asks.length ≤ 1 ∧ ∀ a ∈ s'.asks, s'.lastQuestion = some a.text := by
    cases step_moves hstep with
    | quiet h =>
      rw [h.asks, h.lastQuestion]
      exact ⟨hs.single, hs.last⟩
    | shown hfree h =>
      have hidle : s.asks = [] := by
        refine List.length_eq_zero_iff.mp (hs.counted.symm.trans ?_)
        rcases hfree with hfree | ⟨q, gated, rfl⟩
        · exact hfree
        · exact hok
      obtain ⟨t, hsame, hlast, rfl | rfl⟩ := h
      · rw [hsame.asks, hidle]
        exact ⟨Nat.zero_le 1, fun _ ha => (by cases ha)⟩
      · obtain ⟨-, hkept, stage, hasks⟩ := ensureSession_asks t _
        rw [hasks, hkept, hsame.asks, hidle, hlast]
        exact ⟨le_rfl, fun a ha => by rw [List.mem_singleton.mp ha]⟩
    | created _ =>
      refine ⟨(List.length_map _).trans_le hs.single, fun a ha => ?_⟩
      obtain ⟨b, hb, rfl⟩ := List.mem_map.mp ha
      split
      · exact hs.last b hb
      · exact hs.last b hb
    | @uncreated p e _ =>
      have hf := sessionFailed_failed js s p e
      rw [hf.asks, hf.lastQuestion]
      exact ⟨(List.length_filter_le _ _).trans hs.single, fun a ha => hs.last a (List.mem_of_mem_filter ha)⟩
    | @answered a _ _ _ _ =>
      exact ⟨(List.length_erase_le).trans hs.single, fun b hb => hs.last b (List.mem_of_mem_erase hb)⟩
    | @failed a sid e _ _ =>
      have herased : (s.asks.erase a).length ≤ 1 ∧ ∀ b ∈ s.asks.erase a, s.lastQuestion = some b.text :=
        ⟨(List.length_erase_le).trans hs.single, fun b hb => hs.last b (List.mem_of_mem_erase hb)⟩
      unfold failAsk
      cases e.notFound with
      | false => exact herased
      | true => exact herased
    | resumed h _ =>
      unfold resumed
      rw [if_neg (not_not.mpr rfl)]
      exact ⟨(congrArg List.length h.asks).trans_le hs.single,
        fun a ha => h.lastQuestion.trans (hs.last a (h.asks ▸ ha))⟩
  exact ⟨hs.counted.kept hstep, hrest.1, hrest.2⟩

omit [DecidableEq Sid] in
theorem Single.new : Single (Page.new : Page Sid) := ⟨rfl, Nat.zero_le 1, fun _ h => by cases h⟩

/-- In every run in which no suggestion is picked while a question is in flight, at most one
question is in flight, and it is the last one that the page has shown. -/
theorem one_in_flight (js : Js) (ls : List (Label Sid)) (s : Page Sid) (hok : Along (step js) Waits Page.new ls)
    (hrun : exec (step js) Page.new ls = some s) :
    s.asks.length ≤ 1 ∧ ∀ a ∈ s.asks, s.lastQuestion = some a.text := by
  have hs : Single s := exec_invariant (fun _ _ _ hs hok h => hs.kept hok h) Single.new hok hrun
  exact ⟨hs.single, hs.last⟩

def exampleJs : Js := ⟨Text.strip, fun text => text.map Char.toLower⟩

/-- A visitor enters the chat and picks the first suggestion. -/
def examplePick : List (Label Nat) :=
  [.enterChat [], .render, .suggestion "What is Claude Code?".toList false, .render]

/-- The composer refuses while the question is in flight, and sends once it is answered. -/
theorem one_in_flight_refused :
    ∃ s, exec (step exampleJs) Page.new (examplePick ++ [.createSession 0 (.ok 1),
        .typeChat "And Codex?".toList, .render, .submitChat false]) = some s ∧
      s.asks.map Ask.text = ["What is Claude Code?".toList] ∧ s.state.chatInput = "And Codex?".toList ∧
      s.asks.length ≤ 1 := by
  have hrun : ∃ s ∈ exec (step exampleJs) Page.new (examplePick ++ [.createSession 0 (.ok 1),
      .typeChat "And Codex?".toList, .render, .submitChat false]),
      s.asks.map Ask.text = ["What is Claude Code?".toList] ∧ s.state.chatInput = "And Codex?".toList := by
    decide +kernel
  obtain ⟨s, hs, hasks, hinput⟩ := hrun
  refine ⟨s, hs, hasks, hinput, ?_⟩
  exact (one_in_flight exampleJs _ s (by decide +kernel) hs).1

/-- A session without messages is resumed while a question is in flight: the suggestions are
there again, and the second question is sent too. -/
theorem two_in_flight :
    ∃ s, exec (step exampleJs) Page.new (examplePick ++ [.createSession 0 (.ok 1), .resumeSession,
        .getSession 1 (.ok (2, [])), .render,
        .suggestion "How do I stream responses from the Gemini API?".toList false]) = some s ∧
      s.asks.length = 2 ∧ ∃ a ∈ s.asks, s.lastQuestion ≠ some a.text := by
  decide +kernel

/-! ## The session on screen -/

/-- A question or an answer goes where the transcript on screen is from, a question to a new
session where there is none. -/
def Record.right (r : Record Sid) : Prop := r.onScreen = some r.session ∨ r.onScreen = none ∧ r.created

/-- The stage of a question and the session on screen. -/
def Stage.aligned (s : Page Sid) : Stage Sid → Prop
  | .ensuring p => p ∈ s.creations
  | .asking sid => s.onScreen = some sid

structure Aligned (s : Page Sid) : Prop where
  session : s.sessionId = s.onScreen
  pending : ∀ p ∈ s.creations, s.sessionPromise = some p ∧ s.onScreen = none ∧ ∃ a ∈ s.asks, a.stage = .ensuring p
  promised : s.sessionId = none → ∀ p, s.sessionPromise = some p → p ∈ s.creations
  asks : ∀ a ∈ s.asks, a.stage.aligned s
  sent : ∀ r ∈ s.sent, r.right
  answers : ∀ r ∈ s.answers, r.onScreen = some r.session

/-- While a question is under way, no session is shown but the one it has been sent to, and
a session that is gone has no other question under way. -/
def Keeps (s : Page Sid) : Label Sid → Prop
  | .getSession epoch (.ok (sid, _)) => epoch = s.resumeEpoch → ∀ a ∈ s.asks, a.stage = .asking sid
  | .askQuestion a (.error e) => e.notFound → s.asks.erase a = []
  | _ => True

instance (s : Page Sid) (l : Label Sid) : Decidable (Keeps s l) := by
  unfold Keeps
  split <;> infer_instance

section

variable {js : Js} {s s' : Page Sid} {text : Str}

omit [DecidableEq Sid] in
theorem Aligned.same (ha : Aligned s) (h : Same s s') : Aligned s' where
  session := by rw [h.sessionId, h.onScreen, ha.session]
  pending := by
    rw [h.creations, h.sessionPromise, h.onScreen, h.asks]
    exact ha.pending
  promised := by
    rw [h.sessionId, h.sessionPromise, h.creations]
    exact ha.promised
  asks a hmem := by
    have := ha.asks a (h.asks ▸ hmem)
    unfold Stage.aligned at *
    rwa [h.creations, h.onScreen]
  sent := h.sent ▸ ha.sent
  answers := h.answers ▸ ha.answers

omit [DecidableEq Sid] in
/-- While a session is on screen, none is being created. -/
theorem Aligned.settled (ha : Aligned s) {sid : Sid} (h : s.onScreen = some sid) : s.creations = [] := by
  refine List.eq_nil_iff_forall_not_mem.mpr fun p hp => ?_
  rw [(ha.pending p hp).2.1] at h
  cases h

omit [DecidableEq Sid] in
/-- Only one session is being created at a time. -/
theorem Aligned.only (ha : Aligned s) {p q : Nat} (hp : p ∈ s.creations) (hq : q ∈ s.creations) : p = q :=
  Option.some.inj ((ha.pending p hp).1.symm.trans (ha.pending q hq).1)

omit [DecidableEq Sid] in
theorem Aligned.ensureSession (ha : Aligned s) : Aligned (ensureSession s text) := by
  unfold Landing.ensureSession
  dsimp only
  split
  · rename_i sid hsid
    have hscreen : s.onScreen = some sid := ha.session ▸ hsid
    exact {
      session := ha.session
      pending := fun p hp => by
        rw [ha.settled hscreen] at hp
        cases hp
      promised := ha.promised
      asks := List.forall_mem_cons.mpr ⟨hscreen, ha.asks⟩
      sent := List.forall_mem_cons.mpr ⟨.inl hscreen, ha.sent⟩
      answers := ha.answers }
  · rename_i p hsid hp
    exact {
      session := ha.session
      pending := fun q hq => by
        obtain ⟨hpromise, hscreen, a, hmem, hstage⟩ := ha.pending q hq
        exact ⟨hpromise, hscreen, a, List.mem_cons_of_mem _ hmem, hstage⟩
      promised := ha.promised
      asks := List.forall_mem_cons.mpr ⟨ha.promised hsid p hp, ha.asks⟩
      sent := ha.sent
      answers := ha.answers }
  · rename_i hsid hp
    have hnone : s.creations = [] := by
      refine List.eq_nil_iff_forall_not_mem.mpr fun q hq => ?_
      rw [(ha.pending q hq).1] at hp
      cases hp
    exact {
      session := ha.session
      pending := fun q hq => by
        rw [hnone] at hq
        obtain rfl := List.mem_singleton.mp hq
        exact ⟨rfl, ha.session ▸ hsid, _, List.mem_cons_self, rfl⟩
      promised := fun _ q hq => by
        obtain rfl := Option.some.inj hq
        exact List.mem_cons_self
      asks := List.forall_mem_cons.mpr ⟨List.mem_cons_self, fun a hmem => by
        have := ha.asks a hmem
        unfold Stage.aligned at *
        split at this
        · exact List.mem_cons_of_mem _ this
        · exact this⟩
      sent := ha.sent
      answers := ha.answers }

theorem Aligned.sessionCreated (ha : Aligned s) {p : Nat} (hp : p ∈ s.creations) (sid : Sid) :
    Aligned (sessionCreated s p sid) := by
  obtain ⟨hpromise, hscreen, -⟩ := ha.pending p hp
  have hcreations : s.creations.filter (· ≠ p) = [] := by
    refine List.filter_eq_nil_iff.mpr fun q hq => ?_
    simp [ha.only hq hp]
  exact {
    session := by
      show some sid = s.onScreen.or (some sid)
      rw [hscreen, Option.none_or]
    pending := fun q hq => by
      rw [show (Landing.sessionCreated s p sid).creations = [] from hcreations] at hq
      cases hq
    promised := fun h => by cases h
    asks := fun a hmem => by
      obtain ⟨b, hb, rfl⟩ := List.mem_map.mp hmem
      have hb := ha.asks b hb
      show Stage.aligned _ _
      split
      · show s.onScreen.or (some sid) = some sid
        rw [hscreen, Option.none_or]
      · rename_i hother
        unfold Stage.aligned at hb
        split at hb
        · rename_i q hstage
          exact absurd (ha.only hb hp ▸ hstage) hother
        · rw [hscreen] at hb
          cases hb
    sent := fun r hr => by
      rcases List.mem_append.mp hr with hr | hr
      · obtain ⟨a, -, rfl⟩ := List.mem_map.mp hr
        exact .inr ⟨hscreen, rfl⟩
      · exact ha.sent r hr
    answers := ha.answers }

theorem Aligned.sessionFailed (ha : Aligned s) {p : Nat} (hp : p ∈ s.creations) (e : Failure) :
    Aligned (sessionFailed js s p e) := by
  have hf := sessionFailed_failed js s p e
  obtain ⟨-, hscreen, -⟩ := ha.pending p hp
  have hsession : s.sessionId = none := ha.session.trans hscreen
  have hcreations : (forgotten s p).creations = [] := by
    refine List.filter_eq_nil_iff.mpr fun q hq => ?_
    simp [ha.only hq hp]
  have hpromise : (Landing.sessionFailed js s p e).sessionPromise = none := by
    rcases hf.sessionPromise with h | h
    · exact h
    · exact h
  exact {
    session := by
      rw [hf.onScreen]
      rcases hf.sessionId with h | h
      · rw [h]
        exact ha.session
      · rw [h]
        exact hscreen.symm
    pending := fun q hq => by
      rw [hf.creations, hcreations] at hq
      cases hq
    promised := fun _ q hq => by
      rw [hpromise] at hq
      cases hq
    asks := fun a hmem => by
      rw [hf.asks] at hmem
      obtain ⟨hmem, hother⟩ := List.mem_filter.mp hmem
      have hstage := ha.asks a hmem
      unfold Stage.aligned at *
      split at hstage
      · rename_i q hq
        exact absurd (ha.only hstage hp ▸ hq) (of_decide_eq_true hother)
      · rw [hscreen] at hstage
        cases hstage
    sent := hf.sent ▸ ha.sent
    answers := hf.answers ▸ ha.answers }

/-- A question that has been sent ends. -/
theorem Aligned.ended (ha : Aligned s) {a : Ask Sid} {sid : Sid} (hscreen : s.onScreen = some sid)
    (hsession : s'.sessionId = s.sessionId) (hpromise : s'.sessionPromise = s.sessionPromise)
    (hcreations : s'.creations = s.creations) (hasks : s'.asks = s.asks.erase a) (hkept : s'.onScreen = s.onScreen)
    (hsent : s'.sent = s.sent) (hanswers : ∀ r ∈ s'.answers, r.onScreen = some r.session) : Aligned s' where
  session := by rw [hsession, hkept, ha.session]
  pending p hp := by
    rw [hcreations, ha.settled hscreen] at hp
    cases hp
  promised := by
    rw [hsession, hpromise, hcreations]
    exact ha.promised
  asks b hb := by
    rw [hasks] at hb
    have := ha.asks b (List.mem_of_mem_erase hb)
    unfold Stage.aligned at *
    rwa [hcreations, hkept]
  sent := hsent ▸ ha.sent
  answers := hanswers

theorem Aligned.answered (ha : Aligned s) {a : Ask Sid} {sid : Sid} (hstage : a.stage = .asking sid)
    (hmem : a ∈ s.asks) (answer : Str) : Aligned (answered js s a sid answer) := by
  have hscreen : s.onScreen = some sid := by
    have := ha.asks a hmem
    rwa [hstage] at this
  exact ha.ended hscreen rfl rfl rfl rfl rfl rfl (List.forall_mem_cons.mpr ⟨hscreen, ha.answers⟩)

theorem Aligned.failed (ha : Aligned s) {a : Ask Sid} {sid : Sid} (hstage : a.stage = .asking sid)
    (hmem : a ∈ s.asks) {e : Failure} (hlast : e.notFound → s.asks.erase a = []) :
    Aligned (failAsk js { s with asks := s.asks.erase a } a.text (some sid) e) := by
  have hscreen : s.onScreen = some sid := by
    have := ha.asks a hmem
    rwa [hstage] at this
  unfold failAsk
  cases hfound : e.notFound with
  | false => exact ha.ended hscreen rfl rfl rfl rfl rfl rfl ha.answers
  | true =>
    exact {
      session := by
        show none = if s.onScreen = some sid then none else s.onScreen
        rw [if_pos hscreen]
      pending := fun p hp => by
        rw [show s.creations = [] from ha.settled hscreen] at hp
        cases hp
      promised := fun _ _ h => by cases h
      asks := fun b hb => by
        rw [show s.asks.erase a = [] from hlast hfound] at hb
        cases hb
      sent := ha.sent
      answers := ha.answers }

omit [DecidableEq Sid] in
theorem Aligned.resumed (ha : Aligned s) {sid : Sid} (hasks : ∀ a ∈ s.asks, a.stage = .asking sid)
    (messages : List StoredMessage) : Aligned (resumed s s.resumeEpoch sid messages) := by
  unfold Landing.resumed
  rw [if_neg (not_not.mpr rfl)]
  exact {
    session := rfl
    pending := fun p hp => by
      -- a creation that is pending has a question that waits for it
      obtain ⟨-, -, a, hmem, hstage⟩ := ha.pending p hp
      rw [hasks a hmem] at hstage
      cases hstage
    promised := fun h => by cases h
    asks := fun a hmem => by
      rw [hasks a hmem]
      rfl
    sent := ha.sent
    answers := ha.answers }

theorem Aligned.kept {l : Label Sid} (ha : Aligned s) (hok : Keeps s l) (hstep : step js s l = some s') :
    Aligned s' := by
  cases step_moves hstep with
  | quiet h => exact ha.same h.toSame
  | shown _ h =>
    obtain ⟨t, hsame, -, rfl | rfl⟩ := h
    · exact ha.same hsame
    · exact (ha.same hsame).ensureSession
  | created h => exact ha.sessionCreated h _
  | uncreated h => exact ha.sessionFailed h _
  | answered hstage h => exact ha.answered hstage h _
  | failed hstage h => exact ha.failed hstage h hok
  | resumed h _ => exact (ha.same h.toSame).resumed (fun a hmem => hok rfl a (h.asks ▸ hmem)) _

omit [DecidableEq Sid] in
theorem Aligned.new : Aligned (Page.new : Page Sid) where
  session := rfl
  pending _ h := by cases h
  promised _ _ h := by cases h
  asks _ h := by cases h
  sent _ h := by cases h
  answers _ h := by cases h

end

/-- In every run in which a session is shown only while no question is under way but in that
session, and a question ends with a 404 only while no other is under way: every question has
been sent to the session on screen, or to a new one where there was none, and every answer
has been appended while the session on screen was the one of its question. -/
theorem sessions_aligned (js : Js) (ls : List (Label Sid)) (s : Page Sid) (hok : Along (step js) Keeps Page.new ls)
    (hrun : exec (step js) Page.new ls = some s) :
    (∀ r ∈ s.sent, r.onScreen = some r.session ∨ r.onScreen = none ∧ r.created) ∧
      ∀ r ∈ s.answers, r.onScreen = some r.session := by
  have ha : Aligned s := exec_invariant (fun _ _ _ ha hok h => ha.kept hok h) Aligned.new hok hrun
  exact ⟨ha.sent, ha.answers⟩

/-- A question is answered in its new session, another session is resumed, and the next
question goes there. -/
def exampleResume : List (Label Nat) :=
  examplePick ++ [.createSession 0 (.ok 1), .askQuestion ⟨"What is Claude Code?".toList, .asking 1⟩ (.ok "A CLI [1].".toList),
    .resumeSession, .getSession 1 (.ok (2, [⟨.user, "Hi".toList⟩, ⟨.bot, "Hello".toList⟩])),
    .typeChat "And Codex?".toList, .render, .submitChat false,
    .askQuestion ⟨"And Codex?".toList, .asking 2⟩ (.ok "Yes.".toList)]

theorem sessions_aligned_resumed :
    ∃ s, exec (step exampleJs) Page.new exampleResume = some s ∧
      s.sent.map Record.session = [2, 1] ∧ s.answers.map Record.onScreen = [some 2, some 1] ∧
      ∀ r ∈ s.answers, r.onScreen = some r.session := by
  have hrun : ∃ s ∈ exec (step exampleJs) Page.new exampleResume,
      s.sent.map Record.session = [2, 1] ∧ s.answers.map Record.onScreen = [some 2, some 1] := by
    decide +kernel
  obtain ⟨s, hs, hsent, hanswers⟩ := hrun
  exact ⟨s, hs, hsent, hanswers, (sessions_aligned exampleJs exampleResume s (by decide +kernel) hs).2⟩

/-- A session is resumed while the first question waits for its own: the question is sent to
the new session and the next one after it, and the answer is appended, all while the resumed
session is on screen. -/
theorem sessions_mixed :
    ∃ s, exec (step exampleJs) Page.new (examplePick ++ [.resumeSession,
        .getSession 1 (.ok (2, [⟨.user, "Hi".toList⟩, ⟨.bot, "Hello".toList⟩])), .createSession 0 (.ok 1),
        .askQuestion ⟨"What is Claude Code?".toList, .asking 1⟩ (.ok "A CLI [1].".toList),
        .typeChat "And Codex?".toList, .render, .submitChat false]) = some s ∧
      s.sent.map (fun r => (r.session, r.onScreen)) = [(1, some 2), (1, some 2)] ∧
      s.answers.map (fun r => (r.session, r.onScreen)) = [(1, some 2)] := by
  decide +kernel

end CiteVyn.Frontend.Landing
