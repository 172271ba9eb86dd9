import CiteVyn.Lib.Effects
import CiteVyn.Services.SharedAnswerPage
import CiteVyn.Watch.Runner

/-! # Fetching a page

`app/watch/fetch.py`, and the fetches of `run_watch` in `app/watch/runner.py`: what they
ask for, of whom, and what they accept. The deadline of a page cuts its fetch off where
it waits for an answer. -/
namespace CiteVyn.Watch
open CiteVyn.Lib.Effects CiteVyn.Text
open CiteVyn.Services.SharedAnswerPage (SplitResult Urls natText urlsplit)

/-! ## Answers -/

/-- What goes wrong with a request or with the body of its answer. -/
inductive Failure where
  /-- `httpx.HTTPError`, by the name of its type -/
  | httpError (name : Str)
  /-- `_BAD_URL` -/
  | badUrl
  /-- the deadline -/
  | cancelled
  deriving DecidableEq, Repr

/-- A response: its headers, and the chunks of its body up to where it breaks off. -/
structure Response where
  statusCode : Nat
  location : Option Str
  contentType : Str
  encoding : Option Str
  chunks : List (List UInt8)
  broken : Option Failure
  deriving DecidableEq, Repr

inductive Outcome where
  | response (res : Response)
  | failure (f : Failure)
  deriving DecidableEq, Repr

/-- What a fetch raises. -/
inductive Raised where
  /-- `FetchError` -/
  | fetchError (message : Str)
  | cancelled
  /-- a `ValueError` that nothing catches -/
  | valueError
  deriving DecidableEq, Repr

/-- What the fetches of a run do. -/
inductive Event (R : Type) where
  /-- a request for a host's rules, or a redirect of one -/
  | robots (url : Str)
  /-- a host's rules are kept -/
  | loaded (host : Str) (rules : Option R)
  /-- a request for a page -/
  | page (url : Str)
  deriving DecidableEq

/-- A run so far. -/
structure Session (R : Type) where
  /-- `RobotsCache._rules` -/
  rules : List (Str × Option R)
  /-- the latest first; nothing reads it -/
  events : List (Event R)
  /-- what the next requests meet -/
  coming : List Outcome

abbrev Fetch (R A : Type) := Effect (Session R) Raised A

structure Config (R : Type) where
  urls : Urls
  /-- `urljoin`; none is its `ValueError` -/
  urljoin : Str → Str → Option Str
  /-- `bytes.decode` with the encoding, if there is one, and `errors="replace"` -/
  decode : Option Str → List UInt8 → Str
  /-- `RobotFileParser.parse` of the lines of a text -/
  parse : Str → R
  /-- `RobotFileParser.can_fetch`; none is its `ValueError` -/
  canFetch : R → Str → Str → Option Bool
  userAgent : Str
  maxBytes : Nat

/-! ## URLs -/

/-- `SplitResult.port`, nothing where it raises `ValueError`. -/
def port (r : SplitResult) : Option (Option Nat) :=
  let hostinfo := afterLast ['@'] r.netloc
  let port := match hostinfo.dropWhile (· ≠ '[') with
    | _ :: bracketed => ((bracketed.dropWhile (· ≠ ']')).dropWhile (· ≠ ':')).drop 1
    | [] => (hostinfo.dropWhile (· ≠ ':')).drop 1
  if port = [] then some none
  else if port.all isAsciiDigit ∧ digitsValue port ≤ 65535 then some (some (digitsValue port))
  else none

/-- `_check`: the message of the `FetchError` it raises. -/
def check (u : Urls) (allowedHosts : List Str) (url : Str) : Except Str Unit :=
  match urlsplit u url with
  | none => .error "malformed URL".toList
  | some parts =>
    match port parts with
    | none => .error "malformed URL".toList
    | some port =>
      if parts.scheme ≠ "https".toList then .error ("not https: ".toList ++ parts.scheme)
      else if parts.hostname = [] then .error "host not on the watch list: None".toList
      else if parts.hostname ∉ allowedHosts then .error ("host not on the watch list: ".toList ++ parts.hostname)
      else
        match port with
        | none => .ok ()
        | some port => if port = 443 then .ok () else .error ("port not allowed: ".toList ++ natText port)

/-! ## Bodies -/

/-- What comes of a body that is read up to a cap. -/
inductive Body where
  | whole (body : List UInt8)
  | over
  | broken (f : Failure)
  deriving DecidableEq, Repr

/-- The chunks are read one after the other, after what has been read. -/
def readBody (cap : Nat) (broken : Option Failure) : List UInt8 → List (List UInt8) → Body
  | body, [] =>
    match broken with
    | none => .whole body
    | some f => .broken f
  | body, chunk :: chunks =>
    if cap < (body ++ chunk).length then .over else readBody cap broken (body ++ chunk) chunks

/-! ## Requests -/

section

variable {R : Type}

/-- The next request; one that is never answered meets the deadline. -/
def request (e : Event R) : Fetch R Outcome := fun s =>
  match s.coming with
  | [] => (.ok (.failure .cancelled), { s with events := e :: s.events })
  | outcome :: coming => (.ok outcome, { s with events := e :: s.events, coming })

/-- `_REDIRECTS`. -/
def redirects : List Nat := [301, 302, 303, 307, 308]

/-- `MAX_ROBOTS_REDIRECTS`. -/
def maxRobotsRedirects : Nat := 5

/-- `MAX_ROBOTS_BYTES`. -/
def maxRobotsBytes : Nat := 512000

variable (config : Config R) (allowedHosts : List Str)

/-- The loop of `RobotsCache._load` with the requests that are left. -/
def load : Nat → Str → Fetch R (Option R)
  | 0, _ => return none
  | left + 1, url =>
    match check config.urls allowedHosts url with
    | .error _ => return none
    | .ok () => do
      match ← request (.robots url) with
      | .failure .cancelled => throw .cancelled
      | .failure _ => return none
      | .response res =>
        if res.statusCode ∈ redirects ∧ res.location.getD [] ≠ [] then
          match config.urljoin url (res.location.getD []) with
          | none => return none
          | some url => load left url
        else if res.statusCode = 429 ∨ 500 ≤ res.statusCode then return none
        else if 400 ≤ res.statusCode then return some (config.parse [])
        else if res.statusCode ≠ 200 then return none
        else
          match readBody maxRobotsBytes res.broken [] res.chunks with
          | .whole body => return some (config.parse (config.decode none body))
          | .over => return none
          | .broken .cancelled => throw .cancelled
          | .broken _ => return none

/-- A host's rules are kept. -/
def keep (host : Str) (rules : Option R) : Fetch R Unit := fun s =>
  (.ok (), { s with rules := (host, rules) :: s.rules, events := .loaded host rules :: s.events })

/-- What a failure of a page's request or body is raised as. -/
def Failure.raised : Failure → Raised
  | .httpError name => .fetchError ("network error: ".toList ++ name)
  | .badUrl => .fetchError "malformed URL or redirect".toList
  | .cancelled => .cancelled

def Event.isRobots : Event R → Bool
  | .robots _ => true
  | _ => false

def Event.isLoaded : Event R → Bool
  | .loaded _ _ => true
  | _ => false

def Event.isPage : Event R → Bool
  | .page _ => true
  | _ => false

/-- The latest event first: every request is for a URL that passes `check`, one for a page
when the rules that are kept for its host allow it, and rules are kept once for a host. -/
def Polite : List (Event R) → Prop
  | [] => True
  | .robots url :: es => check config.urls allowedHosts url = .ok () ∧ Polite es
  | .loaded host _ :: es => (∀ rules, .loaded host rules ∉ es) ∧ Polite es
  | .page url :: es =>
    (check config.urls allowedHosts url = .ok () ∧ ∃ parts rules, urlsplit config.urls url = some parts ∧
      .loaded parts.netloc (some rules) ∈ es ∧ config.canFetch rules config.userAgent url = some true) ∧ Polite es

/-- A run that is polite so far, with bounds on what it has done. -/
structure Spent (robots loads pages : Nat) (s : Session R) : Prop where
  polite : Polite config allowedHosts s.events
  kept : ∀ host rules, s.rules.lookup host = some rules ↔ .loaded host rules ∈ s.events
  robots : s.events.countP Event.isRobots ≤ robots
  loads : loads ≤ s.events.countP Event.isLoaded
  pages : s.events.countP Event.isPage ≤ pages

/-- A load asks at most `maxRobotsRedirects + 1` times, and so does one that is cut off. -/
def Bounded (cutOff pages : Nat) (s : Session R) : Prop :=
  ∃ loads, Spent config allowedHosts ((maxRobotsRedirects + 1) * (loads + cutOff)) loads pages s

end

/-- A fetch that the deadline has cut off may have loaded rules for nothing. -/
def Raised.cutOff : Raised → Nat
  | .cancelled => 1
  | _ => 0

section

variable {R : Type} {config : Config R} {allowedHosts : List Str} {robots loads pages cutOff : Nat} {s : Session R}

theorem Spent.mono {robots' pages' : Nat} (h : Spent config allowedHosts robots loads pages s) (hr : robots ≤ robots')
    (hp : pages ≤ pages') : Spent config allowedHosts robots' loads pages' s :=
  { h with robots := h.robots.trans hr, pages := h.pages.trans hp }

theorem Spent.keep (h : Spent config allowedHosts robots loads pages s) {host : Str} (hnew : s.rules.lookup host = none)
    (rules : Option R) :
    Spent config allowedHosts robots (loads + 1) pages
      { s with rules := (host, rules) :: s.rules, events := .loaded host rules :: s.events } where
  polite := by
    refine ⟨fun rules hmem => ?_, h.polite⟩
    rw [(h.kept host rules).mpr hmem] at hnew
    cases hnew
  kept host' rules' := by
    rw [List.lookup_cons, List.mem_cons, ← h.kept]
    by_cases hhost : host' = host
    · subst hhost
      simp [hnew, eq_comm]
    · rw [beq_false_of_ne hhost]
      simp [hhost]
  robots := by simpa [Event.isRobots] using h.robots
  loads := by
    rw [List.countP_cons_of_pos rfl]
    exact Nat.succ_le_succ h.loads
  pages := by simpa [Event.isPage] using h.pages

/-! ## One fetch -/

theorem Bounded.mono {cutOff' pages' : Nat} (h : Bounded config allowedHosts cutOff pages s) (hc : cutOff ≤ cutOff')
    (hp : pages ≤ pages') : Bounded config allowedHosts cutOff' pages' s := by
  obtain ⟨loads, hspent⟩ := h
  exact ⟨loads, hspent.mono (Nat.mul_le_mul_left _ (Nat.add_le_add_left hc loads)) hp⟩

/-- The URL of a request. -/
def Event.url : Event R → Option Str
  | .robots url | .page url => some url
  | .loaded _ _ => none

theorem Polite.check : ∀ {es : List (Event R)}, Polite config allowedHosts es → ∀ e ∈ es, ∀ url, e.url = some url →
    check config.urls allowedHosts url = .ok ()
  | .robots _ :: es, h, e, he, url, hurl => by
    rcases List.mem_cons.mp he with rfl | he
    · cases hurl
      exact h.1
    · exact Polite.check h.2 e he url hurl
  | .loaded _ _ :: es, h, e, he, url, hurl => by
    rcases List.mem_cons.mp he with rfl | he
    · cases hurl
    · exact Polite.check h.2 e he url hurl
  | .page _ :: es, h, e, he, url, hurl => by
    rcases List.mem_cons.mp he with rfl | he
    · cases hurl
      exact h.1.1
    · exact Polite.check h.2 e he url hurl

end

end CiteVyn.Watch
