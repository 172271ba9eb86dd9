import CiteVyn.Lib.Runs
import CiteVyn.Text.Python

/-! # Who is signed in

The page's store of the caller's identity. Requests go out and their responses arrive in
any order; what runs between two of them runs as one step. -/
namespace CiteVyn.Frontend.AuthStore
open CiteVyn.Lib.Runs
open CiteVyn.Text (Str)

inductive AuthStatus where
  | unknown
  | loading
  | signedIn
  | anonymous
  deriving DecidableEq

/-- What the store reads of an identity, and whose it is. -/
structure AuthUserResponse where
  userId : Str
  anonymous : Bool
  deriving DecidableEq

structure AuthState where
  status : AuthStatus
  user : Option AuthUserResponse
  deriving DecidableEq

def initialState : AuthState := ⟨.unknown, none⟩

def signedOut : AuthState := ⟨.anonymous, none⟩

def stateFor (user : AuthUserResponse) : AuthState :=
  ⟨if user.anonymous then .anonymous else .signedIn, some user⟩

/-- The explicit actions that send a request. -/
inductive Action where
  /-- `login`, `register` and `updatePassword`, by `applyIdentityFrom` -/
  | identity
  | logout
  /-- `deleteMyAccount`, and `signedOutLocally` once it is done -/
  | deletion
  deriving DecidableEq

/-- How the request of an action ends. -/
inductive Reply where
  | user (user : AuthUserResponse)
  | done
  | failed
  deriving DecidableEq

structure Store where
  state : AuthState
  bootstrapped : Bool
  latestIdentityToken : Nat
  /-- the token of the bootstrap whose request is outstanding -/
  bootstrap : Option Nat
  /-- the actions whose requests are outstanding -/
  actions : List Action
  /-- an explicit action has completed; nothing reads it -/
  completed : Bool
  deriving DecidableEq

def Store.new : Store := ⟨initialState, false, 0, none, [], false⟩

def Store.bump (s : Store) : Store := { s with latestIdentityToken := s.latestIdentityToken + 1 }

/-- The result of an explicit action. -/
def Store.complete (s : Store) (state : AuthState) : Store := { s with state := state, completed := true }

/-- `bootstrapAuth` up to its request. -/
def bootstrapAuth (s : Store) : Store :=
  if s.bootstrapped then s
  else
    { s.bump with
      bootstrapped := true
      bootstrap := some (s.latestIdentityToken + 1)
      state := ⟨.loading, s.state.user⟩ }

/-- The rest of `bootstrapAuth`: what `getCurrentUser` returns, `none` where it throws. -/
def bootstrapAnswered (s : Store) (token : Nat) (reply : Option (Option AuthUserResponse)) : Store :=
  if token ≠ s.latestIdentityToken then { s with bootstrap := none }
  else
    { s with
      bootstrap := none
      state := match reply with
        | some (some user) => stateFor user
        | some none | none => signedOut }

/-- An action up to its request. -/
def start (s : Store) (action : Action) : Store :=
  match action with
  | .identity | .logout => { s.bump with actions := action :: s.actions }
  | .deletion => { s with actions := action :: s.actions }

def signedOutLocally (s : Store) : Store := s.bump.complete signedOut

/-- What is left of an action once its request has ended. -/
def answered (s : Store) : Action → Reply → Option Store
  | .identity, .user user => some (s.complete (stateFor user))
  | .identity, .failed => some s
  | .logout, .done | .logout, .failed => some (s.complete signedOut)
  | .deletion, .done => some (signedOutLocally s)
  | .deletion, .failed => some s
  | _, _ => none

/-- The listener of `onUnauthorized`. -/
def unauthorized (s : Store) : Store :=
  if s.state.status = .signedIn ∨ s.state.status = .unknown then { s with state := signedOut } else s

inductive Label where
  | bootstrapAuth
  | bootstrapAnswered (reply : Option (Option AuthUserResponse))
  | start (action : Action)
  | answered (action : Action) (reply : Reply)
  /-- some endpoint answers 401 -/
  | unauthorized

def step (s : Store) : Label → Option Store
  | .bootstrapAuth => some (bootstrapAuth s)
  | .bootstrapAnswered reply => s.bootstrap.map fun token => bootstrapAnswered s token reply
  | .start action => some (start s action)
  | .answered action reply =>
    if action ∈ s.actions then answered { s with actions := s.actions.erase action } action reply else none
  | .unauthorized => some (unauthorized s)

/-- No request of the store is outstanding. -/
def Store.quiet (s : Store) : Prop := s.bootstrap = none ∧ s.actions = []

def Store.settled (s : Store) : Prop := s.state.status = .signedIn ∨ s.state.status = .anonymous

/-- The response of the bootstrap will be applied if nothing else starts. -/
def Store.current (s : Store) : Prop := s.bootstrap = some s.latestIdentityToken

instance (s : Store) : Decidable s.quiet := inferInstanceAs (Decidable (_ ∧ _))
instance (s : Store) : Decidable s.settled := inferInstanceAs (Decidable (_ ∨ _))
instance (s : Store) : Decidable s.current := inferInstanceAs (Decidable (_ = _))

/-- The steps that do not go wrong. -/
def Allowed (s : Store) : Label → Prop
  | .bootstrapAuth => s.bootstrapped = false → s.completed = false
  | .answered .identity (.user _) | .answered .logout _ => ¬ s.current
  | .answered action .failed => s.state.status = .loading → s.current ∨ s.actions.erase action ≠ []
  | _ => True

instance (s : Store) (l : Label) : Decidable (Allowed s l) := by
  unfold Allowed
  split <;> infer_instance

/-! ## What every step keeps -/

structure Kept (s : Store) : Prop where
  known : s.state.status = .unknown → s.bootstrapped = false
  waited : s.state.status = .loading → s.current ∨ s.actions ≠ []
  passive : s.completed → ¬ s.current
  issued : ∀ token, s.bootstrap = some token → token ≤ s.latestIdentityToken

theorem Kept.new : Kept Store.new where
  known _ := rfl
  waited h := by cases h
  passive h := by cases h
  issued _ h := by cases h

@[simp] theorem stateFor_settled (user : AuthUserResponse) :
    (stateFor user).status = .signedIn ∨ (stateFor user).status = .anonymous := by
  unfold stateFor
  split
  · exact .inr rfl
  · exact .inl rfl

/-- The state of a store is replaced by one that is settled. -/
theorem Kept.replaced {s s' : Store} (hk : Kept s) (hsettled : s'.settled)
    (hpassive : s'.completed → ¬ s'.current)
    (hissued : ∀ token, s'.bootstrap = some token → s.bootstrap = some token)
    (htoken : s.latestIdentityToken ≤ s'.latestIdentityToken) : Kept s' where
  known h := by rcases hsettled with h' | h' <;> rw [h] at h' <;> cases h'
  waited h := by rcases hsettled with h' | h' <;> rw [h] at h' <;> cases h'
  passive := hpassive
  issued token h := (hk.issued token (hissued token h)).trans htoken

theorem Kept.bootstrapAuth {s : Store} (hk : Kept s) (hok : Allowed s .bootstrapAuth) :
    Kept (bootstrapAuth s) := by
  unfold AuthStore.bootstrapAuth
  split
  · exact hk
  · rename_i hfirst
    refine ⟨fun h => (by cases h), fun _ => .inl rfl, fun h => ?_, fun token h => ?_⟩
    · have hcompleted : s.completed = true := h
      rw [hok (Bool.eq_false_iff.mpr hfirst)] at hcompleted
      cases hcompleted
    · exact (Option.some.inj h).symm.le

theorem Kept.bootstrapAnswered {s : Store} (hk : Kept s) {token : Nat} (htoken : s.bootstrap = some token)
    (reply : Option (Option AuthUserResponse)) : Kept (bootstrapAnswered s token reply) := by
  unfold AuthStore.bootstrapAnswered
  split
  · -- superseded: an action that was started since is outstanding, or the status is settled
    rename_i hstale
    refine ⟨hk.known, fun h => .inr ?_, fun _ h => (by cases h), fun _ h => (by cases h)⟩
    rcases hk.waited h with hcurrent | hactions
    · exact absurd (Option.some.inj (htoken.symm.trans hcurrent)) hstale
    · exact hactions
  · refine hk.replaced ?_ (fun _ h => (by cases h)) (fun _ h => (by cases h)) le_rfl
    unfold Store.settled
    dsimp only
    split
    · exact stateFor_settled _
    · exact .inr rfl
    · exact .inr rfl

/-- A token that is bumped makes the bootstrap stale. -/
theorem Kept.stale {s s' : Store} (hk : Kept s) (hbootstrap : s'.bootstrap = s.bootstrap)
    (htoken : s'.latestIdentityToken = s.latestIdentityToken + 1) : ¬ s'.current := by
  intro h
  have := hk.issued _ (hbootstrap.symm.trans h)
  omega

theorem Kept.start {s : Store} (hk : Kept s) (action : Action) : Kept (start s action) := by
  have hbumped : Kept { s.bump with actions := action :: s.actions } :=
    ⟨hk.known, fun _ => .inr (List.cons_ne_nil _ _), fun _ => hk.stale rfl rfl,
      fun token h => (hk.issued token h).trans (Nat.le_succ _)⟩
  cases action with
  | identity => exact hbumped
  | logout => exact hbumped
  | deletion => exact ⟨hk.known, fun _ => .inr (List.cons_ne_nil _ _), hk.passive, hk.issued⟩

theorem Kept.answered {s s' : Store} (hk : Kept s) {action : Action} {reply : Reply}
    (hok : Allowed s (.answered action reply))
    (h : answered { s with actions := s.actions.erase action } action reply = some s') : Kept s' := by
  have hfailed (hwaits : s.state.status = .loading → s.current ∨ s.actions.erase action ≠ []) :
      Kept { s with actions := s.actions.erase action } := ⟨hk.known, hwaits, hk.passive, hk.issued⟩
  have happlied (state : AuthState) (hsettled : state.status = .signedIn ∨ state.status = .anonymous)
      (hstale : ¬ s.current) : Kept ({ s with actions := s.actions.erase action }.complete state) :=
    hk.replaced hsettled (fun _ => hstale) (fun _ h => h) le_rfl
  cases action with
  | identity =>
    cases reply with
    | user user =>
      cases h
      exact happlied _ (stateFor_settled user) hok
    | done => cases h
    | failed =>
      cases h
      exact hfailed hok
  | logout =>
    cases reply with
    | user user => cases h
    | done =>
      cases h
      exact happlied _ (.inr rfl) hok
    | failed =>
      cases h
      exact happlied _ (.inr rfl) hok
  | deletion =>
    cases reply with
    | user user => cases h
    | done =>
      cases h
      exact hk.replaced (.inr rfl) (fun _ => hk.stale rfl rfl) (fun _ h => h) (Nat.le_succ _)
    | failed =>
      cases h
      exact hfailed hok

theorem Kept.unauthorized {s : Store} (hk : Kept s) : Kept (unauthorized s) := by
  unfold AuthStore.unauthorized
  split
  · exact hk.replaced (.inr rfl) hk.passive (fun _ h => h) le_rfl
  · exact hk

theorem Kept.kept {s s' : Store} {l : Label} (hk : Kept s) (hok : Allowed s l) (h : AuthStore.step s l = some s') :
    Kept s' := by
  cases l with
  | bootstrapAuth =>
    cases h
    exact hk.bootstrapAuth hok
  | bootstrapAnswered reply =>
    obtain ⟨token, htoken, rfl⟩ := Option.map_eq_some_iff.mp h
    exact hk.bootstrapAnswered htoken reply
  | start action =>
    cases h
    exact hk.start action
  | answered action reply =>
    obtain ⟨-, h⟩ := Option.ite_none_right_eq_some.mp h
    exact hk.answered hok h
  | unauthorized =>
    cases h
    exact hk.unauthorized

theorem Kept.isSettled {s : Store} (hk : Kept s) (hquiet : s.quiet) (hcalled : s.bootstrapped) : s.settled := by
  unfold Store.settled
  cases hstatus : s.state.status with
  | unknown => exact absurd hcalled (by rw [hk.known hstatus]; exact Bool.false_ne_true)
  | loading =>
    rcases hk.waited hstatus with hcurrent | hactions
    · rw [Store.current, hquiet.1] at hcurrent
      cases hcurrent
    · exact absurd hquiet.2 hactions
  | signedIn => exact .inl rfl
  | anonymous => exact .inr rfl

theorem Kept.discards {s s' : Store} (hk : Kept s) (hcompleted : s.completed) {reply : Option (Option AuthUserResponse)}
    (h : AuthStore.step s (.bootstrapAnswered reply) = some s') : s'.state = s.state := by
  obtain ⟨token, htoken, rfl⟩ := Option.map_eq_some_iff.mp h
  have hstale : token ≠ s.latestIdentityToken := fun heq => hk.passive hcompleted (htoken.trans (heq ▸ rfl))
  unfold AuthStore.bootstrapAnswered
  rw [if_pos hstale]

/-- In every run in which `bootstrapAuth` is first called before an explicit action has
completed, no action that was started before it completes while its response is awaited and
current, and no failed action leaves the status at `loading` with nothing to replace it:
once no request is outstanding the status is settled, and the response of the bootstrap
does not replace what an explicit action has set. -/
theorem settles (ls : List Label) (s : Store) (hok : Along step Allowed Store.new ls)
    (hrun : exec step Store.new ls = some s) :
    (s.quiet → s.bootstrapped → s.settled) ∧
      ∀ reply s', step s (.bootstrapAnswered reply) = some s' → s.completed → s'.state = s.state := by
  have hk : Kept s := exec_invariant (fun _ _ _ hk hok h => hk.kept hok h) Kept.new hok hrun
  exact ⟨hk.isSettled, fun _ _ h hcompleted => hk.discards hcompleted h⟩

def exampleUser : AuthUserResponse := ⟨"usr_1".toList, false⟩

/-- A login during the bootstrap that succeeds, a logout after it. -/
theorem settles_signedIn :
    ∃ s, exec step Store.new [.bootstrapAuth, .start .identity, .answered .identity (.user exampleUser)] = some s ∧
      s.state = stateFor exampleUser ∧
      ∀ reply s', step s (.bootstrapAnswered reply) = some s' → s'.state = stateFor exampleUser := by
  have hrun : ∃ s ∈ exec step Store.new
      [.bootstrapAuth, .start .identity, .answered .identity (.user exampleUser)],
      s.state = stateFor exampleUser ∧ s.completed = true := by
    decide
  obtain ⟨s, hs, hstate, hcompleted⟩ := hrun
  refine ⟨s, hs, hstate, fun reply s' h => ?_⟩
  rw [(settles _ s (by decide) hs).2 reply s' h hcompleted, hstate]

/-- A login fails while the bootstrap's response is awaited: the response is discarded, and
the status stays `loading`. And a login that was sent before the bootstrap completes first:
the response of the bootstrap replaces it. -/
theorem not_settled :
    (∃ s, exec step Store.new [.bootstrapAuth, .start .identity, .answered .identity .failed,
        .bootstrapAnswered (some (some exampleUser))] = some s ∧
      s.quiet ∧ s.bootstrapped ∧ s.state.status = .loading) ∧
    ∃ s s', exec step Store.new [.start .identity, .bootstrapAuth, .answered .identity (.user exampleUser)] = some s ∧
      s.completed ∧ s.state = stateFor exampleUser ∧
      step s (.bootstrapAnswered (some none)) = some s' ∧ s'.state = signedOut :=
  ⟨⟨_, rfl, by decide, rfl, rfl⟩, _, _, rfl, rfl, rfl, rfl, rfl⟩

end CiteVyn.Frontend.AuthStore
