import CiteVyn.Lib.Claims
import CiteVyn.Lib.Runs
import CiteVyn.Services.Mail
import CiteVyn.Watch.Runner
import Mathlib.Data.List.Dedup
import Mathlib.Data.List.Sort

/-! # Watch alerts

`send_watch_alerts` of `app/services/alerts.py`. A run reads everything it needs
first; for each account it claims the changes, commits, sends one mail and gives the
claims back if the send raises. -/
namespace CiteVyn.Services.Alerts
open CiteVyn.Billing (Membership accountIsPro)
open CiteVyn.Lib.Claims CiteVyn.Lib.Runs CiteVyn.Lib.Threads CiteVyn.Text CiteVyn.Watch

/-! ## Tables -/

/-- `Watch`. -/
structure WatchRow where
  userId : Str
  kind : Str
  value : Str
  createdAt : Int
  deriving DecidableEq, Repr

/-- `AlertSend`. -/
structure AlertSend where
  emailId : Nat
  userId : Str
  changeId : Nat
  sentAt : Int
  deriving DecidableEq, Repr

structure Tables where
  users : List User
  watches : List WatchRow
  memberships : List Membership

/-- `memberships_for`, in any order. -/
def Tables.membershipsFor (t : Tables) (userId : Str) : List Membership :=
  t.memberships.filter fun m => m.accountId = userId

/-- An account of `watches`: its address and what it watches, by kind and value. -/
structure Account where
  userId : Str
  email : Str
  watches : List (Str × Str)
  deriving DecidableEq, Repr

/-- `order_by(Watch.user_id, Watch.created_at)`. -/
def WatchRow.le (a b : WatchRow) : Bool :=
  if a.userId = b.userId then a.createdAt ≤ b.createdAt else textLe a.userId b.userId

/-- `watch_rows`: the watches of verified accounts, each with the address. -/
def Tables.watchRows (t : Tables) : List (WatchRow × Str) :=
  (t.watches.insertionSort fun a b => a.le b).filterMap fun row =>
    ((t.users.find? fun user => user.userId = row.userId).bind User.verifiedEmail).map fun email => (row, email)

/-- `watches`: the rows, account by account. -/
def Tables.accounts (t : Tables) : List Account :=
  (t.watchRows.map fun p => p.1.userId).dedup.filterMap fun userId =>
    match t.watchRows.filter fun p => p.1.userId = userId with
    | [] => none
    | p :: ps => some ⟨userId, p.2, (p :: ps).map fun p => (p.1.kind, p.1.value)⟩

/-- `order_by(DocChange.detected_at, DocChange.url)`. -/
def changeLe (a b : DocChange) : Bool :=
  if a.detectedAt = b.detectedAt then textLe a.url b.url else a.detectedAt ≤ b.detectedAt

/-- The changes of the last seven days. -/
def recentChanges (changes : List DocChange) (now : Int) : List DocChange :=
  (changes.filter fun c => now - window ≤ c.detectedAt ∧ c.detectedAt ≤ now).insertionSort fun a b => changeLe a b

/-! ## What matches -/

structure Settings where
  alertMaxPerRun : Nat
  /-- `str.casefold` -/
  casefold : Str → Str

variable (settings : Settings)

/-- `matches`. -/
def isMatch (kind value url : Str) (lines : ChangedLines) : Bool :=
  if kind = "page".toList then url = value
  else if kind = "term".toList then
    [lines.added, lines.removed].any fun found =>
      found.any fun line => contains (settings.casefold value) (settings.casefold line)
  else false

/-- `_label`. -/
def label (kind value : Str) : Str :=
  if kind = "page".toList then "the page ".toList ++ value else '"' :: (value ++ ['"'])

/-- `_Hit`. -/
structure Hit where
  change : DocChange
  watches : List Str
  deriving DecidableEq, Repr

/-- The changes that a run has read, and which of them each account has been alerted to. -/
structure Run where
  now : Int
  changes : List DocChange
  done : List (Str × Nat)
  sent : Nat
  failed : Nat
  deriving DecidableEq, Repr

/-- Why a change is one for the account. -/
def Account.why (account : Account) (c : DocChange) : List Str :=
  (account.watches.filter fun watch => isMatch settings watch.1 watch.2 c.url c.lines).map fun watch =>
    label watch.1 watch.2

/-- `hits`. -/
def Run.hits (r : Run) (account : Account) : List Hit :=
  (r.changes.filter fun c =>
    (account.userId, c.changeId) ∉ r.done ∧ account.why settings c ≠ []).map fun c => ⟨c, account.why settings c⟩

/-! ## Runs -/

/-- Where a run is. -/
inductive Place where
  /-- it has read the changes -/
  | watching (now : Int) (changes : List DocChange)
  /-- and the watches -/
  | checking (now : Int) (changes : List DocChange) (accounts : List Account)
  /-- it comes to the next account -/
  | looping (r : Run) (todo : List Account)
  /-- the commit of the claims is next -/
  | claiming (r : Run) (account : Account) (hits : List Hit) (todo : List Account)
  | sending (r : Run) (account : Account) (hits : List Hit) (emailId : Nat) (todo : List Account)
  /-- the send has raised -/
  | releasing (r : Run) (account : Account) (hits : List Hit) (emailId : Nat) (raised : Bool)
    (todo : List Account)
  deriving DecidableEq, Repr

/-- A mail whose send has returned. It lists the first fifty hits and counts the others. -/
structure Mail where
  emailId : Nat
  userId : Str
  toAddr : Str
  hits : List Hit
  deriving DecidableEq, Repr

structure Server (W : Type) where
  tables : Tables
  changes : List DocChange
  rows : List AlertSend
  places : W → Option Place
  /-- the ids that have been drawn for mails -/
  drawn : List Nat
  mails : List Mail

inductive Label (W : Type) where
  /-- the watcher commits a change -/
  | detect (c : DocChange)
  /-- users, watches and memberships change -/
  | edit (t : Tables)
  /-- a run reads the changes -/
  | start (w : W) (now : Int)
  /-- it reads the watches, and then what is done -/
  | read (w : W)
  | advance (w : W)
  | claim (w : W) (emailId : Nat)
  | send (w : W) (outcome : SendOutcome)
  /-- `_release` -/
  | release (w : W)
  /-- the run is cut off -/
  | fail (w : W)

variable {W : Type} [DecidableEq W]

def Server.goto (s : Server W) (w : W) (p : Option Place) : Server W := { s with places := put s.places w p }

/-- The pairs that a mail stands for. -/
def keys (userId : Str) (hits : List Hit) : List (Str × Nat) := hits.map fun hit => (userId, hit.change.changeId)

/-- The rows of a mail. -/
def newRows (now : Int) (userId : Str) (hits : List Hit) (emailId : Nat) : List AlertSend :=
  hits.map fun hit => ⟨emailId, userId, hit.change.changeId, now⟩

/-- The unique constraint lets the pairs in. -/
def Server.accepts (s : Server W) (pairs : List (Str × Nat)) : Bool :=
  pairs.Nodup && pairs.all fun pair => s.rows.all fun row => (row.userId, row.changeId) ≠ pair

/-- A run comes to the next account, or to its end. -/
def Server.advance (s : Server W) (r : Run) : List Account → Option Place
  | [] => none
  | account :: todo =>
    if r.hits settings account = [] then some (.looping r todo)
    else if accountIsPro (s.tables.membershipsFor account.userId) r.now = false then some (.looping r todo)
    else if settings.alertMaxPerRun ≤ r.sent + r.failed then none
    else some (.claiming r account (r.hits settings account) todo)

def step (s : Server W) : Label W → Option (Server W)
  | .detect c =>
    if s.changes.any fun other => other.changeId = c.changeId then none
    else some { s with changes := s.changes ++ [c] }
  | .edit t => some { s with tables := t }
  | .start w now =>
    match s.places w with
    | some _ => none
    | none =>
      if recentChanges s.changes now = [] then some s
      else some (s.goto w (some (.watching now (recentChanges s.changes now))))
  | .read w =>
    match s.places w with
    | some (.watching now changes) => some (s.goto w (some (.checking now changes s.tables.accounts)))
    | some (.checking now changes accounts) =>
      let done := (s.rows.filter fun row => changes.any fun c => c.changeId = row.changeId).map fun row =>
        (row.userId, row.changeId)
      some (s.goto w (some (.looping ⟨now, changes, done, 0, 0⟩ accounts)))
    | _ => none
  | .advance w =>
    match s.places w with
    | some (.looping r todo) => some (s.goto w (s.advance settings r todo))
    | _ => none
  | .claim w emailId =>
    match s.places w with
    | some (.claiming r account hits todo) =>
      if emailId ∈ s.drawn then none
      else if s.accepts (keys account.userId hits) then
        some { s.goto w (some (.sending r account hits emailId todo)) with
          rows := newRows r.now account.userId hits emailId ++ s.rows
          drawn := emailId :: s.drawn }
      else some (s.goto w (some (.looping r todo)))
    | _ => none
  | .send w outcome =>
    match s.places w with
    | some (.sending r account hits emailId todo) =>
      match outcome with
      | .returned =>
        some { s.goto w (some (.looping { r with sent := r.sent + 1 } todo)) with
          mails := ⟨emailId, account.userId, account.email, hits⟩ :: s.mails }
      | .deliveryError => some (s.goto w (some (.releasing r account hits emailId false todo)))
      | .raised => some (s.goto w (some (.releasing r account hits emailId true todo)))
    | _ => none
  | .release w =>
    match s.places w with
    | some (.releasing r _ _ emailId raised todo) =>
      some { s.goto w (if raised then none else some (.looping { r with failed := r.failed + 1 } todo)) with
        rows := s.rows.filter fun row => row.emailId ≠ emailId }
    | _ => none
  | .fail w =>
    match s.places w with
    | some _ => some (s.goto w none)
    | none => none

/-- Nothing has been alerted yet. -/
def Server.new (tables : Tables) : Server W := ⟨tables, [], [], idle, [], []⟩

/-! ## Claims and mails -/

def AlertSend.claim (row : AlertSend) : (Str × Nat) × Nat := ((row.userId, row.changeId), row.emailId)

/-- The pairs of a mail, each with the mail. -/
def Mail.pairs (m : Mail) : List ((Str × Nat) × Nat) := (keys m.userId m.hits).map fun k => (k, m.emailId)

/-- The mail that a run has claimed for, and its pairs. -/
def Place.held : Place → Option (Nat × List (Str × Nat))
  | .sending _ account hits emailId _ | .releasing _ account hits emailId _ _ =>
    some (emailId, keys account.userId hits)
  | _ => none

structure Inv (s : Server W) : Prop where
  ledger : Ledger s.drawn (s.rows.map AlertSend.claim) (fun w => (s.places w).bind Place.held)
    (s.mails.flatMap Mail.pairs)
  changes_nodup : (s.changes.map DocChange.changeId).Nodup

omit [DecidableEq W] in
theorem Inv.new (tables : Tables) : Inv (Server.new tables : Server W) where
  ledger := Ledger.nil
  changes_nodup := List.nodup_nil

theorem claim_newRows (now : Int) (userId : Str) (hits : List Hit) (emailId : Nat) :
    (newRows now userId hits emailId).map AlertSend.claim = (keys userId hits).map fun k => (k, emailId) := by
  simp [newRows, keys, AlertSend.claim]

theorem claim_release (rows : List AlertSend) (emailId : Nat) :
    (rows.filter fun row => row.emailId ≠ emailId).map AlertSend.claim =
      (rows.map AlertSend.claim).filter fun p => p.2 ≠ emailId := by
  rw [List.filter_map]
  rfl

omit [DecidableEq W] in
theorem accepts_iff {s : Server W} {pairs : List (Str × Nat)} :
    s.accepts pairs = true ↔ pairs.Nodup ∧ ∀ pair ∈ pairs, pair ∉ (s.rows.map AlertSend.claim).map Prod.fst := by
  simp only [Server.accepts, Bool.and_eq_true, decide_eq_true_eq, List.all_eq_true, List.mem_map,
    exists_exists_and_eq_and, not_exists, not_and]
  exact Iff.rfl

section

variable {settings : Settings} {s s' : Server W} {w : W}

theorem held_goto (s : Server W) (w : W) (p : Option Place) :
    (fun w' => ((s.goto w p).places w').bind Place.held) =
      put (fun w' => (s.places w').bind Place.held) w (p.bind Place.held) :=
  put_bind s.places w p Place.held

/-- A run that moves on without a mail of its own. -/
theorem Inv.goto (hi : Inv s) {p : Option Place} (hp : p.bind Place.held = none) : Inv (s.goto w p) where
  ledger := by
    rw [held_goto, hp]
    exact hi.ledger.drop w
  changes_nodup := hi.changes_nodup

theorem Inv.step {l : Label W} (hi : Inv s) (h : step settings s l = some s') : Inv s' := by
  cases l with
  | detect c =>
    simp only [Alerts.step] at h
    split at h
    · cases h
    · rename_i hnew
      cases h
      refine ⟨hi.ledger, ?_⟩
      rw [List.map_append, List.map_singleton, List.nodup_append]
      refine ⟨hi.changes_nodup, List.nodup_singleton _, ?_⟩
      rintro _ hid _ hmem rfl
      obtain ⟨other, hother, heq⟩ := List.mem_map.mp hid
      refine hnew (List.any_eq_true.mpr ⟨other, hother, ?_⟩)
      simpa [heq] using hmem
  | edit t =>
    cases h
    exact ⟨hi.ledger, hi.changes_nodup⟩
  | start w now =>
    simp only [Alerts.step] at h
    split at h
    · cases h
    · split at h
      · cases h
        exact hi
      · cases h
        exact hi.goto rfl
  | read w =>
    simp only [Alerts.step] at h
    split at h
    · cases h
      exact hi.goto rfl
    · cases h
      exact hi.goto rfl
    · cases h
  | advance w =>
    simp only [Alerts.step] at h
    split at h
    · rename_i r todo hw
      cases h
      refine hi.goto ?_
      cases todo with
      | nil => rfl
      | cons account todo =>
        rw [Server.advance]
        split_ifs <;> rfl
    · cases h
  | claim w emailId =>
    simp only [Alerts.step] at h
    split at h
    · rename_i r account hits todo hw
      split at h
      · cases h
      · rename_i hdrawn
        split at h
        · rename_i haccepts
          cases h
          obtain ⟨hnodup, hfree⟩ := accepts_iff.mp haccepts
          refine ⟨?_, hi.changes_nodup⟩
          dsimp only
          rw [held_goto, List.map_append, claim_newRows]
          exact hi.ledger.claim w hdrawn hnodup hfree
        · cases h
          exact hi.goto rfl
    · cases h
  | send w outcome =>
    simp only [Alerts.step] at h
    split at h
    · rename_i r account hits emailId todo hw
      have hheld : (s.places w).bind Place.held = some (emailId, keys account.userId hits) := by
        rw [hw]
        rfl
      have hthere : ∀ raised, put (fun w' => (s.places w').bind Place.held) w
          ((some (Place.releasing r account hits emailId raised todo)).bind Place.held) =
          fun w' => (s.places w').bind Place.held := by
        intro raised
        rw [show (some (Place.releasing r account hits emailId raised todo)).bind Place.held =
          (s.places w).bind Place.held from hheld.symm]
        exact put_there _ w
      split at h
      · cases h
        refine ⟨?_, hi.changes_nodup⟩
        dsimp only
        rw [held_goto, List.flatMap_cons]
        exact hi.ledger.deliver hheld
      · cases h
        refine ⟨?_, hi.changes_nodup⟩
        rw [held_goto, hthere]
        exact hi.ledger
      · cases h
        refine ⟨?_, hi.changes_nodup⟩
        rw [held_goto, hthere]
        exact hi.ledger
    · cases h
  | release w =>
    simp only [Alerts.step] at h
    split at h
    · rename_i r account hits emailId raised todo hw
      cases h
      refine ⟨?_, hi.changes_nodup⟩
      have hp : (if raised then none else some (Place.looping { r with failed := r.failed + 1 } todo)).bind
          Place.held = none := by
        cases raised <;> rfl
      have hheld : (s.places w).bind Place.held = some (emailId, keys account.userId hits) := by
        rw [hw]
        rfl
      dsimp only
      rw [held_goto, hp, claim_release]
      exact hi.ledger.release hheld
    · cases h
  | fail w =>
    simp only [Alerts.step] at h
    split at h
    · cases h
      exact hi.goto rfl
    · cases h

omit [DecidableEq W] in
/-- Each pair is in one mail at most. -/
theorem Inv.mailed_once (hi : Inv s) : ((s.mails.flatMap Mail.pairs).map Prod.fst).Nodup := hi.ledger.once

/-- Once a run has given its claims back, no claim of those pairs is left. -/
theorem Inv.released (hi : Inv s) {r : Run} {account : Account} {hits : List Hit} {emailId : Nat}
    {raised : Bool} {todo : List Account}
    (hw : s.places w = some (.releasing r account hits emailId raised todo))
    (h : Alerts.step settings s (.release w) = some s') :
    ∀ hit ∈ hits, ∀ row ∈ s'.rows, (row.userId, row.changeId) ≠ (account.userId, hit.change.changeId) := by
  simp only [Alerts.step, hw] at h
  cases h
  intro hit hhit row hrow heq
  have hheld : (s.places w).bind Place.held = some (emailId, keys account.userId hits) := by
    rw [hw]
    rfl
  refine hi.ledger.released hheld (account.userId, hit.change.changeId) (List.mem_map_of_mem hhit) ?_
  rw [← claim_release, ← heq]
  exact List.mem_map_of_mem (List.mem_map_of_mem hrow)

/-! ## A later run -/

/-- The account has been mailed the change. -/
def Server.Mailed (s : Server W) (userId : Str) (c : DocChange) : Prop :=
  ∃ m ∈ s.mails, m.userId = userId ∧ ∃ hit ∈ m.hits, hit.change = c

variable (settings) in
/-- The account is to be alerted to the change: it is verified, watches it and is Pro,
the change is inside the window, and nobody has claimed it. -/
structure Due (s : Server W) (userId : Str) (c : DocChange) (now : Int) : Prop where
  detected : c ∈ s.changes
  recent : now - window ≤ c.detectedAt ∧ c.detectedAt ≤ now
  watched : ∃ account ∈ s.tables.accounts, account.userId = userId ∧ account.why settings c ≠ []
  pro : accountIsPro (s.tables.membershipsFor userId) now = true
  unclaimed : ∀ row ∈ s.rows, (row.userId, row.changeId) ≠ (userId, c.changeId)

variable (settings) in
/-- Nothing keeps a run from the account: what it reads of the tables stays, it is not
cut off, the cap is not reached before the account, no other run claims a change for the
account, the account's own send returns and no other raises more than a delivery error. -/
def undisturbed (userId : Str) (w : W) (s : Server W) : Label W → Bool
  | .edit _ => false
  | .fail w' => w' ≠ w
  | .advance w' =>
    w' ≠ w || match s.places w with
      | some (.looping r todo) =>
        userId ∉ todo.map Account.userId || r.sent + r.failed < settings.alertMaxPerRun
      | _ => true
  | .claim w' _ =>
    w' = w || match s.places w' with
      | some (.claiming _ account _ _) => account.userId ≠ userId
      | _ => true
  | .send w' outcome =>
    w' ≠ w || match s.places w with
      | some (.sending _ account _ _ _) =>
        if account.userId = userId then outcome = .returned else outcome ≠ .raised
      | _ => true
  | _ => true

theorem accounts_nodup (t : Tables) : (t.accounts.map Account.userId).Nodup := by
  rw [Tables.accounts, List.map_filterMap]
  refine List.Nodup.filterMap ?_ (List.nodup_dedup _)
  intro u u' b hb hb'
  have hid : ∀ v, b ∈ Option.map Account.userId
      (match t.watchRows.filter fun p => p.1.userId = v with
        | [] => none
        | p :: ps => some ⟨v, p.2, (p :: ps).map fun p => (p.1.kind, p.1.value)⟩) → b = v := by
    intro v hv
    split at hv
    · cases hv
    · exact (Option.some.inj hv).symm
  rw [← hid u hb, ← hid u' hb']

variable (settings) in
/-- A run that has the account ahead: the change is among the hits, the account's other
claims are known to the run, and the account comes up once. -/
structure Ahead (s : Server W) (userId : Str) (c : DocChange) (r : Run) (account : Account) : Prop where
  mine : account.userId = userId
  hit : ⟨c, account.why settings c⟩ ∈ r.hits settings account
  pro : accountIsPro (s.tables.membershipsFor userId) r.now = true
  nodup : (r.changes.map DocChange.changeId).Nodup
  known : ∀ row ∈ s.rows, row.userId = userId → row.changeId ∈ r.changes.map DocChange.changeId →
    (userId, row.changeId) ∈ r.done

variable (settings) in
/-- The account is on the list. -/
def Listed (s : Server W) (userId : Str) (c : DocChange) (r : Run) (todo : List Account) : Prop :=
  (todo.map Account.userId).Nodup ∧ ∃ account ∈ todo, Ahead settings s userId c r account

variable (settings) in
/-- Where a run that owes the account the change is. -/
def Place.Owes (s : Server W) (userId : Str) (c : DocChange) : Place → Prop
  | .watching now changes => Due settings s userId c now ∧ c ∈ changes ∧ (changes.map DocChange.changeId).Nodup
  | .checking now changes accounts =>
    c ∈ changes ∧ (changes.map DocChange.changeId).Nodup ∧
      accountIsPro (s.tables.membershipsFor userId) now = true ∧
      (∀ row ∈ s.rows, (row.userId, row.changeId) ≠ (userId, c.changeId)) ∧
      (accounts.map Account.userId).Nodup ∧
      ∃ account ∈ accounts, account.userId = userId ∧ account.why settings c ≠ []
  | .looping r todo => Listed settings s userId c r todo
  | .claiming r account hits todo =>
    (hits = r.hits settings account ∧ Ahead settings s userId c r account) ∨
      account.userId ≠ userId ∧ Listed settings s userId c r todo
  | .sending r account hits _ todo =>
    (account.userId = userId ∧ ∃ hit ∈ hits, hit.change = c) ∨
      account.userId ≠ userId ∧ Listed settings s userId c r todo
  | .releasing r account _ _ raised todo =>
    account.userId ≠ userId ∧ raised = false ∧ Listed settings s userId c r todo

omit [DecidableEq W] in
variable (s s') in
/-- The tables stay, and the account has no more claims than before. -/
structure Spares (userId : Str) : Prop where
  tables : s'.tables = s.tables
  changes : s.changes ⊆ s'.changes
  rows : ∀ row ∈ s'.rows, row.userId = userId → row ∈ s.rows

variable {userId : Str} {c : DocChange}

omit [DecidableEq W] in
theorem Spares.unclaimed (h : Spares s s' userId) (hfree : ∀ row ∈ s.rows, (row.userId, row.changeId) ≠ (userId, c.changeId)) :
    ∀ row ∈ s'.rows, (row.userId, row.changeId) ≠ (userId, c.changeId) := fun row hrow heq =>
  hfree row (h.rows row hrow (congrArg Prod.fst heq)) heq

omit [DecidableEq W] in
theorem Listed.mono {r : Run} {todo : List Account} (h : Listed settings s userId c r todo)
    (hspares : Spares s s' userId) : Listed settings s' userId c r todo := by
  obtain ⟨hnodup, account, hmem, hahead⟩ := h
  exact ⟨hnodup, account, hmem, { hahead with
    pro := hspares.tables ▸ hahead.pro
    known := fun row hrow hmine => hahead.known row (hspares.rows row hrow hmine) hmine }⟩

omit [DecidableEq W] in
/-- A run that has counted a send. -/
theorem Listed.recount {r : Run} {todo : List Account} (h : Listed settings s userId c r todo) (sent failed : Nat) :
    Listed settings s userId c { r with sent := sent, failed := failed } todo := by
  obtain ⟨hnodup, account, hmem, hahead⟩ := h
  exact ⟨hnodup, account, hmem, ⟨hahead.mine, hahead.hit, hahead.pro, hahead.nodup, hahead.known⟩⟩

omit [DecidableEq W] in
/-- What a run owes, it owes after a step that spares the account. -/
theorem Place.Owes.mono {p : Place} (h : p.Owes settings s userId c) (hspares : Spares s s' userId) :
    p.Owes settings s' userId c := by
  cases p with
  | watching now changes =>
    obtain ⟨hdue, hmem, hnodup⟩ := h
    exact ⟨⟨hspares.changes hdue.detected, hdue.recent, hspares.tables ▸ hdue.watched, hspares.tables ▸ hdue.pro,
      hspares.unclaimed hdue.unclaimed⟩, hmem, hnodup⟩
  | checking now changes accounts =>
    obtain ⟨hmem, hnodup, hpro, hfree, hlisted⟩ := h
    exact ⟨hmem, hnodup, hspares.tables ▸ hpro, hspares.unclaimed hfree, hlisted⟩
  | looping r todo => exact Listed.mono h hspares
  | claiming r account hits todo =>
    obtain ⟨hhits, hahead⟩ | ⟨hother, hlisted⟩ := h
    · exact .inl ⟨hhits, { hahead with
        pro := hspares.tables ▸ hahead.pro
        known := fun row hrow hmine => hahead.known row (hspares.rows row hrow hmine) hmine }⟩
    · exact .inr ⟨hother, hlisted.mono hspares⟩
  | sending r account hits emailId todo =>
    obtain hmine | ⟨hother, hlisted⟩ := h
    · exact .inl hmine
    · exact .inr ⟨hother, hlisted.mono hspares⟩
  | releasing r account hits emailId raised todo => exact ⟨h.1, h.2.1, h.2.2.mono hspares⟩

variable (settings s w userId c) in
/-- The account has been mailed the change, or the run still owes it. -/
def Kept : Prop := s.Mailed userId c ∨ ∃ p, s.places w = some p ∧ p.Owes settings s userId c

theorem Kept.goto {p : Place} (h : p.Owes settings s userId c) : Kept settings (s.goto w (some p)) w userId c :=
  .inr ⟨p, put_self _ _ _, h.mono ⟨rfl, fun _ h => h, fun _ h _ => h⟩⟩

omit [DecidableEq W] in
/-- The reads of a run find the account and nothing that has been claimed. -/
theorem owes_checking {now : Int} {changes : List DocChange}
    (h : (Place.watching now changes).Owes settings s userId c) :
    (Place.checking now changes s.tables.accounts).Owes settings s userId c := by
  obtain ⟨hdue, hmem, hnodup⟩ := h
  exact ⟨hmem, hnodup, hdue.pro, hdue.unclaimed, accounts_nodup s.tables, hdue.watched⟩

omit [DecidableEq W] in
theorem owes_looping {now : Int} {changes : List DocChange} {accounts : List Account}
    (h : (Place.checking now changes accounts).Owes settings s userId c) :
    (Place.looping ⟨now, changes, (s.rows.filter fun row => changes.any fun c => c.changeId = row.changeId).map
      fun row => (row.userId, row.changeId), 0, 0⟩ accounts).Owes settings s userId c := by
  obtain ⟨hmem, hnodup, hpro, hfree, hids, account, haccount, hmine, hwhy⟩ := h
  refine ⟨hids, account, haccount, hmine, ?_, hpro, hnodup, ?_⟩
  · refine List.mem_map.mpr ⟨c, List.mem_filter.mpr ⟨hmem, ?_⟩, rfl⟩
    rw [decide_eq_true_eq]
    refine ⟨fun hdone => ?_, hwhy⟩
    obtain ⟨row, hrow, heq⟩ := List.mem_map.mp hdone
    exact hfree row (List.mem_filter.mp hrow).1 (by rw [heq, hmine])
  · intro row hrow huser hid
    obtain ⟨other, hother, heq⟩ := List.mem_map.mp hid
    refine List.mem_map.mpr ⟨row, List.mem_filter.mpr ⟨hrow, ?_⟩, by rw [huser]⟩
    exact List.any_eq_true.mpr ⟨other, hother, by simpa using heq⟩

omit [DecidableEq W] in
/-- The run comes to an account: this one is claimed for, and any other leaves it ahead. -/
theorem owes_advance {r : Run} {todo : List Account} (h : (Place.looping r todo).Owes settings s userId c)
    (hcap : userId ∈ todo.map Account.userId → r.sent + r.failed < settings.alertMaxPerRun) :
    ∃ p, s.advance settings r todo = some p ∧ p.Owes settings s userId c := by
  obtain ⟨hids, account, hmem, hahead⟩ := h
  have hroom : r.sent + r.failed < settings.alertMaxPerRun :=
    hcap (List.mem_map.mpr ⟨account, hmem, hahead.mine⟩)
  cases todo with
  | nil => cases hmem
  | cons next todo =>
    obtain ⟨hnew, hids⟩ := List.nodup_cons.mp hids
    rw [Server.advance]
    rcases List.mem_cons.mp hmem with rfl | hlater
    · have hhits : r.hits settings account ≠ [] := List.ne_nil_of_mem hahead.hit
      have hpro := hahead.pro
      rw [← hahead.mine] at hpro
      rw [if_neg hhits, if_neg (by simp [hpro]), if_neg (by omega)]
      exact ⟨_, rfl, .inl ⟨rfl, hahead⟩⟩
    · have hlisted : Listed settings s userId c r todo := ⟨hids, account, hlater, hahead⟩
      have hother : next.userId ≠ userId := by
        rintro heq
        exact hnew (List.mem_map.mpr ⟨account, hlater, hahead.mine.trans heq.symm⟩)
      split_ifs
      · exact ⟨_, rfl, hlisted⟩
      · exact ⟨_, rfl, hlisted⟩
      · omega
      · exact ⟨_, rfl, .inr ⟨hother, hlisted⟩⟩

omit [DecidableEq W] in
/-- The claims of the account go in. -/
theorem Ahead.accepts {r : Run} {account : Account} (h : Ahead settings s userId c r account) :
    s.accepts (keys account.userId (r.hits settings account)) = true := by
  have hids : keys account.userId (r.hits settings account) =
      ((r.changes.filter fun c => (account.userId, c.changeId) ∉ r.done ∧ account.why settings c ≠ []).map
        DocChange.changeId).map fun id => (account.userId, id) := by
    simp [keys, Run.hits, Function.comp_def]
  rw [accepts_iff, hids]
  refine ⟨?_, ?_⟩
  · refine List.Nodup.map (fun _ _ heq => congrArg Prod.snd heq) ?_
    exact h.nodup.sublist (List.filter_sublist.map _)
  · intro pair hpair hclaimed
    obtain ⟨id, hid, rfl⟩ := List.mem_map.mp hpair
    obtain ⟨change, hchange, rfl⟩ := List.mem_map.mp hid
    obtain ⟨hmem, hnew⟩ := List.mem_filter.mp hchange
    obtain ⟨p, hp, heq⟩ := List.mem_map.mp hclaimed
    obtain ⟨row, hrow, rfl⟩ := List.mem_map.mp hp
    have huser : row.userId = account.userId := congrArg Prod.fst heq
    have hsame : row.changeId = change.changeId := congrArg Prod.snd heq
    have hdone := h.known row hrow (huser.trans h.mine) (hsame ▸ List.mem_map_of_mem hmem)
    rw [decide_eq_true_eq] at hnew
    exact hnew.1 (by rw [← hsame, h.mine]; exact hdone)

/-- No mail is taken back. -/
theorem step_mails {l : Label W} (h : Alerts.step settings s l = some s') : s.mails ⊆ s'.mails := by
  cases l <;> simp only [Alerts.step] at h <;> repeat' split at h
  all_goals cases h
  all_goals first
    | exact fun _ hm => hm
    | exact List.subset_cons_self _ _

/-- The run that a step is of. -/
def Label.run : Label W → Option W
  | .start w _ | .read w | .advance w | .claim w _ | .send w _ | .release w | .fail w => some w
  | .detect _ | .edit _ => none

omit [DecidableEq W] in
theorem Spares.of_rows (htables : s'.tables = s.tables) (hchanges : s'.changes = s.changes) (hrows : s'.rows ⊆ s.rows) :
    Spares s s' userId := ⟨htables, hchanges ▸ fun _ h => h, fun _ h _ => hrows h⟩

/-- The rows of a mail to another account. -/
theorem newRows_other {now : Int} {user : Str} {hits : List Hit} {emailId : Nat} (hother : user ≠ userId)
    {rows : List AlertSend} : ∀ row ∈ newRows now user hits emailId ++ rows, row.userId = userId → row ∈ rows := by
  intro row hrow hmine
  rcases List.mem_append.mp hrow with hrow | hrow
  · obtain ⟨hit, -, rfl⟩ := List.mem_map.mp hrow
    exact (hother hmine).elim
  · exact hrow

/-- A step of another run leaves this one and the account's claims alone. -/
theorem step_other {l : Label W} (hok : undisturbed settings userId w s l = true)
    (h : Alerts.step settings s l = some s') (hother : l.run ≠ some w) :
    Spares s s' userId ∧ s'.places w = s.places w := by
  cases l with
  | detect change =>
    simp only [Alerts.step] at h
    split at h
    · cases h
    · cases h
      exact ⟨⟨rfl, fun _ h => List.mem_append_left _ h, fun _ h _ => h⟩, rfl⟩
  | edit t => cases hok
  | start w' now =>
    have hw : w ≠ w' := fun heq => hother (heq ▸ rfl)
    simp only [Alerts.step] at h
    repeat' split at h
    all_goals cases h
    · exact ⟨.of_rows rfl rfl fun _ h => h, rfl⟩
    · exact ⟨.of_rows rfl rfl fun _ h => h, put_of_ne _ _ hw⟩
  | read w' =>
    have hw : w ≠ w' := fun heq => hother (heq ▸ rfl)
    simp only [Alerts.step] at h
    split at h
    all_goals cases h
    all_goals exact ⟨.of_rows rfl rfl fun _ h => h, put_of_ne _ _ hw⟩
  | advance w' =>
    have hw : w ≠ w' := fun heq => hother (heq ▸ rfl)
    simp only [Alerts.step] at h
    split at h
    all_goals cases h
    exact ⟨.of_rows rfl rfl fun _ h => h, put_of_ne _ _ hw⟩
  | claim w' emailId =>
    have hw : w ≠ w' := fun heq => hother (heq ▸ rfl)
    simp only [Alerts.step] at h
    split at h
    · rename_i r account hits todo hthere
      have huser : account.userId ≠ userId := by simpa [undisturbed, hthere, hw.symm] using hok
      repeat' split at h
      all_goals cases h
      · exact ⟨⟨rfl, fun _ h => h, newRows_other huser⟩, put_of_ne _ _ hw⟩
      · exact ⟨.of_rows rfl rfl fun _ h => h, put_of_ne _ _ hw⟩
    · cases h
  | send w' outcome =>
    have hw : w ≠ w' := fun heq => hother (heq ▸ rfl)
    simp only [Alerts.step] at h
    repeat' split at h
    all_goals cases h
    all_goals exact ⟨.of_rows rfl rfl fun _ h => h, put_of_ne _ _ hw⟩
  | release w' =>
    have hw : w ≠ w' := fun heq => hother (heq ▸ rfl)
    simp only [Alerts.step] at h
    split at h
    all_goals cases h
    exact ⟨.of_rows rfl rfl List.filter_sublist.subset, put_of_ne _ _ hw⟩
  | fail w' =>
    have hw : w ≠ w' := fun heq => hother (heq ▸ rfl)
    simp only [Alerts.step] at h
    split at h
    all_goals cases h
    exact ⟨.of_rows rfl rfl fun _ h => h, put_of_ne _ _ hw⟩

/-- A step of the run that owes the account the change. -/
theorem step_own {l : Label W} {p : Place} (hp : s.places w = some p) (howes : p.Owes settings s userId c)
    (hok : undisturbed settings userId w s l = true) (h : Alerts.step settings s l = some s')
    (hown : l.run = some w) : Kept settings s' w userId c := by
  cases l with
  | detect change => cases hown
  | edit t => cases hown
  | start w' now =>
    obtain rfl := Option.some.inj hown
    simp only [Alerts.step, hp] at h
    cases h
  | read w' =>
    obtain rfl := Option.some.inj hown
    simp only [Alerts.step, hp] at h
    cases p with
    | watching now changes =>
      cases h
      exact Kept.goto (owes_checking howes)
    | checking now changes accounts =>
      cases h
      exact Kept.goto (owes_looping howes)
    | looping _ _ | claiming _ _ _ _ | sending _ _ _ _ _ | releasing _ _ _ _ _ _ => cases h
  | advance w' =>
    obtain rfl := Option.some.inj hown
    simp only [Alerts.step, hp] at h
    cases p with
    | looping r todo =>
      cases h
      obtain ⟨p, hnext, howes⟩ := owes_advance howes fun hmem => by
        simpa [undisturbed, hp, hmem] using hok
      rw [hnext]
      exact Kept.goto howes
    | watching _ _ | checking _ _ _ | claiming _ _ _ _ | sending _ _ _ _ _ | releasing _ _ _ _ _ _ => cases h
  | claim w' emailId =>
    obtain rfl := Option.some.inj hown
    simp only [Alerts.step, hp] at h
    cases p with
    | claiming r account hits todo =>
      dsimp only at h
      obtain ⟨rfl, hahead⟩ | ⟨huser, hlisted⟩ := howes
      · rw [if_pos hahead.accepts] at h
        split at h
        · cases h
        · cases h
          exact .inr ⟨_, put_self _ _ _, .inl ⟨hahead.mine, _, hahead.hit, rfl⟩⟩
      · repeat' split at h
        all_goals cases h
        · exact .inr ⟨_, put_self _ _ _, .inr ⟨huser, hlisted.mono ⟨rfl, fun _ h => h, newRows_other huser⟩⟩⟩
        · exact Kept.goto hlisted
    | watching _ _ | checking _ _ _ | looping _ _ | sending _ _ _ _ _ | releasing _ _ _ _ _ _ => cases h
  | send w' outcome =>
    obtain rfl := Option.some.inj hown
    simp only [Alerts.step, hp] at h
    cases p with
    | sending r account hits emailId todo =>
      obtain ⟨huser, hit, hmem, hchange⟩ | ⟨huser, hlisted⟩ := howes
      · obtain rfl : outcome = .returned := by simpa [undisturbed, hp, huser] using hok
        cases h
        exact .inl ⟨_, List.mem_cons_self, huser, hit, hmem, hchange⟩
      · have hraised : outcome ≠ .raised := by simpa [undisturbed, hp, huser] using hok
        cases outcome with
        | returned =>
          cases h
          exact .inr ⟨_, put_self _ _ _, (hlisted.recount _ _).mono ⟨rfl, fun _ h => h, fun _ h _ => h⟩⟩
        | deliveryError =>
          cases h
          exact Kept.goto ⟨huser, rfl, hlisted⟩
        | raised => exact (hraised rfl).elim
    | watching _ _ | checking _ _ _ | looping _ _ | claiming _ _ _ _ | releasing _ _ _ _ _ _ => cases h
  | release w' =>
    obtain rfl := Option.some.inj hown
    simp only [Alerts.step, hp] at h
    cases p with
    | releasing r account hits emailId raised todo =>
      obtain ⟨huser, rfl, hlisted⟩ := howes
      cases h
      exact .inr ⟨_, put_self _ _ _, (hlisted.recount _ _).mono (.of_rows rfl rfl List.filter_sublist.subset)⟩
    | watching _ _ | checking _ _ _ | looping _ _ | claiming _ _ _ _ | sending _ _ _ _ _ => cases h
  | fail w' =>
    obtain rfl := Option.some.inj hown
    simp [undisturbed] at hok

theorem Kept.step {l : Label W} (hk : Kept settings s w userId c)
    (hok : undisturbed settings userId w s l = true) (h : Alerts.step settings s l = some s') :
    Kept settings s' w userId c := by
  obtain ⟨m, hm, hmailed⟩ | ⟨p, hp, howes⟩ := hk
  · exact .inl ⟨m, step_mails h hm, hmailed⟩
  · by_cases hown : l.run = some w
    · exact step_own hp howes hok h hown
    · obtain ⟨hspares, hplace⟩ := step_other hok h hown
      exact .inr ⟨p, hplace.trans hp, howes.mono hspares⟩

theorem Kept.run {ls : List (Label W)} (hk : Kept settings s w userId c)
    (hok : Along (Alerts.step settings) (fun s l => undisturbed settings userId w s l = true) s ls)
    (h : exec (Alerts.step settings) s ls = some s') : Kept settings s' w userId c :=
  exec_invariant (I := fun s => Kept settings s w userId c) (fun _ _ _ hk hok h => hk.step hok h) hk hok h

/-- A run that starts inside the window reads the change. -/
theorem Kept.start (hi : Inv s) {now : Int} (hdue : Due settings s userId c now) (hidle : s.places w = none)
    (h : Alerts.step settings s (.start w now) = some s') : Kept settings s' w userId c := by
  have hperm := List.perm_insertionSort (fun a b => changeLe a b)
    (s.changes.filter fun c => now - window ≤ c.detectedAt ∧ c.detectedAt ≤ now)
  have hmem : c ∈ recentChanges s.changes now :=
    hperm.mem_iff.mpr (List.mem_filter.mpr ⟨hdue.detected, decide_eq_true hdue.recent⟩)
  have hnodup : ((recentChanges s.changes now).map DocChange.changeId).Nodup :=
    (hperm.map _).nodup_iff.mpr (hi.changes_nodup.sublist (List.filter_sublist.map _))
  simp only [Alerts.step, hidle] at h
  rw [if_neg (List.ne_nil_of_mem hmem)] at h
  cases h
  exact Kept.goto ⟨hdue, hmem, hnodup⟩

theorem Inv.run {tables : Tables} {ls : List (Label W)}
    (h : exec (Alerts.step settings) (Server.new tables) ls = some s) : Inv s :=
  exec_history (I := fun _ s => Inv s) (Inv.new tables) (fun _ _ _ _ _ hi h => hi.step h) h

end

/-- After any steps of any runs, each account and change is in at most one mail whose
send has returned; a run that gives the claims of a mail back leaves none on its pairs;
and a later run that starts inside the window and is not disturbed mails the account the
change before it ends. -/
theorem alerted_once (settings : Settings) (tables : Tables) (ls : List (Label W)) (s : Server W)
    (hrun : exec (step settings) (Server.new tables) ls = some s) :
    ((s.mails.flatMap Mail.pairs).map Prod.fst).Nodup ∧
    (∀ w r account hits emailId raised todo s',
      s.places w = some (.releasing r account hits emailId raised todo) →
      step settings s (.release w) = some s' →
      ∀ hit ∈ hits, ∀ row ∈ s'.rows, (row.userId, row.changeId) ≠ (account.userId, hit.change.changeId)) ∧
    ∀ w now userId c s₁ later s', Due settings s userId c now → s.places w = none →
      step settings s (.start w now) = some s₁ →
      Along (step settings) (fun s l => undisturbed settings userId w s l = true) s₁ later →
      exec (step settings) s₁ later = some s' → s'.places w = none → s'.Mailed userId c := by
  have hi : Inv s := Inv.run hrun
  refine ⟨hi.mailed_once, ?_, ?_⟩
  · intro w r account hits emailId raised todo s' hw h
    exact hi.released hw h
  · intro w now userId c s₁ later s' hdue hidle hstart hok h hended
    obtain hmailed | ⟨p, hp, -⟩ := (Kept.start hi hdue hidle hstart).run hok h
    · exact hmailed
    · rw [hended] at hp
      cases hp

def exampleSettings : Settings := ⟨100, id⟩

def exampleUser : Str := "usr_1".toList

def exampleUrl : Str := "https://developers.openai.com/codex/pricing.md".toList

/-- A verified Pro account that watches a page. -/
def exampleTables : Tables where
  users := [⟨exampleUser, some "a@example.com".toList, some 0, none⟩]
  watches := [⟨exampleUser, "page".toList, exampleUrl, 0⟩]
  memberships := [⟨exampleUser, "pro".toList, "active".toList, none, none, none, false, none, 0, 0⟩]

def exampleChange : DocChange :=
  ⟨1, exampleUrl, "codex".toList, "Pricing".toList, 5, ['a'], ['b'], ⟨[], [], [], 0, 1, 1⟩, ⟨[['b']], [['a']], false⟩⟩

/-- The first send of the change fails. -/
def failedSend : List (Label Nat) :=
  [.detect exampleChange, .start 0 10, .read 0, .read 0, .advance 0, .claim 0 1, .send 0 .deliveryError]

def nextRun : List (Label Nat) := [.read 1, .read 1, .advance 1, .claim 1 2, .send 1 .returned, .advance 1]

/-- The claim of a send that fails is given back, and the next run mails the change. -/
theorem alerted_once_afterFailure :
    (∃ s, exec (step exampleSettings) (Server.new exampleTables) failedSend = some s ∧ s.rows ≠ [] ∧
      ∃ s', step exampleSettings s (.release 0) = some s' ∧
        ∀ row ∈ s'.rows, (row.userId, row.changeId) ≠ (exampleUser, 1)) ∧
    ∃ s, exec (step exampleSettings) (Server.new exampleTables) (failedSend ++ [.release 0, .advance 0]) = some s ∧
      ∃ s', exec (step exampleSettings) s (.start 1 20 :: nextRun) = some s' ∧
        s'.Mailed exampleUser exampleChange := by
  have hfailed : ∃ s ∈ exec (step exampleSettings) (Server.new exampleTables) failedSend, s.rows ≠ [] ∧
      (∃ p ∈ s.places 0, p = .releasing ⟨10, [exampleChange], [], 0, 0⟩
        ⟨exampleUser, "a@example.com".toList, [("page".toList, exampleUrl)]⟩
        [⟨exampleChange, ["the page ".toList ++ exampleUrl]⟩] 1 false []) ∧
      (step exampleSettings s (.release 0)).isSome := by
    decide +kernel
  have hlater : ∃ s ∈ exec (step exampleSettings) (Server.new exampleTables) (failedSend ++ [.release 0, .advance 0]),
      (exampleChange ∈ s.changes ∧
        (∃ account ∈ s.tables.accounts, account.userId = exampleUser ∧ account.why exampleSettings exampleChange ≠ []) ∧
        accountIsPro (s.tables.membershipsFor exampleUser) 20 = true ∧
        ∀ row ∈ s.rows, (row.userId, row.changeId) ≠ (exampleUser, exampleChange.changeId)) ∧
      s.places 1 = none ∧
      ∃ s₁ ∈ step exampleSettings s (.start 1 20),
        Along (step exampleSettings) (fun s l => undisturbed exampleSettings exampleUser 1 s l = true) s₁ nextRun ∧
        ∃ s' ∈ exec (step exampleSettings) s₁ nextRun, s'.places 1 = none := by
    decide +kernel
  refine ⟨?_, ?_⟩
  · obtain ⟨s, hs, hrows, ⟨p, hp, rfl⟩, hrelease⟩ := hfailed
    obtain ⟨s', hs'⟩ := Option.isSome_iff_exists.mp hrelease
    obtain ⟨-, hreleased, -⟩ := alerted_once exampleSettings exampleTables failedSend s hs
    exact ⟨s, hs, hrows, s', hs', hreleased 0 _ _ _ _ _ _ s' hp hs' _ List.mem_cons_self⟩
  · obtain ⟨s, hs, ⟨hdetected, hwatched, hpro, hfree⟩, hidle, s₁, hstart, hok, s', hs', hended⟩ := hlater
    obtain ⟨-, -, hmails⟩ := alerted_once exampleSettings exampleTables _ s hs
    have hdue : Due exampleSettings s exampleUser exampleChange 20 := ⟨hdetected, by decide, hwatched, hpro, hfree⟩
    refine ⟨s, hs, s', ?_, hmails 1 20 _ _ s₁ nextRun s' hdue hidle hstart hok hs' hended⟩
    rw [exec, Option.mem_def.mp hstart]
    exact hs'

end CiteVyn.Services.Alerts
