import CiteVyn.Lib.Claims
import CiteVyn.Lib.Runs
import CiteVyn.Services.Mail
import CiteVyn.Watch.Runner
import Mathlib.Data.Fintype.Basic
import Mathlib.Data.List.MinMax
import Mathlib.Data.List.Sort

/-! # The weekly digest

`send_weekly_digest` of `app/services/digest.py`, beside the watcher. A run reads the
changes, the recipients, the claims of the week and the last sends; for each recipient
it claims the week, commits, sends one mail and gives the claim back if the send
raises. -/
namespace CiteVyn.Services.Digest
open CiteVyn.Lib.Claims CiteVyn.Lib.Runs CiteVyn.Lib.Threads CiteVyn.Text CiteVyn.Watch

/-- `DigestSend`. -/
structure DigestSend where
  sendId : Nat
  userId : Str
  weekStart : Int
  sentAt : Int
  deriving DecidableEq, Repr

/-- `week_start`: the Monday of the week, in days since the epoch, which was a Thursday. -/
def weekStart (now : Int) : Int := now / 86400000000 - (now / 86400000000 + 3) % 7

/-- `order_by(DocChange.product_area, DocChange.title, DocChange.detected_at)`. -/
def changeLe (a b : DocChange) : Bool :=
  if a.productArea ≠ b.productArea then textLe a.productArea b.productArea
  else if a.title ≠ b.title then textLe a.title b.title
  else a.detectedAt ≤ b.detectedAt

/-- The changes of the last seven days. -/
def recentChanges (changes : List DocChange) (now : Int) : List DocChange :=
  (changes.filter fun c => now - window ≤ c.detectedAt ∧ c.detectedAt ≤ now).insertionSort fun a b => changeLe a b

/-- `recipients`: the accounts that have opted in with a verified address, and the address. -/
def recipients (users : List User) : List (Str × Str) :=
  (users.insertionSort fun a b => textLe a.userId b.userId).filterMap fun user =>
    if user.digestOptInAt.isSome then user.verifiedEmail.map fun email => (user.userId, email) else none

/-- An account's entry of `last_sent`. -/
def lastSent (rows : List DigestSend) (userId : Str) : Option Int :=
  ((rows.filter fun row => row.userId = userId).map DigestSend.sentAt).max?

/-- What a run has read, with the rows that its last sends are taken from. -/
structure Run where
  now : Int
  changes : List DocChange
  claimed : List Str
  sends : List DigestSend
  sent : Nat
  failed : Nat
  deriving DecidableEq, Repr

/-- `mine`: what has changed since the account's last digest. -/
def Run.mine (r : Run) (userId : Str) : List DocChange :=
  r.changes.filter fun c => (lastSent r.sends userId).all fun since => since < c.detectedAt

/-- Where a run is. -/
inductive Place where
  /-- it has read the changes -/
  | started (now : Int) (changes : List DocChange)
  /-- and the recipients -/
  | listed (now : Int) (changes : List DocChange) (recipients : List (Str × Str))
  /-- and the claims of the week -/
  | checked (now : Int) (changes : List DocChange) (recipients : List (Str × Str)) (claimed : List Str)
  /-- it comes to the next recipient -/
  | looping (r : Run) (todo : List (Str × Str))
  /-- the commit of the claim is next -/
  | claiming (r : Run) (userId email : Str) (mine : List DocChange) (todo : List (Str × Str))
  | sending (r : Run) (userId email : Str) (mine : List DocChange) (sendId : Nat) (todo : List (Str × Str))
  /-- the send has raised -/
  | releasing (r : Run) (userId : Str) (sendId : Nat) (raised : Bool) (todo : List (Str × Str))
  deriving DecidableEq, Repr

/-- A mail whose send has returned, with the week and the start of the run that sent it. -/
structure Mail where
  sendId : Nat
  userId : Str
  toAddr : Str
  weekStart : Int
  sentAt : Int
  changes : List DocChange
  deriving DecidableEq, Repr

structure Server (W : Type) where
  store : Store
  users : List User
  rows : List DigestSend
  places : W → Option Place
  /-- the ids that have been drawn for sends -/
  drawn : List Nat
  mails : List Mail
  /-- the times of the runs so far, the latest first; nothing reads it -/
  starts : List Int

inductive Label (W : Type) where
  /-- a watcher run that started at `now` comes to a page -/
  | visit (now : Int) (v : Visit)
  /-- users change -/
  | edit (users : List User)
  /-- a run reads the changes -/
  | start (w : W) (now : Int)
  /-- it reads the recipients, the claims and the last sends, in turn -/
  | read (w : W)
  | advance (w : W)
  | claim (w : W) (sendId : Nat)
  | send (w : W) (outcome : SendOutcome)
  /-- `_release` -/
  | release (w : W)
  /-- the run is cut off -/
  | fail (w : W)
  deriving DecidableEq, Repr

variable (digestMaxPerRun : Nat) (sha : Str → Str) {W : Type} [DecidableEq W]

/-- A run comes to the next recipient, or to its end. -/
def Run.advance (r : Run) : List (Str × Str) → Option Place
  | [] => none
  | (userId, email) :: todo =>
    if userId ∈ r.claimed then some (.looping r todo)
    else if r.mine userId = [] then some (.looping r todo)
    else if digestMaxPerRun ≤ r.sent + r.failed then none
    else some (.claiming r userId email (r.mine userId) todo)

def Server.goto (s : Server W) (w : W) (p : Option Place) : Server W := { s with places := put s.places w p }

/-- The unique constraint lets the claim in. -/
def Server.accepts (s : Server W) (userId : Str) (week : Int) : Bool :=
  s.rows.all fun row => (row.userId, row.weekStart) ≠ (userId, week)

def step (s : Server W) : Label W → Option (Server W)
  | .visit now v => (s.store.visit sha now {} v).map fun (store, _) => { s with store := store }
  | .edit users => some { s with users := users }
  | .start w now =>
    match s.places w with
    | some _ => none
    | none =>
      let s := { s with starts := now :: s.starts }
      if recentChanges s.store.changes now = [] then some s
      else some (s.goto w (some (.started now (recentChanges s.store.changes now))))
  | .read w =>
    match s.places w with
    | some (.started now changes) => some (s.goto w (some (.listed now changes (recipients s.users))))
    | some (.listed now changes recipients) =>
      let claimed := (s.rows.filter fun row => row.weekStart = weekStart now).map DigestSend.userId
      some (s.goto w (some (.checked now changes recipients claimed)))
    | some (.checked now changes recipients claimed) =>
      some (s.goto w (some (.looping ⟨now, changes, claimed, s.rows, 0, 0⟩ recipients)))
    | _ => none
  | .advance w =>
    match s.places w with
    | some (.looping r todo) => some (s.goto w (r.advance digestMaxPerRun todo))
    | _ => none
  | .claim w sendId =>
    match s.places w with
    | some (.claiming r userId email mine todo) =>
      if sendId ∈ s.drawn then none
      else if s.accepts userId (weekStart r.now) then
        some { s.goto w (some (.sending r userId email mine sendId todo)) with
          rows := ⟨sendId, userId, weekStart r.now, r.now⟩ :: s.rows
          drawn := sendId :: s.drawn }
      else some (s.goto w (some (.looping r todo)))
    | _ => none
  | .send w outcome =>
    match s.places w with
    | some (.sending r userId email mine sendId todo) =>
      match outcome with
      | .returned =>
        some { s.goto w (some (.looping { r with sent := r.sent + 1 } todo)) with
          mails := ⟨sendId, userId, email, weekStart r.now, r.now, mine⟩ :: s.mails }
      | .deliveryError => some (s.goto w (some (.releasing r userId sendId false todo)))
      | .raised => some (s.goto w (some (.releasing r userId sendId true todo)))
    | _ => none
  | .release w =>
    match s.places w with
    | some (.releasing r _ sendId raised todo) =>
      some { s.goto w (if raised then none else some (.looping { r with failed := r.failed + 1 } todo)) with
        rows := s.rows.filter fun row => row.sendId ≠ sendId }
    | _ => none
  | .fail w =>
    match s.places w with
    | some _ => some (s.goto w none)
    | none => none

/-- No page has been watched and no digest sent. -/
def Server.new (users : List User) : Server W := ⟨.empty, users, [], idle, [], [], []⟩

/-! ## What a step comes to -/

/-- The reads of a run, one after the other. -/
inductive Reads (s : Server W) : Place → Place → Prop where
  | recipients (now : Int) (changes : List DocChange) :
    Reads s (.started now changes) (.listed now changes (recipients s.users))
  | claimed (now : Int) (changes : List DocChange) (rcpts : List (Str × Str)) :
    Reads s (.listed now changes rcpts) (.checked now changes rcpts
      ((s.rows.filter fun row => row.weekStart = weekStart now).map DigestSend.userId))
  | sends (now : Int) (changes : List DocChange) (rcpts : List (Str × Str)) (claimed : List Str) :
    Reads s (.checked now changes rcpts claimed) (.looping ⟨now, changes, claimed, s.rows, 0, 0⟩ rcpts)

/-- The steps, with what each finds and what it leaves. -/
inductive Turn (s : Server W) : Label W → Server W → Prop where
  | visit {now v store stats} (h : s.store.visit sha now {} v = some (store, stats)) :
    Turn s (.visit now v) { s with store := store }
  | edit (users : List User) : Turn s (.edit users) { s with users := users }
  | nothing {w now} (hw : s.places w = none) (hnone : recentChanges s.store.changes now = []) :
    Turn s (.start w now) { s with starts := now :: s.starts }
  | start {w now} (hw : s.places w = none) (hsome : recentChanges s.store.changes now ≠ []) :
    Turn s (.start w now)
      { s.goto w (some (.started now (recentChanges s.store.changes now))) with starts := now :: s.starts }
  | read {w p p'} (hw : s.places w = some p) (h : Reads s p p') : Turn s (.read w) (s.goto w (some p'))
  | advance {w r todo} (hw : s.places w = some (.looping r todo)) :
    Turn s (.advance w) (s.goto w (r.advance digestMaxPerRun todo))
  | claim {w sendId r userId email mine todo} (hw : s.places w = some (.claiming r userId email mine todo))
    (hnew : sendId ∉ s.drawn) (hfree : s.accepts userId (weekStart r.now) = true) :
    Turn s (.claim w sendId) { s.goto w (some (.sending r userId email mine sendId todo)) with
      rows := ⟨sendId, userId, weekStart r.now, r.now⟩ :: s.rows
      drawn := sendId :: s.drawn }
  | refused {w sendId r userId email mine todo} (hw : s.places w = some (.claiming r userId email mine todo))
    (htaken : s.accepts userId (weekStart r.now) = false) :
    Turn s (.claim w sendId) (s.goto w (some (.looping r todo)))
  | returned {w r userId email mine sendId todo} (hw : s.places w = some (.sending r userId email mine sendId todo)) :
    Turn s (.send w .returned) { s.goto w (some (.looping { r with sent := r.sent + 1 } todo)) with
      mails := ⟨sendId, userId, email, weekStart r.now, r.now, mine⟩ :: s.mails }
  | raised {w outcome r userId email mine sendId todo} (raised : Bool)
    (hw : s.places w = some (.sending r userId email mine sendId todo)) (hfailed : outcome ≠ .returned) :
    Turn s (.send w outcome) (s.goto w (some (.releasing r userId sendId raised todo)))
  | release {w r userId sendId raised todo} (hw : s.places w = some (.releasing r userId sendId raised todo)) :
    Turn s (.release w)
      { s.goto w (if raised then none else some (.looping { r with failed := r.failed + 1 } todo)) with
        rows := s.rows.filter fun row => row.sendId ≠ sendId }
  | fail {w p} (hw : s.places w = some p) : Turn s (.fail w) (s.goto w none)

section

variable {digestMaxPerRun : Nat} {sha : Str → Str} {s s' : Server W} {l : Label W} {w : W}

theorem step_turn (h : step digestMaxPerRun sha s l = some s') : Turn digestMaxPerRun sha s l s' := by
  cases l with
  | visit now v =>
    obtain ⟨⟨store, stats⟩, hvisit, rfl⟩ := Option.map_eq_some_iff.mp h
    exact .visit hvisit
  | edit users =>
    cases h
    exact .edit users
  | start w now =>
    simp only [step] at h
    split at h
    · cases h
    · rename_i hw
      split at h
      · rename_i hnone
        cases h
        exact .nothing hw hnone
      · rename_i hsome
        cases h
        exact .start hw hsome
  | read w =>
    simp only [step] at h
    split at h
    · rename_i now changes hw
      cases h
      exact .read hw (.recipients now changes)
    · rename_i now changes rcpts hw
      cases h
      exact .read hw (.claimed now changes rcpts)
    · rename_i now changes rcpts claimed hw
      cases h
      exact .read hw (.sends now changes rcpts claimed)
    · cases h
  | advance w =>
    simp only [step] at h
    split at h
    · rename_i r todo hw
      cases h
      exact .advance hw
    · cases h
  | claim w sendId =>
    simp only [step] at h
    split at h
    · rename_i r userId email mine todo hw
      split at h
      · cases h
      · rename_i hnew
        split at h
        · rename_i hfree
          cases h
          exact .claim hw hnew hfree
        · rename_i htaken
          cases h
          exact .refused hw (Bool.eq_false_iff.mpr htaken)
    · cases h
  | send w outcome =>
    simp only [step] at h
    split at h
    · rename_i r userId email mine sendId todo hw
      cases outcome with
      | returned =>
        cases h
        exact .returned hw
      | deliveryError =>
        cases h
        exact .raised false hw (by simp)
      | raised =>
        cases h
        exact .raised true hw (by simp)
    · cases h
  | release w =>
    simp only [step] at h
    split at h
    · rename_i r userId sendId raised todo hw
      cases h
      exact .release hw
    · cases h
  | fail w =>
    simp only [step] at h
    split at h
    · rename_i p hw
      cases h
      exact .fail hw
    · cases h

end

/-! ## Claims and mails -/

def DigestSend.claim (row : DigestSend) : (Str × Int) × Nat := ((row.userId, row.weekStart), row.sendId)

/-- The row of a mail. -/
def Mail.row (m : Mail) : DigestSend := ⟨m.sendId, m.userId, m.weekStart, m.sentAt⟩

/-- The send that a run has claimed for, and the account and week of it. -/
def Place.held : Place → Option (Nat × List (Str × Int))
  | .sending r userId _ _ sendId _ | .releasing r userId sendId _ _ => some (sendId, [(userId, weekStart r.now)])
  | _ => none

/-- No change is newer than the run. -/
def Run.Sound (r : Run) : Prop := ∀ c ∈ r.changes, c.detectedAt ≤ r.now

def Place.Sound (rows : List DigestSend) : Place → Prop
  | .started now changes | .listed now changes _ | .checked now changes _ _ => ∀ c ∈ changes, c.detectedAt ≤ now
  | .looping r _ | .releasing r _ _ _ _ => r.Sound
  | .claiming r userId _ mine _ => r.Sound ∧ mine = r.mine userId
  | .sending r userId _ mine sendId _ =>
    r.Sound ∧ mine = r.mine userId ∧ ⟨sendId, userId, weekStart r.now, r.now⟩ ∈ rows

structure Inv (s : Server W) : Prop where
  ledger : Ledger s.drawn (s.rows.map DigestSend.claim) (fun w => (s.places w).bind Place.held)
    (s.mails.map fun m => m.row.claim)
  kept : ∀ m ∈ s.mails, m.row ∈ s.rows
  before : ∀ m ∈ s.mails, ∀ c ∈ m.changes, c.detectedAt ≤ m.sentAt
  sound : ∀ w p, s.places w = some p → p.Sound s.rows

omit [DecidableEq W] in
theorem Inv.new (users : List User) : Inv (Server.new users : Server W) where
  ledger := Ledger.nil
  kept := fun _ h => by cases h
  before := fun _ h => by cases h
  sound := fun _ _ h => by cases h

theorem claim_release (rows : List DigestSend) (sendId : Nat) :
    (rows.filter fun row => row.sendId ≠ sendId).map DigestSend.claim =
      (rows.map DigestSend.claim).filter fun p => p.2 ≠ sendId := by
  rw [List.filter_map]
  rfl

theorem mem_mine {r : Run} {userId : Str} {c : DocChange} :
    c ∈ r.mine userId ↔ c ∈ r.changes ∧ ∀ since, lastSent r.sends userId = some since → since < c.detectedAt := by
  rw [Run.mine, List.mem_filter]
  cases lastSent r.sends userId <;> simp

theorem mem_recent {changes : List DocChange} {now : Int} {c : DocChange} :
    c ∈ recentChanges changes now ↔ c ∈ changes ∧ now - window ≤ c.detectedAt ∧ c.detectedAt ≤ now := by
  rw [recentChanges, (List.perm_insertionSort _ _).mem_iff, List.mem_filter, decide_eq_true_eq]

/-- The last send of an account is at or after each of its rows. -/
theorem lastSent_of_row {rows : List DigestSend} {row : DigestSend} (h : row ∈ rows) :
    ∃ since, lastSent rows row.userId = some since ∧ row.sentAt ≤ since := by
  have hmem : row.sentAt ∈ (rows.filter fun row' => row'.userId = row.userId).map DigestSend.sentAt :=
    List.mem_map_of_mem (List.mem_filter.mpr ⟨h, decide_eq_true rfl⟩)
  obtain ⟨since, hsince⟩ := Option.isSome_iff_exists.mp (List.isSome_max?_of_mem hmem)
  exact ⟨since, hsince, (List.max?_eq_some_iff.mp hsince).2 _ hmem⟩

theorem row_of_lastSent {rows : List DigestSend} {userId : Str} {since : Int} (h : lastSent rows userId = some since) :
    ∃ row ∈ rows, row.userId = userId ∧ row.sentAt = since := by
  obtain ⟨row, hrow, rfl⟩ := List.mem_map.mp (List.max?_mem h)
  obtain ⟨hmem, huser⟩ := List.mem_filter.mp hrow
  exact ⟨row, hmem, of_decide_eq_true huser, rfl⟩

omit [DecidableEq W] in
theorem accepts_iff {s : Server W} {userId : Str} {week : Int} :
    s.accepts userId week = true ↔ ∀ row ∈ s.rows, (row.userId, row.weekStart) ≠ (userId, week) := by
  simp only [Server.accepts, List.all_eq_true, decide_eq_true_eq]

section

variable {digestMaxPerRun : Nat} {sha : Str → Str} {s s' : Server W} {l : Label W} {w : W}

theorem held_goto (s : Server W) (w : W) (p : Option Place) :
    (fun w' => ((s.goto w p).places w').bind Place.held) =
      put (fun w' => (s.places w').bind Place.held) w (p.bind Place.held) :=
  put_bind s.places w p Place.held

/-- A run that moves on without a claim of its own. -/
theorem Inv.goto (hi : Inv s) {p : Option Place} (hp : p.bind Place.held = none)
    (hsound : ∀ p', p = some p' → p'.Sound s.rows) : Inv (s.goto w p) where
  ledger := by
    rw [held_goto, hp]
    exact hi.ledger.drop w
  kept := hi.kept
  before := hi.before
  sound := forall_put hi.sound hsound

omit [DecidableEq W] in
theorem reads_sound {p p' : Place} {rows : List DigestSend} (h : Reads s p p') (hsound : p.Sound rows) :
    p'.Sound rows ∧ p'.held = none := by
  cases h with
  | recipients => exact ⟨hsound, rfl⟩
  | claimed => exact ⟨hsound, rfl⟩
  | sends => exact ⟨hsound, rfl⟩

theorem advance_sound {r : Run} {rows : List DigestSend} (hsound : r.Sound) {todo : List (Str × Str)} {p : Place}
    (h : r.advance digestMaxPerRun todo = some p) : p.Sound rows ∧ p.held = none := by
  cases todo with
  | nil => cases h
  | cons next todo =>
    rw [Run.advance] at h
    split_ifs at h
    · cases h
      exact ⟨hsound, rfl⟩
    · cases h
      exact ⟨hsound, rfl⟩
    · cases h
      exact ⟨⟨hsound, rfl⟩, rfl⟩

theorem Place.Sound.mono {p : Place} {rows rows' : List DigestSend} (h : p.Sound rows)
    (hrows : ∀ sendId ks row, p.held = some (sendId, ks) → row.sendId = sendId → row ∈ rows → row ∈ rows') :
    p.Sound rows' := by
  cases p with
  | sending r userId email mine sendId todo =>
    obtain ⟨hsound, hmine, hrow⟩ := h
    exact ⟨hsound, hmine, hrows _ _ _ rfl rfl hrow⟩
  | _ => exact h

theorem Inv.step (hi : Inv s) (h : Digest.step digestMaxPerRun sha s l = some s') : Inv s' := by
  cases step_turn h with
  | visit _ => exact ⟨hi.ledger, hi.kept, hi.before, hi.sound⟩
  | edit _ => exact ⟨hi.ledger, hi.kept, hi.before, hi.sound⟩
  | nothing _ _ => exact ⟨hi.ledger, hi.kept, hi.before, hi.sound⟩
  | @start w now hw _ =>
    have hnew : Inv (s.goto w (some (.started now (recentChanges s.store.changes now)))) := by
      refine hi.goto rfl ?_
      rintro _ ⟨⟩ c hc
      exact (mem_recent.mp hc).2.2
    exact ⟨hnew.ledger, hnew.kept, hnew.before, hnew.sound⟩
  | read hw hreads =>
    obtain ⟨hsound, hheld⟩ := reads_sound hreads (hi.sound _ _ hw)
    exact hi.goto hheld (forall_moved hsound)
  | @advance w r todo hw =>
    have hnext : ∀ p, r.advance digestMaxPerRun todo = some p → p.Sound s.rows ∧ p.held = none := fun _ hp =>
      advance_sound (hi.sound w _ hw) hp
    refine hi.goto ?_ fun p hp => (hnext p hp).1
    cases hp : r.advance digestMaxPerRun todo with
    | none => rfl
    | some p => exact (hnext p hp).2
  | @claim w sendId r userId email mine todo hw hnew hfree =>
    obtain ⟨hsound, hmine⟩ := hi.sound w _ hw
    refine ⟨?_, fun m hm => List.mem_cons_of_mem _ (hi.kept m hm), hi.before, forall_put ?_ ?_⟩
    · dsimp only
      rw [held_goto]
      refine hi.ledger.claim w hnew (List.nodup_singleton _) ?_
      rintro k hk hclaimed
      obtain rfl := List.mem_singleton.mp hk
      obtain ⟨p, hp, heq⟩ := List.mem_map.mp hclaimed
      obtain ⟨row, hrow, rfl⟩ := List.mem_map.mp hp
      exact accepts_iff.mp hfree row hrow heq
    · exact fun w' p hp => (hi.sound w' p hp).mono fun _ _ _ _ _ hrow => List.mem_cons_of_mem _ hrow
    · exact forall_moved ⟨hsound, hmine, List.mem_cons_self⟩
  | refused hw _ => exact hi.goto rfl (forall_moved (hi.sound _ _ hw).1)
  | @returned w r userId email mine sendId todo hw =>
    obtain ⟨hsound, rfl, hrow⟩ := hi.sound w _ hw
    have hheld : (s.places w).bind Place.held = some (sendId, [(userId, weekStart r.now)]) := by
      rw [hw]
      rfl
    refine ⟨?_, List.forall_mem_cons.mpr ⟨hrow, hi.kept⟩, List.forall_mem_cons.mpr ⟨?_, hi.before⟩, forall_put hi.sound ?_⟩
    · dsimp only
      rw [held_goto]
      exact hi.ledger.deliver hheld
    · exact fun c hc => hsound c (mem_mine.mp hc).1
    · exact forall_moved hsound
  | @raised w outcome r userId email mine sendId todo raised hw _ =>
    refine ⟨?_, hi.kept, hi.before, forall_put hi.sound ?_⟩
    · have hheld : (some (Place.releasing r userId sendId raised todo)).bind Place.held =
          (s.places w).bind Place.held := by
        rw [hw]
        rfl
      rw [held_goto, hheld, put_there]
      exact hi.ledger
    · exact forall_moved (hi.sound w _ hw).1
  | @release w r userId sendId raised todo hw =>
    have hheld : (s.places w).bind Place.held = some (sendId, [(userId, weekStart r.now)]) := by
      rw [hw]
      rfl
    have hkeep : ∀ {row : DigestSend}, row ∈ s.rows → row.sendId ≠ sendId →
        row ∈ s.rows.filter fun row => row.sendId ≠ sendId :=
      fun hrow hne => List.mem_filter.mpr ⟨hrow, decide_eq_true hne⟩
    have hp : (if raised then none else some (Place.looping { r with failed := r.failed + 1 } todo)).bind
        Place.held = none := by
      cases raised <;> rfl
    refine ⟨?_, ?_, hi.before, ?_⟩
    · dsimp only
      rw [held_goto, hp, claim_release]
      exact hi.ledger.release hheld
    · refine fun m hm => hkeep (hi.kept m hm) ?_
      rintro heq
      exact hi.ledger.held_undelivered w _ _ hheld (m.userId, m.weekStart)
        (List.mem_map.mpr ⟨m, hm, by rw [← heq]; rfl⟩)
    · intro w' p' hp'
      rcases put_cases hp' with ⟨-, hmoved⟩ | ⟨hne, hthere⟩
      · cases raised with
        | true => cases hmoved
        | false =>
          cases hmoved
          exact hi.sound w _ hw
      · refine (hi.sound w' p' hthere).mono fun id ks row hother hid hrow => hkeep hrow ?_
        rintro rfl
        subst hid
        refine hne (hi.ledger.held_once w' w row.sendId ks _ ?_ hheld)
        rw [hthere]
        exact hother
  | fail hw => exact hi.goto rfl forall_gone

theorem Inv.run {users : List User} {ls : List (Label W)}
    (h : exec (Digest.step digestMaxPerRun sha) (Server.new users) ls = some s) : Inv s :=
  exec_history (I := fun _ s => Inv s) (Inv.new users) (fun _ _ _ _ _ hi h => hi.step h) h

end

/-! ## Runs one at a time -/

/-- No run starts while another goes on. -/
def alone (s : Server W) : Label W → Prop
  | .start _ _ => ∀ w, s.places w = none
  | _ => True

instance [Fintype W] (s : Server W) : (l : Label W) → Decidable (alone s l)
  | .start _ _ => inferInstanceAs (Decidable (∀ w, s.places w = none))
  | .visit _ _ | .edit _ | .read _ | .advance _ | .claim _ _ | .send _ _ | .release _ | .fail _ => isTrue trivial

/-- The mails that a run does not know from its last sends are of its own week. -/
def Run.Knows (r : Run) (mails : List Mail) : Prop :=
  ∀ m ∈ mails, m.weekStart = weekStart r.now ∨ ∃ since, lastSent r.sends m.userId = some since ∧ m.sentAt ≤ since

def Place.Knows (mails : List Mail) : Place → Prop
  | .started _ _ | .listed _ _ _ | .checked _ _ _ _ => True
  | .looping r _ | .claiming r _ _ _ _ | .releasing r _ _ _ _ => r.Knows mails
  | .sending r userId _ mine _ _ =>
    r.Knows mails ∧ ∀ m ∈ mails, m.userId = userId → ∀ c ∈ mine, m.sentAt < c.detectedAt

/-- The two mails are to different accounts or list different changes. -/
def Mail.Apart (m m' : Mail) : Prop := m.userId = m'.userId → ∀ c ∈ m.changes, c ∉ m'.changes

structure Alone (s : Server W) : Prop where
  single : ∀ w w' p p', s.places w = some p → s.places w' = some p' → w = w'
  knows : ∀ w p, s.places w = some p → p.Knows s.mails
  apart : s.mails.Pairwise Mail.Apart

omit [DecidableEq W] in
theorem Alone.new (users : List User) : Alone (Server.new users : Server W) where
  single := fun _ _ _ _ h => by cases h
  knows := fun _ _ h => by cases h
  apart := .nil

section

variable {digestMaxPerRun : Nat} {sha : Str → Str} {s s' : Server W} {l : Label W} {w : W}

/-- The only run moves on. -/
theorem Alone.goto (ha : Alone s) {p₀ : Place} (hw : s.places w = some p₀) {p : Option Place}
    (hp : ∀ p', p = some p' → p'.Knows s.mails) : Alone (s.goto w p) where
  single := by
    intro w₁ w₂ p₁ p₂ h₁ h₂
    have honly : ∀ w' p', s.places w' = some p' → w' = w := fun w' p' h => ha.single w' w p' p₀ h hw
    rw [eq_of_put honly h₁, eq_of_put honly h₂]
  knows := forall_put ha.knows hp
  apart := ha.apart

omit [DecidableEq W] in
/-- The last sends that a run reads tell of every mail. -/
theorem Inv.knows (hi : Inv s) {r : Run} (h : r.sends = s.rows) : r.Knows s.mails := by
  intro m hm
  rw [h]
  exact .inr (lastSent_of_row (hi.kept m hm))

theorem Alone.step (ha : Alone s) (hi : Inv s) (hok : alone s l)
    (h : Digest.step digestMaxPerRun sha s l = some s') : Alone s' := by
  cases step_turn h with
  | visit _ => exact ⟨ha.single, ha.knows, ha.apart⟩
  | edit _ => exact ⟨ha.single, ha.knows, ha.apart⟩
  | nothing _ _ => exact ⟨ha.single, ha.knows, ha.apart⟩
  | @start w now hw _ =>
    refine ⟨?_, ?_, ha.apart⟩
    · intro w₁ w₂ p₁ p₂ h₁ h₂
      have honly : ∀ w' p', s.places w' = some p' → w' = w := fun w' p' h => by
        rw [hok w'] at h
        cases h
      rw [eq_of_put honly h₁, eq_of_put honly h₂]
    · exact forall_put ha.knows (forall_moved trivial)
  | read hw hreads =>
    refine ha.goto hw ?_
    rintro _ ⟨⟩
    cases hreads with
    | recipients => trivial
    | claimed => trivial
    | sends => exact hi.knows rfl
  | @advance w r todo hw =>
    refine ha.goto hw fun p hp => ?_
    have hknows : r.Knows s.mails := ha.knows w _ hw
    cases todo with
    | nil => cases hp
    | cons next todo =>
      rw [Run.advance] at hp
      split_ifs at hp
      all_goals cases hp
      all_goals exact hknows
  | @claim w sendId r userId email mine todo hw _ hfree =>
    have hknows : r.Knows s.mails := ha.knows w _ hw
    obtain ⟨-, rfl⟩ := hi.sound w _ hw
    have hnew := ha.goto (p := some (.sending r userId email (r.mine userId) sendId todo)) hw (by
      rintro _ ⟨⟩
      refine ⟨hknows, ?_⟩
      rintro m hm rfl c hc
      -- the week is free, so the account's mails are of other weeks
      obtain hweek | ⟨since, hsince, hbefore⟩ := hknows m hm
      · exact (accepts_iff.mp hfree m.row (hi.kept m hm) (by rw [← hweek]; rfl)).elim
      · exact lt_of_le_of_lt hbefore ((mem_mine.mp hc).2 since hsince))
    exact ⟨hnew.single, hnew.knows, hnew.apart⟩
  | @refused w sendId r userId email mine todo hw _ =>
    have hknows : r.Knows s.mails := ha.knows w _ hw
    exact ha.goto hw (forall_moved hknows)
  | @returned w r userId email mine sendId todo hw =>
    obtain ⟨hknows, hbefore⟩ := ha.knows w _ hw
    have hnew := ha.goto (p := some (.looping { r with sent := r.sent + 1 } todo)) hw (forall_moved hknows)
    refine ⟨hnew.single, ?_, List.pairwise_cons.mpr ⟨?_, ha.apart⟩⟩
    · intro w' p' hp'
      have hmine : w' = w := hnew.single w' w p' _ hp' (put_self _ _ _)
      subst hmine
      obtain rfl : Place.looping { r with sent := r.sent + 1 } todo = p' :=
        Option.some.inj ((put_self _ _ _).symm.trans hp')
      exact List.forall_mem_cons.mpr ⟨.inl rfl, hknows⟩
    · rintro m hm huser c hc hmailed
      exact absurd (hi.before m hm c hmailed) (not_le.mpr (hbefore m hm huser.symm c hc))
  | raised raised hw _ =>
    exact ha.goto hw (forall_moved (ha.knows _ _ hw).1)
  | @release w r userId sendId raised todo hw =>
    have hknows : r.Knows s.mails := ha.knows w _ hw
    have hnew := ha.goto (p := if raised then none else some (.looping { r with failed := r.failed + 1 } todo)) hw (by
      cases raised with
      | true => exact forall_gone
      | false => exact forall_moved hknows)
    exact ⟨hnew.single, hnew.knows, hnew.apart⟩
  | fail hw => exact ha.goto hw forall_gone

end

/-- In any interleaving an account has at most one mail a week whose send has returned;
and when no run starts while another goes on, no change is in two mails to an account. -/
theorem digest_once (digestMaxPerRun : Nat) (sha : Str → Str) (users : List User) (ls : List (Label W)) (s : Server W)
    (hrun : exec (step digestMaxPerRun sha) (Server.new users) ls = some s) :
    (s.mails.map fun m => (m.userId, m.weekStart)).Nodup ∧
    (Along (step digestMaxPerRun sha) alone (Server.new users) ls →
      s.mails.Pairwise fun m m' => m.userId = m'.userId → ∀ c ∈ m.changes, c ∉ m'.changes) := by
  refine ⟨?_, fun halone => ?_⟩
  · have honce := (Inv.run hrun).ledger.once
    rw [List.map_map] at honce
    exact honce
  · have hboth : Inv s ∧ Alone s := exec_invariant (I := fun s => Inv s ∧ Alone s)
      (fun _ _ _ hs hok h => ⟨hs.1.step h, hs.2.step hs.1 hok h⟩) ⟨Inv.new users, Alone.new users⟩ halone hrun
    exact hboth.2.apart

def exampleUsers : List User := [⟨"usr_1".toList, some "a@example.com".toList, some 0, some 0⟩]

def exampleVisit (text : Str) (changeId : Nat) : Visit := ⟨examplePage, .text text, changeId⟩

/-- A digest on Thursday; on the next Tuesday one whose send fails and, an hour later, one more. -/
def twoWeeks : List (Label Bool) :=
  [.visit 0 (exampleVisit ['a'] 0), .visit 1 (exampleVisit ['b'] 1),
    .start true 10, .read true, .read true, .read true, .advance true, .claim true 1, .send true .returned, .advance true,
    .visit 20 (exampleVisit ['c'] 2),
    .start false 432000000000, .read false, .read false, .read false, .advance false, .claim false 2,
    .send false .deliveryError, .release false, .advance false,
    .start false 435600000000, .read false, .read false, .read false, .advance false, .claim false 3,
    .send false .returned, .advance false]

/-- The second digest has the second change only, though its window has both. -/
theorem digest_once_twoWeeks :
    ∃ s, exec (step 500 exampleSha) (Server.new exampleUsers) twoWeeks = some s ∧
      (s.mails.map fun m => m.changes.map DocChange.changeId) = [[2], [1]] ∧
      (s.mails.map fun m => (m.userId, m.weekStart)).Nodup ∧
      s.mails.Pairwise fun m m' => m.userId = m'.userId → ∀ c ∈ m.changes, c ∉ m'.changes := by
  have hrun : ∃ s ∈ exec (step 500 exampleSha) (Server.new exampleUsers) twoWeeks,
      (s.mails.map fun m => m.changes.map DocChange.changeId) = [[2], [1]] ∧
      Along (step 500 exampleSha) alone (Server.new exampleUsers) twoWeeks := by
    decide +kernel
  obtain ⟨s, hs, hmails, halone⟩ := hrun
  obtain ⟨hweek, happart⟩ := digest_once 500 exampleSha exampleUsers twoWeeks s hs
  exact ⟨s, hs, hmails, hweek, happart halone⟩

end CiteVyn.Services.Digest
