import CiteVyn.Lib.OwnerLocks
import CiteVyn.Lib.Runs
import CiteVyn.Text.Python
import CiteVyn.Watch.Runner

/-! # Watches

`create_watch` and `delete_watch` of `app/api/routes/watches.py`, beside the one-click
unsubscribe of `app/api/routes/alerts.py`, which deletes every watch of an account.
Each statement of a transaction sees what has been committed by then; the row of the
account is locked from the statement that selects it to the end of the transaction.
An id that is drawn is new. -/
namespace CiteVyn.Api.Watches
open CiteVyn.Lib.OwnerLocks CiteVyn.Lib.Locks CiteVyn.Lib.Runs CiteVyn.Lib.Threads CiteVyn.Text
open CiteVyn.Watch (WatchedPage)

/-! ## What can be watched -/

/-- `NewWatch.kind`. -/
inductive Kind where
  | page
  | term
  deriving DecidableEq, Repr

/-- `Watch`. -/
structure WatchRow where
  watchId : Nat
  userId : Str
  kind : Kind
  value : Str
  createdAt : Int
  deriving DecidableEq, Repr

structure Config where
  accessModelEnabled : Bool
  /-- `WATCHED_PAGES` -/
  watchedPages : List WatchedPage
  /-- `str.casefold` -/
  casefold : Str → Str
  /-- `unicodedata.category` -/
  category : Char → String

/-- `MAX_WATCHES`. -/
def maxWatches : Nat := 25

/-- `human_url`. -/
def humanUrl (url : Str) : Str :=
  if ".md.txt".toList.isSuffixOf url then url.take (url.length - 7)
  else if ".md".toList.isSuffixOf url then url.take (url.length - 3)
  else url

/-- `_BY_HUMAN.get`: of two pages that read alike, the last. -/
def Config.byHuman (config : Config) (value : Str) : Option Str :=
  (config.watchedPages.reverse.find? fun page => humanUrl page.url = value).map WatchedPage.url

/-- `NewWatch`: the value that is stored. -/
def Config.newWatch (config : Config) (kind : Kind) (value : Str) : Option Str :=
  if 512 < value.length then none
  else
    let value := strip value
    match kind with
    | .page =>
      let value := (value.takeWhile (· ≠ '#')).rdropWhile (· = '/')
      if config.watchedPages.any fun page => page.url = value then some value else config.byHuman value
    | .term =>
      if value.length < 2 ∨ 64 < value.length then none
      else if value.any fun c => ["Cc", "Cf", "Zl", "Zp"].contains (config.category c) then none
      else some (config.casefold value)

/-! ## Requests -/

/-- What a request to watch has been read as. -/
structure Request where
  userId : Str
  kind : Kind
  value : Str
  /-- it has locked the row of its account, or there is none -/
  locked : Bool
  deriving DecidableEq, Repr

/-- Where a request is, by the statement that comes next. -/
inductive Place where
  /-- the row lock -/
  | locking (r : Request)
  /-- the watch that exists -/
  | looking (r : Request)
  | counting (r : Request)
  /-- the insert and the commit -/
  | inserting (r : Request)
  /-- the deletion and the commit of `delete_watch` -/
  | deleting (watchId : Nat)
  /-- that of `unsubscribe` -/
  | clearing (userId : Str)
  deriving DecidableEq, Repr

/-- What a request answers. -/
inductive Reply where
  /-- 201 -/
  | created (row : WatchRow)
  /-- 200 with the watch that exists -/
  | existing (row : WatchRow)
  /-- 204 -/
  | deleted
  | unsubscribed
  | notFound
  | validationError
  | tooManyWatches
  /-- a row more than one was expected, a key that is taken, or no account -/
  | raised
  deriving DecidableEq, Repr

structure Server (W : Type) where
  now : Int
  /-- the accounts there are -/
  users : List Str
  rows : List WatchRow
  /-- the locks on the rows of accounts -/
  locks : List (Str × W)
  places : W → Option Place
  /-- the ids that have been drawn -/
  drawn : List Nat
  replies : List (W × Reply)

inductive Label (W : Type) where
  | tick (elapsed : Nat)
  /-- a request to watch arrives -/
  | create (w : W) (userId : Str) (kind : Kind) (value : Str)
  /-- a statement of `create_watch` that needs nothing from outside -/
  | advance (w : W)
  /-- the insert and the commit, with the id drawn; the reply can be lost -/
  | insert (w : W) (watchId : Nat) (replied : Bool)
  /-- `delete_watch` loads the row, if the id is one -/
  | delete (w : W) (userId : Str) (watchId : Option Nat)
  /-- `unsubscribe` comes with the link of an account -/
  | unsubscribe (w : W) (userId : Str)
  /-- a deletion is committed -/
  | commit (w : W)
  /-- the database fails, or the request is cancelled -/
  | fail (w : W)
  /-- an account is deleted with its watches -/
  | deleteAccount (userId : Str)

variable {W : Type} [DecidableEq W]

def Server.goto (s : Server W) (w : W) (p : Place) : Server W := { s with places := put s.places w (some p) }

/-- The transaction of a request ends, and with it the request. -/
def Server.close (s : Server W) (w : W) (reply : Option Reply) : Server W :=
  { s with
    locks := release s.locks w
    places := put s.places w none
    replies := (reply.map fun reply => (w, reply)).toList ++ s.replies }

/-- The row is that of the request's account, kind and value. -/
def WatchRow.isOf (r : Request) (row : WatchRow) : Bool :=
  row.userId = r.userId ∧ row.kind = r.kind ∧ row.value = r.value

/-- The next statement of `create_watch`. -/
def Server.advance (s : Server W) (w : W) : Place → Option (Server W)
  | .locking r =>
    if r.userId ∈ s.users then
      if free s.locks r.userId w then
        some { s.goto w (.looking { r with locked := true }) with locks := acquire s.locks r.userId w }
      else none
    else some (s.goto w (.looking { r with locked := false }))
  | .looking r =>
    match s.rows.filter (·.isOf r) with
    | [] => some (s.goto w (.counting r))
    | [existing] => some (s.close w (some (.existing existing)))
    | _ => some (s.close w (some .raised))
  | .counting r =>
    if maxWatches ≤ s.rows.countP fun row => row.userId = r.userId then some (s.close w (some .tooManyWatches))
    else some (s.goto w (.inserting r))
  | _ => none

/-- The row of a new watch. -/
def newRow (now : Int) (r : Request) (watchId : Nat) : WatchRow := ⟨watchId, r.userId, r.kind, r.value, now⟩

/-- The primary key, `uq_watches_user_kind_value` and the account let the row in. -/
def Server.accepts (s : Server W) (r : Request) (watchId : Nat) : Bool :=
  r.userId ∈ s.users ∧ s.rows.all fun row => row.watchId ≠ watchId ∧ row.isOf r = false

def step (config : Config) (s : Server W) : Label W → Option (Server W)
  | .tick elapsed => some { s with now := s.now + elapsed }
  | .create w userId kind value =>
    match s.places w with
    | some _ => none
    | none =>
      if config.accessModelEnabled then
        match config.newWatch kind value with
        | none => some (s.close w (some .validationError))
        | some value => some (s.goto w (.locking ⟨userId, kind, value, false⟩))
      else some (s.close w (some .notFound))
  | .advance w => (s.places w).bind (s.advance w)
  | .insert w watchId replied =>
    match s.places w with
    | some (.inserting r) =>
      if watchId ∈ s.drawn then none
      else if s.accepts r watchId then
        let row := newRow s.now r watchId
        some { s.close w (if replied then some (.created row) else none) with
          rows := row :: s.rows
          drawn := watchId :: s.drawn }
      else some { s.close w (some .raised) with drawn := watchId :: s.drawn }
    | _ => none
  | .delete w userId watchId =>
    match s.places w with
    | some _ => none
    | none =>
      match (if config.accessModelEnabled then watchId else none) with
      | none => some (s.close w (some .notFound))
      | some watchId =>
        if s.rows.any fun row => row.watchId = watchId ∧ row.userId = userId then some (s.goto w (.deleting watchId))
        else some (s.close w (some .notFound))
  | .unsubscribe w userId =>
    match s.places w with
    | some _ => none
    | none =>
      if config.accessModelEnabled then some (s.goto w (.clearing userId)) else some (s.close w (some .notFound))
  | .commit w =>
    match s.places w with
    | some (.deleting watchId) =>
      some { s.close w (some .deleted) with rows := s.rows.filter fun row => row.watchId ≠ watchId }
    | some (.clearing userId) =>
      some { s.close w (some .unsubscribed) with rows := s.rows.filter fun row => row.userId ≠ userId }
    | _ => none
  | .fail w =>
    match s.places w with
    | some _ => some (s.close w none)
    | none => none
  | .deleteAccount userId =>
    -- the deletion takes the row's lock itself
    if s.locks.all fun lock => lock.1 ≠ userId then
      some { s with
        users := s.users.filter (· ≠ userId)
        rows := s.rows.filter fun row => row.userId ≠ userId }
    else none

/-- No watch yet. -/
def Server.new (now : Int) (users : List Str) : Server W := ⟨now, users, [], [], idle, [], []⟩

/-! ## The values that are stored -/

/-- A value as it is stored: a watched page, or the folded text of a term. -/
def Config.Stored (config : Config) : Kind → Str → Prop
  | .page, value => value ∈ config.watchedPages.map WatchedPage.url
  | .term, value => ∃ text, strip text = text ∧ 2 ≤ text.length ∧ text.length ≤ 64 ∧
    (∀ c ∈ text, config.category c ∉ ["Cc", "Cf", "Zl", "Zp"]) ∧ value = config.casefold text

theorem stored_of_newWatch {config : Config} {kind : Kind} {value stored : Str}
    (h : config.newWatch kind value = some stored) : config.Stored kind stored := by
  unfold Config.newWatch at h
  split at h
  · cases h
  · cases kind with
    | page =>
      simp only at h
      split at h
      · rename_i hany
        cases h
        obtain ⟨page, hpage, heq⟩ := List.any_eq_true.mp hany
        exact List.mem_map.mpr ⟨page, hpage, of_decide_eq_true heq⟩
      · obtain ⟨page, hfind, rfl⟩ := Option.map_eq_some_iff.mp h
        exact List.mem_map_of_mem (List.mem_reverse.mp (List.mem_of_find?_eq_some hfind))
    | term =>
      simp only at h
      split at h
      · cases h
      · rename_i hlength
        split at h
        · cases h
        · rename_i hplain
          cases h
          refine ⟨strip value, strip_strip value, by omega, by omega, fun c hc hcategory => hplain ?_, rfl⟩
          exact List.any_eq_true.mpr ⟨c, hc, List.contains_iff_mem.mpr hcategory⟩

/-! ## Room for a watch -/

/-- The account whose row a request has locked. -/
def Place.lock : Place → Option Str
  | .looking r | .counting r | .inserting r => if r.locked then some r.userId else none
  | _ => none

/-- There is no such watch, and then room for it. -/
def Place.Knows : Place → List WatchRow → Prop
  | .counting r, rows => ∀ row ∈ rows, row.isOf r = false
  | .inserting r, rows => (∀ row ∈ rows, row.isOf r = false) ∧ rows.length < maxWatches
  | _, _ => True

/-- What the unique constraint is on. -/
def WatchRow.key (row : WatchRow) : Str × Kind × Str := (row.userId, row.kind, row.value)

def rules : Rules Str Place WatchRow where
  owner := WatchRow.userId
  lock := Place.lock
  knows := Place.Knows
  whole rows := rows.length ≤ maxWatches

/-- What a request has been read as is a value to store, and without the lock there
was no account. -/
def Place.Sound (config : Config) (users : List Str) : Place → Prop
  | .locking r => config.Stored r.kind r.value
  | .looking r | .counting r | .inserting r => config.Stored r.kind r.value ∧ (r.locked = false → r.userId ∉ users)
  | _ => True

structure Inv (config : Config) (s : Server W) : Prop where
  guarded : Guarded rules s.rows s.locks s.places
  sound : ∀ w p, s.places w = some p → p.Sound config s.users
  stored : ∀ row ∈ s.rows, config.Stored row.kind row.value
  distinct : (s.rows.map WatchRow.watchId).Nodup
  single : (s.rows.map WatchRow.key).Nodup
  drawn : ∀ row ∈ s.rows, row.watchId ∈ s.drawn

theorem isOf_iff {r : Request} {row : WatchRow} : row.isOf r = true ↔ row.key = (r.userId, r.kind, r.value) := by
  simp [WatchRow.isOf, WatchRow.key]

/-- No two watches of an account are of the same kind and value: a watch is found, or there is none. -/
theorem filter_isOf_cases {rows : List WatchRow} {r : Request} (h : (rows.map WatchRow.key).Nodup) :
    rows.filter (·.isOf r) = [] ∨ ∃ row ∈ rows, rows.filter (·.isOf r) = [row] := by
  have hof : rows.filter (·.isOf r) = rowsOf WatchRow.key rows (r.userId, r.kind, r.value) :=
    List.filter_congr fun row _ => by rw [Bool.eq_iff_iff, isOf_iff, decide_eq_true_eq]
  rw [hof]
  exact (rowsOf_cases h _).imp_right fun ⟨row, hrow, _, heq⟩ => ⟨row, hrow, heq⟩

omit [DecidableEq W] in
theorem Inv.new (config : Config) (now : Int) (users : List Str) : Inv config (Server.new now users : Server W) where
  guarded := Guarded.idle fun _ => Nat.zero_le _
  sound _ _ h := by cases h
  stored _ h := by cases h
  distinct := List.nodup_nil
  single := List.nodup_nil
  drawn _ h := by cases h

variable {config : Config} {s s' : Server W} {w : W} {l : Label W}

/-- A request comes to a place that says nothing of rows, or whose lock it does not hold. -/
theorem Inv.goto (hi : Inv config s) {p : Place} (hlock : p.lock = none) (hp : p.Sound config s.users) :
    Inv config (s.goto w p) :=
  { hi with
    guarded := hi.guarded.goto (fun _ h => by cases hlock.symm.trans h) fun _ h => by cases hlock.symm.trans h
    sound := forall_put hi.sound (forall_moved hp) }

theorem Inv.close (hi : Inv config s) (w : W) (reply : Option Reply) : Inv config (s.close w reply) :=
  { hi with
    guarded := hi.guarded.close w
    sound := forall_put hi.sound forall_gone }

/-- A request goes on under the lock that it holds, if it holds one. -/
theorem Inv.move (hi : Inv config s) {p p' : Place} (hw : s.places w = some p) (hlock : p'.lock = p.lock)
    (hknows : ∀ k, p.lock = some k → p.Knows (rowsOf WatchRow.userId s.rows k) →
      p'.Knows (rowsOf WatchRow.userId s.rows k)) (hp : p'.Sound config s.users) : Inv config (s.goto w p') :=
  { hi with
    guarded := hi.guarded.move hw hlock hknows
    sound := forall_put hi.sound (forall_moved hp) }

theorem lock_of_some {r : Request} {userId : Str} (h : (if r.locked then some r.userId else none) = some userId) :
    r.userId = userId := by
  split at h
  · exact Option.some.inj h
  · cases h

theorem Inv.advance (hi : Inv config s) {p : Place} (hw : s.places w = some p) (h : s.advance w p = some s') :
    Inv config s' := by
  have hsound := hi.sound w p hw
  cases p with
  | locking r =>
    simp only [Server.advance] at h
    split at h
    · split at h
      · rename_i hfree
        cases h
        exact { hi with
          guarded := hi.guarded.acquire hfree rfl trivial
          sound := forall_put hi.sound (forall_moved ⟨hsound, fun hunlocked => by cases hunlocked⟩) }
      · cases h
    · rename_i hgone
      cases h
      exact hi.goto rfl ⟨hsound, fun _ => hgone⟩
  | looking r =>
    simp only [Server.advance] at h
    split at h
    · rename_i hnone
      cases h
      refine hi.move hw rfl (fun k hk _ row hrow => ?_) hsound
      obtain rfl := lock_of_some hk
      obtain ⟨hrow, -⟩ := mem_rowsOf.mp hrow
      exact Bool.eq_false_iff.mpr (List.filter_eq_nil_iff.mp hnone row hrow)
    · cases h
      exact hi.close w _
    · cases h
      exact hi.close w _
  | counting r =>
    simp only [Server.advance] at h
    split at h
    · cases h
      exact hi.close w _
    · rename_i hroom
      cases h
      refine hi.move hw rfl (fun k hk hnone => ⟨hnone, ?_⟩) hsound
      obtain rfl := lock_of_some hk
      rw [not_le, List.countP_eq_length_filter] at hroom
      exact hroom
  | inserting r => cases h
  | deleting watchId => cases h
  | clearing userId => cases h

omit [DecidableEq W] in
/-- A request that inserts has found no such watch of its account, so there is none. -/
theorem Inv.unwatched (hi : Inv config s) {r : Request} (hw : s.places w = some (.inserting r))
    (huser : r.userId ∈ s.users) : r.locked = true ∧ (∀ row ∈ s.rows, row.isOf r = false) ∧
      (rowsOf WatchRow.userId s.rows r.userId).length < maxWatches := by
  have hlocked : r.locked = true := by
    by_contra hunlocked
    exact (hi.sound w _ hw).2 (Bool.eq_false_iff.mpr hunlocked) huser
  obtain ⟨hnone, hroom⟩ := hi.guarded.knows w _ r.userId hw (if_pos hlocked)
  refine ⟨hlocked, fun row hrow => ?_, hroom⟩
  by_contra hsame
  rw [Bool.not_eq_false] at hsame
  have hkey := isOf_iff.mp hsame
  rw [WatchRow.key, Prod.mk.injEq] at hkey
  rw [hnone row (mem_rowsOf.mpr ⟨hrow, hkey.1⟩)] at hsame
  cases hsame

omit [DecidableEq W] in
theorem Inv.accepts (hi : Inv config s) {r : Request} (hw : s.places w = some (.inserting r)) (huser : r.userId ∈ s.users)
    {watchId : Nat} (hnew : watchId ∉ s.drawn) : s.accepts r watchId = true := by
  refine decide_eq_true ⟨huser, List.all_eq_true.mpr fun row hrow => decide_eq_true ⟨?_, ?_⟩⟩
  · rintro rfl
    exact hnew (hi.drawn row hrow)
  · exact (hi.unwatched hw huser).2.1 row hrow

theorem Inv.insert (hi : Inv config s) {r : Request} (hw : s.places w = some (.inserting r)) {watchId : Nat}
    (haccepts : s.accepts r watchId = true) (reply : Option Reply) :
    Inv config { s.close w reply with
      rows := newRow s.now r watchId :: s.rows
      drawn := watchId :: s.drawn } := by
  obtain ⟨huser, hall⟩ := of_decide_eq_true haccepts
  obtain ⟨hlocked, hnone, hroom⟩ := hi.unwatched hw huser
  rw [List.all_eq_true] at hall
  exact {
    guarded := by
      refine hi.guarded.finish (hi.guarded.locked w _ r.userId hw (if_pos hlocked))
        (fun k hk => rowsOf_cons_of_ne (show (newRow s.now r watchId).userId ≠ k from Ne.symm hk) s.rows) ?_
      show (rowsOf WatchRow.userId (newRow s.now r watchId :: s.rows) (newRow s.now r watchId).userId).length ≤ maxWatches
      rw [rowsOf_cons_self]
      exact hroom
    sound := forall_put hi.sound forall_gone
    stored := List.forall_mem_cons.mpr ⟨(hi.sound w _ hw).1, hi.stored⟩
    distinct := by
      refine List.nodup_cons.mpr ⟨fun hmem => ?_, hi.distinct⟩
      obtain ⟨row, hrow, heq⟩ := List.mem_map.mp hmem
      exact (of_decide_eq_true (hall row hrow)).1 heq
    single := by
      refine List.nodup_cons.mpr ⟨fun hmem => ?_, hi.single⟩
      obtain ⟨row, hrow, heq⟩ := List.mem_map.mp hmem
      exact Bool.eq_false_iff.mp (hnone row hrow) (isOf_iff.mpr heq)
    drawn := List.forall_mem_cons.mpr
      ⟨List.mem_cons_self, fun row hrow => List.mem_cons_of_mem _ (hi.drawn row hrow)⟩ }

omit [DecidableEq W] in
/-- Watches are deleted. -/
theorem Inv.keep (hi : Inv config s) (keep : WatchRow → Bool) : Inv config { s with rows := s.rows.filter keep } :=
  { hi with
    guarded := by
      refine hi.guarded.change (fun p k hp => ?_) fun k hk => ?_
      · have hsub : rowsOf rules.owner (s.rows.filter keep) k ⊆ rowsOf rules.owner s.rows k :=
          rowsOf_filter rules.owner keep s.rows k ▸ List.filter_subset_self _
        cases p with
        | counting r => exact fun row hrow => hp row (hsub hrow)
        | inserting r =>
          refine ⟨fun row hrow => hp.1 row (hsub hrow), lt_of_le_of_lt ?_ hp.2⟩
          rw [rowsOf_filter]
          exact List.length_filter_le _ _
        | locking r => trivial
        | looking r => trivial
        | deleting watchId => trivial
        | clearing userId => trivial
      · rw [rowsOf_filter]
        exact (List.length_filter_le _ _).trans hk
    stored := fun row hrow => hi.stored row (List.mem_of_mem_filter hrow)
    distinct := hi.distinct.sublist (List.filter_sublist.map _)
    single := hi.single.sublist (List.filter_sublist.map _)
    drawn := fun row hrow => hi.drawn row (List.mem_of_mem_filter hrow) }

omit [DecidableEq W] in
theorem Inv.deleteAccount (hi : Inv config s) (userId : Str) :
    Inv config { s with
      users := s.users.filter (· ≠ userId)
      rows := s.rows.filter fun row => row.userId ≠ userId } := by
  refine { hi.keep fun row => row.userId ≠ userId with sound := fun w p hp => ?_ }
  have hsound := hi.sound w p hp
  cases p with
  | looking r => exact ⟨hsound.1, fun hunlocked hmem => hsound.2 hunlocked (List.mem_of_mem_filter hmem)⟩
  | counting r => exact ⟨hsound.1, fun hunlocked hmem => hsound.2 hunlocked (List.mem_of_mem_filter hmem)⟩
  | inserting r => exact ⟨hsound.1, fun hunlocked hmem => hsound.2 hunlocked (List.mem_of_mem_filter hmem)⟩
  | locking r => exact hsound
  | deleting watchId => trivial
  | clearing userId => trivial

theorem Inv.step (hi : Inv config s) (h : step config s l = some s') : Inv config s' := by
  cases l with
  | tick elapsed =>
    cases h
    exact { hi with }
  | create w userId kind value =>
    simp only [Watches.step] at h
    split at h
    · cases h
    · split at h
      · split at h
        · cases h
          exact hi.close w _
        · rename_i stored hstored
          cases h
          exact hi.goto rfl (stored_of_newWatch hstored)
      · cases h
        exact hi.close w _
  | advance w =>
    obtain ⟨p, hw, hadvance⟩ := Option.bind_eq_some_iff.mp h
    exact hi.advance hw hadvance
  | insert w watchId replied =>
    simp only [Watches.step] at h
    split at h
    · rename_i r hw
      split at h
      · cases h
      · split at h
        · rename_i haccepts
          cases h
          exact hi.insert hw haccepts _
        · cases h
          exact { hi.close w (some .raised) with
            drawn := fun row hrow => List.mem_cons_of_mem _ (hi.drawn row hrow) }
    · cases h
  | delete w userId watchId =>
    simp only [Watches.step] at h
    split at h
    · cases h
    · split at h
      · cases h
        exact hi.close w _
      · split at h
        · cases h
          exact hi.goto rfl trivial
        · cases h
          exact hi.close w _
  | unsubscribe w userId =>
    simp only [Watches.step] at h
    split at h
    · cases h
    · split at h
      · cases h
        exact hi.goto rfl trivial
      · cases h
        exact hi.close w _
  | commit w =>
    simp only [Watches.step] at h
    split at h
    · cases h
      exact (hi.close w _).keep _
    · cases h
      exact (hi.close w _).keep _
    · cases h
  | fail w =>
    simp only [Watches.step] at h
    split at h
    · cases h
      exact hi.close w none
    · cases h
  | deleteAccount userId =>
    simp only [Watches.step] at h
    split at h
    · cases h
      exact hi.deleteAccount userId
    · cases h

/-! ## Watches of accounts -/

/-- The select of `create_watch` finds one row at most. -/
theorem Inv.found (hi : Inv config s) {r : Request} (h : s.advance w (.looking r) = some s') :
    s' = s.goto w (.counting r) ∨
      ∃ row ∈ s.rows, row.isOf r = true ∧ s' = s.close w (some (.existing row)) := by
  simp only [Server.advance] at h
  rcases filter_isOf_cases (r := r) hi.single with hnone | ⟨row, hrow, hone⟩
  · rw [hnone] at h
    cases h
    exact .inl rfl
  · rw [hone] at h
    cases h
    have hmem : row ∈ s.rows.filter (·.isOf r) := hone ▸ List.mem_singleton_self row
    exact .inr ⟨row, hrow, (List.mem_filter.mp hmem).2, rfl⟩

/-- However requests to watch, deletions, unsubscriptions and deletions of accounts
interleave, an account has at most 25 watches, no two of them the same page or the same
folded term, each of them a watched page or the folded text of a term. A request that
looks for its watch finds one row at most, and one that has come to its insert, while its
account is there, creates its watch: no constraint of the table refuses it. -/
theorem watches_kept {now : Int} {users : List Str} {ls : List (Label W)}
    (h : exec (step config) (Server.new now users) ls = some s) :
    (∀ userId, (s.rows.countP fun row => row.userId = userId) ≤ maxWatches) ∧
    (s.rows.map WatchRow.key).Nodup ∧ (∀ row ∈ s.rows, config.Stored row.kind row.value) ∧
    (∀ w r s', s.places w = some (.looking r) → step config s (.advance w) = some s' →
      s' = s.goto w (.counting r) ∨ ∃ row ∈ s.rows, row.isOf r = true ∧ s' = s.close w (some (.existing row))) ∧
    ∀ w r watchId, s.places w = some (.inserting r) → r.userId ∈ s.users → watchId ∉ s.drawn →
      step config s (.insert w watchId true) =
        some { s.close w (some (.created (newRow s.now r watchId))) with
          rows := newRow s.now r watchId :: s.rows
          drawn := watchId :: s.drawn } := by
  have hall : Along (step config) (fun _ _ => True) (Server.new now users) ls := along_of_mem ls _ fun _ _ _ => trivial
  have hi : Inv config s := exec_invariant (fun _ _ _ hi _ hstep => hi.step hstep) (Inv.new config now users) hall h
  refine ⟨fun userId => ?_, hi.single, hi.stored, ?_, ?_⟩
  · rw [List.countP_eq_length_filter]
    exact hi.guarded.whole userId
  · intro w r s' hw hstep
    rw [step, hw, Option.bind_some] at hstep
    exact hi.found hstep
  · intro w r watchId hw huser hnew
    simp only [step, hw, hnew, hi.accepts hw huser hnew, if_true, if_false]

def exampleUser : Str := "usr_1".toList

def exampleConfig : Config where
  accessModelEnabled := true
  watchedPages := [⟨"codex".toList, "Rules".toList, "https://learn.chatgpt.com/docs/rules.md".toList⟩]
  casefold := lower
  category _ := "Ll"

/-- A term and a page are watched; the term again, in another case, while the second waits. -/
def watched : List (Label Nat) :=
  [.create 0 exampleUser .term "--Resume".toList, .create 1 exampleUser .page "https://learn.chatgpt.com/docs/rules/#top".toList,
    .advance 0, .advance 0, .advance 0, .insert 0 1 true, .advance 1, .advance 1, .advance 1, .insert 1 2 true,
    .create 0 exampleUser .term " --resume".toList, .advance 0, .advance 0]

theorem watches_kept_watched :
    ∃ s, exec (step exampleConfig) (Server.new 0 [exampleUser]) watched = some s ∧
      s.rows.map WatchRow.key = [(exampleUser, .page, "https://learn.chatgpt.com/docs/rules.md".toList),
        (exampleUser, .term, "--resume".toList)] ∧
      ∀ userId, (s.rows.countP fun row => row.userId = userId) ≤ maxWatches := by
  have hrun : ∃ s, exec (step exampleConfig) (Server.new 0 [exampleUser]) watched = some s ∧
      s.rows.map WatchRow.key = [(exampleUser, .page, "https://learn.chatgpt.com/docs/rules.md".toList),
        (exampleUser, .term, "--resume".toList)] := by
    decide +kernel
  obtain ⟨s, hs, hrows⟩ := hrun
  exact ⟨s, hs, hrows, (watches_kept hs).1⟩

end CiteVyn.Api.Watches
