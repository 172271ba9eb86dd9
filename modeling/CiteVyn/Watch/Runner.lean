import CiteVyn.Watch.Diff
import Mathlib.Logic.Function.Basic

/-! # One watcher run

`app/watch/runner.py`: each page is fetched, compared with its snapshot and
committed on its own. The changes of a page form a chain from its baseline to the
snapshot that is stored. -/
namespace CiteVyn.Watch
open CiteVyn.Text

/-- `WatchedPage`. -/
structure WatchedPage where
  productArea : Str
  title : Str
  url : Str
  deriving DecidableEq, Repr

/-- `DocSnapshot`. -/
structure DocSnapshot where
  url : Str
  productArea : Str
  title : Str
  contentSha256 : Option Str
  content : Option Str
  fetchedAt : Option Int
  checkedAt : Int
  lastError : Option Str
  deriving DecidableEq, Repr

/-- `DocChange`. -/
structure DocChange where
  changeId : Nat
  url : Str
  productArea : Str
  title : Str
  detectedAt : Int
  oldSha256 : Str
  newSha256 : Str
  summary : Summary
  lines : ChangedLines
  deriving DecidableEq, Repr

/-- What comes of `fetch_page` under the deadline. -/
inductive Fetched where
  | text (text : Str)
  | timeout
  | fetchError (message : Str)
  /-- anything else is raised, here or in the rest of the page, and the run ends -/
  | raised
  deriving DecidableEq, Repr

/-- A page that a run comes to, what comes of it, and the id that a change would draw. -/
structure Visit where
  page : WatchedPage
  fetched : Fetched
  changeId : Nat
  deriving DecidableEq, Repr

/-- `RunStats`. -/
structure RunStats where
  checked : Nat := 0
  baseline : Nat := 0
  unchanged : Nat := 0
  changed : Nat := 0
  failed : Nat := 0
  deriving DecidableEq, Repr

structure Store where
  snapshots : Str → Option DocSnapshot
  /-- `doc_changes`, in the order in which they are committed -/
  changes : List DocChange
  /-- the hash of each page's baseline, by its URL; nothing reads it -/
  baselines : List (Str × Str)

/-- The message of a page that misses the deadline. -/
def deadlineError : Str := "no complete answer within 60s".toList

/-- The snapshot of a page as a run has it before the fetch. -/
def Store.opened (store : Store) (page : WatchedPage) (now : Int) : DocSnapshot :=
  let snap := (store.snapshots page.url).getD
    ⟨page.url, page.productArea, page.title, none, none, none, now, none⟩
  { snap with checkedAt := now, title := page.title, productArea := page.productArea }

/-- The commit of a page. -/
def Store.commit (store : Store) (page : WatchedPage) (snap : DocSnapshot) (change : Option DocChange)
    (baseline : Option Str) : Store where
  snapshots := Function.update store.snapshots page.url (some snap)
  changes := store.changes ++ change.toList
  baselines := store.baselines ++ (baseline.map fun sha => (page.url, sha)).toList

variable (sha : Str → Str) (now : Int)

/-- The change of a page. -/
def changeOf (page : WatchedPage) (changeId : Nat) (oldSha old new : Str) : DocChange where
  changeId := changeId
  url := page.url
  productArea := page.productArea
  title := page.title
  detectedAt := now
  oldSha256 := oldSha
  newSha256 := sha new
  summary := sectionChanges old new
  lines := changedLines old new

/-- A page whose text has been fetched and brought to its normal form. -/
def Store.compared (store : Store) (stats : RunStats) (page : WatchedPage) (changeId : Nat) (text : Str) :
    Store × RunStats :=
  let snap := store.opened page now
  let next := { snap with
    lastError := none, content := some text, contentSha256 := some (sha text), fetchedAt := some now }
  match snap.contentSha256, snap.content with
  | some oldSha, some old =>
    if oldSha = sha text then
      (store.commit page next none none, { stats with unchanged := stats.unchanged + 1 })
    else
      (store.commit page next (some (changeOf sha now page changeId oldSha old text)) none,
        { stats with changed := stats.changed + 1 })
  | _, _ => (store.commit page next none (some (sha text)), { stats with baseline := stats.baseline + 1 })

/-- One page of `run_watch`; none ends the run. -/
def Store.visit (store : Store) (stats : RunStats) (v : Visit) : Option (Store × RunStats) :=
  let stats := { stats with checked := stats.checked + 1 }
  let failed (error : Str) :=
    (store.commit v.page { store.opened v.page now with lastError := some error } none none,
      { stats with failed := stats.failed + 1 })
  match v.fetched with
  | .text text => some (store.compared sha now stats v.page v.changeId (normalize text))
  | .timeout => some (failed deadlineError)
  | .fetchError message => some (failed (message.take 255))
  | .raised => none

/-- `run_watch`: what it stores, and what it returns unless it raises. -/
def runWatch (store : Store) (stats : RunStats) : List Visit → Store × Option RunStats
  | [] => (store, some stats)
  | v :: vs =>
    match store.visit sha now stats v with
    | none => (store, none)
    | some (store, stats) => runWatch store stats vs

/-- Runs one after the other, each at its own time. -/
def runs (store : Store) : List (Int × List Visit) → Store
  | [] => store
  | (now, visits) :: rest => runs (runWatch sha now store {} visits).1 rest

/-- Nothing has been watched yet. -/
def Store.empty : Store := ⟨fun _ => none, [], []⟩

/-! ## The chain of a page -/

/-- The text of a page and its hash, once it has been fetched. -/
def DocSnapshot.stored (snap : DocSnapshot) : Option (Str × Str) :=
  match snap.contentSha256, snap.content with
  | some contentSha256, some content => some (content, contentSha256)
  | _, _ => none

def Store.stored (store : Store) (url : Str) : Option (Str × Str) :=
  (store.snapshots url).bind DocSnapshot.stored

def Store.changesOf (store : Store) (url : Str) : List DocChange :=
  store.changes.filter fun change => change.url = url

def Store.baselinesOf (store : Store) (url : Str) : List Str :=
  (store.baselines.filter fun baseline => baseline.1 = url).map Prod.snd

/-- Changes that lead from one hash to another, each to a different one. -/
def Chain (base : Str) : List DocChange → Str → Prop
  | [], last => last = base
  | change :: changes, last =>
    change.oldSha256 = base ∧ change.newSha256 ≠ change.oldSha256 ∧ Chain change.newSha256 changes last

theorem Chain.append {base mid : Str} {changes : List DocChange} {change : DocChange}
    (h : Chain base changes mid) (hold : change.oldSha256 = mid) (hnew : change.newSha256 ≠ change.oldSha256) :
    Chain base (changes ++ [change]) change.newSha256 := by
  induction changes generalizing base with
  | nil =>
    obtain rfl : mid = base := h
    exact ⟨hold, hnew, rfl⟩
  | cons first changes ih =>
    obtain ⟨hbase, hdiffers, hrest⟩ := h
    exact ⟨hbase, hdiffers, ih hrest⟩

/-- A page that has never been fetched has no change; the changes of any other lead
from its baseline to the hash of what is stored. -/
def Store.Linked (store : Store) (url : Str) : Prop :=
  (store.stored url = none ∧ store.changesOf url = [] ∧ store.baselinesOf url = []) ∨
    ∃ content base, store.stored url = some (content, sha content) ∧ store.baselinesOf url = [base] ∧
      Chain base (store.changesOf url) (sha content)

section

variable {sha now} {store : Store} {page : WatchedPage} {snap : DocSnapshot} {change : Option DocChange}
  {baseline : Option Str}

theorem opened_stored (store : Store) (page : WatchedPage) (now : Int) :
    (store.opened page now).stored = store.stored page.url := by
  rw [Store.opened, Store.stored]
  cases store.snapshots page.url <;> rfl

theorem stored_commit : (store.commit page snap change baseline).stored page.url = snap.stored := by
  simp [Store.stored, Store.commit]

theorem changesOf_commit (hurl : ∀ c, change = some c → c.url = page.url) :
    (store.commit page snap change baseline).changesOf page.url =
      store.changesOf page.url ++ change.toList := by
  rw [Store.changesOf, Store.commit, List.filter_append]
  cases change with
  | none => rfl
  | some c =>
    rw [Option.toList_some, List.filter_cons_of_pos (by simpa using hurl c rfl)]
    rfl

theorem baselinesOf_commit : (store.commit page snap change baseline).baselinesOf page.url =
    store.baselinesOf page.url ++ baseline.toList := by
  rw [Store.baselinesOf, Store.commit, List.filter_append, List.map_append]
  cases baseline with
  | none => rfl
  | some sha => simp [Store.baselinesOf]

/-- The commit of a page leaves every other page alone. -/
theorem commit_other (snap : DocSnapshot) (baseline : Option Str) {url : Str} (hne : url ≠ page.url)
    (hurl : ∀ c, change = some c → c.url = page.url) :
    (store.commit page snap change baseline).stored url = store.stored url ∧
      (store.commit page snap change baseline).changesOf url = store.changesOf url ∧
      (store.commit page snap change baseline).baselinesOf url = store.baselinesOf url := by
  refine ⟨?_, ?_, ?_⟩
  · simp only [Store.stored, Store.commit, Function.update_of_ne hne]
  · rw [Store.changesOf, Store.commit, List.filter_append]
    cases change with
    | none => exact List.append_nil _
    | some c =>
      rw [Option.toList_some, List.filter_cons_of_neg (by simpa [hurl c rfl] using hne.symm)]
      exact List.append_nil _
  · rw [Store.baselinesOf, Store.commit, List.filter_append]
    cases baseline with
    | none => simp [Store.baselinesOf]
    | some sha => simp [Store.baselinesOf, hne.symm]

/-- What a commit that keeps the page linked does to all pages. -/
theorem linked_commit (hlinked : ∀ url, store.Linked sha url) (hurl : ∀ c, change = some c → c.url = page.url)
    (hpage : (store.commit page snap change baseline).Linked sha page.url) (url : Str) :
    (store.commit page snap change baseline).Linked sha url := by
  by_cases hne : url = page.url
  · subst hne
    exact hpage
  · obtain ⟨hstored, hchanges, hbaselines⟩ := commit_other snap baseline hne hurl
    rw [Store.Linked, hstored, hchanges, hbaselines]
    exact hlinked url

/-- The commit of a page that has been fetched before: its text, with a change or the
same hash. -/
theorem linked_next {old text : Str} (hlinked : store.Linked sha page.url)
    (hstored : store.stored page.url = some (old, sha old)) (hsnap : snap.stored = some (text, sha text))
    (hchange : (change = none ∧ sha old = sha text) ∨
      ∃ c, change = some c ∧ c.url = page.url ∧ c.oldSha256 = sha old ∧ c.newSha256 = sha text ∧ sha old ≠ sha text) :
    (store.commit page snap change none).Linked sha page.url := by
  obtain ⟨hnone, -⟩ | ⟨content, base, hsome, hbase, hchain⟩ := hlinked
  · rw [hstored] at hnone
    cases hnone
  · obtain ⟨rfl, -⟩ : old = content ∧ sha old = sha content := by simpa [hstored] using hsome
    refine .inr ⟨text, base, by rw [stored_commit, hsnap], by rw [baselinesOf_commit, hbase]; rfl, ?_⟩
    obtain ⟨rfl, hsame⟩ | ⟨c, rfl, hurl, hold, hnew, hdiffers⟩ := hchange
    · rw [changesOf_commit (by simp), ← hsame]
      simpa using hchain
    · rw [changesOf_commit (by simpa using hurl), ← hnew]
      exact hchain.append hold (by rw [hold, hnew]; exact hdiffers.symm)

theorem linked_compared (stats : RunStats) (changeId : Nat) (text : Str)
    (hlinked : ∀ url, store.Linked sha url) (url : Str) :
    (store.compared sha now stats page changeId text).1.Linked sha url := by
  have hopened := opened_stored store page now
  unfold Store.compared
  dsimp only
  split
  · rename_i oldSha old hsha hcontent
    have hthere : store.stored page.url = some (old, oldSha) := by
      rw [← hopened, DocSnapshot.stored, hsha, hcontent]
    obtain rfl : oldSha = sha old := by
      obtain ⟨hnone, -⟩ | ⟨content, base, hsome, -⟩ := hlinked page.url
      · rw [hthere] at hnone
        cases hnone
      · rw [hthere] at hsome
        cases hsome
        rfl
    split
    · rename_i hsame
      exact linked_commit hlinked (by simp) (linked_next (hlinked page.url) hthere rfl (.inl ⟨rfl, hsame⟩)) url
    · rename_i hdiffers
      exact linked_commit hlinked (by simp [changeOf]) (linked_next (hlinked page.url) hthere rfl
        (.inr ⟨_, rfl, rfl, rfl, rfl, hdiffers⟩)) url
  · rename_i hnever
    have hthere : store.stored page.url = none := by
      rw [← hopened, DocSnapshot.stored]
      split
      · rename_i oldSha old hsha hcontent
        exact (hnever oldSha old hsha hcontent).elim
      · rfl
    refine linked_commit hlinked (by simp) ?_ url
    obtain ⟨-, hchanges, hbaselines⟩ | ⟨content, base, hsome, -⟩ := hlinked page.url
    · refine .inr ⟨text, sha text, stored_commit, by rw [baselinesOf_commit, hbaselines]; rfl, ?_⟩
      rw [changesOf_commit (by simp), hchanges]
      exact rfl
    · rw [hthere] at hsome
      cases hsome

/-- What a page that does not end the run commits. -/
theorem visit_cases {stats stats' : RunStats} {store' : Store} {v : Visit}
    (h : store.visit sha now stats v = some (store', stats')) :
    (∃ text stats, v.fetched = .text text ∧
        store' = (store.compared sha now stats v.page v.changeId (normalize text)).1) ∨
      (∀ text, v.fetched ≠ .text text) ∧
        ∃ error, store' = store.commit v.page { store.opened v.page now with lastError := error } none none := by
  unfold Store.visit at h
  cases hfetched : v.fetched with
  | text text =>
    rw [hfetched] at h
    exact .inl ⟨text, _, rfl, (congrArg Prod.fst (Option.some.inj h)).symm⟩
  | timeout =>
    rw [hfetched] at h
    exact .inr ⟨by simp, _, (congrArg Prod.fst (Option.some.inj h)).symm⟩
  | fetchError message =>
    rw [hfetched] at h
    exact .inr ⟨by simp, _, (congrArg Prod.fst (Option.some.inj h)).symm⟩
  | raised =>
    rw [hfetched] at h
    cases h

/-- The commit of a page whose fetch has failed. -/
theorem failed_commit (store : Store) (page : WatchedPage) (now : Int) (error : Option Str) (url : Str) :
    (store.commit page { store.opened page now with lastError := error } none none).stored url =
        store.stored url ∧
      (store.commit page { store.opened page now with lastError := error } none none).changesOf url =
        store.changesOf url ∧
      (store.commit page { store.opened page now with lastError := error } none none).baselinesOf url =
        store.baselinesOf url := by
  by_cases hne : url = page.url
  · subst hne
    refine ⟨?_, ?_, ?_⟩
    · rw [stored_commit, ← opened_stored store page now]
      rfl
    · rw [changesOf_commit (by simp)]
      exact List.append_nil _
    · rw [baselinesOf_commit]
      exact List.append_nil _
  · exact commit_other _ _ hne (by simp)

/-- A fetch that fails leaves the text, the hash and the changes of every page alone. -/
theorem visit_failed {stats stats' : RunStats} {store' : Store} {v : Visit}
    (hfailed : ∀ text, v.fetched ≠ .text text) (h : store.visit sha now stats v = some (store', stats')) :
    store'.changes = store.changes ∧ ∀ url, store'.stored url = store.stored url := by
  obtain ⟨text, _, htext, -⟩ | ⟨-, error, rfl⟩ := visit_cases h
  · exact (hfailed text htext).elim
  · exact ⟨List.append_nil _, fun url => (failed_commit store v.page now error url).1⟩

/-- A page commits one change at most, stamped with the start of the run. -/
theorem visit_changes {stats stats' : RunStats} {store' : Store} {v : Visit}
    (h : store.visit sha now stats v = some (store', stats')) :
    store'.changes = store.changes ∨ ∃ c, store'.changes = store.changes ++ [c] ∧ c.detectedAt = now := by
  obtain ⟨text, stats, -, rfl⟩ | ⟨-, error, rfl⟩ := visit_cases h
  · unfold Store.compared
    dsimp only
    split
    · split
      · exact .inl (List.append_nil _)
      · exact .inr ⟨_, rfl, rfl⟩
    · exact .inl (List.append_nil _)
  · exact .inl (List.append_nil _)

theorem linked_visit {stats stats' : RunStats} {store' : Store} {v : Visit}
    (hlinked : ∀ url, store.Linked sha url) (h : store.visit sha now stats v = some (store', stats'))
    (url : Str) : store'.Linked sha url := by
  obtain ⟨text, _, -, rfl⟩ | ⟨-, error, rfl⟩ := visit_cases h
  · exact linked_compared _ _ _ hlinked url
  · obtain ⟨hstored, hchanges, hbaselines⟩ := failed_commit store v.page now error url
    rw [Store.Linked, hstored, hchanges, hbaselines]
    exact hlinked url

theorem linked_runWatch {stats : RunStats} {visits : List Visit} (hlinked : ∀ url, store.Linked sha url)
    (url : Str) : (runWatch sha now store stats visits).1.Linked sha url := by
  induction visits generalizing store stats with
  | nil => exact hlinked url
  | cons v visits ih =>
    rw [runWatch]
    split
    · exact hlinked url
    · rename_i store' stats' hvisit
      exact ih (linked_visit hlinked hvisit)

theorem linked_runs {schedule : List (Int × List Visit)} (hlinked : ∀ url, store.Linked sha url) (url : Str) :
    (runs sha store schedule).Linked sha url := by
  induction schedule generalizing store with
  | nil => exact hlinked url
  | cons run schedule ih => exact ih (linked_runWatch hlinked)

theorem Store.empty_linked (url : Str) : Store.empty.Linked sha url := .inl ⟨rfl, rfl, rfl⟩

end

/-- After any runs, the changes of each page lead from its baseline, each from the hash
that the one before it led to, to the hash of the text that is stored; and a fetch that
fails changes neither texts nor hashes nor the changes. -/
theorem changes_chain (sha : Str → Str) (schedule : List (Int × List Visit)) :
    (∀ url, (runs sha .empty schedule).Linked sha url) ∧
    ∀ now stats v store' stats', (∀ text, v.fetched ≠ .text text) →
      (runs sha .empty schedule).visit sha now stats v = some (store', stats') →
      store'.changes = (runs sha .empty schedule).changes ∧
        ∀ url, store'.stored url = (runs sha .empty schedule).stored url :=
  ⟨linked_runs Store.empty_linked, fun _ _ _ _ _ hfailed h => visit_failed hfailed h⟩

/-- SHA-256 of three texts. -/
def exampleSha (text : Str) : Str :=
  if text = ['a'] then "ca978112ca1bbdcafac231b39a23dc4da786eff8147c4e72b9807785afee48bb".toList
  else if text = ['b'] then "3e23e8160039594a33894f6564e1b1348bbd7a0088d42c4acb73eeaed59c009d".toList
  else "2e7d2c03a9507ae265ecf5b5356885a53393a2029d241394997265a1a25aefc6".toList

def examplePage : WatchedPage :=
  ⟨"codex".toList, "Pricing".toList, "https://developers.openai.com/codex/pricing.md".toList⟩

/-- A baseline, an unchanged page, a failure and two changes. -/
def exampleSchedule : List (Int × List Visit) :=
  [(0, [⟨examplePage, .text "a".toList, 1⟩]), (1, [⟨examplePage, .text "a \r\n".toList, 2⟩]),
    (2, [⟨examplePage, .timeout, 3⟩]), (3, [⟨examplePage, .text "b".toList, 4⟩]),
    (4, [⟨examplePage, .text "c\n".toList, 5⟩])]

theorem changes_chain_example :
    ((runs exampleSha .empty exampleSchedule).changes.map DocChange.changeId = [4, 5] ∧
      (runs exampleSha .empty exampleSchedule).Linked exampleSha examplePage.url) ∧
    ∃ store' stats', (runs exampleSha .empty exampleSchedule).visit exampleSha 5 {}
        ⟨examplePage, .timeout, 6⟩ = some (store', stats') ∧
      store'.changes = (runs exampleSha .empty exampleSchedule).changes := by
  have hids : (runs exampleSha .empty exampleSchedule).changes.map DocChange.changeId = [4, 5] := by
    decide +kernel
  obtain ⟨hlinked, hfailed⟩ := changes_chain exampleSha exampleSchedule
  exact ⟨⟨hids, hlinked _⟩, _, _, rfl, (hfailed 5 {} ⟨examplePage, .timeout, 6⟩ _ _ (by simp) rfl).1⟩

end CiteVyn.Watch
