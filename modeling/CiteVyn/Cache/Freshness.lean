import CiteVyn.Worker.Corpus
import Mathlib.Data.Fintype.Basic

/-! # The answer cache while the index is ingested in place

Requests and a drive, step by step. A request reads the row of the active
index once, for its cache key; what it retrieves later, and the answer it
writes under that key, may come from after a document was replaced. The
results say which corpus the chunks of a cached answer are from. -/
namespace CiteVyn.Cache
open CiteVyn.Lib.Runs CiteVyn.Text CiteVyn.Worker

/-- `build_cache_key`, with its other inputs as one. -/
structure CacheKey (Q H : Type*) where
  question : Q
  sourceVersionHash : H
  deriving DecidableEq

/-- Where a request is. -/
inductive Request (Q H : Type*) where
  | asked (question : Q)
  | keyed (key : CacheKey Q H)
  /-- past a cache miss, with the chunks retrieved so far -/
  | retrieving (key : CacheKey Q H) (chunks : List Chunk)

/-- A drive under way: the sources it has still to get to. -/
structure Running where
  drive : Drive
  sources : List SourceSpec
  todo : List SourceSpec
  failed : Nat

structure World (R Q H : Type*) where
  index : Index H
  running : Option Running
  requests : R → Option (Request Q H)
  cache : List (CacheKey Q H × List Chunk)
  /-- what drives have committed since the hash on the row last changed; nothing
  reads it -/
  since : List (SourceSpec × Str)

inductive Event (R Q : Type*) where
  | start (d : Drive)
  | ingest
  | finish
  | die
  | ask (r : R) (question : Q)
  | readIndex (r : R)
  | lookup (r : R)
  | retrieve (r : R) (chunks : List Chunk)
  | write (r : R)
  | leave (r : R)

variable {R Q H : Type*}

def chunksOf (index : Index H) : List Chunk := index.documents.flatMap Document.chunks

def World.hash (w : World R Q H) : Option H := w.index.row.map IndexRow.sourceVersionHash

def World.setRequest [DecidableEq R] (w : World R Q H) (r : R) (request : Option (Request Q H)) : World R Q H :=
  { w with requests := Function.update w.requests r request }

/-- The chunk is one of those that ingesting the text of the source writes. -/
def FromText (source : SourceSpec) (text : Str) (c : Chunk) : Prop :=
  ∃ embedder, c ∈ materializeChunks embedder source (draftsOf source text)

/-- The chunk is from a source of the corpus, with the text it has there. -/
def FromCorpus (entries : List Entry) (c : Chunk) : Prop :=
  ∃ source text, entryOf source (some text) ∈ entries ∧ FromText source text c

/-- The chunk is from the corpus that the row's hash names, or a drive has
committed it since that hash was published. -/
def Good (hash : List Entry → H) (w : World R Q H) (c : Chunk) : Prop :=
  (∃ entries, w.hash = some (hash entries) ∧ FromCorpus entries c) ∨
    ∃ p ∈ w.since, FromText p.1 p.2 c

theorem Good.mono {hash : List Entry → H} {w w' : World R Q H} {c : Chunk} (h : Good hash w c)
    (hhash : w'.hash = w.hash) (hsince : w.since ⊆ w'.since) : Good hash w' c := by
  rcases h with ⟨entries, he, hc⟩ | ⟨p, hp, hc⟩
  · exact .inl ⟨entries, hhash.trans he, hc⟩
  · exact .inr ⟨p, hsince hp, hc⟩

theorem mem_chunksOf_put {index : Index H} {source : SourceSpec} {chunks : List Chunk} {c : Chunk}
    (h : c ∈ chunksOf (index.put source chunks)) : c ∈ chunksOf index ∨ c ∈ chunks := by
  obtain ⟨document, hdoc, hc⟩ := List.mem_flatMap.mp h
  rcases mem_put hdoc with ⟨hold, _⟩ | hw
  · exact .inl (List.mem_flatMap.mpr ⟨document, hold, hc⟩)
  · exact .inr (hw.chunks ▸ hc)

/-- The hash that the end of the drive under way publishes. -/
def publishes (hash : List Entry → H) (w : World R Q H) : Option H :=
  match w.running with
  | some ⟨d, sources, [], 0⟩ =>
    if fullCorpus d.mvpSources sources then some (buildRunner hash d).sourceVersionHash else none
  | _ => none

variable [DecidableEq R] [DecidableEq Q] [DecidableEq H]

def cacheGet (cache : List (CacheKey Q H × List Chunk)) (key : CacheKey Q H) : Option (List Chunk) :=
  (cache.find? fun entry => entry.1 = key).map Prod.snd

def step (hash : List Entry → H) (w : World R Q H) : Event R Q → Option (World R Q H)
  | .start d =>
    match w.running, resolveSources d.mvpSources d.source with
    | none, some sources =>
      let runner := buildRunner hash d
      some { w with
        index := ensureIndexVersion w.index runner.sourceVersionHash runner.stamp
        running := some ⟨d, sources, sources, 0⟩ }
    | _, _ => none
  | .ingest =>
    match w.running with
    | some ⟨d, sources, source :: todo, failed⟩ =>
      match (buildRunner hash d).run w.index source (d.attempts source) with
      | .ok index =>
        some { w with
          index := index
          running := some ⟨d, sources, todo, failed⟩
          since := (source, (d.attempts source).fetched.getD []) :: w.since }
      | .error _ => some { w with running := some ⟨d, sources, todo, failed + 1⟩ }
    | _ => none
  | .finish =>
    match w.running with
    | some ⟨_, _, [], _⟩ =>
      match publishes hash w with
      | some h =>
        some { w with
          index := advanceSourceVersionHash w.index h
          running := none
          since := if w.hash = some h then w.since else [] }
      | none => some { w with running := none }
    | _ => none
  | .die => w.running.map fun _ => { w with running := none }
  | .ask r question =>
    match w.requests r with
    | none => some (w.setRequest r (some (.asked question)))
    | some _ => none
  | .readIndex r =>
    match w.requests r, w.hash with
    | some (.asked question), some h => some (w.setRequest r (some (.keyed ⟨question, h⟩)))
    | _, _ => none
  | .lookup r =>
    match w.requests r with
    | some (.keyed key) =>
      match cacheGet w.cache key with
      | some _ => some (w.setRequest r none)
      | none => some (w.setRequest r (some (.retrieving key [])))
    | _ => none
  | .retrieve r chunks =>
    match w.requests r with
    | some (.retrieving key got) =>
      if chunks.all (· ∈ chunksOf w.index) then
        some (w.setRequest r (some (.retrieving key (got ++ chunks))))
      else none
    | _ => none
  | .write r =>
    match w.requests r with
    | some (.retrieving key chunks) =>
      some { w.setRequest r none with cache := (key, chunks) :: w.cache }
    | _ => none
  | .leave r =>
    match w.requests r with
    | some _ => some (w.setRequest r none)
    | none => none

omit [DecidableEq Q] [DecidableEq H] in
theorem setRequest_self (w : World R Q H) (r : R) (request : Option (Request Q H)) :
    (w.setRequest r request).requests r = request := by
  simp [World.setRequest]

omit [DecidableEq Q] [DecidableEq H] in
theorem setRequest_of_ne (w : World R Q H) {r r' : R} (request : Option (Request Q H)) (h : r' ≠ r) :
    (w.setRequest r request).requests r' = w.requests r' := by
  simp [World.setRequest, h]

/-! ## A drive in steps is the drive -/

theorem ingest_steps (hash : List Entry → H) (d : Drive) (sources : List SourceSpec) :
    ∀ (todo : List SourceSpec) (w : World R Q H) (failed : Nat),
      w.running = some ⟨d, sources, todo, failed⟩ →
      ∃ w', exec (step hash) w (List.replicate todo.length .ingest) = some w' ∧
        w'.index = (ingestAll (buildRunner hash d) d.attempts w.index todo).1 ∧
        w'.running = some ⟨d, sources, [],
          failed + (ingestAll (buildRunner hash d) d.attempts w.index todo).2⟩ := by
  intro todo
  induction todo with
  | nil => exact fun w failed h => ⟨w, rfl, rfl, h⟩
  | cons source todo ih =>
    intro w failed h
    have hstep : exec (step hash) w (List.replicate (source :: todo).length .ingest) =
        (step hash w .ingest).bind fun w' =>
          exec (step hash) w' (List.replicate todo.length .ingest) := rfl
    rw [hstep, ingestAll]
    simp only [step, h]
    cases hrun : (buildRunner hash d).run w.index source (d.attempts source) with
    | ok index =>
      simp only [Option.bind_some]
      exact ih _ failed rfl
    | error e =>
      simp only [Option.bind_some]
      obtain ⟨w', hw, hindex, hrunning⟩ :=
        ih { w with running := some ⟨d, sources, todo, failed + 1⟩ } (failed + 1) rfl
      exact ⟨w', hw, hindex, by rw [hrunning]; simp [Nat.add_assoc, Nat.add_comm 1]⟩

/-- **The steps of a drive that nothing interrupts are `drive`.** -/
theorem drive_steps {hash : List Entry → H} {d : Drive} {sources : List SourceSpec} {w : World R Q H}
    (hidle : w.running = none) (hres : resolveSources d.mvpSources d.source = some sources)
    (hstop : d.stopsAfter = none) :
    ∃ w', exec (step hash) w
        (.start d :: (List.replicate sources.length .ingest ++ [.finish])) = some w' ∧
      w'.index = drive hash w.index d ∧ w'.running = none := by
  obtain ⟨w', hw, hindex, hrunning⟩ := ingest_steps hash d sources sources
    { w with
      index := ensureIndexVersion w.index (buildRunner hash d).sourceVersionHash
        (buildRunner hash d).stamp
      running := some ⟨d, sources, sources, 0⟩ } 0 rfl
  rw [Nat.zero_add] at hrunning
  have hexec : exec (step hash) w
      (.start d :: (List.replicate sources.length .ingest ++ [.finish])) = step hash w' .finish := by
    rw [exec, step, hidle, hres]
    simp only [Option.bind_some]
    rw [exec_append, hw, Option.bind_some, exec_singleton]
  rw [hexec]
  simp only [step, hrunning, drive, hres, hstop, publishes]
  by_cases hfailed : (ingestAll (buildRunner hash d) d.attempts
      (ensureIndexVersion w.index (buildRunner hash d).sourceVersionHash
        (buildRunner hash d).stamp) sources).2 = 0
  · rw [hfailed]
    by_cases hfull : fullCorpus d.mvpSources sources = true
    · simp [hfull, hindex]
    · simp [hfull, hindex]
  · obtain ⟨n, hn⟩ := Nat.exists_eq_succ_of_ne_zero hfailed
    simp [hn, hindex]

/-! ## The invariant -/

/-- The key that a request looks up or will write under. -/
def Request.key : Request Q H → Option (CacheKey Q H)
  | .asked _ => none
  | .keyed key => some key
  | .retrieving key _ => some key

/-- What a drive under way has done with the sources it got to. -/
structure Progress (index : Index H) (r : Running) : Prop where
  allowed : r.sources ⊆ r.drive.mvpSources.sources
  reached : ∃ done, r.sources = done ++ r.todo ∧ (r.failed = 0 → ∀ source ∈ done,
    ∃ text, (r.drive.attempts source).fetched = some text ∧ Holds index source text)

/-- What holds in every state. -/
structure Inv (hash : List Entry → H) (w : World R Q H) : Prop where
  unbuilt : w.hash = none → w.index.documents = [] ∧ w.cache = [] ∧
    ∀ r, ∀ request ∈ w.requests r, request.key = none
  running : ∀ r ∈ w.running, w.hash ≠ none ∧ Progress w.index r
  chunks : ∀ c ∈ chunksOf w.index, Good hash w c
  requests : ∀ r key got, w.requests r = some (.retrieving key got) →
    w.hash = some key.sourceVersionHash → ∀ c ∈ got, Good hash w c
  cache : ∀ entry ∈ w.cache, w.hash = some entry.1.sourceVersionHash → ∀ c ∈ entry.2, Good hash w c

/-- The drive that is about to publish a hash has ingested the texts it hashed,
every document of the index is of its allowlist, and the hash is the one on the
row, or one that no answer is or will be cached under. -/
def Publishable (w : World R Q H) (h : H) : Prop :=
  (∀ r ∈ w.running,
    (∀ source ∈ r.drive.mvpSources.sources,
      r.drive.hashed source = (r.drive.attempts source).fetched) ∧
    ∀ document ∈ w.index.documents,
      document.sourceName ∈ r.drive.mvpSources.sources.map SourceSpec.name) ∧
  (w.hash = some h ∨ (∀ entry ∈ w.cache, entry.1.sourceVersionHash ≠ h) ∧
    ∀ r, ∀ request ∈ w.requests r, ∀ key ∈ request.key, key.sourceVersionHash ≠ h)

/-- A step that publishes a hash publishes one that is `Publishable`. -/
def Steady (hash : List Entry → H) (w : World R Q H) : Event R Q → Prop
  | .finish => ∀ h ∈ publishes hash w, Publishable w h
  | _ => True

omit [DecidableEq Q] [DecidableEq H] in
theorem Inv.setRequest {hash : List Entry → H} {w : World R Q H} (h : Inv hash w) (r : R)
    (request : Option (Request Q H)) (hunbuilt : w.hash = none → ∀ q ∈ request, q.key = none)
    (hgot : ∀ key got, request = some (.retrieving key got) →
      w.hash = some key.sourceVersionHash → ∀ c ∈ got, Good hash w c) :
    Inv hash (w.setRequest r request) where
  unbuilt hnone := by
    obtain ⟨hdocs, hcache, hreq⟩ := h.unbuilt hnone
    refine ⟨hdocs, hcache, fun r' q hq => ?_⟩
    by_cases hr : r' = r
    · subst hr
      rw [setRequest_self] at hq
      exact hunbuilt hnone q hq
    · rw [setRequest_of_ne _ _ hr] at hq
      exact hreq r' q hq
  running := h.running
  chunks := h.chunks
  requests r' key got hq := by
    by_cases hr : r' = r
    · subst hr
      rw [setRequest_self] at hq
      exact hgot key got hq
    · rw [setRequest_of_ne _ _ hr] at hq
      exact h.requests r' key got hq
  cache := h.cache

/-! ## What the steps preserve -/

omit [DecidableEq R] [DecidableEq Q] [DecidableEq H] in
/-- A step of the drive under way that leaves the hash and the requests alone. -/
theorem Inv.driveStep {hash : List Entry → H} {w w' : World R Q H} (h : Inv hash w)
    (hbuilt : w.hash ≠ none) (hhash : w'.hash = w.hash) (hrequests : w'.requests = w.requests)
    (hcache : w'.cache = w.cache) (hsince : w.since ⊆ w'.since)
    (hchunks : ∀ c ∈ chunksOf w'.index, c ∈ chunksOf w.index ∨ Good hash w' c)
    (hrunning : ∀ r ∈ w'.running, Progress w'.index r) : Inv hash w' where
  unbuilt hnone := absurd (hhash.symm.trans hnone) hbuilt
  running r hr := ⟨hhash ▸ hbuilt, hrunning r hr⟩
  chunks c hc := (hchunks c hc).elim (fun hold => (h.chunks c hold).mono hhash hsince) id
  requests r key got hr hk c hc :=
    (h.requests r key got (hrequests ▸ hr) (hhash ▸ hk) c hc).mono hhash hsince
  cache entry he hk c hc := (h.cache entry (hcache ▸ he) (hhash ▸ hk) c hc).mono hhash hsince

omit [DecidableEq H] in
theorem ensureIndexVersion_hash (index : Index H) (h : H) (stamp : Option EmbedderIdentity) :
    (ensureIndexVersion index h stamp).row.map IndexRow.sourceVersionHash =
      some ((index.row.map IndexRow.sourceVersionHash).getD h) := by
  unfold ensureIndexVersion
  cases index.row <;> rfl

theorem Inv.start {hash : List Entry → H} {w w' : World R Q H} {d : Drive} (h : Inv hash w)
    (hs : step hash w (.start d : Event R Q) = some w') : Inv hash w' := by
  rw [step] at hs
  split at hs
  · rename_i sources hidle hres
    obtain rfl := Option.some.inj hs
    have hchunks : chunksOf (ensureIndexVersion w.index (buildRunner hash d).sourceVersionHash
        (buildRunner hash d).stamp) = chunksOf w.index := by
      rw [chunksOf, chunksOf, ensureIndexVersion_documents]
    have hprogress (index : Index H) : Progress index ⟨d, sources, sources, 0⟩ :=
      ⟨resolveSources_subset hres, [], rfl, by simp⟩
    have hrow := ensureIndexVersion_hash w.index (buildRunner hash d).sourceVersionHash
      (buildRunner hash d).stamp
    cases hw : w.hash with
    | some old =>
      refine h.driveStep (by simp [hw]) ?_ rfl rfl (List.Subset.refl _) ?_ ?_
      · refine hrow.trans ?_
        rw [show w.index.row.map IndexRow.sourceVersionHash = some old from hw, hw]
        rfl
      · exact fun c hc => .inl (hchunks ▸ hc)
      · intro r hr
        obtain rfl := Option.some.inj hr
        exact hprogress _
    | none =>
      -- the first drive: there is nothing in the index, and no request has read a hash
      obtain ⟨hdocs, hcache, hreq⟩ := h.unbuilt hw
      exact {
        unbuilt := fun hnone => by
          rw [World.hash, hrow] at hnone
          cases hnone
        running := fun r hr => by
          obtain rfl := Option.some.inj hr
          exact ⟨by rw [World.hash, hrow]; simp, hprogress _⟩
        chunks := fun c hc => by
          rw [hchunks, chunksOf, hdocs] at hc
          cases hc
        requests := fun r key got hr => by
          have := hreq r _ hr
          cases this
        cache := fun entry he => by
          rw [hcache] at he
          cases he }
  · cases hs

omit [DecidableEq R] [DecidableEq Q] [DecidableEq H] in
theorem Progress.next {index index' : Index H} {d : Drive} {sources todo : List SourceSpec}
    {source : SourceSpec} {failed failed' : Nat}
    (h : Progress index ⟨d, sources, source :: todo, failed⟩)
    (hkeeps : failed' = 0 → failed = 0 ∧
      (∃ text, (d.attempts source).fetched = some text ∧ Holds index' source text) ∧
      ∀ s ∈ sources, ∀ text, (d.attempts s).fetched = some text → Holds index s text →
        Holds index' s text) : Progress index' ⟨d, sources, todo, failed'⟩ where
  allowed := h.allowed
  reached := by
    obtain ⟨done, hdone, hheld⟩ := h.reached
    have hsources : sources = done ++ source :: todo := hdone
    refine ⟨done ++ [source], by simp [hsources], fun hzero s hs => ?_⟩
    obtain ⟨hfailed, hnew, hold⟩ := hkeeps hzero
    rcases List.mem_append.mp hs with hs | hs
    · obtain ⟨text, htext, hholds⟩ := hheld hfailed s hs
      exact ⟨text, htext, hold s (hsources ▸ List.mem_append_left _ hs) text htext hholds⟩
    · rw [List.mem_singleton.mp hs]
      exact hnew

theorem Inv.ingest {hash : List Entry → H} {w w' : World R Q H} (h : Inv hash w)
    (hs : step hash w (.ingest : Event R Q) = some w') : Inv hash w' := by
  rw [step] at hs
  split at hs
  · rename_i d sources source todo failed hrunning
    obtain ⟨hbuilt, hprogress⟩ := h.running _ hrunning
    have hmem : source ∈ sources := by
      obtain ⟨done, hdone, _⟩ := hprogress.reached
      rw [show sources = done ++ source :: todo from hdone]
      exact List.mem_append_right _ List.mem_cons_self
    split at hs
    · rename_i index hrun
      obtain rfl := Option.some.inj hs
      obtain ⟨ds, hd, rfl⟩ := run_ok hrun
      obtain ⟨text, htext, rfl, _⟩ := drafts_ok hd
      refine h.driveStep hbuilt rfl rfl rfl (List.subset_cons_self _ _) ?_ ?_
      · intro c hc
        refine (mem_chunksOf_put hc).imp id fun hnew => .inr ⟨_, List.mem_cons_self, ?_⟩
        rw [htext]
        exact ⟨_, hnew⟩
      · intro r hr
        obtain rfl := Option.some.inj hr
        refine hprogress.next fun hzero => ⟨hzero, ⟨text, htext, holds_put _ _ _ _⟩, ?_⟩
        intro s hs' t ht hheld
        by_cases hname : s.name = source.name
        · obtain rfl := Allowlist.unique (hprogress.allowed hs') (hprogress.allowed hmem) hname
          rw [htext] at ht
          obtain rfl := Option.some.inj ht
          exact holds_put _ _ _ _
        · exact hheld.put hname
    · obtain rfl := Option.some.inj hs
      refine h.driveStep hbuilt rfl rfl rfl (List.Subset.refl _) (fun c hc => .inl hc) ?_
      intro r hr
      obtain rfl := Option.some.inj hr
      exact hprogress.next fun hzero => by simp at hzero
  · cases hs

omit [DecidableEq R] [DecidableEq Q] [DecidableEq H] in
theorem publishes_eq_some {hash : List Entry → H} {w : World R Q H} {h : H}
    (hp : publishes hash w = some h) :
    ∃ d sources, w.running = some ⟨d, sources, [], 0⟩ ∧ fullCorpus d.mvpSources sources = true ∧
      h = contentVersionHash hash d.mvpSources.sources d.hashed := by
  unfold publishes at hp
  split at hp
  · rename_i d sources hrunning
    split at hp
    · rename_i hfull
      exact ⟨d, sources, hrunning, hfull, (Option.some.inj hp).symm⟩
    · cases hp
  · cases hp

theorem mem_corpusEntries {sources : List SourceSpec} {fetch : SourceSpec → Option Str}
    {source : SourceSpec} (h : source ∈ sources) :
    entryOf source (fetch source) ∈ corpusEntries sources fetch :=
  List.mem_map_of_mem ((List.mem_insertionSort _).mpr h)

omit [DecidableEq R] [DecidableEq Q] [DecidableEq H] in
/-- What the index holds when a hash is published is the corpus of that hash. -/
theorem fromCorpus_of_publishes {hash : List Entry → H} {w : World R Q H} {h : H} (hinv : Inv hash w)
    (hp : publishes hash w = some h) (hok : Publishable w h) :
    ∃ entries, h = hash entries ∧ ∀ c ∈ chunksOf w.index, FromCorpus entries c := by
  obtain ⟨d, sources, hrunning, hfull, rfl⟩ := publishes_eq_some hp
  obtain ⟨_, hprogress⟩ := hinv.running _ hrunning
  obtain ⟨hread, hallowed⟩ := hok.1 _ hrunning
  refine ⟨_, rfl, fun c hc => ?_⟩
  obtain ⟨document, hdoc, hc⟩ := List.mem_flatMap.mp hc
  obtain ⟨source, hsource, hname⟩ := List.mem_map.mp (hallowed document hdoc)
  have hmem : source ∈ sources := by
    simp only [fullCorpus, Bool.and_eq_true, List.all_eq_true, decide_eq_true_eq] at hfull
    obtain ⟨s, hs, hsname⟩ := List.mem_map.mp (hfull.2 source hsource)
    rwa [← Allowlist.unique (hprogress.allowed hs) hsource hsname]
  obtain ⟨done, hdone, hheld⟩ := hprogress.reached
  have hdone : sources = done := hdone.trans (List.append_nil done)
  obtain ⟨text, htext, hholds⟩ := hheld rfl source (hdone ▸ hmem)
  obtain ⟨embedder, hw⟩ := hholds.exact document hdoc hname.symm
  refine ⟨source, text, ?_, embedder, hw.chunks ▸ hc⟩
  rw [← htext, ← hread source hsource]
  exact mem_corpusEntries hsource

theorem Inv.finish {hash : List Entry → H} {w w' : World R Q H} (h : Inv hash w)
    (hok : Steady hash w (.finish : Event R Q)) (hs : step hash w (.finish : Event R Q) = some w') :
    Inv hash w' := by
  rw [step] at hs
  split at hs
  · rename_i hrunning
    obtain ⟨hbuilt, _⟩ := h.running _ hrunning
    split at hs
    · rename_i new hp
      obtain rfl := Option.some.inj hs
      have hnew : w.index.row.map (fun _ => new) = some new := by
        rw [World.hash] at hbuilt
        cases hrow : w.index.row with
        | none => simp [hrow] at hbuilt
        | some row => rfl
      have hhash : ∀ since, World.hash (R := R) (Q := Q) ⟨advanceSourceVersionHash w.index new,
          none, w.requests, w.cache, since⟩ = some new := by
        intro since
        rw [World.hash, advanceSourceVersionHash, Option.map_map]
        exact hnew
      obtain ⟨entries, hentries, hcorpus⟩ := fromCorpus_of_publishes h hp (hok _ hp)
      by_cases hsame : w.hash = some new
      · simp only [hsame, if_true]
        exact h.driveStep hbuilt ((hhash _).trans hsame.symm) rfl rfl (List.Subset.refl _)
          (fun c hc => .inl hc) (by simp)
      · obtain ⟨hcache, hrequests⟩ := (hok _ hp).2.resolve_left hsame
        exact {
          unbuilt := fun hnone => by
            rw [hhash] at hnone
            cases hnone
          running := by simp
          chunks := fun c hc => .inl ⟨entries, (hhash _).trans (by rw [hentries]), hcorpus c hc⟩
          requests := fun r key got hr hk => by
            rw [hhash] at hk
            exact absurd (Option.some.inj hk).symm (hrequests r _ hr key rfl)
          cache := fun entry he hk => by
            rw [hhash] at hk
            exact absurd (Option.some.inj hk).symm (hcache entry he) }
    · obtain rfl := Option.some.inj hs
      exact h.driveStep hbuilt rfl rfl rfl (List.Subset.refl _) (fun c hc => .inl hc) (by simp)
  · cases hs

omit [DecidableEq R] [DecidableEq Q] [DecidableEq H] in
/-- A request that has read the row has read a hash. -/
theorem Inv.built {hash : List Entry → H} {w : World R Q H} {r : R} {request : Request Q H}
    {key : CacheKey Q H} (h : Inv hash w) (hr : w.requests r = some request)
    (hkey : request.key = some key) : w.hash ≠ none := by
  intro hnone
  have := (h.unbuilt hnone).2.2 r request hr
  rw [hkey] at this
  cases this

theorem step_inv {hash : List Entry → H} {w w' : World R Q H} {e : Event R Q} (h : Inv hash w)
    (hok : Steady hash w e) (hs : step hash w e = some w') : Inv hash w' := by
  cases e with
  | start d => exact h.start hs
  | ingest => exact h.ingest hs
  | finish => exact h.finish hok hs
  | die =>
    obtain ⟨r, hr, rfl⟩ := Option.map_eq_some_iff.mp hs
    exact h.driveStep (h.running r hr).1 rfl rfl rfl (List.Subset.refl _) (fun c hc => .inl hc)
      (by simp)
  | ask r question =>
    rw [step] at hs
    split at hs
    · obtain rfl := Option.some.inj hs
      exact h.setRequest r _ (by simp [Request.key]) (by simp)
    · cases hs
  | readIndex r =>
    rw [step] at hs
    split at hs
    · rename_i hhash
      obtain rfl := Option.some.inj hs
      exact h.setRequest r _ (by simp [hhash]) (by simp)
    · cases hs
  | lookup r =>
    rw [step] at hs
    split at hs
    · rename_i key hr
      have hbuilt := h.built hr rfl
      split at hs
      · obtain rfl := Option.some.inj hs
        exact h.setRequest r _ (by simp) (by simp)
      · obtain rfl := Option.some.inj hs
        refine h.setRequest r _ (fun hnone => absurd hnone hbuilt) fun key' got hgot _ c hc => ?_
        obtain ⟨_, rfl⟩ := Request.retrieving.inj (Option.some.inj hgot)
        cases hc
    · cases hs
  | retrieve r chunks =>
    rw [step] at hs
    split at hs
    · rename_i key got hr
      split at hs
      · rename_i hall
        obtain rfl := Option.some.inj hs
        refine h.setRequest r _ (fun hnone => absurd hnone (h.built hr rfl)) ?_
        intro key' got' hgot hk c hc
        obtain ⟨rfl, rfl⟩ := Request.retrieving.inj (Option.some.inj hgot)
        rcases List.mem_append.mp hc with hc | hc
        · exact h.requests r _ got hr hk c hc
        · exact h.chunks c (by simpa using List.all_eq_true.mp hall c hc)
      · cases hs
    · cases hs
  | write r =>
    rw [step] at hs
    split at hs
    · rename_i key chunks hr
      obtain rfl := Option.some.inj hs
      have hset := h.setRequest r none (by simp) (by simp)
      exact {
        unbuilt := fun hnone => absurd hnone (h.built hr rfl)
        running := hset.running
        chunks := hset.chunks
        requests := hset.requests
        cache := fun entry he hk => by
          rcases List.mem_cons.mp he with rfl | he
          · exact h.requests r _ _ hr hk
          · exact hset.cache entry he hk }
    · cases hs
  | leave r =>
    rw [step] at hs
    split at hs
    · obtain rfl := Option.some.inj hs
      exact h.setRequest r _ (by simp) (by simp)
    · cases hs

/-- Nothing is ingested, asked or cached yet. -/
def World.empty : World R Q H := ⟨emptyIndex, none, fun _ => none, [], []⟩

omit [DecidableEq R] [DecidableEq Q] [DecidableEq H] in
theorem inv_empty (hash : List Entry → H) : Inv hash (World.empty : World R Q H) where
  unbuilt _ := ⟨rfl, rfl, fun _ _ hr => by cases hr⟩
  running _ hr := by cases hr
  chunks _ hc := by cases hc
  requests _ _ _ hr := by cases hr
  cache _ he := by cases he

/-- **What the cache serves under the hash of the row** was generated from chunks
of the corpus of that hash, and of chunks that drives have committed since the
hash was published. -/
theorem served_fresh {hash : List Entry → H} {w : World R Q H} {es : List (Event R Q)}
    {key : CacheKey Q H} {chunks : List Chunk} (hok : Along (step hash) (Steady hash) World.empty es)
    (hrun : exec (step hash) World.empty es = some w) (hcurrent : w.hash = some key.sourceVersionHash)
    (hserved : cacheGet w.cache key = some chunks) :
    ∀ c ∈ chunks,
      (∃ entries, hash entries = key.sourceVersionHash ∧ FromCorpus entries c) ∨
        ∃ p ∈ w.since, FromText p.1 p.2 c := by
  have h : Inv hash w :=
    exec_invariant (fun w e w' hinv hok hs => step_inv hinv hok hs) (inv_empty hash) hok hrun
  obtain ⟨entry, hfind, rfl⟩ := Option.map_eq_some_iff.mp hserved
  have hkey : entry.1 = key := by simpa using List.find?_some hfind
  intro c hc
  rcases h.cache entry (List.mem_of_find?_eq_some hfind) (hkey ▸ hcurrent) c hc with
    ⟨entries, he, hfrom⟩ | hsince
  · exact .inl ⟨entries, Option.some.inj (he.symm.trans hcurrent), hfrom⟩
  · exact .inr hsince

/-! ## Two sources, the first edited -/

instance decidablePublishable [Fintype R] (w : World R Q H) (h : H) : Decidable (Publishable w h) :=
  inferInstanceAs (Decidable ((∀ r ∈ w.running,
    (∀ source ∈ r.drive.mvpSources.sources,
      r.drive.hashed source = (r.drive.attempts source).fetched) ∧
    ∀ document ∈ w.index.documents,
      document.sourceName ∈ r.drive.mvpSources.sources.map SourceSpec.name) ∧
    (w.hash = some h ∨ (∀ entry ∈ w.cache, entry.1.sourceVersionHash ≠ h) ∧
      ∀ r, ∀ request ∈ w.requests r, ∀ key ∈ request.key, key.sourceVersionHash ≠ h)))

instance decidableSteady [Fintype R] (hash : List Entry → H) (w : World R Q H) :
    ∀ e : Event R Q, Decidable (Steady hash w e)
  | .finish => inferInstanceAs (Decidable (∀ h ∈ publishes hash w, Publishable w h))
  | .start _ | .ingest | .die | .ask _ _ | .readIndex _ | .lookup _ | .retrieve _ _ | .write _
  | .leave _ => isTrue trivial

/-- The chunk of the first source with the given word. -/
def wordChunks (word : String) : List Chunk :=
  twoSources.sources.take 1 |>.flatMap fun source =>
    materializeChunks (some ⟨"stub".toList, [], 1536⟩) source
      (draftsOf source ("## S\n".toList ++ word.toList))

/-- A clean drive, and a drive of the edited first source that is under way. -/
def editedUnderWay : List (Event Unit Unit) :=
  [.start (twoSourcesDrive "stub" "x" none), .ingest, .ingest, .finish,
    .start (twoSourcesDrive "stub" "y" none), .ingest]

/-- A question answered from the given chunks, and asked again. -/
def askTwice (chunks : List Chunk) : List (Event Unit Unit) :=
  [.ask () (), .readIndex (), .lookup (), .retrieve () chunks, .write (), .ask () (), .readIndex ()]

theorem served_fresh_mixed : ∃ w ∈ exec (step id) (World.empty : World Unit Unit (List Entry))
    (editedUnderWay ++ askTwice (wordChunks "y")), ∃ key ∈ (w.requests ()).bind Request.key,
      ∃ chunks ∈ cacheGet w.cache key, ∀ c ∈ chunks,
        (∃ entries, id entries = key.sourceVersionHash ∧ FromCorpus entries c) ∨
          ∃ p ∈ w.since, FromText p.1 p.2 c := by
  have hok : Along (step id) (Steady id) (World.empty : World Unit Unit (List Entry))
      (editedUnderWay ++ askTwice (wordChunks "y")) := by decide +kernel
  have hserved : ∃ w ∈ exec (step id) (World.empty : World Unit Unit (List Entry))
      (editedUnderWay ++ askTwice (wordChunks "y")), ∃ key ∈ (w.requests ()).bind Request.key,
        w.hash = some key.sourceVersionHash ∧ ∃ chunks ∈ cacheGet w.cache key, True := by
    decide +kernel
  obtain ⟨w, hrun, key, hkey, hcurrent, chunks, hchunks, _⟩ := hserved
  exact ⟨w, hrun, key, hkey, chunks, hchunks, served_fresh hok hrun hcurrent hchunks⟩

/-- The text of a chunk ends with that of a section of its source. -/
theorem FromCorpus.section {entries : List Entry} {c : Chunk} (h : FromCorpus entries c) :
    ∃ entry ∈ entries, ∃ block ∈ (parseMarkdown entry.text).blocks, block.text <:+ c.chunkText := by
  obtain ⟨source, text, hentry, embedder, hc⟩ := h
  obtain ⟨draft, hdraft, rfl⟩ := List.mem_map.mp hc
  obtain ⟨i, hi, rfl⟩ := List.mem_mapIdx.mp hdraft
  exact ⟨_, hentry, (parseMarkdown text).blocks[i], List.getElem_mem hi, List.suffix_append _ _⟩

/-- Under the hash of the first drive the cache serves an answer from the edited
text. -/
theorem served_edited : ∃ w ∈ exec (step id) (World.empty : World Unit Unit (List Entry))
    (editedUnderWay ++ askTwice (wordChunks "y")), ∃ key ∈ (w.requests ()).bind Request.key,
      w.hash = some key.sourceVersionHash ∧ ∃ chunks ∈ cacheGet w.cache key,
        ∃ c ∈ chunks, ∀ entries, id entries = key.sourceVersionHash → ¬FromCorpus entries c := by
  have hserved : ∃ w ∈ exec (step id) (World.empty : World Unit Unit (List Entry))
      (editedUnderWay ++ askTwice (wordChunks "y")), ∃ key ∈ (w.requests ()).bind Request.key,
        w.hash = some key.sourceVersionHash ∧ ∃ chunks ∈ cacheGet w.cache key, ∃ c ∈ chunks,
          ∀ entry ∈ key.sourceVersionHash, ∀ block ∈ (parseMarkdown entry.text).blocks,
            ¬block.text <:+ c.chunkText := by decide +kernel
  obtain ⟨w, hrun, key, hkey, hcurrent, chunks, hchunks, c, hc, hno⟩ := hserved
  refine ⟨w, hrun, key, hkey, hcurrent, chunks, hchunks, c, hc, ?_⟩
  rintro entries rfl hfrom
  obtain ⟨entry, hentry, block, hblock, hsuffix⟩ := hfrom.section
  exact hno entry hentry block hblock hsuffix

end CiteVyn.Cache
