import CiteVyn.Lib.Runs
import CiteVyn.Worker.Runner
import Mathlib.Data.Char
import Mathlib.Data.List.Lex
import Mathlib.Data.List.Sort

/-! # Driving the runner through the sources

`drive` of `app/worker/cli.py` with what it calls: the corpus fingerprint, the
runner it builds, and the order in which the row of the index version and its
documents are written. The results say what holds when no drive is running:
which embedder the stamp names, and which corpus the published hash names. -/
namespace CiteVyn.Worker
open CiteVyn.Lib.Runs CiteVyn.Text

/-- The allowlist of sources, `MVP_SOURCES`. -/
structure Allowlist where
  sources : List SourceSpec
  nodup : (sources.map SourceSpec.name).Nodup

/-- What one source adds to the corpus fingerprint. -/
structure Entry where
  name : Str
  contentAsOf : Str
  text : Str
  deriving DecidableEq, Repr

/-- `_UNFETCHABLE_SENTINEL`. -/
def unfetchableSentinel : Str := "\x00<unfetchable>".toList

def entryOf (source : SourceSpec) (fetched : Option Str) : Entry where
  name := source.name
  contentAsOf := source.contentAsOf.getD []
  text := fetched.getD unfetchableSentinel

/-- The sources in the order of their names, each with its text. -/
def corpusEntries (sources : List SourceSpec) (fetch : SourceSpec → Option Str) : List Entry :=
  (sources.insertionSort fun a b => a.name ≤ b.name).map fun source => entryOf source (fetch source)

/-- The text that `content_version_hash` hands to SHA-256. -/
def corpusStream (entries : List Entry) : Str :=
  entries.flatMap fun entry =>
    entry.name ++ ['\x1f'] ++ entry.contentAsOf ++ ['\x1f'] ++ entry.text ++ ['\x1e']

variable {H : Type*}

/-- `content_version_hash`, for a hash of what it feeds. -/
def contentVersionHash (hash : List Entry → H) (sources : List SourceSpec)
    (fetch : SourceSpec → Option Str) : H := hash (corpusEntries sources fetch)

/-- `get_source`; `KeyError` is `none`. -/
def getSource (mvpSources : Allowlist) (name : Str) : Option SourceSpec :=
  mvpSources.sources.find? fun source => source.name = name

/-- `_resolve_sources`. -/
def resolveSources (mvpSources : Allowlist) : Option Str → Option (List SourceSpec)
  | none => some mvpSources.sources
  | some name => (getSource mvpSources name).map fun source => [source]

/-- One `citevyn-worker run`: its settings, its deployment, its arguments, and
what the outside answers. -/
structure Drive where
  settings : EmbedderIdentity
  writeVectors : Bool
  mvpSources : Allowlist
  /-- what the fingerprint reads of a source -/
  hashed : SourceSpec → Option Str
  /-- `--source` -/
  source : Option Str
  attempts : SourceSpec → Attempt
  /-- the number of sources after which the process is gone -/
  stopsAfter : Option Nat

/-- `build_runner`. -/
def buildRunner (hash : List Entry → H) (d : Drive) : IngestionRunner H where
  embedder := if d.writeVectors then some d.settings else none
  stamp := if d.writeVectors then some d.settings else none
  sourceVersionHash := contentVersionHash hash d.mvpSources.sources d.hashed

/-- The loop of `drive`: the index after it, and how many sources failed. -/
def ingestAll (runner : IngestionRunner H) (attempts : SourceSpec → Attempt) :
    Index H → List SourceSpec → Index H × Nat
  | index, [] => (index, 0)
  | index, source :: sources =>
    match runner.run index source (attempts source) with
    | .ok index => ingestAll runner attempts index sources
    | .error _ =>
      let (index, failed) := ingestAll runner attempts index sources
      (index, failed + 1)

/-- The sources are the whole corpus, by name. -/
def fullCorpus (mvpSources : Allowlist) (sources : List SourceSpec) : Bool :=
  (sources.all fun s => s.name ∈ mvpSources.sources.map SourceSpec.name) &&
    mvpSources.sources.all fun s => s.name ∈ sources.map SourceSpec.name

/-- `drive`. -/
def drive (hash : List Entry → H) (index : Index H) (d : Drive) : Index H :=
  match resolveSources d.mvpSources d.source with
  | none => index
  | some sources =>
    let runner := buildRunner hash d
    let index := ensureIndexVersion index runner.sourceVersionHash runner.stamp
    match d.stopsAfter with
    | some n => (ingestAll runner d.attempts index (sources.take n)).1
    | none =>
      let (index, failed) := ingestAll runner d.attempts index sources
      if failed = 0 && fullCorpus d.mvpSources sources then
        advanceSourceVersionHash index runner.sourceVersionHash
      else index

/-! ## What the loop writes -/

/-- The run of a source completes. -/
def completes (attempts : SourceSpec → Attempt) (source : SourceSpec) : Bool :=
  match drafts source (attempts source) with
  | .ok _ => true
  | .error _ => false

/-- The sources a drive gets to. -/
def Drive.reached (d : Drive) : List SourceSpec :=
  match resolveSources d.mvpSources d.source with
  | none => []
  | some sources =>
    match d.stopsAfter with
    | some n => sources.take n
    | none => sources

/-- The sources a drive ingests. -/
def Drive.ingested (d : Drive) : List SourceSpec := d.reached.filter (completes d.attempts)

/-- A drive that runs cleanly over the whole corpus. -/
def Drive.publishes (d : Drive) : Bool :=
  match resolveSources d.mvpSources d.source with
  | none => false
  | some sources =>
    d.stopsAfter.isNone && sources.all (completes d.attempts) && fullCorpus d.mvpSources sources

/-- The loop goes on with the index as the first source leaves it. -/
theorem ingestAll_cons (runner : IngestionRunner H) (attempts : SourceSpec → Attempt)
    (index : Index H) (source : SourceSpec) (sources : List SourceSpec) :
    (completes attempts source = false ∧
      ingestAll runner attempts index (source :: sources) =
        ((ingestAll runner attempts index sources).1,
          (ingestAll runner attempts index sources).2 + 1)) ∨
    ∃ ds, drafts source (attempts source) = .ok ds ∧ completes attempts source = true ∧
      ingestAll runner attempts index (source :: sources) =
        ingestAll runner attempts (index.put source (materializeChunks runner.embedder source ds))
          sources := by
  rw [ingestAll]
  cases hd : drafts source (attempts source) with
  | error e =>
    left
    have hrun : runner.run index source (attempts source) = .error e := by
      rw [IngestionRunner.run, hd]
      rfl
    simp only [completes, hd, hrun, and_self]
  | ok ds =>
    right
    have hrun : runner.run index source (attempts source) =
        .ok (index.put source (materializeChunks runner.embedder source ds)) := by
      rw [IngestionRunner.run, hd]
      rfl
    exact ⟨ds, rfl, by simp only [completes, hd], by simp only [hrun]⟩

theorem ingestAll_row (runner : IngestionRunner H) (attempts : SourceSpec → Attempt)
    (sources : List SourceSpec) :
    ∀ index : Index H, (ingestAll runner attempts index sources).1.row = index.row := by
  induction sources with
  | nil => exact fun _ => rfl
  | cons source sources ih =>
    intro index
    rcases ingestAll_cons runner attempts index source sources with ⟨_, h⟩ | ⟨ds, _, _, h⟩
    · rw [h]
      exact ih index
    · rw [h, ih]
      rfl

theorem ingestAll_failed (runner : IngestionRunner H) (attempts : SourceSpec → Attempt)
    (sources : List SourceSpec) :
    ∀ index : Index H, (ingestAll runner attempts index sources).2 = 0 ↔
      ∀ source ∈ sources, completes attempts source = true := by
  induction sources with
  | nil =>
    intro index
    simp [ingestAll]
  | cons source sources ih =>
    intro index
    rw [List.forall_mem_cons]
    rcases ingestAll_cons runner attempts index source sources with ⟨hno, h⟩ | ⟨ds, _, hok, h⟩
    · rw [h, hno]
      simp
    · rw [h, hok, ih]
      simp

/-- A document after the loop is an old one that no run has touched, or one
that a run has written. -/
theorem mem_ingestAll {runner : IngestionRunner H} {attempts : SourceSpec → Attempt}
    {document : Document} (sources : List SourceSpec) :
    ∀ index : Index H, document ∈ (ingestAll runner attempts index sources).1.documents →
      (document ∈ index.documents ∧ ∀ source ∈ sources, completes attempts source = true →
        document.sourceName ≠ source.name) ∨
      ∃ source ∈ sources, ∃ ds, drafts source (attempts source) = .ok ds ∧
        Written document source (materializeChunks runner.embedder source ds) := by
  induction sources with
  | nil => exact fun index h => .inl ⟨h, by simp⟩
  | cons source sources ih =>
    intro index h
    rcases ingestAll_cons runner attempts index source sources with ⟨hno, heq⟩ | ⟨ds, hd, hok, heq⟩
    · rw [heq] at h
      rcases ih index h with ⟨hold, hne⟩ | ⟨s, hs, hw⟩
      · refine .inl ⟨hold, fun s hs hc => ?_⟩
        rcases List.mem_cons.mp hs with rfl | hs
        · rw [hno] at hc
          cases hc
        · exact hne s hs hc
      · exact .inr ⟨s, List.mem_cons_of_mem _ hs, hw⟩
    · rw [heq] at h
      rcases ih _ h with ⟨hput, hne⟩ | ⟨s, hs, hw⟩
      · rcases mem_put hput with ⟨hold, hname⟩ | hw
        · refine .inl ⟨hold, fun s hs hc => ?_⟩
          rcases List.mem_cons.mp hs with rfl | hs
          · exact hname
          · exact hne s hs hc
        · exact .inr ⟨source, List.mem_cons_self, ds, hd, hw⟩
      · exact .inr ⟨s, List.mem_cons_of_mem _ hs, hw⟩

theorem ingestAll_of_other {runner : IngestionRunner H} {attempts : SourceSpec → Attempt}
    {document : Document} (sources : List SourceSpec) :
    ∀ index : Index H, document ∈ index.documents →
      (∀ source ∈ sources, completes attempts source = true → document.sourceName ≠ source.name) →
      document ∈ (ingestAll runner attempts index sources).1.documents := by
  induction sources with
  | nil => exact fun _ h _ => h
  | cons source sources ih =>
    intro index h hne
    obtain ⟨hsource, hrest⟩ := List.forall_mem_cons.mp hne
    rcases ingestAll_cons runner attempts index source sources with ⟨_, heq⟩ | ⟨ds, _, hok, heq⟩
    · rw [heq]
      exact ih index h hrest
    · rw [heq]
      exact ih _ (put_of_other _ h (hsource hok)) hrest

/-- A source that has a document, or whose run completes, has one after the loop. -/
theorem ingestAll_present (runner : IngestionRunner H) (attempts : SourceSpec → Attempt) (name : Str)
    (sources : List SourceSpec) :
    ∀ index : Index H, ((∃ document ∈ index.documents, document.sourceName = name) ∨
        ∃ source ∈ sources, completes attempts source = true ∧ source.name = name) →
      ∃ document ∈ (ingestAll runner attempts index sources).1.documents,
        document.sourceName = name := by
  induction sources with
  | nil =>
    rintro index (h | ⟨_, hs, _⟩)
    · exact h
    · cases hs
  | cons source sources ih =>
    intro index h
    rcases ingestAll_cons runner attempts index source sources with ⟨hno, heq⟩ | ⟨ds, _, _, heq⟩
    · rw [heq]
      refine ih index (h.imp id ?_)
      rintro ⟨s, hs, hc, hname⟩
      rcases List.mem_cons.mp hs with rfl | hs
      · rw [hno] at hc
        cases hc
      · exact ⟨s, hs, hc, hname⟩
    · rw [heq]
      obtain ⟨written, hwritten, hw⟩ :=
        exists_written index source (materializeChunks runner.embedder source ds)
      by_cases hname : source.name = name
      · exact ih _ (.inl ⟨written, hwritten, hw.sourceName.trans hname⟩)
      refine ih _ ?_
      rcases h with ⟨document, hdoc, hd⟩ | ⟨s, hs, hc, hs'⟩
      · exact .inl ⟨document, put_of_other _ hdoc fun he => hname (he.symm.trans hd), hd⟩
      · rcases List.mem_cons.mp hs with rfl | hs
        · exact absurd hs' hname
        · exact .inr ⟨s, hs, hc, hs'⟩

theorem ensureIndexVersion_documents (index : Index H) (h : H) (stamp : Option EmbedderIdentity) :
    (ensureIndexVersion index h stamp).documents = index.documents := by
  unfold ensureIndexVersion
  split <;> rfl

/-- The documents a drive leaves are those its loop leaves. -/
theorem drive_documents (hash : List Entry → H) (index : Index H) (d : Drive) :
    (drive hash index d).documents = (ingestAll (buildRunner hash d) d.attempts
      (ensureIndexVersion index (buildRunner hash d).sourceVersionHash (buildRunner hash d).stamp)
      d.reached).1.documents := by
  unfold drive Drive.reached
  split
  · exact (ensureIndexVersion_documents _ _ _).symm
  · simp only
    split
    · rfl
    · split <;> rfl

/-- The row a drive leaves, if it starts at all. -/
theorem drive_row (hash : List Entry → H) (index : Index H) {d : Drive}
    (h : resolveSources d.mvpSources d.source ≠ none) :
    (drive hash index d).row = some
      { sourceVersionHash := if d.publishes then (buildRunner hash d).sourceVersionHash
          else (index.row.map IndexRow.sourceVersionHash).getD (buildRunner hash d).sourceVersionHash
        stamp := (buildRunner hash d).stamp.or (index.row.bind IndexRow.stamp) } := by
  have hensure : (ensureIndexVersion index (buildRunner hash d).sourceVersionHash
      (buildRunner hash d).stamp).row = some
        { sourceVersionHash :=
            (index.row.map IndexRow.sourceVersionHash).getD (buildRunner hash d).sourceVersionHash
          stamp := (buildRunner hash d).stamp.or (index.row.bind IndexRow.stamp) } := by
    unfold ensureIndexVersion
    cases index.row <;> simp
  obtain ⟨sources, hs⟩ := Option.ne_none_iff_exists'.mp h
  unfold drive
  rw [hs]
  simp only
  cases hstop : d.stopsAfter with
  | some n =>
    have hno : d.publishes = false := by simp [Drive.publishes, hs, hstop]
    simp only [ingestAll_row, hensure, hno, Bool.false_eq_true, if_false]
  | none =>
    have hclean := ingestAll_failed (buildRunner hash d) d.attempts sources
      (ensureIndexVersion index (buildRunner hash d).sourceVersionHash (buildRunner hash d).stamp)
    have hpub : d.publishes = (sources.all (completes d.attempts) &&
        fullCorpus d.mvpSources sources) := by simp [Drive.publishes, hs, hstop]
    simp only
    split
    · rename_i hfull
      simp only [Bool.and_eq_true, decide_eq_true_eq] at hfull
      have hyes : d.publishes = true := by
        rw [hpub, hfull.2, List.all_eq_true.mpr (hclean.mp hfull.1), Bool.and_self]
      simp only [advanceSourceVersionHash, ingestAll_row, hensure, hyes, if_true, Option.map_some]
    · rename_i hfull
      simp only [Bool.and_eq_true, decide_eq_true_eq, not_and, Bool.not_eq_true] at hfull
      have hno : d.publishes = false := by
        rw [hpub]
        by_cases hall : sources.all (completes d.attempts) = true
        · rw [hall, hfull (hclean.mpr (List.all_eq_true.mp hall)), Bool.and_false]
        · rw [Bool.eq_false_iff.mpr hall, Bool.false_and]
      simp only [ingestAll_row, hensure, hno, Bool.false_eq_true, if_false]

theorem mem_ingested {d : Drive} {source : SourceSpec} :
    source ∈ d.ingested ↔ source ∈ d.reached ∧ completes d.attempts source = true :=
  List.mem_filter

/-- A document after a drive is an old one of a source that the drive has not
ingested, or one that it has written. -/
theorem mem_drive {hash : List Entry → H} {index : Index H} {d : Drive} {document : Document}
    (h : document ∈ (drive hash index d).documents) :
    (document ∈ index.documents ∧ ∀ source ∈ d.ingested, document.sourceName ≠ source.name) ∨
      ∃ source ∈ d.ingested, ∃ ds, drafts source (d.attempts source) = .ok ds ∧
        Written document source (materializeChunks (buildRunner hash d).embedder source ds) := by
  rw [drive_documents] at h
  rcases mem_ingestAll d.reached _ h with ⟨hold, hne⟩ | ⟨source, hs, ds, hd, hw⟩
  · rw [ensureIndexVersion_documents] at hold
    refine .inl ⟨hold, fun source hs => ?_⟩
    obtain ⟨hreached, hc⟩ := mem_ingested.mp hs
    exact hne source hreached hc
  · refine .inr ⟨source, mem_ingested.mpr ⟨hs, ?_⟩, ds, hd, hw⟩
    simp only [completes, hd]

theorem drive_of_other {hash : List Entry → H} {index : Index H} {d : Drive} {document : Document}
    (h : document ∈ index.documents) (hne : ∀ source ∈ d.ingested, document.sourceName ≠ source.name) :
    document ∈ (drive hash index d).documents := by
  rw [drive_documents]
  refine ingestAll_of_other d.reached _ ?_ fun source hs hc => hne source (mem_ingested.mpr ⟨hs, hc⟩)
  rw [ensureIndexVersion_documents]
  exact h

theorem drive_present {hash : List Entry → H} {index : Index H} {d : Drive} {name : Str}
    (h : (∃ document ∈ index.documents, document.sourceName = name) ∨
      ∃ source ∈ d.ingested, source.name = name) :
    ∃ document ∈ (drive hash index d).documents, document.sourceName = name := by
  rw [drive_documents]
  refine ingestAll_present _ _ name d.reached _ ?_
  rw [ensureIndexVersion_documents]
  refine h.imp id fun ⟨source, hs, hname⟩ => ?_
  obtain ⟨hreached, hc⟩ := mem_ingested.mp hs
  exact ⟨source, hreached, hc, hname⟩

/-! ## The embedder that the stamp names -/

/-- Every vector of the index was made by the embedder its stamp names. -/
def Stamped (index : Index H) : Prop :=
  ∀ row ∈ index.row, ∀ stamp ∈ row.stamp, ∀ document ∈ index.documents,
    ∀ c ∈ document.chunks, ∀ e ∈ c.embedding, e.embedder = stamp

/-- The document holds a vector that another embedder made. -/
def Foreign (identity : EmbedderIdentity) (document : Document) : Prop :=
  ∃ c ∈ document.chunks, ∃ e ∈ c.embedding, e.embedder ≠ identity

/-- A drive that stamps the index ingests every document that holds a vector
of another embedder. -/
def Rebuilds (index : Index H) (d : Drive) : Prop :=
  resolveSources d.mvpSources d.source ≠ none → d.writeVectors = true →
    ∀ document ∈ index.documents, Foreign d.settings document →
      ∃ source ∈ d.ingested, document.sourceName = source.name

instance decidableStamped (index : Index H) : Decidable (Stamped index) :=
  inferInstanceAs (Decidable (∀ row ∈ index.row, ∀ stamp ∈ row.stamp,
    ∀ document ∈ index.documents, ∀ c ∈ document.chunks, ∀ e ∈ c.embedding, e.embedder = stamp))

instance decidableForeign (identity : EmbedderIdentity) (document : Document) :
    Decidable (Foreign identity document) :=
  inferInstanceAs (Decidable (∃ c ∈ document.chunks, ∃ e ∈ c.embedding, e.embedder ≠ identity))

instance decidableRebuilds (index : Index H) (d : Drive) : Decidable (Rebuilds index d) :=
  inferInstanceAs (Decidable (resolveSources d.mvpSources d.source ≠ none → d.writeVectors = true →
    ∀ document ∈ index.documents, Foreign d.settings document →
      ∃ source ∈ d.ingested, document.sourceName = source.name))

/-- **A drive under an embedder leaves the stamp right** exactly when it ingests
what another embedder has made. -/
theorem stamped_drive_iff (hash : List Entry → H) (index : Index H) {d : Drive}
    (hstart : resolveSources d.mvpSources d.source ≠ none) (hwrite : d.writeVectors = true) :
    Stamped (drive hash index d) ↔ Rebuilds index d := by
  have hrunner : (buildRunner hash d).stamp = some d.settings ∧
      (buildRunner hash d).embedder = some d.settings := by simp [buildRunner, hwrite]
  have hrow := drive_row hash index hstart
  rw [hrunner.1, Option.some_or] at hrow
  have hstamped : Stamped (drive hash index d) ↔
      ∀ document ∈ (drive hash index d).documents, ¬Foreign d.settings document := by
    constructor
    · rintro h document hdoc ⟨c, hc, e, he, hne⟩
      exact hne (h _ hrow _ rfl document hdoc c hc e he)
    · intro h row hr stamp hst document hdoc c hc e he
      rw [hrow] at hr
      obtain rfl := Option.mem_some_iff.mp hr
      obtain rfl : d.settings = stamp := Option.mem_some_iff.mp hst
      by_contra hne
      exact h document hdoc ⟨c, hc, e, he, hne⟩
  rw [hstamped]
  constructor
  · intro hall _ _ document hdoc hforeign
    by_contra hno
    exact hall document (drive_of_other hdoc fun source hs heq => hno ⟨source, hs, heq⟩) hforeign
  · intro hre document hdoc hforeign
    rcases mem_drive hdoc with ⟨hold, hne⟩ | ⟨source, _, ds, _, hw⟩
    · obtain ⟨source, hs, heq⟩ := hre hstart hwrite document hold hforeign
      exact hne source hs heq
    · obtain ⟨c, hc, e, he, hdiff⟩ := hforeign
      rw [hw.chunks, hrunner.2] at hc
      exact hdiff (Option.some.inj (embedder_of_materialized hc he)).symm

theorem stamped_drive {hash : List Entry → H} {index : Index H} {d : Drive} (h : Stamped index)
    (hre : Rebuilds index d) : Stamped (drive hash index d) := by
  by_cases hstart : resolveSources d.mvpSources d.source = none
  · have : drive hash index d = index := by
      unfold drive
      rw [hstart]
    rw [this]
    exact h
  by_cases hwrite : d.writeVectors = true
  · exact (stamped_drive_iff hash index hstart hwrite).mpr hre
  · -- nothing is stamped and nothing embedded
    have hrunner : (buildRunner hash d).stamp = none ∧ (buildRunner hash d).embedder = none := by
      simp [buildRunner, hwrite]
    intro row hr stamp hst document hdoc c hc e he
    rw [drive_row hash index hstart, hrunner.1, Option.none_or] at hr
    obtain rfl := Option.mem_some_iff.mp hr
    obtain ⟨old, hold, hstamp⟩ := Option.bind_eq_some_iff.mp (Option.mem_def.mp hst)
    rcases mem_drive hdoc with ⟨hmem, _⟩ | ⟨source, _, ds, _, hw⟩
    · exact h old hold stamp hstamp document hmem c hc e he
    · rw [hw.chunks, hrunner.2] at hc
      have := embedder_of_materialized hc he
      cases this

/-- The drives of a history, one after the other. -/
def driveStep (hash : List Entry → H) (index : Index H) (d : Drive) : Option (Index H) :=
  some (drive hash index d)

/-- **The stamp names the embedder of every vector**, in every history whose
drives ingest what another embedder has made. -/
theorem history_stamped {hash : List Entry → H} {index index' : Index H} {ds : List Drive}
    (h : Stamped index) (hre : Along (driveStep hash) Rebuilds index ds)
    (hrun : exec (driveStep hash) index ds = some index') : Stamped index' := by
  refine exec_invariant (fun index d index' h hre hstep => ?_) h hre hrun
  obtain rfl := Option.some.inj hstep
  exact stamped_drive h hre

/-! ## Two embedders -/

def emptyIndex : Index H := ⟨none, [], List.nodup_nil⟩

def twoSources : Allowlist where
  sources := [⟨['a'], [], ['A'], ['l'], [], none⟩, ⟨['b'], [], ['B'], ['l'], [], none⟩]
  nodup := by decide

/-- A drive of a deployment with two sources of one section, the first with the
given word. -/
def twoSourcesDrive (provider word : String) (source : Option Str) : Drive where
  settings := ⟨provider.toList, [], 1536⟩
  writeVectors := true
  mvpSources := twoSources
  hashed s := some (if s.name = ['a'] then "## S\n".toList ++ word.toList else "## S\nb".toList)
  source := source
  attempts s :=
    ⟨some (if s.name = ['a'] then "## S\n".toList ++ word.toList else "## S\nb".toList), true, true⟩
  stopsAfter := none

theorem history_stamped_rebuilt :
    ∃ index, exec (driveStep id) emptyIndex
      [twoSourcesDrive "stub" "x" none, twoSourcesDrive "gemini" "x" none] = some index ∧
      Stamped index := by
  have hre : Along (driveStep id) Rebuilds emptyIndex
      [twoSourcesDrive "stub" "x" none, twoSourcesDrive "gemini" "x" none] := by decide +kernel
  exact ⟨_, rfl, history_stamped (by decide) hre rfl⟩

/-- A drive of one source under another embedder stamps the vectors that the
first drive made. -/
theorem history_misstamped :
    ¬Stamped (drive id (drive id emptyIndex (twoSourcesDrive "stub" "x" none))
      (twoSourcesDrive "gemini" "x" (some ['a']))) := by
  decide +kernel

end CiteVyn.Worker
