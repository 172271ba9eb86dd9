import CiteVyn.Worker.Drive

/-! # The corpus that the published hash names

The hash on an index version's row is published at the end of a clean run over
the whole corpus. A run that covers a part of it, or fails in part, leaves the
hash where it was: until then it names the corpus that the last clean run has
ingested, and the index holds that corpus as far as nothing else was ingested
since. -/
namespace CiteVyn.Worker
open CiteVyn.Lib.Runs CiteVyn.Text

variable {H : Type*}

/-- The index holds one document of the source, as ingesting the text writes it
under some embedder. -/
structure Holds (index : Index H) (source : SourceSpec) (text : Str) : Prop where
  present : ∃ document ∈ index.documents, document.sourceName = source.name
  exact : ∀ document ∈ index.documents, document.sourceName = source.name →
    ∃ embedder, Written document source (materializeChunks embedder source (draftsOf source text))

/-- What the second drive ingests has the entry and the text of the first one's
corpus. -/
def Agrees (d d' : Drive) : Prop :=
  ∀ source ∈ d'.ingested, source ∈ d.mvpSources.sources ∧
    (d'.attempts source).fetched = (d.attempts source).fetched

theorem Allowlist.unique {mvpSources : Allowlist} {s s' : SourceSpec}
    (hs : s ∈ mvpSources.sources) (hs' : s' ∈ mvpSources.sources) (hname : s.name = s'.name) :
    s = s' :=
  List.inj_on_of_nodup_map mvpSources.nodup hs hs' hname

theorem resolveSources_subset {mvpSources : Allowlist} {name : Option Str} {sources : List SourceSpec}
    (h : resolveSources mvpSources name = some sources) : sources ⊆ mvpSources.sources := by
  cases name with
  | none =>
    obtain rfl := Option.some.inj h
    exact List.Subset.refl _
  | some name =>
    obtain ⟨source, hs, rfl⟩ := Option.map_eq_some_iff.mp h
    intro s hmem
    rw [List.mem_singleton.mp hmem]
    exact List.mem_of_find?_eq_some hs

/-- A drive that ingests a source again with the same text, or not at all,
leaves it held. -/
theorem Holds.drive {hash : List Entry → H} {index : Index H} {d : Drive} {source : SourceSpec}
    {text : Str} (h : Holds index source text)
    (hsame : ∀ s ∈ d.ingested, s.name = source.name →
      s = source ∧ (d.attempts s).fetched = some text) : Holds (drive hash index d) source text where
  present := drive_present (.inl h.present)
  exact document hdoc hname := by
    rcases mem_drive hdoc with ⟨hold, _⟩ | ⟨s, hs, ds, hd, hw⟩
    · exact h.exact document hold hname
    · obtain ⟨rfl, htext⟩ := hsame s hs (hw.sourceName.symm.trans hname)
      obtain ⟨text', htext', rfl, _⟩ := drafts_ok hd
      rw [htext] at htext'
      obtain rfl := Option.some.inj htext'
      exact ⟨_, hw⟩

/-- One run of a source keeps what the index holds of the others. -/
theorem Holds.put {index : Index H} {source s : SourceSpec} {text : Str} {chunks : List Chunk}
    (h : Holds index s text) (hne : s.name ≠ source.name) :
    Holds (index.put source chunks) s text where
  present := by
    obtain ⟨document, hdoc, hname⟩ := h.present
    exact ⟨document, put_of_other chunks hdoc fun he => hne (hname.symm.trans he), hname⟩
  exact document hdoc hname := by
    rcases mem_put hdoc with ⟨hold, _⟩ | hw
    · exact h.exact document hold hname
    · exact absurd (hname.symm.trans hw.sourceName) hne

theorem holds_put (index : Index H) (embedder : Option EmbedderIdentity) (source : SourceSpec)
    (text : Str) :
    Holds (index.put source (materializeChunks embedder source (draftsOf source text))) source text
    where
  present := by
    obtain ⟨document, hdoc, hw⟩ :=
      exists_written index source (materializeChunks embedder source (draftsOf source text))
    exact ⟨document, hdoc, hw.sourceName⟩
  exact document hdoc hname := by
    rcases mem_put hdoc with ⟨_, hne⟩ | hw
    · exact absurd hname hne
    · exact ⟨embedder, hw⟩

/-- The hash moves when the row is created and at the end of a clean run over
the corpus, at no other time. -/
theorem drive_keeps_hash {hash : List Entry → H} {index : Index H} {row : IndexRow H} {d : Drive}
    (hrow : index.row = some row) (h : d.publishes = false) :
    ∃ row' ∈ (drive hash index d).row, row'.sourceVersionHash = row.sourceVersionHash := by
  by_cases hstart : resolveSources d.mvpSources d.source = none
  · refine ⟨row, ?_, rfl⟩
    rw [Worker.drive, hstart]
    exact hrow
  · exact ⟨_, drive_row hash index hstart, by simp [h, hrow]⟩

/-- The state after a clean run over the corpus, and after drives that agree
with it. -/
structure Published (hash : List Entry → H) (d : Drive) (index : Index H) : Prop where
  row : ∃ row, index.row = some row ∧
    row.sourceVersionHash = contentVersionHash hash d.mvpSources.sources d.hashed
  holds : ∀ source ∈ d.mvpSources.sources, ∃ text, (d.attempts source).fetched = some text ∧
    Holds index source text

theorem Published.drive {hash : List Entry → H} {index : Index H} {d d' : Drive}
    (h : Published hash d index) (hno : d'.publishes = false) (hsame : Agrees d d') :
    Published hash d (Worker.drive hash index d') where
  row := by
    obtain ⟨row, hrow, hhash⟩ := h.row
    have hkept : ∃ row' ∈ (Worker.drive hash index d').row,
        row'.sourceVersionHash = row.sourceVersionHash := drive_keeps_hash hrow hno
    obtain ⟨row', hrow', hkeep⟩ := hkept
    exact ⟨row', hrow', hkeep.trans hhash⟩
  holds source hs := by
    obtain ⟨text, htext, hholds⟩ := h.holds source hs
    refine ⟨text, htext, hholds.drive fun s hs' hname => ?_⟩
    obtain ⟨hmem, hfetched⟩ := hsame s hs'
    obtain rfl := Allowlist.unique hmem hs hname
    exact ⟨rfl, hfetched.trans htext⟩

end CiteVyn.Worker
