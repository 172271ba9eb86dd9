import CiteVyn.Text.Dates
import CiteVyn.Worker.Drive

/-! # What the corpus fingerprint tells apart

`content_version_hash` of `app/worker/cli.py` hashes the sources one after the other, with
control characters between their fields that a text may hold itself, and a text of its own
for a source that cannot be fetched. -/
namespace CiteVyn.Worker
open CiteVyn.Text

/-- A list of sources, with what is fetched of each. -/
structure Corpus where
  sources : List SourceSpec
  fetched : SourceSpec → Option Str
  dated : ∀ s ∈ sources, ∀ day, s.contentAsOf = some day → IsDate day

/-- The bytes that `content_version_hash` hands to SHA-256. -/
def Corpus.hashed (c : Corpus) : ByteArray := (String.ofList (corpusStream (corpusEntries c.sources c.fetched))).toUTF8

/-- The name and the date of a source, and its text if it is fetched. -/
def Corpus.records (c : Corpus) : List (Str × Option Str × Option Str) :=
  c.sources.map fun s => (s.name, s.contentAsOf, c.fetched s)

/-- The fields of a source in the order they are hashed. -/
def fields (name day text : Str) : Str := name ++ '\x1f' :: day ++ '\x1f' :: text

/-- There is no source, or one: it is fetched, its text is not what stands for a source that
is not, and between two separators in its fields a date or nothing stands only where its own
date does. -/
def Corpus.Told (c : Corpus) : Prop :=
  c.sources = [] ∨ ∃ s text, c.sources = [s] ∧ c.fetched s = some text ∧ text ≠ unfetchableSentinel ∧
    ∀ name day rest, fields s.name (s.contentAsOf.getD []) text = fields name day rest → day = [] ∨ IsDate day →
      name = s.name

/-! ## The stream -/

theorem corpusStream_cons (e : Entry) (es : List Entry) :
    corpusStream (e :: es) = fields e.name e.contentAsOf e.text ++ '\x1e' :: corpusStream es := by
  simp [corpusStream, fields]

theorem hashed_eq_iff {c d : Corpus} :
    c.hashed = d.hashed ↔
      corpusStream (corpusEntries c.sources c.fetched) = corpusStream (corpusEntries d.sources d.fetched) := by
  unfold Corpus.hashed
  rw [String.toUTF8, String.toUTF8, String.toByteArray_inj, String.ofList_inj]

theorem separator_not_mem {day : Str} (h : day = [] ∨ IsDate day) : '\x1f' ∉ day := by
  rcases h with rfl | ⟨d, rfl⟩
  · exact List.not_mem_nil
  · intro hmem
    rcases mem_isoformat hmem with hdigit | heq
    · cases hdigit
    · exact absurd heq (by decide)

/-- With one name the fields are the same. -/
theorem fields_inj {name day day' text text' : Str} (hday : day = [] ∨ IsDate day) (hday' : day' = [] ∨ IsDate day')
    (h : fields name day text = fields name day' text') : day = day' ∧ text = text' := by
  unfold fields at h
  rw [List.append_assoc, List.append_assoc, List.append_cancel_left_eq] at h
  exact cut_inj (separator_not_mem hday) (separator_not_mem hday') (List.cons.inj h).2

/-! ## One source -/

/-- A source of which only the name and the date count. -/
def lone (name : Str) (day : Option Str) : SourceSpec := ⟨name, [], [], [], [], day⟩

/-- The corpus of one source. -/
def Corpus.one (name : Str) (day : Option Str) (hday : ∀ d, day = some d → IsDate d) (fetched : Option Str) : Corpus where
  sources := [lone name day]
  fetched _ := fetched
  dated s hs := by
    obtain rfl := List.mem_singleton.mp hs
    exact hday

theorem corpusStream_singleton (s : SourceSpec) (fetched : SourceSpec → Option Str) :
    corpusStream (corpusEntries [s] fetched) =
      fields s.name (s.contentAsOf.getD []) ((fetched s).getD unfetchableSentinel) ++ ['\x1e'] :=
  corpusStream_cons (entryOf s (fetched s)) []

theorem getD_date {day : Option Str} (h : ∀ d, day = some d → IsDate d) : day.getD [] = [] ∨ IsDate (day.getD []) := by
  cases day with
  | none => exact .inl rfl
  | some d => exact .inr (h d rfl)

theorem date_ne_nil {day : Str} (h : IsDate day) : day ≠ [] := by
  obtain ⟨d, rfl⟩ := h
  exact isoformat_ne_nil _ _ _

theorem getD_inj {day day' : Option Str} (h : ∀ d, day = some d → IsDate d) (h' : ∀ d, day' = some d → IsDate d)
    (heq : day.getD [] = day'.getD []) : day = day' := by
  cases day with
  | none =>
    cases day' with
    | none => rfl
    | some d => exact absurd heq.symm (date_ne_nil (h' d rfl))
  | some d =>
    cases day' with
    | none => exact absurd heq (date_ne_nil (h d rfl))
    | some e => exact congrArg some heq

/-! ## What is told apart -/

theorem length_corpusEntries (sources : List SourceSpec) (fetched : SourceSpec → Option Str) :
    (corpusEntries sources fetched).length = sources.length := by
  rw [corpusEntries, List.length_map, List.length_insertionSort]

theorem mem_of_mem_corpusEntries {sources : List SourceSpec} {fetched : SourceSpec → Option Str} {e : Entry}
    (h : e ∈ corpusEntries sources fetched) : ∃ s ∈ sources, e = entryOf s (fetched s) := by
  obtain ⟨s, hs, rfl⟩ := List.mem_map.mp h
  exact ⟨s, (List.mem_insertionSort _).mp hs, rfl⟩

theorem corpusEntries_eq_nil {sources : List SourceSpec} {fetched : SourceSpec → Option Str}
    (h : corpusEntries sources fetched = []) : sources = [] := by
  rw [← List.length_eq_zero_iff, ← length_corpusEntries sources fetched, h, List.length_nil]

theorem corpusStream_ne_nil (e : Entry) (es : List Entry) : corpusStream (e :: es) ≠ [] := by
  rw [corpusStream_cons]
  exact List.append_ne_nil_of_right_ne_nil _ (List.cons_ne_nil _ _)

/-- A stream ends with the separator of its last source. -/
theorem corpusStream_concat (e : Entry) (es : List Entry) : ∃ x, corpusStream (e :: es) = x ++ ['\x1e'] := by
  induction es generalizing e with
  | nil => exact ⟨_, corpusStream_cons e []⟩
  | cons f es ih =>
    obtain ⟨x, hx⟩ := ih f
    exact ⟨fields e.name e.contentAsOf e.text ++ '\x1e' :: x, by rw [corpusStream_cons, hx, List.append_assoc]; rfl⟩

theorem fields_append (name day text rest : Str) : fields name day (text ++ rest) = fields name day text ++ rest := by
  simp [fields]

/-- Where no separator is out of place, one source alone has its bytes. -/
theorem entries_of_one {name day text : Str} (hday : day = [] ∨ IsDate day)
    (honly : ∀ name' day' rest, fields name day text = fields name' day' rest → day' = [] ∨ IsDate day' → name' = name)
    {es : List Entry} (hes : ∀ e ∈ es, e.contentAsOf = [] ∨ IsDate e.contentAsOf)
    (h : corpusStream es = fields name day text ++ ['\x1e']) : es = [⟨name, day, text⟩] := by
  cases es with
  | nil =>
    have hlen := congrArg List.length h
    rw [List.length_append] at hlen
    cases hlen
  | cons e es =>
    have he := hes e List.mem_cons_self
    rw [corpusStream_cons] at h
    cases es with
    | nil =>
      obtain ⟨hfields, -⟩ := List.append_inj' h rfl
      have hname := honly _ _ _ hfields.symm he
      rw [hname] at hfields
      obtain ⟨hdate, htext⟩ := fields_inj he hday hfields
      rw [← hname, ← hdate, ← htext]
    | cons f es =>
      have hf := hes f (List.mem_cons_of_mem _ List.mem_cons_self)
      obtain ⟨x, hx⟩ : ∃ x, '\x1e' :: corpusStream es = x ++ ['\x1e'] := by
        cases es with
        | nil => exact ⟨[], rfl⟩
        | cons g es =>
          obtain ⟨x, hx⟩ := corpusStream_concat g es
          exact ⟨'\x1e' :: x, by rw [hx]; rfl⟩
      -- the fields of the source, split at the first and at the second source
      have hwhole : fields name day text =
          fields (fields e.name e.contentAsOf e.text ++ '\x1e' :: f.name) f.contentAsOf (f.text ++ x) := by
        have hcut : fields e.name e.contentAsOf e.text ++ '\x1e' :: (fields f.name f.contentAsOf f.text ++ x) ++ ['\x1e'] =
            fields name day text ++ ['\x1e'] := by
          rw [← h, corpusStream_cons, hx, List.append_assoc, List.cons_append, List.append_assoc]
        rw [← (List.append_inj' hcut rfl).1, fields_append]
        simp [fields]
      have hfirst := honly _ _ _ (hwhole.trans (by simp only [fields, List.append_assoc, List.cons_append]) :
        fields name day text = fields e.name e.contentAsOf (e.text ++ '\x1e' :: fields f.name f.contentAsOf (f.text ++ x))) he
      have hsecond := honly _ _ _ hwhole hf
      have hlen := congrArg List.length hsecond
      rw [← hfirst] at hlen
      simp only [fields, List.length_append, List.length_cons] at hlen
      omega

theorem Corpus.dated_entries (c : Corpus) :
    ∀ e ∈ corpusEntries c.sources c.fetched, e.contentAsOf = [] ∨ IsDate e.contentAsOf := by
  intro e he
  obtain ⟨s, hs, rfl⟩ := mem_of_mem_corpusEntries he
  exact getD_date (c.dated s hs)

theorem records_of_told {c d : Corpus} (h : c.Told) (heq : d.hashed = c.hashed) : d.records.Perm c.records := by
  rw [hashed_eq_iff] at heq
  rcases h with hnil | ⟨s, text, hone, hfetched, hreal, honly⟩
  · rw [hnil] at heq
    have hempty : d.sources = [] := by
      cases hes : corpusEntries d.sources d.fetched with
      | nil => exact corpusEntries_eq_nil hes
      | cons e es =>
        rw [hes] at heq
        exact absurd heq (corpusStream_ne_nil e es)
    rw [Corpus.records, Corpus.records, hnil, hempty]
    exact .nil
  · have hdate := c.dated s (by rw [hone]; exact List.mem_cons_self)
    rw [hone, corpusStream_singleton, hfetched, Option.getD_some] at heq
    have hes := entries_of_one (getD_date hdate) honly d.dated_entries heq
    have hlen := length_corpusEntries d.sources d.fetched
    rw [hes] at hlen
    obtain ⟨t, ht⟩ := List.length_eq_one_iff.mp hlen.symm
    rw [ht] at hes
    have hentry : entryOf t (d.fetched t) = ⟨s.name, s.contentAsOf.getD [], text⟩ := List.singleton_inj.mp hes
    obtain ⟨hname, hday, htext⟩ := Entry.mk.inj hentry
    have hread : d.fetched t = some text := by
      cases hnone : d.fetched t with
      | none =>
        rw [hnone] at htext
        exact absurd htext.symm hreal
      | some other =>
        rw [hnone] at htext
        exact congrArg some htext
    have hsame : t.contentAsOf = s.contentAsOf := getD_inj (d.dated t (by rw [ht]; exact List.mem_cons_self)) hdate hday
    rw [Corpus.records, Corpus.records, hone, ht, List.map_singleton, List.map_singleton, hname, hsame, hread, hfetched]

theorem told_of_records {c : Corpus} (h : ∀ d : Corpus, d.hashed = c.hashed → d.records.Perm c.records) : c.Told := by
  match hsources : c.sources with
  | [] => exact .inl hsources
  | [s] =>
    have hdate := c.dated s (by rw [hsources]; exact List.mem_cons_self)
    have hrecords : c.records = [(s.name, s.contentAsOf, c.fetched s)] := by rw [Corpus.records, hsources]; rfl
    -- a corpus of one source with the same bytes has the same record
    have hone (name : Str) (day fetched : Option Str) (hday : ∀ d, day = some d → IsDate d)
        (heq : fields name (day.getD []) (fetched.getD unfetchableSentinel) =
          fields s.name (s.contentAsOf.getD []) ((c.fetched s).getD unfetchableSentinel)) :
        (name, day, fetched) = (s.name, s.contentAsOf, c.fetched s) := by
      have hhashed : (Corpus.one name day hday fetched).hashed = c.hashed := by
        rw [hashed_eq_iff, hsources, corpusStream_singleton]
        exact (corpusStream_singleton _ _).trans (congrArg (· ++ ['\x1e']) heq)
      have hperm := h _ hhashed
      rw [hrecords] at hperm
      exact List.singleton_inj.mp (List.perm_singleton.mp hperm)
    have hread : ∃ text, c.fetched s = some text := by
      cases hnone : c.fetched s with
      | some text => exact ⟨text, rfl⟩
      | none =>
        have := hone _ _ (some unfetchableSentinel) hdate (by rw [hnone]; rfl)
        rw [hnone] at this
        cases (Prod.mk.inj (Prod.mk.inj this).2).2
    obtain ⟨text, htext⟩ := hread
    refine .inr ⟨s, text, hsources, htext, ?_, ?_⟩
    · rintro rfl
      have := hone _ _ none hdate (by rw [htext]; rfl)
      rw [htext] at this
      cases (Prod.mk.inj (Prod.mk.inj this).2).2
    · intro name day rest heq hday
      have hfields : fields s.name (s.contentAsOf.getD []) ((c.fetched s).getD unfetchableSentinel) = fields name day rest := by
        rw [htext]
        exact heq
      rcases hday with rfl | hday
      · exact (Prod.mk.inj (hone _ none (some rest) (fun _ h => by cases h) hfields.symm)).1
      · have hdated : ∀ d, some day = some d → IsDate d := by
          intro d hd
          obtain rfl := Option.some.inj hd
          exact hday
        exact (Prod.mk.inj (hone _ _ (some rest) hdated hfields.symm)).1
  | s :: t :: rest =>
    have hlen := length_corpusEntries c.sources c.fetched
    rw [hsources] at hlen
    obtain ⟨e, f, es, hes⟩ : ∃ e f es, corpusEntries c.sources c.fetched = e :: f :: es := by
      rw [hsources]
      match corpusEntries (s :: t :: rest) c.fetched, hlen with
      | e :: f :: es, _ => exact ⟨e, f, es, rfl⟩
    obtain ⟨u, hu, rfl⟩ : ∃ u ∈ c.sources, e = entryOf u (c.fetched u) :=
      mem_of_mem_corpusEntries (by rw [hes]; exact List.mem_cons_self)
    obtain ⟨x, hx⟩ := corpusStream_concat f es
    -- one source whose text spells out all the others
    let merged := Corpus.one u.name u.contentAsOf (c.dated u hu) (some ((c.fetched u).getD unfetchableSentinel ++ '\x1e' :: x))
    have hhashed : merged.hashed = c.hashed := by
      rw [hashed_eq_iff, hes, corpusStream_cons, hx]
      refine (corpusStream_singleton _ _).trans ?_
      show fields u.name (u.contentAsOf.getD []) (_ ++ '\x1e' :: x) ++ _ = _
      rw [fields_append, List.append_assoc]
      rfl
    have hlength := (h merged hhashed).length_eq
    rw [Corpus.records, Corpus.records, hsources, List.length_map, List.length_map] at hlength
    cases hlength

/-- Which corpora have bytes of their own. -/
theorem hashed_tells_iff (c : Corpus) : (∀ d : Corpus, d.hashed = c.hashed → d.records.Perm c.records) ↔ c.Told :=
  ⟨told_of_records, fun h _ => records_of_told h⟩

/-! ## Corpora without separators -/

/-- No name has the separator of fields, and no text that of sources. -/
def Corpus.Clean (c : Corpus) : Prop :=
  ∀ s ∈ c.sources, '\x1f' ∉ s.name ∧ ∀ text, c.fetched s = some text → '\x1e' ∉ text ∧ text ≠ unfetchableSentinel

theorem corpusStream_inj {es es' : List Entry} (hes : ∀ e ∈ es, '\x1f' ∉ e.name ∧ '\x1f' ∉ e.contentAsOf ∧ '\x1e' ∉ e.text)
    (hes' : ∀ e ∈ es', '\x1f' ∉ e.name ∧ '\x1f' ∉ e.contentAsOf ∧ '\x1e' ∉ e.text)
    (h : corpusStream es = corpusStream es') : es = es' := by
  induction es generalizing es' with
  | nil =>
    cases es' with
    | nil => rfl
    | cons e es' => exact absurd h.symm (corpusStream_ne_nil e es')
  | cons e es ih =>
    cases es' with
    | nil => exact absurd h (corpusStream_ne_nil e es)
    | cons e' es' =>
      obtain ⟨⟨hname, hday, htext⟩, hes⟩ := List.forall_mem_cons.mp hes
      obtain ⟨⟨hname', hday', htext'⟩, hes'⟩ := List.forall_mem_cons.mp hes'
      simp only [corpusStream_cons, fields, List.append_assoc, List.cons_append] at h
      obtain ⟨heq, h⟩ := cut_inj hname hname' h
      obtain ⟨heq', h⟩ := cut_inj hday hday' h
      obtain ⟨heq'', h⟩ := cut_inj htext htext' h
      have hentry : e = e' := by
        cases e
        cases e'
        exact Entry.mk.injEq .. ▸ ⟨heq, heq', heq''⟩
      rw [hentry, ih hes hes' h]

theorem Corpus.Clean.entries {c : Corpus} (h : c.Clean) :
    ∀ e ∈ corpusEntries c.sources c.fetched, '\x1f' ∉ e.name ∧ '\x1f' ∉ e.contentAsOf ∧ '\x1e' ∉ e.text := by
  intro e he
  obtain ⟨s, hs, rfl⟩ := mem_of_mem_corpusEntries he
  refine ⟨(h s hs).1, separator_not_mem (getD_date (c.dated s hs)), ?_⟩
  show '\x1e' ∉ (c.fetched s).getD unfetchableSentinel
  cases hread : c.fetched s with
  | none => decide
  | some text => exact ((h s hs).2 text hread).1

/-- Where no name or text holds a separator of its own, the bytes tell all corpora apart. -/
theorem records_of_clean {c d : Corpus} (hc : c.Clean) (hd : d.Clean) (h : d.hashed = c.hashed) :
    d.records.Perm c.records := by
  have hentries := corpusStream_inj hd.entries hc.entries (hashed_eq_iff.mp h)
  have hrecords : ∀ (l m : List SourceSpec), (∀ s ∈ l, s ∈ d.sources) → (∀ s ∈ m, s ∈ c.sources) →
      l.map (fun s => entryOf s (d.fetched s)) = m.map (fun s => entryOf s (c.fetched s)) →
      l.map (fun s => (s.name, s.contentAsOf, d.fetched s)) = m.map fun s => (s.name, s.contentAsOf, c.fetched s) := by
    intro l
    induction l with
    | nil =>
      intro m _ _ heq
      rw [List.map_eq_nil_iff.mp heq.symm]
      rfl
    | cons s l ih =>
      intro m hl hm heq
      cases m with
      | nil => cases heq
      | cons t m =>
        obtain ⟨hs, hl⟩ := List.forall_mem_cons.mp hl
        obtain ⟨ht, hm⟩ := List.forall_mem_cons.mp hm
        obtain ⟨hentry, heq⟩ := List.cons.inj heq
        obtain ⟨hname, hday, htext⟩ := Entry.mk.inj hentry
        have hread : d.fetched s = c.fetched t := by
          cases hs' : d.fetched s with
          | none =>
            cases ht' : c.fetched t with
            | none => rfl
            | some text =>
              rw [hs', ht'] at htext
              exact absurd htext.symm ((hc t ht).2 text ht').2
          | some text =>
            cases ht' : c.fetched t with
            | none =>
              rw [hs', ht'] at htext
              exact absurd htext ((hd s hs).2 text hs').2
            | some other =>
              rw [hs', ht'] at htext
              exact congrArg some htext
        rw [List.map_cons, List.map_cons, ih m hl hm heq, hname, hread, getD_inj (d.dated s hs) (c.dated t ht) hday]
  have hsorted := hrecords _ _ (fun s => (List.mem_insertionSort _).mp) (fun s => (List.mem_insertionSort _).mp) hentries
  have hperm (l : List SourceSpec) := List.perm_insertionSort (fun a b : SourceSpec => a.name ≤ b.name) l
  have hd := (hperm d.sources).map fun s => (s.name, s.contentAsOf, d.fetched s)
  have hc := (hperm c.sources).map fun s => (s.name, s.contentAsOf, c.fetched s)
  exact hd.symm.trans ((List.Perm.of_eq hsorted).trans hc)

/-! ## A separator in a text -/

/-- Two sources, fetched as two texts. -/
def Corpus.pair (a b : Str) : Corpus where
  sources := [lone ['a'] none, lone ['b'] none]
  fetched s := if s.name = ['a'] then some a else some b
  dated s hs := by
    rcases List.mem_cons.mp hs with rfl | hs
    · exact fun _ h => by cases h
    · rw [List.mem_singleton.mp hs]
      exact fun _ h => by cases h

/-- A separator that moves from one text to the next moves what it separates. -/
theorem hashed_moved : ¬∀ c d : Corpus, d.hashed = c.hashed → d.records.Perm c.records := by
  intro h
  have hhashed : (Corpus.pair "x".toList "y\x1eb\x1f\x1fz".toList).hashed =
      (Corpus.pair "x\x1eb\x1f\x1fy".toList "z".toList).hashed := hashed_eq_iff.mpr (by decide)
  exact absurd (h _ _ hhashed) (by decide)

end CiteVyn.Worker
