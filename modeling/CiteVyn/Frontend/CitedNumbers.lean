import CiteVyn.Answer.Orchestrator
import CiteVyn.Frontend.SharedMarkers

/-! # The numbers of an answer, in the chat and in the backend

The chat links the numbers that `parseAnswer` reads as markers, and the backend makes a source
card for each that `_cited_markers` reads in the same text. They do not agree on what is code:
the chat pairs backticks over a paragraph and knows no fences, the backend goes line by line
and takes every number where all of them are in code. The chat reads ASCII digits only. -/
namespace CiteVyn.Frontend.CitedNumbers
open CiteVyn.Answer CiteVyn.Frontend.AnswerFormat CiteVyn.Frontend.SharedMarkers
open CiteVyn.Lib.Scan
open CiteVyn.Llm
open CiteVyn.Services.SharedAnswerPage (natText)
open CiteVyn.Text

/-- The values of the chat's markers. -/
def chatNumbers (num : Numbers) (text : Str) : List Str :=
  (markers (chatSpans text)).map fun digits => num.string (digitsText digits)

/-- `str(int(m))` for the backend's markers. -/
def backendNumbers (text : Str) : List Str := (citedMarkers text).map fun m => natText (digitsValue m)

/-! ## The backend's markers and their places -/

theorem citation_eq_bracketed (pre s : Str) :
    citation pre s = (bracketed id isDecimal s).map fun ds => ds.length + 2 := by
  cases s with
  | nil => rfl
  | cons c rest =>
    simp only [citation, bracketed, id_eq, List.head?_drop, Option.map_id]
    generalize rest.takeWhile (fun c => isDecimal c) = ds
    by_cases hopen : c = '['
    · by_cases hclose : rest[ds.length]? = some ']'
      · cases ds <;> simp_all
      · cases ds <;> simp_all
    · simp [hopen]

/-- The backend's regular expression finds the bracketed numbers. -/
theorem citations_eq (text : Str) : citations text = occurrences id isDecimal text := by
  refine pieces_rec (P := fun s ps => (hits ps).map citationDigits = occurrences id isDecimal s) citation_pre rfl
    (fun c s ps hgap ih => ?_) (fun s n ps hs hhit ih => ?_) text
  · rw [hits, ih, occurrences_cons]
    cases hb : bracketed id isDecimal (c :: s) with
    | none => rfl
    | some ds =>
      refine absurd ?_ (hgap (ds.length + 1))
      rw [citation_eq_bracketed, hb, Option.map_some]
  · rw [citation_eq_bracketed] at hhit
    obtain ⟨ds, hds, hn⟩ := Option.map_eq_some_iff.mp hhit
    cases s with
    | nil => cases hds
    | cons c rest =>
      rw [occurrences_bracketed (by decide) hds, hits, List.map_cons, ih, ← hn]
      obtain ⟨d, tail, rfl, -⟩ := bracketed_split hds
      have htake : (c :: (ds ++ d :: tail)).take (ds.length + 2) = c :: ds ++ [d] := by
        rw [List.append_cons, ← List.cons_append, ← List.cons_append]
        exact List.take_left' (by rw [List.length_append, List.length_cons, List.length_singleton])
      rw [htake]
      congr 1
      simp [citationDigits]

/-- The bracketed numbers of an answer, in any decimal digits. -/
def decimals (text : Str) : List (List Place) := occurrences Prod.fst isDecimal (places text)

/-- Those that `_strip_code` leaves. -/
def outsideCode (text : Str) : List (List Place) := decimals (maskCode text)

/-- Those that `_cited_markers` takes. -/
def taken (text : Str) : List (List Place) := if (outsideCode text).isEmpty then decimals text else outsideCode text

theorem decimals_digits (text : Str) : (decimals text).map digitsText = citations text := by
  have hmap : (places text).map Prod.fst = text := List.zipIdx_map_fst 0 text
  have hdigits : occurrences id isDecimal ((places text).map Prod.fst) = (decimals text).map digitsText :=
    occurrences_map (fun _ => rfl) (places text)
  rw [citations_eq, ← hdigits, hmap]

/-- `_cited_markers`, with the places of the markers. -/
theorem citedMarkers_eq (text : Str) : citedMarkers text = (taken text).map digitsText := by
  have hempty : (outsideCode text).isEmpty = (citations (maskCode text)).isEmpty := by
    rw [← decimals_digits, List.isEmpty_map]
    rfl
  unfold citedMarkers taken
  dsimp only
  rw [citations_stripCode, hempty]
  split
  · exact (decimals_digits text).symm
  · exact (decimals_digits (maskCode text)).symm

theorem breaks_codeMask (i : Nat) : Breaks Prod.fst isDecimal (codeMask, i) :=
  ⟨show codeMask ≠ '[' by decide, show codeMask ≠ ']' by decide, show isDecimal codeMask = false by decide⟩

/-- What is not struck out as code stands in the answer. -/
theorem outsideCode_subset {text : Str} {o : List Place} (h : o ∈ outsideCode text) : o ∈ decimals text := by
  have hmask : ∀ {m t : Str} (i : Nat), MaskOf m t →
      List.Forall₂ (fun p q => p = q ∨ Breaks Prod.fst isDecimal p) (m.zipIdx i) (t.zipIdx i) := by
    intro m t i hm
    induction hm generalizing i with
    | nil => exact .nil
    | cons hc _ ih =>
      refine .cons ?_ (ih (i + 1))
      rcases hc with rfl | rfl
      · exact .inl rfl
      · exact .inr (breaks_codeMask i)
  exact occurrences_masked isDecimal_close (hmask 0 (maskOf_maskCode text)) h

theorem taken_subset {text : Str} {o : List Place} (h : o ∈ taken text) : o ∈ decimals text := by
  unfold taken at h
  split at h
  · exact h
  · exact outsideCode_subset h

theorem isDecimal_of_isAsciiDigit {c : Char} (h : isAsciiDigit c = true) : isDecimal c = true := by
  simp only [isAsciiDigit, Bool.and_eq_true, decide_eq_true_eq, Char.le_def, UInt32.le_iff_toNat_le] at h
  change 48 ≤ c.toNat ∧ c.toNat ≤ 57 at h
  rw [isDecimal, decimalValue, Option.isSome_map, List.find?_isSome]
  refine ⟨48, by decide, ?_⟩
  rw [Bool.and_eq_true, decide_eq_true_eq, decide_eq_true_eq]
  omega

theorem numbers_subset {text : Str} {o : List Place} (h : o ∈ numbers text) : o ∈ decimals text := by
  have hdigits : ∀ c, isAsciiDigit c = true → isDecimal c = true := fun _ => isDecimal_of_isAsciiDigit
  exact occurrences_subset hdigits isDecimal_close h

/-- The chat's markers: the numbers outside its inline code. -/
theorem mem_markers_chatSpans {text : Str} {o : List Place} :
    o ∈ markers (chatSpans text) ↔ o ∈ numbers text ∧ o ∉ chatCode text := by
  have hchat : Stands (chatSpans text) (numbers text) (chatCode text) :=
    parseAnswer_stands Prod.fst rfl (places text)
  rw [Reads.markers_eq hchat (numbers_nodup text), List.mem_filter, Bool.and_true, Bool.not_eq_true', decide_eq_false_iff_not]

/-! ## Who reads a number where -/

/-- The number that the chat reads at a place. -/
def chatReads (num : Numbers) (text : Str) (o : List Place) : Option Str :=
  if o ∈ numbers text ∧ o ∉ chatCode text then some (num.string (digitsText o)) else none

/-- The number that the backend reads at a place. -/
def backendReads (text : Str) (o : List Place) : Option Str :=
  if o ∈ taken text then some (natText (digitsValue (digitsText o))) else none

theorem mem_chatNumbers (num : Numbers) (text n : Str) :
    n ∈ chatNumbers num text ↔ ∃ o ∈ decimals text, chatReads num text o = some n := by
  rw [chatNumbers, List.mem_map]
  constructor
  · rintro ⟨o, ho, rfl⟩
    have hread := mem_markers_chatSpans.mp ho
    refine ⟨o, numbers_subset hread.1, ?_⟩
    rw [chatReads, if_pos hread]
  · rintro ⟨o, -, hreads⟩
    unfold chatReads at hreads
    split at hreads
    · rename_i h
      exact ⟨o, mem_markers_chatSpans.mpr h, Option.some.inj hreads⟩
    · cases hreads

theorem mem_backendNumbers (text n : Str) :
    n ∈ backendNumbers text ↔ ∃ o ∈ decimals text, backendReads text o = some n := by
  rw [backendNumbers, citedMarkers_eq, List.map_map, List.mem_map]
  constructor
  · rintro ⟨o, ho, rfl⟩
    refine ⟨o, taken_subset ho, ?_⟩
    rw [backendReads, if_pos ho]
    rfl
  · rintro ⟨o, -, hreads⟩
    unfold backendReads at hreads
    split at hreads
    · rename_i h
      exact ⟨o, h, Option.some.inj hreads⟩
    · cases hreads

/-- Two readings give the same numbers if, wherever they read a place differently, the number
of each is read by the other somewhere. -/
theorem same_readings {A B : Type} {places : List A} (f g : A → Option B) :
    (∀ n, (∃ o ∈ places, f o = some n) ↔ ∃ o ∈ places, g o = some n) ↔
      ∀ o ∈ places, f o ≠ g o →
        (∀ n, f o = some n → ∃ o' ∈ places, g o' = some n) ∧ ∀ n, g o = some n → ∃ o' ∈ places, f o' = some n := by
  constructor
  · intro h o ho _
    exact ⟨fun n hn => (h n).mp ⟨o, ho, hn⟩, fun n hn => (h n).mpr ⟨o, ho, hn⟩⟩
  · intro h n
    constructor
    · rintro ⟨o, ho, hn⟩
      by_cases heq : f o = g o
      · exact ⟨o, ho, heq ▸ hn⟩
      · exact (h o ho heq).1 n hn
    · rintro ⟨o, ho, hn⟩
      by_cases heq : f o = g o
      · exact ⟨o, ho, heq.trans hn⟩
      · exact (h o ho heq).2 n hn

/-- The chat shows the numbers that it reads outside its inline code, the backend has cards
for those that `_cited_markers` takes, and the numbers are the same exactly if, wherever the
two read a place differently, the number of each is read by the other somewhere. -/
theorem cited_numbers (num : Numbers) (text : Str) :
    (∀ n, n ∈ chatNumbers num text ↔ ∃ o ∈ decimals text, chatReads num text o = some n) ∧
    (∀ n, n ∈ backendNumbers text ↔ ∃ o ∈ decimals text, backendReads text o = some n) ∧
    ((∀ n, n ∈ chatNumbers num text ↔ n ∈ backendNumbers text) ↔
      ∀ o ∈ decimals text, chatReads num text o ≠ backendReads text o →
        (∀ n, chatReads num text o = some n → ∃ o' ∈ decimals text, backendReads text o' = some n) ∧
        ∀ n, backendReads text o = some n → ∃ o' ∈ decimals text, chatReads num text o' = some n) := by
  refine ⟨mem_chatNumbers num text, mem_backendNumbers text, ?_⟩
  simp only [mem_chatNumbers, mem_backendNumbers]
  exact same_readings (chatReads num text) (backendReads text)

/-! ## An answer on which they differ -/

/-- The model answers with its one marker in inline code. -/
def codeText : Str := "See `[1]`.".toList

def codeEnv : Env := { flagEnv with generate := fun _ _ => .ok codeText }

theorem ask_codeText : ∃ o, ask flagSettings codeEnv flagRoute = .ok o ∧ o.outcome = "answer" ∧ o.response.answer = codeText := by
  have hserved : (match ask flagSettings codeEnv flagRoute with
      | .ok o => o.outcome == "answer" && o.response.answer == codeText
      | .error _ => false) = true := by decide +kernel
  cases hask : ask flagSettings codeEnv flagRoute with
  | error e =>
    rw [hask] at hserved
    cases hserved
  | ok o =>
    rw [hask] at hserved
    obtain ⟨houtcome, hanswer⟩ := Bool.and_eq_true_iff.mp hserved
    exact ⟨o, rfl, beq_iff_eq.mp houtcome, beq_iff_eq.mp hanswer⟩

/-- The backend serves a card for the number, the chat shows it as code. -/
theorem numbers_differ :
    ¬ ∀ (num : Numbers) (s : Settings) (env : Env) (route : Route) (o : Outcome),
      ask s env route = .ok o → o.outcome = "answer" →
        ∀ n, n ∈ chatNumbers num o.response.answer ↔ n ∈ backendNumbers o.response.answer := by
  intro h
  obtain ⟨o, hask, houtcome, hanswer⟩ := ask_codeText
  have hsame := h Numbers.plain _ _ _ o hask houtcome ['1']
  rw [hanswer] at hsame
  exact absurd hsame (by decide +kernel)

end CiteVyn.Frontend.CitedNumbers
