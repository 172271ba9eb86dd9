import CiteVyn.Frontend.AnswerFormat
import CiteVyn.Services.SharedAnswerPage

/-! # The chat and the page of a shared answer

Both read the Markdown subset of an answer. Each takes the bracketed numbers outside its
inline code for citation markers, the page those of at most three digits; but the two do
not always agree where inline code is. -/
namespace CiteVyn.Frontend.SharedMarkers
open CiteVyn.Frontend.AnswerFormat
open CiteVyn.Lib.Markup
open CiteVyn.Lib.Scan
open CiteVyn.Services.SharedAnswerPage
open CiteVyn.Text
open CiteVyn.Worker (isLineEnd)

/-! ## What the page reads -/

section Page
variable {G : Type} (ch : G → Char)

/-- The markers inside bold. -/
def boldMarkers (bold : List G) : List (List G) :=
  (pieces (markerToken ch) bold).flatMap fun
    | .gap _ => []
    | .hit w => [w.tail.dropLast]

/-- The markers of a text, by their digits. -/
def inlineMarkers (text : List G) : List (List G) :=
  (pieces (inlineToken ch) text).flatMap fun
    | .gap _ => []
    | .hit w =>
      match inlineOf ch w with
      | .code _ => []
      | .bold bold => boldMarkers ch bold
      | .marker digits => [digits]

/-- The bracketed numbers in inline code. -/
def inlineQuoted (text : List G) : List (List G) :=
  (pieces (inlineToken ch) text).flatMap fun
    | .gap _ => []
    | .hit w =>
      match inlineOf ch w with
      | .code code => occurrences ch isAsciiDigit code
      | _ => []

/-- The texts of a part, where `space` joins the lines of a paragraph. -/
def texts (space : G) : Services.SharedAnswerPage.Block G → List (List G)
  | .para lines => [[space].intercalate lines]
  | .list items => items

def pageMarkers (space : G) (text : List G) : List (List G) :=
  (blocks ch text).flatMap fun b => (texts space b).flatMap (inlineMarkers ch)

def pageQuoted (space : G) (text : List G) : List (List G) :=
  (blocks ch text).flatMap fun b => (texts space b).flatMap (inlineQuoted ch)

end Page

/-- The page takes so many digits. -/
def isShort {G : Type} (digits : List G) : Bool := digits.length ≤ 3

section Reading
variable {G : Type} {ch : G → Char}

theorem markerToken_eq (pre s : List G) :
    markerToken ch pre s =
      (bracketed ch isAsciiDigit s).bind fun digits => if isShort digits then some (digits.length + 2) else none := by
  cases s with
  | nil => rfl
  | cons c rest =>
    unfold markerToken bracketed isShort
    dsimp only
    generalize rest.takeWhile (fun c => isAsciiDigit (ch c)) = digits
    generalize decide ((rest[digits.length]?).map ch = some ']') = closed
    by_cases hopen : ch c = '['
    · cases digits with
      | nil => simp
      | cons d digits =>
        cases closed with
        | false => simp
        | true => simp [hopen]
    · simp [hopen]

/-- A marker's digits are what stands between its brackets. -/
theorem digits_of_bracketed {s digits : List G} (h : bracketed ch isAsciiDigit s = some digits) :
    (s.take (digits.length + 2)).tail.dropLast = digits ∧
      occurrences ch isAsciiDigit s = digits :: occurrences ch isAsciiDigit (s.drop (digits.length + 2)) := by
  cases s with
  | nil => cases h
  | cons c rest =>
    refine ⟨?_, occurrences_bracketed (by decide) h⟩
    obtain ⟨d, tail, rfl, -⟩ := bracketed_split h
    have htake : (digits ++ d :: tail).take (digits.length + 1) = digits ++ [d] := by
      rw [List.append_cons]
      exact List.take_left' (by rw [List.length_append, List.length_singleton])
    rw [List.take_succ_cons, List.tail_cons, htake, List.dropLast_concat]

/-- A place where no marker of the page starts. -/
theorem reads_gap {c : G} {s : List G} {markers code : List (List G)}
    (h : ∀ n, markerToken ch [] (c :: s) ≠ some (n + 1))
    (hs : Reads isShort (occurrences ch isAsciiDigit s) markers code) :
    Reads isShort (occurrences ch isAsciiDigit (c :: s)) markers code := by
  rw [occurrences_cons]
  cases hb : bracketed ch isAsciiDigit (c :: s) with
  | none => exact hs
  | some digits =>
    have hlong : ¬ isShort digits = true := by
      intro hshort
      refine h (digits.length + 1) ?_
      rw [markerToken_eq, hb, Option.bind_some, if_pos hshort]
    have := hs.prose digits
    rwa [if_neg hlong] at this

theorem reads_marker {s digits : List G} {markers code : List (List G)} (h : bracketed ch isAsciiDigit s = some digits)
    (hshort : isShort digits = true)
    (hs : Reads isShort (occurrences ch isAsciiDigit (s.drop (digits.length + 2))) markers code) :
    Reads isShort (occurrences ch isAsciiDigit s) (digits :: markers) code := by
  have := hs.prose digits
  rw [if_pos hshort] at this
  rw [(digits_of_bracketed h).2]
  exact this

theorem marker_of_token {pre s : List G} {n : Nat} (h : markerToken ch pre s = some (n + 1)) :
    ∃ digits, bracketed ch isAsciiDigit s = some digits ∧ isShort digits = true ∧ n + 1 = digits.length + 2 := by
  rw [markerToken_eq] at h
  obtain ⟨digits, hdigits, h⟩ := Option.bind_eq_some_iff.mp h
  split at h
  · rename_i hshort
    exact ⟨digits, hdigits, hshort, (Option.some.inj h).symm⟩
  · cases h

theorem bold_reads (bold : List G) : Reads isShort (occurrences ch isAsciiDigit bold) (boldMarkers ch bold) [] := by
  unfold boldMarkers
  refine pieces_rec (P := fun s ps => Reads isShort (occurrences ch isAsciiDigit s) (ps.flatMap _) []) (fun p q s => ?_)
    Reads.nil (fun c s ps hgap ih => ?_) (fun s n ps _ htoken ih => ?_) bold
  · rw [markerToken_eq, markerToken_eq]
  · exact reads_gap hgap ih
  · obtain ⟨digits, hdigits, hshort, hn⟩ := marker_of_token htoken
    rw [hn] at ih ⊢
    rw [List.flatMap_cons]
    dsimp only
    rw [(digits_of_bracketed hdigits).1]
    exact reads_marker hdigits hshort ih

/-- A match of inline code: its two backticks, and no backtick between them. -/
theorem codeToken_spec {pre s : List G} {n : Nat} (h : codeToken ch pre s = some n) :
    ∃ c code d rest, s = c :: code ++ d :: rest ∧ n = code.length + 2 ∧ ch c = '`' ∧ ch d = '`' := by
  cases s with
  | nil => cases h
  | cons c rest =>
    unfold codeToken at h
    dsimp only at h
    split at h
    · rename_i hcode
      cases h
      simp only [Bool.and_eq_true, decide_eq_true_eq] at hcode
      obtain ⟨⟨hc, -⟩, hlt⟩ := hcode
      have hrest := List.takeWhile_append_dropWhile (p := fun c => decide (ch c ≠ '`')) (l := rest)
      cases hdrop : rest.dropWhile fun c => decide (ch c ≠ '`') with
      | nil =>
        rw [hdrop, List.append_nil] at hrest
        rw [hrest] at hlt
        exact absurd hlt (Nat.lt_irrefl _)
      | cons d tail =>
        have hd : ch d = '`' := by
          have := List.head?_dropWhile_not (fun c => decide (ch c ≠ '`')) rest
          rw [hdrop] at this
          simpa using this
        refine ⟨c, _, d, tail, ?_, rfl, hc, hd⟩
        rw [List.cons_append, ← hdrop, hrest]
    · cases h

theorem boldLength_spec {s : List G} {n : Nat} (h : boldLength ch s = some n) :
    ∃ bold c d rest, s = bold ++ c :: d :: rest ∧ n = bold.length ∧ ch c = '*' ∧ ch d = '*' := by
  induction s generalizing n with
  | nil => cases h
  | cons e s ih =>
    unfold boldLength at h
    split at h
    · cases h
    split at h
    · rename_i hstars
      cases h
      cases s with
      | nil => cases hstars
      | cons c s =>
        obtain ⟨d, tail, rfl, hc, hd⟩ := isStars_cons hstars
        exact ⟨[e], c, d, tail, rfl, rfl, hc, hd⟩
    · obtain ⟨m, hm, rfl⟩ := Option.map_eq_some_iff.mp h
      obtain ⟨bold, c, d, tail, rfl, rfl, hc, hd⟩ := ih hm
      exact ⟨e :: bold, c, d, tail, rfl, rfl, hc, hd⟩

/-- A match of bold: two asterisks on either side. -/
theorem boldToken_spec {pre s : List G} {n : Nat} (h : boldToken ch pre s = some n) :
    ∃ a b bold c d rest, s = a :: b :: bold ++ c :: d :: rest ∧ n = bold.length + 4 ∧ ch a = '*' ∧ ch b = '*' ∧
      ch c = '*' ∧ ch d = '*' := by
  unfold boldToken at h
  split at h
  · rename_i hstars
    cases s with
    | nil => cases hstars
    | cons a s =>
      obtain ⟨b, tail, rfl, ha, hb⟩ := isStars_cons hstars
      obtain ⟨m, hm, rfl⟩ := Option.map_eq_some_iff.mp h
      obtain ⟨bold, c, d, rest, htail, rfl, hc, hd⟩ := boldLength_spec hm
      obtain rfl : tail = bold ++ c :: d :: rest := htail
      exact ⟨a, b, bold, c, d, rest, rfl, rfl, ha, hb, hc, hd⟩
  · cases h

/-- What a match of `_INLINE` reads, and what the scan goes on with. -/
theorem hit_reads {s : List G} {n : Nat} {markers code : List (List G)} (h : inlineToken ch [] s = some (n + 1))
    (hs : Reads isShort (occurrences ch isAsciiDigit (s.drop (n + 1))) markers code) :
    Reads isShort (occurrences ch isAsciiDigit s)
      ((match inlineOf ch (s.take (n + 1)) with
        | .code _ => []
        | .bold bold => boldMarkers ch bold
        | .marker digits => [digits]) ++ markers)
      ((match inlineOf ch (s.take (n + 1)) with
        | .code code => occurrences ch isAsciiDigit code
        | _ => []) ++ code) := by
  unfold inlineToken at h
  cases hcode : codeToken ch [] s with
  | some m =>
    rw [hcode, Option.some_or] at h
    obtain rfl := Option.some.inj h
    obtain ⟨c, inside, d, rest, rfl, hn, hc, hd⟩ := codeToken_spec hcode
    have hlength : n + 1 = (c :: inside).length + 1 := hn
    have htake : (c :: inside ++ d :: rest).take (n + 1) = c :: inside ++ [d] := by
      rw [hlength, List.take_length_add_append]
      rfl
    have hdrop : (c :: inside ++ d :: rest).drop (n + 1) = rest := by
      rw [hlength, List.drop_length_add_append]
      rfl
    have hinline : inlineOf ch (c :: inside ++ [d]) = .code inside := by
      simp [inlineOf, hc]
    rw [hdrop] at hs
    rw [htake, hinline, occurrences_append_break (breaks_tick hd), occurrences_cons_of_ne (breaks_tick hc).1]
    exact (reads_code _).append hs
  | none =>
    rw [hcode, Option.none_or] at h
    cases hbold : boldToken ch [] s with
    | some m =>
      rw [hbold, Option.some_or] at h
      obtain rfl := Option.some.inj h
      obtain ⟨a, b, bold, c, d, rest, rfl, hn, ha, hb, hc, hd⟩ := boldToken_spec hbold
      have hlength : n + 1 = (a :: b :: bold).length + 2 := hn
      have htake : (a :: b :: bold ++ c :: d :: rest).take (n + 1) = a :: b :: bold ++ [c, d] := by
        rw [hlength, List.take_length_add_append]
        rfl
      have hdrop : (a :: b :: bold ++ c :: d :: rest).drop (n + 1) = rest := by
        rw [hlength, List.drop_length_add_append]
        rfl
      have hinline : inlineOf ch (a :: b :: bold ++ [c, d]) = .bold bold := by
        have hlast : (bold ++ [c, d]).dropLast.dropLast = bold := by
          rw [show [c, d] = [c] ++ [d] from rfl, ← List.append_assoc, List.dropLast_concat, List.dropLast_concat]
        simp only [inlineOf, List.cons_append, List.head?_cons, Option.map_some, ha, List.drop_succ_cons, List.drop_zero, hlast]
      rw [hdrop] at hs
      rw [htake, hinline, occurrences_append_break (breaks_star hc), occurrences_cons_of_ne (breaks_star ha).1,
        occurrences_cons_of_ne (breaks_star hb).1, occurrences_cons_of_ne (breaks_star hd).1]
      exact (bold_reads bold).append hs
    | none =>
      rw [hbold, Option.none_or] at h
      obtain ⟨digits, hdigits, hshort, hn⟩ := marker_of_token h
      rw [hn] at hs ⊢
      have hinline : inlineOf ch (s.take (digits.length + 2)) = .marker digits := by
        cases s with
        | nil => cases hdigits
        | cons c rest =>
          have hopen := (bracketed_eq_some.mp hdigits).1
          have hinside := (digits_of_bracketed hdigits).1
          rw [List.take_succ_cons] at hinside ⊢
          simp only [inlineOf, List.head?_cons, Option.map_some, hopen, hinside]
          rfl
      rw [hinline]
      exact reads_marker hdigits hshort hs

theorem inline_reads (text : List G) :
    Reads isShort (occurrences ch isAsciiDigit text) (inlineMarkers ch text) (inlineQuoted ch text) := by
  refine pieces_rec
    (P := fun s ps => Reads isShort (occurrences ch isAsciiDigit s) (ps.flatMap _) (ps.flatMap _)) (fun p q s => ?_)
    Reads.nil (fun c s ps hgap ih => ?_) (fun s n ps _ htoken ih => ?_) text
  · unfold inlineToken
    rw [markerToken_eq, markerToken_eq]
    cases s with
    | nil => rfl
    | cons c s => rfl
  · refine reads_gap (fun n hn => ?_) ih
    cases hcode : codeToken ch [] (c :: s) with
    | some m =>
      obtain ⟨d, code, e, rest, heq, -, hd, -⟩ := codeToken_spec hcode
      obtain ⟨digits, hdigits, -⟩ := marker_of_token hn
      have hopen := (bracketed_eq_some.mp hdigits).1
      rw [List.cons_append] at heq
      rw [(List.cons.inj heq).1, hd] at hopen
      exact absurd hopen (by decide)
    | none =>
      cases hbold : boldToken ch [] (c :: s) with
      | some m =>
        obtain ⟨a, b, bold, d, e, rest, heq, -, ha, -⟩ := boldToken_spec hbold
        obtain ⟨digits, hdigits, -⟩ := marker_of_token hn
        have hopen := (bracketed_eq_some.mp hdigits).1
        rw [List.cons_append] at heq
        rw [(List.cons.inj heq).1, ha] at hopen
        exact absurd hopen (by decide)
      | none =>
        refine hgap n ?_
        unfold inlineToken
        rw [hcode, hbold, hn]
        rfl
  · exact hit_reads htoken ih

theorem isSpace_breaks {c : G} (h : isSpace (ch c) = true) : Breaks ch isAsciiDigit c := by
  refine ⟨?_, ?_, ?_⟩
  · intro heq
    rw [heq] at h
    cases h
  · intro heq
    rw [heq] at h
    cases h
  · cases hdigit : isAsciiDigit (ch c) with
    | false => rfl
    | true =>
      simp only [isAsciiDigit, Bool.and_eq_true, decide_eq_true_eq, Char.le_def] at hdigit
      change 48 ≤ (ch c).toNat ∧ (ch c).toNat ≤ 57 at hdigit
      simp [isSpace] at h
      omega

theorem isLineEnd_isSpace {c : Char} (h : isLineEnd c = true) : isSpace c = true := by
  have hmem := List.contains_iff_mem.mp h
  simp only [List.mem_cons, List.not_mem_nil, or_false] at hmem
  rcases hmem with rfl | rfl | rfl | rfl | rfl | rfl | rfl | rfl | rfl | rfl
  all_goals decide

theorem isLineEnd_breaks {c : G} (h : isLineEnd (ch c) = true) : Breaks ch isAsciiDigit c :=
  isSpace_breaks (isLineEnd_isSpace h)

/-- The lines hold the bracketed numbers of the text. -/
theorem splitlinesFrom_occurrences (ch : G → Char) : ∀ line s : List G,
    (splitlinesFrom ch line s).flatMap (occurrences ch isAsciiDigit) = occurrences ch isAsciiDigit (line.reverse ++ s)
  | line, [] => by
    unfold splitlinesFrom
    rw [List.append_nil]
    split
    · rename_i hline
      rw [List.isEmpty_iff.mp hline]
      rfl
    · rw [List.flatMap_singleton]
  | line, [c] => by
    unfold splitlinesFrom
    split
    · rename_i h
      rw [List.flatMap_singleton, occurrences_append_break (isLineEnd_breaks h), occurrences_nil, List.append_nil]
    · rw [List.flatMap_singleton, List.reverse_cons]
  | line, c :: d :: s => by
    unfold splitlinesFrom
    split
    · rename_i h
      simp only [Bool.and_eq_true, decide_eq_true_eq] at h
      have hc : isLineEnd (ch c) = true := by
        rw [h.1]
        decide
      have hd : isLineEnd (ch d) = true := by
        rw [h.2]
        decide
      rw [List.flatMap_cons, splitlinesFrom_occurrences ch [] s, occurrences_append_break (isLineEnd_breaks hc),
        occurrences_cons_of_ne (isLineEnd_breaks hd).1]
      rfl
    split
    · rename_i h
      rw [List.flatMap_cons, splitlinesFrom_occurrences ch [] (d :: s), occurrences_append_break (isLineEnd_breaks h)]
      rfl
    · rw [splitlinesFrom_occurrences ch (c :: line) (d :: s), List.reverse_cons, List.append_assoc]
      rfl

theorem occurrences_lstripped (s : List G) :
    occurrences ch isAsciiDigit (lstripped ch s) = occurrences ch isAsciiDigit s := by
  conv_rhs => rw [← List.takeWhile_append_dropWhile (p := fun c => isSpace (ch c)) (l := s)]
  refine (occurrences_append_of_ne (fun c hc => ?_) _).symm
  have := List.mem_takeWhile_imp hc
  exact (isSpace_breaks this).1

/-- Blanks at the end of a text. -/
theorem occurrences_append_blanks {blanks : List G} (h : ∀ c ∈ blanks, isSpace (ch c) = true) (s : List G) :
    occurrences ch isAsciiDigit (s ++ blanks) = occurrences ch isAsciiDigit s := by
  cases blanks with
  | nil => rw [List.append_nil]
  | cons c blanks =>
    obtain ⟨hc, hblanks⟩ := List.forall_mem_cons.mp h
    rw [occurrences_append_break (isSpace_breaks hc), occurrences_eq_nil fun d hd => (isSpace_breaks (hblanks d hd)).1,
      List.append_nil]

theorem occurrences_stripped (s : List G) :
    occurrences ch isAsciiDigit (stripped ch s) = occurrences ch isAsciiDigit s := by
  rw [← occurrences_lstripped s]
  unfold stripped
  have hsplit : lstripped ch s = ((lstripped ch s).reverse.dropWhile fun c => isSpace (ch c)).reverse ++
      ((lstripped ch s).reverse.takeWhile fun c => isSpace (ch c)).reverse := by
    rw [← List.reverse_append, List.takeWhile_append_dropWhile, List.reverse_reverse]
  conv_rhs => rw [hsplit]
  refine (occurrences_append_blanks (fun c hc => ?_) _).symm
  have := List.mem_takeWhile_imp (List.mem_reverse.mp hc)
  exact this

theorem item_occurrences {line item : List G} (h : Services.SharedAnswerPage.bullet ch line = some item) :
    occurrences ch isAsciiDigit item = occurrences ch isAsciiDigit line := by
  unfold Services.SharedAnswerPage.bullet at h
  rw [← occurrences_lstripped line]
  split at h
  · rename_i c d rest hline
    split at h
    · rename_i hmark
      cases h
      simp only [Bool.and_eq_true, Bool.or_eq_true, decide_eq_true_eq] at hmark
      have hc : ch c ≠ '[' := by
        intro heq
        rw [heq] at hmark
        exact absurd hmark.1 (by decide)
      have hd : ch d ≠ '[' := by
        rw [hmark.2]
        decide
      rw [hline, occurrences_cons_of_ne hc, occurrences_cons_of_ne hd]
    · cases h
  · cases h

/-! ## The parts of the page -/

/-- What the parts of the page read of these bracketed numbers. -/
def PartsRead (ch : G → Char) (space : G) (parts : List (Services.SharedAnswerPage.Block G)) (all : List (List G)) : Prop :=
  Reads isShort all (parts.flatMap fun b => (texts space b).flatMap (inlineMarkers ch))
    (parts.flatMap fun b => (texts space b).flatMap (inlineQuoted ch))

theorem PartsRead.append {space : G} {parts parts' : List (Services.SharedAnswerPage.Block G)} {all all' : List (List G)}
    (h : PartsRead ch space parts all) (h' : PartsRead ch space parts' all') : PartsRead ch space (parts ++ parts') (all ++ all') := by
  unfold PartsRead
  rw [List.flatMap_append, List.flatMap_append]
  exact Reads.append h h'

theorem items_read (ch : G → Char) (items : List (List G)) :
    Reads isShort (items.flatMap (occurrences ch isAsciiDigit)) (items.flatMap (inlineMarkers ch))
      (items.flatMap (inlineQuoted ch)) := by
  induction items with
  | nil => exact .nil
  | cons item items ih => exact (inline_reads item).append ih

theorem part_read {space : G} (hspace : ch space = ' ') (b : Services.SharedAnswerPage.Block G) :
    PartsRead ch space [b] (match b with
      | .para lines => lines.flatMap (occurrences ch isAsciiDigit)
      | .list items => items.flatMap (occurrences ch isAsciiDigit)) := by
  unfold PartsRead
  rw [List.flatMap_singleton, List.flatMap_singleton]
  cases b with
  | para lines =>
    have hbreak : Breaks ch isAsciiDigit space := isSpace_breaks (by rw [hspace]; decide)
    have := items_read ch [[space].intercalate lines]
    rw [List.flatMap_singleton, occurrences_intercalate hbreak] at this
    exact this
  | list items => exact items_read ch items

/-- The parts, the open paragraph and the open list read what is taken of the answer so far. -/
def Layout.Read (ch : G → Char) (space : G) (s : Services.SharedAnswerPage.Layout G) (all : List (List G)) : Prop :=
  ∃ done, PartsRead ch space s.parts done ∧
    all = done ++ s.para.flatMap (occurrences ch isAsciiDigit) ++ s.items.flatMap (occurrences ch isAsciiDigit)

theorem Layout.Read.flush {space : G} (hspace : ch space = ' ') {s : Services.SharedAnswerPage.Layout G}
    {all : List (List G)} (h : Layout.Read ch space s all) : PartsRead ch space s.flush.parts all := by
  obtain ⟨done, hdone, rfl⟩ := h
  have hpara : PartsRead ch space (if s.para.isEmpty then [] else [.para s.para])
      (s.para.flatMap (occurrences ch isAsciiDigit)) := by
    split
    · rename_i h
      rw [List.isEmpty_iff.mp h]
      exact .nil
    · exact part_read hspace (.para s.para)
  have hitems : PartsRead ch space (if s.items.isEmpty then [] else [.list s.items])
      (s.items.flatMap (occurrences ch isAsciiDigit)) := by
    split
    · rename_i h
      rw [List.isEmpty_iff.mp h]
      exact .nil
    · exact part_read hspace (.list s.items)
  exact (hdone.append hpara).append hitems

theorem Layout.Read.flushed {space : G} (hspace : ch space = ' ') {s : Services.SharedAnswerPage.Layout G}
    {all : List (List G)} (h : Layout.Read ch space s all) : Layout.Read ch space s.flush all :=
  ⟨all, h.flush hspace, by
    show all = all ++ [] ++ []
    rw [List.append_nil, List.append_nil]⟩

theorem Layout.Read.line {space : G} (hspace : ch space = ' ') {s : Services.SharedAnswerPage.Layout G}
    {all : List (List G)} (h : Layout.Read ch space s all) (line : List G) :
    Layout.Read ch space (s.line ch line) (all ++ occurrences ch isAsciiDigit line) := by
  unfold Services.SharedAnswerPage.Layout.line
  split
  · rename_i hempty
    rw [← occurrences_stripped line, List.isEmpty_iff.mp hempty, occurrences_nil, List.append_nil]
    exact h.flushed hspace
  split
  · rename_i item hitem
    obtain ⟨done, hdone, rfl⟩ := h
    refine ⟨done, hdone, ?_⟩
    rw [List.flatMap_append, List.flatMap_singleton, occurrences_stripped, item_occurrences hitem, List.append_assoc]
  · by_cases hitems : s.items.isEmpty = true
    · rw [if_pos hitems]
      obtain ⟨done, hdone, rfl⟩ := h
      refine ⟨done, hdone, ?_⟩
      rw [List.isEmpty_iff.mp hitems, List.flatMap_append, List.flatMap_singleton, occurrences_stripped, List.flatMap_nil,
        List.append_nil, List.append_nil, List.append_assoc]
    · rw [if_neg hitems]
      refine ⟨all, h.flush hspace, ?_⟩
      show all ++ _ = all ++ (s.flush.para ++ [stripped ch line]).flatMap _ ++ []
      rw [List.append_nil]
      show all ++ _ = all ++ [stripped ch line].flatMap _
      rw [List.flatMap_singleton, occurrences_stripped]

theorem Layout.Read.lines {space : G} (hspace : ch space = ' ') (lines : List (List G)) :
    ∀ {s : Services.SharedAnswerPage.Layout G} {all : List (List G)}, Layout.Read ch space s all →
      Layout.Read ch space (lines.foldl (Services.SharedAnswerPage.Layout.line ch) s)
        (all ++ lines.flatMap (occurrences ch isAsciiDigit)) := by
  induction lines with
  | nil =>
    intro s all h
    rwa [List.flatMap_nil, List.append_nil]
  | cons line lines ih =>
    intro s all h
    rw [List.foldl_cons, List.flatMap_cons, ← List.append_assoc]
    exact ih (h.line hspace line)

/-- The page reads every bracketed number, in order. -/
theorem page_reads (ch : G → Char) {space : G} (hspace : ch space = ' ') (text : List G) :
    Reads isShort (occurrences ch isAsciiDigit text) (pageMarkers ch space text) (pageQuoted ch space text) := by
  have hstart : Layout.Read ch space ⟨[], [], []⟩ [] := ⟨[], .nil, rfl⟩
  have hlines := (Layout.Read.lines hspace (splitlines ch text) hstart).flush hspace
  have hsplit := splitlinesFrom_occurrences ch [] text
  rw [List.nil_append, splitlines, hsplit] at hlines
  exact hlines

end Reading

/-! ## The markers of the page are its links -/

/-- The links of markers, by their digits. -/
def linksOf (set : List Int) (found : List Str) : List Str :=
  (found.filter fun digits => (markerNumber digits : Int) ∈ set).map fun digits => sourceHref (markerNumber digits)

theorem links_marker (set : List Int) (digits : Str) : values "href".toList (markerTokens digits set) = linksOf set [digits] := by
  unfold markerTokens linksOf
  dsimp only
  by_cases h : (markerNumber digits : Int) ∈ set
  · rw [if_pos h, values_element, values_start, if_neg (by decide +kernel), values_start, if_pos rfl]
    simp [h, Token.values]
  · rw [if_neg h]
    simp [h]

theorem links_flatMap {A : Type} {f : A → List Token} {g : A → List Str} {set : List Int} (l : List A)
    (h : ∀ a, values "href".toList (f a) = linksOf set (g a)) :
    values "href".toList (l.flatMap f) = linksOf set (l.flatMap g) := by
  induction l with
  | nil => rfl
  | cons a l ih =>
    rw [List.flatMap_cons, List.flatMap_cons, values_append, h, ih]
    unfold linksOf
    rw [List.filter_append, List.map_append]

theorem links_bold (set : List Int) (bold : Str) : values "href".toList (boldTokens set bold) = linksOf set (boldMarkers id bold) := by
  refine links_flatMap _ fun piece => ?_
  cases piece with
  | gap c => rfl
  | hit w => exact links_marker set _

theorem links_plain (tag : Str) (ts : List Token) : values "href".toList (element tag [] ts) = values "href".toList ts := by
  rw [values_element]
  rfl

theorem links_inline (set : List Int) (text : Str) :
    values "href".toList (inlineTokens text set) = linksOf set (inlineMarkers id text) := by
  refine links_flatMap _ fun piece => ?_
  cases piece with
  | gap c => rfl
  | hit w =>
    dsimp only
    cases inlineOf id w with
    | code s => exact links_plain _ _
    | bold s => exact (links_plain _ _).trans (links_bold set s)
    | marker digits => exact links_marker set digits

/-- The links of an answer are those of its markers, in order. -/
theorem links_of_answer (text : Str) (set : List Int) :
    values "href".toList (answerTokens text set) = linksOf set (pageMarkers id ' ' text) := by
  refine links_flatMap _ fun b => ?_
  cases b with
  | para lines =>
    refine (links_plain _ _).trans ((links_inline set _).trans ?_)
    unfold texts
    rw [List.flatMap_singleton]
  | list items =>
    refine (links_plain _ _).trans (links_flatMap _ fun item => ?_)
    exact (links_plain _ _).trans (links_inline set item)

/-! ## One answer on both sides -/

/-- A character and its place in the answer. -/
abbrev Place := Char × Nat

def places (text : Str) : List Place := text.zipIdx

def digitsText (digits : List Place) : Str := digits.map Prod.fst

/-- What the chat reads in an answer. -/
def chatSpans (text : Str) : List (Span Place) := (parseAnswer Prod.fst ('\n', 0) (places text)).flatMap AnswerFormat.Block.leaves

/-- The occurrences that the chat makes markers for numbers of the set. -/
def chatShown (num : Numbers) (set : List Int) (text : Str) : List (List Place) :=
  (markers (chatSpans text)).filter fun digits => num.string (digitsText digits) ∈ set.map intText

/-- The occurrences in the chat's inline code. -/
def chatCode (text : Str) : List (List Place) := quoted Prod.fst ('\n', 0) (places text)

/-- The occurrences that the page makes markers for numbers of the set. -/
def pageShown (set : List Int) (text : Str) : List (List Place) :=
  (pageMarkers Prod.fst (' ', 0) (places text)).filter fun digits => (markerNumber (digitsText digits) : Int) ∈ set

/-- The occurrences in the page's inline code. -/
def pageCode (text : Str) : List (List Place) := pageQuoted Prod.fst (' ', 0) (places text)

/-- The bracketed numbers of an answer. -/
def numbers (text : Str) : List (List Place) := occurrences Prod.fst isAsciiDigit (places text)

/-- On a short number the two sides ask for the same one. -/
theorem shown_iff (num : Numbers) (set : List Int) {text : Str} {digits : List Place} (h : digits ∈ numbers text)
    (hshort : isShort digits = true) :
    num.string (digitsText digits) ∈ set.map intText ↔ (markerNumber (digitsText digits) : Int) ∈ set := by
  obtain ⟨hne, hdigits⟩ := mem_occurrences h
  have hall : (digitsText digits).all isAsciiDigit = true := by
    refine List.all_eq_true.mpr fun c hc => ?_
    obtain ⟨p, hp, rfl⟩ := List.mem_map.mp hc
    exact (hdigits p hp).2
  have hsmall : digitsValue (digitsText digits) < 2 ^ 53 := by
    have hlength : (digitsText digits).length ≤ 3 := by
      rw [digitsText, List.length_map]
      exact of_decide_eq_true hshort
    exact ((digitsValue_lt _).trans_le (Nat.pow_le_pow_right (by decide) hlength)).trans (by decide)
  have hnil : digitsText digits ≠ [] := fun heq => hne (List.map_eq_nil_iff.mp heq)
  rw [num.exact _ hnil hall hsmall]
  have htext : Nat.toDigits 10 (digitsValue (digitsText digits)) = intText (markerNumber (digitsText digits)) :=
    (intText_natCast _).symm
  rw [htext]
  constructor
  · intro hmem
    obtain ⟨n, hn, heq⟩ := List.mem_map.mp hmem
    rwa [← intText_inj heq]
  · exact List.mem_map_of_mem

theorem numbers_nodup (text : Str) : (numbers text).Nodup :=
  occurrences_nodup (List.Nodup.of_map Prod.snd (by
    rw [places, List.zipIdx_map_snd]
    exact List.nodup_range'))

/-- The chat and the page show the same citations, wherever no number of the set is in
inline code for one of them alone and none outside the chat's has more than three digits,
and nowhere else. -/
theorem same_markers_iff (num : Numbers) (set : List Int) (text : Str) :
    chatShown num set text = pageShown set text ↔
      ∀ digits ∈ numbers text, num.string (digitsText digits) ∈ set.map intText →
        if isShort digits then (digits ∈ chatCode text ↔ digits ∈ pageCode text) else digits ∈ chatCode text := by
  have hchat : Stands (chatSpans text) (numbers text) (chatCode text) :=
    parseAnswer_stands Prod.fst rfl (places text)
  have hpage : Reads isShort (numbers text) (pageMarkers Prod.fst (' ', 0) (places text)) (pageCode text) :=
    page_reads Prod.fst rfl (places text)
  refine (Reads.same_iff hchat hpage (numbers_nodup text) _ _).trans (forall₂_congr fun digits hdigits => ?_)
  show (decide (num.string (digitsText digits) ∈ set.map intText) = true ∧ digits ∉ chatCode text ∧ true = true ↔
    decide ((markerNumber (digitsText digits) : Int) ∈ set) = true ∧ digits ∉ pageCode text ∧ isShort digits = true) ↔ _
  by_cases hshort : isShort digits = true
  · rw [if_pos hshort, decide_eq_true_iff, decide_eq_true_iff, ← shown_iff num set hdigits hshort]
    tauto
  · rw [if_neg hshort, decide_eq_true_iff]
    tauto

/-- Exact on the digits of every number, without rounding. -/
def Numbers.plain : Numbers where
  string ds := Nat.toDigits 10 (digitsValue ds)
  exact _ _ _ _ := rfl

/-- Inline code inside bold: the page links the number, the chat does not. -/
theorem markers_differ :
    ¬ ∀ (num : Numbers) (set : List Int) (text : Str), chatShown num set text = pageShown set text := by
  intro h
  exact absurd (h Numbers.plain [1] "**`[1]`**".toList) (by decide +kernel)

end CiteVyn.Frontend.SharedMarkers
