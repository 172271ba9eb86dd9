import CiteVyn.Lib.Cuts
import CiteVyn.Mcp.Clean

/-! # The frame around an answer

The begin and end markers of a framed answer, and when the text between them
can spell one of them again. A copy of a marker in the body is cut out; what
is left of the body is not looked at again, so a marker spelled across a cut
stays. The same goes for the edges of the frame and the length cap. -/
namespace CiteVyn.Mcp
open CiteVyn.Lib.Scan CiteVyn.Lib.Cuts CiteVyn.Text

/-! ## The framed answer, with its seams -/

/-- The tokens up to `n` elements. -/
def takeKept : Nat → List (Tok Char) → List (Tok Char)
  | 0, _ => []
  | _ + 1, [] => []
  | n + 1, .kept c :: ts => .kept c :: takeKept n ts
  | n + 1, .cut w :: ts => .cut w :: takeKept (n + 1) ts

/-- The body with its copies of the two markers cut out. -/
def bodyTokens (u : UnicodeData) (text nonce : Str) : List (Tok Char) :=
  cutTokens (exactly (endMarker nonce)) []
    (cutTokens (exactly (beginMarker nonce)) [] (run (plainText u text)))

/-- The length cap over tokens; the text before the mark ends in a seam. -/
def capTokens (ts : List (Tok Char)) : List (Tok Char) :=
  if maxAnswerChars < (join [] ts).length then
    takeKept (rstrip ((join [] ts).take maxAnswerChars)).length ts ++ .cut [] :: run cutMark
  else ts

/-- The parts of a framed answer, a seam between one and the next. -/
def framedTokens (u : UnicodeData) (text nonce : Str) : List (Tok Char) :=
  run referenceNote ++ .cut [] :: (run (beginMarker nonce) ++ .cut [] :: (run ['\n'] ++ .cut [] ::
    (capTokens (bodyTokens u text nonce) ++ .cut [] :: (run ['\n'] ++ .cut [] ::
      run (endMarker nonce)))))

theorem join_bodyTokens (u : UnicodeData) (text : Str) {nonce : Str} (h : nonce ≠ []) :
    join [] (bodyTokens u text nonce) = dropMarkers nonce (plainText u text) := by
  rw [bodyTokens, join_cutTokens (avoids_exactly _), join_cutTokens (avoids_exactly _), join_run,
    dropMarkers, if_neg (by simpa using h), replace, replace]

theorem join_takeKept : ∀ (n : Nat) (ts : List (Tok Char)),
    join [] (takeKept n ts) = (join [] ts).take n
  | 0, _ => by simp [takeKept]
  | _ + 1, [] => by simp [takeKept]
  | n + 1, .kept c :: ts => by simp [takeKept, join_takeKept n ts]
  | n + 1, .cut w :: ts => by simp [takeKept, join_takeKept (n + 1) ts]

theorem takeKept_isPrefix : ∀ (n : Nat) (ts : List (Tok Char)), takeKept n ts <+: ts
  | 0, _ => by simp [takeKept]
  | _ + 1, [] => by simp [takeKept]
  | n + 1, .kept c :: ts => (List.prefix_cons_inj _).mpr (takeKept_isPrefix n ts)
  | n + 1, .cut w :: ts => (List.prefix_cons_inj _).mpr (takeKept_isPrefix (n + 1) ts)

theorem join_capTokens (ts : List (Tok Char)) : join [] (capTokens ts) = cap (join [] ts) := by
  unfold capTokens cap
  split
  · have hpre := rstrip_isPrefix ((join [] ts).take maxAnswerChars)
    have htake := List.prefix_iff_eq_take.mp (hpre.trans (List.take_prefix _ _))
    rw [join_append, join_takeKept, ← htake]
    simp
  · rfl

/-- The tokens render to the answer. -/
theorem join_framedTokens (u : UnicodeData) (text : Str) {nonce : Str} (h : nonce ≠ []) :
    join [] (framedTokens u text nonce) = cleanAnswer u text nonce [] := by
  simp only [framedTokens, join_append, join_run, join_cut, join_capTokens, join_bodyTokens u text h,
    cleanAnswer, cleanBody, List.isEmpty_iff, h, if_false, if_true, List.nil_append,
    List.append_assoc]

/-! ## No part of the answer holds a marker, but the two that are one -/

/-- What the two markers begin with. -/
def markerHead : Str := "[CiteVyn answer ".toList

theorem markerHead_length : markerHead.length = 16 := by decide

theorem markerHead_cons : markerHead = '[' :: 'C' :: 'i' :: markerHead.drop 3 := by decide

theorem beginMarker_eq (nonce : Str) :
    beginMarker nonce = markerHead ++ (nonce ++ " begins]".toList) := List.append_assoc _ _ _

theorem endMarker_eq (nonce : Str) :
    endMarker nonce = markerHead ++ (nonce ++ " ends]".toList) := List.append_assoc _ _ _

/-- The note opens one bracket, and not that of a marker. -/
theorem referenceNote_head : referenceNote.take 16 ≠ markerHead ∧ '[' ∉ referenceNote.tail := by
  have hnote : referenceNote = _ :=
    String.toList_append.trans (congrArg₂ (· ++ ·) String.toList_ofList String.toList_ofList)
  rw [hnote]
  decide +kernel

section Places
attribute [local irreducible] markerHead beginMarker endMarker referenceNote cutMark

theorem beginMarker_length (nonce : Str) : (beginMarker nonce).length = nonce.length + 24 := by
  have : " begins]".toList.length = 8 := by decide
  rw [beginMarker_eq, List.length_append, List.length_append, markerHead_length, this]
  omega

theorem endMarker_length (nonce : Str) : (endMarker nonce).length = nonce.length + 22 := by
  have : " ends]".toList.length = 6 := by decide
  rw [endMarker_eq, List.length_append, List.length_append, markerHead_length, this]
  omega

theorem marker_not_short {x s : Str} (hs : s.length < 16) : ¬(markerHead ++ x) <:+: s := by
  intro h
  have := h.length_le
  rw [List.length_append, markerHead_length] at this
  omega

theorem marker_not_in_note (x : Str) : ¬(markerHead ++ x) <:+: referenceNote := by
  rintro ⟨p, r, h⟩
  cases p with
  | nil =>
    have hhead := referenceNote_head.1
    rw [← h, List.nil_append, List.append_assoc, List.take_left' markerHead_length] at hhead
    exact hhead rfl
  | cons d p =>
    have hno := referenceNote_head.2
    rw [← h, markerHead_cons] at hno
    exact hno (by simp)

theorem end_not_in_begin (nonce : Str) : ¬endMarker nonce <:+: beginMarker nonce := by
  rintro ⟨p, r, h⟩
  have hlen := congrArg List.length h
  rw [List.length_append, List.length_append, beginMarker_length, endMarker_length] at hlen
  rw [beginMarker_eq, endMarker_eq] at h
  match p, h, hlen with
  | [], h, _ =>
    have h := List.append_cancel_left (by simpa only [List.nil_append, List.append_assoc] using h)
    have h := congrArg (List.take 2) (List.append_cancel_left h)
    rw [List.take_append_of_le_length (by decide)] at h
    revert h
    decide
  | [d], h, _ =>
    rw [markerHead_cons] at h
    simp at h
  | [d, e], h, _ =>
    rw [markerHead_cons] at h
    simp at h
  | _ :: _ :: _ :: p, _, hlen =>
    simp only [List.length_cons] at hlen
    omega

theorem begin_not_in_end (nonce : Str) : ¬beginMarker nonce <:+: endMarker nonce := by
  intro h
  have := h.length_le
  rw [beginMarker_length, endMarker_length] at this
  omega

theorem run_isInfix {s m : Str} {p r : List (Tok Char)} (h : run s = p ++ run m ++ r) :
    m <:+: s ∧ s = join [] p ++ m ++ join [] r := by
  have := congrArg (join []) h
  simp only [join_run, join_append] at this
  exact ⟨⟨_, _, this.symm⟩, this⟩

/-- A marker of the frame. -/
def IsMarker (nonce m : Str) : Prop := m = beginMarker nonce ∨ m = endMarker nonce

theorem IsMarker.eq_head {nonce m : Str} (h : IsMarker nonce m) : ∃ x, m = markerHead ++ x := by
  rcases h with rfl | rfl
  · exact ⟨_, beginMarker_eq nonce⟩
  · exact ⟨_, endMarker_eq nonce⟩

theorem IsMarker.ne_nil {nonce m : Str} (h : IsMarker nonce m) : m ≠ [] := by
  obtain ⟨x, rfl⟩ := h.eq_head
  rw [markerHead_cons]
  simp

theorem no_run_in_body (u : UnicodeData) (text : Str) {nonce m : Str} (hm : IsMarker nonce m)
    (p r : List (Tok Char)) : bodyTokens u text nonce ≠ p ++ run m ++ r := by
  intro h
  rcases hm with rfl | rfl
  · obtain ⟨p', r', h'⟩ := run_of_cutFrom _ _ _ p r h
    exact no_run_cutFrom_exactly (IsMarker.ne_nil (.inl rfl)) _ _ _ p' r' h'
  · exact no_run_cutFrom_exactly (IsMarker.ne_nil (.inr rfl)) _ _ _ p r h

theorem no_run_in_capped (u : UnicodeData) (text : Str) {nonce m : Str} (hm : IsMarker nonce m)
    (p r : List (Tok Char)) : capTokens (bodyTokens u text nonce) ≠ p ++ run m ++ r := by
  intro h
  obtain ⟨x, hx⟩ := hm.eq_head
  unfold capTokens at h
  split at h
  · rcases run_append_cut hm.ne_nil h with ⟨r', h'⟩ | ⟨p', _, h'⟩
    · obtain ⟨z, hz⟩ := takeKept_isPrefix
        (rstrip ((join [] (bodyTokens u text nonce)).take maxAnswerChars)).length
        (bodyTokens u text nonce)
      exact no_run_in_body u text hm p (r' ++ z) (by rw [← hz, h']; simp)
    · have hshort : cutMark.length < 16 := by decide +kernel
      exact marker_not_short hshort (hx ▸ (run_isInfix h').1)
  · exact no_run_in_body u text hm p r h

theorem begin_ne_end (nonce : Str) : beginMarker nonce ≠ endMarker nonce := by
  intro h
  have := congrArg List.length h
  rw [beginMarker_length, endMarker_length] at this
  omega

/-- What stands before the end marker's own place. -/
def beforeEnd (u : UnicodeData) (text nonce : Str) : Str :=
  referenceNote ++ (beginMarker nonce ++ ('\n' :: (cap (dropMarkers nonce (plainText u text)) ++
    ['\n'])))

theorem run_in_run {s m : Str} {p r : List (Tok Char)} (h : run s = p ++ run m ++ r)
    (hlen : m.length = s.length) : join [] p = [] := by
  have heq := congrArg List.length (run_isInfix h).2
  rw [List.length_append, List.length_append] at heq
  exact List.length_eq_zero_iff.mp (by omega)

/-- A run in a text of six parts, four of which hold no copy of it. -/
theorem run_in_parts {note b nl e m : Str} {ts p r : List (Tok Char)} (hm : m ≠ [])
    (hnote : ¬m <:+: note) (hnl : ¬m <:+: nl) (hts : ∀ p r, ts ≠ p ++ run m ++ r)
    (h : run note ++ .cut [] :: (run b ++ .cut [] :: (run nl ++ .cut [] ::
      (ts ++ .cut [] :: (run nl ++ .cut [] :: run e)))) = p ++ run m ++ r) :
    (∃ p' r', run b = p' ++ run m ++ r' ∧ join [] p = note ++ join [] p') ∨
      ∃ p' r', run e = p' ++ run m ++ r' ∧
        join [] p = note ++ (b ++ (nl ++ (join [] ts ++ (nl ++ join [] p')))) := by
  rcases run_append_cut hm h with ⟨r', h1⟩ | ⟨p1, rfl, h1⟩
  · exact absurd (run_isInfix h1).1 hnote
  rcases run_append_cut hm h1 with ⟨r', h2⟩ | ⟨p2, rfl, h2⟩
  · exact .inl ⟨p1, r', h2, by simp⟩
  rcases run_append_cut hm h2 with ⟨r', h3⟩ | ⟨p3, rfl, h3⟩
  · exact absurd (run_isInfix h3).1 hnl
  rcases run_append_cut hm h3 with ⟨r', h4⟩ | ⟨p4, rfl, h4⟩
  · exact absurd h4 (hts _ _)
  rcases run_append_cut hm h4 with ⟨r', h5⟩ | ⟨p5, rfl, h5⟩
  · exact absurd (run_isInfix h5).1 hnl
  · exact .inr ⟨p5, r, h5, by simp⟩

/-- A run that spells a marker in a framed answer is at the marker's own place. -/
theorem run_in_framed (u : UnicodeData) (text : Str) {nonce m : Str} (hn : nonce ≠ [])
    (hm : IsMarker nonce m) {p r : List (Tok Char)}
    (h : framedTokens u text nonce = p ++ run m ++ r) :
    m = beginMarker nonce ∧ join [] p = referenceNote ∨
      m = endMarker nonce ∧ join [] p = beforeEnd u text nonce := by
  obtain ⟨x, hx⟩ := hm.eq_head
  have hnote : ¬m <:+: referenceNote := hx ▸ marker_not_in_note x
  have hnl : ¬m <:+: ['\n'] := hx ▸ marker_not_short (by decide)
  rcases run_in_parts hm.ne_nil hnote hnl (no_run_in_capped u text hm) h with
    ⟨p', r', hb, hp⟩ | ⟨p', r', he, hp⟩
  · left
    rcases hm with hm | hm
    · rw [run_in_run hb (by rw [hm]), List.append_nil] at hp
      exact ⟨hm, hp⟩
    · exact absurd (hm ▸ (run_isInfix hb).1) (end_not_in_begin nonce)
  · right
    rcases hm with hm | hm
    · exact absurd (hm ▸ (run_isInfix he).1) (begin_not_in_end nonce)
    · rw [run_in_run he (by rw [hm]), join_capTokens, join_bodyTokens u text hn] at hp
      exact ⟨hm, hp⟩

/-! ## The frame of an answer -/

/-- A marker is spelled across a seam: around a copy that was cut out of the
body, around the length cap, or around an edge of the frame. -/
def Forged (u : UnicodeData) (text nonce : Str) : Prop :=
  SpelledAcross (beginMarker nonce) (framedTokens u text nonce) ∨
    SpelledAcross (endMarker nonce) (framedTokens u text nonce)

/-- One marker: its own place is the only one unless a seam spells it again. -/
theorem once_iff_not_across {m x y : Str} {ts pre post : List (Tok Char)} (hm : m ≠ [])
    (hts : ts = pre ++ run m ++ post) (hx : join [] pre = x) (hy : join [] post = y)
    (hplace : ∀ p r, ts = p ++ run m ++ r → join [] p = x) :
    occurrences m (x ++ m ++ y) = 1 ↔ ¬SpelledAcross m ts := by
  have hjoin : join [] ts = x ++ m ++ y := by rw [hts]; simp [hx, hy]
  rw [occurrences_eq_one hm]
  constructor
  · rintro honly ⟨p, a, w, b, r, hacross, ha, hb, hab⟩
    have hp : join [] p = x := honly (join [] p) (join [] r) (by
      rw [← hjoin, hacross, ← hab]
      simp)
    have hcross : join [] a ++ join [] b = m → False :=
      run_not_across (hts.symm.trans hacross) (hx.trans hp.symm) ha hb
    exact hcross hab
  · intro hno p' r' he
    rcases occurrence_cases hm (hjoin.trans he) with ⟨p, r, hrun, hp⟩ | hacross
    · exact hp.symm.trans (hplace p r hrun)
    · exact absurd hacross hno

/-- **The frame holds exactly when no seam spells a marker.** -/
theorem framed_once_iff (u : UnicodeData) (text nonce : Str) (hn : nonce ≠ []) :
    (occurrences (beginMarker nonce) (cleanAnswer u text nonce []) = 1 ∧
      occurrences (endMarker nonce) (cleanAnswer u text nonce []) = 1) ↔
    ¬Forged u text nonce := by
  have hbegin : IsMarker nonce (beginMarker nonce) := .inl rfl
  have hend : IsMarker nonce (endMarker nonce) := .inr rfl
  have hjoin := join_framedTokens u text hn
  obtain ⟨post, hpost⟩ : ∃ post : List (Tok Char), framedTokens u text nonce =
      (run referenceNote ++ [.cut []]) ++ run (beginMarker nonce) ++ post :=
    ⟨Tok.cut [] :: (run ['\n'] ++ Tok.cut [] :: (capTokens (bodyTokens u text nonce) ++ Tok.cut [] ::
      (run ['\n'] ++ Tok.cut [] :: run (endMarker nonce)))), by
      simp only [framedTokens, List.append_assoc, List.cons_append, List.nil_append]⟩
  obtain ⟨pre, hpre⟩ : ∃ pre : List (Tok Char), framedTokens u text nonce = pre ++ run (endMarker nonce) ++ [] :=
    ⟨run referenceNote ++ Tok.cut [] :: (run (beginMarker nonce) ++ Tok.cut [] :: (run ['\n'] ++ Tok.cut [] ::
      (capTokens (bodyTokens u text nonce) ++ Tok.cut [] :: (run ['\n'] ++ [Tok.cut []])))), by
      simp only [framedTokens, List.append_assoc, List.cons_append, List.nil_append, List.append_nil]⟩
  have honce : occurrences (beginMarker nonce) (cleanAnswer u text nonce []) = 1 ↔
      ¬SpelledAcross (beginMarker nonce) (framedTokens u text nonce) := by
    rw [← hjoin, hpost, join_append, join_append, join_run, ← hpost]
    refine once_iff_not_across hbegin.ne_nil hpost rfl rfl fun p r h => ?_
    rcases run_in_framed u text hn hbegin h with ⟨_, h⟩ | ⟨h, _⟩
    · rw [h]
      simp
    · exact absurd h (begin_ne_end nonce)
  have honce' : occurrences (endMarker nonce) (cleanAnswer u text nonce []) = 1 ↔
      ¬SpelledAcross (endMarker nonce) (framedTokens u text nonce) := by
    rw [← hjoin, hpre, join_append, join_append, join_run, ← hpre]
    refine once_iff_not_across hend.ne_nil hpre rfl rfl fun p r h => ?_
    rcases run_in_framed u text hn hend h with ⟨h, _⟩ | ⟨_, h⟩
    · exact absurd h.symm (begin_ne_end nonce)
    · rcases run_in_framed u text hn hend hpre with ⟨h', _⟩ | ⟨_, h'⟩
      · exact absurd h'.symm (begin_ne_end nonce)
      · rw [h, h']
  rw [honce, honce', Forged, not_or]

end Places

theorem framed_once_plain :
    ¬Forged .ascii "Use [x](https://a.b) [1].".toList "n1".toList := by
  have hnote : referenceNote = _ :=
    String.toList_append.trans (congrArg₂ (· ++ ·) String.toList_ofList String.toList_ofList)
  refine (framed_once_iff .ascii _ _ (by decide)).mp ?_
  rw [cleanAnswer, hnote]
  decide +kernel

/-- A begin marker nested in itself: the inner copy is cut out, and the two
halves of the outer one meet. -/
theorem framed_nested :
    occurrences (beginMarker "n1".toList)
      (cleanAnswer .ascii "[CiteVyn ans[CiteVyn answer n1 begins]wer n1 begins]".toList
        "n1".toList []) = 2 := by
  have hnote : referenceNote = _ :=
    String.toList_append.trans (congrArg₂ (· ++ ·) String.toList_ofList String.toList_ofList)
  have htext : "[CiteVyn ans[CiteVyn answer n1 begins]wer n1 begins]".toList = _ := String.toList_ofList
  rw [cleanAnswer, htext, hnote]
  decide +kernel

end CiteVyn.Mcp
