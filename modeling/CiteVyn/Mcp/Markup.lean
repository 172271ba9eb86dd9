import CiteVyn.Mcp.Links

/-! # What the markup pass leaves

The loop settles on a text without any of the constructs. The comment openers are removed after
it, once, and what stood around them moves together: this file says which constructs that can put
together, and that it can be nothing else. -/
namespace CiteVyn.Mcp
open CiteVyn.Lib.Scan CiteVyn.Lib.Cuts CiteVyn.Text

/-- What the loop of `_strip_markup` settles on. -/
def settled (text : Str) : Str := stripLoop text.length text

/-- None of the constructs that `_strip_markup` removes. -/
structure MarkupFree (s : Str) : Prop where
  comment : findall htmlComment s = []
  tag : findall htmlTag s = []
  image : findall mdImage s = []
  link : findall mdLink s = []
  refDef : findall mdRefDef s = []
  imageOpener : ¬ ['!', '['] <:+: s
  opener : ¬ "<!--".toList <:+: s

/-- A text with its comment openers cut out. -/
def openTokens (s : Str) : List (Tok Char) := cutTokens (exactly "<!--".toList) [] (run s)

/-- Nothing but cuts. -/
def OnlyCuts (q : List (Tok Char)) : Prop := ∀ t ∈ q, ∃ w, t = .cut w

/-- A label in brackets and a target in parentheses with cuts between them. -/
def LinkAcross (ts : List (Tok Char)) : Prop :=
  ∃ p l q b r : List (Tok Char),
    ts = p ++ .kept '[' :: (l ++ .kept ']' :: (q ++ .kept '(' :: (b ++ .kept ')' :: r))) ∧
    (∀ c ∈ join [] l, isLabelChar c = true) ∧ OnlyCuts q ∧ q ≠ []

/-- On a line of its own a label in brackets that is not empty, and a colon, with a cut among the
blanks before the one or in front of the other. -/
def RefDefAcross (ts : List (Tok Char)) : Prop :=
  ∃ p x l q r : List (Tok Char), ts = p ++ (x ++ .kept '[' :: (l ++ .kept ']' :: (q ++ .kept ':' :: r))) ∧
    (p = [] ∨ ∃ p', p = p' ++ [.kept '\n']) ∧ (∀ c ∈ join [] x, isBlank c = true) ∧ OnlyCuts q ∧
    join [] l ≠ [] ∧ ']' ∉ join [] l ∧ ((∃ w, .cut w ∈ x) ∨ q ≠ [])

/-- The removal of the comment openers puts together one of the constructs: an opener, an image
opener, a link or a reference definition. -/
def Reassembled (s : Str) : Prop :=
  SpelledAcross "<!--".toList (openTokens s) ∨ SpelledAcross ['!', '['] (openTokens s) ∨
    LinkAcross (openTokens s) ∨ RefDefAcross (openTokens s)

/-! ## The text and its tokens -/

theorem join_openTokens (s : Str) : join [] (openTokens s) = replace "<!--".toList [] s := by
  rw [openTokens, join_cutTokens (avoids_exactly _), join_run, replace]

theorem stripMarkup_eq (text : Str) : stripMarkup text = join [] (openTokens (settled text)) :=
  (join_openTokens _).symm

theorem source_openTokens (s : Str) : source (openTokens s) = s := source_cutTokens _ _ _

/-- A place where a pattern matches. -/
theorem exists_place {m : Pattern Char} {s : Str} (h : findall m s ≠ []) :
    ∃ p t n, s = p ++ t ∧ m p.reverse t = some (n + 1) := by
  rw [ne_eq, findall_eq_nil_iff] at h
  push Not at h
  obtain ⟨p, t, hs, _, n, hn⟩ := h
  exact ⟨p, t, n, hs, hn⟩

/-! ## The shapes of the constructs -/

theorem opener_of_htmlComment {pre t : Str} {n : Nat} (h : htmlComment pre t = some n) : "<!--".toList <+: t := by
  unfold htmlComment at h
  split at h
  · exact List.isPrefixOf_iff_prefix.mp ‹_›
  · cases h

theorem opener_of_mdImage {pre t : Str} {n : Nat} (h : mdImage pre t = some n) : ['!', '['] <+: t := by
  unfold mdImage at h
  split at h
  · exact List.cons_prefix_cons.mpr ⟨rfl, List.cons_prefix_cons.mpr ⟨rfl, List.nil_prefix⟩⟩
  · cases h

/-- `[^<>]` -/
def isTagChar (c : Char) : Bool := c != '<' && c != '>'

theorem tagChar_of_start {c : Char} (h : isTagStart c = true) : isTagChar c = true := by
  rw [isTagChar, Bool.and_eq_true, bne_iff_ne, bne_iff_ne]
  constructor
  · rintro rfl
    exact absurd h (by decide)
  · rintro rfl
    exact absurd h (by decide)

theorem htmlTag_iff (pre t : Str) : (∃ n, htmlTag pre t = some (n + 1)) ↔
    ∃ c z r, t = '<' :: c :: (z ++ '>' :: r) ∧ isTagStart c = true ∧ ∀ d ∈ z, isTagChar d = true := by
  constructor
  · intro ⟨n, h⟩
    unfold htmlTag at h
    split at h
    · rename_i c cs
      simp only [drop_takeWhile_length] at h
      split at h
      · rename_i htag
        rw [Bool.and_eq_true, beq_iff_eq] at htag
        obtain ⟨r, hr⟩ := List.head?_eq_some_iff.mp htag.2
        refine ⟨c, cs.takeWhile isTagChar, r, ?_, htag.1, fun d hd => List.mem_takeWhile_imp hd⟩
        have hcs := List.takeWhile_append_dropWhile (p := fun c => c != '<' && c != '>') (l := cs)
        rw [hr] at hcs
        exact congrArg ('<' :: c :: ·) hcs.symm
      · cases h
    · cases h
  · rintro ⟨c, z, r, rfl, hc, hz⟩
    have htake : (z ++ '>' :: r).takeWhile (fun c => c != '<' && c != '>') = z :=
      takeWhile_append_of_all (q := isTagChar) hz (by decide)
    refine ⟨z.length + 2, ?_⟩
    simp only [htmlTag, htake, List.drop_left, List.head?_cons, hc, Bool.true_and, BEq.rfl, if_true]

theorem mdRefDef_iff (pre t : Str) : (∃ n, mdRefDef pre t = some (n + 1)) ↔
    pre.head?.any (· != '\n') = false ∧ ∃ x l r, t = x ++ '[' :: (l ++ ']' :: ':' :: r) ∧
      (∀ c ∈ x, isBlank c = true) ∧ l ≠ [] ∧ ']' ∉ l := by
  constructor
  · intro ⟨n, h⟩
    unfold mdRefDef at h
    split at h
    · cases h
    · rename_i hline
      refine ⟨by simpa using hline, ?_⟩
      simp only [drop_takeWhile_length] at h
      split at h
      · rename_i cs hcs
        split at h
        · rename_i tail htail
          split at h
          · cases h
          · rename_i hne
            refine ⟨t.takeWhile isBlank, cs.takeWhile (· != ']'), tail, ?_, fun c hc => List.mem_takeWhile_imp hc, ?_, ?_⟩
            · rw [← htail, List.takeWhile_append_dropWhile, ← hcs, List.takeWhile_append_dropWhile]
            · intro hnil
              rw [hnil] at hne
              exact hne rfl
            · intro hmem
              have := List.mem_takeWhile_imp (p := (· != ']')) hmem
              exact absurd this (by decide)
        · cases h
      · cases h
  · rintro ⟨hline, x, l, r, rfl, hx, hne, hl⟩
    have hblanks : (x ++ '[' :: (l ++ ']' :: ':' :: r)).takeWhile isBlank = x :=
      takeWhile_append_of_all hx (by decide)
    have hlabel : (l ++ ']' :: ':' :: r).takeWhile (· != ']') = l := by
      refine takeWhile_append_of_all (fun c hc => ?_) (by decide)
      rw [bne_iff_ne]
      rintro rfl
      exact hl hc
    have hlen : (l.length == 0) = false := by
      rw [beq_eq_false_iff_ne]
      exact fun h => hne (List.length_eq_zero_iff.mp h)
    refine ⟨x.length + l.length + 2 + (r.takeWhile (· != '\n')).length, ?_⟩
    unfold mdRefDef
    rw [hline, if_neg Bool.false_ne_true]
    simp only [hblanks, List.drop_left, hlabel, hlen, Bool.false_eq_true, if_false, Option.some.injEq]
    omega

/-! ## What is in the result was in the text, or is put together -/

section
variable {s : Str}

theorem opener_spelled (h : "<!--".toList <:+: join [] (openTokens s)) : SpelledAcross "<!--".toList (openTokens s) := by
  obtain ⟨x, y, hxy⟩ := h
  rcases occurrence_cases (by decide) hxy.symm with ⟨p, r, hts, _⟩ | h
  · exact absurd hts (no_run_cutFrom_exactly (by decide) _ _ _ _ _)
  · exact h

theorem imageOpener_spelled (hs : ¬ ['!', '['] <:+: s) (h : ['!', '['] <:+: join [] (openTokens s)) :
    SpelledAcross ['!', '['] (openTokens s) := by
  obtain ⟨x, y, hxy⟩ := h
  rcases occurrence_cases (by decide) hxy.symm with ⟨p, r, hts, _⟩ | h
  · refine absurd ⟨source p, source r, ?_⟩ hs
    rw [← source_openTokens s, hts, source_append, source_append, source_run]
  · exact h

/-- A cut in a tag would have begun a tag itself. -/
theorem no_tag (hs : findall htmlTag s = []) : findall htmlTag (join [] (openTokens s)) = [] := by
  by_contra hne
  obtain ⟨x, t, n, hxt, hn⟩ := exists_place hne
  obtain ⟨c, z, r, rfl, hc, hz⟩ := (htmlTag_iff _ _).mp ⟨n, hn⟩
  obtain ⟨p, q, hts, _, hq⟩ := join_split_kept List.not_mem_nil _ hxt
  obtain ⟨m, r, rfl, hm, _⟩ := join_split_kept List.not_mem_nil q (x := c :: z) (y := r) hq
  have hchars : ∀ d ∈ join [] m, isTagChar d = true := by
    intro d hd
    rw [hm] at hd
    rcases List.mem_cons.mp hd with rfl | hd
    · exact tagChar_of_start hc
    · exact hz d hd
  have hsource := source_openTokens s
  have hplace := findall_eq_nil_iff.mp hs
  rcases run_or_last_cut m with hrun | ⟨m, w, y, rfl, hy⟩
  · rw [hrun, hm] at hts
    rw [hts, source_append, source_kept, source_append, source_run, source_kept] at hsource
    obtain ⟨n, hn⟩ := (htmlTag_iff (source p).reverse _).mpr ⟨c, z, source r, rfl, hc, hz⟩
    exact hplace _ _ hsource.symm (List.cons_ne_nil _ _) n hn
  · -- from the last cut on
    obtain rfl : w = "<!--".toList := by
      refine cut_of_cutTokens [] s ?_
      change .cut w ∈ openTokens s
      rw [hts]
      simp
    rw [hts] at hsource
    simp only [source_append, source_kept, source_cut, source_run, List.append_assoc] at hsource
    have hinner : ∀ d ∈ '-' :: '-' :: y, isTagChar d = true := by
      intro d hd
      rcases List.mem_cons.mp hd with rfl | hd
      · decide
      · rcases List.mem_cons.mp hd with rfl | hd
        · decide
        · exact hchars d (hy.subset hd)
    obtain ⟨n, hn⟩ := (htmlTag_iff (source p ++ '<' :: source m).reverse _).mpr
      ⟨'!', '-' :: '-' :: y, source r, rfl, by decide, hinner⟩
    exact hplace (source p ++ '<' :: source m) _ (by rw [← hsource]; simp) (List.cons_ne_nil _ _) n hn

/-- The openers are label characters. -/
theorem label_source {l : List (Tok Char)} (hcut : ∀ w, .cut w ∈ l → w = "<!--".toList) {q : Char → Bool}
    (hq : ∀ c ∈ "<!--".toList, q c = true) (h : ∀ c ∈ join [] l, q c = true) : ∀ c ∈ source l, q c = true := by
  intro c hc
  obtain ⟨t, ht, hc⟩ := List.mem_flatMap.mp hc
  cases t with
  | kept d =>
    obtain rfl := List.mem_singleton.mp hc
    exact h c (List.mem_flatMap.mpr ⟨_, ht, List.mem_singleton.mpr rfl⟩)
  | cut w =>
    rw [hcut w ht] at hc
    exact hq c hc

theorem cut_openTokens {w : Str} (h : .cut w ∈ openTokens s) : w = "<!--".toList := cut_of_cutTokens _ _ h

theorem link_across (hs : findall mdLink s = []) (h : findall mdLink (join [] (openTokens s)) ≠ []) :
    LinkAcross (openTokens s) := by
  obtain ⟨x, t, n, hxt, hn⟩ := exists_place h
  obtain ⟨l, b, r, rfl, hl⟩ := (mdLink_iff _ _).mp ⟨n, hn⟩
  obtain ⟨p, ts, hts, _, hlabel⟩ := join_split_kept List.not_mem_nil _ hxt
  obtain ⟨l, ts, rfl, rfl, hbetween⟩ := join_split_kept List.not_mem_nil ts hlabel
  obtain ⟨q, ts, rfl, hq, htarget⟩ := join_split_kept List.not_mem_nil ts (x := []) hbetween
  obtain ⟨b, r, rfl, rfl, rfl⟩ := join_split_kept List.not_mem_nil ts htarget
  refine ⟨p, l, q, b, r, hts, hl, join_eq_nil_iff.mp hq, fun hnil => ?_⟩
  have hsource := source_openTokens s
  rw [hts, hnil] at hsource
  simp only [source_append, source_kept, List.nil_append] at hsource
  have hlabel := label_source (l := l) (fun w hw => cut_openTokens (s := s) (by rw [hts]; simp [hw]))
    (List.all_eq_true.mp (by decide)) hl
  obtain ⟨n, hn⟩ := (mdLink_iff (source p).reverse _).mpr ⟨source l, source b, source r, rfl, hlabel⟩
  exact findall_eq_nil_iff.mp hs _ _ hsource.symm (List.cons_ne_nil _ _) n hn

/-- The tokens of a text that begins a line. -/
theorem line_tokens {ts : List (Tok Char)} {pre x y : Str} (h : join [] ts = pre ++ (x ++ '[' :: y))
    (hline : pre.reverse.head?.any (· != '\n') = false) :
    ∃ p x' q, ts = p ++ (x' ++ .kept '[' :: q) ∧ join [] x' = x ∧ join [] q = y ∧
      (p = [] ∨ ∃ p', p = p' ++ [.kept '\n']) := by
  rcases List.eq_nil_or_concat pre with rfl | ⟨pre, c, rfl⟩
  · obtain ⟨x', q, rfl, hx, hq⟩ := join_split_kept List.not_mem_nil ts (x := x) (y := y) h
    exact ⟨[], x', q, rfl, hx, hq, .inl rfl⟩
  · obtain rfl : c = '\n' := by simpa using hline
    rw [List.concat_eq_append, List.append_assoc, List.singleton_append] at h
    obtain ⟨p, ts, rfl, _, h⟩ := join_split_kept List.not_mem_nil ts h
    obtain ⟨x', q, rfl, hx, hq⟩ := join_split_kept List.not_mem_nil ts h
    exact ⟨p ++ [.kept '\n'], x', q, by simp, hx, hq, .inr ⟨p, rfl⟩⟩

theorem refDef_across (hs : findall mdRefDef s = []) (h : findall mdRefDef (join [] (openTokens s)) ≠ []) :
    RefDefAcross (openTokens s) := by
  obtain ⟨pre, t, n, hxt, hn⟩ := exists_place h
  obtain ⟨hline, x, l, r, rfl, hx, hne, hl⟩ := (mdRefDef_iff _ _).mp ⟨n, hn⟩
  obtain ⟨p, x, ts, hts, rfl, hlabel, hbegin⟩ := line_tokens hxt hline
  obtain ⟨l, ts, rfl, rfl, hbetween⟩ := join_split_kept List.not_mem_nil ts hlabel
  obtain ⟨q, r, rfl, hq, rfl⟩ := join_split_kept List.not_mem_nil ts (x := []) hbetween
  refine ⟨p, x, l, q, r, hts, hbegin, hx, join_eq_nil_iff.mp hq, hne, hl, ?_⟩
  by_contra hno
  rw [not_or, not_exists, not_ne_iff] at hno
  obtain ⟨hnone, hnil⟩ := hno
  -- without a cut the definition was in the text
  have hrun : x = run (join [] x) := by
    rcases run_or_last_cut x with h | ⟨_, w, _, h, _⟩
    · exact h
    · exact absurd (by rw [h]; simp) (hnone w)
  have hsource := source_openTokens s
  rw [hts, hnil, hrun] at hsource
  simp only [source_append, source_kept, source_run, List.nil_append] at hsource
  have hsourceLine : (source p).reverse.head?.any (· != '\n') = false := by
    rcases hbegin with rfl | ⟨p', rfl⟩
    · rfl
    · simp
  have hlabel := label_source (l := l) (q := (· != ']')) (fun w hw => cut_openTokens (s := s) (by rw [hts]; simp [hw]))
    (List.all_eq_true.mp (by decide)) (fun c hc => bne_iff_ne.mpr fun heq => hl (heq ▸ hc))
  have hnonempty : source l ≠ [] := by
    intro hempty
    apply hne
    rw [join_eq_nil_iff]
    intro t ht
    cases t with
    | kept c =>
      have : c ∈ source l := List.mem_flatMap.mpr ⟨_, ht, List.mem_singleton.mpr rfl⟩
      rw [hempty] at this
      cases this
    | cut w => exact ⟨w, rfl⟩
  obtain ⟨n, hn⟩ := (mdRefDef_iff (source p).reverse _).mpr ⟨hsourceLine, join [] x, source l, source r, rfl, hx, hnonempty,
    fun hmem => absurd (hlabel _ hmem) (by decide)⟩
  exact findall_eq_nil_iff.mp hs _ _ hsource.symm (by simp) n hn

end

/-! ## What is put together is there -/

theorem infix_of_spelled {m : Str} {ts : List (Tok Char)} (h : SpelledAcross m ts) : m <:+: join [] ts := by
  obtain ⟨p, a, w, b, r, rfl, _, _, rfl⟩ := h
  exact ⟨join [] p, join [] r, by simp⟩

theorem findall_link_of_across {ts : List (Tok Char)} (h : LinkAcross ts) : findall mdLink (join [] ts) ≠ [] := by
  obtain ⟨p, l, q, b, r, rfl, hl, hq, _⟩ := h
  obtain ⟨n, hn⟩ := (mdLink_iff (join [] p).reverse _).mpr ⟨join [] l, join [] b, join [] r, rfl, hl⟩
  intro hnone
  refine findall_eq_nil_iff.mp hnone _ _ ?_ (List.cons_ne_nil _ _) n hn
  simp only [join_append, join_kept, join_eq_nil_iff.mpr hq, List.nil_append]

theorem findall_refDef_of_across {ts : List (Tok Char)} (h : RefDefAcross ts) : findall mdRefDef (join [] ts) ≠ [] := by
  obtain ⟨p, x, l, q, r, rfl, hbegin, hx, hq, hne, hl, _⟩ := h
  have hline : (join [] p).reverse.head?.any (· != '\n') = false := by
    rcases hbegin with rfl | ⟨p', rfl⟩
    · rfl
    · simp
  obtain ⟨n, hn⟩ := (mdRefDef_iff (join [] p).reverse _).mpr ⟨hline, join [] x, join [] l, join [] r, rfl, hx, hne, hl⟩
  intro hnone
  refine findall_eq_nil_iff.mp hnone _ _ ?_ (by simp) n hn
  simp only [join_append, join_kept, join_eq_nil_iff.mpr hq, List.nil_append]

/-! ## The result -/

/-- **The markup pass comes to an end, and leaves no construct** exactly when the removal of the
comment openers puts none together. -/
theorem stripMarkup_free_iff (text : Str) :
    (stripPass (settled text) = settled text ∧ MarkupFree (stripMarkup text)) ↔ ¬ Reassembled (settled text) := by
  have hfixed : stripPass (settled text) = settled text := stripLoop_fixed text.length text (Nat.le_refl _)
  obtain ⟨_, _, htag, hlink, hrefDef, hopener⟩ := stripLoop_clean text
  have himage : ¬ ['!', '['] <:+: settled text := (findall_exactly_eq_nil_iff (by decide)).mp hopener
  rw [stripMarkup_eq]
  constructor
  · intro ⟨_, hfree⟩ h
    rcases h with h | h | h | h
    · exact hfree.opener (infix_of_spelled h)
    · exact hfree.imageOpener (infix_of_spelled h)
    · exact findall_link_of_across h hfree.link
    · exact findall_refDef_of_across h hfree.refDef
  · intro h
    rw [Reassembled, not_or, not_or, not_or] at h
    obtain ⟨hopener, himages, hlinks, hrefDefs⟩ := h
    have hno : ¬ "<!--".toList <:+: join [] (openTokens (settled text)) := fun h => hopener (opener_spelled h)
    have hnoImage : ¬ ['!', '['] <:+: join [] (openTokens (settled text)) :=
      fun h => himages (imageOpener_spelled himage h)
    refine ⟨hfixed, ⟨?_, no_tag htag, ?_, ?_, ?_, hnoImage, hno⟩⟩
    · by_contra hne
      obtain ⟨p, t, n, hpt, hn⟩ := exists_place hne
      exact hno ((opener_of_htmlComment hn).isInfix.trans ⟨p, [], by rw [hpt, List.append_nil]⟩)
    · by_contra hne
      obtain ⟨p, t, n, hpt, hn⟩ := exists_place hne
      exact hnoImage ((opener_of_mdImage hn).isInfix.trans ⟨p, [], by rw [hpt, List.append_nil]⟩)
    · by_contra hne
      exact hlinks (link_across hlink hne)
    · by_contra hne
      exact hrefDefs (refDef_across hrefDef hne)

/-- An opener inside an opener. -/
theorem stripMarkup_nested : "<!--".toList <:+: stripMarkup "<!<!----".toList := by
  decide +kernel

end CiteVyn.Mcp
