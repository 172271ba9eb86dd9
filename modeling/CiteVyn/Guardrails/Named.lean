import CiteVyn.Guardrails.Wordings

/-! # Every product that is named

Phrases of two products share no word where they stand, so no match of one pattern overlaps a
match of another: `classify_domains` leaves out no product whose pattern occurs. -/
namespace CiteVyn.Guardrails
open CiteVyn.Lib.Backtrack CiteVyn.Lib.Phrases CiteVyn.Lib.Scan CiteVyn.Text CiteVyn.Answer
open CiteVyn.Llm (foldingDatabase)

section Spec
variable {u : Unicode}

/-! ## Matches do not overlap -/

theorem Finds.apart_from {hu : Letters u} {m m' : Pattern Char} {wss vss : List (List Str)} (h : Finds hu m wss)
    (h' : Finds hu m' vss) (hapart : apart wss vss = true) {s : Str} {i j k l : Nat} (hm : MatchAt m s i j)
    (hm' : MatchAt m' s k l) (hik : i ≤ k) : j ≤ k := by
  by_contra hkj
  obtain ⟨ws, hws, t, post, ht, hlen, hstands⟩ := h.sound _ _ _ hm
  obtain ⟨vs, hvs, z, post', hz, _, hstands'⟩ := h'.sound _ _ _ hm'
  obtain ⟨n, rfl⟩ := Nat.exists_eq_add_of_le hik
  have hn : n < t.length := by omega
  have hdrop : s.drop (i + n) = t.drop n ++ post := by
    rw [← List.drop_drop, ht, List.drop_append_of_le_length (by omega)]
  have htake : (s.take (i + n)).reverse = (t.take n).reverse ++ (s.take i).reverse := by
    rw [List.take_add, ht, List.take_append_of_le_length (by omega), List.reverse_append]
  rw [htake] at hstands'
  have hne : t.drop n ≠ [] := by
    rw [← List.length_pos_iff, List.length_drop]
    omega
  have hsplit : t = t.take n ++ t.drop n := (List.take_append_drop n t).symm
  rw [hsplit] at hstands
  obtain ⟨d, hd, _, hread⟩ := hstands.overlap hne hstands' (by rw [← hdrop, hz])
  exact apart_spec hapart hws hvs hd hread

theorem Finds.disjoint {hu : Letters u} {m m' : Pattern Char} {wss vss : List (List Str)} (h : Finds hu m wss)
    (h' : Finds hu m' vss) (hapart : apart wss vss = true) (hapart' : apart vss wss = true) {s : Str} {a b : Nat × Nat}
    (ha : a ∈ finditer m s) (hb : b ∈ finditer m' s) : overlaps b a = false := by
  obtain ⟨_, _, hma⟩ := (finditer_ordered h.matches_in_text s).mem ha
  obtain ⟨_, _, hmb⟩ := (finditer_ordered h'.matches_in_text s).mem hb
  rw [overlaps, Bool.and_eq_false_iff, decide_eq_false_iff_not, decide_eq_false_iff_not, Nat.not_lt, Nat.not_lt]
  rcases Nat.le_total a.1 b.1 with hle | hle
  · exact .inl (h.apart_from h' hapart hma hmb hle)
  · exact .inr (h'.apart_from h hapart' hmb hma hle)

theorem ordered_apart {P : Nat → Nat → Prop} {len : Nat} {spans : List (Nat × Nat)} {last : Nat}
    (h : Ordered P len last spans) : (∀ a ∈ spans, last ≤ a.1) ∧ spans.Pairwise fun a b => overlaps b a = false := by
  induction spans generalizing last with
  | nil => exact ⟨fun _ ha => (List.not_mem_nil ha).elim, .nil⟩
  | cons span spans ih =>
    obtain ⟨hlast, hlt, _, _, hrest⟩ := h
    obtain ⟨hle, hpair⟩ := ih hrest
    refine ⟨fun a ha => ?_, .cons (fun b hb => ?_) hpair⟩
    · rcases List.mem_cons.mp ha with rfl | ha
      · exact hlast
      · have := hle a ha
        omega
    · rw [overlaps, Bool.and_eq_false_iff, decide_eq_false_iff_not, Nat.not_lt]
      exact .inl (hle b hb)

/-! ## The loops -/

theorem foldl_add (domain : Domain) (spans : List (Nat × Nat)) (named : Named)
    (hfree : ∀ a ∈ named.matchedSpans, ∀ b ∈ spans, overlaps b a = false)
    (hown : spans.Pairwise fun a b => overlaps b a = false) :
    spans.foldl (Named.add domain) named =
      { matchedSpans := named.matchedSpans ++ spans
        domains := if spans = [] ∨ domain ∈ named.domains then named.domains else named.domains ++ [domain] } := by
  induction spans generalizing named with
  | nil => simp
  | cons span spans ih =>
    have hspan : named.matchedSpans.any (overlaps span) = false := by
      rw [List.any_eq_false]
      intro a ha
      rw [hfree a ha span List.mem_cons_self]
      exact Bool.false_ne_true
    obtain ⟨hfirst, hown⟩ := List.pairwise_cons.mp hown
    rw [List.foldl_cons, Named.add, hspan, if_neg Bool.false_ne_true, ih]
    · by_cases hmem : domain ∈ named.domains <;> simp [hmem]
    · intro a ha b hb
      rcases List.mem_append.mp ha with ha | ha
      · exact hfree a ha b (List.mem_cons_of_mem _ hb)
      · obtain rfl := List.mem_singleton.mp ha
        exact hfirst b hb
    · exact hown

/-- Where no two patterns' matches overlap, the domains collected are those whose pattern occurs. -/
theorem collected_eq (s : Str) (ps : List (Domain × Pattern Char)) (named : Named)
    (hnodup : (named.domains ++ ps.map Prod.fst).Nodup)
    (hfree : ∀ p ∈ ps, ∀ a ∈ named.matchedSpans, ∀ b ∈ finditer p.2 s, overlaps b a = false)
    (hown : ∀ p ∈ ps, (finditer p.2 s).Pairwise fun a b => overlaps b a = false)
    (hothers : ps.Pairwise fun p q => ∀ a ∈ finditer p.2 s, ∀ b ∈ finditer q.2 s, overlaps b a = false) :
    (ps.foldl (fun named p => (finditer p.2 s).foldl (Named.add p.1) named) named).domains =
      named.domains ++ (ps.filter fun p => search p.2 s).map Prod.fst := by
  induction ps generalizing named with
  | nil => simp
  | cons p ps ih =>
    obtain ⟨hfirst, hothers⟩ := List.pairwise_cons.mp hothers
    have hnew : p.1 ∉ named.domains := by
      intro hmem
      exact List.disjoint_of_nodup_append hnodup hmem (List.mem_map_of_mem List.mem_cons_self)
    have hnil := finditer_ne_nil_iff p.2 s
    rw [List.foldl_cons, foldl_add p.1 _ named (hfree p List.mem_cons_self) (hown p List.mem_cons_self), ih]
    · by_cases hsearch : search p.2 s = true
      · rw [if_neg (not_or.mpr ⟨hnil.mpr hsearch, hnew⟩), List.filter_cons, if_pos hsearch]
        simp
      · rw [if_pos (.inl (not_not.mp fun h => hsearch (hnil.mp h))), List.filter_cons, if_neg hsearch]
    · split
      · exact hnodup.sublist ((List.Sublist.refl _).append (List.sublist_cons_self _ _))
      · simpa using hnodup
    · intro q hq a ha b hb
      rcases List.mem_append.mp ha with ha | ha
      · exact hfree q (List.mem_cons_of_mem _ hq) a ha b hb
      · exact hfirst q hq a ha b hb
    · exact fun q hq => hown q (List.mem_cons_of_mem _ hq)
    · exact hothers

theorem multihop_domains : (multihopPatterns u).map Prod.fst = [.claudeCode, .claudeApi, .geminiApi, .codex] := rfl

theorem wordings_apart : ((multihopPatterns u).map Prod.fst).Pairwise fun d e =>
    apart (wordings d) (wordings e) = true ∧ apart (wordings e) (wordings d) = true := by
  rw [multihop_domains]
  decide +kernel

theorem classifyDomain_search (hu : Letters u) (question : Str) :
    classifyDomain u question = .citevyn ↔ search (citevynRe u) question = true :=
  (classifyDomain_citevyn hu question).trans (search_citevynRe hu question).symm

theorem classifyDomains_citevyn (hu : Letters u) {question : Str} (h : search (citevynRe u) question = true) :
    classifyDomains u question = [.citevyn] := by
  obtain ⟨p, rfl, hp⟩ := (search_citevynRe hu question).mp h
  rw [classifyDomains, hp.not_blank, if_neg Bool.false_ne_true, if_pos h]

/-- `classify_domains` is a filter of the patterns, where the product itself is not named. -/
theorem classifyDomains_eq (hu : Letters u) {question : Str} (h : search (citevynRe u) question = false) :
    classifyDomains u question = ((multihopPatterns u).filter fun p => search p.2 question).map Prod.fst := by
  have hfinds := finds_multihop hu
  rw [classifyDomains, h, if_neg Bool.false_ne_true]
  split
  · rename_i hblank
    have hnone : (multihopPatterns u).filter (fun p => search p.2 question) = [] := by
      refine List.filter_eq_nil_iff.mpr fun p hp hsearch => ?_
      rw [(hfinds p hp).search_blank hblank] at hsearch
      cases hsearch
    rw [hnone]
    rfl
  · rw [collected_eq question (multihopPatterns u) {} (by rw [multihop_domains]; decide)]
    · rfl
    · exact fun p _ a ha => (List.not_mem_nil ha).elim
    · exact fun p hp => (ordered_apart (finditer_ordered (hfinds p hp).matches_in_text question)).2
    · refine (List.pairwise_map.mp (wordings_apart (u := u))).imp_of_mem fun hp hq hapart a ha b hb => ?_
      exact (hfinds _ hp).disjoint (hfinds _ hq) hapart.1 hapart.2 ha hb

theorem patterns_eq : patterns u = (.citevyn, citevynRe u) :: (multihopPatterns u ++ [(.claudeApi, claudeRe u)]) := rfl

/-- Past the product's own name the first product named decides, and the bare "claude" last. -/
theorem classifyDomain_eq (hu : Letters u) {question : Str} (h : search (citevynRe u) question = false) :
    classifyDomain u question = ((classifyDomains u question).head?.or
      (if search (claudeRe u) question then some .claudeApi else none)).getD .unsupported := by
  by_cases hblank : (strip question).isEmpty = true
  · rw [classifyDomain, if_pos hblank, classifyDomains, if_pos hblank, (finds_claude hu).search_blank hblank]
    rfl
  · rw [classifyDomain, if_neg hblank, classifyDomains_eq hu h, patterns_eq, List.find?_cons_of_neg (by simpa using h),
      List.find?_append, List.head?_map, List.head?_filter]
    cases (multihopPatterns u).find? fun p => search p.2 question with
    | some p => rfl
    | none => cases hclaude : search (claudeRe u) question <;> simp [hclaude]

/-- **`classify_domains` names every product named**, in the order of the patterns and each once;
`classify_domain` is the first of them. -/
theorem classifyDomains_spec (hu : Letters u) (question : Str) :
    (classifyDomains u question = [.citevyn] ↔ classifyDomain u question = .citevyn) ∧
      (classifyDomain u question ≠ .citevyn →
        (classifyDomains u question).Nodup ∧
          (classifyDomains u question).Sublist ((multihopPatterns u).map Prod.fst) ∧
            ∀ d, d ∈ classifyDomains u question ↔ ∃ p ∈ multihopPatterns u, p.1 = d ∧ search p.2 question = true) ∧
      (∀ d, (classifyDomains u question).head? = some d → classifyDomain u question = d) ∧
      (classifyDomains u question = [] → classifyDomain u question = .unsupported ∨
        classifyDomain u question = .claudeApi ∧ search (claudeRe u) question = true) := by
  cases hsearch : search (citevynRe u) question with
  | true =>
    have hdomain := (classifyDomain_search hu question).mpr hsearch
    have hdomains := classifyDomains_citevyn hu hsearch
    refine ⟨iff_of_true hdomains hdomain, fun h => absurd hdomain h, fun d hd => ?_, fun hnil => ?_⟩
    · rw [hdomains] at hd
      rw [hdomain]
      exact Option.some.inj hd
    · rw [hdomains] at hnil
      cases hnil
  | false =>
    have hdomain : classifyDomain u question ≠ .citevyn := by
      intro hdomain
      rw [(classifyDomain_search hu question).mp hdomain] at hsearch
      cases hsearch
    have hdomains := classifyDomains_eq hu hsearch
    have hsub : (classifyDomains u question).Sublist ((multihopPatterns u).map Prod.fst) := by
      rw [hdomains]
      exact List.filter_sublist.map _
    have hmem : ∀ d, d ∈ classifyDomains u question ↔
        ∃ p ∈ multihopPatterns u, p.1 = d ∧ search p.2 question = true := by
      intro d
      rw [hdomains]
      simp only [List.mem_map, List.mem_filter]
      exact exists_congr fun p => by tauto
    have hfirst := classifyDomain_eq hu hsearch
    refine ⟨iff_of_false (fun h => ?_) hdomain, fun _ => ⟨hsub.nodup (by rw [multihop_domains]; decide), hsub, hmem⟩,
      fun d hd => ?_, fun hnil => ?_⟩
    · rw [h, multihop_domains] at hsub
      exact absurd (hsub.subset List.mem_cons_self) (by decide)
    · rw [hfirst, hd]
      rfl
    · rw [hfirst, hnil]
      cases hclaude : search (claudeRe u) question with
      | false => exact .inl rfl
      | true => exact .inr ⟨rfl, rfl⟩

theorem classifyDomains_spec_two :
    classifyDomains foldingDatabase "Is codex cheaper than the Claude API?".toList = [.claudeApi, .codex] ∧
      classifyDomain foldingDatabase "Is codex cheaper than the Claude API?".toList = .claudeApi := by
  have hdomains :
      classifyDomains foldingDatabase "Is codex cheaper than the Claude API?".toList = [.claudeApi, .codex] := by
    decide +kernel
  have hspec := classifyDomains_spec letters_folding "Is codex cheaper than the Claude API?".toList
  exact ⟨hdomains, hspec.2.2.1 .claudeApi (by rw [hdomains]; rfl)⟩

end Spec

end CiteVyn.Guardrails
