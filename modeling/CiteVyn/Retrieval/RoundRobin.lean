import CiteVyn.Retrieval.Merge

/-! # Evidence for several products

`_round_robin_merge` and `_keep_each_area`, as `retrieve_multi` puts them together
behind `Reranker.rerank`, which keeps the first hits as they are. -/
namespace CiteVyn.Retrieval
open CiteVyn.Answer CiteVyn.Lib.Firsts CiteVyn.Text

variable {V : Type*}

/-! ## The merge -/

/-- The hits at one position of the lists. -/
def row (perAreaHits : List (List (EvidenceHit V))) (rank : Nat) : List (EvidenceHit V) :=
  perAreaHits.filterMap fun hits => hits[rank]?

/-- What the loops of `_round_robin_merge` go over up to a position. -/
def rows (perAreaHits : List (List (EvidenceHit V))) (n : Nat) : List (EvidenceHit V) :=
  (List.range n).flatMap (row perAreaHits)

/-- The chunk is at the position in some list. -/
def AtPosition (perAreaHits : List (List (EvidenceHit V))) (id : String) (r : Nat) : Prop :=
  ∃ hits ∈ perAreaHits, ∃ hit, hits[r]? = some hit ∧ hit.chunkId = id

def SmallestPosition (perAreaHits : List (List (EvidenceHit V))) (id : String) (r : Nat) : Prop :=
  AtPosition perAreaHits id r ∧ ∀ s < r, ¬ AtPosition perAreaHits id s

theorem foldl_putKey_firstOfEachChunk (hits : List (EvidenceHit V)) {seen keys : List String}
    (hseen : ∀ id, id ∈ seen ↔ id ∈ keys) :
    keys ++ hitIds (firstOfEachChunk seen hits) = (hitIds hits).foldl putKey keys := by
  induction hits generalizing seen keys with
  | nil => simp [firstOfEachChunk]
  | cons hit hits ih =>
    rw [firstOfEachChunk, show hitIds (hit :: hits) = hit.chunkId :: hitIds hits from rfl, List.foldl_cons, putKey]
    by_cases h : hit.chunkId ∈ seen
    · rw [if_pos h, if_pos ((hseen _).mp h)]
      exact ih hseen
    · have hseen' : ∀ id, id ∈ hit.chunkId :: seen ↔ id ∈ keys ++ [hit.chunkId] := by
        intro id
        rw [List.mem_cons, List.mem_append, List.mem_singleton, hseen, or_comm]
      rw [if_neg h, if_neg (mt (hseen _).mpr h), ← ih hseen', List.append_assoc]
      rfl

theorem hitIds_firstOfEachChunk (hits : List (EvidenceHit V)) :
    hitIds (firstOfEachChunk [] hits) = (hitIds hits).eraseDups :=
  (foldl_putKey_firstOfEachChunk hits fun _ => Iff.rfl).trans (foldl_putKey_nil _)

theorem mem_hitIds_row {perAreaHits : List (List (EvidenceHit V))} {id : String} {r : Nat} :
    id ∈ hitIds (row perAreaHits r) ↔ AtPosition perAreaHits id r := by
  simp only [hitIds, row, List.mem_map, List.mem_filterMap, AtPosition]
  constructor
  · rintro ⟨hit, ⟨hits, hhits, hat⟩, hid⟩
    exact ⟨hits, hhits, hit, hat, hid⟩
  · rintro ⟨hits, hhits, hit, hat, hid⟩
    exact ⟨hit, ⟨hits, hhits, hat⟩, hid⟩

theorem mem_hitIds_rows {perAreaHits : List (List (EvidenceHit V))} {id : String} {n : Nat} :
    id ∈ hitIds (rows perAreaHits n) ↔ ∃ r < n, AtPosition perAreaHits id r := by
  rw [rows, hitIds, List.map_flatMap, List.mem_flatMap]
  constructor
  · rintro ⟨r, hr, hid⟩
    exact ⟨r, List.mem_range.mp hr, mem_hitIds_row.mp hid⟩
  · rintro ⟨r, hr, hat⟩
    exact ⟨r, List.mem_range.mpr hr, mem_hitIds_row.mpr hat⟩

theorem hitIds_rows_prefix (perAreaHits : List (List (EvidenceHit V))) {m n : Nat} (hmn : m ≤ n) :
    hitIds (rows perAreaHits m) <+: hitIds (rows perAreaHits n) := by
  have hrange : List.range m = (List.range n).take m := by rw [List.take_range, Nat.min_eq_left hmn]
  refine ⟨hitIds (((List.range n).drop m).flatMap (row perAreaHits)), ?_⟩
  rw [rows, hrange, ← List.map_append, ← List.flatMap_append, List.take_append_drop, rows]

theorem le_foldl_max {n : Nat} : ∀ {lengths : List Nat} {least : Nat}, n ∈ lengths ∨ n ≤ least → n ≤ lengths.foldl max least
  | [], _, h => h.resolve_left List.not_mem_nil
  | m :: lengths, least, h => by
    rw [List.foldl_cons]
    apply le_foldl_max
    rcases h with h | h
    · rcases List.mem_cons.mp h with rfl | h
      · exact .inr (Nat.le_max_right _ _)
      · exact .inl h
    · exact .inr (h.trans (Nat.le_max_left _ _))

/-- The number of positions. -/
def longest (perAreaHits : List (List (EvidenceHit V))) : Nat := (perAreaHits.map List.length).foldl max 0

theorem AtPosition.lt_longest {perAreaHits : List (List (EvidenceHit V))} {id : String} {r : Nat}
    (h : AtPosition perAreaHits id r) : r < longest perAreaHits := by
  obtain ⟨hits, hhits, hit, hat, -⟩ := h
  have hlength := (List.getElem?_eq_some_iff.mp hat).1
  exact hlength.trans_le (le_foldl_max (.inl (List.mem_map_of_mem hhits)))

theorem roundRobinMerge_eq (perAreaHits : List (List (EvidenceHit V))) :
    roundRobinMerge perAreaHits = firstOfEachChunk [] (rows perAreaHits (longest perAreaHits)) := rfl

theorem nodup_roundRobinMerge (perAreaHits : List (List (EvidenceHit V))) :
    (hitIds (roundRobinMerge perAreaHits)).Nodup := by
  rw [roundRobinMerge_eq, hitIds_firstOfEachChunk]
  exact nodup_eraseDups _

theorem mem_roundRobinMerge {perAreaHits : List (List (EvidenceHit V))} {id : String} :
    id ∈ hitIds (roundRobinMerge perAreaHits) ↔ ∃ hits ∈ perAreaHits, id ∈ hitIds hits := by
  rw [roundRobinMerge_eq, hitIds_firstOfEachChunk, List.mem_eraseDups, mem_hitIds_rows]
  constructor
  · rintro ⟨r, -, hits, hhits, hit, hat, rfl⟩
    exact ⟨hits, hhits, List.mem_map_of_mem (List.mem_of_getElem? hat)⟩
  · rintro ⟨hits, hhits, hid⟩
    obtain ⟨hit, hhit, rfl⟩ := List.mem_map.mp hid
    obtain ⟨r, hat⟩ := List.getElem?_of_mem hhit
    have hposition : AtPosition perAreaHits hit.chunkId r := ⟨hits, hhits, hit, hat, rfl⟩
    exact ⟨r, hposition.lt_longest, hposition⟩

/-- A chunk has no larger smallest position than those after it. -/
theorem roundRobinMerge_ordered (perAreaHits : List (List (EvidenceHit V))) :
    (hitIds (roundRobinMerge perAreaHits)).Pairwise fun a b => ∀ r s,
      SmallestPosition perAreaHits a r → SmallestPosition perAreaHits b s → r ≤ s := by
  rw [roundRobinMerge_eq, hitIds_firstOfEachChunk]
  refine (eraseDups_ordered _).imp fun {a b} hlt r s hr hs => ?_
  -- the positions up to that of `b` have `a` as well
  have hprefix := hitIds_rows_prefix perAreaHits hs.1.lt_longest
  have hb : b ∈ hitIds (rows perAreaHits (s + 1)) := mem_hitIds_rows.mpr ⟨s, Nat.lt_succ_self s, hs.1⟩
  obtain ⟨r', hr', hat⟩ := mem_hitIds_rows.mp (mem_prefix_of_idxOf_lt hprefix hb hlt)
  by_contra hle
  exact hr.2 r' (by omega) hat

/-! ## Each product keeps a chunk -/

/-- `Reranker.rerank`. -/
def identityRerank (_question : Str) (hits : List (EvidenceHit V)) (topK : Nat) : List (EvidenceHit V) := hits.take topK

abbrev areasOfHits (hits : List (EvidenceHit V)) : List String := hits.map fun h => h.productArea

theorem areaCount_eq (kept : List (EvidenceHit V)) (area : String) :
    areaCount kept area = kept.countP fun h => h.productArea = area := List.countP_eq_length_filter.symm

theorem areaCount_pos_iff {kept : List (EvidenceHit V)} {area : String} :
    0 < areaCount kept area ↔ area ∈ areasOfHits kept := by
  rw [areaCount_eq, List.countP_pos_iff]
  simp

/-- The index is that of a hit whose area has another. -/
theorem spareIndex_some {kept : List (EvidenceHit V)} {i : Nat} (h : spareIndex kept = some i) :
    ∃ hi : i < kept.length, 1 < areaCount kept kept[i].productArea := by
  have hp := List.find?_some h
  have hi : i < kept.length := by
    have hmem := List.mem_of_find?_eq_some h
    exact List.mem_range.mp (List.mem_reverse.mp hmem)
  rw [List.getElem?_eq_getElem hi] at hp
  exact ⟨hi, of_decide_eq_true hp⟩

/-- Without a spare, every hit has an area of its own. -/
theorem spareIndex_none {kept : List (EvidenceHit V)} (h : spareIndex kept = none) : (areasOfHits kept).Nodup := by
  rw [List.nodup_iff_count_le_one]
  intro area
  by_contra hcount
  have hcount' : 1 < areaCount kept area := by
    have hcountP : (areasOfHits kept).count area = kept.countP fun h => h.productArea = area := by
      rw [List.count, areasOfHits, List.countP_map]
      rfl
    rw [areaCount_eq, ← hcountP]
    exact not_le.mp hcount
  obtain ⟨hit, hhit, rfl⟩ := List.mem_map.mp (areaCount_pos_iff.mp (Nat.zero_lt_of_lt hcount'))
  obtain ⟨i, hi, rfl⟩ := List.getElem_of_mem hhit
  have hnone := List.find?_eq_none.mp h i (List.mem_reverse.mpr (List.mem_range.mpr hi))
  rw [List.getElem?_eq_getElem hi] at hnone
  exact hnone (decide_eq_true hcount')

/-- What the loop of `_keep_each_area` keeps. -/
structure Kept (merged : List (EvidenceHit V)) (topK : Nat) (kept : List (EvidenceHit V)) : Prop where
  subset : ∀ hit ∈ kept, hit ∈ merged
  nodup : (hitIds kept).Nodup
  length : kept.length ≤ topK

/-- The first merged hit of an area that is missing: none of its id is kept. -/
theorem Kept.new {merged kept : List (EvidenceHit V)} {topK : Nat} (h : Kept merged topK kept)
    (hmerged : (hitIds merged).Nodup) {best : EvidenceHit V} (hbest : best ∈ merged)
    (hmissing : best.productArea ∉ areasOfHits kept) : best.chunkId ∉ hitIds kept := by
  intro hmem
  obtain ⟨hit, hhit, hid⟩ := List.mem_map.mp hmem
  have heq : hit = best := List.inj_on_of_nodup_map hmerged (h.subset hit hhit) hbest hid
  exact hmissing (heq ▸ List.mem_map_of_mem hhit)

/-- What can become of the list at a missing area with a merged hit. -/
theorem keepArea_cases (merged kept : List (EvidenceHit V)) (topK : Nat) (area : String) :
    keepArea merged topK kept area = kept ∧ (area ∈ areasOfHits kept ∨ area ∉ areasOfHits merged) ∨
      ∃ best ∈ merged, best.productArea = area ∧ area ∉ areasOfHits kept ∧
        ((∃ i, spareIndex kept = some i ∧ keepArea merged topK kept area = kept.set i best) ∨
          spareIndex kept = none ∧ keepArea merged topK kept area = if kept.length < topK then kept ++ [best] else kept) := by
  unfold keepArea
  split
  · rename_i hany
    exact .inl ⟨rfl, .inl (by simpa using hany)⟩
  · rename_i hany
    have hmissing : area ∉ areasOfHits kept := by simpa using hany
    split
    · rename_i hnone
      refine .inl ⟨rfl, .inr fun hmem => ?_⟩
      obtain ⟨hit, hhit, harea⟩ := List.mem_map.mp hmem
      exact List.find?_eq_none.mp hnone hit hhit (decide_eq_true harea)
    · rename_i best hbest
      have harea : best.productArea = area := of_decide_eq_true (List.find?_some (p := fun h : EvidenceHit V => h.productArea = area) hbest)
      refine .inr ⟨best, List.mem_of_find?_eq_some hbest, harea, hmissing, ?_⟩
      split
      · rename_i i hi
        exact .inl ⟨i, hi, rfl⟩
      · rename_i hnone
        exact .inr ⟨hnone, rfl⟩

theorem Kept.keepArea {merged kept : List (EvidenceHit V)} {topK : Nat} (h : Kept merged topK kept)
    (hmerged : (hitIds merged).Nodup) (area : String) : Kept merged topK (keepArea merged topK kept area) := by
  rcases keepArea_cases merged kept topK area with ⟨heq, -⟩ |
    ⟨best, hbest, rfl, hmissing, ⟨i, hspare, heq⟩ | ⟨hspare, heq⟩⟩
  · rwa [heq]
  · have hnew := h.new hmerged hbest hmissing
    rw [heq]
    refine ⟨fun hit hhit => ?_, ?_, by simpa using h.length⟩
    · exact (List.mem_or_eq_of_mem_set hhit).elim (h.subset hit) fun heq => heq ▸ hbest
    · rw [hitIds, List.map_set]
      exact h.nodup.set hnew
  · have hnew := h.new hmerged hbest hmissing
    rw [heq]
    split
    · rename_i hshort
      refine ⟨fun hit hhit => ?_, ?_, by simpa using Nat.succ_le_of_lt hshort⟩
      · exact (List.mem_append.mp hhit).elim (h.subset hit) fun hmem => List.mem_singleton.mp hmem ▸ hbest
      · rw [hitIds, List.map_append, List.nodup_append]
        refine ⟨h.nodup, List.nodup_singleton _, fun a ha b hb hab => ?_⟩
        rw [hab, List.mem_singleton.mp hb] at ha
        exact hnew ha
    · exact h

/-- A swap never takes the last hit of an area. -/
theorem areas_keepArea {merged kept : List (EvidenceHit V)} {topK : Nat} {area other : String}
    (h : other ∈ areasOfHits kept) : other ∈ areasOfHits (keepArea merged topK kept area) := by
  rcases keepArea_cases merged kept topK area with ⟨heq, -⟩ |
    ⟨best, hbest, rfl, hmissing, ⟨i, hspare, heq⟩ | ⟨hspare, heq⟩⟩
  · rwa [heq]
  · obtain ⟨hi, hcount⟩ := spareIndex_some hspare
    rw [heq, ← areaCount_pos_iff, areaCount_eq, List.countP_set hi]
    have hpos := areaCount_pos_iff.mpr h
    rw [areaCount_eq] at hpos hcount
    by_cases hother : kept[i].productArea = other
    · rw [hother] at hcount
      simp only [hother, decide_true, if_true]
      omega
    · simp only [hother, decide_false, Bool.false_eq_true, if_false]
      omega
  · rw [heq]
    split
    · rw [areasOfHits, List.map_append]
      exact List.mem_append_left _ h
    · exact h

/-- Where the areas of the merged hits fit, a missing area finds a spare hit or room. -/
theorem area_mem_keepArea {merged kept : List (EvidenceHit V)} {topK : Nat} {area : String}
    (h : Kept merged topK kept) (hfit : (areasOfHits merged).dedup.length ≤ topK) (harea : area ∈ areasOfHits merged) :
    area ∈ areasOfHits (keepArea merged topK kept area) := by
  rcases keepArea_cases merged kept topK area with ⟨heq, hin⟩ |
    ⟨best, hbest, rfl, hmissing, ⟨i, hspare, heq⟩ | ⟨hspare, heq⟩⟩
  · rw [heq]
    exact hin.resolve_right (not_not.mpr harea)
  · obtain ⟨hi, -⟩ := spareIndex_some hspare
    rw [heq, areasOfHits, List.map_set]
    exact List.mem_set (by simpa using hi) _
  · -- one hit for each area, and one area more among the merged hits
    have hnodup : (best.productArea :: areasOfHits kept).Nodup := List.nodup_cons.mpr ⟨hmissing, spareIndex_none hspare⟩
    have hsub : best.productArea :: areasOfHits kept ⊆ (areasOfHits merged).dedup := by
      intro a ha
      rw [List.mem_dedup]
      rcases List.mem_cons.mp ha with rfl | ha
      · exact harea
      · obtain ⟨hit, hhit, rfl⟩ := List.mem_map.mp ha
        exact List.mem_map_of_mem (h.subset hit hhit)
    have hlength := (List.subperm_of_subset hnodup hsub).length_le
    rw [List.length_cons, List.length_map] at hlength
    rw [heq, if_pos (by omega), areasOfHits, List.map_append]
    exact List.mem_append_right _ (List.mem_singleton.mpr rfl)

theorem Kept.keepEachArea {merged kept : List (EvidenceHit V)} {topK : Nat} (h : Kept merged topK kept)
    (hmerged : (hitIds merged).Nodup) (areas : List String) :
    Kept merged topK (keepEachArea kept merged areas topK) ∧
      (∀ area ∈ areasOfHits kept, area ∈ areasOfHits (keepEachArea kept merged areas topK)) ∧
      ((areasOfHits merged).dedup.length ≤ topK → ∀ area ∈ areas, area ∈ areasOfHits merged →
        area ∈ areasOfHits (keepEachArea kept merged areas topK)) := by
  induction areas generalizing kept with
  | nil => exact ⟨h, fun _ harea => harea, fun _ _ harea => absurd harea List.not_mem_nil⟩
  | cons first areas ih =>
    obtain ⟨hkept, hstay, hareas⟩ := ih (h.keepArea hmerged first)
    refine ⟨hkept, fun area harea => hstay area (areas_keepArea harea), fun hfit area hmem harea => ?_⟩
    rcases List.mem_cons.mp hmem with rfl | hmem
    · exact hstay area (area_mem_keepArea h hfit harea)
    · exact hareas hfit area hmem harea

/-- The hits of `retrieve_multi` with those of its areas. -/
def multiHits (question : Str) (perAreaHits : List (List (EvidenceHit V))) (areas : List String) (topK : Nat) :
    List (EvidenceHit V) :=
  let merged := roundRobinMerge perAreaHits
  ranked (keepEachArea (identityRerank question merged topK) merged areas topK)

theorem retrieveMulti_hits [LinearOrder V] (r : HybridRetriever V) (table : IndexTable V) (out : Nat → Outside V)
    (question : Str) (productAreas : List String) (intent : Intent) (limit topK : Nat)
    (hrerank : ∀ i, (out i).rerank = identityRerank) :
    (retrieveMulti r table out question productAreas intent limit topK).hits =
      multiHits question ((retrieveAreas r table out question (productAreas.take maxMultihopDomains) intent limit
        topK).map RetrievalResult.hits) (productAreas.take maxMultihopDomains) topK := by
  have hfinalize : ∀ (hits : List (EvidenceHit V)) degrade, (finalize r table hits degrade).hits = hits := by
    intro hits degrade
    unfold finalize
    split <;> rfl
  rw [retrieveMulti, hfinalize, hrerank, multiHits]

theorem hitIds_ranked (hits : List (EvidenceHit V)) : hitIds (ranked hits) = hitIds hits := by
  apply List.ext_getElem
  · simp [ranked]
  · intro i hi hi'
    simp [ranked]

theorem areasOfHits_ranked (hits : List (EvidenceHit V)) : areasOfHits (ranked hits) = areasOfHits hits := by
  apply List.ext_getElem
  · simp [ranked]
  · intro i hi hi'
    simp [ranked]

/-- Each chunk once, by its smallest position; and of that the evidence for the
question: no chunk twice, no more than asked for, ranked from 1 on, and with a hit of
each area searched that has one, where the areas are not more than the hits. -/
theorem multiHits_each_area (question : Str) (perAreaHits : List (List (EvidenceHit V))) (areas : List String)
    (topK : Nat) :
    ((hitIds (roundRobinMerge perAreaHits)).Nodup ∧
      (∀ id, id ∈ hitIds (roundRobinMerge perAreaHits) ↔ ∃ hits ∈ perAreaHits, id ∈ hitIds hits) ∧
      ∀ (i j : Nat) (a b : EvidenceHit V), (roundRobinMerge perAreaHits)[i]? = some a →
        (roundRobinMerge perAreaHits)[j]? = some b → ∀ r s, SmallestPosition perAreaHits a.chunkId r →
        SmallestPosition perAreaHits b.chunkId s → r < s → i < j) ∧
      (hitIds (multiHits question perAreaHits areas topK)).Nodup ∧
      (multiHits question perAreaHits areas topK).length ≤ topK ∧
      (∀ (i : Nat) (hit : EvidenceHit V), (multiHits question perAreaHits areas topK)[i]? = some hit → hit.rank = i + 1) ∧
      ((areasOfHits (roundRobinMerge perAreaHits)).dedup.length ≤ topK →
        ∀ area ∈ areas, area ∈ areasOfHits (roundRobinMerge perAreaHits) →
          area ∈ areasOfHits (multiHits question perAreaHits areas topK)) := by
  have hnodup := nodup_roundRobinMerge perAreaHits
  have hstart : Kept (roundRobinMerge perAreaHits) topK (identityRerank question (roundRobinMerge perAreaHits) topK) := {
    subset := fun hit hhit => List.mem_of_mem_take hhit
    nodup := hnodup.sublist ((List.take_sublist _ _).map _)
    length := List.length_take_le _ _ }
  obtain ⟨hkept, -, hareas⟩ := hstart.keepEachArea hnodup areas
  refine ⟨⟨hnodup, fun id => mem_roundRobinMerge, ?_⟩, ?_, ?_, ?_, ?_⟩
  · intro i j a b ha hb r s hr hs hlt
    obtain ⟨hi, rfl⟩ := List.getElem?_eq_some_iff.mp ha
    obtain ⟨hj, rfl⟩ := List.getElem?_eq_some_iff.mp hb
    have hordered := List.pairwise_map.mp (roundRobinMerge_ordered perAreaHits)
    rcases lt_trichotomy i j with h | rfl | h
    · exact h
    · exact absurd hr.1 (hs.2 r hlt)
    · exact absurd (List.pairwise_iff_getElem.mp hordered j i hj hi h s r hs hr) (by omega)
  · rw [multiHits, hitIds_ranked]
    exact hkept.nodup
  · simpa [multiHits, ranked] using hkept.length
  · intro i hit hhit
    simp only [multiHits, ranked, List.getElem?_mapIdx, Option.map_eq_some_iff] at hhit
    obtain ⟨before, -, rfl⟩ := hhit
    rfl
  · intro hfit area harea hmerged
    rw [multiHits, areasOfHits_ranked]
    exact hareas hfit area harea hmerged

end CiteVyn.Retrieval
