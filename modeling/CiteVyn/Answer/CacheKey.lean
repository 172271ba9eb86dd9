import CiteVyn.Answer.Orchestrator
import Mathlib.Data.Finset.Card
import Mathlib.Data.List.Sort

/-! # The key of the answer cache

`build_cache_key` of `app/cache/answer_cache.py`: five fields with a unit
separator between them, and the digest of that text. The question is what a user
sent and may hold the separator itself; it is the first field, so the other four
can still be read from the end. -/
namespace CiteVyn.Answer
open CiteVyn.Text

/-- `_KEY_SEPARATOR`. -/
def keySeparator : Char := '\x1f'

def CacheKey.fieldsAfterQuestion (k : CacheKey) : List Str :=
  [k.productArea.toList, k.sourceVersionHash.toList, k.answerPolicyVersion.toList,
    k.embedderIdentity.toList]

/-- The text that `build_cache_key` digests. -/
def CacheKey.preImage (k : CacheKey) : Str :=
  [keySeparator].intercalate (k.normalizedQuestion :: k.fieldsAfterQuestion)

def buildCacheKey (sha256 : Str → Str) (k : CacheKey) : Str := sha256 k.preImage

/-- No field after the question holds the separator. -/
def SeparatorFree (k : CacheKey) : Prop := ∀ field ∈ k.fieldsAfterQuestion, keySeparator ∉ field

/-- The two texts are no collision of the digest. -/
def NoCollision (sha256 : Str → Str) (text text' : Str) : Prop :=
  sha256 text = sha256 text' → text = text'

/-- The areas that a question is answered from. -/
def areasOf (route : Route) : List Domain :=
  if multiHop route then route.multiDomains else [route.domain]

/-! ## The fields can be read back -/

/-- A first field is arbitrary, the others hold no separator: splitting leaves
the others whole. -/
theorem splitOn_intercalate_cons {x : Char} (first : Str) {fields : List Str}
    (hfree : ∀ field ∈ fields, x ∉ field) :
    ([x].intercalate (first :: fields)).splitOn x = first.splitOn x ++ fields := by
  cases fields with
  | nil => simp
  | cons field fields =>
    have hrest := List.splitOn_intercalate x hfree (by simp)
    simp only [List.intercalate_cons_cons, List.append_assoc, List.singleton_append]
    rw [List.splitOn_append_cons_self, hrest]

theorem preImage_injective {k k' : CacheKey} (hk : SeparatorFree k) (hk' : SeparatorFree k')
    (h : k.preImage = k'.preImage) : k = k' := by
  have hsplit : k.normalizedQuestion.splitOn keySeparator ++ k.fieldsAfterQuestion =
      k'.normalizedQuestion.splitOn keySeparator ++ k'.fieldsAfterQuestion := by
    rw [← splitOn_intercalate_cons _ hk, ← splitOn_intercalate_cons _ hk']
    exact congrArg (List.splitOn keySeparator) h
  obtain ⟨hquestion, hfields⟩ := List.append_inj' hsplit rfl
  have hquestion' : k.normalizedQuestion = k'.normalizedQuestion := by
    have hjoined := congrArg [keySeparator].intercalate hquestion
    rwa [List.intercalate_splitOn, List.intercalate_splitOn] at hjoined
  simp only [CacheKey.fieldsAfterQuestion, List.cons.injEq, String.toList_inj, and_true] at hfields
  cases k
  cases k'
  simp_all

/-! ## The area field -/

theorem value_injective : Function.Injective Domain.value := by
  intro a b h
  cases a <;> cases b <;> first | rfl | (simp [Domain.value] at h)

theorem areasOf_ne_nil (route : Route) : areasOf route ≠ [] := by
  unfold areasOf
  split
  · rename_i hmulti
    intro hnil
    simp [multiHop, hnil] at hmulti
  · simp

/-- One area is a join of one value. -/
theorem cacheProductArea_eq (route : Route) :
    cacheProductArea route = "+".intercalate (((areasOf route).map Domain.value).insertionSort (· ≤ ·)) := by
  unfold cacheProductArea areasOf
  split <;> simp

theorem plus_not_mem_value (d : Domain) : '+' ∉ d.value.toList := by
  cases d <;> decide

theorem splitOn_cacheProductArea (route : Route) :
    (cacheProductArea route).toList.splitOn '+' =
      (((areasOf route).map Domain.value).insertionSort (· ≤ ·)).map String.toList := by
  rw [cacheProductArea_eq, String.toList_intercalate]
  apply List.splitOn_intercalate
  · intro l hl
    obtain ⟨value, hvalue, rfl⟩ := List.mem_map.mp hl
    obtain ⟨d, -, rfl⟩ := List.mem_map.mp ((List.mem_insertionSort _).mp hvalue)
    exact plus_not_mem_value d
  · intro hnil
    have hlength := congrArg List.length hnil
    simp [areasOf_ne_nil] at hlength

theorem areasOf_perm {route route' : Route} (h : cacheProductArea route = cacheProductArea route') :
    (areasOf route).Perm (areasOf route') := by
  have hsplit := splitOn_cacheProductArea route
  rw [h, splitOn_cacheProductArea route'] at hsplit
  have hsorted := List.map_injective_iff.mpr (fun _ _ => String.toList_inj.mp) hsplit
  have hperm : ((areasOf route).map Domain.value).Perm ((areasOf route').map Domain.value) :=
    (List.perm_insertionSort (· ≤ ·) _).symm.trans (hsorted ▸ List.perm_insertionSort (· ≤ ·) _)
  exact (List.map_perm_map_iff value_injective).mp hperm

theorem mem_intercalate {c x : Char} : ∀ {ls : List Str}, c ∈ [x].intercalate ls → c = x ∨ ∃ l ∈ ls, c ∈ l
  | [], h => by simp at h
  | [l], h => .inr ⟨l, by simp, by simpa using h⟩
  | l :: m :: ls, h => by
    rw [List.intercalate_cons_cons, List.append_assoc, List.mem_append, List.mem_append] at h
    rcases h with h | h | h
    · exact .inr ⟨l, by simp, h⟩
    · exact .inl (List.mem_singleton.mp h)
    · exact (mem_intercalate h).imp_right fun ⟨l', hl', hc⟩ => ⟨l', List.mem_cons_of_mem l hl', hc⟩

theorem separator_not_mem_value (d : Domain) : keySeparator ∉ d.value.toList := by
  cases d <;> decide

/-- So the fields that could hold a separator are the three others. -/
theorem separatorFree_cacheKey {s : Settings} {env : Env} {route : Route} :
    SeparatorFree (cacheKey s env route) ↔ keySeparator ∉ env.activeIndex.2.toList ∧
      keySeparator ∉ (policyVersion s).toList ∧ keySeparator ∉ env.embedderIdentity.toList := by
  have harea : keySeparator ∉ (cacheProductArea route).toList := by
    intro hmem
    have hjoined : ['+'].intercalate ((cacheProductArea route).toList.splitOn '+') = (cacheProductArea route).toList :=
      List.intercalate_splitOn '+'
    rw [← hjoined, splitOn_cacheProductArea] at hmem
    rcases mem_intercalate hmem with heq | ⟨l, hl, hmem⟩
    · revert heq
      decide
    · obtain ⟨value, hvalue, rfl⟩ := List.mem_map.mp hl
      obtain ⟨d, -, rfl⟩ := List.mem_map.mp ((List.mem_insertionSort _).mp hvalue)
      exact separator_not_mem_value d hmem
  simp [SeparatorFree, CacheKey.fieldsAfterQuestion, cacheKey, harea]

/-! ## The key separates its inputs -/

theorem buildCacheKey_separates {k k' : CacheKey} (hk : SeparatorFree k) (hk' : SeparatorFree k') :
    (k.preImage = k'.preImage → k = k') ∧
      ∀ route route', k.productArea = cacheProductArea route → k'.productArea = cacheProductArea route' →
        (k.preImage = k'.preImage → (areasOf route).toFinset = (areasOf route').toFinset) ∧
          (2 ≤ (areasOf route).toFinset.card → (areasOf route').toFinset.card = 1 →
            ∀ sha256, NoCollision sha256 k.preImage k'.preImage → buildCacheKey sha256 k ≠ buildCacheKey sha256 k') := by
  have hinj := preImage_injective hk hk'
  refine ⟨hinj, fun route route' harea harea' => ?_⟩
  have hareas (h : k.preImage = k'.preImage) : (areasOf route).toFinset = (areasOf route').toFinset := by
    apply List.toFinset_eq_of_perm
    apply areasOf_perm
    rw [← harea, ← harea', hinj h]
  refine ⟨hareas, fun hseveral hsingle sha256 hcollision hkey => ?_⟩
  have hcard := congrArg Finset.card (hareas (hcollision hkey))
  omega

/-- A comparison. -/
def comparisonKey : CacheKey :=
  ⟨"gemini or claude".toList, "claude_api+gemini_api", "h", "v1", "voyage|m|8"⟩

/-- A question about one product, with a separator in its text. -/
def crafted : CacheKey :=
  ⟨"gemini or claude\x1fclaude_api+".toList, "gemini_api", "h", "v1", "voyage|m|8"⟩

/-- SHA-256 on the two pre-images. -/
def twoDigests (text : Str) : Str :=
  if text = comparisonKey.preImage then
    "695f218315fd2b57b8b04865318ad962b19ab2a5c3831863ca70e421d6059c39".toList
  else "a5e3b0af79ed4c640ee6d7dcac5812d63aca24c3cd7c3afdd1de36421941afb8".toList

def aboutProducts (domains : List Domain) : Route where
  greeting := false
  domain := .geminiApi
  intent := .faq
  multiDomains := domains
  retrievalQuery := []

theorem buildCacheKey_separates_comparison :
    buildCacheKey twoDigests comparisonKey ≠ buildCacheKey twoDigests crafted := by
  have hkey : SeparatorFree comparisonKey := by
    intro field hfield
    revert field
    decide
  have hkey' : SeparatorFree crafted := by
    intro field hfield
    revert field
    decide
  have hseparates := (buildCacheKey_separates hkey hkey').2 (aboutProducts [.geminiApi, .claudeApi])
    (aboutProducts [.geminiApi]) (by decide) (by decide)
  apply hseparates.2 (by decide) (by decide)
  intro heq
  revert heq
  decide

end CiteVyn.Answer
