import CiteVyn.Llm.Blocks

/-! # The table of the reverse pass

`_strip_code` fills `reachable` from the last line to the first, for both fence characters in
one loop, and then reads it one line ahead. It answers what looking through the lines again
would. -/
namespace CiteVyn.Llm
open CiteVyn.Text

/-! ## The loop -/

/-- `reachable`, by its keys. -/
structure Tables where
  tick : List Nat
  tilde : List Nat

def Tables.get (t : Tables) (c : Char) : List Nat := if c = '~' then t.tilde else t.tick

def Tables.set (t : Tables) (c : Char) (i n : Nat) : Tables :=
  if c = '~' then { t with tilde := t.tilde.set i n } else { t with tick := t.tick.set i n }

/-- The body of the reverse loop. -/
def reverseStep (lines : List Str) (t : Tables) (i : Nat) : Tables :=
  let t := ['`', '~'].foldl (fun t c => t.set c i ((t.get c).getD (i + 1) 0)) t
  let line := lines.getD i []
  match fenceRun line with
  | some (c, run) => if isBareRun line c then t.set c i (max ((t.get c).getD i 0) run) else t
  | none => t

def reversePass (lines : List Str) : Tables :=
  let zeros := List.replicate (lines.length + 1) 0
  (List.range lines.length).reverse.foldl (reverseStep lines) ⟨zeros, zeros⟩

/-- `_strip_code` over the tables of the loop. -/
def stripCodeTables (text : Str) (keepOffsets : Bool) : Str :=
  let lines := splitLines text
  joinLines (stripLines keepOffsets (reversePass lines).get 0 none lines)

/-- `_strip_code`, where the remaining lines are looked through again at each lookup. -/
def stripCodeRescan (text : Str) (keepOffsets : Bool) : Str := joinLines (stripRest keepOffsets none (splitLines text))

/-! ## What the table says -/

/-- The length of the longest line among these that is a run of three or more of the character
and nothing else, or zero. -/
structure Longest (c : Char) (lines : List Str) (n : Nat) : Prop where
  upper : ∀ line ∈ lines, ∀ k, 3 ≤ k → strip line = List.replicate k c → k ≤ n
  attained : n = 0 ∨ 3 ≤ n ∧ ∃ line ∈ lines, strip line = List.replicate n c

theorem fenceRun_long {line : Str} {c : Char} {run : Nat} (h : fenceRun line = some (c, run))
    (hbare : isBareRun line c = true) : 3 ≤ run := by
  have hstrip := strip_of_isBareRun h hbare
  unfold fenceRun at h
  split at h
  · cases h
  · rename_i d rest hbody
    dsimp only at h
    split at h
    · cases h
    · rename_i hcond
      have hlen : 3 ≤ (d :: rest).length := by
        by_contra hshort
        exact hcond (by simp only [decide_eq_true (Nat.lt_of_not_le hshort), Bool.true_or])
      rw [← hbody, hstrip, List.length_replicate] at hlen
      exact hlen

/-- A rescan finds the longest. -/
theorem longest_longestBare {c : Char} (hc : isFenceChar c = true) : ∀ lines, Longest c lines (longestBare c lines)
  | [] => ⟨fun _ h => absurd h List.not_mem_nil, .inl rfl⟩
  | line :: lines => by
    have ih := longest_longestBare hc lines
    -- a line that is no bare run changes nothing
    have hother (hnot : ∀ k, 3 ≤ k → strip line ≠ List.replicate k c) : Longest c (line :: lines) (longestBare c lines) := by
      refine ⟨List.forall_mem_cons.mpr ⟨fun k hk heq => absurd heq (hnot k hk), ih.upper⟩, ih.attained.imp_right ?_⟩
      exact fun ⟨hlong, l, hl, heq⟩ => ⟨hlong, l, List.mem_cons_of_mem _ hl, heq⟩
    unfold longestBare
    cases hrun : fenceRun line with
    | none =>
      refine hother fun k hk heq => ?_
      rw [(fenceRun_of_bare hc hk heq).1] at hrun
      cases hrun
    | some fence =>
      obtain ⟨d, run⟩ := fence
      dsimp only
      split
      · rename_i hcond
        obtain ⟨hbare, hd⟩ := Bool.and_eq_true_iff.mp hcond
        obtain rfl := beq_iff_eq.mp hd
        have hstrip := strip_of_isBareRun hrun hbare
        have hlong := fenceRun_long hrun hbare
        constructor
        · refine List.forall_mem_cons.mpr ⟨fun k _ heq => ?_, fun l hl k hk heq => ?_⟩
          · rw [hstrip] at heq
            have hlen := congrArg List.length heq
            rw [List.length_replicate, List.length_replicate] at hlen
            omega
          · exact (ih.upper l hl k hk heq).trans (Nat.le_max_left _ _)
        · right
          rcases Nat.le_total run (longestBare d lines) with hle | hle
          · rw [Nat.max_eq_left hle]
            obtain ⟨l, hl, heq⟩ := (ih.attained.resolve_left (by omega)).2
            exact ⟨hlong.trans hle, l, List.mem_cons_of_mem _ hl, heq⟩
          · rw [Nat.max_eq_right hle]
            exact ⟨hlong, line, List.mem_cons_self, hstrip⟩
      · rename_i hcond
        refine hother fun k hk heq => hcond ?_
        obtain ⟨hfence, hbare⟩ := fenceRun_of_bare hc hk heq
        rw [hrun] at hfence
        obtain ⟨rfl, rfl⟩ := Prod.mk.inj (Option.some.inj hfence)
        rw [hbare, BEq.rfl]
        rfl

/-! ## What the loop fills -/

theorem fenceChar_cases {c : Char} (h : isFenceChar c = true) : c = '`' ∨ c = '~' := by
  simpa only [isFenceChar, Bool.or_eq_true, beq_iff_eq] using h

theorem fenceRun_isFenceChar {line : Str} {c : Char} {run : Nat} (h : fenceRun line = some (c, run)) :
    isFenceChar c = true := by
  unfold fenceRun at h
  split at h
  · cases h
  · dsimp only at h
    split at h
    · cases h
    · rename_i hcond
      obtain ⟨rfl, -⟩ := Prod.mk.inj (Option.some.inj h)
      simp only [Bool.or_eq_true, Bool.not_eq_true', not_or, Bool.not_eq_false] at hcond
      exact hcond.1.2

theorem get_set {c d : Char} (hc : isFenceChar c = true) (hd : isFenceChar d = true) (t : Tables) (i n : Nat) :
    (t.set c i n).get d = if d = c then (t.get d).set i n else t.get d := by
  rcases fenceChar_cases hc with rfl | rfl
  · rcases fenceChar_cases hd with rfl | rfl
    · rfl
    · rfl
  · rcases fenceChar_cases hd with rfl | rfl
    · rfl
    · rfl

/-- From line `k` on the tables are filled. -/
def Filled (lines : List Str) (t : Tables) (k : Nat) : Prop :=
  ∀ c, isFenceChar c = true → (t.get c).length = lines.length + 1 ∧
    ∀ i, k ≤ i → i ≤ lines.length → (t.get c)[i]? = some (longestBare c (lines.drop i))

/-- One pass fills one line more. -/
theorem Filled.step {lines : List Str} {t : Tables} {k : Nat} (h : Filled lines t (k + 1)) (hk : k < lines.length) :
    Filled lines (reverseStep lines t k) k := by
  intro c hc
  obtain ⟨hlen, hfilled⟩ := h c hc
  have hline : lines.getD k [] = lines[k] := by rw [List.getD_eq_getElem?_getD, List.getElem?_eq_getElem hk, Option.getD_some]
  have hdrop : lines.drop k = lines[k] :: lines.drop (k + 1) := List.drop_eq_getElem_cons hk
  -- both entries of the line start as those of the next
  have hcarry : ((['`', '~'].foldl (fun t c => t.set c k ((t.get c).getD (k + 1) 0)) t).get c) =
      (t.get c).set k (longestBare c (lines.drop (k + 1))) := by
    have hnext : (t.get c).getD (k + 1) 0 = longestBare c (lines.drop (k + 1)) := by
      rw [List.getD_eq_getElem?_getD, hfilled (k + 1) le_rfl hk, Option.getD_some]
    rw [← hnext]
    rcases fenceChar_cases hc with rfl | rfl
    · rfl
    · rfl
  have hset (n : Nat) : ((t.get c).set k n).length = lines.length + 1 ∧ ∀ i, k + 1 ≤ i → i ≤ lines.length →
      ((t.get c).set k n)[i]? = some (longestBare c (lines.drop i)) := by
    refine ⟨by rw [List.length_set, hlen], fun i hi hle => ?_⟩
    rw [List.getElem?_set_ne (by omega), hfilled i hi hle]
  have hat (n : Nat) : ((t.get c).set k n)[k]? = some n := by
    rw [List.getElem?_set_self (by omega)]
  -- what the line adds, if it is a bare run
  obtain ⟨n, hn, htable⟩ : ∃ n, n = longestBare c (lines.drop k) ∧ (reverseStep lines t k).get c = (t.get c).set k n := by
    rw [hdrop, longestBare]
    unfold reverseStep
    dsimp only
    rw [hline]
    cases hrun : fenceRun lines[k] with
    | none => exact ⟨_, rfl, hcarry⟩
    | some fence =>
      obtain ⟨d, run⟩ := fence
      have hd := fenceRun_isFenceChar hrun
      dsimp only
      by_cases hbare : isBareRun lines[k] d = true
      · rw [if_pos hbare, hbare, Bool.true_and, get_set hd hc]
        by_cases heq : c = d
        · subst heq
          rw [if_pos rfl, if_pos (BEq.rfl), hcarry, List.getD_eq_getElem?_getD, hat, Option.getD_some, List.set_set]
          exact ⟨_, rfl, rfl⟩
        · rw [if_neg heq, if_neg (by simpa using fun h => heq h.symm)]
          exact ⟨_, rfl, hcarry⟩
      · rw [if_neg hbare, eq_false_of_ne_true hbare, Bool.false_and, if_neg Bool.false_ne_true]
        exact ⟨_, rfl, hcarry⟩
  rw [htable]
  refine ⟨(hset n).1, fun i hi hle => ?_⟩
  rcases Nat.eq_or_lt_of_le hi with rfl | hlt
  · rw [hat, hn]
  · exact (hset n).2 i hlt hle

theorem Filled.loop {lines : List Str} (n : Nat) : ∀ {t : Tables}, n ≤ lines.length → Filled lines t n →
    Filled lines ((List.range n).reverse.foldl (reverseStep lines) t) 0 := by
  induction n with
  | zero => exact fun _ h => h
  | succ n ih =>
    intro t hn h
    rw [List.range_succ, List.reverse_append, List.reverse_singleton, List.singleton_append, List.foldl_cons]
    exact ih (by omega) (h.step hn)

theorem filled_reversePass (lines : List Str) : Filled lines (reversePass lines) 0 := by
  refine Filled.loop lines.length le_rfl fun c hc => ?_
  have hzeros : (Tables.mk (List.replicate (lines.length + 1) 0) (List.replicate (lines.length + 1) 0)).get c =
      List.replicate (lines.length + 1) 0 := ite_self _
  refine ⟨by rw [hzeros, List.length_replicate], fun i hi hle => ?_⟩
  obtain rfl := Nat.le_antisymm hle hi
  rw [hzeros, List.drop_length, List.getElem?_replicate_of_lt (Nat.lt_succ_self _)]
  rfl

/-! ## Lookups -/

/-- The forward pass asks the tables for fence characters only. -/
theorem stripLines_tables {keepOffsets : Bool} {lines : List Str} {table : Char → List Nat}
    (htable : ∀ c, isFenceChar c = true → ∀ i, i ≤ lines.length → (table c)[i]? = some (longestBare c (lines.drop i)))
    (rest : List Str) : ∀ (i : Nat) (st : Option (Char × Nat)), lines.drop i = rest →
      (∀ fence, st = some fence → isFenceChar fence.1 = true) →
      stripLines keepOffsets table i st rest = stripRest keepOffsets st rest := by
  induction rest with
  | nil =>
    intro i st _ _
    cases st with
    | none => rfl
    | some fence => rfl
  | cons line rest ih =>
    intro i st hdrop hst
    have hi : i < lines.length := by
      by_contra hge
      rw [List.drop_eq_nil_of_le (Nat.le_of_not_lt hge)] at hdrop
      cases hdrop
    have hrest : lines.drop (i + 1) = rest := by
      rw [← List.drop_drop, hdrop]
      rfl
    have hlookup {c : Char} (hc : isFenceChar c = true) : (table c).getD (i + 1) 0 = longestBare c rest := by
      rw [List.getD_eq_getElem?_getD, htable c hc (i + 1) hi, Option.getD_some, hrest]
    cases st with
    | some fence =>
      have hfence := hst fence rfl
      rw [stripLines, stripRest, hlookup hfence]
      refine congrArg _ (ih _ _ hrest fun f hf => ?_)
      split at hf
      · cases hf
      · rw [← Option.some.inj hf]
        exact hfence
    | none =>
      have hnone : ∀ fence : Char × Nat, none = some fence → isFenceChar fence.1 = true := fun _ h => by cases h
      unfold stripLines stripRest
      cases hopen : fenceOpen line with
      | none => exact congrArg _ (ih _ _ hrest hnone)
      | some fence =>
        obtain ⟨c, k, info⟩ := fence
        have hc : isFenceChar c = true := by
          unfold fenceOpen at hopen
          split at hopen
          · cases hopen
          · dsimp only at hopen
            split at hopen
            · rename_i hcond
              obtain ⟨rfl, -⟩ := Prod.mk.inj (Option.some.inj hopen)
              exact (Bool.and_eq_true_iff.mp hcond).1
            · cases hopen
        dsimp only
        rw [hlookup hc]
        split
        · refine congrArg _ (ih _ _ hrest fun f hf => ?_)
          rw [← Option.some.inj hf]
          exact hc
        · exact congrArg _ (ih _ _ hrest hnone)

/-- A lookup and a rescan answer the same. -/
theorem stripCodeTables_eq (text : Str) (keepOffsets : Bool) :
    stripCodeTables text keepOffsets = stripCodeRescan text keepOffsets := by
  refine congrArg joinLines ?_
  exact stripLines_tables (fun c hc i hi => (filled_reversePass _ c hc).2 i (Nat.zero_le _) hi) _ 0 none rfl fun _ h => by
    cases h

/-- The table holds, for each line, the longest bare run on it or after it, and looking
through the lines again instead strips the same. -/
theorem reachable_rescan (text : Str) :
    (∀ c, isFenceChar c = true → ∀ i, i ≤ (splitLines text).length →
      ∃ n, ((reversePass (splitLines text)).get c)[i]? = some n ∧ Longest c ((splitLines text).drop i) n) ∧
    ∀ keepOffsets, stripCodeTables text keepOffsets = stripCodeRescan text keepOffsets ∧
      stripCodeTables text keepOffsets = stripCode text keepOffsets := by
  refine ⟨fun c hc i hi => ?_, fun keepOffsets => ⟨stripCodeTables_eq text keepOffsets, ?_⟩⟩
  · exact ⟨_, (filled_reversePass _ c hc).2 i (Nat.zero_le _) hi, longest_longestBare hc _⟩
  · rw [stripCodeTables_eq, stripCode_eq]
    rfl

end CiteVyn.Llm
