import CiteVyn.Text.Python
import Mathlib.Data.List.Forall2
import Mathlib.Data.List.Nodup

/-! # Bracketed numbers, and who reads them

Where `[digits]` stands in a text, for texts whose elements have a character: with the
places as elements two readers of one text can be asked for the same occurrences. A reader
takes some of them for markers, and some stand in code for it. -/
namespace CiteVyn.Text

section Occurrences
variable {G : Type} (ch : G → Char) (digit : Char → Bool)

/-- The digits of the bracketed number that a text starts with. -/
def bracketed : List G → Option (List G)
  | [] => none
  | c :: rest =>
    let ds := rest.takeWhile fun c => digit (ch c)
    if ch c = '[' && !ds.isEmpty && (rest[ds.length]?).map ch = some ']' then some ds else none

/-- The digits of the bracketed numbers, in order. -/
def occurrences : List G → List (List G)
  | [] => []
  | c :: rest => (bracketed ch digit (c :: rest)).toList ++ occurrences rest

/-- The character is no part of a bracketed number. -/
def Breaks (c : G) : Prop := ch c ≠ '[' ∧ ch c ≠ ']' ∧ digit (ch c) = false

variable {ch digit}

@[simp] theorem occurrences_nil : occurrences ch digit [] = [] := rfl

theorem bracketed_eq_some {c : G} {rest ds : List G} :
    bracketed ch digit (c :: rest) = some ds ↔
      ch c = '[' ∧ ds ≠ [] ∧ ds = rest.takeWhile (fun c => digit (ch c)) ∧ (rest[ds.length]?).map ch = some ']' := by
  unfold bracketed
  dsimp only
  split
  · rename_i h
    simp only [Bool.and_eq_true, decide_eq_true_eq, Bool.not_eq_true', List.isEmpty_eq_false_iff] at h
    constructor
    · intro heq
      obtain rfl := Option.some.inj heq
      exact ⟨h.1.1, h.1.2, rfl, h.2⟩
    · rintro ⟨-, -, rfl, -⟩
      rfl
  · rename_i h
    refine ⟨fun heq => (by cases heq), ?_⟩
    rintro ⟨hopen, hne, rfl, hclose⟩
    exact absurd (by simp [hopen, hne, hclose]) h

theorem bracketed_of_ne {c : G} (h : ch c ≠ '[') (rest : List G) : bracketed ch digit (c :: rest) = none := by
  cases hb : bracketed ch digit (c :: rest) with
  | none => rfl
  | some ds => exact absurd (bracketed_eq_some.mp hb).1 h

theorem occurrences_cons (c : G) (rest : List G) :
    occurrences ch digit (c :: rest) = (bracketed ch digit (c :: rest)).toList ++ occurrences ch digit rest := rfl

theorem occurrences_cons_of_ne {c : G} (h : ch c ≠ '[') (rest : List G) :
    occurrences ch digit (c :: rest) = occurrences ch digit rest := by
  rw [occurrences_cons, bracketed_of_ne h]
  rfl

/-- Elements that open no bracket. -/
theorem occurrences_append_of_ne {a : List G} (h : ∀ c ∈ a, ch c ≠ '[') (b : List G) :
    occurrences ch digit (a ++ b) = occurrences ch digit b := by
  induction a with
  | nil => rfl
  | cons c a ih =>
    obtain ⟨hc, ha⟩ := List.forall_mem_cons.mp h
    rw [List.cons_append, occurrences_cons_of_ne hc, ih ha]

theorem occurrences_eq_nil {a : List G} (h : ∀ c ∈ a, ch c ≠ '[') : occurrences ch digit a = [] := by
  rw [← List.append_nil a, occurrences_append_of_ne h, occurrences_nil]

/-- What is bracketed before a break does not depend on what comes after it. -/
theorem bracketed_append {a b : List G} {c : G} (hc : Breaks ch digit c) (ha : a ≠ []) :
    bracketed ch digit (a ++ c :: b) = bracketed ch digit a := by
  cases a with
  | nil => exact absurd rfl ha
  | cons d a =>
    have htake : (a ++ c :: b).takeWhile (fun c => digit (ch c)) = a.takeWhile fun c => digit (ch c) := by
      rw [List.takeWhile_append]
      split
      · rename_i hall
        rw [List.takeWhile_cons_of_neg (by rw [hc.2.2]; exact Bool.false_ne_true), List.append_nil]
        exact (List.IsPrefix.eq_of_length (List.takeWhile_prefix _) hall).symm
      · rfl
    have hclose (n : Nat) (hn : n ≤ a.length) :
        ((a ++ c :: b)[n]?).map ch = some ']' ↔ (a[n]?).map ch = some ']' := by
      rcases Nat.lt_or_ge n a.length with hlt | hge
      · rw [List.getElem?_append_left hlt]
      · obtain rfl := Nat.le_antisymm hn hge
        rw [List.getElem?_append_right le_rfl, Nat.sub_self, List.getElem?_eq_none le_rfl]
        simp [hc.2.1]
    have hle := (List.takeWhile_prefix (fun c => digit (ch c)) (l := a)).length_le
    unfold bracketed
    rw [List.cons_append]
    dsimp only
    rw [htake]
    simp only [decide_eq_decide.mpr (hclose _ hle)]

theorem occurrences_append_break {c : G} (hc : Breaks ch digit c) (a b : List G) :
    occurrences ch digit (a ++ c :: b) = occurrences ch digit a ++ occurrences ch digit b := by
  induction a with
  | nil => exact occurrences_cons_of_ne hc.1 b
  | cons d a ih =>
    have hd := bracketed_append (b := b) hc (List.cons_ne_nil d a)
    rw [List.cons_append] at hd ⊢
    rw [occurrences_cons, occurrences_cons, hd, ih, List.append_assoc]

/-- Texts joined by a break. -/
theorem occurrences_intercalate {c : G} (hc : Breaks ch digit c) (lines : List (List G)) :
    occurrences ch digit ([c].intercalate lines) = lines.flatMap (occurrences ch digit) := by
  induction lines with
  | nil => rfl
  | cons line lines ih =>
    cases lines with
    | nil => simp
    | cons next lines =>
      rw [List.intercalate_cons_cons, List.append_assoc, List.singleton_append, occurrences_append_break hc, ih]
      rfl

/-- A bracketed number is a bracket, its digits, and the other bracket. -/
theorem bracketed_split {c : G} {rest ds : List G} (h : bracketed ch digit (c :: rest) = some ds) :
    ∃ d tail, rest = ds ++ d :: tail ∧ ch c = '[' ∧ ch d = ']' ∧ ds ≠ [] ∧ ∀ e ∈ ds, digit (ch e) = true := by
  obtain ⟨hopen, hne, hds, hclose⟩ := bracketed_eq_some.mp h
  have hrest : rest = ds ++ rest.drop ds.length := by
    have hstarts := List.takeWhile_prefix (fun c => digit (ch c)) (l := rest)
    rw [← hds] at hstarts
    exact (List.prefix_iff_eq_append.mp hstarts).symm
  obtain ⟨d, hd, hchar⟩ := Option.map_eq_some_iff.mp hclose
  obtain ⟨hlt, rfl⟩ := List.getElem?_eq_some_iff.mp hd
  refine ⟨_, rest.drop (ds.length + 1), ?_, hopen, hchar, hne, fun e he => ?_⟩
  · rw [← List.drop_eq_getElem_cons hlt]
    exact hrest
  · rw [hds] at he
    have := List.mem_takeWhile_imp he
    exact this

theorem bracketed_of_split (hclose : digit ']' = false) {c d : G} {ds tail : List G} (hc : ch c = '[') (hd : ch d = ']')
    (hne : ds ≠ []) (hds : ∀ e ∈ ds, digit (ch e) = true) : bracketed ch digit (c :: (ds ++ d :: tail)) = some ds := by
  have htake : (ds ++ d :: tail).takeWhile (fun c => digit (ch c)) = ds := by
    rw [List.takeWhile_append_of_pos hds, List.takeWhile_cons_of_neg (by rw [hd, hclose]; exact Bool.false_ne_true),
      List.append_nil]
  refine bracketed_eq_some.mpr ⟨hc, hne, htake.symm, ?_⟩
  rw [List.getElem?_append_right le_rfl, Nat.sub_self, List.getElem?_cons_zero, Option.map_some, hd]

/-- A bracketed number at the start of a text, and what comes after it. -/
theorem occurrences_bracketed {c : G} {rest ds : List G} (hdigit : digit '[' = false)
    (h : bracketed ch digit (c :: rest) = some ds) :
    occurrences ch digit (c :: rest) = ds :: occurrences ch digit (rest.drop (ds.length + 1)) := by
  obtain ⟨d, tail, rfl, -, hd, -, hds⟩ := bracketed_split h
  have hdigits : ∀ e ∈ ds, ch e ≠ '[' := by
    intro e he heq
    have := hds e he
    rw [heq, hdigit] at this
    cases this
  have hclose : ch d ≠ '[' := by
    rw [hd]
    decide
  have hdrop : (ds ++ d :: tail).drop (ds.length + 1) = tail := by
    rw [← List.drop_drop, List.drop_left, List.drop_one, List.tail_cons]
  rw [occurrences_cons, h, occurrences_append_of_ne hdigits, occurrences_cons_of_ne hclose, hdrop]
  rfl

/-- The digits of an occurrence come after its bracket. -/
theorem mem_occurrences {s ds : List G} (h : ds ∈ occurrences ch digit s) : ds ≠ [] ∧ ∀ d ∈ ds, d ∈ s.tail ∧ digit (ch d) = true := by
  induction s with
  | nil => cases h
  | cons c rest ih =>
    rcases List.mem_append.mp (occurrences_cons c rest ▸ h) with h | h
    · obtain ⟨-, hne, heq, -⟩ := bracketed_eq_some.mp (Option.mem_toList.mp h)
      refine ⟨hne, fun d hd => ?_⟩
      rw [heq] at hd
      have hdigit := List.mem_takeWhile_imp hd
      exact ⟨(List.takeWhile_prefix _).subset hd, hdigit⟩
    · obtain ⟨hne, hd⟩ := ih h
      exact ⟨hne, fun d hmem => ⟨List.mem_of_mem_tail (hd d hmem).1, (hd d hmem).2⟩⟩

/-- In a text of distinct elements the occurrences are distinct. -/
theorem occurrences_nodup {s : List G} (h : s.Nodup) : (occurrences ch digit s).Nodup := by
  induction s with
  | nil => exact List.nodup_nil
  | cons c rest ih =>
    obtain ⟨-, hrest⟩ := List.nodup_cons.mp h
    rw [occurrences_cons]
    cases hb : bracketed ch digit (c :: rest) with
    | none => exact ih hrest
    | some ds =>
      refine List.nodup_cons.mpr ⟨fun hmem => ?_, ih hrest⟩
      obtain ⟨-, hne, hds, -⟩ := bracketed_eq_some.mp hb
      obtain ⟨d, tail, hcons⟩ := List.exists_cons_of_ne_nil hne
      obtain ⟨-, hlater⟩ := mem_occurrences hmem
      cases rest with
      | nil =>
        rw [hcons] at hds
        cases hds
      | cons e rest =>
        have hde : d = e := by
          have hstarts := List.takeWhile_prefix (fun c => digit (ch c)) (l := e :: rest)
          rw [← hds, hcons] at hstarts
          exact (List.cons_prefix_cons.mp hstarts).1
        have := (hlater d (hcons ▸ List.mem_cons_self)).1
        rw [hde] at this
        exact (List.nodup_cons.mp hrest).1 this

/-- What some digits read, more digits read. -/
theorem occurrences_subset {digit' : Char → Bool} (h : ∀ c, digit c = true → digit' c = true) (hclose : digit' ']' = false)
    {s ds : List G} (hds : ds ∈ occurrences ch digit s) : ds ∈ occurrences ch digit' s := by
  induction s with
  | nil => cases hds
  | cons c rest ih =>
    rw [occurrences_cons] at hds ⊢
    rcases List.mem_append.mp hds with hds | hds
    · obtain ⟨d, tail, rfl, hc, hd, hne, hall⟩ := bracketed_split (Option.mem_toList.mp hds)
      refine List.mem_append_left _ (Option.mem_toList.mpr ?_)
      exact bracketed_of_split hclose hc hd hne fun e he => h _ (hall e he)
    · exact List.mem_append_right _ (ih hds)

/-- In a text some of whose elements are struck out there are no other occurrences. -/
theorem occurrences_masked (hclose : digit ']' = false) {s t : List G}
    (h : List.Forall₂ (fun p q => p = q ∨ Breaks ch digit p) s t) {ds : List G} (hds : ds ∈ occurrences ch digit s) :
    ds ∈ occurrences ch digit t := by
  have hkept : ∀ {a b t : List G}, (∀ p ∈ a, ¬ Breaks ch digit p) →
      List.Forall₂ (fun p q => p = q ∨ Breaks ch digit p) (a ++ b) t → ∃ b', t = a ++ b' := by
    intro a b t ha hall
    induction a generalizing t with
    | nil => exact ⟨t, rfl⟩
    | cons p a ih =>
      cases hall with
      | cons hp hall =>
        obtain ⟨b', rfl⟩ := ih (fun q hq => ha q (List.mem_cons_of_mem _ hq)) hall
        rcases hp with rfl | hp
        · exact ⟨b', rfl⟩
        · exact absurd hp (ha p List.mem_cons_self)
  induction h with
  | nil => cases hds
  | @cons p q s t hp hall ih =>
    rw [occurrences_cons] at hds ⊢
    rcases List.mem_append.mp hds with hds | hds
    · obtain ⟨d, tail, rfl, hc, hd, hne, hdigits⟩ := bracketed_split (Option.mem_toList.mp hds)
      have hopen : p = q := hp.resolve_right fun hbreak => hbreak.1 hc
      subst hopen
      have hsplit : List.Forall₂ (fun p q => p = q ∨ Breaks ch digit p) ((ds ++ [d]) ++ tail) t := by
        rw [List.append_assoc]
        exact hall
      have hnumber : ∀ e ∈ ds ++ [d], ¬ Breaks ch digit e := by
        intro e he hbreak
        rcases List.mem_append.mp he with he | he
        · have := hbreak.2.2
          rw [hdigits e he] at this
          cases this
        · rw [List.mem_singleton.mp he] at hbreak
          exact hbreak.2.1 hd
      obtain ⟨b, rfl⟩ := hkept hnumber hsplit
      rw [List.append_assoc]
      exact List.mem_append_left _ (Option.mem_toList.mpr (bracketed_of_split hclose hc hd hne hdigits))
    · exact List.mem_append_right _ (ih hds)

end Occurrences

section Map
variable {G H : Type} {ch : G → Char} {ch' : H → Char} {digit : Char → Bool} {f : G → H}

theorem bracketed_map (hf : ∀ c, ch' (f c) = ch c) (s : List G) :
    bracketed ch' digit (s.map f) = (bracketed ch digit s).map (List.map f) := by
  cases s with
  | nil => rfl
  | cons c rest =>
    have htake : (rest.map f).takeWhile (fun c => digit (ch' c)) = (rest.takeWhile fun c => digit (ch c)).map f := by
      rw [List.takeWhile_map]
      congr 2
      funext c
      exact congrArg digit (hf c)
    have hat : ((rest.map f)[(rest.takeWhile fun c => digit (ch c)).length]?).map ch' =
        (rest[(rest.takeWhile fun c => digit (ch c)).length]?).map ch := by
      rw [List.getElem?_map, Option.map_map]
      congr 1
      exact funext hf
    unfold bracketed
    rw [List.map_cons]
    dsimp only
    rw [htake, List.length_map, hat, hf, List.isEmpty_map]
    split <;> rfl

theorem occurrences_map (hf : ∀ c, ch' (f c) = ch c) (s : List G) :
    occurrences ch' digit (s.map f) = (occurrences ch digit s).map (List.map f) := by
  induction s with
  | nil => rfl
  | cons c rest ih =>
    have hc : bracketed ch' digit ((c :: rest).map f) = (bracketed ch digit (c :: rest)).map (List.map f) :=
      bracketed_map hf (c :: rest)
    rw [List.map_cons] at hc ⊢
    rw [occurrences_cons, occurrences_cons, hc, ih, List.map_append]
    cases bracketed ch digit (c :: rest) <;> rfl

end Map

/-! ## Readers -/

section Readers
variable {A : Type}

/-- Of the occurrences `all` a reader takes `markers` for markers, and finds `code` in code:
of those outside code it takes the ones that `taken` allows. -/
inductive Reads (taken : A → Bool) : List A → List A → List A → Prop where
  | nil : Reads taken [] [] []
  | code (a : A) {all markers code : List A} : Reads taken all markers code → Reads taken (a :: all) markers (a :: code)
  | prose (a : A) {all markers code : List A} : Reads taken all markers code →
      Reads taken (a :: all) ((if taken a then [a] else []) ++ markers) code

variable {taken : A → Bool}

theorem Reads.append {all markers code all' markers' code' : List A} (h : Reads taken all markers code)
    (h' : Reads taken all' markers' code') : Reads taken (all ++ all') (markers ++ markers') (code ++ code') := by
  induction h with
  | nil => exact h'
  | code a _ ih => exact ih.code a
  | prose a _ ih =>
    rw [List.append_assoc]
    exact ih.prose a

theorem reads_code (all : List A) : Reads taken all [] all := by
  induction all with
  | nil => exact .nil
  | cons a all ih => exact ih.code a

theorem reads_prose (all : List A) : Reads taken all (all.filter taken) [] := by
  induction all with
  | nil => exact .nil
  | cons a all ih =>
    rw [List.filter_cons]
    split
    · rename_i h
      have := ih.prose a
      rwa [if_pos h] at this
    · rename_i h
      have := ih.prose a
      rwa [if_neg h] at this

theorem Reads.subset {all markers code : List A} (h : Reads taken all markers code) :
    (∀ a ∈ markers, a ∈ all ∧ taken a = true) ∧ ∀ a ∈ code, a ∈ all := by
  induction h with
  | nil => exact ⟨fun _ h => (by cases h), fun _ h => by cases h⟩
  | code b _ ih =>
    obtain ⟨hm, hc⟩ := ih
    refine ⟨fun a ha => ⟨List.mem_cons_of_mem _ (hm a ha).1, (hm a ha).2⟩, ?_⟩
    exact List.forall_mem_cons.mpr ⟨List.mem_cons_self, fun a ha => List.mem_cons_of_mem _ (hc a ha)⟩
  | prose b _ ih =>
    obtain ⟨hm, hc⟩ := ih
    refine ⟨List.forall_mem_append.mpr ⟨fun a ha => ?_, fun a ha => ⟨List.mem_cons_of_mem _ (hm a ha).1, (hm a ha).2⟩⟩,
      fun a ha => List.mem_cons_of_mem _ (hc a ha)⟩
    split at ha
    · rename_i htaken
      rw [List.mem_singleton.mp ha]
      exact ⟨List.mem_cons_self, htaken⟩
    · cases ha

/-- Of distinct occurrences the markers are those that are not in code and allowed. -/
theorem Reads.markers_eq [DecidableEq A] {all markers code : List A} (h : Reads taken all markers code) (hall : all.Nodup) :
    markers = all.filter fun a => !decide (a ∈ code) && taken a := by
  induction h with
  | nil => rfl
  | @code b all markers code hr ih =>
    obtain ⟨hb, hall⟩ := List.nodup_cons.mp hall
    have hrest : all.filter (fun a => !decide (a ∈ b :: code) && taken a) =
        all.filter fun a => !decide (a ∈ code) && taken a := by
      refine List.filter_congr fun a ha => ?_
      have hne : a ≠ b := fun heq => hb (heq ▸ ha)
      simp [hne]
    rw [List.filter_cons_of_neg (by simp), hrest]
    exact ih hall
  | @prose b all markers code hr ih =>
    obtain ⟨hb, hall⟩ := List.nodup_cons.mp hall
    have hcode : b ∉ code := fun h => hb (hr.subset.2 b h)
    rw [List.filter_cons, ← ih hall]
    by_cases htaken : taken b = true
    · simp [hcode, htaken]
    · simp [hcode, htaken]

/-- Two readers of distinct occurrences, each with a choice of its own among its markers. -/
theorem Reads.same_iff {taken' : A → Bool} {all markers code markers' code' : List A} (h : Reads taken all markers code)
    (h' : Reads taken' all markers' code') (hall : all.Nodup) (p q : A → Bool) :
    markers.filter p = markers'.filter q ↔
      ∀ a ∈ all, (p a = true ∧ a ∉ code ∧ taken a = true ↔ q a = true ∧ a ∉ code' ∧ taken' a = true) := by
  classical
  rw [h.markers_eq hall, h'.markers_eq hall, List.filter_filter, List.filter_filter]
  constructor
  · intro heq a ha
    have hmem : a ∈ all.filter _ ↔ a ∈ all.filter _ := iff_of_eq (congrArg (a ∈ ·) heq)
    simpa [List.mem_filter, ha] using hmem
  · intro hiff
    refine List.filter_congr fun a ha => ?_
    rw [Bool.eq_iff_iff]
    simpa using hiff a ha

end Readers

end CiteVyn.Text
