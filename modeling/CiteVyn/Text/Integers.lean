import CiteVyn.Text.Values

/-! # Integers and texts

`str` of an `int` and `int` of a `str`, and that they read each other back. -/
namespace CiteVyn.Text

/-! ## Digits -/

theorem isDigit_toDigits {n : Nat} {c : Char} (h : c ∈ Nat.toDigits 10 n) : c.isDigit = true :=
  Nat.isDigit_of_mem_toDigits (by decide) (by decide) h

theorem toDigits_inj {m n : Nat} (h : Nat.toDigits 10 m = Nat.toDigits 10 n) : m = n := by
  have hread := congrArg (fun ds => Nat.ofDigitChars 10 ds 0) h
  simpa only [Nat.ofDigitChars_toDigits (by decide : 1 < 10) (by decide : 10 ≤ 10)] using hread

theorem decimalValue_of_isDigit {c : Char} (h : c.isDigit = true) : decimalValue c = some (c.toNat - '0'.toNat) := by
  have hrange : 0x30 ≤ c.toNat ∧ c.toNat < 0x3A := by
    simp only [Char.isDigit, Bool.and_eq_true, decide_eq_true_eq] at h
    exact ⟨h.1, Nat.lt_succ_of_le h.2⟩
  have hfind : decimalZeros.find? (fun z => z ≤ c.toNat && c.toNat < z + 10) = some 0x30 := by
    rw [decimalZeros, List.find?_cons_of_pos]
    simpa using hrange
  rw [decimalValue, hfind]
  rfl

theorem decimalValue_lt (c : Char) : (decimalValue c).getD 0 < 10 := by
  unfold decimalValue
  cases h : decimalZeros.find? fun z => z ≤ c.toNat && c.toNat < z + 10 with
  | none => exact Nat.succ_pos 9
  | some z =>
    have := List.find?_some h
    simp only [Bool.and_eq_true, decide_eq_true_eq] at this
    simp only [Option.map_some, Option.getD_some]
    omega

theorem digitsValue_lt (ds : Str) : digitsValue ds < 10 ^ ds.length := by
  have hfold : ∀ (ds : Str) (n : Nat),
      ds.foldl (fun n c => 10 * n + (decimalValue c).getD 0) n < (n + 1) * 10 ^ ds.length := by
    intro ds
    induction ds with
    | nil =>
      intro n
      simp
    | cons c ds ih =>
      intro n
      have hc := decimalValue_lt c
      rw [List.foldl_cons, List.length_cons, Nat.pow_succ, Nat.mul_comm (10 ^ ds.length) 10, ← Nat.mul_assoc]
      refine (ih _).trans_le (Nat.mul_le_mul_right _ ?_)
      omega
  simpa [digitsValue] using hfold ds 0

/-- Digits that are written are read back. -/
theorem digitsValue_toDigits (n : Nat) : digitsValue (Nat.toDigits 10 n) = n := by
  have hfold : ∀ (ds : Str) (k : Nat), (∀ c ∈ ds, c.isDigit = true) →
      ds.foldl (fun n c => 10 * n + (decimalValue c).getD 0) k = Nat.ofDigitChars 10 ds k := by
    intro ds
    induction ds with
    | nil => exact fun _ _ => Nat.ofDigitChars_nil.symm
    | cons c ds ih =>
      intro k h
      rw [List.foldl_cons, Nat.ofDigitChars_cons, ih _ fun d hd => h d (List.mem_cons_of_mem c hd),
        decimalValue_of_isDigit (h c List.mem_cons_self)]
      rfl
  rw [digitsValue, hfold _ 0 fun c hc => isDigit_toDigits hc,
    Nat.ofDigitChars_toDigits (by decide) (by decide)]

/-! ## `str(n)` -/

theorem intStr_eq_some {n : Int} {s : Str} (h : intStr n = some s) :
    s = if n < 0 then '-' :: Nat.toDigits 10 n.natAbs else Nat.toDigits 10 n.natAbs := by
  unfold intStr at h
  dsimp only at h
  split at h
  · cases h
  · exact (Option.some.inj h).symm

theorem intStr_isSome_iff (n : Int) : (intStr n).isSome ↔ n.natAbs < 10 ^ intMaxStrDigits := by
  have hdigits := Nat.length_toDigits_le_iff (b := 10) (n := n.natAbs) (k := intMaxStrDigits) (by decide) (by decide)
  unfold intStr
  dsimp only
  split
  · rename_i hlong
    rw [← hdigits]
    simpa using hlong
  · rename_i hshort
    rw [← hdigits]
    simpa using hshort

theorem intStr_chars {n : Int} {s : Str} (h : intStr n = some s) : ∀ c ∈ s, c.isDigit = true ∨ c = '-' := by
  intro c hc
  rw [intStr_eq_some h] at hc
  split at hc
  · rcases List.mem_cons.mp hc with rfl | hc
    · exact .inr rfl
    · exact .inl (isDigit_toDigits hc)
  · exact .inl (isDigit_toDigits hc)

theorem intStr_inj {m n : Int} {s : Str} (hm : intStr m = some s) (hn : intStr n = some s) : m = n := by
  have hsign : ∀ {k l : Nat}, '-' :: Nat.toDigits 10 k ≠ Nat.toDigits 10 l := by
    intro k l heq
    have hdigit := isDigit_toDigits (heq ▸ List.mem_cons_self : '-' ∈ Nat.toDigits 10 l)
    cases hdigit
  have h := (intStr_eq_some hm).symm.trans (intStr_eq_some hn)
  split at h
  · split at h
    · have := toDigits_inj (List.cons.inj h).2
      omega
    · exact absurd h hsign
  · split at h
    · exact absurd h.symm hsign
    · have := toDigits_inj h
      omega

/-- A text that is written for an integer, and has only digits, is read back. -/
theorem int_of_intStr {n : Int} {s : Str} {m : Nat} (hs : intStr n = some s) (h : int s = .ok m) : n = m := by
  rw [int] at h
  split at h
  · cases h
  · rename_i hdigits
    split at h
    · cases h
    · obtain rfl := Except.ok.inj h
      have hs := intStr_eq_some hs
      split at hs
      · rw [hs] at hdigits
        exact absurd (by decide : isDecimal '-' = false) (by
          rw [Bool.or_eq_true, not_or] at hdigits
          have hall := List.all_eq_true.mp (by simpa using hdigits.2) '-' List.mem_cons_self
          rw [hall]
          exact Bool.noConfusion)
      · rw [hs, digitsValue_toDigits]
        omega

/-! ## `int(s)` -/

/-- What `int` takes for white space at the ends. -/
def isIntSpace (c : Char) : Bool :=
  c == ' ' || (0x09 ≤ c.toNat && c.toNat < 0x0E) || (0x7F ≤ c.toNat && isSpace c)

/-- The sign, and what comes after. -/
def splitSign : Str → Bool × Str
  | '-' :: rest => (true, rest)
  | '+' :: rest => (false, rest)
  | rest => (false, rest)

/-- `int(s)` on any text: blanks around, a sign, and single underscores between digits. -/
def parseInt (s : Str) : Except IntError Int :=
  let body := ((s.dropWhile isIntSpace).reverse.dropWhile isIntSpace).reverse
  let (negative, digits) := splitSign body
  let groups := digits.splitOn '_'
  if groups.any fun group => group.isEmpty || !group.all isDecimal then .error .invalidLiteral
  else if intMaxStrDigits < groups.flatten.length then .error .tooManyDigits
  else .ok (if negative then -(digitsValue groups.flatten : Int) else digitsValue groups.flatten)

example : parseInt " -1_0".toList = .ok (-10) := by decide

/-- What `int` reads, `str` writes. -/
theorem intStr_isSome_of_parseInt {s : Str} {n : Int} (h : parseInt s = .ok n) : (intStr n).isSome := by
  unfold parseInt at h
  dsimp only at h
  split at h
  · cases h
  · split at h
    · cases h
    · rename_i hshort
      rw [intStr_isSome_iff]
      have hlt := (digitsValue_lt _).trans_le (Nat.pow_le_pow_right (by decide : 0 < 10) (Nat.not_lt.mp hshort))
      obtain rfl := Except.ok.inj h
      split
      · simpa using hlt
      · simpa using hlt

end CiteVyn.Text
