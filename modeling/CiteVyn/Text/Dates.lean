import CiteVyn.Text.Integers

/-! # Dates

`datetime.date` and its ISO format. -/
namespace CiteVyn.Text

/-- A number in so many digits, or more if it has more. -/
def padded (width n : Nat) : Str := (Nat.toDigits 10 n).leftpad width '0'

/-- `date(year, month, day).isoformat()` -/
def isoformat (year month day : Nat) : Str := padded 4 year ++ '-' :: padded 2 month ++ '-' :: padded 2 day

def isLeap (year : Nat) : Bool := year % 4 = 0 && (year % 100 ≠ 0 || year % 400 = 0)

/-- The days of a month. -/
def daysIn (year month : Nat) : Nat :=
  if month = 2 then if isLeap year then 29 else 28
  else if month = 4 ∨ month = 6 ∨ month = 9 ∨ month = 11 then 30 else 31

/-- `date` -/
structure Date where
  year : Nat
  month : Nat
  day : Nat
  yearRange : 1 ≤ year ∧ year ≤ 9999
  monthRange : 1 ≤ month ∧ month ≤ 12
  dayRange : 1 ≤ day ∧ day ≤ daysIn year month

def Date.isoformat (d : Date) : Str := Text.isoformat d.year d.month d.day

/-- A text that a date is written as. -/
def IsDate (s : Str) : Prop := ∃ d : Date, s = d.isoformat

theorem isDigit_padded {width n : Nat} {c : Char} (h : c ∈ padded width n) : c.isDigit = true := by
  rw [padded, List.leftpad] at h
  rcases List.mem_append.mp h with h | h
  · rw [(List.mem_replicate.mp h).2]
    rfl
  · exact isDigit_toDigits h

/-- A date is written with digits and `-`. -/
theorem mem_isoformat {year month day : Nat} {c : Char} (h : c ∈ isoformat year month day) :
    c.isDigit = true ∨ c = '-' := by
  simp only [isoformat, List.mem_append, List.mem_cons] at h
  rcases h with (h | rfl | h) | rfl | h
  · exact .inl (isDigit_padded h)
  · exact .inr rfl
  · exact .inl (isDigit_padded h)
  · exact .inr rfl
  · exact .inl (isDigit_padded h)

theorem isoformat_ne_nil (year month day : Nat) : isoformat year month day ≠ [] := by
  intro h
  have : '-' ∈ isoformat year month day := List.mem_append_left _ (List.mem_append_right _ List.mem_cons_self)
  rw [h] at this
  cases this

theorem padded_inj {width m n : Nat} (h : padded width m = padded width n) : m = n := by
  have hread (k : Nat) : Nat.ofDigitChars 10 (padded width k) 0 = k := by
    rw [padded, List.leftpad, Nat.ofDigitChars_append, Nat.ofDigitChars_replicate_zero, Nat.mul_zero,
      Nat.ofDigitChars_ten_toDigits]
  rw [← hread m, h, hread]

/-- Before the first separator nothing is shared. -/
theorem cut_inj {c : Char} {a b : Str} (ha : c ∉ a) (hb : c ∉ b) {x y : Str} (h : a ++ c :: x = b ++ c :: y) :
    a = b ∧ x = y := by
  rcases List.append_eq_append_iff.mp h with ⟨z, hz, hx⟩ | ⟨z, hz, hx⟩
  · cases z with
    | nil =>
      rw [List.nil_append] at hx
      exact ⟨by rw [hz, List.append_nil], (List.cons.inj hx).2⟩
    | cons d z =>
      refine absurd ?_ hb
      rw [hz, (List.cons.inj hx).1]
      exact List.mem_append_right _ List.mem_cons_self
  · cases z with
    | nil =>
      rw [List.nil_append] at hx
      exact ⟨by rw [hz, List.append_nil], (List.cons.inj hx).2.symm⟩
    | cons d z =>
      refine absurd ?_ ha
      rw [hz, (List.cons.inj hx).1]
      exact List.mem_append_right _ List.mem_cons_self

theorem hyphen_not_mem_padded (width n : Nat) : '-' ∉ padded width n := by
  intro h
  exact absurd (isDigit_padded h) (by decide)

theorem isoformat_inj {year month day year' month' day' : Nat}
    (h : isoformat year month day = isoformat year' month' day') : year = year' ∧ month = month' ∧ day = day' := by
  unfold isoformat at h
  rw [List.append_assoc, List.append_assoc] at h
  obtain ⟨hyear, hrest⟩ := cut_inj (hyphen_not_mem_padded 4 year) (hyphen_not_mem_padded 4 year') h
  obtain ⟨hmonth, hday⟩ := cut_inj (hyphen_not_mem_padded 2 month) (hyphen_not_mem_padded 2 month') hrest
  exact ⟨padded_inj hyear, padded_inj hmonth, padded_inj hday⟩

end CiteVyn.Text
