import CiteVyn.Text.Python
import Mathlib.Tactic.IntervalCases

/-! # Letters under `re.IGNORECASE` -/
namespace CiteVyn.Text

theorem mem_lowers {c : Char} (h : isLowerAscii c = true) : c ∈ "abcdefghijklmnopqrstuvwxyz".toList := by
  have hc : c = Char.ofNat c.toNat := (Char.ofNat_toNat c).symm
  obtain ⟨h1, h2⟩ := isLowerAscii_toNat h
  generalize c.toNat = n at h1 h2 hc
  subst hc
  rw [String.toList_ofList]
  interval_cases n <;> decide

/-- What a letter of the alphabet matches, by code point. -/
theorem toNat_of_eqIgnoreCase {p c : Char} (hp : isLowerAscii p = true) (h : eqIgnoreCase p c = true) :
    c.toNat = p.toNat ∨ c.toNat = p.toNat - 32 ∨ p.toNat = 105 ∧ (c.toNat = 0x130 ∨ c.toNat = 0x131) ∨
      p.toNat = 115 ∧ c.toNat = 0x17F ∨ p.toNat = 107 ∧ c.toNat = 0x212A := by
  simp only [eqIgnoreCase, Bool.or_eq_true, Bool.and_eq_true, beq_iff_eq] at h
  rcases h with (((rfl | rfl) | ⟨rfl, rfl | rfl⟩) | ⟨rfl, rfl⟩) | ⟨rfl, rfl⟩
  · exact .inl rfl
  · exact .inr (.inl (upperAscii_toNat hp))
  all_goals decide

/-- A letter folds to one letter of the alphabet only. -/
theorem eqIgnoreCase_unique {p q c : Char} (hp : isLowerAscii p = true) (hq : isLowerAscii q = true)
    (h : eqIgnoreCase p c = true) (h' : eqIgnoreCase q c = true) : p = q := by
  have hpc := toNat_of_eqIgnoreCase hp h
  have hqc := toNat_of_eqIgnoreCase hq h'
  have hpn := isLowerAscii_toNat hp
  have hqn := isLowerAscii_toNat hq
  exact Char.toNat_inj.mp (by omega)

theorem literal_forall₂ {w s : Str} (h : literal w s = true) :
    List.Forall₂ (fun p c => eqIgnoreCase p c = true) w (s.take w.length) := by
  induction w generalizing s with
  | nil => exact .nil
  | cons p w ih =>
    cases s with
    | nil => cases h
    | cons c s =>
      simp only [literal, Bool.and_eq_true] at h
      exact .cons h.1 (ih h.2)

theorem isSpace_letter {c : Char} (h : isLetterIgnoreCase c = true) : isSpace c = false := by
  simp only [isLetterIgnoreCase, isUpperAscii, isLowerAscii, Bool.or_eq_true, Bool.and_eq_true, decide_eq_true_eq,
    Char.le_def, beq_iff_eq] at h
  simp only [isSpace, Bool.or_eq_false_iff, Bool.and_eq_false_iff, decide_eq_false_iff_not, beq_eq_false_iff_ne]
  have hval : c.val.toNat = c.toNat := rfl
  rcases h with ((((⟨h1, h2⟩ | ⟨h1, h2⟩) | rfl) | rfl) | rfl) | rfl
  · rw [UInt32.le_iff_toNat_le] at h1 h2
    change 65 ≤ c.toNat at h1
    change c.toNat ≤ 90 at h2
    omega
  · rw [UInt32.le_iff_toNat_le] at h1 h2
    change 97 ≤ c.toNat at h1
    change c.toNat ≤ 122 at h2
    omega
  all_goals decide

theorem literal_take_append {w a : Str} (h : w.length ≤ a.length) (z z' : Str) : literal w (a ++ z) = literal w (a ++ z') := by
  induction w generalizing a with
  | nil => rfl
  | cons p w ih =>
    cases a with
    | nil => cases h
    | cons c a =>
      simp only [List.length_cons, Nat.add_le_add_iff_right] at h
      simp only [List.cons_append, literal, ih h]

theorem literal_after {w a : Str} (h : literal w a = true) (z : Str) : literal w (a ++ z) = true := by
  rw [literal_take_append (literal_length h) z [], List.append_nil]
  exact h

theorem literal_itself {w s : Str} (h : literal w s = true) : literal w (s.take w.length) = true := by
  have hlen := List.length_take_of_le (literal_length h)
  rw [← List.append_nil (s.take w.length), literal_take_append hlen.ge [] (s.drop w.length), List.take_append_drop]
  exact h

end CiteVyn.Text
