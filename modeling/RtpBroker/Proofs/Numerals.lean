import Mathlib.Data.List.Induction
import RtpBroker.Text.Digits

/-!
# Decimal numerals

The digits of a number have its value, none of them is a zero before others, and a
reader that takes digits takes exactly these off a text that goes on with something else.
-/

namespace RtpBroker.Text

theorem isDigit_eq (c : Char) : isDigit c = c.isDigit := rfl

theorem toNat_of_isDigit {c : Char} (h : isDigit c = true) : 48 ≤ c.toNat ∧ c.toNat ≤ 57 := by
  rw [isDigit, Bool.and_eq_true, decide_eq_true_eq, decide_eq_true_eq] at h
  exact h

theorem digitsValue_eq (cs : List Char) : digitsValue cs = Nat.ofDigitChars 10 cs 0 := by
  simp only [digitsValue, Nat.ofDigitChars_eq_foldl, digitValue, Nat.mul_comm]

@[simp] theorem digitsValue_digits (n : Nat) : digitsValue (Nat.toDigits 10 n) = n := by
  rw [digitsValue_eq, Nat.ofDigitChars_ten_toDigits]

theorem isDigit_of_mem_digits {n : Nat} {c : Char} (h : c ∈ Nat.toDigits 10 n) :
    isDigit c = true := by
  rw [isDigit_eq]
  exact Nat.isDigit_of_mem_toDigits (by decide) (by decide) h

theorem digitsValue_lt {ds : List Char} (hds : ∀ c ∈ ds, isDigit c = true) :
    digitsValue ds < tenTo ds.length := by
  induction ds using List.reverseRecOn with
  | nil => decide
  | append_singleton ds d ih =>
    have hrest := ih fun c hc => hds c (List.mem_append_left _ hc)
    obtain ⟨-, hhigh⟩ := toNat_of_isDigit (hds d (by simp))
    have hvalue : digitValue d ≤ 9 := by
      rw [digitValue, show '0'.toNat = 48 from rfl]
      omega
    have hpower : tenTo (ds.length + 1) = tenTo ds.length * 10 := Nat.pow_succ ..
    rw [digitsValue, List.foldl_append, List.length_append, List.length_singleton, hpower]
    rw [digitsValue] at hrest
    simp only [List.foldl_cons, List.foldl_nil]
    omega

/-- A number that is not zero has no zero in front. -/
theorem head?_digits {n : Nat} (hn : 0 < n) : (Nat.toDigits 10 n).head? ≠ some '0' := by
  induction n using Nat.strongRecOn with
  | ind n ih =>
    rw [Nat.toDigits_eq_if (by decide)]
    split
    · have hchar : n.digitChar ≠ '0' := by simp [Nat.pos_iff_ne_zero.mp hn]
      simpa using hchar
    · next hle =>
      have hpos : 0 < n / 10 := by omega
      rw [List.head?_append]
      have hhead := ih (n / 10) (by omega) hpos
      cases hds : Nat.toDigits 10 (n / 10) with
      | nil => exact absurd hds Nat.toDigits_ne_nil
      | cons d ds => simpa [hds] using hhead

/-- No digit comes next. -/
def EndsDigits (rest : List Char) : Prop := ∀ c ∈ rest.head?, isDigit c = false

theorem takeWhile_digits {ds rest : List Char} (hds : ∀ c ∈ ds, isDigit c = true)
    (hrest : EndsDigits rest) :
    (ds ++ rest).takeWhile isDigit = ds ∧ (ds ++ rest).dropWhile isDigit = rest := by
  rw [List.takeWhile_append_of_pos hds, List.dropWhile_append_of_pos hds]
  cases rest with
  | nil => simp
  | cons c rest =>
    have hc : isDigit c = false := hrest c (by simp)
    simp [hc]

/-! ## Padded numerals -/

/-- The digits of a number with zeros before them. -/
def padded (width n : Nat) : List Char :=
  List.replicate (width - (Nat.toDigits 10 n).length) '0' ++ Nat.toDigits 10 n

theorem toList_paddedText (width n : Nat) : (paddedText width n).toList = padded width n :=
  String.toList_ofList

theorem isDigit_of_mem_padded {width n : Nat} {c : Char} (h : c ∈ padded width n) :
    isDigit c = true := by
  rcases List.mem_append.mp h with h | h
  · rw [(List.mem_replicate.mp h).2]
    rfl
  · exact isDigit_of_mem_digits h

@[simp] theorem digitsValue_padded (width n : Nat) : digitsValue (padded width n) = n := by
  rw [digitsValue_eq, padded, Nat.ofDigitChars_append, Nat.ofDigitChars_replicate_zero,
    Nat.mul_zero, Nat.ofDigitChars_ten_toDigits]

theorem length_padded {width n : Nat} (hwidth : 0 < width) (hn : n < tenTo width) :
    (padded width n).length = width := by
  have hlength : (Nat.toDigits 10 n).length ≤ width :=
    (Nat.length_toDigits_le_iff (by decide) hwidth).mpr hn
  rw [padded, List.length_append, List.length_replicate]
  omega

end RtpBroker.Text
