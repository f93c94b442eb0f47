import RtpBroker.Proofs.TimestampText

/-!
# Texts of numbers

Which texts a reader of numbers takes: an optional plus sign and at least one digit, with as many
zeros in front as one likes, and when it trims, blanks around that. The number has to fit.
-/

namespace RtpBroker.Text

/-- At least one digit, and what they amount to. -/
def Digits (cs : List Char) (n : Nat) : Prop :=
  cs ≠ [] ∧ (∀ c ∈ cs, isDigit c = true) ∧ digitsValue cs = n

/-- Digits with an optional plus sign before them. -/
def Numeral (cs : List Char) (n : Nat) : Prop :=
  ∃ sign digits, cs = sign ++ digits ∧ (sign = [] ∨ sign = ['+']) ∧ Digits digits n

/-- A numeral between blanks. -/
def Spells (text : String) (n : Nat) : Prop :=
  ∃ before core after, text.toList = before ++ core ++ after ∧
    (∀ c ∈ before, isBlank c = true) ∧ Numeral core n ∧ ∀ c ∈ after, isBlank c = true

/-! ## Digits -/

theorem le_foldl_digits (cs : List Char) (acc : Nat) :
    acc ≤ cs.foldl (fun acc c => acc * 10 + digitValue c) acc := by
  induction cs generalizing acc with
  | nil => exact Nat.le_refl _
  | cons c cs ih =>
    have hstep : acc ≤ acc * 10 + digitValue c := by omega
    exact hstep.trans (ih _)

theorem readDigits_eq_ok_iff {limit acc n : Nat} {cs : List Char} (hacc : acc ≤ limit) :
    readDigits limit acc cs = .ok n ↔ (∀ c ∈ cs, isDigit c = true) ∧
      cs.foldl (fun acc c => acc * 10 + digitValue c) acc = n ∧ n ≤ limit := by
  induction cs generalizing acc with
  | nil =>
    simp only [readDigits, Except.ok.injEq, List.not_mem_nil, false_implies, implies_true,
      List.foldl_nil, true_and]
    exact ⟨fun h => ⟨h, h ▸ hacc⟩, fun h => h.1⟩
  | cons c cs ih =>
    simp only [readDigits, List.forall_mem_cons, List.foldl_cons]
    by_cases hdigit : isDigit c = true
    · rw [if_pos hdigit]
      by_cases hnext : acc * 10 + digitValue c ≤ limit
      · rw [if_pos hnext, ih hnext]
        simp only [hdigit, true_and]
      · -- What the digits so far amount to only grows.
        rw [if_neg hnext]
        have hgrows := le_foldl_digits cs (acc * 10 + digitValue c)
        constructor
        · intro h
          cases h
        · rintro ⟨-, rfl, hle⟩
          exact absurd (hgrows.trans hle) hnext
    · rw [if_neg hdigit]
      constructor
      · intro h
        cases h
      · exact fun h => absurd h.1.1 hdigit

theorem readDigits_zero_iff {limit n : Nat} {cs : List Char} (hne : cs ≠ []) :
    readDigits limit 0 cs = .ok n ↔ Digits cs n ∧ n ≤ limit := by
  rw [readDigits_eq_ok_iff (Nat.zero_le _), Digits, digitsValue]
  tauto

/-! ## Numerals -/

theorem Digits.head_ne_plus {cs : List Char} {n : Nat} (h : Digits ('+' :: cs) n) : False :=
  absurd (h.2.1 '+' List.mem_cons_self) (by decide)

theorem numeral_plus_iff {cs : List Char} {n : Nat} : Numeral ('+' :: cs) n ↔ Digits cs n := by
  constructor
  · rintro ⟨sign, digits, heq, rfl | rfl, hdigits⟩
    · rw [List.nil_append] at heq
      exact (Digits.head_ne_plus (heq ▸ hdigits)).elim
    · cases heq
      exact hdigits
  · exact fun h => ⟨['+'], cs, rfl, Or.inr rfl, h⟩

theorem numeral_iff_of_ne_plus {cs : List Char} {n : Nat} (h : ∀ ds, cs ≠ '+' :: ds) :
    Numeral cs n ↔ Digits cs n := by
  constructor
  · rintro ⟨sign, digits, rfl, rfl | rfl, hdigits⟩
    · exact hdigits
    · exact absurd rfl (h digits)
  · exact fun hdigits => ⟨[], cs, rfl, Or.inl rfl, hdigits⟩

theorem readNumber_eq_ok_iff {limit n : Nat} {cs : List Char} :
    readNumber limit cs = .ok n ↔ Numeral cs n ∧ n ≤ limit := by
  unfold readNumber
  split
  · rw [numeral_iff_of_ne_plus (by simp)]
    simp [Digits]
  · rw [numeral_plus_iff]
    simp [Digits]
  · next cs hne =>
    rw [numeral_plus_iff]
    exact readDigits_zero_iff hne
  · next hnil _ hplus =>
    rw [numeral_iff_of_ne_plus hplus]
    exact readDigits_zero_iff hnil

/-- Neither the first nor the last character is blank. -/
def Bare (cs : List Char) : Prop :=
  (∀ c ∈ cs.head?, isBlank c = false) ∧ ∀ c ∈ cs.getLast?, isBlank c = false

theorem bare_of_visible {cs : List Char} (h : ∀ c ∈ cs, isBlank c = false) : Bare cs :=
  ⟨fun c hc => h c (List.mem_of_mem_head? hc), fun c hc => h c (List.mem_of_mem_getLast? hc)⟩

theorem Numeral.bare {cs : List Char} {n : Nat} (h : Numeral cs n) : cs ≠ [] ∧ Bare cs := by
  obtain ⟨sign, digits, rfl, hsign, hne, hdigits, -⟩ := h
  have hvisible : ∀ c ∈ sign ++ digits, isBlank c = false := by
    intro c hc
    rcases List.mem_append.mp hc with hc | hc
    · rcases hsign with rfl | rfl
      · simp at hc
      · rw [List.mem_singleton.mp hc]
        rfl
    · exact isBlank_of_isDigit (hdigits c hc)
  exact ⟨by simp [hne], bare_of_visible hvisible⟩

/-! ## Trimming -/

theorem dropBlanks_append {before : List Char} (h : ∀ c ∈ before, isBlank c = true)
    (cs : List Char) : dropBlanks (before ++ cs) = dropBlanks cs :=
  List.dropWhile_append_of_pos h

theorem dropBlanks_of_head {cs : List Char} (h : ∀ c ∈ cs.head?, isBlank c = false) :
    dropBlanks cs = cs := by
  cases cs with
  | nil => rfl
  | cons c cs => exact dropBlanks_cons (h c rfl) cs

/-- What trimming takes off either end is blank. -/
theorem trimChars_split (cs : List Char) :
    ∃ before after, cs = before ++ trimChars cs ++ after ∧ (∀ c ∈ before, isBlank c = true) ∧
      ∀ c ∈ after, isBlank c = true := by
  let rest := (dropBlanks cs).reverse
  refine ⟨cs.takeWhile isBlank, (rest.takeWhile isBlank).reverse, ?_,
    fun c hc => List.mem_takeWhile_imp hc,
    fun c hc => List.mem_takeWhile_imp (List.mem_reverse.mp hc)⟩
  have hback : trimChars cs ++ (rest.takeWhile isBlank).reverse = dropBlanks cs := by
    rw [trimChars, dropBlanks, ← List.reverse_append, List.takeWhile_append_dropWhile,
      List.reverse_reverse]
  rw [List.append_assoc, hback, dropBlanks, List.takeWhile_append_dropWhile]

theorem trimChars_of_bare {before core after : List Char}
    (hbefore : ∀ c ∈ before, isBlank c = true) (hne : core ≠ []) (hcore : Bare core)
    (hafter : ∀ c ∈ after, isBlank c = true) : trimChars (before ++ core ++ after) = core := by
  obtain ⟨hfirst, hlast⟩ := hcore
  have hhead : ∀ c ∈ (core ++ after).head?, isBlank c = false := by
    cases core with
    | nil => exact absurd rfl hne
    | cons c core => exact hfirst
  have hfront : dropBlanks (before ++ core ++ after) = core ++ after := by
    rw [List.append_assoc, dropBlanks_append hbefore, dropBlanks_of_head hhead]
  have hback : dropBlanks (after.reverse ++ core.reverse) = core.reverse := by
    rw [dropBlanks_append fun c hc => hafter c (List.mem_reverse.mp hc)]
    exact dropBlanks_of_head (by rwa [List.head?_reverse])
  rw [trimChars, hfront, List.reverse_append, hback, List.reverse_reverse]

/-- What is left of a text without the blanks around it. -/
def Trimmed (text core : List Char) : Prop :=
  Bare core ∧ ∃ before after, text = before ++ core ++ after ∧
    (∀ c ∈ before, isBlank c = true) ∧ ∀ c ∈ after, isBlank c = true

theorem bare_trimChars (cs : List Char) : Bare (trimChars cs) := by
  constructor
  · -- What is taken off the end leaves the first character where it was.
    have hsuffix : dropBlanks (dropBlanks cs).reverse <:+ (dropBlanks cs).reverse :=
      List.dropWhile_suffix _
    have hprefix : trimChars cs <+: dropBlanks cs := by
      have hreversed := List.reverse_prefix.mpr hsuffix
      rwa [List.reverse_reverse] at hreversed
    obtain ⟨rest, hrest⟩ := hprefix
    intro c hc
    apply head?_dropBlanks_not_isBlank cs
    rw [Option.mem_def] at hc
    rw [← hrest, List.head?_append, hc, Option.some_or]
    rfl
  · intro c hc
    rw [trimChars, List.getLast?_reverse] at hc
    exact head?_dropBlanks_not_isBlank _ c hc

theorem Bare.trimmed {cs : List Char} (h : Bare cs) : Trimmed cs cs :=
  ⟨h, [], [], by simp, by simp, by simp⟩

theorem trimChars_eq_iff {text core : List Char} : trimChars text = core ↔ Trimmed text core := by
  constructor
  · rintro rfl
    exact ⟨bare_trimChars text, trimChars_split text⟩
  · rintro ⟨hbare, before, after, rfl, hbefore, hafter⟩
    by_cases hne : core = []
    · subst hne
      have hblank : ∀ c ∈ before ++ [] ++ after, isBlank c = true := by
        intro c hc
        rw [List.append_nil] at hc
        exact (List.mem_append.mp hc).elim (hbefore c) (hafter c)
      have hnone : dropBlanks (before ++ [] ++ after) = [] :=
        List.dropWhile_eq_nil_iff.mpr hblank
      rw [trimChars, hnone]
      rfl
    · exact trimChars_of_bare hbefore hne hbare hafter

/-- A number is read between blanks exactly when the text spells it and it fits. -/
theorem readNumber_trim_iff {limit n : Nat} {text : String} :
    readNumber limit (trimChars text.toList) = .ok n ↔ Spells text n ∧ n ≤ limit := by
  rw [readNumber_eq_ok_iff]
  refine and_congr_left fun _ => ⟨fun h => ?_, ?_⟩
  · obtain ⟨before, after, heq, hbefore, hafter⟩ := trimChars_split text.toList
    exact ⟨before, _, after, heq, hbefore, h, hafter⟩
  · rintro ⟨before, core, after, heq, hbefore, hcore, hafter⟩
    rwa [heq, trimChars_of_bare hbefore hcore.bare.1 hcore.bare.2 hafter]

theorem Spells.unique {text : String} {m n : Nat} (hm : Spells text m) (hn : Spells text n) :
    m = n := by
  have hread := readNumber_trim_iff.mpr ⟨hm, le_max_left m n⟩
  rw [readNumber_trim_iff.mpr ⟨hn, le_max_right m n⟩] at hread
  exact (Except.ok.inj hread).symm

end RtpBroker.Text
