import Mathlib.Data.List.TakeWhile
import RtpBroker.Proofs.Calendar
import RtpBroker.Proofs.Numerals

/-!
# Texts of times

A time of the calendar whose leap second, if it has one, ends a minute is read back from its
text, and no other time is ever read.
-/

namespace RtpBroker

namespace Text

theorem isBlank_of_isDigit {c : Char} (h : isDigit c = true) : isBlank c = false := by
  obtain ⟨hlow, hhigh⟩ := toNat_of_isDigit h
  simp only [isBlank, Bool.or_eq_false_iff, Bool.and_eq_false_iff, decide_eq_false_iff_not,
    beq_eq_false_iff_ne]
  omega

theorem dropBlanks_cons {c : Char} (h : isBlank c = false) (cs : List Char) :
    dropBlanks (c :: cs) = c :: cs := by
  simp [dropBlanks, h]

theorem padded_ne_nil (width n : Nat) : padded width n ≠ [] := by
  simp [padded, Nat.toDigits_ne_nil]

theorem dropBlanks_digits {ds : List Char} (hne : ds ≠ []) (hds : ∀ c ∈ ds, isDigit c = true)
    (rest : List Char) : dropBlanks (ds ++ rest) = ds ++ rest := by
  cases ds with
  | nil => exact absurd rfl hne
  | cons d ds => exact dropBlanks_cons (isBlank_of_isDigit (hds d List.mem_cons_self)) _

end Text

namespace Timestamp

open Text (padded isDigit EndsDigits)

/-- A time of the calendar; a leap second is the last one of its minute. -/
def Valid (t : Timestamp) : Prop :=
  inCalendar t.seconds = true ∧
    (t.nanos < 1000000000 ∨ t.nanos < 2000000000 ∧ t.seconds % 60 = 59)

/-! ## Numbers in a text -/

theorem takeNumber?_digits {width : Nat} {ds rest : List Char} (hne : ds ≠ [])
    (hds : ∀ c ∈ ds, isDigit c = true) (hlength : ds.length ≤ width)
    (hend : ds.length = width ∨ EndsDigits rest) :
    takeNumber? width (ds ++ rest) = some (Text.digitsValue ds, rest) := by
  have hcut : EndsDigits (rest.take (width - ds.length)) := by
    rcases hend with heq | hrest
    · simp [heq, EndsDigits]
    · intro c hc
      cases rest with
      | nil => simp at hc
      | cons d rest =>
        rw [List.head?_take] at hc
        split at hc
        · cases hc
        · exact hrest c hc
  have htake : ((ds ++ rest).take width).takeWhile isDigit = ds := by
    rw [List.take_append, List.take_of_length_le hlength]
    exact (Text.takeWhile_digits hds hcut).1
  have hnonempty : ds.isEmpty = false := by simpa using hne
  simp [takeNumber?, htake, hnonempty]

theorem takeNumber?_numeral {width k n : Nat} {rest : List Char}
    (hlength : (padded k n).length ≤ width)
    (hend : (padded k n).length = width ∨ EndsDigits rest) :
    takeNumber? width (padded k n ++ rest) = some (n, rest) := by
  rw [takeNumber?_digits (Text.padded_ne_nil _ _) (fun _ => Text.isDigit_of_mem_padded) hlength
    hend, Text.digitsValue_padded]

theorem takeNumber?_padded {width n : Nat} (hwidth : 0 < width) (hn : n < Text.tenTo width)
    (rest : List Char) : takeNumber? width (padded width n ++ rest) = some (n, rest) := by
  have hlength := Text.length_padded hwidth hn
  exact takeNumber?_numeral hlength.le (.inl hlength)

theorem takeField?_padded {n : Nat} (hn : n < 100) (rest : List Char) :
    takeField? (padded 2 n ++ rest) = some (n, rest) := by
  rw [takeField?, Text.dropBlanks_digits (Text.padded_ne_nil _ _)
    (fun _ => Text.isDigit_of_mem_padded), takeNumber?_padded (by decide) hn]

theorem takeYear?_minus (cs : List Char) :
    takeYear? ('-' :: cs) = (takeNumber? cs.length cs).map fun (n, r) => (-(n : Int), r) := rfl

theorem takeYear?_plus (cs : List Char) :
    takeYear? ('+' :: cs) = (takeNumber? cs.length cs).map fun (n, r) => ((n : Int), r) := rfl

theorem takeYear?_padded {n : Nat} (hn : n < 10000) (rest : List Char) :
    takeYear? (padded 4 n ++ rest) = some ((n : Int), rest) := by
  have htake : takeNumber? 4 (padded 4 n ++ rest) = some (n, rest) :=
    takeNumber?_padded (by decide) hn rest
  have hblanks := Text.dropBlanks_digits (Text.padded_ne_nil 4 n)
    (fun _ => Text.isDigit_of_mem_padded) rest
  rw [takeYear?, hblanks]
  cases hds : padded 4 n with
  | nil => exact absurd hds (Text.padded_ne_nil _ _)
  | cons d ds =>
    have hd : isDigit d = true := Text.isDigit_of_mem_padded (hds ▸ List.mem_cons_self)
    rw [hds] at htake
    rw [List.cons_append] at htake ⊢
    split
    · next heq => cases heq; exact absurd hd (by decide)
    · next heq => cases heq; exact absurd hd (by decide)
    · rw [htake]
      rfl

/-- A year is followed by something that is no digit. -/
theorem takeYear?_text (y : Int) {rest : List Char} (hrest : EndsDigits rest) :
    takeYear? ((yearText y).toList ++ rest) = some (y, rest) := by
  have hsigned : takeNumber? (padded 4 y.natAbs ++ rest).length (padded 4 y.natAbs ++ rest) =
      some (y.natAbs, rest) :=
    takeNumber?_numeral (by simp) (.inr hrest)
  unfold yearText
  split
  · next hy =>
    rw [Text.toList_paddedText, takeYear?_padded (by omega), Int.toNat_of_nonneg hy.1]
  · rw [String.toList_append, Text.toList_paddedText, List.append_assoc]
    split
    · change takeYear? ('-' :: (padded 4 y.natAbs ++ rest)) = _
      rw [takeYear?_minus, hsigned]
      exact congrArg some (Prod.ext (show (-(y.natAbs : Int)) = y by omega) rfl)
    · change takeYear? ('+' :: (padded 4 y.natAbs ++ rest)) = _
      rw [takeYear?_plus, hsigned]
      exact congrArg some (Prod.ext (show (y.natAbs : Int) = y by omega) rfl)

theorem takeFraction?_padded {width n : Nat} (hwidth : 0 < width) (hle : width ≤ 9)
    (hn : n < Text.tenTo width) :
    takeFraction? ('.' :: (padded width n ++ ['Z'])) =
      some (n * Text.tenTo (9 - width), ['Z']) := by
  have hlength := Text.length_padded hwidth hn
  have hends : EndsDigits ['Z'] := by simp [EndsDigits]; rfl
  have htake : takeNumber? 9 (padded width n ++ ['Z']) = some (n, ['Z']) :=
    takeNumber?_numeral (by omega) (.inr hends)
  simp only [takeFraction?, htake, Option.bind_eq_bind, Option.bind_some, List.length_append,
    hlength, List.length_singleton, Nat.add_sub_cancel]
  rfl

theorem takeFraction?_text {n : Nat} (hn : n < 1000000000) :
    takeFraction? ((fractionText n).toList ++ ['Z']) = some (n, ['Z']) := by
  have hpadded : ∀ width k : Nat, (("." ++ Text.paddedText width k).toList ++ ['Z']) =
      '.' :: (padded width k ++ ['Z']) := by
    intro width k
    simp [Text.toList_paddedText]
  unfold fractionText
  split
  · next hzero => rw [hzero]; rfl
  · split
    · rw [hpadded, takeFraction?_padded (by decide) (by decide)
        (show n / 1000000 < 1000 by omega)]
      change some (n / 1000000 * 1000000, _) = _
      rw [show n / 1000000 * 1000000 = n by omega]
    · split
      · rw [hpadded, takeFraction?_padded (by decide) (by decide)
          (show n / 1000 < 1000000 by omega)]
        change some (n / 1000 * 1000, _) = _
        rw [show n / 1000 * 1000 = n by omega]
      · rw [hpadded, takeFraction?_padded (by decide) (by decide) hn]
        change some (n * 1, _) = _
        rw [Nat.mul_one]

/-! ## Reading times -/

theorem takeNumber?_eq_some {width n : Nat} {cs rest : List Char}
    (h : takeNumber? width cs = some (n, rest)) :
    ∃ ds, cs = ds ++ rest ∧ (∀ c ∈ ds, isDigit c = true) ∧ ds.length ≤ width ∧
      n = Text.digitsValue ds := by
  simp only [takeNumber?] at h
  split at h
  · cases h
  · cases h
    obtain ⟨ds, hds⟩ : ∃ ds, ds = (cs.take width).takeWhile isDigit := ⟨_, rfl⟩
    rw [← hds]
    have hfront : ds <+: cs.take width := hds ▸ List.takeWhile_prefix _
    have hlength := hfront.length_le
    rw [List.length_take] at hlength
    refine ⟨ds, ?_, fun c hc => List.mem_takeWhile_imp (hds ▸ hc), by omega, rfl⟩
    exact (List.prefix_iff_eq_append.mp (hfront.trans (List.take_prefix _ _))).symm

theorem takeFraction?_lt {cs rest : List Char} {n : Nat} (h : takeFraction? cs = some (n, rest)) :
    n < 1000000000 := by
  unfold takeFraction? at h
  split at h
  · next cs =>
    obtain ⟨⟨k, after⟩, htake, h⟩ := Option.bind_eq_some_iff.mp h
    obtain ⟨ds, rfl, hds, hlength, rfl⟩ := takeNumber?_eq_some htake
    cases h
    have hpower : Text.tenTo ds.length * Text.tenTo (9 - ds.length) = 1000000000 := by
      change 10 ^ ds.length * 10 ^ (9 - ds.length) = _
      rw [← Nat.pow_add, show ds.length + (9 - ds.length) = 9 by omega]
    rw [List.length_append, Nat.add_sub_cancel]
    exact hpower ▸ Nat.mul_lt_mul_of_pos_right (Text.digitsValue_lt hds) (Nat.pow_pos (by decide))
  · cases h
    decide

/-- Offsets are whole minutes. -/
theorem takeOffset?_dvd {cs rest : List Char} {offset : Int}
    (h : takeOffset? cs = some (offset, rest)) : offset % 60 = 0 := by
  unfold takeOffset? at h
  split at h
  · cases h; rfl
  · split at h
    · cases h; rfl
    · cases h; rfl
    · split at h
      · split at h
        · split at h
          · cases h
            split <;> omega
          · cases h
        · cases h
      · cases h
    · cases h

theorem compose?_valid {y : Int} {mo d h mi s nanos : Nat} {offset : Int} {t : Timestamp}
    (hnanos : nanos < 1000000000) (hoffset : offset % 60 = 0)
    (hread : compose? y mo d h mi s nanos offset = some t) : t.Valid := by
  unfold compose? at hread
  split at hread
  · obtain ⟨leap, hleap⟩ : ∃ leap, leap = if s = 60 then 1 else 0 := ⟨_, rfl⟩
    simp only [← hleap] at hread
    split at hread
    · next hin =>
      cases hread
      refine ⟨hin, ?_⟩
      simp only [secondsPerDay]
      split at hleap <;> omega
    · cases hread
  · cases hread

/-- The time of day and the offset that follow a date. -/
def afterDate? (y : Int) (mo d : Nat) (cs : List Char) : Option Timestamp := do
  let (h, cs) ← takeField? cs
  let (mi, cs) ← takeField? (← takeSeparator? ':' cs)
  let (s, cs) ← takeField? (← takeSeparator? ':' cs)
  let (nanos, cs) ← takeFraction? cs
  let (offset, cs) ← takeOffset? (Text.dropBlanks cs)
  if (Text.dropBlanks cs).isEmpty then compose? y mo d h mi s nanos offset else none

theorem ofChars?_eq (cs : List Char) : ofChars? cs = (do
    let (y, cs) ← takeYear? cs
    let (mo, cs) ← takeField? (← takeSeparator? '-' cs)
    let (d, cs) ← takeField? (← takeSeparator? '-' cs)
    match cs with
    | 'T' :: r => afterDate? y mo d r
    | 't' :: r => afterDate? y mo d r
    | ' ' :: r => afterDate? y mo d r
    | _ => none) := rfl

theorem afterDate?_valid {y : Int} {mo d : Nat} {cs : List Char} {t : Timestamp}
    (h : afterDate? y mo d cs = some t) : t.Valid := by
  obtain ⟨⟨hour, cs⟩, -, h⟩ := Option.bind_eq_some_iff.mp h
  obtain ⟨cs, -, h⟩ := Option.bind_eq_some_iff.mp h
  obtain ⟨⟨mi, cs⟩, -, h⟩ := Option.bind_eq_some_iff.mp h
  obtain ⟨cs, -, h⟩ := Option.bind_eq_some_iff.mp h
  obtain ⟨⟨sec, cs⟩, -, h⟩ := Option.bind_eq_some_iff.mp h
  obtain ⟨⟨nanos, cs⟩, hnanos, h⟩ := Option.bind_eq_some_iff.mp h
  obtain ⟨⟨offset, cs⟩, hoffset, h⟩ := Option.bind_eq_some_iff.mp h
  simp only at h
  split at h
  · exact compose?_valid (takeFraction?_lt hnanos) (takeOffset?_dvd hoffset) h
  · cases h

theorem valid_of_ofString? {s : String} {t : Timestamp} (h : ofString? s = some t) : t.Valid := by
  rw [ofString?, ofChars?_eq] at h
  obtain ⟨⟨y, cs⟩, -, h⟩ := Option.bind_eq_some_iff.mp h
  obtain ⟨cs, -, h⟩ := Option.bind_eq_some_iff.mp h
  obtain ⟨⟨mo, cs⟩, -, h⟩ := Option.bind_eq_some_iff.mp h
  obtain ⟨cs, -, h⟩ := Option.bind_eq_some_iff.mp h
  obtain ⟨⟨d, cs⟩, -, h⟩ := Option.bind_eq_some_iff.mp h
  simp only at h
  split at h
  · exact afterDate?_valid h
  · exact afterDate?_valid h
  · exact afterDate?_valid h
  · cases h

/-! ## Reading a text -/

/-- The days since 1970 and the seconds of the day. -/
theorem seconds_eq (t : Timestamp) :
    t.seconds = t.seconds.fdiv secondsPerDay * secondsPerDay +
      (t.seconds.fmod secondsPerDay).toNat ∧ (t.seconds.fmod secondsPerDay).toNat < 86400 := by
  rw [Int.fdiv_eq_ediv_of_nonneg _ (by decide), Int.fmod_eq_emod_of_nonneg _ (by decide)]
  simp only [secondsPerDay]
  omega

theorem compose?_of_valid {t : Timestamp} (h : t.Valid) {y : Int} {m d rest : Nat}
    (hdate : dateOfDays (t.seconds.fdiv secondsPerDay) = (y, m, d))
    (hrest : (t.seconds.fmod secondsPerDay).toNat = rest) :
    compose? y m d (rest / 3600) (rest / 60 % 60) (rest % 60 + t.nanos / 1000000000)
      (t.nanos % 1000000000) 0 = some t := by
  obtain ⟨hcalendar, hleap⟩ := h
  obtain ⟨hm, hm', hd, hd', hdays⟩ := dateOfDays_spec (t.seconds.fdiv secondsPerDay)
  obtain ⟨hseconds, hlt⟩ := seconds_eq t
  have hyear : firstYear ≤ y ∧ y ≤ lastYear := by simpa [inCalendar, hdate] using hcalendar
  simp only [hdate] at hm hm' hd hd' hdays
  rw [hrest] at hlt hseconds
  rw [← hdays] at hseconds
  have hminute : t.nanos / 1000000000 = 1 → rest % 60 = 59 := by
    simp only [secondsPerDay] at hseconds
    omega
  unfold compose?
  rw [if_pos ⟨hyear.1, hyear.2, hm, hm', hd, hd', by omega, by omega, by omega, by decide,
    by decide⟩]
  obtain ⟨leap, hleap'⟩ : ∃ leap, leap = if rest % 60 + t.nanos / 1000000000 = 60 then 1 else 0 :=
    ⟨_, rfl⟩
  have hlast : leap = t.nanos / 1000000000 := by
    split at hleap' <;> omega
  have htime : daysOfDate y m d * secondsPerDay + (rest / 3600 * 3600 + rest / 60 % 60 * 60 +
      (rest % 60 + t.nanos / 1000000000 - leap) : Nat) - 0 = t.seconds := by
    rw [hseconds, hlast, Nat.add_sub_cancel, Int.sub_zero]
    congr 2
    omega
  simp only [← hleap', htime, hcalendar, if_true]
  rw [hlast, Nat.mod_add_div']

theorem takeSeparator?_cons {c : Char} (h : Text.isBlank c = false) (cs : List Char) :
    takeSeparator? c (c :: cs) = some cs := by
  rw [takeSeparator?, Text.dropBlanks_cons h]
  exact if_pos rfl

theorem takeOffset?_utc : takeOffset? (Text.dropBlanks ['Z']) = some (0, []) := rfl

theorem toList_text {t : Timestamp} {y : Int} {m d rest : Nat}
    (hdate : dateOfDays (t.seconds.fdiv secondsPerDay) = (y, m, d))
    (hrest : (t.seconds.fmod secondsPerDay).toNat = rest) : t.text.toList =
      (yearText y).toList ++ '-' :: (padded 2 m ++ '-' :: (padded 2 d ++ 'T' ::
        (padded 2 (rest / 3600) ++ ':' :: (padded 2 (rest / 60 % 60) ++ ':' ::
          (padded 2 (rest % 60 + t.nanos / 1000000000) ++
            ((fractionText (t.nanos % 1000000000)).toList ++ ['Z'])))))) := by
  rw [text]
  simp only [hdate, hrest, String.toList_append, Text.toList_paddedText, List.append_assoc]
  rfl

theorem afterDate?_text {h mi s nanos : Nat} (y : Int) (m d : Nat) (hh : h < 100) (hmi : mi < 100)
    (hs : s < 100) (hnanos : nanos < 1000000000) :
    afterDate? y m d (padded 2 h ++ ':' :: (padded 2 mi ++ ':' :: (padded 2 s ++
      ((fractionText nanos).toList ++ ['Z'])))) = compose? y m d h mi s nanos 0 := by
  have hcolon : Text.isBlank ':' = false := rfl
  simp only [afterDate?, Option.bind_eq_bind, Option.bind_some, takeField?_padded hh,
    takeSeparator?_cons hcolon, takeField?_padded hmi, takeField?_padded hs,
    takeFraction?_text hnanos, takeOffset?_utc]
  rfl

theorem ofString?_text {t : Timestamp} (h : t.Valid) : ofString? t.text = some t := by
  obtain ⟨⟨y, m, d⟩, hdate⟩ : ∃ date, dateOfDays (t.seconds.fdiv secondsPerDay) = date := ⟨_, rfl⟩
  obtain ⟨rest, hrest⟩ : ∃ rest, (t.seconds.fmod secondsPerDay).toNat = rest := ⟨_, rfl⟩
  obtain ⟨-, hm, -, hd, -⟩ := dateOfDays_spec (t.seconds.fdiv secondsPerDay)
  rw [hdate] at hm hd
  have hd' := Nat.le_trans hd (daysInMonth_le _ _)
  simp only at hm hd'
  have hlt := hrest ▸ (seconds_eq t).2
  have hnanos : t.nanos < 2000000000 := by
    rcases h.2 with hlt | ⟨hlt, -⟩ <;> omega
  have hdash : Text.isBlank '-' = false := rfl
  rw [ofString?, toList_text hdate hrest, ofChars?_eq,
    takeYear?_text _ (by simp [EndsDigits]; rfl)]
  simp only [Option.bind_eq_bind, Option.bind_some, takeSeparator?_cons hdash,
    takeField?_padded (show m < 100 by omega), takeField?_padded (show d < 100 by omega)]
  rw [afterDate?_text _ _ _ (by omega) (by omega) (by omega) (Nat.mod_lt _ (by decide)),
    compose?_of_valid h hdate hrest]

end Timestamp

end RtpBroker
