import Mathlib.Data.String.Basic
import RtpBroker.Text.Split

/-!
# Parts and lengths of texts

Splitting a text at a character and putting that character between some texts undo each other.
A text has at least as many bytes as characters, and just as many if it is ASCII.
-/

namespace RtpBroker.Text

/-! ## Parts -/

theorem splitChars_eq_splitOn (c : Char) (cs : List Char) : splitChars c cs = cs.splitOn c := by
  induction cs with
  | nil => rfl
  | cons d cs ih =>
    rw [splitChars, List.splitOn_cons_eq_if_modifyHead, ih]
    simp only [beq_iff_eq]
    cases hparts : List.splitOn c cs with
    | nil => exact absurd hparts (List.splitOn_ne_nil c cs)
    | cons part parts => rfl

theorem splitChars_of_not_mem {c : Char} {cs : List Char} (h : c ∉ cs) :
    splitChars c cs = [cs] := by
  rw [splitChars_eq_splitOn, List.splitOn_eq_singleton h]

theorem splitChars_append (c : Char) (xs ys : List Char) :
    splitChars c (xs ++ c :: ys) = splitChars c xs ++ splitChars c ys := by
  simp only [splitChars_eq_splitOn, List.splitOn_append_cons_self]

theorem not_mem_of_mem_splitChars {c : Char} {cs part : List Char} (h : part ∈ splitChars c cs) :
    c ∉ part := by
  induction cs generalizing part with
  | nil =>
    rw [List.mem_singleton.mp h]
    exact List.not_mem_nil
  | cons d cs ih =>
    rw [splitChars] at h
    split at h
    · rcases List.mem_cons.mp h with rfl | h
      · exact List.not_mem_nil
      · exact ih h
    · next hne =>
      split at h
      · next first parts hparts =>
        rcases List.mem_cons.mp h with rfl | h
        · have hfirst : c ∉ first := ih (hparts ▸ List.mem_cons_self)
          exact List.not_mem_cons_of_ne_of_not_mem (Ne.symm hne) hfirst
        · exact ih (hparts ▸ List.mem_cons_of_mem _ h)
      · rw [List.mem_singleton.mp h]
        simpa using Ne.symm hne

theorem intercalate_split (c : Char) (s : String) :
    (String.singleton c).intercalate (Text.split c s) = s := by
  have hparts : (Text.split c s).map String.toList = s.toList.splitOn c := by
    simp [Text.split, Text.splitChars_eq_splitOn]
  rw [← String.toList_inj, String.toList_intercalate, hparts, String.toList_singleton,
    List.intercalate_splitOn]

/-! ## Lengths -/

theorem length_le_utf8Len (cs : List Char) : cs.length ≤ String.utf8Len cs := by
  induction cs with
  | nil => simp
  | cons c cs ih =>
    have hsize := c.utf8Size_pos
    rw [String.utf8Len_cons, List.length_cons]
    omega

theorem utf8Len_eq_length {cs : List Char} (h : ∀ c ∈ cs, c.toNat ≤ 127) :
    String.utf8Len cs = cs.length := by
  induction cs with
  | nil => rfl
  | cons c cs ih =>
    obtain ⟨hc, hcs⟩ := List.forall_mem_cons.mp h
    have hsize : c.utf8Size = 1 := Char.utf8Size_eq_one_iff.mpr (UInt32.le_iff_toNat_le.mpr hc)
    rw [String.utf8Len_cons, ih hcs, hsize, List.length_cons]

theorem utf8ByteSize_eq_length {s : String} (h : ∀ c ∈ s.toList, c.toNat ≤ 127) :
    s.utf8ByteSize = s.length := by
  have hsize := utf8Len_eq_length h
  rwa [← String.utf8ByteSize_ofList, String.ofList_toList, String.length_toList] at hsize

end RtpBroker.Text
