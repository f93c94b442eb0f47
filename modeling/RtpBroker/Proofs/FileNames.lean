import RtpBroker.AudioFormat
import RtpBroker.Proofs.Numerals
import RtpBroker.Session

/-!
# Names of audio files

The name of an audio file is made of the port, six characters of its own, and the
format in lower case. None of these has a slash, so the file lies in the directory of
temporary files itself.
-/

namespace RtpBroker

namespace AudioFormat

theorem lower_eq (c : Char) : lower c = c.toLower := by
  have hiff : ('A' ≤ c ∧ c ≤ 'Z') ↔ c.val ≥ 'A'.val ∧ c.val ≤ 'Z'.val := Iff.rfl
  unfold lower Char.toLower
  split
  · next h =>
    rw [dif_pos (hiff.mp h)]
    have hhigh : c.toNat ≤ 90 := h.2
    have hadd : (c.val + ('a'.val - 'A'.val)).toNat = c.toNat + 32 := by
      rw [UInt32.toNat_add]
      change (c.toNat + 32) % 4294967296 = c.toNat + 32
      omega
    have hvalid : (c.toNat + 32).isValidChar := Or.inl (by omega)
    refine Char.ext (UInt32.toNat_inj.mp (Eq.trans ?_ hadd.symm))
    rw [Char.ofNat, dif_pos hvalid]
    rfl
  · next h => rw [dif_neg (mt hiff.mpr h)]

theorem ofList_map_lower (s : String) : String.ofList (s.toList.map lower) = s.toLower := by
  have hlower : s.toLower = s.map Char.toLower := rfl
  rw [hlower, String.ext_iff, String.toList_map, String.toList_ofList]
  exact List.map_congr_left fun c _ => lower_eq c

end AudioFormat

namespace Session

/-- The random part of a name: six letters or digits. -/
def IsTag (tag : String) : Prop :=
  tag.length = 6 ∧ ∀ c ∈ tag.toList, AudioFormat.isAlphanumeric c = true

instance : DecidablePred IsTag := fun tag =>
  decidable_of_iff (tag.length = 6 ∧ tag.toList.all AudioFormat.isAlphanumeric = true)
    (and_congr_right' List.all_eq_true)

theorem toList_fileName (c : PlaySetup) (port : Port) (r : Request) :
    (fileName c port r).toList = "audio_".toList ++ Nat.toDigits 10 port.toNat ++ "_".toList ++
      (c.host.tag r.id).toList ++ ".".toList ++ r.format.toList := by
  have hname : fileName c port r =
      "audio_" ++ toString port.toNat ++ "_" ++ c.host.tag r.id ++ "." ++ r.format := rfl
  have hdigits : (toString port.toNat).toList = Nat.toDigits 10 port.toNat := Nat.toList_repr
  rw [hname]
  simp only [String.toList_append, hdigits]

end Session

end RtpBroker
