import Mathlib.Algebra.Group.Nat.Even
import Mathlib.Data.Finset.Card
import Mathlib.Order.Interval.Finset.Nat
import RtpBroker.Config.Check
import RtpBroker.Proofs.EvenPorts
import RtpBroker.Proofs.PortConservation

/-!
# What the check admits, the broker accepts

The check of a configuration and the start of a broker guard the same ports and
attempts, but not in the same words: the check compares the ends of the range,
the start counts its even ports. They refuse for the same reasons, and what both
let pass is a broker whose capacity is that count.
-/

namespace RtpBroker

namespace PortRange

variable {low high : Port}

/-! ## Counting even ports -/

theorem evenPorts_eq_card (low high : Port) :
    evenPorts low high = ((Finset.Icc low.toNat high.toNat).filter Even).card := by
  have himage : (Finset.Icc low.toNat high.toNat).filter Even =
      (Finset.range (evenPorts low high)).image fun k => low.toNat + low.toNat % 2 + 2 * k := by
    ext p
    simp only [Finset.mem_filter, Finset.mem_Icc, Finset.mem_image, Finset.mem_range,
      Nat.even_iff, evenPorts]
    constructor
    · rintro ⟨⟨hlow, hhigh⟩, heven⟩
      refine ⟨(p - (low.toNat + low.toNat % 2)) / 2, ?_, by omega⟩
      split <;> omega
    · rintro ⟨k, hk, rfl⟩
      split at hk <;> omega
  have hinjective : Function.Injective fun k => low.toNat + low.toNat % 2 + 2 * k := by
    intro k l hkl
    dsimp only at hkl
    omega
  rw [himage, Finset.card_image_of_injective _ hinjective, Finset.card_range]

theorem evenPorts_pos_iff :
    0 < evenPorts low high ↔ ∃ p, low ≤ p ∧ p ≤ high ∧ isEven p = true := by
  simp only [UInt16.le_iff_toNat_le, isEven_iff]
  constructor
  · intro hpos
    have hhigh := high.toNat_lt
    have hfirst : low.toNat + low.toNat % 2 ≤ high.toNat := by
      unfold evenPorts at hpos
      dsimp only at hpos
      split at hpos <;> omega
    have hfits : (UInt16.ofNat (low.toNat + low.toNat % 2)).toNat = low.toNat + low.toNat % 2 :=
      UInt16.toNat_ofNat_of_lt' (show _ < 65536 by omega)
    exact ⟨UInt16.ofNat (low.toNat + low.toNat % 2), by omega, by omega, by omega⟩
  · rintro ⟨p, hlow, hhigh, heven⟩
    unfold evenPorts
    dsimp only
    split <;> omega

/-- Only a range of a single odd port has no even one. -/
theorem evenPorts_eq_zero_iff (hle : low ≤ high) :
    evenPorts low high = 0 ↔ low = high ∧ low % 2 ≠ 0 := by
  rw [UInt16.le_iff_toNat_le] at hle
  rw [ne_eq, ← UInt16.toNat_inj, ← UInt16.toNat_inj, UInt16.toNat_mod]
  change evenPorts low high = 0 ↔ low.toNat = high.toNat ∧ ¬ low.toNat % 2 = 0
  unfold evenPorts
  dsimp only
  split <;> omega

/-! ### In 32 bits

The count with every step looked at: none if a step leaves the 32 bits.
-/

def sum32? (m n : UInt32) : Option UInt32 :=
  if m.toNat + n.toNat < UInt32.size then some (m + n) else none

def difference32? (m n : UInt32) : Option UInt32 := if n ≤ m then some (m - n) else none

def evenPorts32? (low high : Port) : Option UInt32 := do
  let first ← sum32? low.toUInt32 (low % 2).toUInt32
  if high.toUInt32 < first then some 0
  else
    let span ← difference32? high.toUInt32 first
    sum32? (span / 2) 1

theorem sum32?_eq {m n : UInt32} (h : m.toNat + n.toNat < UInt32.size) :
    ∃ k, sum32? m n = some k ∧ k.toNat = m.toNat + n.toNat := by
  refine ⟨m + n, if_pos h, ?_⟩
  rw [UInt32.toNat_add]
  exact Nat.mod_eq_of_lt h

theorem difference32?_eq {m n : UInt32} (h : n.toNat ≤ m.toNat) :
    ∃ k, difference32? m n = some k ∧ k.toNat = m.toNat - n.toNat := by
  have hle : n ≤ m := UInt32.le_iff_toNat_le.mpr h
  exact ⟨m - n, if_pos hle, UInt32.toNat_sub_of_le _ _ hle⟩

theorem evenPorts32?_eq (low high : Port) :
    (evenPorts32? low high).map UInt32.toNat = some (evenPorts low high) := by
  have hlow := low.toNat_lt
  have hhigh := high.toNat_lt
  have hodd : (low % 2).toUInt32.toNat = low.toNat % 2 := by
    rw [UInt16.toNat_toUInt32, UInt16.toNat_mod]
    rfl
  obtain ⟨first, hfirst, hsum⟩ : ∃ k, sum32? low.toUInt32 (low % 2).toUInt32 = some k ∧
      k.toNat = low.toNat + low.toNat % 2 := by
    rw [← hodd, ← low.toNat_toUInt32]
    refine sum32?_eq ?_
    rw [hodd, low.toNat_toUInt32]
    change _ < 4294967296
    omega
  unfold evenPorts32? evenPorts
  simp only [hfirst, Option.bind_eq_bind, Option.bind_some, UInt32.lt_iff_toNat_lt, hsum,
    UInt16.toNat_toUInt32]
  split
  · rfl
  · next hle =>
    obtain ⟨span, hspan, hdifference⟩ : ∃ k, difference32? high.toUInt32 first = some k ∧
        k.toNat = high.toNat - first.toNat := by
      rw [← high.toNat_toUInt32]
      refine difference32?_eq ?_
      rw [high.toNat_toUInt32]
      omega
    have hhalf : (span / 2).toNat = span.toNat / 2 := by
      rw [UInt32.toNat_div]
      rfl
    obtain ⟨count, hcount, htotal⟩ : ∃ k, sum32? (span / 2) 1 = some k ∧
        k.toNat = (span / 2).toNat + 1 := by
      refine sum32?_eq ?_
      change (span / 2).toNat + 1 < 4294967296
      omega
    rw [hspan, Option.bind_some, hcount, Option.map_some, htotal, hhalf, hdifference, hsum]

/-! ## Refused ranges -/

theorem last_invertedText (low high : Port) :
    (invertedText low high).toList.getLast? = some ')' := by
  unfold invertedText
  rw [String.toList_append, List.getLast?_append]
  rfl

theorem last_oddText (low high : Port) : (oddText low high).toList.getLast? = some 't' := by
  unfold oddText
  rw [String.toList_append, List.getLast?_append]
  rfl

theorem invertedText_ne_oddText : invertedText low high ≠ oddText low high := by
  intro heq
  have hlast := last_invertedText low high
  rw [heq, last_oddText] at hlast
  exact absurd hlast (by decide)

theorem of_eq_ok_iff {r : PortRange} :
    of low high = .ok r ↔ low ≤ high ∧ 0 < evenPorts low high ∧ r.low = low ∧ r.high = high := by
  unfold of
  split
  · next hle =>
    split
    · next hpos =>
      constructor
      · rintro ⟨⟩
        exact ⟨hle, hpos, rfl, rfl⟩
      · rintro ⟨-, -, rfl, rfl⟩
        rfl
    · next hnone => simp [hnone]
  · next hinverted => simp [hinverted]

theorem of_eq_inverted_iff :
    of low high = .error (.configuration (invertedText low high)) ↔ high < low := by
  rw [← UInt16.not_le]
  unfold of
  split
  · next hle =>
    split
    · simp [hle]
    · simp [hle, invertedText_ne_oddText.symm]
  · next hinverted => simp [hinverted]

theorem of_eq_odd_iff :
    of low high = .error (.configuration (oddText low high)) ↔ low = high ∧ low % 2 ≠ 0 := by
  unfold of
  split
  · next hle =>
    rw [← evenPorts_eq_zero_iff hle, ← Nat.not_lt.trans Nat.le_zero]
    split
    · next hpos => simp [hpos]
    · next hnone => simp [hnone]
  · next hinverted =>
    have hne : low ≠ high := fun heq => hinverted (heq ▸ UInt16.le_refl low)
    simp [hne, invertedText_ne_oddText]

theorem of_ne_noAttempts :
    of low high ≠ .error (.configuration Broker.noAttemptsText) := by
  intro heq
  have hlast (text : String) (h : of low high = .error (.configuration text)) :
      text.toList.getLast? = some ')' ∨ text.toList.getLast? = some 't' := by
    unfold of at h
    split at h
    · split at h
      · cases h
      · cases h
        exact Or.inr (last_oddText low high)
    · cases h
      exact Or.inl (last_invertedText low high)
  exact absurd (hlast _ heq) (by decide)

end PortRange

namespace Broker

variable {setup : BrokerSetup} {calendar : Timestamp}

theorem start_of_refused {f : Fault} (h : PortRange.of setup.low setup.high = .error f) :
    start setup calendar = .error f := by
  unfold start
  rw [h]
  rfl

theorem start_of_range {r : PortRange} (h : PortRange.of setup.low setup.high = .ok r) :
    start setup calendar = if setup.attempts = 0 then .error (.configuration noAttemptsText)
      else .ok {
        setup
        allocator := ⟨r, setup.attempts, setup.cooldown⟩
        exchange := { calendar } } := by
  unfold start
  rw [h]
  rfl

theorem start_ok_iff :
    (∃ b, start setup calendar = .ok b) ↔
      0 < setup.attempts ∧ setup.low ≤ setup.high ∧ 0 < evenPorts setup.low setup.high := by
  rw [UInt32.pos_iff_ne_zero]
  constructor
  · rintro ⟨b, hb⟩
    obtain ⟨r, hrange, -⟩ := start_eq hb
    obtain ⟨hle, hpos, -⟩ := PortRange.of_eq_ok_iff.mp hrange
    refine ⟨fun hzero => ?_, hle, hpos⟩
    rw [start_of_range hrange, if_pos hzero] at hb
    cases hb
  · rintro ⟨hne, hle, hpos⟩
    have hrange : PortRange.of setup.low setup.high = .ok ⟨setup.low, setup.high, hle, hpos⟩ :=
      PortRange.of_eq_ok_iff.mpr ⟨hle, hpos, rfl, rfl⟩
    exact ⟨_, (start_of_range hrange).trans (if_neg hne)⟩

theorem start_eq_noAttempts_iff :
    start setup calendar = .error (.configuration noAttemptsText) ↔
      setup.attempts = 0 ∧ setup.low ≤ setup.high ∧ 0 < evenPorts setup.low setup.high := by
  cases hrange : PortRange.of setup.low setup.high with
  | error f =>
    have hports : ¬ (setup.low ≤ setup.high ∧ 0 < evenPorts setup.low setup.high) := by
      rintro ⟨hle, hpos⟩
      have hok : PortRange.of setup.low setup.high = .ok ⟨setup.low, setup.high, hle, hpos⟩ :=
        PortRange.of_eq_ok_iff.mpr ⟨hle, hpos, rfl, rfl⟩
      rw [hok] at hrange
      cases hrange
    rw [start_of_refused hrange]
    refine iff_of_false (fun heq => ?_) fun h => hports h.2
    rw [Except.error.inj heq] at hrange
    exact PortRange.of_ne_noAttempts hrange
  | ok r =>
    obtain ⟨hle, hpos, -⟩ := PortRange.of_eq_ok_iff.mp hrange
    rw [start_of_range hrange]
    split
    · next hzero => exact iff_of_true rfl ⟨hzero, hle, hpos⟩
    · next hne => simp [hne]

theorem start_capacity {b : Broker} (h : start setup calendar = .ok b) :
    b.capacity = evenPorts setup.low setup.high := by
  obtain ⟨hlow, hhigh, -⟩ := start_ok h
  rw [capacity, PortRange.capacity, hlow, hhigh]

end Broker

namespace Config

variable {c : Config}

theorem check_eq_inverted_iff {low high : Port} :
    c.check = .error (.invertedPorts low high) ↔
      low = c.rtp.portMin ∧ high = c.rtp.portMax ∧ c.rtp.portMax < c.rtp.portMin := by
  unfold check
  split
  · next h => simp [h, eq_comm]
  · next h =>
    refine iff_of_false (fun heq => ?_) fun hand => h hand.2.2
    repeat' split at heq
    all_goals cases heq

theorem check_eq_odd_iff {p : Port} :
    c.check = .error (.noEvenPort p) ↔
      p = c.rtp.portMin ∧ c.rtp.portMin = c.rtp.portMax ∧ c.rtp.portMin % 2 ≠ 0 := by
  unfold check
  split
  · next h =>
    refine iff_of_false (fun heq => by cases heq) fun hand => ?_
    rw [hand.2.1] at h
    exact UInt16.lt_irrefl _ h
  · split
    · next h =>
      constructor
      · rintro ⟨⟩
        exact ⟨rfl, h⟩
      · rintro ⟨rfl, -⟩
        rfl
    · next h =>
      refine iff_of_false (fun heq => ?_) fun hand => h hand.2
      repeat' split at heq
      all_goals cases heq

theorem check_ports (c : Config) :
    (c.rtp.portMin ≤ c.rtp.portMax ∧ 0 < evenPorts c.rtp.portMin c.rtp.portMax) ∨
      (∃ low high, c.check = .error (.invertedPorts low high)) ∨
      ∃ p, c.check = .error (.noEvenPort p) := by
  by_cases hle : c.rtp.portMin ≤ c.rtp.portMax
  · rcases Nat.eq_zero_or_pos (evenPorts c.rtp.portMin c.rtp.portMax) with hzero | hpos
    · have hodd := (PortRange.evenPorts_eq_zero_iff hle).mp hzero
      exact Or.inr (Or.inr ⟨_, check_eq_odd_iff.mpr ⟨rfl, hodd⟩⟩)
    · exact Or.inl ⟨hle, hpos⟩
  · have hinverted := UInt16.not_le.mp hle
    exact Or.inr (Or.inl ⟨_, _, check_eq_inverted_iff.mpr ⟨rfl, rfl, hinverted⟩⟩)

theorem check_eq_noAttempts_iff :
    c.check = .error .noAttempts ↔ c.rtp.attempts = 0 ∧
      c.rtp.portMin ≤ c.rtp.portMax ∧ 0 < evenPorts c.rtp.portMin c.rtp.portMax := by
  constructor
  · intro heq
    refine ⟨?_, ?_⟩
    · by_contra hne
      unfold check at heq
      rw [if_neg hne] at heq
      repeat' split at heq
      all_goals cases heq
    · rcases check_ports c with hports | ⟨low, high, hflaw⟩ | ⟨p, hflaw⟩
      · exact hports
      · rw [hflaw] at heq
        cases heq
      · rw [hflaw] at heq
        cases heq
  · rintro ⟨hzero, hle, hpos⟩
    have hodd := (PortRange.evenPorts_eq_zero_iff hle).not.mp (Nat.ne_of_gt hpos)
    unfold check
    rw [if_neg (UInt16.not_lt.mpr hle), if_neg hodd, if_pos hzero]

theorem startable_of_check (h : c.check = .ok ()) : 0 < c.rtp.attempts ∧
    c.rtp.portMin ≤ c.rtp.portMax ∧ 0 < evenPorts c.rtp.portMin c.rtp.portMax := by
  rcases check_ports c with hports | ⟨low, high, hflaw⟩ | ⟨p, hflaw⟩
  · refine ⟨UInt32.pos_iff_ne_zero.mpr fun hzero => ?_, hports⟩
    rw [check_eq_noAttempts_iff.mpr ⟨hzero, hports⟩] at h
    cases h
  · rw [hflaw] at h
    cases h
  · rw [hflaw] at h
    cases h

/-! ## Agreement -/

theorem brokerSetup_ok_iff {host : Host} :
    (∃ setup, c.brokerSetup host = .ok setup) ↔ (IpAddr.ofString? c.rtp.bindHost).isSome := by
  unfold brokerSetup
  cases IpAddr.ofString? c.rtp.bindHost <;> simp

end Config

/-- It has the ports and attempts of a configuration. -/
structure BrokerSetup.Matches (setup : BrokerSetup) (c : Config) : Prop where
  low : setup.low = c.rtp.portMin
  high : setup.high = c.rtp.portMax
  attempts : setup.attempts = c.rtp.attempts

namespace Config

variable {c : Config}

theorem brokerSetup_matches {host : Host} {setup : BrokerSetup}
    (h : c.brokerSetup host = .ok setup) : setup.Matches c := by
  unfold brokerSetup at h
  split at h
  · cases h
  · cases h
    exact ⟨rfl, rfl, rfl⟩

/-- The check refuses a configuration for its ports or attempts exactly if the start of a broker
refuses it for the same reason. A broker starts exactly if the host to bind parses and the ports and
attempts are right; so what the check lets pass makes a broker once its host parses, and as many
sessions fit in it as there are even ports in the range. -/
theorem check_agrees_with_start (c : Config) (host : Host) (calendar : Timestamp) :
    ((∃ setup b, c.brokerSetup host = .ok setup ∧ Broker.start setup calendar = .ok b) ↔
      (IpAddr.ofString? c.rtp.bindHost).isSome ∧ 0 < c.rtp.attempts ∧
        c.rtp.portMin ≤ c.rtp.portMax ∧
        ∃ p, c.rtp.portMin ≤ p ∧ p ≤ c.rtp.portMax ∧ isEven p = true) ∧
    (∀ low high, c.check = .error (.invertedPorts low high) ↔
      low = c.rtp.portMin ∧ high = c.rtp.portMax ∧
        PortRange.of low high = .error (.configuration (PortRange.invertedText low high))) ∧
    (∀ p, c.check = .error (.noEvenPort p) ↔
      p = c.rtp.portMin ∧ PortRange.of c.rtp.portMin c.rtp.portMax =
        .error (.configuration (PortRange.oddText c.rtp.portMin c.rtp.portMax))) ∧
    (∀ setup : BrokerSetup, setup.Matches c → (c.check = .error .noAttempts ↔
      Broker.start setup calendar = .error (.configuration Broker.noAttemptsText))) ∧
    (c.check = .ok () → (IpAddr.ofString? c.rtp.bindHost).isSome →
      ∃ setup b, c.brokerSetup host = .ok setup ∧ Broker.start setup calendar = .ok b ∧
        b.capacity = ((Finset.Icc c.rtp.portMin.toNat c.rtp.portMax.toNat).filter Even).card ∧
        1 ≤ b.capacity ∧
        (PortRange.evenPorts32? c.rtp.portMin c.rtp.portMax).map UInt32.toNat =
          some b.capacity) := by
  refine ⟨?_, fun low high => ?_, fun p => ?_, fun setup hmatches => ?_, fun hcheck hhost => ?_⟩
  · rw [← PortRange.evenPorts_pos_iff, ← brokerSetup_ok_iff]
    constructor
    · rintro ⟨setup, b, hsetup, hstart⟩
      obtain ⟨hlow, hhigh, hattempts⟩ := brokerSetup_matches hsetup
      rw [← hlow, ← hhigh, ← hattempts]
      exact ⟨⟨setup, hsetup⟩, Broker.start_ok_iff.mp ⟨b, hstart⟩⟩
    · rintro ⟨⟨setup, hsetup⟩, hports⟩
      obtain ⟨hlow, hhigh, hattempts⟩ := brokerSetup_matches hsetup
      rw [← hlow, ← hhigh, ← hattempts] at hports
      obtain ⟨b, hstart⟩ := Broker.start_ok_iff.mpr hports
      exact ⟨setup, b, hsetup, hstart⟩
  · rw [check_eq_inverted_iff, PortRange.of_eq_inverted_iff]
    constructor
    · rintro ⟨rfl, rfl, hlt⟩
      exact ⟨rfl, rfl, hlt⟩
    · rintro ⟨rfl, rfl, hlt⟩
      exact ⟨rfl, rfl, hlt⟩
  · rw [check_eq_odd_iff, PortRange.of_eq_odd_iff]
  · obtain ⟨hlow, hhigh, hattempts⟩ := hmatches
    rw [check_eq_noAttempts_iff, Broker.start_eq_noAttempts_iff, hlow, hhigh, hattempts]
  · obtain ⟨setup, hsetup⟩ := brokerSetup_ok_iff.mpr hhost
    obtain ⟨hlow, hhigh, hattempts⟩ := brokerSetup_matches hsetup
    have hports := startable_of_check hcheck
    rw [← hlow, ← hhigh, ← hattempts] at hports
    obtain ⟨b, hstart⟩ := Broker.start_ok_iff.mpr hports
    have hcapacity := Broker.start_capacity hstart
    rw [← hlow, ← hhigh]
    refine ⟨setup, b, hsetup, hstart, ?_, ?_, ?_⟩
    · rw [hcapacity, PortRange.evenPorts_eq_card]
    · rw [hcapacity]
      exact hports.2.2
    · rw [hcapacity, PortRange.evenPorts32?_eq]

/-- The defaults pass the check and make a broker for 51 sessions. -/
theorem defaults_admitted : check {} = .ok () ∧ ∃ setup b,
    brokerSetup {} {} = .ok setup ∧ Broker.start setup ⟨0, 0⟩ = .ok b ∧ b.capacity = 51 := by
  have hcheck : check {} = .ok () := by decide +kernel
  have hhost : (IpAddr.ofString? ({} : Config).rtp.bindHost).isSome := by decide +kernel
  obtain ⟨setup, b, hsetup, hstart, hcapacity, -⟩ :=
    (check_agrees_with_start {} {} ⟨0, 0⟩).2.2.2.2 hcheck hhost
  exact ⟨hcheck, setup, b, hsetup, hstart, hcapacity.trans (by decide +kernel)⟩

end Config

end RtpBroker
