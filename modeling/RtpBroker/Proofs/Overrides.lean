import Mathlib.Data.List.Nodup
import RtpBroker.Config.Environment
import RtpBroker.Proofs.NumberTexts

/-!
# What the environment replaces

Each variable is read on its own: whether it is good depends on its text alone, and a good one
replaces one setting. A run over the variables stops at the first one that is not good, with what
those before it have replaced.
-/

namespace RtpBroker.Config

open Text (Spells)

/-- The variables in the order in which they are applied, with the greatest number that fits; one
of them holds no number. -/
def limits : List (String × Option Nat) := [
  ("PORT", some 65535),
  ("PUBLIC_IP", none),
  ("RTP_PORT_MIN", some 65535),
  ("RTP_PORT_MAX", some 65535),
  ("RTP_PORT_QUARANTINE_SECONDS", some 18446744073709551615)]

/-- A variable is not set, or holds no number, or its text spells a number that fits. -/
def Sound (lookup : String → Option String) (entry : String × Option Nat) : Prop :=
  ∀ value ∈ lookup entry.1, ∀ limit ∈ entry.2, ∃ n ≤ limit, Spells value n

/-- A number is the one that a text spells, or if there is no text, the old one. -/
def Given : Option String → Nat → Nat → Prop
  | none, old, new => new = old
  | some value, _, new => Spells value new

/-- The settings that have a variable come from it if it is set; everything else is as it was. -/
structure Replaced (lookup : String → Option String) (c c' : Config) : Prop where
  port : Given (lookup "PORT") c.network.apiPort.toNat c'.network.apiPort.toNat
  host : c'.network.publicHost = (lookup "PUBLIC_IP").getD c.network.publicHost
  portMin : Given (lookup "RTP_PORT_MIN") c.rtp.portMin.toNat c'.rtp.portMin.toNat
  portMax : Given (lookup "RTP_PORT_MAX") c.rtp.portMax.toNat c'.rtp.portMax.toNat
  cooldown : Given (lookup "RTP_PORT_QUARANTINE_SECONDS") c.rtp.cooldownSeconds.toNat
    c'.rtp.cooldownSeconds.toNat
  rest : c' = { c with
    network := { c.network with
      apiPort := c'.network.apiPort, publicHost := c'.network.publicHost }
    rtp := { c.rtp with
      portMin := c'.rtp.portMin, portMax := c'.rtp.portMax,
      cooldownSeconds := c'.rtp.cooldownSeconds } }

/-- An environment of which only the first `k` variables are left. -/
def upTo (k : Nat) (lookup : String → Option String) (name : String) : Option String :=
  if name ∈ (limits.take k).map Prod.fst then lookup name else none

/-! ## One variable -/

theorem readVariable_eq_ok_iff {limit n : Nat} {name value : String} :
    readVariable limit name value = .ok n ↔ Spells value n ∧ n ≤ limit := by
  rw [← Text.readNumber_trim_iff]
  unfold readVariable
  cases Text.readNumber limit (Text.trimChars value.toList) with
  | ok m => rw [Except.ok.injEq, Except.ok.injEq]
  | error flaw => simp

theorem readVariable_error {limit : Nat} {name value : String} {flaw : EnvironmentFlaw}
    (h : readVariable limit name value = .error flaw) : flaw.name = name ∧ flaw.value = value := by
  unfold readVariable at h
  split at h
  · cases h
  · cases h
    exact ⟨rfl, rfl⟩

/-- A variable goes by its name, and whether it is good does not depend on the settings. -/
structure Reads (v : Variable) (entry : String × Option Nat) : Prop where
  name : v.name = entry.1
  ok_iff : ∀ value c, (∃ c', v.set value c = .ok c') ↔
    ∀ limit ∈ entry.2, ∃ n ≤ limit, Spells value n
  error : ∀ {value c flaw}, v.set value c = .error flaw → flaw.name = v.name ∧ flaw.value = value

theorem number_reads (name : String) (limit : Nat) (set : Nat → Config → Config) :
    Reads (number name limit set) (name, some limit) where
  name := rfl
  ok_iff value c := by
    have hread : (∃ n ≤ limit, Spells value n) ↔ ∃ n, readVariable limit name value = .ok n := by
      simp only [readVariable_eq_ok_iff, and_comm]
    simp only [Option.mem_def, Option.some.injEq, forall_eq', hread, number]
    cases readVariable limit name value with
    | ok n => simp [Except.map]
    | error flaw => simp [Except.map]
  error {value c flaw} h := by
    simp only [number] at h ⊢
    cases hread : readVariable limit name value with
    | ok n => rw [hread] at h; cases h
    | error flaw' =>
      rw [hread] at h
      cases h
      exact readVariable_error hread

theorem overrides_reads : List.Forall₂ Reads overrides limits := by
  refine .cons (number_reads ..) (.cons ⟨rfl, ?_, ?_⟩ (.cons (number_reads ..)
    (.cons (number_reads ..) (.cons (number_reads ..) .nil))))
  · simp
  · intro value c flaw h
    cases h

/-! ## A run over the variables -/

section

variable {lookup lookup' : String → Option String} {vs : List Variable}
  {entries : List (String × Option Nat)} {c c' : Config} {flaw : EnvironmentFlaw}

theorem applyFrom_fst_iff (h : List.Forall₂ Reads vs entries) :
    (applyFrom lookup vs c).1 = none ↔ ∀ entry ∈ entries, Sound lookup entry := by
  induction h generalizing c with
  | nil => simp [applyFrom]
  | @cons v entry vs entries hv _ ih =>
    rw [List.forall_mem_cons, Sound, ← hv.name]
    cases hvalue : lookup v.name with
    | none =>
      rw [applyFrom, hvalue]
      simpa using ih
    | some value =>
      rw [applyFrom, hvalue]
      simp only [Option.mem_def, Option.some.injEq, forall_eq']
      have hgood := hv.ok_iff value c
      simp only [Option.mem_def] at hgood
      rw [← hgood]
      cases hset : v.set value c with
      | ok d => simpa using ih
      | error flaw => simp

/-- The run stopped at one of the variables, and those before it have been applied. -/
theorem applyFrom_flawed (h : applyFrom lookup vs c = (some flaw, c')) :
    ∃ k v value, vs[k]? = some v ∧ applyFrom lookup (vs.take k) c = (none, c') ∧
      lookup v.name = some value ∧ v.set value c' = .error flaw := by
  induction vs generalizing c with
  | nil => cases h
  | cons v vs ih =>
    rw [applyFrom] at h
    split at h
    · next hvalue =>
      obtain ⟨k, w, value, hk, hbefore, hrest⟩ := ih h
      refine ⟨k + 1, w, value, hk, ?_, hrest⟩
      rw [List.take_succ_cons, applyFrom, hvalue]
      exact hbefore
    · next value hvalue =>
      split at h
      · next d hset =>
        obtain ⟨k, w, value', hk, hbefore, hrest⟩ := ih h
        refine ⟨k + 1, w, value', hk, ?_, hrest⟩
        rw [List.take_succ_cons, applyFrom, hvalue]
        simpa only [hset] using hbefore
      · next hset =>
        cases h
        exact ⟨0, v, value, rfl, rfl, hvalue, hset⟩

theorem applyFrom_congr (h : ∀ v ∈ vs, lookup v.name = lookup' v.name) :
    applyFrom lookup vs c = applyFrom lookup' vs c := by
  induction vs generalizing c with
  | nil => rfl
  | cons v vs ih =>
    have hrest : ∀ d, applyFrom lookup vs d = applyFrom lookup' vs d :=
      fun d => ih fun w hw => h w (List.mem_cons_of_mem _ hw)
    simp only [applyFrom, h v List.mem_cons_self, hrest]

theorem applyFrom_unset (h : ∀ v ∈ vs, lookup v.name = none) :
    applyFrom lookup vs c = (none, c) := by
  induction vs with
  | nil => rfl
  | cons v vs ih =>
    rw [applyFrom, h v List.mem_cons_self]
    exact ih fun w hw => h w (List.mem_cons_of_mem _ hw)

theorem applyFrom_append (ws : List Variable) (h : applyFrom lookup vs c = (none, c')) :
    applyFrom lookup (vs ++ ws) c = applyFrom lookup ws c' := by
  induction vs generalizing c with
  | nil =>
    cases h
    rfl
  | cons v vs ih =>
    simp only [List.cons_append, applyFrom] at h ⊢
    split at h
    · exact ih h
    · split at h
      · next hset => simpa only [hset] using ih h
      · cases h

/-- The first variables alone do what the whole does when the others are not set. -/
theorem applyFrom_take (k : Nat) (lookup : String → Option String) (c : Config)
    (h : (applyFrom lookup (overrides.take k) c).1 = none) :
    applyEnvironment (upTo k lookup) c = applyFrom lookup (overrides.take k) c := by
  have hnames : (limits.take k).map Prod.fst = (overrides.take k).map Variable.name := by
    rw [List.map_take, List.map_take]
    rfl
  have hdistinct : (overrides.map Variable.name).Nodup := by decide
  have hfirst : applyFrom (upTo k lookup) (overrides.take k) c =
      applyFrom lookup (overrides.take k) c := by
    refine applyFrom_congr fun v hv => ?_
    rw [upTo, hnames, if_pos (List.mem_map_of_mem hv)]
  have hlast : ∀ v ∈ overrides.drop k, upTo k lookup v.name = none := by
    intro v hv
    rw [← List.take_append_drop k overrides, List.map_append] at hdistinct
    rw [upTo, hnames, if_neg]
    exact fun hmem => (List.nodup_append'.mp hdistinct).2.2 hmem (List.mem_map_of_mem hv)
  obtain ⟨d, hd⟩ : ∃ d, applyFrom lookup (overrides.take k) c = (none, d) :=
    ⟨_, Prod.ext h rfl⟩
  rw [hd] at hfirst ⊢
  have hwhole := applyFrom_append (overrides.drop k) hfirst
  rw [List.take_append_drop, applyFrom_unset hlast] at hwhole
  exact hwhole

theorem applyFrom_number {name : String} {limit : Nat} {set : Nat → Config → Config}
    (get : Config → Nat) (hkeep : set (get c) c = c) (hfits : get c ≤ limit)
    (h : applyFrom lookup (number name limit set :: vs) c = (none, c')) :
    ∃ n ≤ limit, Given (lookup name) (get c) n ∧ applyFrom lookup vs (set n c) = (none, c') := by
  rw [applyFrom] at h
  split at h
  · next hvalue =>
    have hvalue : lookup name = none := hvalue
    exact ⟨get c, hfits, by rw [hvalue]; rfl, by rwa [hkeep]⟩
  · next value hvalue =>
    have hvalue : lookup name = some value := hvalue
    simp only [number] at h
    cases hread : readVariable limit name value with
    | error flaw =>
      rw [hread] at h
      cases h
    | ok n =>
      rw [hread] at h
      obtain ⟨hspells, hle⟩ := readVariable_eq_ok_iff.mp hread
      exact ⟨n, hle, by rw [hvalue]; exact hspells, h⟩

theorem applyFrom_text {name : String} {set : String → Config → Config} (get : Config → String)
    (hkeep : set (get c) c = c)
    (h : applyFrom lookup (⟨name, fun value c => .ok (set value c)⟩ :: vs) c = (none, c')) :
    applyFrom lookup vs (set ((lookup name).getD (get c)) c) = (none, c') := by
  rw [applyFrom] at h
  split at h
  · next hvalue =>
    have hvalue : lookup name = none := hvalue
    rwa [hvalue, Option.getD_none, hkeep]
  · next value hvalue =>
    have hvalue : lookup name = some value := hvalue
    rwa [hvalue]

end

/-! ## All variables -/

section

variable {lookup : String → Option String} {c c' d : Config}

theorem replaced_of_applyEnvironment (h : applyEnvironment lookup c = (none, c')) :
    Replaced lookup c c' := by
  obtain ⟨port, hport, hgiven₁, h⟩ := applyFrom_number (fun c => c.network.apiPort.toNat)
    (by simp) (Nat.le_of_lt_succ (UInt16.toNat_lt _)) h
  have h := applyFrom_text (fun c => c.network.publicHost) rfl h
  obtain ⟨low, hlow, hgiven₂, h⟩ := applyFrom_number (fun c => c.rtp.portMin.toNat)
    (by simp only [UInt16.ofNat_toNat]) (Nat.le_of_lt_succ (UInt16.toNat_lt _)) h
  obtain ⟨high, hhigh, hgiven₃, h⟩ := applyFrom_number (fun c => c.rtp.portMax.toNat)
    (by simp only [UInt16.ofNat_toNat]) (Nat.le_of_lt_succ (UInt16.toNat_lt _)) h
  obtain ⟨cooldown, hcooldown, hgiven₄, h⟩ := applyFrom_number
    (fun c => c.rtp.cooldownSeconds.toNat)
    (by simp only [UInt64.ofNat_toNat]) (Nat.le_of_lt_succ (UInt64.toNat_lt _)) h
  cases h
  have hport16 : ∀ {n : Nat}, n ≤ 65535 → (UInt16.ofNat n).toNat = n :=
    fun hn => UInt16.toNat_ofNat_of_lt' (Nat.lt_succ_of_le hn)
  have hcooldown64 : (UInt64.ofNat cooldown).toNat = cooldown :=
    UInt64.toNat_ofNat_of_lt' (Nat.lt_succ_of_le hcooldown)
  exact {
    port := by rwa [hport16 hport]
    host := rfl
    portMin := by rwa [hport16 hlow]
    portMax := by rwa [hport16 hhigh]
    cooldown := by rwa [hcooldown64]
    rest := rfl }

/-- A number that came from a text comes from it again, and one that was kept is kept. -/
theorem Given.again {value? : Option String} {a b n : Nat} (hfirst : Given value? a b)
    (hsecond : Given value? b n) : n = b := by
  cases value? with
  | none => exact hsecond
  | some value => exact Text.Spells.unique hsecond hfirst

theorem Replaced.again (hfirst : Replaced lookup c c') (hsecond : Replaced lookup c' d) :
    d = c' := by
  have hhost : d.network.publicHost = c'.network.publicHost := by
    rw [hsecond.host, hfirst.host]
    cases lookup "PUBLIC_IP" <;> rfl
  rw [hsecond.rest, UInt16.toNat_inj.mp (hfirst.port.again hsecond.port), hhost,
    UInt16.toNat_inj.mp (hfirst.portMin.again hsecond.portMin),
    UInt16.toNat_inj.mp (hfirst.portMax.again hsecond.portMax),
    UInt64.toNat_inj.mp (hfirst.cooldown.again hsecond.cooldown)]

end

/-- The variables are applied if all of them are sound, and then a second time changes nothing;
otherwise the first one that is not sound is reported, and those before it have been applied. -/
theorem applyEnvironment_exact (lookup : String → Option String) (c : Config) :
    ((applyEnvironment lookup c).1 = none ↔ ∀ entry ∈ limits, Sound lookup entry) ∧
    ((∃ c', applyEnvironment lookup c = (none, c') ∧ Replaced lookup c c' ∧
        applyEnvironment lookup c' = (none, c')) ∨
      ∃ k entry, limits[k]? = some entry ∧ (∀ e ∈ limits.take k, Sound lookup e) ∧
        ¬ Sound lookup entry ∧
        ∃ flaw c', applyEnvironment lookup c = (some flaw, c') ∧
          flaw.name = entry.1 ∧ lookup entry.1 = some flaw.value ∧
          (∃ cause : String, flaw.message =
            s!"Umgebungsvariable {entry.1}={Text.quote flaw.value} ungueltig: {cause}") ∧
          Replaced (upTo k lookup) c c') := by
  have hiff : ∀ c, (applyEnvironment lookup c).1 = none ↔ ∀ entry ∈ limits, Sound lookup entry :=
    fun c => applyFrom_fst_iff overrides_reads
  refine ⟨hiff c, ?_⟩
  rcases happly : applyEnvironment lookup c with ⟨_ | flaw, c'⟩
  · left
    have hreplaced := replaced_of_applyEnvironment happly
    have hagain : (applyEnvironment lookup c').1 = none :=
      (hiff c').mpr ((hiff c).mp (congrArg Prod.fst happly))
    have hsecond : applyEnvironment lookup c' = (none, (applyEnvironment lookup c').2) :=
      Prod.ext hagain rfl
    refine ⟨c', rfl, hreplaced, ?_⟩
    rw [hsecond, hreplaced.again (replaced_of_applyEnvironment hsecond)]
  · right
    obtain ⟨k, v, value, hk, hbefore, hvalue, hset⟩ := applyFrom_flawed happly
    obtain ⟨entry, hentry, hreads⟩ : ∃ entry, limits[k]? = some entry ∧ Reads v entry := by
      obtain ⟨hlt, rfl⟩ := List.getElem?_eq_some_iff.mp hk
      have hlt' : k < limits.length := hlt
      exact ⟨limits[k], List.getElem?_eq_getElem hlt', overrides_reads.get hlt hlt'⟩
    have hearlier := (applyFrom_fst_iff (List.forall₂_take k overrides_reads)).mp
      (congrArg Prod.fst hbefore)
    have hnot : ¬ Sound lookup entry := by
      intro hsound
      obtain ⟨d, hd⟩ := (hreads.ok_iff value c').mpr (hsound value (hreads.name ▸ hvalue))
      rw [hset] at hd
      cases hd
    obtain ⟨hname, hheld⟩ := hreads.error hset
    rw [hreads.name] at hname hvalue
    have hearly := applyFrom_take k lookup c (congrArg Prod.fst hbefore)
    refine ⟨k, entry, hentry, hearlier, hnot, flaw, c', rfl, hname, by rw [hvalue, hheld],
      ⟨flaw.flaw.message, by rw [← hname]; rfl⟩, ?_⟩
    exact replaced_of_applyEnvironment (hearly.trans hbefore)

end RtpBroker.Config
