import Mathlib.Data.List.Basic
import RtpBroker.Address
import RtpBroker.Proofs.Numerals

/-!
# Reading addresses

Each reader of a part of an address leaves a text from the first character on that cannot belong to
the part. So an address and a port with a colon between them are read apart, as long as the address
has no colons itself; one that has needs brackets around it.
-/

namespace RtpBroker.Address

/-! ## Readers that stop -/

/-- Whatever a reader finds in front of the character it also finds without it, and it leaves the
character and all behind it. -/
def StopsAt {α : Type} (c : Char) (read : List Char → Option (α × List Char)) : Prop :=
  ∀ cs rest, read (cs ++ c :: rest) = (read cs).map fun found => (found.1, found.2 ++ c :: rest)

section

variable {α β : Type} {c d : Char} {read : List Char → Option (α × List Char)}

theorem StopsAt.found (c : Char) (a : α) : StopsAt c fun cs => some (a, cs) := fun _ _ => rfl

theorem StopsAt.bind {next : α → List Char → Option (β × List Char)} (h : StopsAt c read)
    (hnext : ∀ a, StopsAt c (next a)) :
    StopsAt c fun cs => (read cs).bind fun found => next found.1 found.2 := by
  intro cs rest
  dsimp only
  rw [h cs rest]
  cases read cs with
  | none => rfl
  | some found => exact hnext found.1 found.2 rest

theorem char?_append (hne : c ≠ d) (cs rest : List Char) :
    char? d (cs ++ c :: rest) = (char? d cs).map (· ++ c :: rest) := by
  cases cs with
  | nil => exact if_neg hne
  | cons e cs =>
    rw [List.cons_append, char?, char?]
    split <;> rfl

theorem StopsAt.after {skip : List Char → Option (List Char)}
    (hskip : ∀ cs rest, skip (cs ++ c :: rest) = (skip cs).map (· ++ c :: rest))
    (h : StopsAt c read) : StopsAt c fun cs => (skip cs).bind read := by
  intro cs rest
  dsimp only
  rw [hskip]
  cases skip cs with
  | none => rfl
  | some cs => exact h cs rest

end

/-! ## Numbers -/

section

variable {c : Char} {cs : List Char}

def isDigitOf (base : Nat) (c : Char) : Bool :=
  match Text.hexValue? c with
  | some v => decide (v < base)
  | none => false

def valueOf (base : Nat) (ds : List Char) : Nat :=
  ds.foldl (fun acc c => acc * base + (Text.hexValue? c).getD 0) 0

theorem number?_eq (base width limit : Nat) (leadingZero : Bool) (cs : List Char) :
    number? base width limit leadingZero cs =
      let ds := cs.takeWhile (isDigitOf base)
      if ds.isEmpty ∨ width < ds.length then none
      else if !leadingZero ∧ 1 < ds.length ∧ ds.head? = some '0' then none
      else if limit < valueOf base ds then none
      else some (valueOf base ds, cs.dropWhile (isDigitOf base)) := rfl

theorem takeWhile_stop {p : Char → Bool} (hc : p c = false) (cs rest : List Char) :
    (cs ++ c :: rest).takeWhile p = cs.takeWhile p ∧
      (cs ++ c :: rest).dropWhile p = cs.dropWhile p ++ c :: rest := by
  induction cs with
  | nil => simp [hc]
  | cons d cs ih =>
    rw [List.cons_append, List.takeWhile_cons, List.takeWhile_cons, List.dropWhile_cons,
      List.dropWhile_cons, ih.1, ih.2]
    split <;> exact ⟨rfl, rfl⟩

theorem number?_stopsAt (hc : Text.hexValue? c = none) (base width limit : Nat)
    (leadingZero : Bool) : StopsAt c (number? base width limit leadingZero) := by
  intro cs rest
  have hstop : isDigitOf base c = false := by rw [isDigitOf, hc]
  obtain ⟨htake, hdrop⟩ := takeWhile_stop hstop cs rest
  rw [number?_eq, number?_eq, htake, hdrop]
  dsimp only
  split
  · rfl
  · split
    · rfl
    · split <;> rfl

/-- A width that the whole text does not exceed is no limit. -/
theorem number?_width {width : Nat} (h : cs.length ≤ width) (base limit : Nat)
    (leadingZero : Bool) :
    number? base width limit leadingZero cs = number? base cs.length limit leadingZero cs := by
  have hlength : (cs.takeWhile (isDigitOf base)).length ≤ cs.length :=
    (List.takeWhile_sublist _).length_le
  have hwidth : ¬ width < (cs.takeWhile (isDigitOf base)).length := by omega
  have hwhole : ¬ cs.length < (cs.takeWhile (isDigitOf base)).length := by omega
  rw [number?_eq, number?_eq]
  simp only [hwidth, hwhole]

theorem hexValue?_of_isDigit (h : Text.isDigit c = true) :
    Text.hexValue? c = some (Text.digitValue c) := by
  rw [Text.isDigit, Bool.and_eq_true, decide_eq_true_eq, decide_eq_true_eq] at h
  exact if_pos h

theorem isDigitOf_ten (h : Text.isDigit c = true) : isDigitOf 10 c = true := by
  obtain ⟨-, hhigh⟩ := Text.toNat_of_isDigit h
  rw [isDigitOf, hexValue?_of_isDigit h, decide_eq_true_eq, Text.digitValue,
    show '0'.toNat = 48 from rfl]
  omega

theorem valueOf_ten (h : ∀ c ∈ cs, Text.isDigit c = true) : valueOf 10 cs = Text.digitsValue cs := by
  apply List.foldl_ext
  intro acc c hc
  rw [hexValue?_of_isDigit (h c hc), Option.getD_some]

theorem number?_digits {n limit : Nat} (h : n ≤ limit) :
    number? 10 (Nat.toDigits 10 n).length limit true (Nat.toDigits 10 n) = some (n, []) := by
  have hdigits : ∀ c ∈ Nat.toDigits 10 n, Text.isDigit c = true :=
    fun c hc => Text.isDigit_of_mem_digits hc
  have hall : ∀ c ∈ Nat.toDigits 10 n, isDigitOf 10 c = true :=
    fun c hc => isDigitOf_ten (hdigits c hc)
  have htake : (Nat.toDigits 10 n).takeWhile (isDigitOf 10) = Nat.toDigits 10 n := by
    rw [← List.append_nil (Nat.toDigits 10 n), List.takeWhile_append_of_pos hall,
      List.takeWhile_nil]
  have hdrop : (Nat.toDigits 10 n).dropWhile (isDigitOf 10) = [] := by
    rw [← List.append_nil (Nat.toDigits 10 n), List.dropWhile_append_of_pos hall,
      List.dropWhile_nil]
  have hvalue : valueOf 10 (Nat.toDigits 10 n) = n := by
    rw [valueOf_ten hdigits, Text.digitsValue_digits]
  have hlimit : ¬ limit < n := by omega
  rw [number?_eq, htake, hdrop]
  simp [hvalue, hlimit]

theorem port?_stopsAt (hc : Text.hexValue? c = none) : StopsAt c port? := by
  intro cs rest
  have hlength : cs.length ≤ (cs ++ c :: rest).length := by simp
  rw [port?, number?_stopsAt hc, number?_width hlength, port?]
  cases number? 10 cs.length 0xFFFF true cs <;> rfl

/-- A port reads as itself. -/
theorem port?_text (port : UInt16) : port? (toString port).toList = some (port, []) := by
  have htext : (toString port).toList = Nat.toDigits 10 port.toNat := Nat.toList_repr
  have hle : port.toNat ≤ 0xFFFF := Nat.le_of_lt_succ port.toNat_lt
  rw [port?, htext, number?_digits hle, Option.map_some]
  exact congrArg some (Prod.ext UInt16.ofNat_toNat rfl)

end

/-! ## Addresses -/

section

variable {c : Char}

theorem octet?_stopsAt (hc : Text.hexValue? c = none) : StopsAt c octet? := by
  intro cs rest
  rw [octet?, number?_stopsAt hc, octet?]
  cases number? 10 3 255 false cs <;> rfl

theorem v4?_stopsAt (hc : Text.hexValue? c = none) (hdot : c ≠ '.') : StopsAt c v4? :=
  (octet?_stopsAt hc).bind fun a => .after (char?_append hdot) <|
  (octet?_stopsAt hc).bind fun b => .after (char?_append hdot) <|
  (octet?_stopsAt hc).bind fun d => .after (char?_append hdot) <|
  (octet?_stopsAt hc).bind fun e => .found c (IpAddr.v4 a b d e)

theorem separator?_append (hcolon : c ≠ ':') (first : Bool) (cs rest : List Char) :
    separator? first (cs ++ c :: rest) = (separator? first cs).map (· ++ c :: rest) := by
  unfold separator?
  split
  · rfl
  · exact char?_append hcolon cs rest

theorem group?_stopsAt (hc : Text.hexValue? c = none) (hcolon : c ≠ ':') (first : Bool) :
    StopsAt c (group? first) :=
  .after (separator?_append hcolon first) <|
  (number?_stopsAt hc 16 4 0xFFFF true).bind fun n => .found c (UInt16.ofNat n)

theorem embedded?_stopsAt (hc : Text.hexValue? c = none) (hcolon : c ≠ ':') (hdot : c ≠ '.')
    (first : Bool) : StopsAt c (embedded? first) := by
  refine .after (separator?_append hcolon first) fun cs rest => ?_
  rw [v4?_stopsAt hc hdot]
  rcases v4? cs with _ | ⟨ip, left⟩
  · rfl
  · cases ip <;> rfl

theorem groups_append (hc : Text.hexValue? c = none) (hcolon : c ≠ ':') (hdot : c ≠ '.')
    (room : Nat) (first : Bool) (cs rest : List Char) :
    groups room first (cs ++ c :: rest) =
      ((groups room first cs).1, (groups room first cs).2.1,
        (groups room first cs).2.2 ++ c :: rest) := by
  induction room generalizing first cs with
  | zero => rfl
  | succ room ih =>
    have hembedded : (if 0 < room then embedded? first (cs ++ c :: rest) else none) =
        (if 0 < room then embedded? first cs else none).map
          fun found => (found.1, found.2 ++ c :: rest) := by
      split
      · exact embedded?_stopsAt hc hcolon hdot first cs rest
      · rfl
    unfold groups
    rw [hembedded, group?_stopsAt hc hcolon]
    cases if 0 < room then embedded? first cs else none with
    | some found => rfl
    | none =>
      cases group? first cs with
      | none => rfl
      | some found =>
        dsimp only [Option.map]
        rw [ih]

theorem v6?_stopsAt (hc : Text.hexValue? c = none) (hcolon : c ≠ ':') (hdot : c ≠ '.') :
    StopsAt c v6? := by
  intro cs rest
  unfold v6?
  rw [groups_append hc hcolon hdot]
  obtain ⟨head, four, left⟩ := groups 8 true cs
  dsimp only
  split
  · cases ofGroups? head <;> rfl
  · split
    · rfl
    · -- What stands behind the two colons is read like what stands before them.
      have htail : StopsAt c fun cs =>
          (ofGroups? (head ++ List.replicate
            (8 - head.length - (groups (7 - head.length) true cs).1.length) 0 ++
            (groups (7 - head.length) true cs).1)).bind
            fun ip => some (ip, (groups (7 - head.length) true cs).2.2) := by
        intro cs rest
        dsimp only
        rw [groups_append hc hcolon hdot]
        generalize head ++ _ ++ _ = gs
        cases ofGroups? gs <;> rfl
      exact StopsAt.after (char?_append hcolon) (StopsAt.after (char?_append hcolon) htail) left rest

end

/-! ## Addresses with ports -/

theorem whole?_eq_some_iff {α : Type} {read : List Char → Option (α × List Char)} {cs : List Char}
    {a : α} : whole? read cs = some a ↔ read cs = some (a, []) := by
  unfold whole?
  split
  · next h => simp [h]
  · next h => exact iff_of_false (by simp) fun heq => h a heq

theorem char?_eq_some_iff {c : Char} {cs rest : List Char} :
    char? c cs = some rest ↔ cs = c :: rest := by
  cases cs with
  | nil => simp [char?]
  | cons d cs =>
    rw [char?, List.cons.injEq]
    split
    · next heq => simp [heq]
    · next hne => simp [hne]

theorem socketV4?_eq_some_iff {cs rest : List Char} {a : SocketAddr} :
    socketV4? cs = some (a, rest) ↔ ∃ ip left port, v4? cs = some (ip, ':' :: left) ∧
      port? left = some (port, rest) ∧ a = { ip, port } := by
  unfold socketV4?
  constructor
  · intro h
    obtain ⟨⟨ip, found⟩, hip, h⟩ := Option.bind_eq_some_iff.mp h
    obtain ⟨left, hleft, h⟩ := Option.bind_eq_some_iff.mp h
    obtain ⟨⟨port, found'⟩, hport, h⟩ := Option.bind_eq_some_iff.mp h
    cases h
    rw [char?_eq_some_iff] at hleft
    exact ⟨ip, left, port, hleft ▸ hip, hport, rfl⟩
  · rintro ⟨ip, left, port, hip, hport, rfl⟩
    have hcolon : char? ':' (':' :: left) = some left := rfl
    simp [hip, hcolon, hport]

/-- An address and a port are read apart at the colon between them. -/
theorem whole?_socketV4? {cs rest : List Char} {a : SocketAddr} :
    whole? socketV4? (cs ++ ':' :: rest) = some a ↔ ∃ ip port, whole? v4? cs = some ip ∧
      whole? port? rest = some port ∧ a = { ip, port } := by
  have hv4 := v4?_stopsAt (c := ':') rfl (by decide) cs rest
  simp only [whole?_eq_some_iff, socketV4?_eq_some_iff, hv4]
  constructor
  · rintro ⟨ip, left, port, hip, hport, rfl⟩
    obtain ⟨⟨ip', found⟩, hfound, heq⟩ := Option.map_eq_some_iff.mp hip
    obtain ⟨rfl, hleft⟩ : ip' = ip ∧ found ++ ':' :: rest = ':' :: left := Prod.mk.inj heq
    cases found with
    | nil =>
      obtain rfl : rest = left := (List.cons.inj hleft).2
      exact ⟨ip', port, hfound, hport, rfl⟩
    | cons d found =>
      -- The port that is read now ends at the second colon at the latest.
      obtain rfl : found ++ ':' :: rest = left := (List.cons.inj hleft).2
      rw [port?_stopsAt (c := ':') rfl found rest] at hport
      obtain ⟨found', -, heq⟩ := Option.map_eq_some_iff.mp hport
      exact absurd (congrArg Prod.snd heq) (by simp)
  · rintro ⟨ip, port, hip, hport, rfl⟩
    exact ⟨ip, rest, port, by rw [hip]; rfl, hport, rfl⟩

theorem whole?_port? (port : UInt16) : whole? port? (toString port).toList = some port :=
  whole?_eq_some_iff.mpr (port?_text port)

/-! ## The two families -/

theorem v4?_family {cs rest : List Char} {ip : IpAddr} (h : v4? cs = some (ip, rest)) :
    ∃ a b c d, ip = .v4 a b c d := by
  unfold v4? at h
  obtain ⟨⟨a, left⟩, -, h⟩ := Option.bind_eq_some_iff.mp h
  obtain ⟨_, -, h⟩ := Option.bind_eq_some_iff.mp h
  obtain ⟨⟨b, left⟩, -, h⟩ := Option.bind_eq_some_iff.mp h
  obtain ⟨_, -, h⟩ := Option.bind_eq_some_iff.mp h
  obtain ⟨⟨c, left⟩, -, h⟩ := Option.bind_eq_some_iff.mp h
  obtain ⟨_, -, h⟩ := Option.bind_eq_some_iff.mp h
  obtain ⟨⟨d, left⟩, -, h⟩ := Option.bind_eq_some_iff.mp h
  exact ⟨a, b, c, d, (Prod.mk.inj (Option.some.inj h)).1.symm⟩

theorem ofGroups?_family {gs : List UInt16} {ip : IpAddr} (h : ofGroups? gs = some ip) :
    ∃ groups, ip = .v6 groups := by
  unfold ofGroups? at h
  split at h
  · exact ⟨_, (Option.some.inj h).symm⟩
  · cases h

theorem v6?_family {cs rest : List Char} {ip : IpAddr} (h : v6? cs = some (ip, rest)) :
    ∃ groups, ip = .v6 groups := by
  unfold v6? at h
  generalize groups 8 true cs = found at h
  obtain ⟨head, four, left⟩ := found
  dsimp only at h
  split at h
  · obtain ⟨ip', hip, h⟩ := Option.bind_eq_some_iff.mp h
    obtain rfl : ip' = ip := (Prod.mk.inj (Option.some.inj h)).1
    exact ofGroups?_family hip
  · split at h
    · cases h
    · obtain ⟨_, -, h⟩ := Option.bind_eq_some_iff.mp h
      obtain ⟨_, -, h⟩ := Option.bind_eq_some_iff.mp h
      obtain ⟨ip', hip, h⟩ := Option.bind_eq_some_iff.mp h
      obtain rfl : ip' = ip := (Prod.mk.inj (Option.some.inj h)).1
      exact ofGroups?_family hip

theorem v4?_bracket (cs : List Char) : v4? ('[' :: cs) = none := rfl

theorem v6?_bracket (cs : List Char) : v6? ('[' :: cs) = none := rfl

end RtpBroker.Address

namespace RtpBroker

open Address

variable {text : String}

theorem IpAddr.whole?_of_v4 {a b c d : UInt8} (h : IpAddr.ofString? text = some (.v4 a b c d)) :
    whole? v4? text.toList = some (.v4 a b c d) := by
  rw [ofString?, Option.or_eq_some_iff] at h
  rcases h with h | ⟨-, h⟩
  · exact h
  · obtain ⟨groups, heq⟩ := v6?_family (whole?_eq_some_iff.mp h)
    cases heq

theorem IpAddr.whole?_of_v6 {gs : Vector UInt16 8} (h : IpAddr.ofString? text = some (.v6 gs)) :
    whole? v4? text.toList = none ∧ whole? v6? text.toList = some (.v6 gs) := by
  rw [ofString?, Option.or_eq_some_iff] at h
  rcases h with h | h
  · obtain ⟨a, b, c, d, heq⟩ := v4?_family (whole?_eq_some_iff.mp h)
    cases heq
  · exact h

namespace SocketAddr

def bracketed (text : String) : String := "[" ++ text ++ "]"

theorem toList_withPort (text : String) (port : UInt16) :
    s!"{text}:{port}".toList = text.toList ++ ':' :: (toString port).toList := by
  change (text ++ ":" ++ toString port).toList = _
  simp

/-- An IPv4 address and a port with a colon between them are a socket address. -/
theorem ofString?_v4 {a b c d : UInt8} (h : IpAddr.ofString? text = some (.v4 a b c d))
    (port : UInt16) : ofString? s!"{text}:{port}" = some { ip := .v4 a b c d, port } := by
  have hread := whole?_socketV4?.mpr ⟨_, _, IpAddr.whole?_of_v4 h, whole?_port? port, rfl⟩
  rw [ofString?, toList_withPort, hread, Option.some_or]

/-- An IPv6 address and a port with a colon between them are none. -/
theorem ofString?_v6 {gs : Vector UInt16 8} (h : IpAddr.ofString? text = some (.v6 gs))
    (port : UInt16) : ofString? s!"{text}:{port}" = none := by
  obtain ⟨hv4, hv6⟩ := IpAddr.whole?_of_v6 h
  rw [whole?_eq_some_iff] at hv6
  rw [ofString?, toList_withPort, Option.or_eq_none_iff]
  constructor
  · rw [Option.eq_none_iff_forall_ne_some]
    intro a hread
    obtain ⟨ip, port', hip, -⟩ := whole?_socketV4?.mp hread
    rw [hv4] at hip
    cases hip
  · -- A socket address of this family begins with a bracket, and the address does not.
    cases hchars : text.toList with
    | nil =>
      rw [hchars] at hv6
      cases hv6
    | cons d cs =>
      rw [hchars] at hv6
      by_cases hbracket : d = '['
      · rw [hbracket, v6?_bracket] at hv6
        cases hv6
      · simp [whole?, socketV6?, char?, hbracket]

/-- An IPv6 address in brackets and a port with a colon between them are one. -/
theorem ofString?_bracketed {gs : Vector UInt16 8} (h : IpAddr.ofString? text = some (.v6 gs))
    (port : UInt16) :
    ofString? s!"{bracketed text}:{port}" = some { ip := .v6 gs, port } := by
  obtain ⟨-, hv6⟩ := IpAddr.whole?_of_v6 h
  rw [whole?_eq_some_iff] at hv6
  have hchars : (bracketed text).toList ++ ':' :: (toString port).toList =
      '[' :: (text.toList ++ ']' :: ':' :: (toString port).toList) := by
    simp [bracketed]
  have hnone : whole? socketV4? ('[' :: (text.toList ++ ']' :: ':' :: (toString port).toList)) =
      none := by
    simp [whole?, socketV4?, v4?_bracket]
  have hread := v6?_stopsAt (c := ']') rfl (by decide) (by decide) text.toList
    (':' :: (toString port).toList)
  rw [ofString?, toList_withPort, hchars, hnone, Option.none_or, whole?_eq_some_iff]
  simp [socketV6?, char?, hread, hv6, scope?, port?_text]

end SocketAddr

end RtpBroker
