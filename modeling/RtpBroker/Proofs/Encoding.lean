import RtpBroker.Base64

/-!
# What Base64 reads

The texts that are read are exactly the encodings of lists of bytes: three bytes make four
symbols, and one or two bytes at the end are filled up with padding. So what is read stands
for one list of bytes only, and no other text stands for the same.
-/

namespace RtpBroker.Base64

/-- The symbol for six bits. -/
def symbol (n : Nat) : UInt8 :=
  if n < 26 then UInt8.ofNat (n + 65)
  else if n < 52 then UInt8.ofNat (n + 71)
  else if n < 62 then UInt8.ofNat (n - 4)
  else if n = 62 then 43
  else 47

def encode : List UInt8 → List UInt8
  | [] => []
  | [p] => [symbol (p.toNat / 4), symbol (p.toNat % 4 * 16), pad, pad]
  | [p, q] => [symbol (p.toNat / 4), symbol (p.toNat % 4 * 16 + q.toNat / 16),
      symbol (q.toNat % 16 * 4), pad]
  | p :: q :: r :: bs => symbol (p.toNat / 4) :: symbol (p.toNat % 4 * 16 + q.toNat / 16) ::
      symbol (q.toNat % 16 * 4 + r.toNat / 64) :: symbol (r.toNat % 64) :: encode bs

theorem sextet?_symbol {n : Nat} (h : n < 64) : sextet? (symbol n) = some n := by
  have hall : ∀ n : Fin 64, sextet? (symbol n) = some n.val := by decide
  exact hall ⟨n, h⟩

theorem symbol_of_sextet? {b : UInt8} {n : Nat} (h : sextet? b = some n) :
    n < 64 ∧ symbol n = b := by
  have hall : ∀ b : Fin 256, ∀ n ∈ sextet? (UInt8.ofNat b), n < 64 ∧ symbol n = UInt8.ofNat b := by
    decide +kernel
  have hb : UInt8.ofNat b.toNat = b := UInt8.ofNat_toNat
  have hthis := hall ⟨b.toNat, b.toNat_lt⟩ n
  rw [hb] at hthis
  exact hthis h

theorem sextet?_pad : sextet? pad = none := by decide

theorem symbol_ne_pad {n : Nat} (h : n < 64) : symbol n ≠ pad := fun heq => by
  have hsome := sextet?_symbol h
  rw [heq, sextet?_pad] at hsome
  cases hsome

theorem sextetAt_ok {b : UInt8} {i n : Nat} (h : sextetAt b i = .ok n) : n < 64 ∧ symbol n = b := by
  unfold sextetAt at h
  split at h
  · next v hv =>
    cases h
    exact symbol_of_sextet? hv
  · cases h

theorem sextetAt_symbol {n : Nat} (i : Nat) (h : n < 64) : sextetAt (symbol n) i = .ok n := by
  rw [sextetAt, sextet?_symbol h]

/-! ## Groups -/

theorem bytes3_sextets (p q r : UInt8) :
    bytes3 (p.toNat / 4) (p.toNat % 4 * 16 + q.toNat / 16) (q.toNat % 16 * 4 + r.toNat / 64)
      (r.toNat % 64) = (p, q, r) := by
  have hp := p.toNat_lt
  have hq := q.toNat_lt
  have hr := r.toNat_lt
  simp only [bytes3, Prod.mk.injEq, ← UInt8.toNat_inj, UInt8.toNat_ofNat']
  omega

theorem sextets_bytes3 {a b c d : Nat} (ha : a < 64) (hb : b < 64) (hc : c < 64) (hd : d < 64)
    {p q r : UInt8} (h : bytes3 a b c d = (p, q, r)) :
    p.toNat / 4 = a ∧ p.toNat % 4 * 16 + q.toNat / 16 = b ∧
      q.toNat % 16 * 4 + r.toNat / 64 = c ∧ r.toNat % 64 = d := by
  cases h
  simp only [UInt8.toNat_ofNat']
  omega

/-! ## The last group -/

theorem readTail_symbol {n : Nat} (start i : Nat) {t : Tail} (bs : List UInt8) (h : n < 64)
    (ht : t.pads = 0) : readTail start i t (symbol n :: bs) =
      readTail start (i + 1) { t with sextets := t.sextets ++ [n], lastByte := symbol n } bs := by
  rw [readTail, if_neg (symbol_ne_pad h), ht, if_neg (Nat.lt_irrefl 0), sextetAt_symbol _ h]
  rfl

theorem readTail_pad {i : Nat} (start : Nat) (t : Tail) (bs : List UInt8) (hi : 2 ≤ i) :
    readTail start i t (pad :: bs) = readTail start (i + 1)
      { t with pads := t.pads + 1, firstPad := if t.pads = 0 then i else t.firstPad } bs := by
  rw [readTail, if_pos rfl, if_neg (Nat.not_lt.mpr hi)]

theorem decodeTail_encode (start : Nat) (bs : List UInt8) (hlen : bs.length ≤ 3)
    (hnil : bs = [] → start = 0) : decodeTail start (encode bs) = .ok bs := by
  match bs with
  | [] =>
    obtain rfl := hnil rfl
    rfl
  | [p] =>
    have hp := p.toNat_lt
    rw [decodeTail, encode, readTail_symbol _ _ _ (by omega) rfl,
      readTail_symbol _ _ _ (by omega) rfl, readTail_pad _ _ _ (by omega),
      readTail_pad _ _ _ (by omega), readTail]
    simpa [bind, Except.bind] using congrArg (·.1) (bytes3_sextets p 0 0)
  | [p, q] =>
    have hp := p.toNat_lt
    have hq := q.toNat_lt
    rw [decodeTail, encode, readTail_symbol _ _ _ (by omega) rfl,
      readTail_symbol _ _ _ (by omega) rfl, readTail_symbol _ _ _ (by omega) rfl,
      readTail_pad _ _ _ (by omega), readTail]
    have hbytes := bytes3_sextets p q 0
    simp only [Prod.ext_iff] at hbytes
    simpa [bind, Except.bind] using ⟨hbytes.1, hbytes.2.1⟩
  | [p, q, r] =>
    have hp := p.toNat_lt
    have hq := q.toNat_lt
    have hr := r.toNat_lt
    rw [decodeTail, encode, encode, readTail_symbol _ _ _ (by omega) rfl,
      readTail_symbol _ _ _ (by omega) rfl, readTail_symbol _ _ _ (by omega) rfl,
      readTail_symbol _ _ _ (by omega) rfl, readTail]
    have hbytes := bytes3_sextets p q r
    simp only [Prod.ext_iff] at hbytes
    simpa [bind, Except.bind] using hbytes

/-- What is read as the last group is symbols with padding after them. -/
theorem readTail_ok {start i : Nat} {t u : Tail} {cs : List UInt8}
    (h : readTail start i t cs = .ok u) :
    ∃ vs k, (∀ v ∈ vs, v < 64) ∧ (0 < t.pads → vs = []) ∧ u.sextets = t.sextets ++ vs ∧
      u.pads = t.pads + k ∧ cs = vs.map symbol ++ List.replicate k pad := by
  induction cs generalizing i t with
  | nil =>
    cases h
    exact ⟨[], 0, by simp, fun _ => rfl, by simp, rfl, rfl⟩
  | cons b cs ih =>
    rw [readTail] at h
    split at h
    · next hpad =>
      subst hpad
      split at h
      · cases h
      · obtain ⟨vs, k, -, hnil, hsextets, hpads, rfl⟩ := ih h
        obtain rfl := hnil (Nat.succ_pos _)
        refine ⟨[], k + 1, by simp, fun _ => rfl, hsextets, ?_, rfl⟩
        rw [hpads]
        exact Nat.add_right_comm _ _ _
    · split at h
      · cases h
      · next hpads₀ =>
        cases hsextet : sextetAt b (start + i) with
        | error f =>
          rw [hsextet] at h
          cases h
        | ok v =>
          rw [hsextet] at h
          obtain ⟨hv, rfl⟩ := sextetAt_ok hsextet
          obtain ⟨vs, k, hvs, -, hsextets, hpads, rfl⟩ := ih h
          refine ⟨v :: vs, k, ?_, fun hpos => absurd hpos hpads₀, ?_, hpads, rfl⟩
          · exact List.forall_mem_cons.mpr ⟨hv, hvs⟩
          · rw [hsextets]
            simp

theorem decodeTail_ok {start : Nat} {cs bs : List UInt8} (h : decodeTail start cs = .ok bs)
    (hlen : cs.length ≤ 4) : cs = encode bs := by
  unfold decodeTail at h
  cases hread : readTail start 0 {} cs with
  | error f =>
    rw [hread] at h
    cases h
  | ok t =>
    obtain ⟨vs, k, hvs, -, hsextets, hpads, rfl⟩ := readTail_ok hread
    rw [hread] at h
    simp only [bind, Except.bind, hsextets, hpads, List.nil_append, Nat.zero_add] at h
    rw [List.length_append, List.length_map, List.length_replicate] at hlen
    split at h
    · cases h
    split at h
    · cases h
    next hshort hfull =>
    -- The group is empty, or symbols and padding fill it up.
    match vs with
    | [] =>
      have hempty : k = 0 := by
        cases k with
        | zero => rfl
        | succ k => simp [List.replicate_succ] at hshort
      subst hempty
      cases h
      rfl
    | [a] => simp at hshort
    | [a, b] =>
      obtain rfl : k = 2 := by
        simp only [List.length_cons, List.length_nil] at hlen hfull
        omega
      dsimp only at h
      split at h
      · cases h
      · next hzero =>
        rcases hbytes : bytes3 a b 0 0 with ⟨p, q, r⟩
        rw [hbytes] at h
        cases h
        obtain ⟨rfl, hb, hc, -⟩ := sextets_bytes3 (hvs a (by simp)) (hvs b (by simp))
          (Nat.zero_lt_succ _) (Nat.zero_lt_succ _) hbytes
        have hq := q.toNat_lt
        obtain rfl : p.toNat % 4 * 16 = b := by omega
        rfl
    | [a, b, c] =>
      obtain rfl : k = 1 := by
        simp only [List.length_cons, List.length_nil] at hlen hfull
        omega
      dsimp only at h
      split at h
      · cases h
      · next hzero =>
        rcases hbytes : bytes3 a b c 0 with ⟨p, q, r⟩
        rw [hbytes] at h
        cases h
        obtain ⟨rfl, rfl, hc, -⟩ := sextets_bytes3 (hvs a (by simp)) (hvs b (by simp))
          (hvs c (by simp)) (Nat.zero_lt_succ _) hbytes
        have hr := r.toNat_lt
        obtain rfl : q.toNat % 16 * 4 = c := by omega
        rfl
    | [a, b, c, d] =>
      obtain rfl : k = 0 := by
        simp only [List.length_cons, List.length_nil] at hlen
        omega
      dsimp only at h
      rcases hbytes : bytes3 a b c d with ⟨p, q, r⟩
      rw [hbytes] at h
      cases h
      obtain ⟨rfl, rfl, rfl, rfl⟩ := sextets_bytes3 (hvs a (by simp)) (hvs b (by simp))
        (hvs c (by simp)) (hvs d (by simp)) hbytes
      rfl
    | _ :: _ :: _ :: _ :: _ :: _ =>
      simp only [List.length_cons] at hlen
      omega

/-! ## The whole text -/

theorem decodeGroups_tail {start : Nat} {acc cs : List UInt8} (h : cs.length ≤ 4) :
    decodeGroups start acc cs =
      match decodeTail start cs with
      | .ok last => .ok (acc.reverse ++ last)
      | .error f => .error f := by
  unfold decodeGroups
  split
  · simp only [List.length_cons] at h
    omega
  · rfl

theorem exists_encode_cons (b : UInt8) (bs : List UInt8) :
    ∃ e rest, encode (b :: bs) = e :: rest := by
  match bs with
  | [] | [_] | _ :: _ :: _ => exact ⟨_, _, rfl⟩

theorem decodeGroups_encode (bs acc : List UInt8) (start : Nat) (h : bs = [] → start = 0) :
    decodeGroups start acc (encode bs) = .ok (acc.reverse ++ bs) := by
  induction bs using encode.induct generalizing acc start with
  | case4 p q r bs ih =>
    have hp := p.toNat_lt
    have hq := q.toNat_lt
    have hr := r.toNat_lt
    cases bs with
    | nil => rw [decodeGroups_tail (by simp [encode]), decodeTail_encode _ _ (by simp) h]
    | cons b bs =>
      obtain ⟨e, rest, hrest⟩ := exists_encode_cons b bs
      rw [encode, hrest, decodeGroups, sextetAt_symbol _ (by omega), sextetAt_symbol _ (by omega),
        sextetAt_symbol _ (by omega), sextetAt_symbol _ (by omega)]
      simp only [bytes3_sextets]
      rw [← hrest, ih _ _ (by simp)]
      simp
  | _ =>
    rw [decodeGroups_tail (by simp [encode]), decodeTail_encode _ _ (by simp) h]

theorem decodeGroups_ok {start : Nat} {acc cs out : List UInt8}
    (h : decodeGroups start acc cs = .ok out) :
    ∃ bs, cs = encode bs ∧ out = acc.reverse ++ bs := by
  induction start, acc, cs using decodeGroups.induct with
  | case1 start acc a b c d e rest v w x y hd hc hb ha p q r hbytes ih =>
    obtain ⟨hv, rfl⟩ := sextetAt_ok ha
    obtain ⟨hw, rfl⟩ := sextetAt_ok hb
    obtain ⟨hx, rfl⟩ := sextetAt_ok hc
    obtain ⟨hy, rfl⟩ := sextetAt_ok hd
    rw [decodeGroups, ha, hb, hc, hd] at h
    simp only [hbytes] at h
    obtain ⟨bs, hrest, hout⟩ := ih h
    obtain ⟨rfl, rfl, rfl, rfl⟩ := sextets_bytes3 hv hw hx hy hbytes
    refine ⟨p :: q :: r :: bs, ?_, ?_⟩
    · rw [encode, ← hrest]
    · rw [hout]
      simp
  | case6 start acc cs hshort last htail =>
    have hlen : cs.length ≤ 4 := by
      match cs with
      | [] | [_] | [_, _] | [_, _, _] | [_, _, _, _] => simp
      | a :: b :: c :: d :: e :: rest => exact (hshort a b c d e rest rfl).elim
    rw [decodeGroups_tail hlen, htail] at h
    cases h
    exact ⟨last, decodeTail_ok htail hlen, rfl⟩
  | _ =>
    unfold decodeGroups at h
    simp_all

theorem length_encode (bs : List UInt8) : (encode bs).length % 4 = 0 := by
  induction bs using encode.induct with
  | case4 p q r bs ih =>
    rw [encode]
    simp only [List.length_cons]
    omega
  | _ => simp [encode]

/-- A text is read if and only if it is the encoding of what is read. -/
theorem decode_eq_ok {cs bs : List UInt8} : decode cs = .ok bs ↔ cs = encode bs := by
  constructor
  · intro h
    unfold decode at h
    split at h
    · cases h
    · obtain ⟨bs', rfl, rfl⟩ := decodeGroups_ok h
      rfl
  · rintro rfl
    have hstray : strayLast? (encode bs) = none := by
      rw [strayLast?, if_neg (by rw [length_encode]; decide)]
    rw [decode, hstray]
    exact decodeGroups_encode bs [] 0 fun _ => rfl

end RtpBroker.Base64
