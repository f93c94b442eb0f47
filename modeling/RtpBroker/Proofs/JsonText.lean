import RtpBroker.Json.Printer
import RtpBroker.Json.Reader
import RtpBroker.Proofs.Inquiry
import RtpBroker.Proofs.Numerals

/-!
# JSON texts are read back

The reader takes the text of a value off the front of a longer one and returns the value,
whatever stands behind it, as long as that does not go on a number. So the text of a value
without flaws, which holds no number beyond 64 bits, is read back as that value.
-/

namespace RtpBroker.Json

/-! ## Strings -/

theorem escape_cases (c : Char) :
    escape c = [c] ∧ c ≠ '"' ∧ c ≠ '\\' ∧ ¬ c.toNat < 0x20 ∨
    (∃ d, escape c = ['\\', d] ∧ d ≠ 'u' ∧ shortEscape? d = some c) ∨
    c.toNat < 0x20 ∧ escape c =
      ['\\', 'u', '0', '0', Text.hexDigit (c.toNat / 16), Text.hexDigit (c.toNat % 16)] := by
  unfold escape
  split
  · exact .inr (.inl ⟨'"', rfl, by decide, rfl⟩)
  · exact .inr (.inl ⟨'\\', rfl, by decide, rfl⟩)
  · exact .inr (.inl ⟨'n', rfl, by decide, rfl⟩)
  · exact .inr (.inl ⟨'r', rfl, by decide, rfl⟩)
  · exact .inr (.inl ⟨'t', rfl, by decide, rfl⟩)
  · next hquote hslash _ _ _ =>
    split
    · next hc => exact .inr (.inl ⟨'b', rfl, by decide, by rw [hc]; rfl⟩)
    · split
      · next hc => exact .inr (.inl ⟨'f', rfl, by decide, by rw [hc]; rfl⟩)
      · split
        · next hlt => exact .inr (.inr ⟨hlt, rfl⟩)
        · next hge => exact .inl ⟨rfl, hquote, hslash, hge⟩

theorem hex4?_control {n : Nat} (h : n < 0x20) :
    hex4? '0' '0' (Text.hexDigit (n / 16)) (Text.hexDigit (n % 16)) = some n := by
  have hzero : Text.hexValue? '0' = some 0 := rfl
  simp only [hex4?, hzero, Text.hexValue?_hexDigit (show n / 16 < 16 by omega),
    Text.hexValue?_hexDigit (show n % 16 < 16 by omega), Option.bind_eq_bind, Option.bind_some,
    Option.pure_def, Option.some.injEq]
  omega

/-- What was read so far of a string in which no surrogate stands. -/
def Chars.plain (reversed : List Char) : Chars := { reversed }

@[simp] theorem Chars.push_plain (cs : List Char) (c : Char) :
    (Chars.plain cs).push c = Chars.plain (c :: cs) := rfl

theorem readString_escape (cs rest : List Char) (c : Char) :
    readString (.plain cs) (escape c ++ rest) = readString (.plain (c :: cs)) rest := by
  rcases escape_cases c with ⟨hesc, hquote, hslash, hge⟩ | ⟨d, hesc, hu, hshort⟩ | ⟨hlt, hesc⟩
  · rw [hesc, List.singleton_append, readString.eq_def]
    split <;> simp_all
  · rw [hesc, List.cons_append, List.singleton_append, readString.eq_def]
    split
    · simp_all
    · simp_all
    · simp_all
    · next hother heq =>
      rw [List.cons.injEq] at heq
      exact absurd heq.2.symm (hother d rest heq.1.symm)
    · simp_all
  · have hunit : (Chars.plain cs).pushUnit c.toNat = .plain (c :: cs) := by
      have hhigh : isHighSurrogate c.toNat = false := by simp [isHighSurrogate]; omega
      have hlow : isLowSurrogate c.toNat = false := by simp [isLowSurrogate]; omega
      simp [Chars.pushUnit, Chars.plain, hhigh, hlow, Chars.push]
    rw [hesc]
    simp only [List.cons_append, List.nil_append, readString, hex4?_control hlt, hunit]

theorem readString_chars (cs acc rest : List Char) :
    readString (.plain acc) (cs.flatMap escape ++ '"' :: rest) =
      some (some (String.ofList (acc.reverse ++ cs)), rest) := by
  induction cs generalizing acc with
  | nil => simp [readString, Chars.finish, Chars.plain]
  | cons c cs ih =>
    rw [List.flatMap_cons, List.append_assoc, readString_escape, ih, List.reverse_cons,
      List.append_assoc, List.singleton_append]

theorem toList_stringText (s : String) :
    (stringText s).toList = '"' :: (s.toList.flatMap escape ++ ['"']) := by
  simp [stringText]

theorem readString_text (s : String) (rest : List Char) :
    readString {} (s.toList.flatMap escape ++ ['"'] ++ rest) = some (some s, rest) := by
  rw [List.append_assoc, List.singleton_append]
  have hread := readString_chars s.toList [] rest
  rwa [List.reverse_nil, List.nil_append, String.ofList_toList] at hread

/-! ## Numbers -/

/-- What does not go on a number. -/
def EndsNumber (rest : List Char) : Prop :=
  ∀ c ∈ rest.head?, Text.isDigit c = false ∧ c ≠ '.' ∧ c ≠ 'e' ∧ c ≠ 'E'

theorem EndsNumber.fraction?_eq {rest : List Char} (h : EndsNumber rest) :
    fraction? rest = some (none, rest) := by
  unfold fraction?
  split
  · exact absurd rfl (h '.' rfl).2.1
  · rfl

theorem EndsNumber.exponent?_eq {rest : List Char} (h : EndsNumber rest) :
    exponent? rest = some (none, rest) := by
  cases rest with
  | nil => rfl
  | cons c rest =>
    obtain ⟨-, -, he, hE⟩ := h c rfl
    rw [exponent?.eq_def]
    exact if_neg (not_or.mpr ⟨he, hE⟩)

theorem readUnsigned_digits {rest : List Char} (negative : Bool) (n : Nat)
    (hrest : EndsNumber rest) :
    readUnsigned negative (Nat.toDigits 10 n ++ rest) =
      some (intOf negative (Nat.toDigits 10 n), rest) := by
  have hends : Text.EndsDigits rest := fun c hc => (hrest c hc).1
  obtain ⟨htake, hdrop⟩ :=
    Text.takeWhile_digits (fun c => Text.isDigit_of_mem_digits (n := n)) hends
  have hnonempty : (Nat.toDigits 10 n).isEmpty = false := by
    simp
  have hlead : ¬ (1 < (Nat.toDigits 10 n).length ∧ (Nat.toDigits 10 n).head? = some '0') := by
    rintro ⟨hlong, hzero⟩
    rcases Nat.eq_zero_or_pos n with rfl | hpos
    · exact absurd hlong (by decide)
    · exact Text.head?_digits hpos hzero
  simp only [readUnsigned, htake, hdrop, hnonempty, hlead, hrest.fraction?_eq, hrest.exponent?_eq,
    Option.bind_eq_bind, Option.bind_some, Bool.false_eq_true, or_self, if_false]

theorem length_digits_le {n : Nat} (h : n < UInt64.size) : (Nat.toDigits 10 n).length ≤ 25 :=
  (Nat.length_toDigits_le_iff (by decide) (by decide)).mpr (Nat.lt_trans h (by decide))

theorem readNumber?_digits {n : Nat} {rest : List Char} (h : n < UInt64.size)
    (hrest : EndsNumber rest) :
    readNumber? (Nat.toDigits 10 n ++ rest) = some (.int n, rest) := by
  have hvalue : intOf false (Nat.toDigits 10 n) = .int n := by
    have hlength := length_digits_le h
    rw [intOf, if_neg (by omega)]
    simp only [Text.digitsValue_digits, Bool.false_eq_true, if_false]
    exact if_pos h
  rw [readNumber?.eq_def]
  split
  · next cs heq =>
    have hsign : '-' ∈ Nat.toDigits 10 n := by
      cases hds : Nat.toDigits 10 n with
      | nil => exact absurd hds Nat.toDigits_ne_nil
      | cons d ds =>
        rw [hds, List.cons_append, List.cons.injEq] at heq
        exact heq.1 ▸ List.mem_cons_self
    exact absurd (Text.isDigit_of_mem_digits hsign) (by decide)
  · rw [readUnsigned_digits _ _ hrest, hvalue]

theorem readNumber?_minus {n : Nat} {rest : List Char} (hpos : 0 < n) (h : n ≤ UInt64.size / 2)
    (hrest : EndsNumber rest) :
    readNumber? ('-' :: (Nat.toDigits 10 n ++ rest)) = some (.int (-n), rest) := by
  have hvalue : intOf true (Nat.toDigits 10 n) = .int (-n) := by
    have hlength := length_digits_le (Nat.lt_of_le_of_lt h (by decide))
    rw [intOf, if_neg (by omega)]
    simp only [Text.digitsValue_digits, if_true]
    exact if_pos ⟨hpos, h⟩
  rw [readNumber?, readUnsigned_digits _ _ hrest, hvalue]

theorem readNumber?_int {n : Int} {rest : List Char} (hlow : -(UInt64.size / 2 : Nat) ≤ n)
    (hhigh : n < UInt64.size) (hrest : EndsNumber rest) :
    readNumber? ((text (.int n)).toList ++ rest) = some (.int n, rest) := by
  rw [text, Int.toString_eq_repr, Int.repr_eq_if]
  split
  · next hpos =>
    rw [Nat.toList_repr, readNumber?_digits (by omega) hrest, Int.toNat_of_nonneg hpos]
  · next hneg =>
    rw [String.toList_append, Nat.toList_repr]
    change readNumber? ('-' :: (Nat.toDigits 10 (-n).toNat ++ rest)) = _
    rw [readNumber?_minus (by omega) (by omega) hrest, Int.toNat_of_nonneg (by omega), Int.neg_neg]

/-- A text of an integer begins with a digit or a minus. -/
theorem head_int (n : Int) :
    ∃ c cs, (text (.int n)).toList = c :: cs ∧ (c = '-' ∨ Text.isDigit c = true) := by
  rw [text, Int.toString_eq_repr, Int.repr_eq_if]
  split
  · rw [Nat.toList_repr]
    cases hds : Nat.toDigits 10 n.toNat with
    | nil => exact absurd hds Nat.toDigits_ne_nil
    | cons d ds =>
      exact ⟨d, ds, rfl, .inr (Text.isDigit_of_mem_digits (n := n.toNat) (by simp [hds]))⟩
  · exact ⟨'-', (-n).toNat.repr.toList, by simp, .inl rfl⟩

theorem isSpace_of_number {c : Char} (hc : c = '-' ∨ Text.isDigit c = true) :
    isSpace c = false := by
  by_contra hspace
  simp only [isSpace, Bool.not_eq_false, Bool.or_eq_true, beq_iff_eq] at hspace
  rcases hspace with ((rfl | rfl) | rfl) | rfl <;> exact absurd hc (by decide)

/-! ## Lists of texts -/

/-- Texts with commas between them. -/
def joined (ts : List String) : List Char := [','].intercalate (ts.map String.toList)

theorem joined_cons_cons (t u : String) (ts : List String) :
    joined (t :: u :: ts) = t.toList ++ ',' :: joined (u :: ts) := by
  simp [joined, List.intercalate_cons_cons]

theorem joined_singleton (t : String) : joined [t] = t.toList := by
  simp [joined]

theorem itemTexts_eq (items : List Json) : itemTexts items = items.map text := by
  induction items with
  | nil => rfl
  | cons v vs ih => rw [itemTexts, ih, List.map_cons]

def memberText (m : String × Json) : String := stringText m.1 ++ ":" ++ text m.2

theorem memberTexts_eq (members : List (String × Json)) :
    memberTexts (members.map fun (k, v) => (some k, v)) = members.map memberText := by
  induction members with
  | nil => rfl
  | cons m ms ih => rw [List.map_cons, memberTexts, ih, List.map_cons]; rfl

theorem toList_arr (items : List Json) :
    (text (.arr items)).toList = '[' :: (joined (items.map text) ++ [']']) := by
  simp [text, itemTexts_eq, joined]

theorem toList_object (members : List (String × Json)) :
    (text (object members)).toList = '\x7b' :: (joined (members.map memberText) ++ ['\x7d']) := by
  simp [text, object, memberTexts_eq, joined]

/-! ## Values -/

/-- The values whose text stands for them: they hold no flaw and no number beyond 64 bits. -/
inductive Plain : Json → Prop
  | null : Plain .null
  | bool (b : Bool) : Plain (.bool b)
  | int {n : Int} (low : -(UInt64.size / 2 : Nat) ≤ n) (high : n < UInt64.size) : Plain (.int n)
  | str (s : String) : Plain (.str s)
  | arr {items : List Json} (items_plain : ∀ v ∈ items, Plain v) : Plain (.arr items)
  | object {members : List (String × Json)} (members_plain : ∀ m ∈ members, Plain m.2) :
    Plain (.object members)

theorem dropSpace_cons {c : Char} (h : isSpace c = false) (cs : List Char) :
    dropSpace (c :: cs) = c :: cs := by
  simp [dropSpace, h]

/-- A text begins with what no reader skips, and an item does not begin as the end of a list. -/
theorem Plain.head {j : Json} (h : Plain j) :
    ∃ c cs, (text j).toList = c :: cs ∧ isSpace c = false ∧ c ≠ ']' := by
  cases h with
  | null => exact ⟨'n', "ull".toList, rfl, rfl, by decide⟩
  | bool b =>
    cases b
    · exact ⟨'f', "alse".toList, rfl, rfl, by decide⟩
    · exact ⟨'t', "rue".toList, rfl, rfl, by decide⟩
  | @int n low high =>
    obtain ⟨c, cs, htext, hc⟩ := head_int n
    refine ⟨c, cs, htext, isSpace_of_number hc, ?_⟩
    rintro rfl
    exact absurd hc (by decide)
  | str s => exact ⟨'"', _, toList_stringText s, rfl, by decide⟩
  | arr _ => exact ⟨'[', _, toList_arr _, rfl, by decide⟩
  | object _ => exact ⟨'\x7b', _, toList_object _, rfl, by decide⟩

theorem readValue_number {fuel : Nat} {c : Char} {cs rest : List Char} {v : Json}
    (hc : c = '-' ∨ Text.isDigit c = true) (hread : readNumber? (c :: cs) = some (v, rest)) :
    readValue (fuel + 1) (c :: cs) = (v, some rest) := by
  rw [readValue.eq_def]
  simp only [dropSpace_cons (isSpace_of_number hc)]
  split
  all_goals first
    | (next heq => cases heq; exact absurd hc (by decide))
    | simp_all

/-- Taking the text of `j` off the front of a longer one gives `j`. -/
def Reads (j : Json) : Prop :=
  ∀ fuel rest, (text j).toList.length ≤ fuel → EndsNumber rest →
    readValue fuel ((text j).toList ++ rest) = (j, some rest)

theorem reads_int {n : Int} (low : -(UInt64.size / 2 : Nat) ≤ n) (high : n < UInt64.size) :
    Reads (.int n) := by
  intro fuel rest hfuel hrest
  have hread := readNumber?_int low high hrest
  obtain ⟨c, cs, htext, hc⟩ := head_int n
  rw [htext] at hfuel hread ⊢
  cases fuel with
  | zero => simp at hfuel
  | succ fuel => exact readValue_number hc hread

theorem reads_str (s : String) : Reads (.str s) := by
  intro fuel rest hfuel _
  rw [text, toList_stringText] at hfuel ⊢
  cases fuel with
  | zero => simp at hfuel
  | succ fuel =>
    rw [List.cons_append, readValue.eq_def]
    simp only [dropSpace_cons (show isSpace '"' = false from rfl), readString_text]

theorem reads_word {j : Json} (h : j = .null ∨ ∃ b, j = .bool b) : Reads j := by
  intro fuel rest hfuel _
  cases fuel with
  | zero => rcases h with rfl | ⟨_ | _, rfl⟩ <;> exact absurd hfuel (by decide)
  | succ fuel => rcases h with rfl | ⟨_ | _, rfl⟩ <;> rfl

theorem endsNumber_cons {c : Char} (h : c = ',' ∨ c = ']' ∨ c = '\x7d') (rest : List Char) :
    EndsNumber (c :: rest) := by
  intro d hd
  obtain rfl : c = d := by simpa using hd
  rcases h with rfl | rfl | rfl <;> decide

theorem readItems_texts {items : List Json} (hne : items ≠ []) (hreads : ∀ v ∈ items, Reads v)
    (fuel : Nat) (acc : List Json) (rest : List Char)
    (hfuel : (joined (items.map text)).length + 1 ≤ fuel) :
    readItems fuel acc (joined (items.map text) ++ ']' :: rest) =
      (.arr (acc.reverse ++ items), some rest) := by
  induction items generalizing acc fuel with
  | nil => exact absurd rfl hne
  | cons v vs ih =>
    obtain ⟨hv, hvs⟩ := List.forall_mem_cons.mp hreads
    obtain ⟨fuel, rfl⟩ : ∃ n, fuel = n + 1 := ⟨fuel - 1, by omega⟩
    cases vs with
    | nil =>
      rw [List.map_singleton, joined_singleton] at hfuel ⊢
      have hread := hv fuel (']' :: rest) (by omega) (endsNumber_cons (.inr (.inl rfl)) rest)
      rw [readItems, hread]
      simp [dropSpace_cons (show isSpace ']' = false from rfl)]
    | cons w ws =>
      rw [List.map_cons, List.map_cons, joined_cons_cons] at hfuel ⊢
      simp only [List.length_append, List.length_cons] at hfuel
      rw [List.append_assoc, List.cons_append]
      have hread := hv fuel (',' :: (joined (text w :: ws.map text) ++ ']' :: rest)) (by omega)
        (endsNumber_cons (.inl rfl) _)
      have hrest := ih (List.cons_ne_nil w ws) hvs fuel (v :: acc)
        (by rw [List.map_cons]; omega)
      rw [List.map_cons] at hrest
      rw [readItems, hread]
      simp only [dropSpace_cons (show isSpace ',' = false from rfl), hrest, List.reverse_cons,
        List.append_assoc, List.singleton_append]

theorem reads_arr {items : List Json} (hplain : ∀ v ∈ items, Plain v)
    (hreads : ∀ v ∈ items, Reads v) : Reads (.arr items) := by
  intro fuel rest hfuel _
  rw [toList_arr] at hfuel ⊢
  simp only [List.length_cons, List.length_append, List.length_nil] at hfuel
  obtain ⟨fuel, rfl⟩ : ∃ n, fuel = n + 1 := ⟨fuel - 1, by omega⟩
  rw [List.cons_append, readValue.eq_def]
  simp only [dropSpace_cons (show isSpace '[' = false from rfl), List.append_assoc,
    List.singleton_append]
  cases items with
  | nil => rfl
  | cons v vs =>
    have hitems := readItems_texts (List.cons_ne_nil v vs) hreads fuel [] rest (by omega)
    obtain ⟨c, cs, htext, hspace, hend⟩ := (hplain v List.mem_cons_self).head
    obtain ⟨ds, hds⟩ : ∃ ds, joined ((v :: vs).map text) = c :: ds := by
      cases vs with
      | nil => exact ⟨cs, by rw [List.map_singleton, joined_singleton, htext]⟩
      | cons w ws =>
        rw [List.map_cons, List.map_cons, joined_cons_cons, htext, List.cons_append]
        exact ⟨_, rfl⟩
    rw [hds] at hitems ⊢
    rw [List.cons_append, dropSpace_cons hspace]
    split
    · next heq => exact absurd (List.cons.inj heq).1 hend
    · exact hitems

theorem toList_memberText (m : String × Json) :
    (memberText m).toList =
      '"' :: (m.1.toList.flatMap escape ++ ['"'] ++ ':' :: (text m.2).toList) := by
  simp [memberText, toList_stringText]

/-- After a member comes the next one or the end of the object. -/
theorem readMembers_member {m : String × Json} (hreads : Reads m.2) {fuel : Nat}
    (acc : List (Option String × Json)) (rest : List Char)
    (hfuel : (memberText m).toList.length ≤ fuel) :
    readMembers (fuel + 1) acc ((memberText m).toList ++ ',' :: rest) =
        readMembers fuel ((some m.1, m.2) :: acc) rest ∧
      readMembers (fuel + 1) acc ((memberText m).toList ++ '\x7d' :: rest) =
        (.obj ((some m.1, m.2) :: acc).reverse, some rest) := by
  have hlength := congrArg List.length (toList_memberText m)
  simp only [List.length_cons, List.length_append] at hlength
  have hcomma := hreads fuel (',' :: rest) (by omega) (endsNumber_cons (.inl rfl) rest)
  have hclose := hreads fuel ('\x7d' :: rest) (by omega) (endsNumber_cons (.inr (.inr rfl)) rest)
  have htext : ∀ after, (memberText m).toList ++ after =
      '"' :: (m.1.toList.flatMap escape ++ ['"'] ++ ':' :: ((text m.2).toList ++ after)) := by
    intro after
    rw [toList_memberText, List.cons_append, List.append_assoc, List.cons_append]
  constructor
  · rw [htext, readMembers.eq_def]
    simp only [dropSpace_cons (show isSpace '"' = false from rfl), readString_text,
      dropSpace_cons (show isSpace ':' = false from rfl), hcomma,
      dropSpace_cons (show isSpace ',' = false from rfl)]
  · rw [htext, readMembers.eq_def]
    simp only [dropSpace_cons (show isSpace '"' = false from rfl), readString_text,
      dropSpace_cons (show isSpace ':' = false from rfl), hclose,
      dropSpace_cons (show isSpace '\x7d' = false from rfl)]

theorem readMembers_texts {members : List (String × Json)} (hne : members ≠ [])
    (hreads : ∀ m ∈ members, Reads m.2) (fuel : Nat) (acc : List (Option String × Json))
    (rest : List Char) (hfuel : (joined (members.map memberText)).length + 1 ≤ fuel) :
    readMembers fuel acc (joined (members.map memberText) ++ '\x7d' :: rest) =
      (.obj (acc.reverse ++ members.map fun (k, v) => (some k, v)), some rest) := by
  induction members generalizing acc fuel with
  | nil => exact absurd rfl hne
  | cons m ms ih =>
    obtain ⟨hm, hms⟩ := List.forall_mem_cons.mp hreads
    obtain ⟨fuel, rfl⟩ : ∃ n, fuel = n + 1 := ⟨fuel - 1, by omega⟩
    cases ms with
    | nil =>
      rw [List.map_singleton, joined_singleton] at hfuel ⊢
      rw [(readMembers_member hm acc rest (by omega)).2]
      simp
    | cons m' ms =>
      rw [List.map_cons, List.map_cons, joined_cons_cons] at hfuel ⊢
      simp only [List.length_append, List.length_cons] at hfuel
      have hrest := ih (List.cons_ne_nil m' ms) hms fuel ((some m.1, m.2) :: acc)
        (by rw [List.map_cons]; omega)
      rw [List.map_cons] at hrest
      rw [List.append_assoc, List.cons_append,
        (readMembers_member hm acc _ (by omega)).1, hrest]
      simp only [List.reverse_cons, List.append_assoc, List.singleton_append, List.map_cons]

theorem reads_object {members : List (String × Json)} (hreads : ∀ m ∈ members, Reads m.2) :
    Reads (object members) := by
  intro fuel rest hfuel _
  rw [toList_object] at hfuel ⊢
  simp only [List.length_cons, List.length_append, List.length_nil] at hfuel
  obtain ⟨fuel, rfl⟩ : ∃ n, fuel = n + 1 := ⟨fuel - 1, by omega⟩
  rw [List.cons_append, readValue.eq_def]
  simp only [dropSpace_cons (show isSpace '\x7b' = false from rfl), List.append_assoc,
    List.singleton_append]
  cases members with
  | nil => rfl
  | cons m ms =>
    have hmembers := readMembers_texts (List.cons_ne_nil m ms) hreads fuel [] rest (by omega)
    obtain ⟨ds, hds⟩ : ∃ ds, joined ((m :: ms).map memberText) = '"' :: ds := by
      cases ms with
      | nil => exact ⟨_, by rw [List.map_singleton, joined_singleton, toList_memberText]⟩
      | cons m' ms =>
        rw [List.map_cons, List.map_cons, joined_cons_cons, toList_memberText, List.cons_append]
        exact ⟨_, rfl⟩
    rw [hds] at hmembers ⊢
    rw [List.cons_append, dropSpace_cons (show isSpace '"' = false from rfl)]
    exact hmembers

theorem Plain.reads {j : Json} (h : Plain j) : Reads j := by
  induction h with
  | null => exact reads_word (.inl rfl)
  | bool b => exact reads_word (.inr ⟨b, rfl⟩)
  | int low high => exact reads_int low high
  | str s => exact reads_str s
  | arr hplain ih => exact reads_arr hplain ih
  | object _ ih => exact reads_object ih

theorem Plain.ofWholeText?_text {j : Json} (h : Plain j) : ofWholeText? (text j) = some j := by
  have hfuel : (text j).toList.length ≤ (text j).utf8ByteSize + 2 := by
    have hle := Text.length_le_utf8Len (text j).toList
    rw [← String.utf8ByteSize_ofList, String.ofList_toList] at hle
    omega
  have hread := h.reads _ [] hfuel (by simp [EndsNumber])
  rw [List.append_nil] at hread
  simp [ofWholeText?, hread, dropSpace]

end RtpBroker.Json
