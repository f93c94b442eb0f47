import Mathlib.Algebra.Group.Nat.Defs
import RtpBroker.Http.Api
import RtpBroker.Proofs.Texts

/-!
# Asking for a playback

An identifier is read back from its text, and the path made of that text leads to the route
of a playback, so whoever has an identifier learns what the tracker knows under it.
-/

namespace RtpBroker

/-! ## Identifiers -/

namespace Text

theorem hexValue?_hexDigit {n : Nat} (h : n < 16) : hexValue? (hexDigit n) = some n := by
  have hall : ∀ n : Fin 16, hexValue? (hexDigit n) = some n.val := by decide
  exact hall ⟨n, h⟩

/-- No digit is a sign with a meaning in a path. -/
theorem hexDigit_ne {n : Nat} (h : n < 16) : hexDigit n ≠ '/' ∧ hexDigit n ≠ '%' := by
  have hall : ∀ n : Fin 16, hexDigit n ≠ '/' ∧ hexDigit n ≠ '%' := by decide
  exact hall ⟨n, h⟩

end Text

namespace Uuid

/-- The digits of a number, the most significant first, make up the number. -/
theorem foldl_digits (n k : Nat) :
    ((List.range k).map fun i => n / 16 ^ (k - 1 - i) % 16).foldl (fun acc v => acc * 16 + v) 0 =
      n % 16 ^ k := by
  induction k generalizing n with
  | zero => simp [Nat.mod_one]
  | succ k ih =>
    have hrest : ((List.range k).map fun i => n / 16 ^ (k + 1 - 1 - i) % 16) =
        (List.range k).map fun i => n / 16 / 16 ^ (k - 1 - i) % 16 := by
      refine List.map_congr_left fun i hi => ?_
      have hlt := List.mem_range.mp hi
      rw [Nat.div_div_eq_div_mul, ← Nat.pow_succ', show k + 1 - 1 - i = (k - 1 - i).succ by omega]
    rw [List.range_succ, List.map_append, hrest, List.foldl_append, ih]
    simp only [List.map_cons, List.map_nil, List.foldl_cons, List.foldl_nil, Nat.add_sub_cancel,
      Nat.sub_self, Nat.pow_zero, Nat.div_one]
    rw [Nat.pow_succ', Nat.mod_mul]
    omega

theorem mapM_hexValue? {ns : List Nat} (h : ∀ n ∈ ns, n < 16) :
    (ns.map Text.hexDigit).mapM Text.hexValue? = some ns := by
  induction ns with
  | nil => rfl
  | cons n ns ih =>
    obtain ⟨hn, hns⟩ := List.forall_mem_cons.mp h
    rw [List.map_cons, List.mapM_cons, Text.hexValue?_hexDigit hn, ih hns]
    rfl

def nibbles (u : Uuid) : List Nat := (List.range 32).map fun i => u.bits.toNat / 16 ^ (31 - i) % 16

theorem digits_eq (u : Uuid) : u.digits = u.nibbles.map Text.hexDigit := by
  rw [nibbles, List.map_map]
  rfl

theorem nibble_lt {u : Uuid} : ∀ n ∈ u.nibbles, n < 16 := by
  intro n hn
  obtain ⟨i, -, rfl⟩ := List.mem_map.mp hn
  exact Nat.mod_lt _ (by decide)

theorem length_digits (u : Uuid) : u.digits.length = 32 := by
  simp [digits]

theorem ofDigits?_digits (u : Uuid) : ofDigits? u.digits = some u := by
  have hvalue : u.nibbles.foldl (fun acc v => acc * 16 + v) 0 = u.bits.toNat := by
    rw [nibbles, foldl_digits u.bits.toNat 32]
    exact Nat.mod_eq_of_lt u.bits.isLt
  have hlength : u.nibbles.length = 32 := by simp [nibbles]
  rw [ofDigits?, digits_eq, mapM_hexValue? nibble_lt]
  simp [hvalue, hlength]

/-- An identifier is read back from its text. -/
theorem ofString?_text (u : Uuid) : ofString? u.text = some u := by
  have hlength := length_digits u
  have hchars : u.chars.length = 36 := by
    simp [chars, hlength]
  rw [ofString?, text, String.toList_ofList, ofChars?, hchars]
  have hhyphens : [8, 13, 18, 23].all (fun i => u.chars[i]? = some '-') = true := by
    simp [chars, List.getElem?_append, hlength]
  have hgroups : u.chars.take 8 ++ (u.chars.drop 9).take 4 ++ (u.chars.drop 14).take 4 ++
      (u.chars.drop 19).take 4 ++ u.chars.drop 24 = u.digits := by
    have hwhole : u.digits.take 8 ++ ((u.digits.drop 8).take 4 ++ ((u.digits.drop 12).take 4 ++
        ((u.digits.drop 16).take 4 ++ u.digits.drop 20))) = u.digits := by
      have hcut : ∀ n, (u.digits.drop n).take 4 ++ u.digits.drop (n + 4) = u.digits.drop n :=
        fun n => by rw [← List.drop_drop, List.take_append_drop]
      rw [hcut 16, hcut 12, hcut 8, List.take_append_drop]
    simpa [chars, List.take_append, List.drop_append, List.drop_take, hlength] using hwhole
  change ofGrouped? u.chars = some u
  rw [ofGrouped?, if_pos ⟨hchars, hhyphens⟩, hgroups, ofDigits?_digits]

theorem mem_chars {u : Uuid} {c : Char} (h : c ∈ u.chars) : c ∈ u.digits ∨ c = '-' := by
  simp only [chars, List.mem_append, List.mem_cons] at h
  rcases h with ((((h | rfl | h) | rfl | h) | rfl | h) | rfl | h)
  · exact Or.inl (List.mem_of_mem_take h)
  · exact Or.inr rfl
  · exact Or.inl (List.mem_of_mem_drop (List.mem_of_mem_take h))
  · exact Or.inr rfl
  · exact Or.inl (List.mem_of_mem_drop (List.mem_of_mem_take h))
  · exact Or.inr rfl
  · exact Or.inl (List.mem_of_mem_drop (List.mem_of_mem_take h))
  · exact Or.inr rfl
  · exact Or.inl (List.mem_of_mem_drop h)

/-- The text of an identifier has no sign with a meaning in a path. -/
theorem not_mem_chars (u : Uuid) : '/' ∉ u.chars ∧ '%' ∉ u.chars := by
  have hne : ∀ c ∈ u.chars, c ≠ '/' ∧ c ≠ '%' := by
    intro c hc
    rcases mem_chars hc with hc | rfl
    · rw [digits_eq] at hc
      obtain ⟨n, hn, rfl⟩ := List.mem_map.mp hc
      exact Text.hexDigit_ne (nibble_lt n hn)
    · decide
  exact ⟨fun h => (hne _ h).1 rfl, fun h => (hne _ h).2 rfl⟩

end Uuid

namespace Http

/-! ## Paths -/

theorem route_of_id (u : Uuid) : Route.of? ("/playback/" ++ u.text) = some (.playback u.text) := by
  have hsplit : Text.split '/' ("/playback/" ++ u.text) = ["", "playback", u.text] := by
    simp [Text.split, Text.splitChars, Uuid.text, Text.splitChars_of_not_mem u.not_mem_chars.1]
  have hne : u.text ≠ "" := by
    simp [Uuid.text, Uuid.chars]
  rw [Route.of?, hsplit]
  simp [hne]

theorem utf8_eq (c : Char) : utf8 c = String.utf8EncodeChar c := by
  rw [utf8, String.toUTF8_eq_toByteArray, ← String.utf8Encode_toList, String.toList_singleton,
    List.utf8Encode_singleton, List.toList_data_toByteArray]

theorem percentDecode_of_not_mem {cs : List Char} (h : '%' ∉ cs) :
    percentDecode cs = cs.flatMap utf8 := by
  induction cs with
  | nil => rfl
  | cons c cs ih =>
    rw [List.mem_cons, not_or] at h
    rw [percentDecode, ih h.2, List.flatMap_cons]
    exact fun _ _ _ hc _ => h.1 hc.symm

/-- A segment without percent signs is its own text. -/
theorem segmentText?_of_not_mem {s : String} (h : '%' ∉ s.toList) : segmentText? s = some s := by
  have hbytes : ByteArray.mk (percentDecode s.toList).toArray = s.toByteArray := by
    rw [percentDecode_of_not_mem h, ← String.utf8Encode_toList, List.utf8Encode, funext utf8_eq]
    apply ByteArray.ext
    rw [List.data_toByteArray]
  rw [segmentText?, hbytes, String.fromUTF8?, dif_pos s.isValidUTF8]
  rfl

/-- Who asks for a playback by its identifier is shown its record, if there is one. -/
theorem playback_of_id (u : Uuid) (b : Broker) :
    playback u.text b =
      match b.exchange.tracker.find? u with
      | some status => .json 200 (PlaybackStatus.codec.write status)
      | none => Refusal.response (.playbackNotFound u.text) := by
  have hsegment : segmentText? u.text = some u.text := by
    refine segmentText?_of_not_mem ?_
    rw [Uuid.text, String.toList_ofList]
    exact u.not_mem_chars.2
  rw [playback, hsegment]
  dsimp only
  rewrite [Uuid.ofString?_text]
  rfl

theorem serve_inquiry (o : Occasion) (h : Health) {r : Request} (u : Uuid) (b : Broker)
    (hmethod : r.method = "GET") (hpath : r.path = "/playback/" ++ u.text) :
    (serve o h r b).1 = playback u.text b := by
  have hdispatch : dispatch o h r b = (playback u.text b, b) := by
    rw [dispatch, hpath, route_of_id, hmethod]
    simp [Route.methods, handle, Response.forMethod]
  rw [serve, hdispatch]

end Http

end RtpBroker
