import RtpBroker.Json.Record
import RtpBroker.Proofs.JsonText

/-!
# Codecs that lose nothing

A codec is sound on the values with a property if what it writes for them has a text and is
read back, and if it reads no others. Soundness goes from the parts of a type to the whole;
a record is sound if its fields are and its names differ. What a record reads from an object
from which fields are gone, and to which unknown ones were added, is what was written with
the starting value of the fields that are gone.
-/

namespace RtpBroker.Json

namespace Codec

variable {α β : Type}

structure Sound (c : Codec α) (P : α → Prop) : Prop where
  read_write : ∀ a, P a → c.read (c.write a) = .ok a
  plain : ∀ a, P a → (c.write a).Plain
  of_read : ∀ j a, c.read j = .ok a → P a

/-- Sound on all values. -/
abbrev Total (c : Codec α) : Prop := c.Sound fun _ => True

theorem text_total : text.Total where
  read_write _ _ := rfl
  plain s _ := .str s
  of_read _ _ _ := trivial

theorem bool_total : bool.Total where
  read_write _ _ := rfl
  plain b _ := .bool b
  of_read _ _ _ := trivial

theorem int_sound {low high : Int} (hlow : -(UInt64.size / 2 : Nat) ≤ low)
    (hhigh : high < UInt64.size) : (int low high).Sound fun n => low ≤ n ∧ n ≤ high where
  read_write n hn := if_pos hn
  plain n hn := .int (Int.le_trans hlow hn.1) (Int.lt_of_le_of_lt hn.2 hhigh)
  of_read j n h := by
    cases j <;> simp only [int, reduceCtorEq] at h
    split at h
    · next hn => cases h; exact hn
    · cases h

theorem int32_sound : int32.Sound fun n =>
    -(UInt32.size / 2 : Nat) ≤ n ∧ n ≤ (UInt32.size / 2 - 1 : Nat) :=
  int_sound (by decide) (by decide)

theorem Sound.map {c : Codec α} {P : α → Prop} (h : c.Sound P) {f : α → β} {g : β → α}
    (hfg : ∀ b, f (g b) = b) (hg : ∀ b, P (g b)) : (c.map f g).Total where
  read_write b _ := by
    simp only [Codec.map, h.read_write _ (hg b), Except.map, hfg]
  plain b _ := h.plain _ (hg b)
  of_read _ _ _ := trivial

theorem unsigned_total {size : Nat} {toNat : α → Nat} {ofNat : Nat → α}
    (hsize : size ≤ UInt64.size) (hlt : ∀ a, toNat a < size) (hof : ∀ a, ofNat (toNat a) = a) :
    ((int 0 (size - 1)).map (fun n => ofNat n.toNat) fun a => toNat a).Total :=
  (int_sound (by decide) (by omega)).map (fun a => by rw [Int.toNat_natCast, hof])
    fun a => ⟨Int.natCast_nonneg _, by have := hlt a; omega⟩

theorem uint8_total : uint8.Total :=
  unsigned_total (by decide) UInt8.toNat_lt fun _ => UInt8.ofNat_toNat

theorem uint16_total : uint16.Total :=
  unsigned_total (by decide) UInt16.toNat_lt fun _ => UInt16.ofNat_toNat

theorem uint32_total : uint32.Total :=
  unsigned_total (by decide) UInt32.toNat_lt fun _ => UInt32.ofNat_toNat

theorem uint64_total : uint64.Total :=
  unsigned_total (by decide) UInt64.toNat_lt fun _ => UInt64.ofNat_toNat

theorem Sound.list {c : Codec α} (h : c.Total) : (list c).Total where
  read_write as _ := by
    change (as.map c.write).mapM c.read = .ok as
    induction as with
    | nil => rfl
    | cons a as ih =>
      rw [List.map_cons, List.mapM_cons, h.read_write a trivial, ih]
      rfl
  plain as _ := by
    refine .arr fun v hv => ?_
    obtain ⟨a, -, rfl⟩ := List.mem_map.mp hv
    exact h.plain a trivial
  of_read _ _ _ := trivial

/-- Nothing may be written as `null` of which there may also be none. -/
theorem Sound.optional {c : Codec α} {P : α → Prop} (h : c.Sound P)
    (hnull : ∀ a, c.write a ≠ .null) : c.optional.Sound fun o => ∀ a ∈ o, P a where
  read_write o ho := by
    cases o with
    | none => rfl
    | some a =>
      simp only [Codec.optional, ofOption]
      split
      · next heq => exact absurd heq (hnull a)
      · rw [h.read_write a (ho a rfl)]
        rfl
  plain o ho := by
    cases o with
    | none => exact .null
    | some a => exact h.plain a (ho a rfl)
  of_read j o hread := by
    intro a ha
    cases ha
    simp only [Codec.optional] at hread
    split at hread
    · cases hread
    · cases hc : c.read j with
      | error e => simp [hc, Except.map] at hread
      | ok b =>
        simp only [hc, Except.map, Except.ok.injEq, Option.some.injEq] at hread
        exact hread ▸ h.of_read j b hc

theorem named_sound {name : α → String} {find? : String → Option α} {P : α → Prop}
    (hfind : ∀ a, P a → find? (name a) = some a) (hof : ∀ s a, find? s = some a → P a) :
    (named name find?).Sound P where
  read_write a ha := by simp only [named, hfind a ha]
  plain a _ := .str _
  of_read j a h := by
    cases j <;> simp only [named, reduceCtorEq] at h
    split at h
    · next heq => cases h; exact hof _ _ heq
    · cases h

theorem choice_total {name : α → String} {find? : String → Option α}
    (hfind : ∀ a, find? (name a) = some a) : (choice name find?).Total where
  read_write a _ := by simp only [choice, named, hfind a]
  plain a _ := .str _
  of_read _ _ _ := trivial

end Codec

/-! ## Fields -/

namespace Field

variable {α β : Type}

/-- The record `acc` with the field as it is in `a`. -/
def copy (f : Field α) (a acc : α) : α := ((f.read (f.write a) acc).toOption).getD acc

/-- The record `acc` with the field as it is in `a`, or left alone. -/
def fill (f : Field α) (gone : String → Bool) (a acc : α) : α :=
  if gone f.name then acc else f.copy a acc

structure Sound (f : Field α) (P : α → Prop) : Prop where
  read_write : ∀ a acc, P a → f.read (f.write a) acc = .ok (f.copy a acc)
  plain : ∀ a, P a → (f.write a).Plain
  keeps : ∀ j a b, P a → f.read j a = .ok b → P b

variable {name : String} {required : Bool} {c : Codec β} {Q : β → Prop} {get : α → β}
  {set : β → α → α}

theorem read_of (hc : c.Sound Q) {a : α} (ha : Q (get a)) (acc : α) :
    (Field.of name required c get set).read ((Field.of name required c get set).write a) acc =
      .ok (set (get a) acc) := by
  simp only [Field.of, hc.read_write _ ha, Except.map]

theorem copy_of (hc : c.Sound Q) {a : α} (ha : Q (get a)) (acc : α) :
    (Field.of name required c get set).copy a acc = set (get a) acc := by
  rw [copy, read_of hc ha]
  rfl

theorem fill_of (hc : c.Sound Q) {a : α} (ha : Q (get a)) (hset : ∀ a, set (get a) a = a)
    (gone : String → Bool) (acc : α) :
    (Field.of name required c get set).fill gone a acc =
      set (if gone name then get acc else get a) acc := by
  rw [fill, copy_of hc ha]
  change (if gone name then acc else set (get a) acc) = _
  split
  · exact (hset acc).symm
  · rfl

theorem Sound.of {P : α → Prop} (hc : c.Sound Q) (hget : ∀ a, P a → Q (get a))
    (hset : ∀ a b, P a → Q b → P (set b a)) : (Field.of name required c get set).Sound P where
  read_write a acc ha := by rw [read_of hc (hget a ha), copy_of hc (hget a ha)]
  plain a ha := hc.plain _ (hget a ha)
  keeps j a b ha h := by
    simp only [Field.of] at h
    cases hread : c.read j with
    | error e => simp [hread, Except.map] at h
    | ok v =>
      simp only [hread, Except.map, Except.ok.injEq] at h
      exact h ▸ hset a v ha (hc.of_read j v hread)

theorem Sound.total (hc : c.Total) : (Field.of name required c get set).Sound fun _ => True :=
  .of hc (fun _ _ => trivial) fun _ _ _ _ => trivial

end Field

/-! ## Objects with other members -/

/-- The members that are not gone, in their order and with values that `R` relates to theirs, among
members with names that are not known. -/
inductive TrimmedMembers (known : List String) (gone : String → Bool)
    (R : String → Json → Json → Prop) :
    List (Option String × Json) → List (Option String × Json) → Prop
  | nil : TrimmedMembers known gone R [] []
  | gone {k : String} {v : Json} {ms ms' : List (Option String × Json)} (hk : gone k = true)
    (h : TrimmedMembers known gone R ms ms') : TrimmedMembers known gone R ((some k, v) :: ms) ms'
  | kept {k : String} {v v' : Json} {ms ms' : List (Option String × Json)} (hk : gone k = false)
    (hv : R k v v') (h : TrimmedMembers known gone R ms ms') :
    TrimmedMembers known gone R ((some k, v) :: ms) ((some k, v') :: ms')
  | unknown {k : String} {v' : Json} {ms ms' : List (Option String × Json)} (hk : k ∉ known)
    (hv : v'.isTorn = false) (h : TrimmedMembers known gone R ms ms') :
    TrimmedMembers known gone R ms ((some k, v') :: ms')

/-- An object without the members that are gone, and with others that it did not have. -/
def Trimmed (gone : String → Bool) (R : String → Json → Json → Prop) (j j' : Json) : Prop :=
  ∃ ms ms', j = object ms ∧ j' = .obj ms' ∧
    TrimmedMembers (ms.map (·.1)) gone R (ms.map fun (k, v) => (some k, v)) ms'

/-! ## Records -/

namespace Record

variable {α : Type} {r : Record α} {P : α → Prop}

/-- The record `a` with the fields that are gone as they are at the start. -/
def restore (r : Record α) (gone : String → Bool) (a : α) : α :=
  r.fields.foldl (fun acc f => f.fill gone a acc) r.start

structure Sound (r : Record α) (P : α → Prop) : Prop where
  nodup : (r.fields.map (·.name)).Nodup
  fields : ∀ f ∈ r.fields, f.Sound P
  start : P r.start
  restore_all : ∀ a, P a → r.restore (fun _ => false) a = a

theorem find?_of_mem (hnodup : (r.fields.map (·.name)).Nodup) {f : Field α} (hf : f ∈ r.fields) :
    r.find? f.name = some f := by
  obtain ⟨before, after, hsplit⟩ := List.append_of_mem hf
  rw [find?, List.find?_eq_some_iff_append]
  refine ⟨by simp, before, after, hsplit, fun g hg => ?_⟩
  have hne : g.name ≠ f.name := by
    rw [hsplit, List.map_append, List.map_cons, List.nodup_append] at hnodup
    exact hnodup.2.2 _ (List.mem_map_of_mem hg) _ List.mem_cons_self
  simpa using hne

theorem find?_eq_none {name : String} (h : name ∉ r.fields.map (·.name)) : r.find? name = none := by
  rw [find?, List.find?_eq_none]
  intro f hf
  have hne : f.name ≠ name := fun heq => h (heq ▸ List.mem_map_of_mem hf)
  simpa using hne

/-- Reading goes through the fields as they were written; what is unknown is passed over. -/
theorem readMembers_trimmed (hnodup : (r.fields.map (·.name)).Nodup) {gone : String → Bool}
    {R : String → Json → Json → Prop} {a b : α}
    (hread : ∀ f ∈ r.fields, ∀ v, R f.name (f.write a) v → ∀ acc, f.read v acc = .ok (f.copy b acc))
    {fs : List (Field α)} (hfs : ∀ f ∈ fs, f ∈ r.fields) (hnames : (fs.map (·.name)).Nodup)
    {ms' : List (Option String × Json)}
    (h : TrimmedMembers (r.fields.map (·.name)) gone R
      (fs.map fun f => (some f.name, f.write a)) ms')
    (seen : List String) (hseen : ∀ f ∈ fs, f.name ∉ seen) (acc : α) :
    ∃ seen', r.readMembers ms' seen acc =
        .ok (seen', fs.foldl (fun acc f => f.fill gone b acc) acc) ∧
      seen ⊆ seen' ∧ ∀ f ∈ fs, gone f.name = false → f.name ∈ seen' := by
  generalize hms : fs.map (fun f => (some f.name, f.write a)) = ms at h
  -- over what became of the members; only a kept one adds to the names seen
  induction h generalizing fs seen acc with
  | nil =>
    obtain rfl := List.map_eq_nil_iff.mp hms
    exact ⟨seen, rfl, fun _ hs => hs, by simp⟩
  | gone hk h ih =>
    obtain ⟨f, fs, rfl, heq, hrest⟩ := List.map_eq_cons_iff.mp hms
    obtain ⟨rfl, -⟩ : f.name = _ ∧ _ := by simpa using heq
    obtain ⟨seen', hmembers, hsub, hmem⟩ := ih (fun f hf => hfs f (List.mem_cons_of_mem _ hf))
      (List.nodup_cons.mp hnames).2 seen (fun f hf => hseen f (List.mem_cons_of_mem _ hf)) acc hrest
    refine ⟨seen', ?_, hsub, ?_⟩
    · rw [hmembers, List.foldl_cons, Field.fill, if_pos hk]
    · rw [List.forall_mem_cons]
      exact ⟨fun hkept => by simp [hk] at hkept, hmem⟩
  | kept hk hv h ih =>
    obtain ⟨f, fs, rfl, heq, hrest⟩ := List.map_eq_cons_iff.mp hms
    obtain ⟨rfl, rfl⟩ : f.name = _ ∧ f.write a = _ := by simpa using heq
    obtain ⟨hf, hfs⟩ := List.forall_mem_cons.mp hfs
    rw [List.map_cons, List.nodup_cons] at hnames
    have hseen' : ∀ g ∈ fs, g.name ∉ f.name :: seen := by
      intro g hg
      rw [List.mem_cons, not_or]
      exact ⟨fun heq => hnames.1 (heq ▸ List.mem_map_of_mem hg),
        hseen g (List.mem_cons_of_mem _ hg)⟩
    obtain ⟨seen', hmembers, hsub, hmem⟩ := ih hfs hnames.2 _ hseen' (f.copy b acc) hrest
    refine ⟨seen', ?_, fun s hs => hsub (List.mem_cons_of_mem _ hs), ?_⟩
    · rw [readMembers, find?_of_mem hnodup hf]
      simp only [if_neg (hseen f List.mem_cons_self), hread f hf _ hv, hmembers, List.foldl_cons,
        Field.fill, hk, Bool.false_eq_true, if_false]
    · rw [List.forall_mem_cons]
      exact ⟨fun _ => hsub List.mem_cons_self, hmem⟩
  | unknown hk hv h ih =>
    obtain ⟨seen', hmembers, hsub, hmem⟩ := ih hfs hnames seen hseen acc hms
    refine ⟨seen', ?_, hsub, hmem⟩
    rw [readMembers, find?_eq_none hk]
    simp only [hv, Bool.false_eq_true, if_false, hmembers]

/-- What is read from the trimmed object written for `a`, if each field that is left has become as
it is in `b`. -/
theorem read_trimmed (hnodup : (r.fields.map (·.name)).Nodup) {gone : String → Bool}
    {R : String → Json → Json → Prop} {a b : α} {j' : Json}
    (hread : ∀ f ∈ r.fields, ∀ v, R f.name (f.write a) v → ∀ acc, f.read v acc = .ok (f.copy b acc))
    (hrequired : ∀ f ∈ r.fields, f.required = true → gone f.name = false)
    (h : Trimmed gone R (r.write a) j') : r.read j' = .ok (r.restore gone b) := by
  obtain ⟨ms, ms', hwrite, rfl, hmembers⟩ := h
  obtain rfl : r.fields.map (fun f => (f.name, f.write a)) = ms := by
    simp only [Record.write, object, Json.obj.injEq] at hwrite
    exact List.map_injective_iff.mpr (fun m m' heq => by simpa [Prod.ext_iff] using heq) hwrite
  rw [List.map_map, List.map_map] at hmembers
  obtain ⟨seen, hmembers, -, hmem⟩ := readMembers_trimmed hnodup hread (fun _ hf => hf) hnodup
    hmembers [] (fun f _ => List.not_mem_nil) r.start
  have hall : (r.fields.all fun f => !f.required || seen.contains f.name) = true := by
    rw [List.all_eq_true]
    intro f hf
    cases hreq : f.required with
    | false => rfl
    | true => simpa using hmem f hf (hrequired f hf hreq)
  simp only [Record.read, hmembers, hall, if_true]
  rfl

theorem trimmedMembers_refl (known : List String) (ms : List (String × Json)) :
    TrimmedMembers known (fun _ => false) (fun _ v v' => v' = v)
      (ms.map fun (k, v) => (some k, v)) (ms.map fun (k, v) => (some k, v)) := by
  induction ms with
  | nil => exact .nil
  | cons m ms ih => exact .kept rfl rfl ih

theorem trimmed_refl (ms : List (String × Json)) :
    Trimmed (fun _ => false) (fun _ v v' => v' = v) (object ms) (object ms) :=
  ⟨ms, _, rfl, rfl, trimmedMembers_refl _ ms⟩

theorem Sound.read_write_eq (h : r.Sound P) {f : Field α} (hf : f ∈ r.fields) {a : α} (ha : P a)
    (v : Json) (hv : v = f.write a) (acc : α) : f.read v acc = .ok (f.copy a acc) := by
  rw [hv, (h.fields f hf).read_write a acc ha]

/-- What is read from a trimmed object are the fields that are left, and the others as they are at
the start. -/
theorem Sound.read_without (h : r.Sound P) (hoptional : ∀ f ∈ r.fields, f.required = false)
    {gone : String → Bool} {a : α} {j' : Json} (ha : P a)
    (hj : Trimmed gone (fun _ v v' => v' = v) (r.write a) j') :
    r.read j' = .ok (r.restore gone a) :=
  read_trimmed h.nodup (fun f hf v hv acc => h.read_write_eq hf ha v hv acc)
    (fun f hf hrequired => absurd (hoptional f hf) (by simp [hrequired])) hj

theorem Sound.keeps_readMembers (h : r.Sound P) {ms : List (Option String × Json)}
    {seen seen' : List String} {a b : α} (ha : P a)
    (hread : r.readMembers ms seen a = .ok (seen', b)) : P b := by
  fun_induction Record.readMembers r ms seen a with
  | case1 seen a => cases hread; exact ha
  | case2 => cases hread
  | case3 => cases hread
  | case4 _ _ _ _ _ _ _ ih => exact ih ha hread
  | case5 => cases hread
  | case6 name v rest seen a f hf _ a' hfield ih =>
    exact ih ((h.fields f (List.mem_of_find?_eq_some hf)).keeps v a a' ha hfield) hread
  | case7 => cases hread

theorem Sound.keeps_readItems (h : r.Sound P) {fs : List (Field α)} (hfs : ∀ f ∈ fs, f ∈ r.fields)
    {vs : List Json} {a b : α} (ha : P a) (hread : r.readItems fs vs a = .ok b) : P b := by
  fun_induction Record.readItems r fs vs a with
  | case1 => cases hread; exact ha
  | case2 => cases hread; exact ha
  | case3 => cases hread
  | case4 => cases hread; exact ha
  | case5 => cases hread
  | case6 f fs v vs a a' hfield ih =>
    obtain ⟨hf, hfs⟩ := List.forall_mem_cons.mp hfs
    exact ih hfs ((h.fields f hf).keeps v a a' ha hfield) hread
  | case7 => cases hread

theorem Sound.codec (h : r.Sound P) : r.codec.Sound P where
  read_write a ha := by
    have hread := read_trimmed h.nodup (fun f hf v hv acc => h.read_write_eq hf ha v hv acc)
      (fun _ _ _ => rfl) (trimmed_refl (r.fields.map fun f => (f.name, f.write a)))
    rwa [h.restore_all a ha] at hread
  plain a ha := by
    refine .object fun m hm => ?_
    obtain ⟨f, hf, rfl⟩ := List.mem_map.mp hm
    exact (h.fields f hf).plain a ha
  of_read j a hread := by
    change r.read j = .ok a at hread
    unfold Record.read at hread
    split at hread
    · split at hread
      · next hmembers =>
        split at hread
        · cases hread
          exact h.keeps_readMembers h.start hmembers
        · cases hread
      · cases hread
    · exact h.keeps_readItems (fun _ hf => hf) h.start hread
    · cases hread

end Record

/-! ## Texts -/

namespace Codec

variable {α : Type}

def print (c : Codec α) (a : α) : String := (c.write a).text

/-- The value of a text, if it is the text of one. -/
def ofText? (c : Codec α) (t : String) : Option α :=
  (ofWholeText? t).bind fun j => (c.read j).toOption

theorem Sound.ofText?_print {c : Codec α} {P : α → Prop} (h : c.Sound P) {a : α} (ha : P a) :
    c.ofText? (c.print a) = some a := by
  simp only [ofText?, print, (h.plain a ha).ofWholeText?_text, Option.bind_some,
    h.read_write a ha]
  rfl

/-- Whatever is read from a text can be written and read again. -/
def Stable (c : Codec α) : Prop := ∀ t a, c.ofText? t = some a → c.ofText? (c.print a) = some a

theorem ofText?_eq_some {c : Codec α} {t : String} {a : α} :
    c.ofText? t = some a ↔ ∃ j, ofWholeText? t = some j ∧ c.read j = .ok a := by
  simp only [ofText?, Option.bind_eq_some_iff, Except.toOption]
  refine exists_congr fun j => and_congr_right fun _ => ?_
  cases c.read j <;> simp

theorem Sound.stable {c : Codec α} {P : α → Prop} (h : c.Sound P) : c.Stable := by
  intro t a hread
  obtain ⟨j, -, hj⟩ := ofText?_eq_some.mp hread
  exact h.ofText?_print (h.of_read j a hj)

end Codec

end RtpBroker.Json
