import RtpBroker.Proofs.FileNames
import RtpBroker.Proofs.NumberTexts
import RtpBroker.Proofs.Texts

/-!
# Extensions of audio files

A format says nothing, and then it stands for `mp3`, or it is one to ten ASCII letters and digits
between blanks, and then it stands for these in lower case. A file named after what a format stands
for is an entry of the directory it is put into.
-/

namespace RtpBroker

namespace AudioFormat

/-! ## Letters and digits -/

theorem isUpper_iff {c : Char} : c.isUpper = true ↔ 65 ≤ c.toNat ∧ c.toNat ≤ 90 :=
  decide_eq_true_iff

theorem isLower_iff {c : Char} : c.isLower = true ↔ 97 ≤ c.toNat ∧ c.toNat ≤ 122 := by
  change (decide (c.val ≥ 'a'.val) && decide (c.val ≤ 'z'.val)) = true ↔ _
  rw [Bool.and_eq_true, decide_eq_true_eq, decide_eq_true_eq]
  exact Iff.rfl

theorem isDigit_iff {c : Char} : c.isDigit = true ↔ 48 ≤ c.toNat ∧ c.toNat ≤ 57 := by
  change (decide (c.val ≥ '0'.val) && decide (c.val ≤ '9'.val)) = true ↔ _
  rw [Bool.and_eq_true, decide_eq_true_eq, decide_eq_true_eq]
  exact Iff.rfl

theorem isAlphanum_iff {c : Char} : c.isAlphanum = true ↔
    (65 ≤ c.toNat ∧ c.toNat ≤ 90) ∨ (97 ≤ c.toNat ∧ c.toNat ≤ 122) ∨
      (48 ≤ c.toNat ∧ c.toNat ≤ 57) := by
  change (c.isUpper || c.isLower || c.isDigit) = true ↔ _
  rw [Bool.or_eq_true, Bool.or_eq_true, isUpper_iff, isLower_iff, isDigit_iff, or_assoc]

theorem isLower_or_isDigit_iff {c : Char} : c.isLower = true ∨ c.isDigit = true ↔
    (97 ≤ c.toNat ∧ c.toNat ≤ 122) ∨ (48 ≤ c.toNat ∧ c.toNat ≤ 57) := by
  rw [isLower_iff, isDigit_iff]

theorem isAlphanumeric_eq (c : Char) : isAlphanumeric c = c.isAlphanum := by
  have hranges : isAlphanumeric c = true ↔ ((48 ≤ c.toNat ∧ c.toNat ≤ 57) ∨
      (97 ≤ c.toNat ∧ c.toNat ≤ 122)) ∨ (65 ≤ c.toNat ∧ c.toNat ≤ 90) := by
    simp only [isAlphanumeric, Text.isDigit, Bool.or_eq_true, Bool.and_eq_true, decide_eq_true_eq]
    exact Iff.rfl
  rw [Bool.eq_iff_iff, hranges, isAlphanum_iff]
  omega

theorem toNat_toLower (c : Char) :
    c.toLower.toNat = if 65 ≤ c.toNat ∧ c.toNat ≤ 90 then c.toNat + 32 else c.toNat := by
  have hupper : ('A' ≤ c ∧ c ≤ 'Z') ↔ 65 ≤ c.toNat ∧ c.toNat ≤ 90 := Iff.rfl
  rw [← lower_eq, lower]
  simp only [hupper]
  split
  · have hvalid : (c.toNat + 32).isValidChar := Or.inl (by omega)
    rw [Char.ofNat, dif_pos hvalid]
    rfl
  · rfl

theorem isBlank_of_isAlphanum {c : Char} (h : c.isAlphanum = true) : Text.isBlank c = false := by
  rw [isAlphanum_iff] at h
  simp only [Text.isBlank, Bool.or_eq_false_iff, Bool.and_eq_false_iff, beq_eq_false_iff_ne,
    decide_eq_false_iff_not]
  omega

/-! ## What formats stand for -/

/-- One to ten ASCII letters and digits, all in lower case. -/
structure IsExtension (f : String) : Prop where
  ne_empty : f ≠ ""
  length_le : f.length ≤ 10
  chars : ∀ c ∈ f.toList, c.isLower = true ∨ c.isDigit = true

/-- The extension that a format stands for; any other format stands for none. -/
inductive StandsFor : Option String → String → Prop
  | absent : StandsFor none "mp3"
  | blank {text : String} : Text.Trimmed text.toList [] → StandsFor (some text) "mp3"
  | given {text core : String} : Text.Trimmed text.toList core.toList → core ≠ "" →
      core.length ≤ 10 → (∀ c ∈ core.toList, c.isAlphanum = true) →
      StandsFor (some text) core.toLower

theorem check_some (text : String) :
    check (some text) =
      if Text.trim text = "" then .ok "mp3"
      else if (Text.trim text).length ≤ 10 ∧ (Text.trim text).toList.all Char.isAlphanum = true then
        .ok (Text.trim text).toLower
      else .error (refusal (Text.trim text)) := by
  have hgood : (longest < (Text.trim text).utf8ByteSize ∨
      !(Text.trim text).toList.all isAlphanumeric) ↔
      ¬ ((Text.trim text).length ≤ 10 ∧ (Text.trim text).toList.all Char.isAlphanum = true) := by
    rw [funext isAlphanumeric_eq, Bool.not_eq_true']
    by_cases hall : (Text.trim text).toList.all Char.isAlphanum = true
    · -- The limit is one of bytes, and these are all of one byte.
      have hascii : ∀ c ∈ (Text.trim text).toList, c.toNat ≤ 127 := by
        intro c hc
        have hrange := isAlphanum_iff.mp (List.all_eq_true.mp hall c hc)
        omega
      rw [Text.utf8ByteSize_eq_length hascii, longest]
      simp only [hall, and_true, Bool.true_eq_false, or_false, Nat.not_le]
    · exact iff_of_true (Or.inr (Bool.not_eq_true _ ▸ hall)) fun h => hall h.2
  simp only [check, standard, hgood, ofList_map_lower, ite_not]

theorem trimmed_trim (text : String) : Text.Trimmed text.toList (Text.trim text).toList := by
  rw [Text.trim, String.toList_ofList]
  exact Text.trimChars_eq_iff.mp rfl

theorem trim_eq {text core : String} (h : Text.Trimmed text.toList core.toList) :
    Text.trim text = core := by
  rw [Text.trim, Text.trimChars_eq_iff.mpr h, String.ofList_toList]

theorem check_eq_ok_iff {format : Option String} {f : String} :
    check format = .ok f ↔ StandsFor format f := by
  constructor
  · intro h
    cases format with
    | none =>
      cases h
      exact .absent
    | some text =>
      have htrimmed := trimmed_trim text
      rw [check_some] at h
      by_cases hblank : Text.trim text = ""
      · rw [if_pos hblank] at h
        rw [hblank] at htrimmed
        cases h
        exact .blank htrimmed
      · rw [if_neg hblank] at h
        split at h
        · next hgood =>
          cases h
          exact .given htrimmed hblank hgood.1 (List.all_eq_true.mp hgood.2)
        · cases h
  · intro h
    cases h with
    | absent => rfl
    | @blank text htrimmed =>
      have hblank : Text.trim text = "" := trim_eq htrimmed
      rw [check_some, if_pos hblank]
    | given htrimmed hne hlength hall =>
      rw [check_some, trim_eq htrimmed, if_neg hne, if_pos ⟨hlength, List.all_eq_true.mpr hall⟩]

theorem StandsFor.isExtension {format : Option String} {f : String} (h : StandsFor format f) :
    IsExtension f := by
  have hstandard : IsExtension "mp3" := ⟨by decide, by decide, by simp⟩
  cases h with
  | absent => exact hstandard
  | blank _ => exact hstandard
  | @given text core _ hne hlength hall =>
    have hlower : core.toLower = core.map Char.toLower := rfl
    rw [hlower]
    refine ⟨by simpa using hne, by simpa using hlength, fun c hc => ?_⟩
    rw [String.toList_map] at hc
    obtain ⟨d, hd, rfl⟩ := List.mem_map.mp hc
    have hrange := isAlphanum_iff.mp (hall d hd)
    rw [isLower_or_isDigit_iff, toNat_toLower]
    split <;> omega

/-- An extension stands for itself. -/
theorem IsExtension.standsFor {f : String} (h : IsExtension f) : StandsFor (some f) f := by
  have hranges : ∀ c ∈ f.toList, _ := fun c hc => isLower_or_isDigit_iff.mp (h.chars c hc)
  have hall : ∀ c ∈ f.toList, c.isAlphanum = true :=
    fun c hc => isAlphanum_iff.mpr (Or.inr (hranges c hc))
  have hbare : Text.Bare f.toList :=
    Text.bare_of_visible fun c hc => isBlank_of_isAlphanum (hall c hc)
  have hsame : f.toLower = f := by
    rw [← ofList_map_lower, List.map_congr_left (g := id), List.map_id, String.ofList_toList]
    intro c hc
    have hrange := hranges c hc
    have hnot : ¬ ('A' ≤ c ∧ c ≤ 'Z') := by
      rintro ⟨hlow : 65 ≤ c.toNat, hhigh : c.toNat ≤ 90⟩
      omega
    exact if_neg hnot
  have hgiven := StandsFor.given hbare.trimmed h.ne_empty h.length_le hall
  rwa [hsame] at hgiven

end AudioFormat

/-! ## Entries of a directory -/

namespace Host

/-- Where one more name of a path leads from a place, which is the names on the way down to it. -/
def enter (place : List String) (name : String) : List String :=
  if name = "" ∨ name = "." then place
  else if name = ".." then place.dropLast
  else place ++ [name]

def locate (place : List String) (path : String) : List String :=
  (Text.split '/' path).foldl enter place

/-- One component of a path that a file can have for its name. -/
structure IsEntry (name : String) : Prop where
  ne_empty : name ≠ ""
  ne_here : name ≠ "."
  ne_up : name ≠ ".."
  slash : '/' ∉ name.toList
  nul : hasNul name = false
  size_le : name.utf8ByteSize ≤ longestName

theorem locate_slash {name : String} (h : '/' ∉ name.toList) (place : List String) (dir : String) :
    locate place (dir ++ "/" ++ name) = enter (locate place dir) name := by
  have hpath : (dir ++ "/" ++ name).toList = dir.toList ++ '/' :: name.toList := by simp
  have hparts : Text.split '/' (dir ++ "/" ++ name) = Text.split '/' dir ++ [name] := by
    rw [Text.split, hpath, Text.splitChars_append, Text.splitChars_of_not_mem h, List.map_append,
      List.map_singleton, String.ofList_toList, Text.split]
  rw [locate, hparts, List.foldl_append, List.foldl_cons, List.foldl_nil, locate]

/-- An entry of a directory lies there, wherever the directory is. -/
theorem locate_joinPath {name : String} (h : IsEntry name) (place : List String) (dir : String) :
    locate place (joinPath dir name) = locate place dir ++ [name] := by
  have hdown : ∀ here, enter here name = here ++ [name] := by
    intro here
    rw [enter, if_neg (not_or.mpr ⟨h.ne_empty, h.ne_here⟩), if_neg h.ne_up]
  unfold joinPath
  split
  · next hslash =>
    rw [show dir.endsWith "/" = dir.toSlice.endsWith "/" from rfl,
      String.Slice.endsWith_string_iff, String.copy_toSlice] at hslash
    obtain ⟨front, hfront⟩ := hslash
    obtain rfl : String.ofList front ++ "/" = dir := by
      rw [String.ext_iff, String.toList_append, String.toList_ofList, hfront]
    have hhere : locate place (String.ofList front ++ "/") = locate place (String.ofList front) := by
      have hempty : '/' ∉ "".toList := List.not_mem_nil
      have hnothing := locate_slash hempty place (String.ofList front)
      rwa [String.append_empty, enter, if_pos (Or.inl rfl)] at hnothing
    rw [locate_slash h.slash, hdown, hhere]
  · rw [locate_slash h.slash, hdown]

end Host

namespace Session

open AudioFormat (IsExtension StandsFor)

theorem mem_fileName {c : PlaySetup} {port : Port} {r : Request} (htag : IsTag (c.host.tag r.id))
    (hformat : IsExtension r.format) {x : Char} (hx : x ∈ (fileName c port r).toList) :
    x.isAlphanum = true ∨ x = '_' ∨ x = '.' := by
  rw [toList_fileName] at hx
  simp only [List.mem_append] at hx
  rcases hx with ((((hx | hx) | hx) | hx) | hx) | hx
  · have hall : ("audio_".toList.all fun x => x.isAlphanum || x == '_') = true := by decide
    have hprefix := List.all_eq_true.mp hall x hx
    rw [Bool.or_eq_true, beq_iff_eq] at hprefix
    exact hprefix.imp_right Or.inl
  · have hdigit : x.isDigit = true := Text.isDigit_of_mem_digits hx
    exact Or.inl (by rw [Char.isAlphanum, hdigit, Bool.or_true])
  · exact Or.inr (Or.inl (by simpa using hx))
  · exact Or.inl (AudioFormat.isAlphanumeric_eq x ▸ htag.2 x hx)
  · exact Or.inr (Or.inr (by simpa using hx))
  · have hrange := AudioFormat.isLower_or_isDigit_iff.mp (hformat.chars x hx)
    exact Or.inl (AudioFormat.isAlphanum_iff.mpr (Or.inr hrange))

theorem length_fileName {c : PlaySetup} {port : Port} {r : Request}
    (htag : IsTag (c.host.tag r.id)) (hformat : IsExtension r.format) :
    8 < (fileName c port r).length ∧ (fileName c port r).length ≤ 29 := by
  have hport : (Nat.toDigits 10 port.toNat).length ≤ 5 :=
    (Nat.length_toDigits_le_iff (by decide) (by decide)).mpr
      (Nat.lt_of_lt_of_le port.toNat_lt (by decide))
  have htaglength := htag.1
  have hlength := hformat.length_le
  rw [← String.length_toList] at htaglength hlength ⊢
  rw [toList_fileName]
  simp only [List.length_append, htaglength]
  have hfixed : "audio_".toList.length = 6 ∧ "_".toList.length = 1 ∧ ".".toList.length = 1 := by
    decide
  omega

/-- A file named after an extension is an entry of the directory it is put into. -/
theorem isEntry_fileName {c : PlaySetup} {port : Port} {r : Request}
    (htag : IsTag (c.host.tag r.id)) (hformat : IsExtension r.format) :
    Host.IsEntry (fileName c port r) := by
  have hchars : ∀ x ∈ (fileName c port r).toList, x.isAlphanum = true ∨ x = '_' ∨ x = '.' :=
    fun x hx => mem_fileName htag hformat hx
  obtain ⟨hlong, hshort⟩ : 8 < (fileName c port r).length ∧ (fileName c port r).length ≤ 29 :=
    length_fileName htag hformat
  have hascii : ∀ x ∈ (fileName c port r).toList, x.toNat ≤ 127 := by
    intro x hx
    rcases hchars x hx with halnum | rfl | rfl
    · have hrange := AudioFormat.isAlphanum_iff.mp halnum
      omega
    · decide
    · decide
  -- The names with a meaning of their own are all shorter.
  have hne : ∀ name : String, name.length ≤ 2 → fileName c port r ≠ name := by
    rintro name hname rfl
    omega
  refine ⟨hne "" (by decide), hne "." (by decide), hne ".." (by decide), fun hmem => ?_, ?_, ?_⟩
  · exact absurd (hchars _ hmem) (by decide)
  · rw [Host.hasNul, ← Bool.not_eq_true, List.contains_iff_mem]
    exact fun hmem => absurd (hchars _ hmem) (by decide)
  · rw [Text.utf8ByteSize_eq_length hascii, Host.longestName]
    omega

end Session

namespace AudioFormat

/-- The check returns what a format stands for and refuses a format that stands for nothing. What it
returns is in lower case, is returned for itself, and makes names of files that are entries of
whatever directory they are put into. -/
theorem check_exact (format : Option String) (f : String) :
    (check format = .ok f ↔ StandsFor format f) ∧
    (check format = .ok f →
      IsExtension f ∧ check (some f) = .ok f ∧
      ∀ (c : PlaySetup) (port : Port) (r : Request),
        r.format = f → Session.IsTag (c.host.tag r.id) →
        Host.IsEntry (Session.fileName c port r) ∧
        ∀ place dir, Host.locate place (Host.joinPath dir (Session.fileName c port r)) =
          Host.locate place dir ++ [Session.fileName c port r]) := by
  constructor
  · exact check_eq_ok_iff
  · intro hok
    have hextension := (check_eq_ok_iff.mp hok).isExtension
    refine ⟨hextension, check_eq_ok_iff.mpr hextension.standsFor, ?_⟩
    rintro c port r rfl htag
    have hentry : Host.IsEntry (Session.fileName c port r) :=
      Session.isEntry_fileName htag hextension
    exact ⟨hentry, Host.locate_joinPath hentry⟩

theorem check_exact_spaced :
    check (some "\u2003WaV\n") = .ok "wav" ∧ check (some "wav") = .ok "wav" ∧
      Host.locate ["srv", "run"] (Host.joinPath "../tmp/" "audio_65535_aaaaaa.wav") =
        ["srv", "tmp", "audio_65535_aaaaaa.wav"] := by
  have hok : check (some "\u2003WaV\n") = .ok "wav" := by decide +kernel
  obtain ⟨-, haccepted⟩ := check_exact (some "\u2003WaV\n") "wav"
  obtain ⟨-, hagain, hfiles⟩ := haccepted hok
  have hname : Session.fileName {} 65535 ⟨default, .empty, "wav"⟩ = "audio_65535_aaaaaa.wav" := by
    decide +kernel
  have hplace := (hfiles {} 65535 ⟨default, .empty, "wav"⟩ rfl (by decide +kernel)).2
    ["srv", "run"] "../tmp/"
  rw [hname] at hplace
  exact ⟨hok, hagain, hplace.trans (by decide +kernel)⟩

end AudioFormat

end RtpBroker
