import RtpBroker.LogFilter
import RtpBroker.Proofs.Texts
import RtpBroker.Text.Blank

/-!
# Log filters

The texts of the directives are given by a grammar of their own, and a log filter is valid exactly
if it is some of these texts with commas between them.
-/

namespace RtpBroker.LogFilter

/-! ## The grammar -/

def levelWords : List String := ["trace", "debug", "info", "warn", "error"]

/-- The word of a level, alone or behind a target and an equals sign. -/
inductive DirectiveText : String → Prop
  | level {word : String} : word ∈ levelWords → DirectiveText word
  | targeted {target word : String} : target ≠ "" → ',' ∉ target.toList → '=' ∉ target.toList →
      word ∈ levelWords → DirectiveText (target ++ "=" ++ word)

/-- One directive or more, with commas between them. -/
def FilterText (s : String) : Prop :=
  ∃ ds : List String, ds ≠ [] ∧ (∀ d ∈ ds, DirectiveText d) ∧ ",".intercalate ds = s

/-- Nothing at all, two equals signs, or blanks around the word of a level. -/
inductive Flawed : String → Prop
  | empty : Flawed ""
  | equals (a b c : String) : Flawed (a ++ "=" ++ b ++ "=" ++ c)
  | spaced {front before word after : String} : (front = "" ∨ ∃ target, front = target ++ "=") →
      word ∈ levelWords → before ++ after ≠ "" →
      (∀ c ∈ (before ++ after).toList, Text.isBlank c = true) →
      Flawed (front ++ (before ++ word ++ after))

/-! ## One directive -/

theorem isSome_ofName? (word : String) :
    (Level.ofName? word.toList).isSome = true ↔ word ∈ levelWords := by
  have hwords : levelWords = Level.all.map Level.name := rfl
  simp only [Level.ofName?, List.find?_isSome, beq_iff_eq, String.toList_inj, hwords, List.mem_map]

theorem chars_of_mem_levelWords {word : String} (h : word ∈ levelWords) :
    word ≠ "" ∧ ∀ c ∈ word.toList, c ≠ ',' ∧ c ≠ '=' ∧ Text.isBlank c = false := by
  have hall : (levelWords.all fun word => word != "" &&
      word.toList.all fun c => c != ',' && c != '=' && !Text.isBlank c) = true := by decide
  simpa [and_assoc] using List.all_eq_true.mp hall word h

theorem equals_not_mem_levelWord {word : String} (h : word ∈ levelWords) : '=' ∉ word.toList :=
  fun hmem => ((chars_of_mem_levelWords h).2 _ hmem).2.1 rfl

/-- The first equals sign of a text, if there is one, ends its target. -/
theorem target_cases (d : String) : '=' ∉ d.toList ∨
    ∃ target rest : String, '=' ∉ target.toList ∧ d = target ++ "=" ++ rest := by
  by_cases hmem : '=' ∈ d.toList
  · obtain ⟨front, rest, hsplit, hfront⟩ := List.eq_append_cons_of_mem hmem
    refine Or.inr ⟨String.ofList front, String.ofList rest, by simpa using hfront, ?_⟩
    rw [← String.toList_inj, hsplit]
    simp
  · exact Or.inl hmem

theorem dropWhile_ne_equals {cs : List Char} (h : '=' ∉ cs) (rest : List Char) :
    (cs ++ rest).dropWhile (· != '=') = rest.dropWhile (· != '=') := by
  apply List.dropWhile_append_of_pos
  intro c hc
  exact bne_iff_ne.mpr (ne_of_mem_of_not_mem hc h)

theorem isDirective_level {d : String} (h : '=' ∉ d.toList) :
    isDirective d.toList = true ↔ d ∈ levelWords := by
  have hdrop : d.toList.dropWhile (· != '=') = [] := by
    rw [← List.append_nil d.toList, dropWhile_ne_equals h, List.dropWhile_nil]
  rw [isDirective, directive?, hdrop, Option.isSome_map, isSome_ofName?]

theorem isDirective_targeted {target : String} (h : '=' ∉ target.toList) (rest : String) :
    isDirective (target ++ "=" ++ rest).toList = true ↔ target ≠ "" ∧ rest ∈ levelWords := by
  have hchars : (target ++ "=" ++ rest).toList = target.toList ++ '=' :: rest.toList := by simp
  have hdrop : (target.toList ++ '=' :: rest.toList).dropWhile (· != '=') = '=' :: rest.toList := by
    rw [dropWhile_ne_equals h]
    rfl
  have hhead : (target.toList ++ '=' :: rest.toList).head? = some '=' ↔ target = "" := by
    cases hcs : target.toList with
    | nil => simpa using String.toList_eq_nil_iff.mp hcs
    | cons c cs =>
      rw [hcs] at h
      have hne : c ≠ '=' := by
        rintro rfl
        exact h List.mem_cons_self
      have htarget : target ≠ "" := by
        rintro rfl
        cases hcs
      simpa [hne] using htarget
  rw [isDirective, hchars, directive?, hdrop]
  simp only [hhead]
  split
  · next hempty => simp [hempty]
  · next hne => rw [Option.isSome_map, isSome_ofName?, and_iff_right hne]

/-- Behind an equals sign only the word of a level makes a directive. -/
theorem word_of_isDirective {front rest : String}
    (h : isDirective (front ++ "=" ++ rest).toList = true) : rest ∈ levelWords := by
  rcases target_cases front with hnone | ⟨target, middle, htarget, rfl⟩
  · exact ((isDirective_targeted hnone rest).mp h).2
  · have hassoc : target ++ "=" ++ middle ++ "=" ++ rest =
        target ++ "=" ++ (middle ++ "=" ++ rest) := by simp only [String.append_assoc]
    rw [hassoc] at h
    have hword := ((isDirective_targeted htarget _).mp h).2
    exact absurd (by simp) (equals_not_mem_levelWord hword)

theorem DirectiveText.comma_not_mem {d : String} (h : DirectiveText d) : ',' ∉ d.toList := by
  have hword {word : String} (h : word ∈ levelWords) : ',' ∉ word.toList :=
    fun hmem => ((chars_of_mem_levelWords h).2 _ hmem).1 rfl
  cases h with
  | level h => exact hword h
  | targeted _ hcomma _ h => simpa [hcomma] using hword h

theorem isDirective_iff {d : String} (h : ',' ∉ d.toList) :
    isDirective d.toList = true ↔ DirectiveText d := by
  constructor
  · intro hd
    rcases target_cases d with hnone | ⟨target, rest, htarget, rfl⟩
    · exact .level ((isDirective_level hnone).mp hd)
    · obtain ⟨hne, hword⟩ := (isDirective_targeted htarget rest).mp hd
      have hcomma : ',' ∉ target.toList := fun hmem => h (by simp [hmem])
      exact .targeted hne hcomma htarget hword
  · intro hd
    cases hd with
    | level hword => exact (isDirective_level (equals_not_mem_levelWord hword)).mpr hword
    | targeted hne _ htarget hword => exact (isDirective_targeted htarget _).mpr ⟨hne, hword⟩

theorem Flawed.not_isDirective {d : String} (h : Flawed d) : isDirective d.toList = false := by
  rw [← Bool.not_eq_true]
  intro hd
  cases h with
  | empty => exact absurd hd (by decide)
  | equals a b c =>
    have hassoc : a ++ "=" ++ b ++ "=" ++ c = a ++ "=" ++ (b ++ "=" ++ c) := by
      simp only [String.append_assoc]
    rw [hassoc] at hd
    exact absurd (by simp) (equals_not_mem_levelWord (word_of_isDirective hd))
  | @spaced front before word after hfront hword hne hblank =>
    have hequals : '=' ∉ (before ++ word ++ after).toList := by
      have haround : '=' ∉ (before ++ after).toList :=
        fun hmem => absurd (hblank _ hmem) (by decide)
      rw [String.toList_append, List.mem_append, not_or] at haround
      simpa [haround] using equals_not_mem_levelWord hword
    have hlevel : before ++ word ++ after ∈ levelWords := by
      rcases hfront with rfl | ⟨target, rfl⟩
      · rw [String.empty_append] at hd
        exact (isDirective_level hequals).mp hd
      · exact word_of_isDirective hd
    obtain ⟨c, hc⟩ := List.exists_mem_of_ne_nil _ (mt String.toList_eq_nil_iff.mp hne)
    have hmem : c ∈ (before ++ word ++ after).toList := by
      simp only [String.toList_append, List.mem_append] at hc ⊢
      exact hc.imp_left Or.inl
    obtain ⟨-, -, hvisible⟩ := (chars_of_mem_levelWords hlevel).2 c hmem
    exact absurd (hblank c hc) (by rw [hvisible]; decide)

/-! ## Lists of directives -/

theorem isValid_eq (s : String) : isValid s = (Text.splitChars ',' s.toList).all isDirective := by
  by_cases hempty : s = ""
  · subst hempty
    rfl
  · rw [isValid, bne_iff_ne.mpr hempty, Bool.true_and]

theorem isValid_single {d : String} (h : ',' ∉ d.toList) : isValid d = isDirective d.toList := by
  rw [isValid_eq, Text.splitChars_of_not_mem h, List.all_cons, List.all_nil, Bool.and_true]

theorem isValid_join (a b : String) : isValid (a ++ "," ++ b) = (isValid a && isValid b) := by
  have hchars : (a ++ "," ++ b).toList = a.toList ++ ',' :: b.toList := by simp
  rw [isValid_eq, hchars, Text.splitChars_append, List.all_append, ← isValid_eq, ← isValid_eq]

theorem isValid_intercalate {ds : List String} (h : ds ≠ []) :
    isValid (",".intercalate ds) = ds.all isValid := by
  induction ds with
  | nil => exact absurd rfl h
  | cons d ds ih =>
    by_cases hlast : ds = []
    · subst hlast
      rw [String.intercalate_singleton, List.all_cons, List.all_nil, Bool.and_true]
    · rw [String.intercalate_cons_of_ne_nil hlast, isValid_join, ih hlast, List.all_cons]

theorem isValid_iff (s : String) : isValid s = true ↔ FilterText s := by
  constructor
  · intro hvalid
    have hne : Text.split ',' s ≠ [] := by
      simp [Text.split, Text.splitChars_eq_splitOn]
    refine ⟨Text.split ',' s, hne, fun d hd => ?_, Text.intercalate_split ',' s⟩
    obtain ⟨part, hpart, rfl⟩ := List.mem_map.mp hd
    rw [isValid_eq, List.all_eq_true] at hvalid
    have hcomma := Text.not_mem_of_mem_splitChars hpart
    rw [← String.toList_ofList (l := part)] at hcomma
    apply (isDirective_iff hcomma).mp
    rw [String.toList_ofList]
    exact hvalid part hpart
  · rintro ⟨ds, hne, hall, rfl⟩
    rw [isValid_intercalate hne, List.all_eq_true]
    intro d hd
    have hcomma := (hall d hd).comma_not_mem
    rw [isValid_single hcomma]
    exact (isDirective_iff hcomma).mpr (hall d hd)

/-- The valid filters are those of the grammar. Two of them can be joined and taken apart again, and
no list with a flawed part in it is one. -/
theorem isValid_exact (s : String) :
    (isValid s = true ↔ FilterText s) ∧
    (∀ a b : String, isValid (a ++ "," ++ b) = true ↔ isValid a = true ∧ isValid b = true) ∧
    (∀ ds : List String, ",".intercalate ds = s →
      ∀ d ∈ ds, ',' ∉ d.toList → Flawed d → isValid s = false) := by
  refine ⟨isValid_iff s, fun a b => ?_, ?_⟩
  · rw [isValid_join, Bool.and_eq_true]
  · rintro ds rfl d hd hcomma hflawed
    rw [isValid_intercalate (List.ne_nil_of_mem hd), List.all_eq_false]
    refine ⟨d, hd, ?_⟩
    rw [isValid_single hcomma, hflawed.not_isDirective]
    decide

theorem isValid_exact_joined :
    isValid ("warn" ++ "," ++ "rtp=trace") = true ∧ isValid "warn,rtp= trace" = false := by
  have hjoin := (isValid_exact "").2.1 "warn" "rtp=trace"
  have hwarn : FilterText "warn" :=
    ⟨["warn"], by decide, List.forall_mem_singleton.mpr (.level (by decide)), rfl⟩
  have htarget : DirectiveText ("rtp" ++ "=" ++ "trace") :=
    .targeted (by decide) (by decide) (by decide) (by decide)
  have hrtp : FilterText "rtp=trace" :=
    ⟨["rtp=trace"], by decide, List.forall_mem_singleton.mpr htarget, rfl⟩
  have hflawed : Flawed ("rtp=" ++ (" " ++ "trace" ++ "")) :=
    .spaced (Or.inr ⟨"rtp", rfl⟩) (by decide) (by decide) (List.all_eq_true.mp (by decide))
  exact ⟨hjoin.mpr ⟨(isValid_exact "warn").1.mpr hwarn, (isValid_exact "rtp=trace").1.mpr hrtp⟩,
    (isValid_exact "warn,rtp= trace").2.2 ["warn", "rtp= trace"] rfl "rtp= trace" (by decide)
      (by decide) hflawed⟩

end RtpBroker.LogFilter
