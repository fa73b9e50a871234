/-
Settings that are not taken, and what is said of them (`load_options`, `main`).

What cannot be converted and what is out of its range is noted among the validation errors,
which `main` turns into incomplete findings.  A profile that does not exist is passed over with
no more than a line in the log; and a text in which an option stands under two spellings is
applied in the order of the first of each, so that the last setting need not be the one that
counts.
-/
import PcCheck.LoadOptions
import PcCheck.Calls
import PcCheck.Kmsg

namespace PcCheck

/-! ## What `main` says -/

def configCall (now problem : String) : AddCall :=
  { key := "config:" ++ problem, severity := .warn, component := "Test",
    title := "Invalid test configuration: " ++ problem, incomplete := true, now := now }

/-- The findings of `main` on the options of a session that it has opened. -/
def configCalls (now : String) (o : Options) : List AddCall :=
  o.validationErrors.map (configCall now)

/-- The options are not accepted in silence: the machine cannot pass, whatever is found after. -/
def Noted (o : Options) : Prop :=
  o.validationErrors ≠ [] ∧
    ∀ (fs : Findings) (now : String) (later : List Call) (incomplete : Bool),
      Kmsg.Incomplete (fs.addAll (configCalls now o)) ∧
        verdict (later.foldl Kmsg.applyCall (fs.addAll (configCalls now o))) incomplete ≠ .pass ∧
        verdict (later.foldl Kmsg.applyCall (fs.addAll (configCalls now o))) incomplete ≠
          .passWithWarnings

theorem noted_iff {o : Options} : Noted o ↔ o.validationErrors ≠ [] := by
  refine ⟨And.left, fun h => ⟨h, fun fs now later incomplete => ?_⟩⟩
  obtain ⟨problem, hproblem⟩ := List.exists_mem_of_ne_nil _ h
  have hcall : configCall now problem ∈ configCalls now o := List.mem_map_of_mem hproblem
  have hlack : Kmsg.Incomplete (fs.addAll (configCalls now o)) :=
    (Findings.has_addAll Findings.kept_incomplete).mpr (Or.inr ⟨_, hcall, rfl⟩)
  exact ⟨hlack, Kmsg.verdict_of_incomplete
    ((Kmsg.incomplete_foldl later _).mpr (Or.inl hlack)) incomplete⟩

/-! ## The settings supplied -/

/-- The settings in the order of the texts. -/
def supplied (conf : Option String) (cmdline : String) : List (String × String) :=
  conf.elim [] confSettings ++ cmdlineSettings cmdline

def valueFor (f : Field) (setting : String × String) : Option String :=
  if fieldOf setting = some f then some setting.2 else none

/-- The last text that is given for an option. -/
def lastValue (f : Field) (settings : List (String × String)) : Option String :=
  (settings.filterMap (valueFor f)).getLast?

/-- The profile, the options with a range and those with allowed values. -/
def covered : List Field := .text .profile :: Field.checked

/-- A value given last that is not the one loaded does not stay unsaid. -/
def NeverSilent (t : DigitTable) (conf : Option String) (cmdline : String) : Prop :=
  ∃ o, loadOptions t conf cmdline = .ok o ∧
    ∀ f ∈ covered, ∀ v, lastValue f (supplied conf cmdline) = some v →
      convert t f v ≠ .ok (o.get f) → Noted o

/-- Some setting that is applied cannot be converted, or the last one of some option that can
is out of its range. -/
def Complains (t : DigitTable) (settings : List (String × String)) : Prop :=
  (∃ s ∈ settings, ∃ f x, fieldOf s = some f ∧ convert t f s.2 = .error x) ∨
    ∃ f ∈ Field.checked, ∃ v, lastReading t f settings = some v ∧ f.admits v = false

/-- What is given last is what is applied last, and the profile exists. -/
def Straight (t : DigitTable) (conf : Option String) (cmdline : String) : Prop :=
  ∀ f ∈ covered, ∀ v w, lastValue f (supplied conf cmdline) = some v →
    lastValue f (applied conf cmdline) = some w →
    reading t f v = reading t f w ∧ (f = .text .profile → IsProfile (strip v))

/-! ## What is noted -/

section Noting

variable {t : DigitTable} {conf : Option String} {cmdline : String} {o : Options} {f : Field}

theorem complaint_ne_nil_iff (s : String × String) :
    complaint t s ≠ [] ↔ ∃ f x, fieldOf s = some f ∧ convert t f s.2 = .error x := by
  unfold complaint
  cases hfield : fieldOf s with
  | none => simp
  | some f =>
    cases hconv : convert t f s.2 with
    | error x => simp [hconv]
    | ok v => simp [hconv]

theorem problems_ne_nil_iff (o : Options) (fields : List Field) :
    problems o fields ≠ [] ↔ ∃ f ∈ fields, f.admits (o.get f) = false := by
  unfold problems
  simp [List.filter_eq_nil_iff]

/-- Before the checks an option is admitted exactly when the last that was read is. -/
theorem admits_unchecked : f.admits ((unchecked t conf cmdline).get f) = false ↔
    ∃ v, lastReading t f (applied conf cmdline) = some v ∧ f.admits v = false := by
  rw [unchecked_get]
  cases lastReading t f (applied conf cmdline) with
  | none => simp [admits_default f]
  | some v => simp

/-- The options are noted exactly when a setting that is applied gives cause to. -/
theorem noted_iff_complains (h : loadOptions t conf cmdline = .ok o) :
    Noted o ↔ Complains t (applied conf cmdline) := by
  obtain ⟨-, -, herrors⟩ := loadOptions_spec h
  rw [noted_iff, herrors, ne_eq, List.append_eq_nil_iff, not_and_or]
  refine or_congr ?_ ?_
  · simp only [List.flatMap_eq_nil_iff, not_forall, exists_prop]
    exact exists_congr fun s => and_congr_right fun _ => complaint_ne_nil_iff s
  · rw [← ne_eq, problems_ne_nil_iff]
    exact exists_congr fun f => and_congr_right fun _ => admits_unchecked

/-! ## What is applied last -/

theorem valueFor_eq_some {s : String × String} {v : String} :
    valueFor f s = some v ↔ fieldOf s = some f ∧ s.2 = v := by
  unfold valueFor
  rw [Option.ite_none_right_eq_some, Option.some_inj]

theorem lastValue_isSome {settings : List (String × String)} :
    (lastValue f settings).isSome = true ↔ ∃ s ∈ settings, fieldOf s = some f := by
  unfold lastValue
  rw [List.getLast?_isSome]
  constructor
  · intro hne
    obtain ⟨v, hv⟩ := List.exists_mem_of_ne_nil _ hne
    obtain ⟨s, hs, hval⟩ := List.mem_filterMap.mp hv
    exact ⟨s, hs, (valueFor_eq_some.mp hval).1⟩
  · rintro ⟨s, hs, hfield⟩
    exact List.ne_nil_of_mem
      (List.mem_filterMap.mpr ⟨s, hs, valueFor_eq_some.mpr ⟨hfield, rfl⟩⟩)

/-- A map built from settings is about the options that they are about. -/
theorem field_mem_ofList {settings : List (String × String)} :
    (∃ s ∈ (Dict.ofList settings).entries, fieldOf s = some f) ↔
      ∃ s ∈ settings, fieldOf s = some f := by
  constructor
  · rintro ⟨s, hs, hfield⟩
    exact ⟨s, Dict.mem_of_get?_ofList (Dict.get?_eq_some_iff.mpr hs), hfield⟩
  · rintro ⟨s, hs, hfield⟩
    have hkey : s.1 ∈ settings.map Prod.fst := List.mem_map_of_mem hs
    obtain ⟨v, hv⟩ := Option.isSome_iff_exists.mp (Dict.get?_ofList_isSome.mpr hkey)
    exact ⟨(s.1, v), Dict.get?_eq_some_iff.mp hv, hfield⟩

theorem applied_of_supplied {v : String} (h : lastValue f (supplied conf cmdline) = some v) :
    ∃ w, lastValue f (applied conf cmdline) = some w := by
  have hsome := lastValue_isSome.mp (Option.isSome_iff_exists.mpr ⟨v, h⟩)
  refine Option.isSome_iff_exists.mp (lastValue_isSome.mpr ?_)
  obtain ⟨s, hs, hfield⟩ := hsome
  unfold supplied at hs
  unfold applied
  rcases List.mem_append.mp hs with hconf | hcmd
  · cases conf with
    | none => cases hconf
    | some text =>
      obtain ⟨s', hs', hfield'⟩ := field_mem_ofList.mpr ⟨s, hconf, hfield⟩
      exact ⟨s', List.mem_append_left _ hs', hfield'⟩
  · obtain ⟨s', hs', hfield'⟩ := field_mem_ofList.mpr ⟨s, hcmd, hfield⟩
    exact ⟨s', List.mem_append_right _ hs', hfield'⟩

/-- Where all settings can be converted, an option is set to the last of its texts. -/
theorem lastReading_of_lastValue {settings : List (String × String)} {w : String}
    (hclean : ∀ s ∈ settings, ∀ x, fieldOf s = some f → convert t f s.2 ≠ .error x)
    (h : lastValue f settings = some w) : lastReading t f settings = reading t f w := by
  induction settings using List.reverseRecOn with
  | nil => cases h
  | append_singleton rest s ih =>
    unfold lastValue at h
    unfold lastReading
    rw [List.filterMap_append, List.getLast?_append] at h ⊢
    by_cases hfield : fieldOf s = some f
    · have hval : valueFor f s = some s.2 := valueFor_eq_some.mpr ⟨hfield, rfl⟩
      have heffect : effect t f s = reading t f s.2 := if_pos hfield
      obtain rfl : s.2 = w := by simpa [hval] using h
      cases hconv : convert t f s.2 with
      | error x =>
        exact absurd hconv (hclean s (List.mem_append_right _ List.mem_cons_self) x hfield)
      | ok v =>
        have hread : reading t f s.2 = some (f.settle v) := by
          unfold reading
          rw [hconv]
          rfl
        simp [heffect, hread]
    · have hval : valueFor f s = none := if_neg hfield
      have heffect : effect t f s = none := if_neg hfield
      simp only [List.filterMap_cons, hval, heffect, List.filterMap_nil, List.getLast?_nil,
        Option.none_or] at h ⊢
      exact ih (fun s hs => hclean s (List.mem_append_left _ hs)) h

/-- Where nothing is complained of, each option is what the last of its texts reads as. -/
theorem loaded_of_quiet (h : loadOptions t conf cmdline = .ok o)
    (hquiet : ¬ Complains t (applied conf cmdline)) {w : String}
    (hw : lastValue f (applied conf cmdline) = some w) : reading t f w = some (o.get f) := by
  obtain ⟨hmend, hkeep, -⟩ := loadOptions_spec h
  have hclean : ∀ s ∈ applied conf cmdline, ∀ x, fieldOf s = some f →
      convert t f s.2 ≠ .error x :=
    fun s hs x hfield hx => hquiet (Or.inl ⟨s, hs, f, x, hfield, hx⟩)
  have hlast := lastReading_of_lastValue hclean hw
  obtain ⟨v, hv⟩ : ∃ v, reading t f w = some v := by
    obtain ⟨rest, hsplit⟩ := List.getLast?_eq_some_iff.mp hw
    have hmem : w ∈ (applied conf cmdline).filterMap (valueFor f) :=
      hsplit ▸ List.mem_append_right _ List.mem_cons_self
    obtain ⟨s, hs, hval⟩ := List.mem_filterMap.mp hmem
    obtain ⟨hfield, rfl⟩ := valueFor_eq_some.mp hval
    unfold reading
    cases hconv : convert t f s.2 with
    | error x => exact absurd hconv (hclean s hs x hfield)
    | ok v => exact ⟨_, rfl⟩
  have hget : (unchecked t conf cmdline).get f = v := by
    rw [unchecked_get, hlast, hv]
    rfl
  rw [hv]
  refine congrArg some ?_
  by_cases hcheck : f ∈ Field.checked
  · have hadmits : f.admits v = true := by
      by_contra hnot
      exact hquiet (Or.inr ⟨f, hcheck, v, hlast.trans hv, Bool.not_eq_true _ ▸ hnot⟩)
    rw [hmend f hcheck, hget]
    exact (if_pos hadmits).symm
  · rw [hkeep f hcheck, hget]

theorem convert_eq_iff_of_ne (hf : f ≠ .text .profile) {v : String} {x : f.Value} :
    convert t f v = .ok x ↔ reading t f v = some x := by
  unfold reading
  cases convert t f v with
  | error y => exact iff_of_false nofun nofun
  | ok y =>
    change Except.ok y = Except.ok x ↔ some (f.settle y) = some x
    rw [settle_of_ne hf, Except.ok.injEq, Option.some_inj]

theorem convert_profile_iff {v x : String} (hx : IsProfile x) :
    convert t (.text .profile) v = .ok x ↔
      reading t (.text .profile) v = some x ∧ IsProfile (strip v) := by
  have hread : reading t (.text .profile) v =
      some (if IsProfile (strip v) then strip v else "standard") := rfl
  change Except.ok (strip v) = Except.ok x ↔ _
  rw [hread, Except.ok.injEq, Option.some_inj]
  by_cases hv : IsProfile (strip v)
  · rw [if_pos hv, and_iff_left hv]
  · exact iff_of_false (fun heq => hv (heq ▸ hx)) fun hand => hv hand.2

/-- Where nothing is complained of, the text given last for an option is what it is loaded as
exactly when it reads as the one applied last, and names a profile that exists. -/
theorem loaded_as_iff (h : loadOptions t conf cmdline = .ok o)
    (hquiet : ¬ Complains t (applied conf cmdline)) {v w : String}
    (hw : lastValue f (applied conf cmdline) = some w) :
    convert t f v = .ok (o.get f) ↔
      reading t f v = reading t f w ∧ (f = .text .profile → IsProfile (strip v)) := by
  rw [loaded_of_quiet h hquiet hw]
  by_cases hprofile : f = .text .profile
  · subst hprofile
    exact (convert_profile_iff (inRange_of_load h).profile).trans
      (and_congr_right fun _ => ⟨fun hv _ => hv, fun hv => hv rfl⟩)
  · rw [convert_eq_iff_of_ne hprofile]
    exact (and_iff_left fun heq => absurd heq hprofile).symm

end Noting

/-- No setting is passed over in silence exactly when the options can be loaded and, unless
something is complained of anyway, each is given last what is applied last and the profile
exists. -/
theorem never_silent_iff (t : DigitTable) (conf : Option String) (cmdline : String) :
    NeverSilent t conf cmdline ↔
      Fits t (applied conf cmdline) ∧
        (Complains t (applied conf cmdline) ∨ Straight t conf cmdline) := by
  rw [← loadOptions_returns_iff]
  constructor
  · rintro ⟨o, h, hlaw⟩
    refine ⟨⟨o, h⟩, or_iff_not_imp_left.mpr fun hquiet f hf v w hv hw => ?_⟩
    have hsilent : ¬ Noted o := fun hnoted => hquiet ((noted_iff_complains h).mp hnoted)
    have hvalue : convert t f v = .ok (o.get f) := by
      by_contra hne
      exact hsilent (hlaw f hf v hv hne)
    exact (loaded_as_iff h hquiet hw).mp hvalue
  · rintro ⟨⟨o, h⟩, hcase⟩
    refine ⟨o, h, fun f hf v hv hne => ?_⟩
    by_contra hsilent
    have hquiet : ¬ Complains t (applied conf cmdline) := fun hcomplains =>
      hsilent ((noted_iff_complains h).mpr hcomplains)
    have hstraight := hcase.resolve_left hquiet
    obtain ⟨w, hw⟩ := applied_of_supplied hv
    exact hne ((loaded_as_iff h hquiet hw).mpr (hstraight f hf v w hv hw))

-- The setting of the second spelling is applied last.
example : (loadOptions DigitTable.ascii none
    "pccheck.ce_fail=5 pccheck.ce-fail=6 pccheck.ce_fail=7").toOption.map
      (fun o => (o.ceFail, o.validationErrors)) = some (6, []) := by decide +kernel

/-- A profile that does not exist is the standard one, and nothing is said. -/
theorem unknown_profile_silent :
    ¬ NeverSilent DigitTable.ascii none "pccheck.profile=burn-in" := by
  rintro ⟨o, h, hlaw⟩
  have hprofile : ((loadOptions DigitTable.ascii none "pccheck.profile=burn-in").toOption.map
      fun o => (o.profile, o.validationErrors)) = some ("standard", []) := by decide +kernel
  rw [h] at hprofile
  obtain ⟨hstandard, hnone⟩ := Prod.mk.inj (Option.some.inj hprofile)
  have hlast : lastValue (.text .profile) (supplied none "pccheck.profile=burn-in") =
      some "burn-in" := by decide +kernel
  have hother : convert DigitTable.ascii (.text .profile) "burn-in" ≠
      .ok (o.get (.text .profile)) := by
    intro heq
    have hget : "burn-in" = o.profile := Except.ok.inj heq
    rw [hstandard] at hget
    revert hget
    decide
  exact (hlaw _ List.mem_cons_self _ hlast hother).1 hnone

end PcCheck
