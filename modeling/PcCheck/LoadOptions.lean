/-
When the options are loaded, and what they are then (`load_options`).

Each option ends as the last of its settings that can be converted, or as its default, and the
two passes after that put it back to its default where it is out of range.  The settings are
followed option by option: what one of them does to an option is its `effect`.
-/
import PcCheck.Settings
import PcCheck.FloatRange
import Mathlib.Tactic.NormNum.Inv
import Mathlib.Tactic.NormNum.Ineq

namespace PcCheck

namespace Field

/-- What an option is set to: an unknown profile is the standard one. -/
def settle : (f : Field) → f.Value → f.Value
  | text .profile, v => if IsProfile v then v else "standard"
  | _, v => v

end Field

/-- What a text sets an option to, if it can be converted. -/
def reading (t : DigitTable) (f : Field) (value : String) : Option f.Value :=
  ((convert t f value).toOption).map f.settle

def effect (t : DigitTable) (f : Field) (setting : String × String) : Option f.Value :=
  if fieldOf setting = some f then reading t f setting.2 else none

/-- The problem that is noted when a setting is applied. -/
def complaint (t : DigitTable) (setting : String × String) : List String :=
  match fieldOf setting with
  | none => []
  | some f =>
    match convert t f setting.2 with
    | .error _ => ["Invalid " ++ f.name ++ ": " ++ setting.2]
    | .ok _ => []

/-- What the settings leave an option at, if one of them sets it. -/
def lastReading (t : DigitTable) (f : Field) (settings : List (String × String)) :
    Option f.Value :=
  (settings.filterMap (effect t f)).getLast?

/-- The options are in their documented ranges. -/
structure InRange (o : Options) : Prop where
  hours : ∃ q, o.hours = .finite q ∧ 0 ≤ q ∧ q ≤ 8760
  destructiveCountdown : 0 ≤ o.destructiveCountdown ∧ o.destructiveCountdown ≤ 3600
  rebootCycles : 0 ≤ o.rebootCycles ∧ o.rebootCycles ≤ 50
  maxUnexpectedReboots : 1 ≤ o.maxUnexpectedReboots ∧ o.maxUnexpectedReboots ≤ 50
  cpuTempWarn : ∃ q, o.cpuTempWarn = .finite q ∧ 20 ≤ q ∧ q ≤ 150
  driveTempWarn : ∃ q, o.driveTempWarn = .finite q ∧ 20 ≤ q ∧ q ≤ 150
  slowReadSeconds : ∃ q, o.slowReadSeconds = .finite q ∧ 1 / 1000 ≤ q ∧ q ≤ 3600
  ceFail : 1 ≤ o.ceFail ∧ o.ceFail ≤ 1000000
  mceFail : 1 ≤ o.mceFail ∧ o.mceFail ≤ 1000000
  aerFail : 1 ≤ o.aerFail ∧ o.aerFail ≤ 1000000
  sataLinkFail : 1 ≤ o.sataLinkFail ∧ o.sataLinkFail ≤ 1000000
  destructive : o.destructive ∈ ["0", "1", "yes", "true", "force"]
  rebootMethod : o.rebootMethod ∈ ["auto", "ipmi", "reboot"]
  profile : IsProfile o.profile

/-! ## One setting -/

section Apply

variable {t : DigitTable} {o : Options} {f g : Field}

theorem settle_profile (v : String) :
    (Field.text .profile).settle v = if IsProfile v then v else "standard" := rfl

theorem settle_of_ne (hf : f ≠ .text .profile) (v : f.Value) : f.settle v = v := by
  cases f with
  | text f => cases f <;> first | rfl | exact absurd rfl hf
  | _ => rfl

theorem fallBack_profile (v : String) :
    (o.set (.text .profile) v).fallBack (.text .profile) =
      o.set (.text .profile) (if IsProfile v then v else "standard") := by
  have hprofile : (o.set (.text .profile) v).profile = v := rfl
  unfold Options.fallBack
  rw [hprofile]
  by_cases hv : IsProfile v
  · rw [if_neg fun h => h.2 hv, if_pos hv]
  · rw [if_pos ⟨rfl, hv⟩, if_neg hv]
    rfl

theorem fallBack_get (v : f.Value) : ((o.set f v).fallBack f).get f = f.settle v := by
  by_cases hf : f = .text .profile
  · subst hf
    rw [fallBack_profile]
    exact Options.get_set_self o _ _
  · unfold Options.fallBack
    rw [if_neg fun h => hf h.1, Options.get_set_self, settle_of_ne hf]

theorem fallBack_get_ne (h : g ≠ f) : (o.fallBack f).get g = o.get g := by
  unfold Options.fallBack
  split
  next hf =>
    obtain ⟨rfl, -⟩ := hf
    exact Options.get_set_ne o h "standard"
  · rfl

@[simp] theorem fallBack_errors : (o.fallBack f).validationErrors = o.validationErrors := by
  unfold Options.fallBack
  split <;> rfl

/-- A setting changes the option that it is about, if its text can be converted. -/
theorem apply_get (setting : String × String) :
    (o.apply t setting).get g = (effect t g setting).getD (o.get g) := by
  unfold Options.apply effect reading
  cases hfield : fieldOf setting with
  | none => rfl
  | some f =>
    dsimp only
    by_cases hfg : f = g
    · subst hfg
      rw [if_pos rfl]
      cases convert t f setting.2 with
      | error x => exact Options.get_complain o _ f
      | ok v => exact fallBack_get v
    · rw [if_neg fun h => hfg (Option.some.inj h)]
      cases convert t f setting.2 with
      | error x => exact Options.get_complain o _ g
      | ok v =>
        dsimp only
        rw [fallBack_get_ne (Ne.symm hfg), Options.get_set_ne o (Ne.symm hfg)]
        rfl

theorem apply_errors (setting : String × String) :
    (o.apply t setting).validationErrors = o.validationErrors ++ complaint t setting := by
  unfold Options.apply complaint
  cases fieldOf setting with
  | none => exact (List.append_nil _).symm
  | some f =>
    dsimp only
    cases convert t f setting.2 with
    | error x => rfl
    | ok v =>
      dsimp only
      rw [fallBack_errors, Options.errors_set, List.append_nil]

end Apply

/-! ## All settings -/

theorem getD_getLast?_cons {α : Type} (x : α) (l : List α) (d : α) :
    ((x :: l).getLast?).getD d = (l.getLast?).getD x := by
  rw [List.getLast?_cons]
  rfl

theorem foldl_get (t : DigitTable) (f : Field) (settings : List (String × String)) (o : Options) :
    (settings.foldl (Options.apply t) o).get f = (lastReading t f settings).getD (o.get f) := by
  induction settings generalizing o with
  | nil => rfl
  | cons s rest ih =>
    rw [List.foldl_cons, ih, apply_get]
    unfold lastReading
    rw [List.filterMap_cons]
    cases effect t f s with
    | none => rfl
    | some v => exact (getD_getLast?_cons v _ _).symm

theorem foldl_errors (t : DigitTable) (settings : List (String × String)) (o : Options) :
    (settings.foldl (Options.apply t) o).validationErrors =
      o.validationErrors ++ settings.flatMap (complaint t) := by
  induction settings generalizing o with
  | nil => exact (List.append_nil _).symm
  | cons s rest ih =>
    rw [List.foldl_cons, ih, apply_errors, List.flatMap_cons, List.append_assoc]

/-! ## The checks -/

section Check

variable {o o' : Options} {f g : Field}

theorem isfinite_int {f : IntField} (v : Int) :
    (Field.int f).isfinite v = (PyFloat.ofInt v).map fun _ => true := rfl

theorem admits_float {f : FloatField} (v : PyFloat) : (Field.float f).admits v = true ↔
    (Field.floatBounds f).low.le v = true ∧ v.le (Field.floatBounds f).high = true := by
  show ((Field.floatBounds f).low.le v && v.le (Field.floatBounds f).high) = true ↔ _
  exact Bool.and_eq_true_iff

theorem floatBounds_finite (f : FloatField) :
    ∃ p q, (Field.floatBounds f).low = .finite p ∧ (Field.floatBounds f).high = .finite q ∧
      (f = .slowReadSeconds → 1 / 1000 ≤ p) := by
  cases f with
  | hours => exact ⟨0, 8760, rfl, rfl, nofun⟩
  | cpuTempWarn => exact ⟨20, 150, rfl, rfl, nofun⟩
  | driveTempWarn => exact ⟨20, 150, rfl, rfl, nofun⟩
  | slowReadSeconds =>
    exact ⟨1152921504606847 / 1152921504606846976, 3600, by decide +kernel, rfl,
      fun _ => by norm_num⟩

/-- A float in a range is finite. -/
theorem finite_of_le {p q : ℚ} {v : PyFloat} (hlow : (PyFloat.finite p).le v = true)
    (hhigh : v.le (.finite q) = true) : ∃ r, v = .finite r ∧ p ≤ r ∧ r ≤ q := by
  cases v with
  | finite r =>
    refine ⟨r, rfl, ?_, ?_⟩
    · simp only [PyFloat.le, PyFloat.lt, Bool.or_eq_true, decide_eq_true_eq] at hlow
      rcases hlow with hlt | ⟨heq, -⟩
      · exact hlt.le
      · exact (PyFloat.finite.inj heq).le
    · simp only [PyFloat.le, PyFloat.lt, Bool.or_eq_true, decide_eq_true_eq] at hhigh
      rcases hhigh with hlt | ⟨heq, -⟩
      · exact hlt.le
      · exact (PyFloat.finite.inj heq).le
  | inf n => cases n <;> simp [PyFloat.le, PyFloat.lt] at hlow hhigh
  | nan => simp [PyFloat.le, PyFloat.lt] at hlow

/-- A float that is admitted lies in its range. -/
theorem range_of_admits {f : FloatField} {v : PyFloat} (h : (Field.float f).admits v = true) :
    ∃ p q r, (Field.floatBounds f).low = .finite p ∧ (Field.floatBounds f).high = .finite q ∧
      (f = .slowReadSeconds → 1 / 1000 ≤ p) ∧ v = .finite r ∧ p ≤ r ∧ r ≤ q := by
  obtain ⟨p, q, hp, hq, hslow⟩ := floatBounds_finite f
  obtain ⟨hlow, hhigh⟩ := (admits_float v).mp h
  rw [hp] at hlow
  rw [hq] at hhigh
  obtain ⟨r, hr, hpr, hrq⟩ := finite_of_le hlow hhigh
  exact ⟨p, q, r, hp, hq, hslow, hr, hpr, hrq⟩

/-- A value that is not finite is in no range. -/
theorem finite_of_admits {v : f.Value} {b : Bool} (h : f.isfinite v = .ok b)
    (hv : f.admits v = true) : b = true := by
  cases f with
  | float f =>
    obtain ⟨-, -, r, -, -, -, rfl, -⟩ := range_of_admits hv
    exact (Except.ok.inj h).symm
  | int f =>
    rw [isfinite_int] at h
    cases hint : PyFloat.ofInt v with
    | error x =>
      rw [hint] at h
      cases h
    | ok x =>
      rw [hint] at h
      exact (Except.ok.inj h).symm
  | bool f => exact (Except.ok.inj h).symm
  | text f => exact (Except.ok.inj h).symm
  | skip => exact (Except.ok.inj h).symm

/-- What the checks leave a value at. -/
def Field.mend (f : Field) (v : f.Value) : f.Value :=
  if f.admits v = true then v else ({} : Options).get f

theorem check_of_ok {b : Bool} (h : f.isfinite (o.get f) = .ok b) :
    o.check f = .ok (if f.admits (o.get f) = true then o
      else (o.complain (f.problem (o.get f))).set f (({} : Options).get f)) := by
  unfold Options.check
  rw [h]
  change (if b = true ∧ _ then Except.ok _ else Except.ok _) = _
  by_cases hv : f.admits (o.get f) = true
  · rw [if_pos ⟨finite_of_admits h hv, hv⟩, if_pos hv]
  · rw [if_neg fun hand => hv hand.2, if_neg hv]

theorem check_of_error {x : PyError} (h : f.isfinite (o.get f) = .error x) :
    o.check f = .error x := by
  unfold Options.check
  rw [h]
  rfl

/-- What a check that returns has done. -/
theorem check_spec (h : o.check f = .ok o') :
    (∃ b, f.isfinite (o.get f) = .ok b) ∧ o'.get f = f.mend (o.get f) ∧
      (∀ g, g ≠ f → o'.get g = o.get g) ∧
      o'.validationErrors = o.validationErrors ++
        (if f.admits (o.get f) = true then [] else [f.problem (o.get f)]) := by
  cases hfin : f.isfinite (o.get f) with
  | error x => cases (check_of_error hfin).symm.trans h
  | ok b =>
    obtain rfl := Except.ok.inj ((check_of_ok hfin).symm.trans h)
    refine ⟨⟨b, rfl⟩, ?_⟩
    unfold Field.mend
    by_cases hv : f.admits (o.get f) = true
    · rw [if_pos hv, if_pos hv, if_pos hv]
      exact ⟨rfl, fun _ _ => rfl, (List.append_nil _).symm⟩
    · rw [if_neg hv, if_neg hv, if_neg hv]
      refine ⟨Options.get_set_self _ f _, fun g hg => ?_, ?_⟩
      · rw [Options.get_set_ne _ hg, Options.get_complain]
      · rw [Options.errors_set]
        rfl

/-- The problems that the checks of some options note. -/
def problems (o : Options) (fields : List Field) : List String :=
  (fields.filter fun f => !f.admits (o.get f)).map fun f => f.problem (o.get f)

theorem problems_congr {fields : List Field} (h : ∀ f ∈ fields, o'.get f = o.get f) :
    problems o' fields = problems o fields := by
  unfold problems
  have hfilter : (fields.filter fun f => !f.admits (o'.get f)) =
      fields.filter fun f => !f.admits (o.get f) :=
    List.filter_congr fun f hf => by rw [h f hf]
  rw [hfilter]
  exact List.map_congr_left fun f hf => by rw [h f (List.mem_of_mem_filter hf)]

theorem problems_cons (o : Options) (f : Field) (rest : List Field) :
    problems o (f :: rest) =
      (if f.admits (o.get f) = true then [] else [f.problem (o.get f)]) ++ problems o rest := by
  unfold problems
  cases hv : f.admits (o.get f) <;> simp [hv]

/-- What the checks leave, if they return. -/
theorem checkAll_spec {fields : List Field} (hnodup : fields.Nodup)
    (h : o.checkAll fields = .ok o') :
    (∀ f ∈ fields, ∃ b, f.isfinite (o.get f) = .ok b) ∧
      (∀ f ∈ fields, o'.get f = f.mend (o.get f)) ∧
      (∀ f, f ∉ fields → o'.get f = o.get f) ∧
      o'.validationErrors = o.validationErrors ++ problems o fields := by
  induction fields generalizing o with
  | nil =>
    obtain rfl := Except.ok.inj h
    exact ⟨fun _ hf => (nomatch hf), fun _ hf => (nomatch hf), fun _ _ => rfl,
      (List.append_nil _).symm⟩
  | cons f rest ih =>
    obtain ⟨hfresh, hrest⟩ := List.nodup_cons.mp hnodup
    cases hone : o.check f with
    | error x =>
      unfold Options.checkAll at h
      rw [hone] at h
      cases h
    | ok o₁ =>
      unfold Options.checkAll at h
      rw [hone] at h
      obtain ⟨hfin, hself, hothers, herrors⟩ := check_spec hone
      obtain ⟨hfins, hmend, hkeep, hmore⟩ := ih hrest h
      have hne : ∀ g ∈ rest, g ≠ f := fun g hg heq => hfresh (heq ▸ hg)
      have hsame : ∀ g ∈ rest, o₁.get g = o.get g := fun g hg => hothers g (hne g hg)
      refine ⟨?_, ?_, ?_, ?_⟩
      · refine List.forall_mem_cons.mpr ⟨hfin, fun g hg => ?_⟩
        rw [← hsame g hg]
        exact hfins g hg
      · refine List.forall_mem_cons.mpr ⟨?_, fun g hg => ?_⟩
        · rw [hkeep f hfresh, hself]
        · rw [hmend g hg, hsame g hg]
      · intro g hg
        obtain ⟨hgf, hgrest⟩ := not_or.mp (List.mem_cons.not.mp hg)
        rw [hkeep g hgrest, hothers g hgf]
      · rw [hmore, herrors, problems_congr hsame, problems_cons, List.append_assoc]

theorem checkAll_returns {fields : List Field} (hnodup : fields.Nodup)
    (h : ∀ f ∈ fields, ∃ b, f.isfinite (o.get f) = .ok b) : ∃ o', o.checkAll fields = .ok o' := by
  induction fields generalizing o with
  | nil => exact ⟨o, rfl⟩
  | cons f rest ih =>
    obtain ⟨hfresh, hrest⟩ := List.nodup_cons.mp hnodup
    obtain ⟨⟨b, hb⟩, hmore⟩ := List.forall_mem_cons.mp h
    have hone := check_of_ok hb
    unfold Options.checkAll
    rw [hone]
    refine ih hrest fun g hg => ?_
    obtain ⟨-, -, hothers, -⟩ := check_spec hone
    rw [hothers g fun heq => hfresh (heq ▸ hg)]
    exact hmore g hg

end Check

/-! ## Loading -/

section Loading

variable {t : DigitTable} {conf : Option String} {cmdline : String} {o : Options}

theorem checked_nodup : Field.checked.Nodup := by decide

/-- The options before the checks. -/
def unchecked (t : DigitTable) (conf : Option String) (cmdline : String) : Options :=
  (applied conf cmdline).foldl (Options.apply t) {}

theorem unchecked_get (f : Field) : (unchecked t conf cmdline).get f =
    (lastReading t f (applied conf cmdline)).getD (({} : Options).get f) :=
  foldl_get t f _ _

/-- What the options are, if they are loaded. -/
theorem loadOptions_spec (h : loadOptions t conf cmdline = .ok o) :
    (∀ f ∈ Field.checked, o.get f = f.mend ((unchecked t conf cmdline).get f)) ∧
      (∀ f, f ∉ Field.checked → o.get f = (unchecked t conf cmdline).get f) ∧
      o.validationErrors = (applied conf cmdline).flatMap (complaint t) ++
        problems (unchecked t conf cmdline) Field.checked := by
  obtain ⟨-, hmend, hkeep, herrors⟩ := checkAll_spec checked_nodup h
  refine ⟨hmend, hkeep, ?_⟩
  rw [herrors, foldl_errors]
  rfl

/-- A default can be converted. -/
theorem isfinite_default (f : IntField) :
    ∃ b, (Field.int f).isfinite (({} : Options).get (.int f)) = .ok b := by
  have hsmall : |(({} : Options).get (.int f) : Int)| ≤ 120 := by cases f <;> decide
  have hbound : (120 : Int) < 2 ^ 1024 - 2 ^ 970 := by decide +kernel
  obtain ⟨x, hx⟩ := (PyFloat.ofInt_ok_iff _).mpr (hsmall.trans_lt hbound)
  exact ⟨true, by rw [isfinite_int, hx]; rfl⟩

theorem isfinite_int_iff {f : IntField} (n : Int) :
    (∃ b, (Field.int f).isfinite n = .ok b) ↔ |n| < 2 ^ 1024 - 2 ^ 970 := by
  rw [isfinite_int, ← PyFloat.ofInt_ok_iff]
  cases PyFloat.ofInt n with
  | error x => exact iff_of_false (fun ⟨_, h⟩ => nomatch h) fun ⟨_, h⟩ => nomatch h
  | ok x => exact iff_of_true ⟨true, rfl⟩ ⟨x, rfl⟩

theorem int_mem_checked (f : IntField) : Field.int f ∈ Field.checked := by
  cases f <;> decide

/-- No option is set to an integer that a float cannot hold. -/
def Fits (t : DigitTable) (settings : List (String × String)) : Prop :=
  ∀ (f : IntField) (n : Int), lastReading t (.int f) settings = some n → |n| < 2 ^ 1024 - 2 ^ 970

theorem loadOptions_returns_iff (t : DigitTable) (conf : Option String) (cmdline : String) :
    (∃ o, loadOptions t conf cmdline = .ok o) ↔ Fits t (applied conf cmdline) := by
  constructor
  · rintro ⟨o, h⟩ f n hn
    have hfin := (checkAll_spec checked_nodup h).1 (.int f) (int_mem_checked f)
    have hget : (unchecked t conf cmdline).get (.int f) = n := by
      rw [unchecked_get, hn]
      rfl
    rw [← unchecked, hget] at hfin
    exact (isfinite_int_iff n).mp hfin
  · intro h
    refine checkAll_returns checked_nodup fun f _ => ?_
    show ∃ b, f.isfinite ((unchecked t conf cmdline).get f) = .ok b
    cases f with
    | int f =>
      rw [unchecked_get]
      cases hlast : lastReading t (.int f) (applied conf cmdline) with
      | none => exact isfinite_default f
      | some n => exact (isfinite_int_iff n).mpr (h f n hlast)
    | float f => exact ⟨_, rfl⟩
    | bool f => exact ⟨_, rfl⟩
    | text f => exact ⟨_, rfl⟩
    | skip => exact ⟨_, rfl⟩

/-! ## Ranges -/

/-- Every default passes its own check. -/
theorem admits_default (f : Field) : f.admits (({} : Options).get f) = true := by
  cases f with
  | int f => cases f <;> decide
  | float f => cases f <;> decide +kernel
  | bool f => rfl
  | text f => cases f <;> decide
  | skip => rfl

theorem admits_mend (f : Field) (v : f.Value) : f.admits (f.mend v) = true := by
  unfold Field.mend
  by_cases h : f.admits v = true
  · rw [if_pos h]
    exact h
  · rw [if_neg h]
    exact admits_default f

theorem isProfile_settle (v : String) : IsProfile ((Field.text .profile).settle v) := by
  rw [settle_profile]
  by_cases h : IsProfile v
  · rwa [if_pos h]
  · rw [if_neg h]
    decide

theorem mem_lastReading {f : Field} {settings : List (String × String)} {v : f.Value}
    (h : lastReading t f settings = some v) : ∃ s ∈ settings, effect t f s = some v := by
  obtain ⟨s, hs, heffect⟩ := List.mem_filterMap.mp (List.mem_of_getLast? h)
  exact ⟨s, hs, heffect⟩

theorem isProfile_unchecked : IsProfile (unchecked t conf cmdline).profile := by
  have hget : (unchecked t conf cmdline).profile =
      (lastReading t (.text .profile) (applied conf cmdline)).getD "standard" :=
    unchecked_get (.text .profile)
  rw [hget]
  cases hlast : lastReading t (.text .profile) (applied conf cmdline) with
  | none => decide
  | some v =>
    obtain ⟨s, -, heffect⟩ := mem_lastReading hlast
    unfold effect at heffect
    obtain ⟨-, hread⟩ := Option.ite_none_right_eq_some.mp heffect
    obtain ⟨w, -, rfl⟩ := Option.map_eq_some_iff.mp hread
    exact isProfile_settle w

theorem inRange_of_admits (h : ∀ f ∈ Field.checked, f.admits (o.get f) = true)
    (hprofile : IsProfile o.profile) : InRange o := by
  have hint : ∀ f : IntField, (Field.intBounds f).low ≤ o.get (.int f) ∧
      o.get (.int f) ≤ (Field.intBounds f).high :=
    fun f => of_decide_eq_true (h (.int f) (int_mem_checked f))
  have hfloat : ∀ f : FloatField, ∀ p q, (Field.floatBounds f).low = .finite p →
      (Field.floatBounds f).high = .finite q → ∃ r, o.get (.float f) = .finite r ∧ p ≤ r ∧ r ≤ q := by
    intro f p q hp hq
    have hmem : Field.float f ∈ Field.checked := by cases f <;> decide
    obtain ⟨p', q', r, hp', hq', -, hr, hpr, hrq⟩ := range_of_admits (h (.float f) hmem)
    cases hp.symm.trans hp'
    cases hq.symm.trans hq'
    exact ⟨r, hr, hpr, hrq⟩
  have hslow : ∃ q, o.slowReadSeconds = .finite q ∧ 1 / 1000 ≤ q ∧ q ≤ 3600 := by
    obtain ⟨p, q, r, hp, hq, hlow, hr, hpr, hrq⟩ :=
      range_of_admits (h (.float .slowReadSeconds) (by decide))
    obtain rfl : 3600 = q := PyFloat.finite.inj hq
    exact ⟨r, hr, (hlow rfl).trans hpr, hrq⟩
  exact
    { hours := hfloat .hours 0 8760 rfl rfl
      destructiveCountdown := hint .destructiveCountdown
      rebootCycles := hint .rebootCycles
      maxUnexpectedReboots := hint .maxUnexpectedReboots
      cpuTempWarn := hfloat .cpuTempWarn 20 150 rfl rfl
      driveTempWarn := hfloat .driveTempWarn 20 150 rfl rfl
      slowReadSeconds := hslow
      ceFail := hint .ceFail
      mceFail := hint .mceFail
      aerFail := hint .aerFail
      sataLinkFail := hint .sataLinkFail
      destructive := of_decide_eq_true (h (.text .destructive) (by decide))
      rebootMethod := of_decide_eq_true (h (.text .rebootMethod) (by decide))
      profile := hprofile }

theorem inRange_of_load (h : loadOptions t conf cmdline = .ok o) : InRange o := by
  obtain ⟨hmend, hkeep, -⟩ := loadOptions_spec h
  apply inRange_of_admits
  · intro f hf
    rw [hmend f hf]
    exact admits_mend f _
  · have hprofile : o.profile = (unchecked t conf cmdline).profile :=
      hkeep (.text .profile) (by decide)
    rw [hprofile]
    exact isProfile_unchecked

end Loading

/-- The options are loaded and in their ranges exactly when no option is set to an integer that
a float cannot hold. -/
theorem loads_iff_fits (t : DigitTable) (conf : Option String) (cmdline : String) :
    (∃ o, loadOptions t conf cmdline = .ok o ∧ InRange o) ↔ Fits t (applied conf cmdline) := by
  rw [← loadOptions_returns_iff]
  constructor
  · rintro ⟨o, h, -⟩
    exact ⟨o, h⟩
  · rintro ⟨o, h⟩
    exact ⟨o, h, inRange_of_load h⟩

example : (loadOptions DigitTable.ascii none
    "pccheck.hours=inf pccheck.ce_fail=0 pccheck.reboot_cycles=-1").toOption.map
      (fun o => (o.validationErrors.length, o.ceFail)) = some (3, 1) := by decide +kernel

/-! ## A command line of one setting -/

/-- Neither blank nor quote nor backslash. -/
def isPlain (c : Char) : Bool := decide (c ∉ [' ', '\t', '\r', '\n', '\'', '"', '\\'])

theorem shlexFrom_word {l : List Char} (token : List Char) (h : l.all isPlain = true) :
    shlexFrom .word token l = some [String.ofList (token.reverse ++ l)] := by
  induction l generalizing token with
  | nil =>
    rw [List.append_nil]
    rfl
  | cons c rest ih =>
    obtain ⟨hc, hrest⟩ := Bool.and_eq_true_iff.mp (List.all_cons.symm.trans h)
    have hplain : c ∉ [' ', '\t', '\r', '\n', '\'', '"', '\\'] := of_decide_eq_true hc
    simp only [List.mem_cons, List.not_mem_nil, or_false, not_or] at hplain
    obtain ⟨hspace, htab, hreturn, hnewline, hsingle, hdouble, hslash⟩ := hplain
    unfold shlexFrom
    simp only [List.mem_cons, List.not_mem_nil, or_false, hspace, htab, hreturn, hnewline,
      hsingle, hdouble, hslash, if_false]
    rw [ih (c :: token) hrest, List.reverse_cons, List.append_assoc, List.singleton_append]

theorem splitEquals_append {key value : List Char} (h : '=' ∉ key) :
    splitEquals (String.ofList (key ++ '=' :: value)) =
      some (String.ofList key, String.ofList value) := by
  have hstop : ∀ c ∈ key, (c != '=') = true := fun c hc =>
    bne_iff_ne.mpr fun heq => h (heq ▸ hc)
  unfold splitEquals
  rw [String.toList_ofList, if_pos (List.mem_append_right _ List.mem_cons_self),
    List.takeWhile_append_of_pos hstop, List.dropWhile_append_of_pos hstop]
  simp

/-- The command line that sets one option. -/
def cmdlineOf (key value : List Char) : String :=
  String.ofList ("pccheck.".toList ++ (key ++ '=' :: value))

theorem cmdlineSettings_cmdlineOf {key value : List Char} (hkey : key.all isPlain = true)
    (hvalue : value.all isPlain = true) (hequals : '=' ∉ key) :
    cmdlineSettings (cmdlineOf key value) = [(String.ofList key, String.ofList value)] := by
  have hname : "pccheck.".toList = 'p' :: "ccheck.".toList := by decide +kernel
  have hplain : ("ccheck.".toList ++ (key ++ '=' :: value)).all isPlain = true := by
    rw [List.all_append, List.all_append, List.all_cons, hkey, hvalue]
    decide +kernel
  have hsplit : shlexSplit (cmdlineOf key value) = some [cmdlineOf key value] := by
    unfold shlexSplit cmdlineOf
    rw [String.toList_ofList, hname]
    exact shlexFrom_word ['p'] hplain
  have htoken : cmdlineToken (cmdlineOf key value) =
      some (String.ofList key, String.ofList value) := by
    have hlength : "pccheck.".length = "pccheck.".toList.length := String.length_toList.symm
    unfold cmdlineToken cmdlineOf
    rw [String.toList_ofList (l := "pccheck.".toList ++ _), if_pos (List.prefix_append _ _),
      hlength, List.drop_left]
    exact splitEquals_append hequals
  unfold cmdlineSettings
  rw [hsplit, Option.getD_some, List.filterMap_cons_some htoken, List.filterMap_nil]

/-- The digits of a number that no float can hold. -/
def manyDigits : List Char := '1' :: List.replicate 400 '0'

/-- As many reboot cycles as a number of 401 digits asks for. -/
def manyCycles : String := cmdlineOf "reboot_cycles".toList manyDigits

theorem int_manyDigits :
    DigitTable.ascii.int (String.ofList manyDigits) = .ok ((10 ^ 400 : Nat) : Int) := by
  have htrim : DigitTable.trimmed (String.ofList manyDigits) = manyDigits := by
    unfold DigitTable.trimmed
    rw [String.toList_ofList]
    decide +kernel
  have hunderscores : DigitTable.ascii.stripUnderscores false manyDigits = some manyDigits := by
    decide +kernel
  have hrun : DigitTable.ascii.run manyDigits 0 0 = (10 ^ 400, 401, []) := by decide +kernel
  exact DigitTable.int_of_run htrim rfl hunderscores hrun (by decide) (by decide)

theorem many_cycles_raise : ¬ ∃ o, loadOptions DigitTable.ascii none manyCycles = .ok o ∧
    InRange o := by
  rintro ⟨o, h, -⟩
  have hsettings : applied none manyCycles = [("reboot_cycles", String.ofList manyDigits)] := by
    unfold applied parseCmdline manyCycles
    rw [cmdlineSettings_cmdlineOf (by decide +kernel) (by decide +kernel) (by decide +kernel),
      String.ofList_toList]
    rfl
  have hfield : fieldOf ("reboot_cycles", String.ofList manyDigits) =
      some (.int .rebootCycles) := by
    have hname : Field.ofName (normalKey "reboot_cycles") = some (.int .rebootCycles) := by
      decide +kernel
    exact hname
  have hread : lastReading DigitTable.ascii (.int .rebootCycles) (applied none manyCycles) =
      some ((10 ^ 400 : Nat) : Int) := by
    have hone : effect DigitTable.ascii (.int .rebootCycles)
        ("reboot_cycles", String.ofList manyDigits) = some ((10 ^ 400 : Nat) : Int) := by
      unfold effect reading convert
      rw [if_pos hfield]
      dsimp only
      rw [int_manyDigits]
      rfl
    unfold lastReading
    rw [hsettings, List.filterMap_cons_some hone]
    rfl
  have hfits := (loadOptions_returns_iff DigitTable.ascii none manyCycles).mp ⟨o, h⟩
  have hbig : ¬ |((10 ^ 400 : Nat) : Int)| < 2 ^ 1024 - 2 ^ 970 := by decide +kernel
  exact hbig (hfits .rebootCycles _ hread)

end PcCheck
