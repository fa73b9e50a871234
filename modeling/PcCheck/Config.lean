/-
Options, profiles and the test plan (`config.py`).
-/
import PcCheck.Python

namespace PcCheck

/-- `PHASE_WEIGHTS`: the share of the time budget of each stress phase. -/
def phaseWeights : List (String × PyFloat) :=
  [("cpu", .ofRat (12 / 100)), ("memory", .ofRat (20 / 100)), ("mprime", .ofRat (14 / 100)),
    ("ycruncher", .ofRat (12 / 100)), ("transient", .ofRat (12 / 100)), ("idle", .ofRat (8 / 100)),
    ("combined", .ofRat (22 / 100))]

structure Profile where
  hours : PyFloat
  diskWaitHours : PyFloat
  longSelftest : Bool
  label : String

def standardProfile : Profile := ⟨.finite 12, .finite 2, true, "Standard burn-in"⟩

def profiles : List (String × Profile) :=
  [("quick", ⟨.finite 1, .finite 0, false, "Quick smoke test"⟩),
    ("standard", standardProfile),
    ("extended", ⟨.finite 24, .finite 8, true, "Extended burn-in"⟩),
    ("burnin", ⟨.finite 72, .finite 24, true, "Full burn-in"⟩)]

structure Options where
  profile : String := "standard"
  /-- 0 stands for the hours of the profile. -/
  hours : PyFloat := .finite 0
  auto : Bool := true
  /-- "0", "1" (blank disks only) or "force". -/
  destructive : String := "0"
  destructiveCountdown : Int := 120
  http : Bool := true
  identify : Bool := true
  maxUnexpectedReboots : Int := 3
  skip : List String := []
  iperf3 : String := ""
  rebootCycles : Int := 0
  rebootMethod : String := "auto"
  ceFail : Int := 1
  mceFail : Int := 1
  aerFail : Int := 20
  sataLinkFail : Int := 10
  cpuTempWarn : PyFloat := .finite 90
  driveTempWarn : PyFloat := .finite 70
  slowReadSeconds : PyFloat := .finite 5
  validationErrors : List String := []

namespace Options

def profileInfo (opts : Options) : Profile :=
  (profiles.lookup opts.profile).getD standardProfile

def totalHours (opts : Options) : PyFloat :=
  if PyFloat.lt (.finite 0) opts.hours then opts.hours else opts.profileInfo.hours

def isDestructive (opts : Options) : Bool :=
  decide (opts.destructive ∈ ["1", "yes", "true", "force"])

end Options

structure PlanEntry where
  name : String
  duration : Int
  deriving DecidableEq, Repr

def planStress (skip : List String) (total : PyFloat) :
    List (String × PyFloat) → Except PyError (List PlanEntry)
  | [] => .ok []
  | (name, weight) :: rest =>
    if name ∈ skip then planStress skip total rest
    else do
      let seconds ← (total.mul weight).toInt
      let more ← planStress skip total rest
      return ⟨name, max 60 seconds⟩ :: more

def buildPlan (opts : Options) : Except PyError (List PlanEntry) := do
  let stress ← planStress opts.skip (opts.totalHours.mul (.finite 3600)) phaseWeights
  let powercycle :=
    if 0 < opts.rebootCycles ∧ "powercycle" ∉ opts.skip then [⟨"powercycle", 0⟩] else []
  return ⟨"inventory", 0⟩ :: stress ++ powercycle

/-- The stress phases of a plan are the ones not skipped, in their order. -/
theorem planStress_names {skip : List String} {total : PyFloat} {weights : List (String × PyFloat)}
    {entries : List PlanEntry} (h : planStress skip total weights = .ok entries) :
    entries.map PlanEntry.name = (weights.map Prod.fst).filter fun name => name ∉ skip := by
  induction weights generalizing entries with
  | nil =>
    obtain rfl : [] = entries := Except.ok.inj h
    rfl
  | cons w rest ih =>
    obtain ⟨name, weight⟩ := w
    by_cases hskip : name ∈ skip
    · rw [planStress, if_pos hskip] at h
      rw [ih h, List.map_cons, List.filter_cons_of_neg (by simpa using hskip)]
    · rw [planStress, if_neg hskip] at h
      cases hsec : (total.mul weight).toInt with
      | error e => rw [hsec] at h; cases h
      | ok seconds =>
        cases hmore : planStress skip total rest with
        | error e => rw [hsec, hmore] at h; cases h
        | ok more =>
          rw [hsec, hmore] at h
          obtain rfl := Except.ok.inj h
          rw [List.map_cons, List.map_cons, List.filter_cons_of_pos (by simpa using hskip),
            ih hmore]

theorem buildPlan_eq_ok {opts : Options} {plan : List PlanEntry} (h : buildPlan opts = .ok plan) :
    ∃ stress, stress.map PlanEntry.name =
        (phaseWeights.map Prod.fst).filter (fun name => name ∉ opts.skip) ∧
      plan = ⟨"inventory", 0⟩ :: stress ++
        if 0 < opts.rebootCycles ∧ "powercycle" ∉ opts.skip then [⟨"powercycle", 0⟩] else [] := by
  unfold buildPlan at h
  cases hs : planStress opts.skip (opts.totalHours.mul (.finite 3600)) phaseWeights with
  | error e => rw [hs] at h; cases h
  | ok stress =>
    rw [hs] at h
    exact ⟨stress, planStress_names hs, (Except.ok.inj h).symm⟩

end PcCheck
