/-
The taint mask of the kernel over the boots of a session (`check_taint`).

The mask gains bits while a boot lasts and begins afresh with the next.  The inventory keeps
the mask that it read in the state of the session, and `finalize` compares the mask of the
boot it runs in with the one that was kept, in whichever boot that was.
-/
import PcCheck.PhaseRows
import PcCheck.Calls
import Mathlib.Data.Nat.Bitwise

namespace PcCheck
namespace Taint

open EventMachine

/-! ## The check -/

/-- A bit of the mask that `check_taint` looks at. -/
structure Flag where
  bit : Nat
  key : String
  component : String
  text : String
  deriving DecidableEq, Repr

def flags : List Flag :=
  [{ bit := 4, key := "mce", component := "CPU/Memory", text := "a machine check exception" },
   { bit := 5, key := "badpage", component := "Memory", text := "a bad memory page" }]

namespace Flag

variable (f : Flag)

def bootCall (now : String) : AddCall :=
  { key := "taint-" ++ f.key ++ "-boot", severity := .warn, component := f.component,
    title := "Kernel flagged " ++ f.text ++ " before the test started", now := now }

def testCall (now : String) : AddCall :=
  { key := "taint-" ++ f.key, severity := .fail, component := f.component,
    title := "Kernel flagged " ++ f.text ++ " during the test", now := now }

def call (taint : Nat) (startTaint : Option Nat) (now : String) : Option AddCall :=
  if taint.testBit f.bit = false then none
  else
    match startTaint with
    | none => some (f.bootCall now)
    | some start => if start.testBit f.bit = false then some (f.testCall now) else none

end Flag

def checkTaint (fs : Findings) (taint : Nat) (startTaint : Option Nat) (now : String) :
    Findings :=
  fs.addAll (flags.filterMap fun f => f.call taint startTaint now)

/-! ## The machine -/

/-- What `finalize` read, and what it left. -/
structure Final where
  /-- The mask with which the boot had started. -/
  start : Nat
  taint : Nat
  findings : Findings

structure World where
  mask : Nat
  start : Nat
  findings : Findings
  /-- `baselines["taint"]` of the session in memory. -/
  baseline : Option Nat := none
  /-- The same on the stick. -/
  saved : Option Nat := none
  final : Option Final := none

inductive Event where
  /-- The kernel sets bits of the mask. -/
  | taint (bits : Nat)
  | call (c : PhaseRows.Call)
  | inventory (now : String)
  | save
  | finalize (now : String)
  /-- The process begins anew in the same boot, with the findings that it finds on file. -/
  | restart (findings : Findings)
  | reboot (mask : Nat) (findings : Findings)

def step (w : World) : Event → Option World
  | .taint bits => some { w with mask := w.mask ||| bits }
  | .call c => some { w with findings := c.apply w.findings }
  | .inventory now => some { w with
      findings := checkTaint w.findings w.mask none now
      baseline := some w.mask }
  | .save => some { w with saved := w.baseline }
  | .finalize now =>
    let findings := checkTaint w.findings w.mask (some (w.baseline.getD 0)) now
    some { w with
      findings := findings
      final := some { start := w.start, taint := w.mask, findings := findings } }
  | .restart findings => some { w with findings := findings, baseline := w.saved }
  | .reboot mask findings => some { w with
      mask := mask, start := mask, findings := findings, baseline := w.saved }

/-- A session begins. -/
def opened (mask : Nat) (findings : Findings) : World :=
  { mask := mask, start := mask, findings := findings }

/-- The bit was clear when the boot started and is set now. -/
def Acquired (start taint : Nat) (f : Flag) : Prop :=
  start.testBit f.bit = false ∧ taint.testBit f.bit = true

/-- Every bit acquired in the boot of `finalize` has failed the machine. -/
def Reported (w : World) : Prop :=
  ∀ r ∈ w.final, ∀ f ∈ flags, Acquired r.start r.taint f →
    r.findings.items.Fails ("taint-" ++ f.key)

/-- When `finalize` runs, each bit acquired in its boot is clear in the mask that is kept,
unless it has failed the machine already. -/
def BaselineFits (w : World) (e : Event) : Prop :=
  ∀ now, e = .finalize now → ∀ f ∈ flags, Acquired w.start w.mask f →
    (w.baseline.getD 0).testBit f.bit = false ∨ w.findings.items.Fails ("taint-" ++ f.key)

theorem key_injective {f g : Flag} (hf : f ∈ flags) (hg : g ∈ flags)
    (h : "taint-" ++ f.key = "taint-" ++ g.key) : f = g := by
  have hall : ∀ f ∈ flags, ∀ g ∈ flags, "taint-" ++ f.key = "taint-" ++ g.key → f = g := by
    decide
  exact hall f hf g hg h

theorem call_fails {f : Flag} {taint start : Nat} {now : String} {c : AddCall}
    (h : f.call taint (some start) now = some c) :
    c = f.testCall now ∧ Acquired start taint f := by
  unfold Flag.call at h
  split at h
  · cases h
  next hset =>
    dsimp only at h
    obtain ⟨hclear, hc⟩ := Option.ite_none_right_eq_some.mp h
    exact ⟨(Option.some.inj hc).symm, hclear, Bool.not_eq_false _ ▸ hset⟩

theorem call_of_acquired {f : Flag} {taint start : Nat} (h : Acquired start taint f)
    (now : String) : f.call taint (some start) now = some (f.testCall now) := by
  unfold Flag.call
  rw [if_neg (by rw [h.2]; decide)]
  exact if_pos h.1

/-- A flag fails after the check if it failed before, or is set and clear in the mask compared
with. -/
theorem fails_checkTaint {fs : Findings} {taint start : Nat} {now : String} {f : Flag}
    (hf : f ∈ flags) :
    (checkTaint fs taint (some start) now).items.Fails ("taint-" ++ f.key) ↔
      fs.items.Fails ("taint-" ++ f.key) ∨ Acquired start taint f := by
  unfold checkTaint
  rw [Findings.fails_addAll]
  refine or_congr_right ?_
  constructor
  · rintro ⟨c, hc, hkey, -⟩
    obtain ⟨g, hg, hcall⟩ := List.mem_filterMap.mp hc
    obtain ⟨rfl, hacq⟩ := call_fails hcall
    rwa [key_injective hf hg hkey.symm]
  · intro hacq
    exact ⟨f.testCall now, List.mem_filterMap.mpr ⟨f, hf, call_of_acquired hacq now⟩, rfl, rfl⟩

/-! ## Runs -/

theorem reported_step {w v : World} {e : Event} (h : Reported w) (hstep : step w e = some v) :
    Reported v ↔ BaselineFits w e := by
  have hother (hfinal : v.final = w.final) (hne : ∀ now, e ≠ .finalize now) :
      Reported v ↔ BaselineFits w e := by
    refine iff_of_true ?_ fun now he => absurd he (hne now)
    unfold Reported
    rwa [hfinal]
  cases e with
  | finalize now =>
    obtain rfl := Option.some.inj hstep
    constructor
    · intro hrep now' he f hf hacq
      have hfails := hrep _ rfl f hf hacq
      rcases (fails_checkTaint hf).mp hfails with hold | hnew
      · exact Or.inr hold
      · exact Or.inl hnew.1
    · rintro hfits r hr f hf hacq
      obtain rfl := Option.some.inj hr
      refine (fails_checkTaint hf).mpr ?_
      rcases hfits now rfl f hf hacq with hclear | hold
      · exact Or.inr ⟨hclear, hacq.2⟩
      · exact Or.inl hold
  | _ =>
    obtain rfl := Option.some.inj hstep
    exact hother rfl fun _ he => nomatch he

/-- Every bit acquired in the boot of `finalize` fails the machine, all along a session, exactly
when each time the bit is clear in the mask that is kept or has failed the machine already. -/
theorem reported_iff_baseline_fits {mask : Nat} {findings : Findings} {es : List Event}
    {w : World} (hrun : run step (opened mask findings) es = some w) :
    Always step Reported (opened mask findings) es ↔
      Along step BaselineFits (opened mask findings) es :=
  always_iff_along (fun _ _ _ h ht => reported_step h ht) (fun _ hr => nomatch hr) hrun

/-- A clean kernel at the inventory, and a machine check after a planned reboot. -/
def once : List Event :=
  [.inventory "10:00", .save, .reboot 0 Findings.new, .taint 16, .finalize "12:00"]

theorem reported_iff_baseline_fits_once :
    Always step Reported (opened 0 Findings.new) once ↔
      Along step BaselineFits (opened 0 Findings.new) once :=
  reported_iff_baseline_fits (w := ((run step (opened 0 Findings.new) once).getD
    (opened 0 Findings.new))) (by rfl)

/-- The findings on file after an inventory under a kernel that had met a machine check. -/
def warned : Findings := checkTaint Findings.new 16 none "10:00"

/-- The kernel had met a machine check before the inventory, and meets another one in the boot
of `finalize`. -/
def twice : List Event :=
  [.inventory "10:00", .save, .reboot 0 warned, .taint 16, .finalize "12:00"]

theorem second_machine_check_lost :
    ¬ Always step Reported (opened 16 Findings.new) twice := by
  intro h
  have hrep := h twice List.prefix_rfl _ rfl _ rfl
    { bit := 4, key := "mce", component := "CPU/Memory", text := "a machine check exception" }
    List.mem_cons_self ⟨rfl, rfl⟩
  obtain ⟨f, hf, -⟩ := hrep
  have hnone : (checkTaint warned 16 (some 16) "12:00").items.get? "taint-mce" = none := by
    decide
  cases hnone.symm.trans hf

end Taint
end PcCheck
