/-
The rotation of the CPU stressors (`CpuPhase.run`).

The loop takes the stressors in turn by a counter modulo the length of the list, and takes a
stressor out of the list when its exit code says that it cannot be used.  A run is the list of
the exit codes of the calls that the time of the phase leaves room for.
-/
import PcCheck.Findings
import Mathlib.Data.List.Nodup
import Mathlib.Data.List.Perm.Subperm

namespace PcCheck
namespace Cpu

structure Stressor where
  label : String
  args : List String
  deriving DecidableEq, Repr

def cpuStressors : List Stressor :=
  [⟨"cpu", ["--cpu", "0", "--cpu-method", "all"]⟩,
   ⟨"matrix", ["--matrix", "0", "--matrix-method", "all"]⟩,
   ⟨"vecmath", ["--vecmath", "0"]⟩, ⟨"vecwide", ["--vecwide", "0"]⟩, ⟨"vecfp", ["--vecfp", "0"]⟩,
   ⟨"fma", ["--fma", "0"]⟩, ⟨"fp", ["--fp", "0"]⟩, ⟨"intmath", ["--intmath", "0"]⟩,
   ⟨"hash", ["--hash", "0"]⟩, ⟨"crypt", ["--crypt", "0"]⟩, ⟨"ipsec-mb", ["--ipsec-mb", "0"]⟩,
   ⟨"zlib", ["--zlib", "0"]⟩, ⟨"cache", ["--cache", "0"]⟩, ⟨"l1cache", ["--l1cache", "0"]⟩,
   ⟨"branch", ["--branch", "0"]⟩, ⟨"bitops", ["--bitops", "0"]⟩, ⟨"memcpy", ["--memcpy", "0"]⟩,
   ⟨"trig", ["--trig", "0"]⟩, ⟨"prime", ["--prime", "0"]⟩, ⟨"tsc", ["--tsc", "0"]⟩,
   ⟨"vnni", ["--vnni", "0"]⟩, ⟨"matrix-3d", ["--matrix-3d", "0"]⟩]

/-- The exit codes of stress-ng that take a stressor out of the rotation.  No code is a stressor
that hung or was stopped. -/
def removes (rc : Option Int) : Bool := [1, 3, 4, 6, 7].any fun code => rc = some code

def noWorkloadsCall : AddCall :=
  { key := "cpu-no-workloads", severity := .warn, component := "Test",
    title := "No CPU stress workloads could run", incomplete := true }

variable {α : Type} [DecidableEq α]

omit [DecidableEq α] in
/-- `stressors[i % len(stressors)]`, of which there is none in an empty list. -/
def current (stressors : List α) (i : Nat) : Option α := stressors[i % stressors.length]?

/-- The loop of `CpuPhase.run`, with the stressors it calls and the findings it adds itself. -/
def run (stressors : List α) (i : Nat) : List (Option Int) → List α × List AddCall
  | [] => ([], [])
  | rc :: codes =>
    match current stressors i with
    | none => ([], [noWorkloadsCall])
    | some s =>
      let rest := run (if removes rc then stressors.erase s else stressors) (i + 1) codes
      (s :: rest.1, rest.2)

/-! ## Places

Where a turn falls depends on the number of stressors and on the exit codes alone. -/

section Places

variable (n : Nat) (codes : List (Option Int))

/-- The exit code of a turn takes its stressor out. -/
def removed (k : Nat) : Bool := removes (codes.getD k none)

/-- How many stressors are left when a turn comes. -/
def left : Nat → Nat
  | 0 => n
  | k + 1 => if removed codes k then left k - 1 else left k

/-- The place a turn falls on. -/
def turn (k : Nat) : Nat := k % left n codes k

/-- The place of a stressor that kept its turn `i`, when `d` turns more have come.  A removal at
a lower place moves it down. -/
def place (i : Nat) : Nat → Nat
  | 0 => turn n codes i
  | d + 1 =>
    if removed codes (i + 1 + d) ∧ turn n codes (i + 1 + d) < place i d then place i d - 1
    else place i d

/-- No turn of the first round falls on the place of a stressor that an earlier turn kept. -/
def KeepsClear : Prop :=
  ∀ i d, i + 1 + d < n → removed codes i = false → turn n codes (i + 1 + d) ≠ place n codes i d

/-- Every turn takes at most one stressor out. -/
theorem sub_le_left (k : Nat) : n - k ≤ left n codes k := by
  induction k with
  | zero => exact Nat.le_refl n
  | succ k ih =>
    unfold left
    split <;> omega

theorem turn_lt_left {n k : Nat} (h : k < n) (codes : List (Option Int)) :
    turn n codes k < left n codes k := by
  have hleft := sub_le_left n codes k
  exact Nat.mod_lt k (by omega)

end Places

/-! ## The list at a turn -/

/-- What one turn leaves of the list. -/
def next (stressors : List α) (i : Nat) (rc : Option Int) : List α :=
  match current stressors i with
  | none => stressors
  | some s => if removes rc then stressors.erase s else stressors

/-- The list when turn `k` of a run comes that began with counter `i`. -/
def rotation (stressors : List α) (i : Nat) (codes : List (Option Int)) : Nat → List α
  | 0 => stressors
  | k + 1 => next (rotation stressors i codes k) (i + k) (codes.getD k none)

theorem rotation_cons (stressors : List α) (i : Nat) (rc : Option Int)
    (codes : List (Option Int)) (k : Nat) :
    rotation (next stressors i rc) (i + 1) codes k =
      rotation stressors i (rc :: codes) (k + 1) := by
  induction k with
  | zero => rfl
  | succ k ih =>
    show next (rotation (next stressors i rc) (i + 1) codes k) (i + 1 + k) _ = _
    rw [ih, Nat.add_assoc, Nat.add_comm 1 k]
    rfl

theorem rotation_nil (i : Nat) (codes : List (Option Int)) (k : Nat) :
    rotation ([] : List α) i codes k = [] := by
  induction k with
  | zero => rfl
  | succ k ih =>
    show next (rotation [] i codes k) (i + k) _ = []
    rw [ih]
    rfl

/-- The calls of a run are those of its turns. -/
theorem run_getElem? (stressors : List α) (i : Nat) (codes : List (Option Int)) {k : Nat}
    (h : k < codes.length) :
    (run stressors i codes).1[k]? = current (rotation stressors i codes k) (i + k) := by
  induction codes generalizing stressors i k with
  | nil => cases h
  | cons rc codes ih =>
    unfold run
    cases hcur : current stressors i with
    | none =>
      have hnil : stressors = [] := by
        rw [current, List.getElem?_eq_none_iff] at hcur
        by_contra hne
        have hpos := List.length_pos_iff.mpr hne
        have hlt := Nat.mod_lt i hpos
        omega
      subst hnil
      rw [rotation_nil]
      rfl
    | some s =>
      cases k with
      | zero => exact hcur.symm
      | succ k =>
        have hnext : (if removes rc then stressors.erase s else stressors) =
            next stressors i rc := by
          unfold next
          rw [hcur]
        have hk := ih (next stressors i rc) (i + 1) (Nat.lt_of_succ_lt_succ h)
        rw [rotation_cons, Nat.add_assoc, Nat.add_comm 1 k] at hk
        dsimp only
        rw [List.getElem?_cons_succ, hnext]
        exact hk

section Rounds

variable {stressors : List α} (hnodup : stressors.Nodup) (codes : List (Option Int))

/-- The list is what the turns so far have left of the stressors, each still once. -/
structure Rotated (stressors : List α) (codes : List (Option Int)) (k : Nat) : Prop where
  nodup : (rotation stressors 0 codes k).Nodup
  length : (rotation stressors 0 codes k).length = left stressors.length codes k
  subset : rotation stressors 0 codes k ⊆ stressors

variable {codes} {k : Nat}

theorem Rotated.turn_lt (h : Rotated stressors codes k) (hk : k < stressors.length) :
    turn stressors.length codes k < (rotation stressors 0 codes k).length := by
  rw [h.length]
  exact turn_lt_left hk codes

theorem Rotated.current_eq (h : Rotated stressors codes k) :
    current (rotation stressors 0 codes k) k =
      (rotation stressors 0 codes k)[turn stressors.length codes k]? := by
  unfold current turn
  rw [h.length]

/-- A turn takes out what stands at its place, if it takes anything out. -/
theorem Rotated.succ_eq (h : Rotated stressors codes k) (hk : k < stressors.length) :
    rotation stressors 0 codes (k + 1) =
      if removed codes k then
        (rotation stressors 0 codes k).eraseIdx (turn stressors.length codes k)
      else rotation stressors 0 codes k := by
  have hlt := h.turn_lt hk
  have hcur := h.current_eq
  rw [List.getElem?_eq_getElem hlt] at hcur
  show next (rotation stressors 0 codes k) (0 + k) (codes.getD k none) = _
  unfold next removed
  rw [Nat.zero_add, hcur]
  dsimp only
  rw [h.nodup.erase_getElem]

include hnodup in
theorem rotated (hk : k ≤ stressors.length) : Rotated stressors codes k := by
  induction k with
  | zero => exact ⟨hnodup, rfl, List.Subset.refl _⟩
  | succ k ih =>
    have h := ih (Nat.le_of_succ_le hk)
    have hlt := h.turn_lt hk
    have hsucc := h.succ_eq hk
    by_cases hout : removed codes k = true
    · rw [if_pos hout] at hsucc
      constructor
      · rw [hsucc]
        exact h.nodup.sublist (List.eraseIdx_sublist ..)
      · rw [hsucc, List.length_eraseIdx_of_lt hlt, h.length, left, if_pos hout]
      · rw [hsucc]
        exact List.Subset.trans (List.eraseIdx_subset ..) h.subset
    · rw [if_neg hout] at hsucc
      constructor
      · rw [hsucc]
        exact h.nodup
      · rw [hsucc, h.length, left, if_neg hout]
      · rw [hsucc]
        exact h.subset

/-- A turn of the first round finds a stressor, one of the list. -/
theorem Rotated.current_mem (h : Rotated stressors codes k) (hk : k < stressors.length) :
    ∃ s ∈ stressors, current (rotation stressors 0 codes k) k = some s := by
  have hlt := h.turn_lt hk
  refine ⟨_, h.subset (List.getElem_mem hlt), ?_⟩
  rw [h.current_eq, List.getElem?_eq_getElem hlt]

include hnodup in
/-- What a turn takes out no later turn finds. -/
theorem not_mem_of_removed {i d : Nat} {s : α} (hi : i + 1 + d ≤ stressors.length)
    (hcur : current (rotation stressors 0 codes i) i = some s) (hout : removed codes i = true) :
    s ∉ rotation stressors 0 codes (i + 1 + d) := by
  induction d with
  | zero =>
    have h : Rotated stressors codes i := rotated hnodup (by omega)
    show s ∉ next (rotation stressors 0 codes i) (0 + i) (codes.getD i none)
    have hout : removes (codes.getD i none) = true := hout
    unfold next
    rw [Nat.zero_add, hcur]
    dsimp only
    rw [if_pos hout]
    exact h.nodup.not_mem_erase
  | succ d ih =>
    have h : Rotated stressors codes (i + 1 + d) := rotated hnodup (by omega)
    have hold := ih (by omega)
    rw [← Nat.add_assoc, h.succ_eq (by omega)]
    split
    · exact fun hmem => hold ((List.eraseIdx_subset ..) hmem)
    · exact hold

include hnodup in
/-- A stressor that kept its turn stands at its place, as long as no turn has fallen on it. -/
theorem getElem?_place {i d : Nat} {s : α} (hi : i + 1 + d ≤ stressors.length)
    (hcur : current (rotation stressors 0 codes i) i = some s) (hkept : removed codes i = false)
    (hclear : ∀ e < d, turn stressors.length codes (i + 1 + e) ≠
      place stressors.length codes i e) :
    (rotation stressors 0 codes (i + 1 + d))[place stressors.length codes i d]? = some s := by
  induction d with
  | zero =>
    have h : Rotated stressors codes i := rotated hnodup (by omega)
    rw [Nat.add_zero, h.succ_eq (by omega), hkept, if_neg Bool.false_ne_true]
    exact h.current_eq.symm.trans hcur
  | succ d ih =>
    have h : Rotated stressors codes (i + 1 + d) := rotated hnodup (by omega)
    have hold := ih (by omega) fun e he => hclear e (Nat.lt_succ_of_lt he)
    have hne := hclear d (Nat.lt_succ_self d)
    rw [← Nat.add_assoc, h.succ_eq (by omega), place]
    by_cases hout : removed codes (i + 1 + d) = true
    · rw [if_pos hout]
      by_cases hlt : turn stressors.length codes (i + 1 + d) < place stressors.length codes i d
      · rw [if_pos ⟨hout, hlt⟩, List.getElem?_eraseIdx_of_ge (by omega), Nat.sub_add_cancel]
        · exact hold
        · omega
      · rw [if_neg fun hboth => hlt hboth.2, List.getElem?_eraseIdx_of_lt (by omega)]
        exact hold
    · rw [if_neg hout, if_neg fun hboth => hout hboth.1]
      exact hold

include hnodup in
/-- The turns of the first round find different stressors exactly when none falls on the place
of one that was kept. -/
theorem distinct_iff : (∀ i k, i < k → k < stressors.length →
      current (rotation stressors 0 codes i) i ≠ current (rotation stressors 0 codes k) k) ↔
    KeepsClear stressors.length codes := by
  constructor
  · intro hdistinct i d hd hkept
    -- Up to the first turn that falls on the place the stressor stands there.
    induction d using Nat.strong_induction_on with
    | _ d ih =>
      intro heq
      have hi : Rotated stressors codes i := rotated hnodup (by omega)
      have hk : Rotated stressors codes (i + 1 + d) := rotated hnodup (by omega)
      obtain ⟨s, -, hcur⟩ := hi.current_mem (by omega)
      have hplace := getElem?_place hnodup (by omega) hcur hkept fun e he => ih e he (by omega)
      rw [← heq, ← hk.current_eq, ← hcur] at hplace
      exact hdistinct i (i + 1 + d) (by omega) hd hplace.symm
  · intro hclear i k hik hk hsame
    obtain ⟨d, rfl⟩ : ∃ d, k = i + 1 + d := ⟨k - (i + 1), by omega⟩
    have hi : Rotated stressors codes i := rotated hnodup (by omega)
    have hrot : Rotated stressors codes (i + 1 + d) := rotated hnodup (by omega)
    obtain ⟨s, -, hcur⟩ := hi.current_mem (by omega)
    rw [hcur, hrot.current_eq] at hsame
    cases hout : removed codes i with
    | true =>
      exact not_mem_of_removed hnodup (by omega) hcur hout (List.mem_of_getElem? hsame.symm)
    | false =>
      have hpassed : ∀ e < d, turn stressors.length codes (i + 1 + e) ≠
          place stressors.length codes i e := fun e he => hclear i e (by omega) hout
      have hplace := getElem?_place hnodup (by omega) hcur hout hpassed
      have hlt := hrot.turn_lt hk
      exact hclear i d hk hout
        ((List.getElem?_inj hlt hrot.nodup).mp (hsame.symm.trans hplace.symm))

end Rounds

/-! ## The first round -/

theorem length_run_le (stressors : List α) (i : Nat) (codes : List (Option Int)) :
    (run stressors i codes).1.length ≤ codes.length := by
  induction codes generalizing stressors i with
  | nil => exact Nat.le_refl 0
  | cons rc codes ih =>
    unfold run
    split
    · exact Nat.zero_le _
    · exact Nat.succ_le_succ (ih _ _)

omit [DecidableEq α] in
/-- A list of as many calls as there are stressors has each of them exactly when it has none
twice. -/
theorem covers_iff_nodup {stressors called : List α} (hnodup : stressors.Nodup)
    (hsub : called ⊆ stressors) (hlen : called.length = stressors.length) :
    (∀ s ∈ stressors, s ∈ called) ↔ called.Nodup := by
  constructor
  · intro hcovers
    have hperm := (hnodup.subperm hcovers).perm_of_length_le hlen.le
    exact hperm.nodup_iff.mp hnodup
  · intro hdistinct s hs
    have hperm := (hdistinct.subperm hsub).perm_of_length_le hlen.ge
    exact hperm.mem_iff.mpr hs

/-- Every stressor is called in the first round exactly when no turn of the round falls on the
place of a stressor that was kept. -/
theorem every_stressor_iff (stressors : List α) (codes : List (Option Int))
    (hnodup : stressors.Nodup) (hcalls : stressors.length ≤ (run stressors 0 codes).1.length) :
    (∀ s ∈ stressors, s ∈ (run stressors 0 codes).1.take stressors.length) ↔
      KeepsClear stressors.length codes := by
  have hlen : ((run stressors 0 codes).1.take stressors.length).length = stressors.length :=
    List.length_take_of_le hcalls
  have hget : ∀ k < stressors.length, ((run stressors 0 codes).1.take stressors.length)[k]? =
      current (rotation stressors 0 codes k) k := by
    intro k hk
    have hk' : k < codes.length := hk.trans_le (hcalls.trans (length_run_le ..))
    rw [List.getElem?_take_of_lt hk, run_getElem? stressors 0 codes hk', Nat.zero_add]
  have hsub : (run stressors 0 codes).1.take stressors.length ⊆ stressors := by
    intro s hs
    obtain ⟨k, hk⟩ := List.mem_iff_getElem?.mp hs
    have hlt : k < stressors.length := by
      rw [← hlen]
      exact (List.getElem?_eq_some_iff.mp hk).1
    have hrot : Rotated stressors codes k := rotated hnodup hlt.le
    obtain ⟨s', hmem, hcur⟩ := hrot.current_mem hlt
    rw [hget k hlt, hcur] at hk
    exact Option.some.inj hk ▸ hmem
  rw [covers_iff_nodup hnodup hsub hlen, List.nodup_iff_getElem?_ne_getElem?, hlen,
    ← distinct_iff hnodup]
  refine forall₄_congr fun i k hik hk => ?_
  rw [hget i (hik.trans hk), hget k hk]

/-- The kernel does not support the first stressor: the others move up by one, and the last
turn of the round comes back to the one that took its place. -/
def firstUnsupported : List (Option Int) := some 4 :: List.replicate 21 (some 0)

theorem every_stressor_iff_firstUnsupported :
    removed firstUnsupported 0 = true ∧
      (∀ s ∈ cpuStressors, s ∈ (run cpuStressors 0 firstUnsupported).1.take cpuStressors.length) ∧
      KeepsClear cpuStressors.length firstUnsupported := by
  have hall : ∀ s ∈ cpuStressors,
      s ∈ (run cpuStressors 0 firstUnsupported).1.take cpuStressors.length := by decide +kernel
  refine ⟨rfl, hall, ?_⟩
  exact (every_stressor_iff cpuStressors firstUnsupported (by decide +kernel)
    (by decide +kernel)).mp hall

/-- The second of three stressors is unsupported: the third is passed over for the first. -/
theorem third_stressor_passed_over :
    ¬ ∀ (stressors : List String) (codes : List (Option Int)), stressors ≠ [] →
      stressors.length ≤ (run stressors 0 codes).1.length →
      ∀ s ∈ stressors, s ∈ (run stressors 0 codes).1.take stressors.length := by
  intro h
  have hall := h ["cpu", "matrix", "vecmath"] [some 0, some 4, some 0] (by decide) (by decide)
  exact absurd (hall "vecmath" (by decide)) (by decide)

end Cpu
end PcCheck
