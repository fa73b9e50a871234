/-
Flushes of several threads.

`Findings.flush` takes its copy and its sequence number under the lock and writes the
copy after releasing it, so the writes of concurrent calls can land in any order.  An
event here is the locked part of an `add` or `escalate`, the locked part of a `flush`,
or the write of a copy still in flight.  A run keeps the file as new as every
completed write exactly when no write lands on the slot of a newer one that is the newest
completed so far.
-/
import PcCheck.Dedup
import PcCheck.Lib.EventMachine

namespace PcCheck

def Findings.locked (fs : Findings) : Call → Findings
  | .add c => (fs.record c).1
  | .escalate c => fs.raise c

namespace FlushRace

open EventMachine

structure State where
  mem : Findings
  files : RotatingFiles FindingsDoc
  /-- Every copy taken so far. -/
  taken : List (Saved FindingsDoc)
  /-- Copies whose write has not run. -/
  inFlight : List (Saved FindingsDoc)
  /-- Copies whose write has completed. -/
  completed : List (Saved FindingsDoc)

inductive Event where
  | change (c : Call)
  | snapshot (force : Bool)
  | write (seq : Int)

def start (path : String) (files : RotatingFiles FindingsDoc) : State :=
  { mem := Findings.load path files, files := files, taken := [], inFlight := [], completed := [] }

def step (s : State) : Event → Option State
  | .change c => some { s with mem := s.mem.locked c }
  | .snapshot force =>
    match s.mem.snapshot force with
    | (_, none) => none
    | (mem, some (doc, seq)) =>
      some { s with mem := mem, taken := ⟨doc, seq⟩ :: s.taken,
                    inFlight := ⟨doc, seq⟩ :: s.inFlight }
  | .write seq =>
    match s.inFlight.find? fun c => c.stamp = seq with
    | none => none
    | some c =>
      some { s with
        files := s.files.writeRotating c.val c.stamp
        inFlight := s.inFlight.filter fun d => d.stamp ≠ seq
        completed := c :: s.completed }

/-- `read_rotating` returns a copy at least as new as every completed one. -/
def Fresh (s : State) : Prop :=
  ∀ c ∈ s.completed, ∃ d ∈ s.taken, s.files.readRotating = (some d.val, d.stamp) ∧ c.stamp ≤ d.stamp

def Newest (s : State) (m : Saved FindingsDoc) : Prop :=
  m ∈ s.completed ∧ ∀ c ∈ s.completed, c.stamp ≤ m.stamp

/-- The event is not the write of an older copy over the newest completed one. -/
def NoRollback (s : State) : Event → Prop
  | .write seq => ∀ m, Newest s m → ¬ (seq < m.stamp ∧ seq % 2 = m.stamp % 2)
  | _ => True

/-! ## One step -/

theorem locked_frame (fs : Findings) (c : Call) :
    (fs.locked c).path = fs.path ∧ (fs.locked c).seq = fs.seq := by
  cases c with
  | add c => exact ⟨rfl, rfl⟩
  | escalate c => exact Store.raise_frame fs c

theorem step_cases {s t : State} {e : Event} (h : step s e = some t) :
    (∃ c, e = .change c ∧ t = { s with mem := s.mem.locked c }) ∨
    (∃ force, e = .snapshot force ∧
      t = { s with mem := { s.mem with dirty := false, seq := s.mem.seq + 1 },
                   taken := ⟨s.mem.items.toDoc, s.mem.seq + 1⟩ :: s.taken,
                   inFlight := ⟨s.mem.items.toDoc, s.mem.seq + 1⟩ :: s.inFlight }) ∨
    (∃ c ∈ s.inFlight, e = .write c.stamp ∧
      t = { s with files := s.files.writeRotating c.val c.stamp,
                   inFlight := s.inFlight.filter fun d => d.stamp ≠ c.stamp,
                   completed := c :: s.completed }) := by
  cases e with
  | change c => exact Or.inl ⟨c, rfl, (Option.some.inj h).symm⟩
  | snapshot force =>
    refine Or.inr (Or.inl ⟨force, rfl, ?_⟩)
    rcases Findings.snapshot_eq s.mem force with hs | hs
    · simp only [step, hs, reduceCtorEq] at h
    · simp only [step, hs, Option.some.injEq] at h
      exact h.symm
  | write seq =>
    cases hf : s.inFlight.find? fun c => c.stamp = seq with
    | none => simp only [step, hf, reduceCtorEq] at h
    | some c =>
      simp only [step, hf, Option.some.injEq] at h
      obtain rfl : c.stamp = seq := by simpa using List.find?_some hf
      exact Or.inr (Or.inr ⟨c, List.mem_of_find?_eq_some hf, rfl, h.symm⟩)

/-- What every state of a run satisfies, whatever the order of the writes. -/
structure Inv (s : State) : Prop where
  seq : -1 ≤ s.mem.seq
  numbered : ∀ c ∈ s.taken, 0 ≤ c.stamp ∧ c.stamp ≤ s.mem.seq
  flying : s.inFlight ⊆ s.taken
  done : s.completed ⊆ s.taken
  apart : ∀ c ∈ s.inFlight, ∀ d ∈ s.completed, c.stamp ≠ d.stamp
  /-- Before the first write lands, every file is older than every copy taken. -/
  older : s.completed = [] →
    Register.Below s.files (s.mem.seq + 1) ∧ ∀ c ∈ s.taken, Register.Below s.files c.stamp

theorem inv_start (path : String) (files : RotatingFiles FindingsDoc) : Inv (start path files) where
  seq := RotatingFiles.neg_one_le_readRotating files
  numbered := fun _ h => nomatch h
  flying := List.Subset.refl []
  done := List.Subset.refl []
  apart := fun _ h => nomatch h
  older := fun _ => ⟨RotatingFiles.below_succ_readRotating files, fun _ h => nomatch h⟩

theorem inv_step {s t : State} {e : Event} (h : Inv s) (ht : step s e = some t) : Inv t := by
  obtain ⟨hseq, hnum, hfly, hdone, hapart, holder⟩ := h
  rcases step_cases ht with ⟨c, -, rfl⟩ | ⟨force, -, rfl⟩ | ⟨c, hc, -, rfl⟩
  · obtain ⟨-, hs⟩ := locked_frame s.mem c
    refine ⟨?_, ?_, hfly, hdone, hapart, ?_⟩
    · show -1 ≤ (s.mem.locked c).seq
      rwa [hs]
    · show ∀ d ∈ s.taken, 0 ≤ d.stamp ∧ d.stamp ≤ (s.mem.locked c).seq
      rwa [hs]
    · show s.completed = [] → Register.Below s.files ((s.mem.locked c).seq + 1) ∧ _
      rwa [hs]
  · refine ⟨?_, ?_, ?_, ?_, ?_, ?_⟩
    · show -1 ≤ s.mem.seq + 1
      omega
    · intro c hc
      rcases List.mem_cons.mp hc with rfl | hc
      · show 0 ≤ s.mem.seq + 1 ∧ s.mem.seq + 1 ≤ s.mem.seq + 1
        omega
      · have := hnum c hc
        show 0 ≤ c.stamp ∧ c.stamp ≤ s.mem.seq + 1
        omega
    · exact List.cons_subset_cons _ hfly
    · exact fun c hc => List.mem_cons_of_mem _ (hdone hc)
    · intro c hc d hd
      rcases List.mem_cons.mp hc with rfl | hc
      · have := hnum d (hdone hd)
        show s.mem.seq + 1 ≠ d.stamp
        omega
      · exact hapart c hc d hd
    · intro hnil
      obtain ⟨hbelow, hall⟩ := holder hnil
      refine ⟨fun p d hd => ?_, fun c hc => ?_⟩
      · have := hbelow p d hd
        show d.stamp < s.mem.seq + 1 + 1
        omega
      · rcases List.mem_cons.mp hc with rfl | hc
        · exact hbelow
        · exact hall c hc
  · refine ⟨hseq, hnum, ?_, ?_, ?_, ?_⟩
    · exact fun d hd => hfly (List.mem_filter.mp hd).1
    · exact List.cons_subset.mpr ⟨hfly hc, hdone⟩
    · intro d hd e he
      obtain ⟨hd, hne⟩ := List.mem_filter.mp hd
      rcases List.mem_cons.mp he with rfl | he
      · simpa using hne
      · exact hapart d hd e he
    · exact fun hnil => nomatch hnil

/-! ## Runs without a rollback -/

/-- Once a write has completed, the file holds the newest completed copy. -/
def Holding (s : State) : Prop :=
  s.completed ≠ [] → ∃ m, Newest s m ∧ Register.Holds Place.ofSeq s.files m

theorem holding_step {s t : State} {e : Event} (hi : Inv s) (h : Holding s) (hC : NoRollback s e)
    (ht : step s e = some t) : Holding t := by
  rcases step_cases ht with ⟨c, -, rfl⟩ | ⟨force, -, rfl⟩ | ⟨c, hc, rfl, rfl⟩
  · exact h
  · exact h
  · intro _
    by_cases hnil : s.completed = []
    · -- the first write to land is newer than every file
      refine ⟨c, ⟨List.mem_cons_self, ?_⟩, ?_⟩
      · intro d hd
        rw [show (c :: s.completed) = [c] by rw [hnil], List.mem_singleton] at hd
        exact hd ▸ le_refl _
      · exact Register.Holds.put_of_below ((hi.older hnil).2 c (hi.flying hc))
    · obtain ⟨m, ⟨hm, hmax⟩, hhold⟩ := h hnil
      have hne := hi.apart c hc m hm
      rcases lt_or_gt_of_ne hne with hlt | hgt
      · have hpar : Place.ofSeq c.stamp ≠ Place.ofSeq m.stamp := by
          rw [Ne, Place.ofSeq_eq_iff]
          exact fun heq => hC m ⟨hm, hmax⟩ ⟨hlt, heq⟩
        refine ⟨m, ⟨List.mem_cons_of_mem c hm, ?_⟩, hhold.put_older hlt hpar⟩
        intro d hd
        rcases List.mem_cons.mp hd with rfl | hd
        · exact hlt.le
        · exact hmax d hd
      · refine ⟨c, ⟨List.mem_cons_self, ?_⟩, Register.Holds.put_of_below (hhold.below_of_lt hgt)⟩
        intro d hd
        rcases List.mem_cons.mp hd with rfl | hd
        · exact le_refl _
        · exact (hmax d hd).trans hgt.le

theorem fresh_of_holding {s : State} (hi : Inv s) (h : Holding s) : Fresh s := by
  intro c hc
  obtain ⟨m, ⟨hm, hmax⟩, hhold⟩ := h (List.ne_nil_of_mem hc)
  have hpos := (hi.numbered m (hi.done hm)).1
  exact ⟨m, hi.done hm, RotatingFiles.readRotating_of_holds hhold hpos, hmax c hc⟩

theorem not_fresh_of_rollback {s t : State} {e : Event} (hi : Inv s) (hh : Holding s)
    (hC : ¬ NoRollback s e) (ht : step s e = some t) : ¬ Fresh t := by
  rcases step_cases ht with ⟨c, rfl, rfl⟩ | ⟨force, rfl, rfl⟩ | ⟨c, hc, rfl, rfl⟩
  · exact absurd trivial hC
  · exact absurd trivial hC
  · intro hfresh
    apply hC
    intro m hnewest hback
    obtain ⟨hm, hmax⟩ := hnewest
    obtain ⟨hlt, hpar⟩ := hback
    obtain ⟨m', ⟨hm', hmax'⟩, hhold⟩ := hh (List.ne_nil_of_mem hm)
    have hstamp : m'.stamp = m.stamp := le_antisymm (hmax m' hm') (hmax' m hm)
    have hbelow := hhold.put_clobber (d := c) (by omega)
      ((Place.ofSeq_eq_iff _ _).mpr (by omega))
    have hpos := (hi.numbered m' (hi.done hm')).1
    have hread := RotatingFiles.readRotating_lt_of_below hbelow hpos
    obtain ⟨d, -, hd, hle⟩ := hfresh m (List.mem_cons_of_mem c hm)
    have hd' : RotatingFiles.readRotating (Register.put Place.ofSeq s.files c) =
        (some d.val, d.stamp) := hd
    rw [hd'] at hread
    omega

/-- The findings file is never older than a completed write in a run exactly when no
write of the run lands on the newest completed copy from behind. -/
theorem flush_fresh_iff_no_rollback (path : String) (files : RotatingFiles FindingsDoc)
    (es : List Event) {u : State} (hrun : run step (start path files) es = some u) :
    Always step Fresh (start path files) es ↔ Along step NoRollback (start path files) es := by
  have hstep : ∀ s e t, (Inv s ∧ Holding s) → NoRollback s e → step s e = some t →
      Inv t ∧ Holding t :=
    fun s e t h hC ht => ⟨inv_step h.1 ht, holding_step h.1 h.2 hC ht⟩
  have h0 : Inv (start path files) ∧ Holding (start path files) :=
    ⟨inv_start path files, fun h => absurd rfl h⟩
  constructor
  · intro hall
    by_contra hno
    obtain ⟨pre, e, post, s, rfl, hpre, hs, hbad⟩ := exists_first_violation hno hrun
    obtain ⟨hi, hh⟩ := run_preserves_along hstep h0 hpre hs
    obtain ⟨v, hv, hrest⟩ := run_append_eq_some.mp hrun
    obtain rfl : s = v := Option.some.inj (hs.symm.trans hv)
    obtain ⟨t, ht, -⟩ := run_cons_eq_some.mp hrest
    refine not_fresh_of_rollback hi hh hbad ht (hall (pre ++ [e]) ?_ t ?_)
    · exact ⟨post, by simp⟩
    · exact run_concat_eq_some.mpr ⟨s, hs, ht⟩
  · intro hC pre hpre t ht
    obtain ⟨hi, hh⟩ := run_preserves_along hstep h0 (along_initial hpre hC) ht
    exact fresh_of_holding hi hh

/-! ## Several flushes in flight -/

def memoryError : AddCall :=
  { key := "memory-ce:DIMM_A1", severity := .warn, component := "Memory",
    title := "corrected errors" }

/-- Two calls take their copies, and the older one lands last, on the other slot. -/
def crossed : List Event :=
  [.change (.add memoryError), .snapshot false, .change (.add memoryError), .snapshot false,
    .write 1, .write 0]

/-- Three calls take their copies, the last one lands and then the first. -/
def overtaken : List Event :=
  [.change (.add memoryError), .snapshot false, .change (.add memoryError), .snapshot false,
    .change (.add memoryError), .snapshot false, .write 2, .write 0]

/-- Writes that cross on different slots leave the newer copy in the file. -/
theorem flush_fresh_iff_no_rollback_crossed :
    Always step Fresh (start "findings.json" RotatingFiles.empty) crossed := by
  refine (flush_fresh_iff_no_rollback "findings.json" RotatingFiles.empty crossed rfl).mpr ?_
  refine ⟨trivial, fun s hs => ?_⟩
  cases hs
  refine ⟨trivial, fun s hs => ?_⟩
  cases hs
  refine ⟨trivial, fun s hs => ?_⟩
  cases hs
  refine ⟨trivial, fun s hs => ?_⟩
  cases hs
  -- nothing has completed before the first write
  refine ⟨fun m hm => (nomatch hm.1), fun s hs => ?_⟩
  cases hs
  refine ⟨?_, fun _ _ => trivial⟩
  rintro m ⟨hm, -⟩ ⟨-, hpar⟩
  obtain rfl := List.mem_singleton.mp hm
  exact absurd hpar (by decide)

/-- After the third flush has completed, the file goes back to the first. -/
theorem flush_rolls_back :
    ¬ ∀ (path : String) (files : RotatingFiles FindingsDoc) (es : List Event) (u : State),
      run step (start path files) es = some u → Always step Fresh (start path files) es := by
  intro h
  have hfresh := h "findings.json" RotatingFiles.empty overtaken _ rfl overtaken
    (List.prefix_refl _) _ rfl
  obtain ⟨d, -, hd, hle⟩ := hfresh _ (List.mem_cons_of_mem _ List.mem_cons_self)
  have hread : (0 : Int) = d.stamp := congrArg Prod.snd hd
  have hlast : (2 : Int) ≤ d.stamp := hle
  omega

end FlushRace

end PcCheck
