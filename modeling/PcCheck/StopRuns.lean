/-
What becomes of the write tests that `DiskManager.stop` has signalled.

`Inv` follows each of them from the signal on: nobody holds its exit code, it is done or
`stop` is about to say so, and its entry says that it is incomplete by the time the last
`save_progress` of `stop` begins.  There is one lemma for each step of `finished`, of
`save_progress` and of `stop`.
-/
import PcCheck.DiskStops
import PcCheck.Lib.EventMachine

namespace PcCheck
namespace DiskStops

open EventMachine

variable {ι δ : Type}

structure Inv (w : World ι δ) : Prop where
  unreported : ∀ i, (w.writer i).exitCode = none ∨ w.terminated i = true → ¬ w.Reported i
  marked : ∀ i, w.terminated i = true → (w.writer i).done = true ∨ w.stop.ending = some i
  incomplete : ∀ i, w.terminated i = true →
    w.Incomplete i ∨ w.stop.closing = some i ∨ w.stop = .raised
  member : ∀ i, w.terminated i = true → i ∈ w.writers
  within : ∀ i ∈ w.stop.rest, i ∈ w.writers
  stopCall : ∀ i f, w.calling .stopper = some (i, f) → ∃ rest, w.stop = .checking (i :: rest)
  saveCall : ∀ i f, w.calling .saver = some (i, f) → ∃ s rest, w.saver = some s ∧
    s.rest = i :: rest ∧ s.stage = .finishing
  polling : ∀ th i, w.calling th = some (i, .polling) → th = .stopper ∨ w.stop = .saving →
    w.terminated i = false
  own : ∀ s, w.saver = some s → s.own = true → w.stop = .saving
  storing : w.stop = .saving ∨ w.stop = .over → ∀ s i rest done, w.saver = some s →
    s.rest = i :: rest → s.stage = .storing done → w.Incomplete i → done = false
  settled : w.stop = .saving ∨ w.stop = .over → ∀ i, w.terminated i = true →
    (∃ s, w.saver = some s ∧ s.own = true ∧ i ∈ s.rest) ∨ w.NotDone i

variable {w t : World ι δ}

theorem inv_opened (writers : List ι) (disk : ι → Disk δ) (entries : Dict String ScanEntry) :
    Inv (opened writers disk entries) where
  unreported := fun i _ hrep => by
    rcases hrep with ⟨c, hc, -⟩ | ⟨th, f, hf, -⟩
    · cases hc
    · cases hf
  marked := fun _ h => by cases h
  incomplete := fun _ h => by cases h
  member := fun _ h => by cases h
  within := fun _ h => by cases h
  stopCall := fun _ _ h => by cases h
  saveCall := fun _ _ h => by cases h
  polling := fun _ _ h => by cases h
  own := fun _ h => by cases h
  storing := fun h => by rcases h with h | h <;> cases h
  settled := fun h => by rcases h with h | h <;> cases h

/-! ## The steps of `finished` and of `save_progress` -/

theorem reported_congr {i : ι} (h : t.Reported i)
    (hdisk : (t.writer i).disk = (w.writer i).disk) (hcalls : t.calls = w.calls)
    (hcalling : ∀ th f, t.calling th = some (i, f) → f.code.isSome = true →
      w.calling th = some (i, f)) : w.Reported i := by
  rcases h with ⟨c, hc, hres⟩ | ⟨th, f, hf, hcode⟩
  · refine Or.inl ⟨c, hcalls ▸ hc, ?_⟩
    unfold World.IsResult at hres ⊢
    rw [hdisk] at hres
    exact hres
  · exact Or.inr ⟨th, f, hcalling th f hf hcode, hcode⟩

theorem calling_setCall (w : World ι δ) (th th' : Thread) (c : Option (ι × Finishing)) :
    (w.setCall th c).calling th' = if th' = th then c else w.calling th' :=
  Function.update_apply ..

/-- The rule for a step of `finished` from `f` to `g`: it comes by an exit code only of a
process `stop` has not signalled, and `stop` is never about to poll one that it has. -/
theorem inv_called (h : Inv w) {th : Thread} {i : ι} {f g : Finishing} {calls : List (ι × AddCall)}
    (hcall : w.calling th = some (i, f))
    (hcalls : ∀ j c, (j, c) ∈ calls → (j, c) ∈ w.calls ∨ j = i ∧ f.code.isSome = true)
    (hcode : g.code.isSome = true → f.code.isSome = true ∨
      (w.writer i).exitCode ≠ none ∧ w.terminated i = false)
    (hpoll : g = .polling → th = .stopper ∨ w.stop = .saving → w.terminated i = false) :
    Inv { w.setCall th (some (i, g)) with calls := calls } := by
  have hown : f.code.isSome = true → w.Reported i := fun hf => Or.inr ⟨th, f, hcall, hf⟩
  have hcases : ∀ {th' j e}, (w.setCall th (some (i, g))).calling th' = some (j, e) →
      th' = th ∧ j = i ∧ e = g ∨ w.calling th' = some (j, e) := by
    intro th' j e hj
    rw [calling_setCall] at hj
    split at hj
    · rename_i hth
      obtain ⟨rfl, rfl⟩ := Prod.mk.inj (Option.some.inj hj)
      exact Or.inl ⟨hth, rfl, rfl⟩
    · exact Or.inr hj
  refine ⟨fun j hj hrep => h.unreported j hj ?_, h.marked, h.incomplete, h.member, h.within,
    fun j e hj => ?_, fun j e hj => ?_, fun th' j hj hwho => ?_, h.own, h.storing, h.settled⟩
  · rcases hrep with ⟨c, hc, hres⟩ | ⟨th', e, he, hsome⟩
    · rcases hcalls j c hc with hold | ⟨rfl, hf⟩
      · exact Or.inl ⟨c, hold, hres⟩
      · exact hown hf
    · rcases hcases he with ⟨-, rfl, rfl⟩ | hold
      · rcases hcode hsome with hf | ⟨hexit, hlive⟩
        · exact hown hf
        · rcases hj with hnone | hdead
          · exact absurd hnone hexit
          · rw [show w.terminated j = true from hdead] at hlive
            cases hlive
      · exact Or.inr ⟨th', e, hold, hsome⟩
  · rcases hcases hj with ⟨rfl, rfl, -⟩ | hold
    · exact h.stopCall j f hcall
    · exact h.stopCall j e hold
  · rcases hcases hj with ⟨rfl, rfl, -⟩ | hold
    · exact h.saveCall j f hcall
    · exact h.saveCall j e hold
  · rcases hcases hj with ⟨rfl, rfl, hg⟩ | hold
    · exact hpoll hg.symm hwho
    · exact h.polling th' j hold hwho

theorem inv_enter (h : Inv w) (hsaver : w.saver = none) :
    Inv { w with saver := some { rest := w.writers } } where
  unreported := h.unreported
  marked := h.marked
  incomplete := h.incomplete
  member := h.member
  within := h.within
  stopCall := h.stopCall
  saveCall := fun i f hcall => by
    obtain ⟨s, rest, hs, -⟩ := h.saveCall i f hcall
    rw [hsaver] at hs
    cases hs
  polling := h.polling
  own := fun s hs hown => by
    obtain rfl := Option.some.inj hs
    cases hown
  storing := fun _ s i rest done hs _ hstage => by
    obtain rfl := Option.some.inj hs
    cases hstage
  settled := fun hfinal i hi => by
    rcases h.settled hfinal i hi with ⟨s, hs, -⟩ | hnot
    · rw [hsaver] at hs
      cases hs
    · exact Or.inr hnot

theorem Inv.done_of_ending (h : Inv w) (hending : w.stop.ending = none) {i : ι}
    (hi : w.terminated i = true) : (w.writer i).done = true := by
  rcases h.marked i hi with hdone | hsome
  · exact hdone
  · rw [hending] at hsome
    cases hsome

theorem Inv.incomplete_of_closing (h : Inv w) (hclosing : w.stop.closing = none)
    (hraised : w.stop ≠ .raised) {i : ι} (hi : w.terminated i = true) : w.Incomplete i := by
  rcases h.incomplete i hi with hinc | hsome | hstop
  · exact hinc
  · rw [hclosing] at hsome
    cases hsome
  · exact absurd hstop hraised

/-- Once the final `save_progress` has begun, the entries of all that was signalled say so. -/
theorem Inv.incomplete_of_final (h : Inv w) (hfinal : w.stop = .saving ∨ w.stop = .over) {i : ι}
    (hi : w.terminated i = true) : w.Incomplete i := by
  rcases hfinal with hs | hs <;>
    exact h.incomplete_of_closing (by rw [hs]; rfl) (by rw [hs]; simp) hi

theorem Inv.stopper_idle (h : Inv w) {stage : StopStage ι} (hstop : w.stop = stage)
    (hne : ∀ rest, stage ≠ .checking rest) : w.calling .stopper = none := by
  cases hcall : w.calling .stopper with
  | none => rfl
  | some p =>
    obtain ⟨rest, hchecking⟩ := h.stopCall p.1 p.2 hcall
    exact absurd (hstop.symm.trans hchecking) (hne _)

theorem inv_release (h : Inv w) {s : Saver ι} (hs : w.saver = some s) (hrest : s.rest = []) :
    Inv { w with saver := none, stop := if s.own then .over else w.stop } := by
  have hcall : ∀ i f, w.calling .saver ≠ some (i, f) := by
    intro i f hcall
    obtain ⟨s', rest, hs', hcons, -⟩ := h.saveCall i f hcall
    obtain rfl := Option.some.inj (hs.symm.trans hs')
    rw [hrest] at hcons
    cases hcons
  have hnot : ∀ i, w.stop = .saving ∨ w.stop = .over → w.terminated i = true → w.NotDone i := by
    intro i hfinal hi
    rcases h.settled hfinal i hi with ⟨s', hs', -, hmem⟩ | hnot
    · obtain rfl := Option.some.inj (hs.symm.trans hs')
      rw [hrest] at hmem
      cases hmem
    · exact hnot
  cases hown : s.own with
  | false =>
    exact ⟨h.unreported, h.marked, h.incomplete, h.member, h.within, h.stopCall,
      fun i f hf => absurd hf (hcall i f), h.polling, fun s' hs' => (by cases hs'),
      fun _ s' _ _ _ hs' => (by cases hs'), fun hfinal i hi => Or.inr (hnot i hfinal hi)⟩
  | true =>
    have hsaving := h.own s hs hown
    have hidle := h.stopper_idle hsaving (by simp)
    have hstopper : ∀ i f, w.calling .stopper ≠ some (i, f) := fun i f hf => by
      rw [hidle] at hf
      cases hf
    refine ⟨h.unreported, fun i hi => Or.inl (h.done_of_ending (by rw [hsaving]; rfl) hi),
      fun i hi => Or.inl (h.incomplete_of_final (Or.inl hsaving) hi), h.member,
      fun i hi => (by cases hi), fun i f hf => absurd hf (hstopper i f),
      fun i f hf => absurd hf (hcall i f), fun th i hf => ?_, fun s' hs' => (by cases hs'),
      fun _ s' _ _ _ hs' => (by cases hs'), fun _ i hi => Or.inr (hnot i (Or.inl hsaving) hi)⟩
    cases th with
    | saver => exact absurd hf (hcall i _)
    | stopper => exact absurd hf (hstopper i _)

theorem inv_fetch_none (h : Inv w) {s : Saver ι} {i : ι} {rest : List ι} (hs : w.saver = some s)
    (hrest : s.rest = i :: rest) (hstage : s.stage = .fetch) (hentry : w.entry i = none) :
    Inv { w with saver := some { s with rest := rest } } where
  unreported := h.unreported
  marked := h.marked
  incomplete := h.incomplete
  member := h.member
  within := h.within
  stopCall := h.stopCall
  saveCall := fun j f hcall => by
    obtain ⟨s', rest', hs', -, hfin⟩ := h.saveCall j f hcall
    obtain rfl := Option.some.inj (hs.symm.trans hs')
    rw [hstage] at hfin
    cases hfin
  polling := h.polling
  own := fun s' hs' hown => by
    obtain rfl := Option.some.inj hs'
    exact h.own s hs hown
  storing := fun _ s' j rest' done hs' _ hst => by
    obtain rfl := Option.some.inj hs'
    rw [show s.stage = _ from hst] at hstage
    cases hstage
  settled := fun hfinal j hj => by
    rcases h.settled hfinal j hj with ⟨s', hs', hown, hmem⟩ | hnot
    · obtain rfl := Option.some.inj (hs.symm.trans hs')
      rw [hrest] at hmem
      rcases List.mem_cons.mp hmem with rfl | hmem
      · obtain ⟨e, he, -⟩ := h.incomplete_of_final hfinal hj
        rw [hentry] at he
        cases he
      · exact Or.inl ⟨_, rfl, hown, hmem⟩
    · exact Or.inr hnot

theorem inv_fetch_some (h : Inv w) {s : Saver ι} {i : ι} {rest : List ι} (hs : w.saver = some s)
    (hrest : s.rest = i :: rest) :
    Inv { w.setCall .saver (some (i, .called)) with
      saver := some { s with stage := .finishing } } where
  unreported := fun j hj hrep => by
    refine h.unreported j hj (reported_congr hrep rfl rfl fun th f hf hcode => ?_)
    cases th with
    | saver =>
      obtain ⟨-, rfl⟩ := Prod.mk.inj (Option.some.inj hf)
      cases hcode
    | stopper => exact hf
  marked := h.marked
  incomplete := h.incomplete
  member := h.member
  within := h.within
  stopCall := h.stopCall
  saveCall := fun j f hcall => by
    obtain ⟨rfl, -⟩ := Prod.mk.inj (Option.some.inj hcall)
    exact ⟨_, rest, rfl, hrest, rfl⟩
  polling := fun th j hj => by
    cases th with
    | saver =>
      obtain ⟨-, hcalled⟩ := Prod.mk.inj (Option.some.inj hj)
      cases hcalled
    | stopper => exact h.polling .stopper j hj
  own := fun s' hs' hown => by
    obtain rfl := Option.some.inj hs'
    exact h.own s hs hown
  storing := fun _ s' j rest' done hs' _ hst => by
    obtain rfl := Option.some.inj hs'
    cases hst
  settled := fun hfinal j hj => by
    rcases h.settled hfinal j hj with ⟨s', hs', hown, hmem⟩ | hnot
    · obtain rfl := Option.some.inj (hs.symm.trans hs')
      exact Or.inl ⟨_, rfl, hown, hmem⟩
    · exact Or.inr hnot

theorem inv_evaluate (h : Inv w) {s : Saver ι} {i : ι} {rest : List ι} {e : ScanEntry}
    (hs : w.saver = some s) (hrest : s.rest = i :: rest) (hentry : w.entry i = some e)
    (result : Bool) :
    Inv { w.setCall .saver none with
      saver := some { s with stage := .storing (result && !e.incomplete) } } where
  unreported := fun j hj hrep => by
    refine h.unreported j hj (reported_congr hrep rfl rfl fun th f hf hcode => ?_)
    cases th with
    | saver => cases hf
    | stopper => exact hf
  marked := h.marked
  incomplete := h.incomplete
  member := h.member
  within := h.within
  stopCall := h.stopCall
  saveCall := fun j f hcall => by cases hcall
  polling := fun th j hj => by
    cases th with
    | saver => cases hj
    | stopper => exact h.polling .stopper j hj
  own := fun s' hs' hown => by
    obtain rfl := Option.some.inj hs'
    exact h.own s hs hown
  storing := fun _ s' j rest' done hs' hcons hst hinc => by
    obtain rfl := Option.some.inj hs'
    obtain ⟨rfl, -⟩ := List.cons.inj (hrest.symm.trans hcons)
    obtain rfl := SaveStage.storing.inj hst
    obtain ⟨e', he', hflag⟩ := hinc
    obtain rfl := Option.some.inj (hentry.symm.trans he')
    rw [hflag]
    exact Bool.and_false result
  settled := fun hfinal j hj => by
    rcases h.settled hfinal j hj with ⟨s', hs', hown, hmem⟩ | hnot
    · obtain rfl := Option.some.inj (hs.symm.trans hs')
      exact Or.inl ⟨_, rfl, hown, hmem⟩
    · exact Or.inr hnot

theorem inv_store (h : Inv w) {s : Saver ι} {i : ι} {rest : List ι} {e : ScanEntry} {done : Bool}
    (hs : w.saver = some s) (hrest : s.rest = i :: rest) (hstage : s.stage = .storing done)
    (hentry : w.entry i = some e) :
    Inv { w.setEntry i { e with done := done } with
      saver := some { s with rest := rest, stage := .fetch } } := by
  have hinc : ∀ j, (w.setEntry i { e with done := done }).Incomplete j ↔ w.Incomplete j :=
    fun j => World.incomplete_setEntry_done hentry done
  have hdone : w.stop = .saving ∨ w.stop = .over → e.incomplete = true → done = false :=
    fun hfinal hflag => h.storing hfinal s i rest done hs hrest hstage ⟨e, hentry, hflag⟩
  refine ⟨h.unreported, h.marked, fun j hj => (h.incomplete j hj).imp_left (hinc j).mpr, h.member,
    h.within, h.stopCall, fun j f hcall => ?_, h.polling, fun s' hs' hown => ?_,
    fun _ s' j rest' done' hs' _ hst => ?_, fun hfinal j hj => ?_⟩
  · obtain ⟨s', rest', hs', -, hfin⟩ := h.saveCall j f hcall
    obtain rfl := Option.some.inj (hs.symm.trans hs')
    rw [hstage] at hfin
    cases hfin
  · obtain rfl := Option.some.inj hs'
    exact h.own s hs hown
  · obtain rfl := Option.some.inj hs'
    cases hst
  · have hj' := h.incomplete_of_final hfinal hj
    rcases h.settled hfinal j hj with ⟨s', hs', hown, hmem⟩ | hnot
    · obtain rfl := Option.some.inj (hs.symm.trans hs')
      rw [hrest] at hmem
      rcases List.mem_cons.mp hmem with rfl | hmem
      · obtain ⟨e', he', hflag⟩ := hj'
        obtain rfl := Option.some.inj (hentry.symm.trans he')
        refine Or.inr ⟨{ e with done := done }, ?_, hdone hfinal hflag⟩
        show (w.setEntry j { e with done := done }).entry j = _
        rw [World.entry_setEntry, if_pos rfl]
      · exact Or.inl ⟨_, rfl, hown, hmem⟩
    · exact Or.inr (World.notDone_setEntry_done hentry (hdone hfinal) hnot hj')

/-- The write tests go on: one may exit and one may become done. -/
theorem inv_writer (h : Inv w) {writer : ι → WriteVerify δ}
    (hwriter : ∀ j, (writer j).disk = (w.writer j).disk ∧
      ((w.writer j).done = true → (writer j).done = true))
    (hexit : ∀ j, (writer j).exitCode = none → (w.writer j).exitCode = none) :
    Inv { w with writer := writer } := by
  have hentry : ∀ j, World.entry { w with writer := writer } j = w.entry j :=
    fun j => World.entry_congr (hwriter j).1 rfl
  refine ⟨fun j hj hrep => ?_, fun j hj => (h.marked j hj).imp_left (hwriter j).2,
    fun j hj => ?_, h.member, h.within, h.stopCall, h.saveCall, h.polling, h.own, fun hs => ?_,
    fun hs j hj => ?_⟩
  · exact h.unreported j (hj.imp_left (hexit j))
      (reported_congr hrep (hwriter j).1 rfl fun _ _ hf _ => hf)
  · unfold World.Incomplete
    rw [hentry]
    exact h.incomplete j hj
  · unfold World.Incomplete
    simp only [hentry]
    exact h.storing hs
  · unfold World.NotDone
    rw [hentry]
    exact h.settled hs j hj

/-! ### The steps of `stop` -/

/-- `stop` moves on, short of its final `save_progress`. -/
theorem inv_stage (h : Inv w) {stage : StopStage ι} (hlive : w.stop ≠ .saving)
    (hfinal : stage ≠ .saving ∧ stage ≠ .over)
    (hmarked : ∀ i, w.terminated i = true → (w.writer i).done = true ∨ stage.ending = some i)
    (hinc : ∀ i, w.terminated i = true →
      w.Incomplete i ∨ stage.closing = some i ∨ stage = .raised)
    (hwithin : ∀ i ∈ stage.rest, i ∈ w.writers)
    (hcall : ∀ i f, w.calling .stopper = some (i, f) → ∃ rest, stage = .checking (i :: rest)) :
    Inv { w with stop := stage } where
  unreported := h.unreported
  marked := hmarked
  incomplete := hinc
  member := h.member
  within := hwithin
  stopCall := hcall
  saveCall := h.saveCall
  polling := fun th i hi hwho => by
    rcases hwho with hth | hsaving
    · exact h.polling th i hi (Or.inl hth)
    · exact absurd hsaving hfinal.1
  own := fun s hs hown => absurd (h.own s hs hown) hlive
  storing := fun hs => by rcases hs with hs | hs <;> simp [hfinal] at hs
  settled := fun hs => by rcases hs with hs | hs <;> simp [hfinal] at hs

theorem StopStage.ending_of_closing {stage : StopStage ι} (h : stage.closing = none) :
    stage.ending = none := by
  cases stage <;> first | rfl | exact h

/-- `stop` moves on from where nothing it has signalled is left to mark. -/
theorem inv_settled (h : Inv w) {old stage : StopStage ι} (hstop : w.stop = old)
    (hidle : w.calling .stopper = none) (hclosing : old.closing = none)
    (hlive : old ≠ .saving ∧ old ≠ .raised) (hfinal : stage ≠ .saving ∧ stage ≠ .over)
    (hwithin : ∀ i ∈ stage.rest, i ∈ w.writers) : Inv { w with stop := stage } := by
  subst hstop
  have hending := StopStage.ending_of_closing hclosing
  refine inv_stage h hlive.1 hfinal (fun i hi => Or.inl (h.done_of_ending hending hi))
    (fun i hi => Or.inl (h.incomplete_of_closing hclosing hlive.2 hi)) hwithin fun i f hf => ?_
  rw [hidle] at hf
  cases hf

theorem inv_hangUp (h : Inv w) : Inv (w.setCall .stopper none) where
  unreported := fun j hj hrep => by
    refine h.unreported j hj (reported_congr hrep rfl rfl fun th f hf _ => ?_)
    cases th with
    | stopper => cases hf
    | saver => exact hf
  marked := h.marked
  incomplete := h.incomplete
  member := h.member
  within := h.within
  stopCall := fun i f hf => by cases hf
  saveCall := h.saveCall
  polling := fun th i hi => by
    cases th with
    | stopper => cases hi
    | saver => exact h.polling .saver i hi
  own := h.own
  storing := h.storing
  settled := h.settled

/-- `stop` turns to its next write test, or to the final `save_progress`. -/
theorem inv_next (h : Inv w) {old : StopStage ι} {rest : List ι} (hstop : w.stop = old)
    (hidle : w.calling .stopper = none) (hclosing : old.closing = none)
    (hlive : old ≠ .saving ∧ old ≠ .raised) (hwithin : ∀ i ∈ rest, i ∈ w.writers) :
    Inv (w.next rest) := by
  cases rest with
  | nil =>
    exact inv_settled h hstop hidle hclosing hlive ⟨by simp, by simp⟩ fun i hi => by cases hi
  | cons i rest =>
    have hstage : Inv { w with stop := .checking (i :: rest) } :=
      inv_settled h hstop hidle hclosing hlive ⟨by simp, by simp⟩ hwithin
    refine ⟨fun j hj hrep => ?_, hstage.marked, hstage.incomplete, hstage.member, hstage.within,
      fun j f hf => ?_, hstage.saveCall, fun th j hj => ?_, hstage.own, hstage.storing,
      hstage.settled⟩
    · refine h.unreported j hj (reported_congr hrep rfl rfl fun th f hf hcode => ?_)
      cases th with
      | stopper =>
        obtain ⟨-, rfl⟩ := Prod.mk.inj (Option.some.inj hf)
        cases hcode
      | saver => exact hf
    · obtain ⟨rfl, -⟩ := Prod.mk.inj (Option.some.inj hf)
      exact ⟨rest, rfl⟩
    · cases th with
      | stopper =>
        obtain ⟨-, hcalled⟩ := Prod.mk.inj (Option.some.inj hj)
        cases hcalled
      | saver => exact hstage.polling .saver j hj

theorem unfinishedCall_key_ne (v : WriteVerify δ) (now name : String) :
    (unfinishedCall v now).key ≠ s!"writeverify:{name}" ∧
      (unfinishedCall v now).key ≠ s!"writeverify-ok:{name}" :=
  ⟨append_ne_append 12 (by decide) (by decide) (by decide) v.disk.name name,
    append_ne_append 13 (by decide) (by decide) (by decide) v.disk.name name⟩

theorem inv_file (h : Inv w) (i : ι) (now : String) :
    Inv (w.add i (unfinishedCall (w.writer i) now)) where
  unreported := fun j hj hrep => by
    refine h.unreported j hj ?_
    rcases hrep with ⟨c, hc, hres⟩ | hcode
    · rcases List.mem_append.mp hc with hold | hnew
      · exact Or.inl ⟨c, hold, hres⟩
      · obtain ⟨-, rfl⟩ := Prod.mk.inj (List.mem_singleton.mp hnew)
        rcases hres with hkey | hkey
        · exact absurd hkey (unfinishedCall_key_ne _ now _).1
        · exact absurd hkey (unfinishedCall_key_ne _ now _).2
    · exact Or.inr hcode
  marked := h.marked
  incomplete := h.incomplete
  member := h.member
  within := h.within
  stopCall := h.stopCall
  saveCall := h.saveCall
  polling := h.polling
  own := h.own
  storing := h.storing
  settled := h.settled

/-- The process that was signalled has exited, or could not be killed in time. -/
theorem inv_terminated (h : Inv w) {rest : List ι} (hstop : w.stop = .terminating rest) :
    Inv { w with stop := .stopped rest } := by
  have hidle := h.stopper_idle hstop (by simp)
  have hwithin := h.within
  have hmarked := h.marked
  have hinc := h.incomplete
  rw [hstop] at hwithin hmarked hinc
  refine inv_stage h (by rw [hstop]; simp) ⟨by simp, by simp⟩ hmarked (fun j hj => ?_) hwithin
    fun j f hf => ?_
  · exact (hinc j hj).imp_right (Or.imp_right fun hraised => by cases hraised)
  · rw [hidle] at hf
    cases hf

/-- The entry of the write test is gone: `stop` ends with a `KeyError`. -/
theorem inv_missing (h : Inv w) {rest : List ι} (hstop : w.stop = .marked rest) :
    Inv { w with stop := .raised } := by
  have hidle := h.stopper_idle hstop (by simp)
  refine inv_stage h (by rw [hstop]; simp) ⟨by simp, by simp⟩
    (fun j hj => Or.inl (h.done_of_ending (by rw [hstop]; rfl) hj))
    (fun _ _ => Or.inr (Or.inr rfl)) (fun j hj => by cases hj) fun j f hf => ?_
  rw [hidle] at hf
  cases hf

theorem inv_flag (h : Inv w) {i : ι} {rest : List ι} {e : ScanEntry}
    (hstop : w.stop = .marked (i :: rest)) :
    Inv { w.setEntry i { e with incomplete := true } with stop := .filing (i :: rest) } := by
  have hidle := h.stopper_idle hstop (by simp)
  refine ⟨h.unreported, fun j hj => Or.inl (h.done_of_ending (by rw [hstop]; rfl) hj),
    fun j hj => Or.inl ?_, h.member, fun j hj => h.within j (by rw [hstop]; exact hj),
    fun j f hf => ?_, h.saveCall, fun th j hj hwho => ?_, fun s hs hown => ?_, fun hs => ?_,
    fun hs => ?_⟩
  · refine World.incomplete_setEntry ?_
    rcases h.incomplete j hj with hinc | hclosing | hraised
    · exact Or.inl hinc
    · rw [hstop] at hclosing
      exact Or.inr (Option.some.inj hclosing).symm
    · rw [hstop] at hraised
      cases hraised
  · rw [show w.calling .stopper = some (j, f) from hf] at hidle
    cases hidle
  · rcases hwho with hth | hsaving
    · exact h.polling th j hj (Or.inl hth)
    · cases hsaving
  · have hsaving := h.own s hs hown
    rw [hstop] at hsaving
    cases hsaving
  · rcases hs with hs | hs <;> cases hs
  · rcases hs with hs | hs <;> cases hs

theorem inv_saveLast (h : Inv w) (hstop : w.stop = .waiting) (hsaver : w.saver = none) :
    Inv { w with saver := some { rest := w.writers, own := true }, stop := .saving } := by
  have hidle : ∀ th j f, w.calling th ≠ some (j, f) := by
    intro th j f hf
    cases th with
    | saver =>
      obtain ⟨s, rest, hs, -⟩ := h.saveCall j f hf
      rw [hsaver] at hs
      cases hs
    | stopper =>
      obtain ⟨rest, hchecking⟩ := h.stopCall j f hf
      rw [hstop] at hchecking
      cases hchecking
  refine ⟨h.unreported, fun j hj => Or.inl (h.done_of_ending (by rw [hstop]; rfl) hj),
    fun j hj => Or.inl (h.incomplete_of_closing (by rw [hstop]; rfl) (by rw [hstop]; simp) hj),
    h.member, fun j hj => (by cases hj), fun j f hf => absurd hf (hidle _ j f),
    fun j f hf => absurd hf (hidle _ j f), fun th j hj => absurd hj (hidle th j _),
    fun _ _ _ => rfl, fun _ s j rest done hs _ hst => ?_,
    fun _ j hj => Or.inl ⟨_, rfl, rfl, h.member j hj⟩⟩
  obtain rfl := Option.some.inj hs
  cases hst

/-! ### Every step -/

variable [DecidableEq ι]

theorem inv_save (h : Inv w) (ht : step w .save = some t) : Inv t := by
  obtain ⟨s, hs, ht⟩ := Option.bind_eq_some_iff.mp ht
  unfold World.saveStep at ht
  split at ht
  · rename_i hrest
    obtain rfl := Option.some.inj ht
    exact inv_release h hs hrest
  · rename_i i rest hrest
    split at ht
    · rename_i hstage
      split at ht
      · rename_i hentry
        obtain rfl := Option.some.inj ht
        exact inv_fetch_none h hs hrest hstage hentry
      · obtain rfl := Option.some.inj ht
        exact inv_fetch_some h hs hrest
    · split at ht
      · rename_i result e hcall hentry
        obtain rfl := Option.some.inj ht
        exact inv_evaluate h hs hrest hentry result
      · cases ht
    · rename_i done hstage
      split at ht
      · rename_i e hentry
        obtain rfl := Option.some.inj ht
        exact inv_store h hs hrest hstage hentry
      · cases ht

theorem inv_setDone (h : Inv w) (i : ι) : Inv (w.setDone i) := by
  refine inv_writer h (fun j => ?_) fun j hnone => ?_
  · by_cases hj : j = i
    · subst hj
      rw [Function.update_self]
      exact ⟨rfl, fun _ => rfl⟩
    · rw [Function.update_of_ne hj]
      exact ⟨rfl, id⟩
  · by_cases hj : j = i
    · subst hj
      rwa [Function.update_self] at hnone
    · rwa [Function.update_of_ne hj] at hnone

theorem inv_finish (h : Inv w) {th : Thread} {now : String} (hw : Spares w (.finish th now))
    (ht : step w (.finish th now) = some t) : Inv t := by
  simp only [step] at ht
  split at ht
  · rename_i i f hcall
    obtain ⟨⟨u, g⟩, hu, rfl⟩ := Option.map_eq_some_iff.mp ht
    cases f with
    | called =>
      obtain ⟨rfl, rfl⟩ := Prod.mk.inj (Option.some.inj hu)
      refine inv_called h hcall (fun _ _ => Or.inl) (fun hcode => ?_) fun hpoll hwho => ?_
      · split at hcode <;> cases hcode
      · split at hpoll
        · cases hpoll
        · rename_i hdone
          by_contra hdead
          rcases h.marked i (Bool.eq_true_of_not_eq_false hdead) with hmark | hending
          · exact hdone hmark
          · rcases hwho with rfl | hsaving
            · obtain ⟨rest, hstop⟩ := h.stopCall i _ hcall
              rw [hstop] at hending
              cases hending
            · rw [hsaving] at hending
              cases hending
    | polling =>
      obtain ⟨rfl, rfl⟩ := Prod.mk.inj (Option.some.inj hu)
      refine inv_called h hcall (fun _ _ => Or.inl) (fun hcode => Or.inr ?_) fun hpoll => ?_
      · have hexit : (w.writer i).exitCode ≠ none := by
          intro hnone
          rw [hnone] at hcode
          cases hcode
        refine ⟨hexit, ?_⟩
        cases th with
        | stopper => exact h.polling .stopper i hcall (Or.inl rfl)
        | saver =>
          obtain ⟨s, rest, hs, -, -⟩ := h.saveCall i _ hcall
          cases hown : s.own with
          | true => exact h.polling .saver i hcall (Or.inr (h.own s hs hown))
          | false =>
            by_contra hdead
            exact hexit (hw s i hs hown hcall (Bool.eq_true_of_not_eq_false hdead))
      · split at hpoll <;> cases hpoll
    | ended rc =>
      obtain ⟨rfl, rfl⟩ := Prod.mk.inj (Option.some.inj hu)
      have hdone := inv_setDone h i
      exact inv_called hdone hcall (fun _ _ => Or.inl) (fun _ => Or.inl rfl)
        fun hpoll => by cases hpoll
    | closed rc =>
      obtain ⟨rfl, rfl⟩ := Prod.mk.inj (Option.some.inj hu)
      refine inv_called h hcall (fun j c hc => ?_) (fun hcode => by cases hcode)
        fun hpoll => by cases hpoll
      rcases List.mem_append.mp hc with hold | hnew
      · exact Or.inl hold
      · obtain ⟨rfl, -⟩ := Prod.mk.inj (List.mem_singleton.mp hnew)
        exact Or.inr ⟨rfl, rfl⟩
    | returned r => cases hu
  · cases ht

theorem inv_exit (h : Inv w) {i : ι} {rc : Int} (ht : step w (.exit i rc) = some t) : Inv t := by
  simp only [step] at ht
  split at ht
  · rename_i hexit
    obtain rfl := Option.some.inj ht
    refine inv_writer h (fun j => ?_) fun j hnone => ?_
    · by_cases hj : j = i
      · subst hj
        rw [Function.update_self]
        exact ⟨rfl, id⟩
      · rw [Function.update_of_ne hj]
        exact ⟨rfl, id⟩
    · by_cases hj : j = i
      · rw [hj]
        exact hexit
      · rwa [Function.update_of_ne hj] at hnone
  · cases ht

theorem inv_signal (h : Inv w) {i : ι} {rest : List ι} (hstop : w.stop = .stopping (i :: rest))
    (hexit : (w.writer i).exitCode = none) :
    Inv { w with stop := .terminating (i :: rest),
                 terminated := Function.update w.terminated i true } := by
  have hidle := h.stopper_idle hstop (by simp)
  have hold : ∀ j, Function.update w.terminated i true j = true →
      j = i ∨ w.terminated j = true := by
    intro j hj
    by_cases hji : j = i
    · exact Or.inl hji
    · rw [Function.update_of_ne hji] at hj
      exact Or.inr hj
  refine ⟨fun j hj hrep => ?_, fun j hj => ?_, fun j hj => ?_, fun j hj => ?_, fun j hj => ?_,
    fun j f hf => ?_, h.saveCall, fun th j hj hwho => ?_, fun s hs hown => ?_, fun hs => ?_,
    fun hs => ?_⟩
  · refine h.unreported j ?_ hrep
    rcases hj with hnone | hdead
    · exact Or.inl hnone
    · rcases hold j hdead with rfl | hj
      · exact Or.inl hexit
      · exact Or.inr hj
  · rcases hold j hj with rfl | hj
    · exact Or.inr rfl
    · exact Or.inl (h.done_of_ending (by rw [hstop]; rfl) hj)
  · rcases hold j hj with rfl | hj
    · exact Or.inr (Or.inl rfl)
    · exact Or.inl (h.incomplete_of_closing (by rw [hstop]; rfl) (by rw [hstop]; simp) hj)
  · rcases hold j hj with rfl | hj
    · exact h.within j (by rw [hstop]; exact List.mem_cons_self)
    · exact h.member j hj
  · exact h.within j (by rw [hstop]; exact hj)
  · rw [show w.calling .stopper = some (j, f) from hf] at hidle
    cases hidle
  · rcases hwho with rfl | hsaving
    · rw [show w.calling .stopper = some (j, .polling) from hj] at hidle
      cases hidle
    · cases hsaving
  · have hsaving := h.own s hs hown
    rw [hstop] at hsaving
    cases hsaving
  · rcases hs with hs | hs <;> cases hs
  · rcases hs with hs | hs <;> cases hs

theorem inv_mark (h : Inv w) {i : ι} {rest : List ι} (hstop : w.stop = .stopped (i :: rest)) :
    Inv { w.setDone i with stop := .marked (i :: rest) } := by
  have hdone := inv_setDone h i
  have hstop' : (w.setDone i).stop = .stopped (i :: rest) := hstop
  have hidle := hdone.stopper_idle hstop' (by simp)
  have hwithin := hdone.within
  have hmarked := hdone.marked
  have hinc := hdone.incomplete
  rw [hstop'] at hwithin hmarked hinc
  refine inv_stage hdone (by rw [hstop']; simp) ⟨by simp, by simp⟩ (fun j hj => Or.inl ?_)
    (fun j hj => ?_) hwithin fun j f hf => ?_
  · rcases hmarked j hj with hdone | hending
    · exact hdone
    · obtain rfl : i = j := Option.some.inj hending
      simp [World.setDone]
  · exact (hinc j hj).imp_right (Or.imp_right fun hraised => by cases hraised)
  · rw [hidle] at hf
    cases hf

theorem inv_stop (h : Inv w) {now : String} (ht : step w (.stop now) = some t) : Inv t := by
  have ht' : w.stopStep now = some t := ht
  have hwithin : ∀ stage, w.stop = stage → ∀ j ∈ stage.rest, j ∈ w.writers :=
    fun stage hstop j hj => h.within j (hstop ▸ hj)
  unfold World.stopStep at ht'
  split at ht'
  · -- the first write test
    rename_i hstop
    obtain rfl := Option.some.inj ht'
    exact inv_next h hstop (h.stopper_idle hstop (by simp)) rfl ⟨by simp, by simp⟩ fun _ hi => hi
  · rename_i i rest hstop
    have hup := inv_hangUp h
    split at ht'
    · -- it has finished by itself
      obtain rfl := Option.some.inj ht'
      exact inv_next hup hstop rfl rfl ⟨by simp, by simp⟩ fun j hj =>
        hwithin _ hstop j (List.mem_cons_of_mem i hj)
    · obtain rfl := Option.some.inj ht'
      exact inv_settled hup hstop rfl rfl ⟨by simp, by simp⟩ ⟨by simp, by simp⟩
        fun j hj => hwithin _ hstop j hj
    · cases ht'
  · rename_i i rest hstop
    split at ht'
    · rename_i hexit
      obtain rfl := Option.some.inj ht'
      exact inv_signal h hstop hexit
    · obtain rfl := Option.some.inj ht'
      exact inv_settled h hstop (h.stopper_idle hstop (by simp)) rfl ⟨by simp, by simp⟩
        ⟨by simp, by simp⟩ fun j hj => hwithin _ hstop j hj
  · rename_i i rest hstop
    obtain rfl := Option.some.inj ht'
    exact inv_terminated h hstop
  · rename_i i rest hstop
    obtain rfl := Option.some.inj ht'
    exact inv_mark h hstop
  · rename_i i rest hstop
    split at ht'
    · obtain rfl := Option.some.inj ht'
      exact inv_flag h hstop
    · obtain rfl := Option.some.inj ht'
      exact inv_missing h hstop
  · -- the finding is added, and the next write test comes
    rename_i i rest hstop
    have hfile := inv_file h i now
    obtain rfl := Option.some.inj ht'
    exact inv_next hfile hstop (h.stopper_idle hstop (by simp)) rfl ⟨by simp, by simp⟩ fun j hj =>
      hwithin _ hstop j (List.mem_cons_of_mem i hj)
  · rename_i hstop
    split at ht'
    · rename_i hsaver
      obtain rfl := Option.some.inj ht'
      exact inv_saveLast h hstop hsaver
    · cases ht'
  · cases ht'

theorem inv_step {e : Event ι} (h : Inv w) (hw : Spares w e) (ht : step w e = some t) : Inv t := by
  cases e with
  | enter =>
    simp only [step] at ht
    split at ht
    · rename_i hsaver
      obtain rfl := Option.some.inj ht
      exact inv_enter h hsaver
    · cases ht
  | finish th now => exact inv_finish h hw ht
  | save => exact inv_save h ht
  | stop now => exact inv_stop h ht
  | exit i rc => exact inv_exit h ht

/-- Where no other thread comes by the exit code of a process that `stop` has ended, a write
test that was stopped has no result, and after `stop` its entry is not done. -/
theorem no_result_of_spared (writers : List ι) (disk : ι → Disk δ)
    (entries : Dict String ScanEntry) {es : List (Event ι)} {w : World ι δ}
    (hC : Along step Spares (opened writers disk entries) es)
    (hrun : run step (opened writers disk entries) es = some w) {i : ι}
    (hi : w.terminated i = true) :
    (∀ c, (i, c) ∈ w.calls → ¬ w.IsResult i c) ∧ (w.stop = .over → w.NotDone i) := by
  have h : Inv w := run_preserves_along (fun _ _ _ h hw ht => inv_step h hw ht)
    (inv_opened writers disk entries) hC hrun
  refine ⟨fun c hc hres => h.unreported i (Or.inr hi) (Or.inl ⟨c, hc, hres⟩), fun hover => ?_⟩
  rcases h.settled (Or.inr hover) i hi with ⟨s, hs, hown, -⟩ | hnot
  · have hsaving := h.own s hs hown
    rw [hover] at hsaving
    cases hsaving
  · exact hnot

/-! ## A heartbeat between the exit and `done` -/

def oneDisk (_ : Unit) : Disk Nat := { device := 0, name := "sda", size := 8, serial := "S1" }

def oneEntry : Dict String ScanEntry :=
  Dict.ofList [(diskId (oneDisk ()), ⟨"sda", "", 8, 0, false, .writeVerify, false⟩)]

/-- `stop` finds the test running and signals it. -/
def signals : List (Event Unit) :=
  [.stop "", .finish .stopper "", .finish .stopper "", .stop "", .stop ""]

/-- The process exits, and `stop` gets to the lock and begins its `save_progress`. -/
def stopsAlone : List (Event Unit) :=
  signals ++ [.exit () (-15), .stop "", .stop "", .stop "", .stop "", .stop "", .save]

def savesLast : List (Event Unit) := [.finish .saver "", .save, .save, .save]

/-- `save_progress` of the heartbeat asks for the exit code before `stop` has set `done`. -/
def heartbeatAsks : List (Event Unit) :=
  signals ++ [.exit () (-15), .enter, .save, .finish .saver "", .finish .saver "",
    .finish .saver "", .finish .saver ""]

theorem spares_stopsAlone :
    Along step Spares (opened [()] oneDisk oneEntry) (stopsAlone ++ savesLast) := by
  have hquiet : ∀ e ∈ stopsAlone, ∀ w : World Unit Nat, Spares w e := by
    intro e he
    refine spares_of_ne ?_
    rintro now rfl
    simp [stopsAlone, signals] at he
  refine along_append (along_of_forall hquiet) fun t ht =>
    ⟨fun s i hs hown _ _ => ?_, fun _ _ => ?_⟩
  · -- the thread in `finished` is the one that called `stop`
    obtain rfl := Option.some.inj ht
    obtain rfl := Option.some.inj hs
    cases hown
  · refine along_of_forall fun e he => spares_of_ne ?_
    rintro now rfl
    simp at he

theorem no_result_of_spared_stopsAlone :
    ∃ w, run step (opened [()] oneDisk oneEntry) (stopsAlone ++ savesLast) = some w ∧
      (∀ c, ((), c) ∈ w.calls → ¬ w.IsResult () c) ∧ (w.stop = .over → w.NotDone ()) :=
  ⟨_, rfl, no_result_of_spared [()] oneDisk oneEntry spares_stopsAlone rfl rfl⟩

theorem stop_reported_as_failure :
    ¬ ∀ (es : List (Event Unit)) (w : World Unit Nat),
      run step (opened [()] oneDisk oneEntry) es = some w → ∀ i, w.terminated i = true →
        ∀ c, (i, c) ∈ w.calls → ¬ w.IsResult i c := by
  intro h
  exact h heartbeatAsks _ rfl () rfl _ (List.mem_singleton.mpr rfl) (Or.inl rfl)

end DiskStops
end PcCheck
