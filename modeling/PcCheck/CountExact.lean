/-
What the counts come to.

Each step keeps the balance of the counts, so that a poll which reads everything leaves a
count exact or off by what the files disagreed about when the process was started.
-/
import PcCheck.CountCredit
import PcCheck.Lib.EventMachine

namespace PcCheck
namespace CountRuns

open EventMachine

/-! ## One step -/

section Steps

variable {w t : World} {p q : Process}

theorem procInv_grown (h : ProcInv w p) {edac : List EdacRow} (hgrown : Grown w.edac edac) :
    ProcInv { w with edac := edac } p := by
  have hcredit : ∀ c k, ({ w with edac := edac } : World).credit c k = w.credit c k := by
    intro c k
    unfold World.credit
    rw [hgrown.credit]
  refine ⟨fits_of_grown h.fits hgrown, fits_of_grown h.loadedFits hgrown, fun poll hpoll => ?_,
    h.edacRead, fun poll hpoll => ?_, h.rasRead, fun k hk => ?_⟩
  · obtain ⟨hread, hsplit, hahead⟩ := h.edac poll hpoll
    exact ⟨hread.trans hgrown, hsplit, hahead⟩
  · obtain ⟨hread, hcurrent⟩ := h.ras poll hpoll
    exact ⟨hread, hcurrent⟩
  · rw [hcredit, hcredit]
    exact h.balanced k hk

theorem procInv_append (h : ProcInv w p) {u : RasTable} {row : RasRow}
    (hrow : 1 ≤ row.id ∧ ∀ old ∈ w.ras u, old.id < row.id) :
    ProcInv { w with ras := Function.update w.ras u (w.ras u ++ [row]) } p := by
  have hcredit : ∀ c, Fits w c → ∀ k,
      ({ w with ras := Function.update w.ras u (w.ras u ++ [row]) } : World).credit c k =
        w.credit c k := by
    intro c hc k
    unfold World.credit
    rw [rasCredit_append hc hrow]
  refine ⟨fits_of_append h.fits u row, fits_of_append h.loadedFits u row, fun poll hpoll => ?_,
    h.edacRead, fun poll hpoll => ?_, h.rasRead, fun k hk => ?_⟩
  · obtain ⟨hread, hsplit, hahead⟩ := h.edac poll hpoll
    exact ⟨hread, hsplit, hahead⟩
  · obtain ⟨hread, hcurrent⟩ := h.ras poll hpoll
    refine ⟨fun t => ?_, hcurrent⟩
    show poll.read t <+: Function.update w.ras u (w.ras u ++ [row]) t
    by_cases htu : t = u
    · subst htu
      rw [Function.update_self]
      exact (hread t).trans (List.prefix_append _ _)
    · rw [Function.update_of_ne htu]
      exact hread t
  · rw [hcredit _ h.loadedFits, hcredit _ h.fits]
    exact h.balanced k hk

/-- The invariant of a process speaks of the sources and of nothing else of the world. -/
theorem ProcInv.congr (h : ProcInv w p) (hopts : t.opts = w.opts) (hedac : t.edac = w.edac)
    (hras : t.ras = w.ras) : ProcInv t p := by
  have hcredit : ∀ c k, t.credit c k = w.credit c k := by
    intro c k
    rw [World.credit, World.credit, hopts, hedac, hras]
  have hfits : ∀ c, Fits w c → Fits t c := by
    intro c hc
    refine ⟨?_, ?_⟩
    · rw [hedac]
      exact hc.edac
    · rw [hras]
      exact hc.ras
  refine ⟨hfits _ h.fits, hfits _ h.loadedFits, fun poll hpoll => ?_, h.edacRead,
    fun poll hpoll => ?_, h.rasRead, fun k hk => ?_⟩
  · obtain ⟨hread, hsplit, hahead⟩ := h.edac poll hpoll
    rw [← hedac] at hread
    exact ⟨hread, hsplit, hahead⟩
  · obtain ⟨hread, hcurrent⟩ := h.ras poll hpoll
    rw [← hras] at hread
    exact ⟨hread, hcurrent⟩
  · rw [hcredit, hcredit, hopts]
    exact h.balanced k hk

/-- The step leaves everything alone but the process and the findings on file. -/
structure Own (w t : World) : Prop where
  opts : t.opts = w.opts
  edac : t.edac = w.edac
  ras : t.ras = w.ras
  saved : t.saved = w.saved

theorem inv_own (h : Inv w) (hown : Own w t) (hproc : t.proc = some q) (hq : ProcInv w q) :
    Inv t := by
  refine ⟨?_, ?_, ⟨?_, ?_⟩, fun r hr => ?_⟩
  · rw [hown.edac]
    exact h.nodup
  · rw [hown.ras]
    exact h.sorted
  · rw [hown.saved, hown.edac]
    exact h.saved.edac
  · rw [hown.saved, hown.ras]
    exact h.saved.ras
  · obtain rfl := Option.some.inj (hproc.symm.trans hr)
    exact hq.congr hown.opts hown.edac hown.ras

/-- The findings of the process change by what its polls come to owe. -/
theorem ProcInv.owe (h : ProcInv w p) (hcursors : q.cursors = p.cursors)
    (hloaded : q.loaded = p.loaded) (hedacRead : q.edac = none → p.edac = none)
    (hedacKept : q.edacRead = p.edacRead) (hrasRead : q.rasRead = p.rasRead)
    (hedac : ∀ poll, q.edac = some poll → EdacInv w p.cursors poll)
    (hras : ∀ poll, q.ras = some poll → RasInv w p.cursors poll)
    (hcount : ∀ k, Tracked k → q.findings.countOf k + p.edacDue k + p.rasDue w.opts k =
      p.findings.countOf k + q.edacDue k + q.rasDue w.opts k) : ProcInv w q := by
  refine ⟨?_, ?_, ?_, fun hnone read hread => ?_, ?_, fun read hread => ?_, fun k hk => ?_⟩
  · rw [hcursors]
    exact h.fits
  · rw [hloaded]
    exact h.loadedFits
  · rw [hcursors]
    exact hedac
  · rw [hcursors]
    rw [hedacKept] at hread
    exact h.edacRead (hedacRead hnone) read hread
  · rw [hcursors]
    exact hras
  · rw [hcursors]
    rw [hrasRead] at hread
    exact h.rasRead read hread
  · rw [hloaded, hcursors]
    have hbal := h.balanced k hk
    have hstep := hcount k hk
    omega

/-! ### `EdacMonitor.poll` -/

/-- A poll that has counted nothing of its entry owes nothing. -/
theorem edacDue_of_fresh {read rest : List EdacRow} (hpoll : p.edac = some ⟨read, rest, .fresh⟩)
    (k : String) : p.edacDue k = 0 := by
  rw [Process.edacDue, hpoll]
  cases rest with
  | nil => rfl
  | cons r rest => simp

theorem inv_edacStart (h : Inv w) (hp : w.proc = some p) (ht : edacStep w p .edacStart = some t) :
    Inv t := by
  simp only [edacStep] at ht
  obtain ⟨hnone, hsome⟩ := Option.ite_none_right_eq_some.mp ht
  obtain rfl := Option.some.inj hsome
  have hpi := h.proc p hp
  have hedac : p.edac = none := Option.isNone_iff_eq_none.mp hnone
  refine inv_own h ⟨rfl, rfl, rfl, rfl⟩ rfl (hpi.owe rfl rfl nofun rfl rfl (fun poll hpoll => ?_)
    hpi.ras fun k _ => ?_)
  · obtain rfl := Option.some.inj hpoll
    exact ⟨Grown.refl w.edac, ⟨[], rfl, nofun⟩, hpi.fits.edac⟩
  · have hold : p.edacDue k = 0 := by rw [Process.edacDue, hedac]
    rw [hold, edacDue_of_fresh rfl]
    rfl

theorem edacDue_of_some {read rest : List EdacRow} {r : EdacRow} {stage : EdacStage}
    (hpoll : p.edac = some ⟨read, r :: rest, stage⟩) (k : String) :
    p.edacDue k = if stage ≠ .fresh ∧ k = EdacRow.ceKey r.label then
      (r.ce : Int) - (p.cursors.seen r.key).1 else 0 := by
  rw [Process.edacDue, hpoll]

theorem inv_edacCe (h : Inv w) (hp : w.proc = some p) {now : String} {added escalated : Bool}
    (ht : edacStep w p (.edacCe now added escalated) = some t) : Inv t := by
  simp only [edacStep] at ht
  split at ht
  · rename_i read r rest hpoll
    obtain rfl := Option.some.inj ht
    have hpi := h.proc p hp
    have hinv := hpi.edac _ hpoll
    refine inv_own h ⟨rfl, rfl, rfl, rfl⟩ rfl (hpi.owe rfl rfl nofun rfl rfl (fun poll hq => ?_)
      hpi.ras fun k _ => ?_)
    · obtain rfl := Option.some.inj hq
      exact ⟨hinv.grown, hinv.split, hinv.ahead⟩
    · have hle := hinv.ahead r List.mem_cons_self
      have hcount := r.countOf_countCe w.opts hle now added escalated (w.store p) k
      rw [edacDue_of_some hpoll, edacDue_of_some rfl]
      show (r.countCe w.opts _ now added escalated (w.store p)).mem.countOf k + _ + _ =
        (w.store p).mem.countOf k + _ + p.rasDue w.opts k
      rw [hcount]
      simp only [ne_eq, not_true_eq_false, false_and, if_false, reduceCtorEq, not_false_eq_true,
        true_and]
      ring
  · cases ht

theorem inv_edacUe (h : Inv w) (hp : w.proc = some p) {now : String} {added : Bool}
    (ht : edacStep w p (.edacUe now added) = some t) : Inv t := by
  simp only [edacStep] at ht
  split at ht
  · rename_i read r rest hpoll
    obtain rfl := Option.some.inj ht
    have hpi := h.proc p hp
    have hinv := hpi.edac _ hpoll
    refine inv_own h ⟨rfl, rfl, rfl, rfl⟩ rfl (hpi.owe rfl rfl nofun rfl rfl (fun poll hq => ?_)
      hpi.ras fun k hk => ?_)
    · obtain rfl := Option.some.inj hq
      exact ⟨hinv.grown, hinv.split, hinv.ahead⟩
    · have hcount := r.countOf_countUe (p.cursors.seen r.key).2 now added (w.store p) (hk r.label)
      rw [edacDue_of_some hpoll, edacDue_of_some rfl]
      show (r.countUe _ now added (w.store p)).mem.countOf k + _ + _ =
        (w.store p).mem.countOf k + _ + p.rasDue w.opts k
      rw [hcount]
      simp only [ne_eq, reduceCtorEq, not_false_eq_true, true_and]
  · cases ht

theorem fits_edacSeen {c : Cursors} (h : Fits w c) (hnodup : (w.edac.map EdacRow.key).Nodup)
    {r r' : EdacRow} (hr' : r' ∈ w.edac) (hkey : r'.key = r.key) (hle : r.ce ≤ r'.ce) :
    Fits w { c with edac := c.edac.set r.key (r.ce, r.ue) } := by
  refine ⟨fun r₂ hr₂ => ?_, h.ras⟩
  rw [Cursors.seen_set]
  split
  · rename_i heq
    have hsame : r₂ = r' := List.inj_on_of_nodup_map hnodup hr₂ hr' (heq.trans hkey.symm)
    rw [hsame]
    exact hle
  · exact h.edac r₂ hr₂

/-- The poll goes on behind an entry: no other entry has its key. -/
theorem EdacInv.pass {c : Cursors} {read rest : List EdacRow} {r : EdacRow} {stage : EdacStage}
    (h : EdacInv w c ⟨read, r :: rest, stage⟩) (hnodup : (w.edac.map EdacRow.key).Nodup) :
    EdacInv w { c with edac := c.edac.set r.key (r.ce, r.ue) } ⟨read, rest, .fresh⟩ := by
  obtain ⟨hgrown, ⟨done, hdone, hpassed⟩, hahead⟩ := h
  have hdone' : read = done ++ r :: rest := hdone
  have hkeys : (read.map EdacRow.key).Nodup := by
    rw [← hgrown.keys]
    exact hnodup
  rw [hdone', List.map_append, List.map_cons, List.nodup_append] at hkeys
  refine ⟨hgrown, ⟨done ++ [r], by rw [hdone']; simp, fun r₂ hr₂ => ?_⟩, fun r₂ hr₂ => ?_⟩
  · rw [Cursors.seen_set]
    split
    · rename_i heq
      rcases List.mem_append.mp hr₂ with hold | hlast
      · exact absurd heq (hkeys.2.2 _ (List.mem_map_of_mem hold) _ List.mem_cons_self)
      · rw [List.mem_singleton.mp hlast]
    · rename_i hne
      rcases List.mem_append.mp hr₂ with hold | hlast
      · exact hpassed r₂ hold
      · exact absurd (congrArg EdacRow.key (List.mem_singleton.mp hlast)) hne
  · have hne : r₂.key ≠ r.key := fun heq =>
      (List.nodup_cons.mp hkeys.2.1).1 (heq ▸ List.mem_map_of_mem hr₂)
    rw [Cursors.seen_set, if_neg hne]
    exact hahead r₂ (List.mem_cons_of_mem _ hr₂)

/-- An entry is passed: its cursor takes the reading that has been counted. -/
theorem inv_edacSeen (h : Inv w) (hp : w.proc = some p) (ht : edacStep w p .edacSeen = some t) :
    Inv t := by
  simp only [edacStep] at ht
  split at ht
  · rename_i read r rest hpoll
    obtain rfl := Option.some.inj ht
    have hpi := h.proc p hp
    have hinv := hpi.edac _ hpoll
    obtain ⟨done, hdone, -⟩ := hinv.split
    have hr : r ∈ read := by
      rw [show read = done ++ r :: rest from hdone]
      simp
    obtain ⟨r', hr', hkey, hlabel, hle⟩ := hinv.grown.mem hr
    refine inv_own h ⟨rfl, rfl, rfl, rfl⟩ rfl ⟨fits_edacSeen hpi.fits h.nodup hr' hkey hle,
      hpi.loadedFits, fun poll hq => ?_, nofun, fun poll hq => ?_, hpi.rasRead, fun k hk => ?_⟩
    · obtain rfl := Option.some.inj hq
      exact hinv.pass h.nodup
    · obtain ⟨hread, hcurrent⟩ := hpi.ras poll hq
      exact ⟨hread, hcurrent⟩
    · have hbal := hpi.balanced k hk
      rw [edacDue_of_some hpoll] at hbal
      have hcredit : w.credit { p.cursors with edac := p.cursors.edac.set r.key (r.ce, r.ue) } k =
          w.credit p.cursors k +
            if k = EdacRow.ceKey r.label then (r.ce : Int) - (p.cursors.seen r.key).1 else 0 := by
        unfold World.credit
        rw [edacCredit_set h.nodup ⟨r', hr', hkey, hlabel⟩]
        show _ + _ + rasCredit w.opts w.ras p.cursors k = _
        ring
      rw [hcredit, edacDue_of_fresh rfl]
      simp only [ne_eq, reduceCtorEq, not_false_eq_true, true_and] at hbal
      show p.findings.countOf k + w.credit p.loaded.1 k =
        _ + p.rasDue w.opts k + p.loaded.2.countOf k
      omega
  · cases ht

theorem inv_edacDone (h : Inv w) (hp : w.proc = some p) (ht : edacStep w p .edacDone = some t) :
    Inv t := by
  simp only [edacStep] at ht
  split at ht
  · rename_i read hpoll
    obtain rfl := Option.some.inj ht
    have hpi := h.proc p hp
    obtain ⟨-, ⟨done, hdone, hpassed⟩, -⟩ := hpi.edac _ hpoll
    have hdone' : read = done := by rw [show read = done ++ [] from hdone, List.append_nil]
    refine inv_own h ⟨rfl, rfl, rfl, rfl⟩ rfl ⟨hpi.fits, hpi.loadedFits, nofun,
      fun _ read' hread => ?_, hpi.ras, hpi.rasRead, fun k hk => ?_⟩
    · obtain rfl := Option.some.inj hread
      rw [hdone']
      exact hpassed
    · have hbal := hpi.balanced k hk
      rw [edacDue_of_fresh hpoll] at hbal
      exact hbal
  · cases ht

/-! ### `RasMonitor.poll` -/

theorem rasDue_of_none (opts : Options) (hnone : p.ras = none) (k : String) :
    p.rasDue opts k = 0 := by
  rw [Process.rasDue, hnone]

theorem rasDue_of_fresh (opts : Options) {tables : List RasTable}
    {rows : List (RasTable × RasRow)} {read : RasTable → List RasRow}
    (hpoll : p.ras = some ⟨tables, rows, false, read⟩) (k : String) : p.rasDue opts k = 0 := by
  rw [Process.rasDue, hpoll]
  rcases rows with _ | ⟨⟨t, row⟩, rows⟩ <;> rfl

theorem rasDue_of_empty (opts : Options) {tables : List RasTable} {recorded : Bool}
    {read : RasTable → List RasRow} (hpoll : p.ras = some ⟨tables, [], recorded, read⟩)
    (k : String) : p.rasDue opts k = 0 := by
  rw [Process.rasDue, hpoll]

theorem inv_rasStart (h : Inv w) (hp : w.proc = some p) (ht : rasStep w p .rasStart = some t) :
    Inv t := by
  simp only [rasStep] at ht
  obtain ⟨hnone, hsome⟩ := Option.ite_none_right_eq_some.mp ht
  obtain rfl := Option.some.inj hsome
  have hpi := h.proc p hp
  refine inv_own h ⟨rfl, rfl, rfl, rfl⟩ rfl (hpi.owe rfl rfl id rfl rfl hpi.edac
    (fun poll hpoll => ?_) fun k _ => ?_)
  · obtain rfl := Option.some.inj hpoll
    exact ⟨fun _ => List.nil_prefix, .mcEvent, [], [], rfl, rfl,
      fun _ hr => absurd hr List.not_mem_nil, fun _ hr => absurd hr List.not_mem_nil,
      fun _ _ _ hr => absurd hr List.not_mem_nil⟩
  · rw [rasDue_of_none w.opts (Option.isNone_iff_eq_none.mp hnone), rasDue_of_fresh w.opts rfl]
    rfl

/-- With no row left, the cursors are past everything that has been read. -/
theorem RasInv.passed {poll : RasPoll} (h : RasInv w p.cursors poll) (hrows : poll.rows = []) :
    ∀ t, ∀ row ∈ poll.read t, row.id ≤ p.cursors.last t := by
  obtain ⟨t, done, rest, hcur, hread, hdone, -, hothers⟩ := h.current
  rw [hrows] at hcur
  have hrest : rest = [] := List.map_eq_nil_iff.mp hcur.symm
  rw [hrest, List.append_nil] at hread
  intro u row hrow
  by_cases hut : u = t
  · subst hut
    rw [hread] at hrow
    exact hdone row hrow
  · exact hothers u hut row hrow

theorem inv_rasTable (h : Inv w) (hp : w.proc = some p) (ht : rasStep w p .rasTable = some t) :
    Inv t := by
  simp only [rasStep] at ht
  split at ht
  · rename_i u tables recorded read hpoll
    have hpi := h.proc p hp
    have hold := rasDue_of_empty w.opts hpoll
    split at ht
    · obtain rfl := Option.some.inj ht
      refine inv_own h ⟨rfl, rfl, rfl, rfl⟩ rfl (hpi.owe rfl rfl id rfl rfl hpi.edac nofun
        fun k _ => ?_)
      rw [hold, rasDue_of_none w.opts rfl]
      rfl
    · obtain rfl := Option.some.inj ht
      have hinv := hpi.ras _ hpoll
      have hpassed := hinv.passed rfl
      refine inv_own h ⟨rfl, rfl, rfl, rfl⟩ rfl (hpi.owe rfl rfl id rfl rfl hpi.edac
        (fun poll hq => ?_) fun k _ => ?_)
      · obtain rfl := Option.some.inj hq
        refine ⟨fun t => ?_, u, (w.ras u).filter fun row => row.id ≤ p.cursors.last u,
          (w.ras u).filter fun row => p.cursors.last u < row.id, rfl, ?_, fun row hrow => ?_,
          fun row hrow => ?_, fun t htu row hrow => ?_⟩
        · show Function.update read u (w.ras u) t <+: w.ras t
          by_cases htu : t = u
          · rw [htu, Function.update_self]
          · rw [Function.update_of_ne htu]
            exact hinv.read t
        · show Function.update read u (w.ras u) u = _
          rw [Function.update_self]
          exact Tally.passed_append_ahead (h.sorted u)
        · exact of_decide_eq_true (List.mem_filter.mp hrow).2
        · exact of_decide_eq_true (List.mem_filter.mp hrow).2
        · have hrow' : row ∈ Function.update read u (w.ras u) t := hrow
          rw [Function.update_of_ne htu] at hrow'
          exact hpassed t row hrow'
      · rw [hold, rasDue_of_fresh w.opts rfl]
        rfl
  · cases ht

theorem inv_rasRecord (h : Inv w) (hp : w.proc = some p) {now : String} {added escalated : Bool}
    (ht : rasStep w p (.rasRecord now added escalated) = some t) : Inv t := by
  simp only [rasStep] at ht
  split at ht
  · rename_i tables u row rows read hpoll
    obtain rfl := Option.some.inj ht
    have hpi := h.proc p hp
    have hinv := hpi.ras _ hpoll
    refine inv_own h ⟨rfl, rfl, rfl, rfl⟩ rfl (hpi.owe rfl rfl id rfl rfl hpi.edac
      (fun poll hq => ?_) fun k _ => ?_)
    · obtain rfl := Option.some.inj hq
      exact ⟨hinv.read, hinv.current⟩
    · have hcount := row.countOf_record w.opts u now added escalated (w.store p) k
      rw [rasDue_of_fresh w.opts hpoll]
      show (row.record w.opts u now added escalated (w.store p)).mem.countOf k + p.edacDue k + 0 =
        (w.store p).mem.countOf k + p.edacDue k + row.share w.opts u k
      rw [hcount]
      ring
  · cases ht

/-- Where a poll is in the table of its next row: what it has passed, what it has still to
come to, and what has been appended since. -/
theorem RasInv.split {c : Cursors} {tables : List RasTable} {u : RasTable} {row : RasRow}
    {rows : List (RasTable × RasRow)} {recorded : Bool} {read : RasTable → List RasRow}
    (h : RasInv w c ⟨tables, (u, row) :: rows, recorded, read⟩) :
    ∃ done rest newer, rows = rest.map (fun r => (u, r)) ∧ read u = done ++ row :: rest ∧
      w.ras u = done ++ row :: rest ++ newer ∧ (∀ r ∈ done, r.id ≤ c.last u) ∧
      c.last u < row.id ∧ ∀ v, v ≠ u → ∀ r ∈ read v, r.id ≤ c.last v := by
  obtain ⟨hgrown, t, done, rest, hcur, hread, hdone, hahead, hothers⟩ := h
  cases rest with
  | nil => cases hcur
  | cons r rest =>
    obtain ⟨hhead, htail⟩ := List.cons.inj hcur
    obtain ⟨rfl, rfl⟩ := Prod.mk.inj hhead
    obtain ⟨newer, hnewer⟩ := hgrown u
    refine ⟨done, rest, newer, htail, hread, ?_, hdone, hahead row List.mem_cons_self, hothers⟩
    rw [← hnewer]
    show read u ++ newer = _
    rw [show read u = done ++ row :: rest from hread]

/-- A row is passed: its share has been counted. -/
theorem inv_rasCursor (h : Inv w) (hp : w.proc = some p) (ht : rasStep w p .rasCursor = some t) :
    Inv t := by
  simp only [rasStep] at ht
  split at ht
  · rename_i tables u row rows read hpoll
    obtain rfl := Option.some.inj ht
    have hpi := h.proc p hp
    have hinv := hpi.ras _ hpoll
    obtain ⟨done, rest, newer, hrows, hread, hall, hdone, hrow, hothers⟩ := hinv.split
    have hlast := fun v => p.cursors.last_set u v row.id
    have hsorted := h.sorted u
    have hmore : ∀ r ∈ rest, row.id < r.id := by
      intro r hr
      rw [hall, List.append_assoc] at hsorted
      exact (List.pairwise_cons.mp (List.pairwise_append.mp hsorted).2.1).1 r
        (List.mem_append_left _ hr)
    refine inv_own h ⟨rfl, rfl, rfl, rfl⟩ rfl ⟨⟨hpi.fits.edac, fun v => ?_⟩, hpi.loadedFits,
      fun poll hq => ?_, hpi.edacRead, fun poll hq => ?_, fun read' hread' v r hr => ?_,
      fun k hk => ?_⟩
    · rw [hlast]
      split
      · rename_i hvu
        refine Or.inr ⟨row, ?_, rfl⟩
        rw [hvu, hall]
        simp
      · exact hpi.fits.ras v
    · obtain ⟨hgrown, hsplit, hseen⟩ := hpi.edac poll hq
      exact ⟨hgrown, hsplit, hseen⟩
    · obtain rfl := Option.some.inj hq
      refine ⟨hinv.read, u, done ++ [row], rest, hrows, ?_, fun r hr => ?_, fun r hr => ?_,
        fun v hvu r hr => ?_⟩
      · show read u = _
        rw [hread]
        simp
      · rw [hlast, if_pos rfl]
        rcases List.mem_append.mp hr with hold | hnew
        · exact (hdone r hold).trans hrow.le
        · rw [List.mem_singleton.mp hnew]
      · rw [hlast, if_pos rfl]
        exact hmore r hr
      · rw [hlast, if_neg hvu]
        exact hothers v hvu r hr
    · have hold := hpi.rasRead read' hread' v r hr
      rw [hlast]
      split
      · rename_i hvu
        rw [hvu] at hold
        exact hold.trans hrow.le
      · exact hold
    · have hbal := hpi.balanced k hk
      have hcredit : w.credit { p.cursors with ras := p.cursors.ras.set u.name row.id } k =
          w.credit p.cursors k + row.share w.opts u k := by
        unfold World.credit
        rw [rasCredit_set hsorted hall hdone hrow]
        show edacCredit w.edac p.cursors k + _ = _
        ring
      have hdue : p.rasDue w.opts k = row.share w.opts u k := by rw [Process.rasDue, hpoll]
      rw [hdue] at hbal
      rw [hcredit, rasDue_of_fresh w.opts rfl]
      show p.findings.countOf k + w.credit p.loaded.1 k = _ + p.edacDue k + 0 + p.loaded.2.countOf k
      omega
  · cases ht

theorem inv_rasDone (h : Inv w) (hp : w.proc = some p) (ht : rasStep w p .rasDone = some t) :
    Inv t := by
  simp only [rasStep] at ht
  split at ht
  · rename_i recorded read hpoll
    obtain rfl := Option.some.inj ht
    have hpi := h.proc p hp
    have hpassed := (hpi.ras _ hpoll).passed rfl
    refine inv_own h ⟨rfl, rfl, rfl, rfl⟩ rfl ⟨hpi.fits, hpi.loadedFits, hpi.edac, hpi.edacRead,
      nofun, fun read' hread => ?_, fun k hk => ?_⟩
    · obtain rfl := Option.some.inj hread
      exact hpassed
    · have hbal := hpi.balanced k hk
      rw [rasDue_of_empty w.opts hpoll] at hbal
      exact hbal
  · cases ht

/-! ### Every step -/

theorem inv_memoryErrors (h : Inv w) {edac : List EdacRow} (hgrown : Grown w.edac edac) :
    Inv { w with edac := edac } := by
  refine ⟨?_, h.sorted, fits_of_grown h.saved hgrown,
    fun p hp => procInv_grown (h.proc p hp) hgrown⟩
  show (edac.map EdacRow.key).Nodup
  rw [hgrown.keys]
  exact h.nodup

theorem inv_newRow (h : Inv w) {u : RasTable} {row : RasRow}
    (hrow : 1 ≤ row.id ∧ ∀ old ∈ w.ras u, old.id < row.id) :
    Inv { w with ras := Function.update w.ras u (w.ras u ++ [row]) } := by
  refine ⟨h.nodup, fun v => ?_, fits_of_append h.saved u row,
    fun p hp => procInv_append (h.proc p hp) hrow⟩
  show (Function.update w.ras u (w.ras u ++ [row]) v).Pairwise _
  by_cases hvu : v = u
  · subst hvu
    rw [Function.update_self, List.pairwise_append]
    refine ⟨h.sorted v, List.pairwise_singleton _ _, fun a ha b hb => ?_⟩
    rw [List.mem_singleton.mp hb]
    exact hrow.2 a ha
  · rw [Function.update_of_ne hvu]
    exact h.sorted v

theorem inv_step {e : Event} (h : Inv w) (ht : step w e = some t) : Inv t := by
  cases e with
  | start =>
    simp only [step] at ht
    split at ht
    · obtain rfl := Option.some.inj ht
      refine inv_own h ⟨rfl, rfl, rfl, rfl⟩ rfl ?_
      refine ⟨h.saved, h.saved, nofun, nofun, nofun, nofun, fun k _ => ?_⟩
      show (Findings.load findingsPath w.files).countOf k + w.credit w.saved k =
        w.credit w.saved k + 0 + 0 + (Findings.load findingsPath w.files).countOf k
      ring
    · cases ht
  | die =>
    obtain rfl := Option.some.inj ht
    exact ⟨h.nodup, h.sorted, ⟨h.saved.edac, h.saved.ras⟩, fun q hq => by cases hq⟩
  | save =>
    obtain ⟨p, hp, rfl⟩ := Option.map_eq_some_iff.mp ht
    have hpi := h.proc p hp
    refine ⟨h.nodup, h.sorted, ⟨hpi.fits.edac, hpi.fits.ras⟩, fun q hq => ?_⟩
    exact (h.proc q hq).congr rfl rfl rfl
  | flush force ok =>
    obtain ⟨p, hp, rfl⟩ := Option.map_eq_some_iff.mp ht
    have hpi := h.proc p hp
    refine inv_own h ⟨rfl, rfl, rfl, rfl⟩ rfl (hpi.owe rfl rfl id rfl rfl hpi.edac hpi.ras
      fun k _ => ?_)
    have hitems := (w.store p).flush_items force ok
    show (((w.store p).flush force ok).mem.items.countOf k) + p.edacDue k + p.rasDue w.opts k =
      p.findings.countOf k + p.edacDue k + p.rasDue w.opts k
    rw [hitems]
    rfl
  | memoryErrors edac =>
    simp only [step] at ht
    obtain ⟨hgrown, hsome⟩ := Option.ite_none_right_eq_some.mp ht
    obtain rfl := Option.some.inj hsome
    exact inv_memoryErrors h hgrown
  | newRow u row =>
    simp only [step] at ht
    obtain ⟨hrow, hsome⟩ := Option.ite_none_right_eq_some.mp ht
    obtain rfl := Option.some.inj hsome
    exact inv_newRow h hrow
  | edacStart =>
    obtain ⟨p, hp, hact⟩ := Option.bind_eq_some_iff.mp ht
    exact inv_edacStart h hp hact
  | edacCe now added escalated =>
    obtain ⟨p, hp, hact⟩ := Option.bind_eq_some_iff.mp ht
    exact inv_edacCe h hp hact
  | edacUe now added =>
    obtain ⟨p, hp, hact⟩ := Option.bind_eq_some_iff.mp ht
    exact inv_edacUe h hp hact
  | edacSeen =>
    obtain ⟨p, hp, hact⟩ := Option.bind_eq_some_iff.mp ht
    exact inv_edacSeen h hp hact
  | edacDone =>
    obtain ⟨p, hp, hact⟩ := Option.bind_eq_some_iff.mp ht
    exact inv_edacDone h hp hact
  | rasStart =>
    obtain ⟨p, hp, hact⟩ := Option.bind_eq_some_iff.mp ht
    exact inv_rasStart h hp hact
  | rasTable =>
    obtain ⟨p, hp, hact⟩ := Option.bind_eq_some_iff.mp ht
    exact inv_rasTable h hp hact
  | rasRecord now added escalated =>
    obtain ⟨p, hp, hact⟩ := Option.bind_eq_some_iff.mp ht
    exact inv_rasRecord h hp hact
  | rasCursor =>
    obtain ⟨p, hp, hact⟩ := Option.bind_eq_some_iff.mp ht
    exact inv_rasCursor h hp hact
  | rasDone =>
    obtain ⟨p, hp, hact⟩ := Option.bind_eq_some_iff.mp ht
    exact inv_rasDone h hp hact

end Steps

/-! ## Every run -/

/-- The last complete poll read what the counters show now. -/
def EdacPolled (w : World) (p : Process) : Prop := p.edac = none ∧ p.edacRead = some w.edac

def RasPolled (w : World) (p : Process) : Prop := p.ras = none ∧ p.rasRead = some w.ras

/-- The corrected errors since boot on the memory of a label. -/
def edacTotal (rows : List EdacRow) (label : String) : Int :=
  (rows.map fun r => if r.label = label then (r.ce : Int) else 0).sum

/-- What the rows of the database come to under a key. -/
def rasTotal (opts : Options) (ras : RasTable → List RasRow) (k : String) : Int :=
  (RasTable.all.map fun t => ((ras t).map fun row => row.share opts t k).sum).sum

/-- The files the process started from agree on a key: the findings count what the cursors
have passed. -/
def FilesAgreed (w : World) (p : Process) (k : String) : Prop :=
  p.loaded.2.countOf k = w.credit p.loaded.1 k

section Keys

theorem ceKey_injective {a b : String} (h : EdacRow.ceKey a = EdacRow.ceKey b) : a = b := by
  have hlist := congrArg String.toList h
  simp only [EdacRow.ceKey, String.toList_append] at hlist
  exact String.toList_inj.mp (List.append_cancel_left hlist)

theorem ceKey_ne_ras (label rest : String) : EdacRow.ceKey label ≠ "ras:" ++ rest :=
  append_ne_append 4 (by decide) (by decide) (by decide) label rest

theorem tracked_ceKey (label : String) : Tracked (EdacRow.ceKey label) :=
  fun other => append_ne_append 10 (by decide) (by decide) (by decide) label other

theorem tracked_ras (rest : String) : Tracked ("ras:" ++ rest) :=
  fun label => append_ne_append 4 (by decide) (by decide) (by decide) rest label

theorem rasKey_eq (k : RasKind) (t : RasTable) :
    k.key t = "ras:" ++ (t.name ++ ":" ++ k.label ++ ":" ++ k.word) := by
  simp only [RasKind.key, String.append_assoc]

theorem share_ceKey (row : RasRow) (opts : Options) (t : RasTable) (label : String) :
    row.share opts t (EdacRow.ceKey label) = 0 := by
  unfold RasRow.share
  split
  · rfl
  · rename_i kind _
    rw [if_neg]
    rw [rasKey_eq]
    exact (ceKey_ne_ras label _).symm

end Keys

section Runs

variable {w : World} {p : Process}

theorem sum_zero {ι : Type*} (l : List ι) : (l.map fun _ => (0 : Int)).sum = 0 := by simp

theorem rasCredit_ceKey (opts : Options) (ras : RasTable → List RasRow) (c : Cursors)
    (label : String) : rasCredit opts ras c (EdacRow.ceKey label) = 0 := by
  unfold rasCredit Tally.upTo
  simp only [share_ceKey, sum_zero]

theorem edacCredit_ras (rows : List EdacRow) (c : Cursors) (rest : String) :
    edacCredit rows c ("ras:" ++ rest) = 0 := by
  unfold edacCredit
  simp only [(ceKey_ne_ras _ rest).symm, if_false, sum_zero]

theorem edacDue_ras (p : Process) (rest : String) : p.edacDue ("ras:" ++ rest) = 0 := by
  unfold Process.edacDue
  split
  · simp only [(ceKey_ne_ras _ rest).symm, and_false, if_false]
  · rfl

theorem rasDue_ceKey (p : Process) (opts : Options) (label : String) :
    p.rasDue opts (EdacRow.ceKey label) = 0 := by
  unfold Process.rasDue
  split
  · exact share_ceKey ..
  · rfl

theorem edac_exact_iff (h : Inv w) (hp : w.proc = some p) (hpolled : EdacPolled w p)
    (label : String) : p.findings.countOf (EdacRow.ceKey label) = edacTotal w.edac label ↔
      FilesAgreed w p (EdacRow.ceKey label) := by
  have hpi := h.proc p hp
  have hbal := hpi.balanced _ (tracked_ceKey label)
  have hdue : p.edacDue (EdacRow.ceKey label) = 0 := by rw [Process.edacDue, hpolled.1]
  have hcredit : w.credit p.cursors (EdacRow.ceKey label) = edacTotal w.edac label := by
    rw [World.credit, rasCredit_ceKey, add_zero, edacCredit, edacTotal]
    congr 1
    refine List.map_congr_left fun r hr => ?_
    rw [hpi.edacRead hpolled.1 w.edac hpolled.2 r hr]
    by_cases hlabel : r.label = label
    · rw [if_pos hlabel, if_pos (congrArg EdacRow.ceKey hlabel.symm)]
    · rw [if_neg hlabel, if_neg fun heq => hlabel (ceKey_injective heq).symm]
  rw [hcredit, hdue, rasDue_ceKey] at hbal
  unfold FilesAgreed
  omega

theorem ras_exact_iff (h : Inv w) (hp : w.proc = some p) (hpolled : RasPolled w p)
    (rest : String) : p.findings.countOf ("ras:" ++ rest) = rasTotal w.opts w.ras ("ras:" ++ rest) ↔
      FilesAgreed w p ("ras:" ++ rest) := by
  have hpi := h.proc p hp
  have hbal := hpi.balanced _ (tracked_ras rest)
  have hdue := rasDue_of_none w.opts hpolled.1 ("ras:" ++ rest)
  have hcredit : w.credit p.cursors ("ras:" ++ rest) = rasTotal w.opts w.ras ("ras:" ++ rest) := by
    rw [World.credit, edacCredit_ras, zero_add, rasCredit, rasTotal]
    congr 1
    refine List.map_congr_left fun t _ => ?_
    exact Tally.upTo_of_passed (hpi.rasRead w.ras hpolled.2 t)
  rw [hcredit, hdue, edacDue_ras] at hbal
  unfold FilesAgreed
  omega

end Runs

/-- In every run within a boot, once a poll has read what the source shows, the count of a
finding is the number of its errors exactly when the files the process was started from
agreed on it. -/
theorem counts_exact_iff_files_agreed (opts : Options) (edac : Dict String (String × Nat × Nat))
    {es : List Event} {w : World} (hrun : run step (opened opts edac) es = some w) {p : Process}
    (hp : w.proc = some p) :
    (EdacPolled w p → ∀ label,
      p.findings.countOf (EdacRow.ceKey label) = edacTotal w.edac label ↔
        FilesAgreed w p (EdacRow.ceKey label)) ∧
      (RasPolled w p → ∀ rest,
        p.findings.countOf ("ras:" ++ rest) = rasTotal w.opts w.ras ("ras:" ++ rest) ↔
          FilesAgreed w p ("ras:" ++ rest)) := by
  have hany : Along step (fun _ _ => True) (opened opts edac) es :=
    along_of_forall fun _ _ _ => trivial
  have hinv : Inv w :=
    run_preserves_along (C := fun _ _ => True) (fun _ _ _ h _ ht => inv_step h ht)
    (inv_opened opts edac) hany hrun
  exact ⟨fun h label => edac_exact_iff hinv hp h label, fun h rest => ras_exact_iff hinv hp h rest⟩

/-! ## A process that ends before the cursors are saved -/

def oneDimm : Dict String (String × Nat × Nat) := Dict.ofList [("mc0/dimm0", ("DIMM_A1", 0, 0))]

def hitDimm : List EdacRow := [⟨"mc0/dimm0", "DIMM_A1", 1, 0⟩]

/-- A complete poll of a single entry. -/
def pollOnce : List Event :=
  [.edacStart, .edacCe "" true true, .edacUe "" true, .edacSeen, .edacDone]

/-- The finding is new and is flushed at once; the state that says so is not saved. -/
def diesUnsaved : List Event :=
  [.start, .memoryErrors hitDimm, .edacStart, .edacCe "" true true, .die, .start] ++ pollOnce

theorem counts_exact_saved :
    ∃ w, run step (opened {} oneDimm) ([.start, .memoryErrors hitDimm] ++ pollOnce ++
        [.save, .die, .start] ++ pollOnce) = some w ∧
      ∃ p, w.proc = some p ∧
        ((EdacPolled w p → ∀ label,
          p.findings.countOf (EdacRow.ceKey label) = edacTotal w.edac label ↔
            FilesAgreed w p (EdacRow.ceKey label)) ∧
          (RasPolled w p → ∀ rest,
            p.findings.countOf ("ras:" ++ rest) = rasTotal w.opts w.ras ("ras:" ++ rest) ↔
              FilesAgreed w p ("ras:" ++ rest))) :=
  ⟨_, rfl, _, rfl, counts_exact_iff_files_agreed {} oneDimm
    (show run step (opened {} oneDimm) ([.start, .memoryErrors hitDimm] ++ pollOnce ++
      [.save, .die, .start] ++ pollOnce) = _ from rfl) rfl⟩

theorem diesUnsaved_run :
    ∃ w, run step (opened {} oneDimm) diesUnsaved = some w ∧
      ∃ p, w.proc = some p ∧ EdacPolled w p ∧
        p.findings.countOf (EdacRow.ceKey "DIMM_A1") = 2 ∧ edacTotal w.edac "DIMM_A1" = 1 :=
  ⟨_, rfl, _, rfl, ⟨rfl, rfl⟩, by decide +kernel, by decide +kernel⟩

theorem error_counted_twice :
    ¬ ∀ (opts : Options) (edac : Dict String (String × Nat × Nat)) (es : List Event) (w : World)
      (p : Process), run step (opened opts edac) es = some w → w.proc = some p →
        EdacPolled w p → ∀ label,
          p.findings.countOf (EdacRow.ceKey label) = edacTotal w.edac label := by
  intro h
  obtain ⟨w, hrun, p, hp, hpolled, htwo, hone⟩ := diesUnsaved_run
  have heq := h _ _ _ w p hrun hp hpolled "DIMM_A1"
  rw [htwo, hone] at heq
  exact absurd heq (by decide)

end CountRuns
end PcCheck
