/-
What the polls of `RasMonitor` leave in the findings.

The rows that are added are those the cursors have passed, row by row, whatever the polls break
off at; and the findings are what these rows make of them.  Both are kept by every step of a
poll and of what goes on beside it.
-/
import PcCheck.RasPolls

namespace PcCheck

/-! ## The keys -/

namespace RasTable

def threshold (opts : Options) : RasTable → Int
  | .mcEvent => opts.ceFail
  | .mceRecord => opts.mceFail
  | .aerEvent => opts.aerFail
  | .extlogEvent => opts.mceFail

/-- What the keys of a table begin with differs between the tables. -/
theorem eq_of_key_eq {t u : RasTable} {a b : String}
    (h : "ras:" ++ t.name ++ a = "ras:" ++ u.name ++ b) : t = u := by
  by_contra hne
  refine append_ne_append 7 ?_ ?_ ?_ a b h
  · cases t <;> decide +kernel
  · cases u <;> decide +kernel
  · cases t <;> cases u <;> first | exact absurd rfl hne | decide +kernel

end RasTable

theorem RasKind.key_split (k : RasKind) (t : RasTable) :
    k.key t = "ras:" ++ t.name ++ (":" ++ k.label ++ ":" ++ k.word) := by
  simp only [RasKind.key, String.append_assoc]

theorem RasKind.word_eq (k : RasKind) (t : RasTable) :
    (k.key t).toList.reverse.take 10 = ((":" ++ k.word).toList.reverse).take 10 := by
  have hsplit : k.key t = ("ras:" ++ t.name ++ ":" ++ k.label) ++ (":" ++ k.word) := by
    simp only [RasKind.key, String.append_assoc]
  have hlength : 10 ≤ ((":" ++ k.word).toList.reverse).length := by
    unfold RasKind.word
    cases k.corrected <;> decide +kernel
  rw [hsplit, String.toList_append, List.reverse_append, List.take_append_of_le_length hlength]

theorem RasKind.eq_of_key_eq {k l : RasKind} {t u : RasTable} (h : k.key t = l.key u) :
    t = u ∧ k.corrected = l.corrected := by
  constructor
  · rw [RasKind.key_split, RasKind.key_split] at h
    exact RasTable.eq_of_key_eq h
  · have hword : ((":" ++ k.word).toList.reverse).take 10 =
        ((":" ++ l.word).toList.reverse).take 10 := by
      rw [← RasKind.word_eq k t, h, RasKind.word_eq l u]
    unfold RasKind.word at hword
    revert hword
    cases k.corrected <;> cases l.corrected <;> decide +kernel

theorem RasRow.threshold_eq {row : RasRow} {opts : Options} {t : RasTable} {kind : RasKind}
    (h : row.kind opts t = some kind) : kind.threshold = t.threshold opts := by
  cases t with
  | mcEvent =>
    unfold RasRow.kind at h
    obtain ⟨-, hkind⟩ := Option.ite_none_left_eq_some.mp h
    exact congrArg RasKind.threshold (Option.some.inj hkind).symm
  | mceRecord => exact congrArg RasKind.threshold (Option.some.inj h).symm
  | aerEvent => exact congrArg RasKind.threshold (Option.some.inj h).symm
  | extlogEvent =>
    unfold RasRow.kind at h
    obtain ⟨-, hkind⟩ := Option.ite_none_left_eq_some.mp h
    exact congrArg RasKind.threshold (Option.some.inj hkind).symm

namespace RasPolls

open EventMachine

theorem isRasKey_key (k : RasKind) (t : RasTable) : isRasKey (k.key t) := by
  unfold isRasKey
  rw [RasKind.key_split, String.append_assoc, String.toList_append]
  exact List.prefix_append _ _

/-! ## The findings of a list of rows -/

def HasKey (opts : Options) (k : String) (p : RasTable × RasRow) : Prop :=
  ∃ kind, p.2.kind opts p.1 = some kind ∧ kind.key p.1 = k

/-- The findings are what the rows make of them, taken one after another. -/
structure Holds (opts : Options) (s : Store) (added : List (RasTable × RasRow)) : Prop where
  present : ∀ k, isRasKey k →
    ((s.mem.items.get? k).isSome = true ↔ ∃ p ∈ added, HasKey opts k p)
  count : ∀ k, isRasKey k →
    s.mem.countOf k = (added.map fun p => p.2.share opts p.1 k).sum
  uncorrected : ∀ p ∈ added, ∀ kind, p.2.kind opts p.1 = some kind → kind.corrected = false →
    s.mem.items.Fails (kind.key p.1)
  corrected : ∀ p ∈ added, ∀ kind, p.2.kind opts p.1 = some kind → kind.corrected = true →
    s.mem.items.JudgedBy (kind.key p.1) (p.1.threshold opts)

section Holds

variable {opts : Options} {s : Store} {added : List (RasTable × RasRow)} {t : RasTable}
  {r : RasRow} {kind : RasKind} {now : String} {ok escalated : Bool}

theorem record_of_corrected (hkind : r.kind opts t = some kind) (hc : kind.corrected = true) :
    r.record opts t now ok escalated s =
      s.addJudged (kind.call t r now) kind.threshold ok escalated := by
  unfold RasRow.record Store.addJudged
  rw [hkind]
  dsimp only
  simp only [hc, true_and]
  rfl

theorem record_of_uncorrected (hkind : r.kind opts t = some kind) (hc : kind.corrected = false) :
    r.record opts t now ok escalated s = s.add (kind.call t r now) ok := by
  unfold RasRow.record
  rw [hkind]
  dsimp only
  rw [if_neg]
  rintro ⟨htrue, -⟩
  rw [hc] at htrue
  cases htrue

theorem record_of_informational (hkind : r.kind opts t = none) :
    r.record opts t now ok escalated s = s := by
  unfold RasRow.record
  rw [hkind]

/-- A row leaves the findings of all other keys alone. -/
theorem get?_record_ne (hkind : r.kind opts t = some kind) {k : String} (hk : k ≠ kind.key t) :
    (r.record opts t now ok escalated s).mem.items.get? k = s.mem.items.get? k := by
  cases hc : kind.corrected with
  | true =>
    rw [record_of_corrected hkind hc]
    exact Store.get?_addJudged_ne hk
  | false =>
    rw [record_of_uncorrected hkind hc, Store.get?_add]
    exact if_neg hk

theorem isSome_record (hkind : r.kind opts t = some kind) :
    ((r.record opts t now ok escalated s).mem.items.get? (kind.key t)).isSome = true := by
  cases hc : kind.corrected with
  | true =>
    rw [record_of_corrected hkind hc]
    exact Store.isSome_addJudged
  | false =>
    rw [record_of_uncorrected hkind hc, Store.get?_add]
    exact Option.isSome_iff_exists.mpr ⟨_, if_pos rfl⟩

theorem fails_record_uncorrected (hkind : r.kind opts t = some kind)
    (hc : kind.corrected = false) :
    (r.record opts t now ok escalated s).mem.items.Fails (kind.key t) := by
  have hfail : (kind.call t r now).severity = .fail := by
    show (if kind.corrected then Severity.warn else .fail) = .fail
    rw [hc]
    rfl
  rw [record_of_uncorrected hkind hc, Store.add_items, ← Findings.record_items]
  exact Findings.fails_record_self hfail

/-- The finding that a row of corrected errors meets is judged by the threshold of the row. -/
theorem Holds.judged (h : Holds opts s added) (hkind : r.kind opts t = some kind)
    (hc : kind.corrected = true) : s.mem.items.JudgedBy (kind.key t) kind.threshold := by
  intro hsome
  obtain ⟨p, hp, kind', hkind', hkey⟩ := (h.present _ (isRasKey_key kind t)).mp hsome
  obtain ⟨htable, hsame⟩ := RasKind.eq_of_key_eq hkey
  have hjudged := h.corrected p hp kind' hkind' (hsame.trans hc)
  rw [hkey, htable, ← RasRow.threshold_eq hkind] at hjudged
  exact hjudged hsome

/-- One more row is recorded. -/
theorem Holds.record (h : Holds opts s added) (hkind : r.kind opts t = some kind) :
    Holds opts (r.record opts t now ok escalated s) (added ++ [(t, r)]) := by
  have hother : ∀ k, k ≠ kind.key t →
      (r.record opts t now ok escalated s).mem.items.get? k = s.mem.items.get? k :=
    fun k hk => get?_record_ne hkind hk
  have hcall : 1 ≤ (kind.call t r now).count := le_max_left 1 _
  refine ⟨fun k hk => ?_, fun k hk => ?_, fun p hp kind' hkind' hc => ?_,
    fun p hp kind' hkind' hc => ?_⟩
  · simp only [List.mem_append, or_and_right, exists_or]
    by_cases heq : k = kind.key t
    · subst heq
      refine iff_of_true (isSome_record hkind) (Or.inr ⟨(t, r), List.mem_cons_self, ?_⟩)
      exact ⟨kind, hkind, rfl⟩
    · rw [hother k heq, h.present k hk]
      refine (or_iff_left ?_).symm
      rintro ⟨p, hp, kind', hkind', rfl⟩
      obtain rfl := List.mem_singleton.mp hp
      obtain rfl := Option.some.inj (hkind.symm.trans hkind')
      exact heq rfl
  · rw [RasRow.countOf_record, h.count k hk]
    simp
  · rcases List.mem_append.mp hp with hold | hnew
    · by_cases heq : kind'.key p.1 = kind.key t
      · obtain ⟨-, hsame⟩ := RasKind.eq_of_key_eq heq
        rw [heq]
        exact fails_record_uncorrected hkind (hsame ▸ hc)
      · exact (Items.fails_congr (hother _ heq)).mpr (h.uncorrected p hold kind' hkind' hc)
    · obtain rfl := List.mem_singleton.mp hnew
      obtain rfl := Option.some.inj (hkind.symm.trans hkind')
      exact fails_record_uncorrected hkind hc
  · by_cases heq : kind'.key p.1 = kind.key t
    · obtain ⟨htable, hsame⟩ := RasKind.eq_of_key_eq heq
      have hcorrected : kind.corrected = true := hsame ▸ hc
      have hwarn : (kind.call t r now).severity ≠ .fail := by
        show (if kind.corrected then Severity.warn else .fail) ≠ .fail
        rw [hcorrected]
        decide
      rw [heq, htable, ← RasRow.threshold_eq hkind, record_of_corrected hkind hcorrected]
      exact Store.judged_addJudged hwarn hcall (h.judged hkind hcorrected)
    · rcases List.mem_append.mp hp with hold | hnew
      · exact (h.corrected p hold kind' hkind' hc).congr (hother _ heq)
      · obtain rfl := List.mem_singleton.mp hnew
        obtain rfl := Option.some.inj (hkind.symm.trans hkind')
        exact absurd rfl heq

/-- The findings of the rows are not those of other keys. -/
theorem Holds.congr {s' : Store} (h : Holds opts s added)
    (hsame : ∀ k, isRasKey k → s'.mem.items.get? k = s.mem.items.get? k) :
    Holds opts s' added := by
  refine ⟨fun k hk => ?_, fun k hk => ?_, fun p hp kind hkind hc => ?_,
    fun p hp kind hkind hc => ?_⟩
  · rw [hsame k hk]
    exact h.present k hk
  · unfold Findings.countOf Items.countOf
    rw [hsame k hk]
    exact h.count k hk
  · have hget := hsame _ (isRasKey_key kind p.1)
    exact (Items.fails_congr hget).mpr (h.uncorrected p hp kind hkind hc)
  · have hget := hsame _ (isRasKey_key kind p.1)
    exact (h.corrected p hp kind hkind hc).congr hget

end Holds

/-! ## One step -/

structure Inv (opts : Options) (w : World) : Prop where
  sorted : ∀ t, (w.rowsOf t).Pairwise fun a b => a.id < b.id
  reached : ∀ t, w.cursors t = 0 ∨ ∃ row ∈ w.rowsOf t, w.cursors t = row.id
  /-- The poll goes on with the row after the cursor. -/
  ahead : ∀ t ahead todo, w.stage = .rows t ahead todo →
    ahead <+: (w.rowsOf t).filter fun row => w.cursors t < row.id
  whole : ∀ t, ∀ row ∈ w.passed t, ∃ r, row.read t = .ok r
  once : ∀ t, w.addedTo t = w.taken opts t
  holds : Holds opts w.store w.added

section Steps

variable {opts : Options} {w v : World}

/-- A step that neither moves a cursor nor touches the findings of the rows. -/
theorem Inv.move (h : Inv opts w) (hrows : ∀ t, v.rowsOf t = w.rowsOf t)
    (hcursors : v.cursors = w.cursors) (hadded : v.added = w.added)
    (hstore : ∀ k, isRasKey k → v.store.mem.items.get? k = w.store.mem.items.get? k)
    (hahead : ∀ t ahead todo, v.stage = .rows t ahead todo →
      ahead <+: (w.rowsOf t).filter fun row => w.cursors t < row.id) : Inv opts v := by
  have hpassed : ∀ t, v.passed t = w.passed t := fun t => by
    unfold World.passed
    rw [hrows t, hcursors]
  refine ⟨fun t => ?_, fun t => ?_, fun t ahead todo hstage => ?_, fun t row hrow => ?_,
    fun t => ?_, ?_⟩
  · rw [hrows t]
    exact h.sorted t
  · rw [hrows t, hcursors]
    exact h.reached t
  · rw [hrows t, hcursors]
    exact hahead t ahead todo hstage
  · rw [hpassed t] at hrow
    exact h.whole t row hrow
  · unfold World.addedTo World.taken
    rw [hadded, hpassed t]
    exact h.once t
  · rw [hadded]
    exact h.holds.congr hstore

theorem not_isRasKey_error (message now : String) : ¬ isRasKey (errorCall message now).key := by
  show ¬ isRasKey "monitor-error:RasMonitor"
  decide +kernel

theorem Inv.raised (h : Inv opts w) (message now : String) (ok : Bool) :
    Inv opts (w.raised message now ok) := by
  unfold World.raised
  split
  · exact h.move (fun _ => rfl) rfl rfl (fun _ _ => rfl) nofun
  · refine h.move (fun _ => rfl) rfl rfl (fun k hk => ?_) nofun
    have hne : k ≠ (errorCall message now).key := fun heq =>
      not_isRasKey_error message now (heq ▸ hk)
    show (w.store.add (errorCall message now) ok).mem.items.get? k = _
    rw [Store.get?_add, if_neg hne]

theorem cursor_lt (h : Inv opts w) {t : RasTable} {row : SqlRow} (hpos : 1 ≤ row.id)
    (hnew : ∀ old ∈ w.rowsOf t, old.id < row.id) : w.cursors t < row.id := by
  rcases h.reached t with hzero | ⟨old, hold, heq⟩
  · omega
  · rw [heq]
    exact hnew old hold

theorem rowsOf_insert (w : World) (t u : RasTable) (row : SqlRow) :
    (w.insert t row).rowsOf u = if u = t then w.rowsOf t ++ [row] else w.rowsOf u := by
  show (Function.update w.tables t (some (w.rowsOf t ++ [row])) u).getD [] = _
  by_cases hu : u = t
  · subst hu
    rw [if_pos rfl, Function.update_self]
    rfl
  · rw [if_neg hu, Function.update_of_ne hu]
    rfl

/-- A new row is one that no cursor has passed. -/
theorem passed_insert (h : Inv opts w) {t : RasTable} {row : SqlRow} (hpos : 1 ≤ row.id)
    (hnew : ∀ old ∈ w.rowsOf t, old.id < row.id) (u : RasTable) :
    (w.insert t row).passed u = w.passed u := by
  show ((w.insert t row).rowsOf u).filter (fun row => row.id ≤ w.cursors u) = w.passed u
  rw [rowsOf_insert]
  by_cases hu : u = t
  · subst hu
    have hafter : ¬ row.id ≤ w.cursors u := Nat.not_le_of_lt (cursor_lt h hpos hnew)
    rw [if_pos rfl, List.filter_append, List.filter_cons_of_neg (by simpa using hafter),
      List.filter_nil, List.append_nil]
    rfl
  · rw [if_neg hu]
    rfl

theorem Inv.insert (h : Inv opts w) {t : RasTable} {row : SqlRow} (hpos : 1 ≤ row.id)
    (hnew : ∀ old ∈ w.rowsOf t, old.id < row.id) : Inv opts (w.insert t row) := by
  refine ⟨fun u => ?_, fun u => ?_, fun u ahead todo hstage => ?_, fun u r hr => ?_, fun u => ?_,
    h.holds⟩
  · rw [rowsOf_insert]
    by_cases hu : u = t
    · rw [if_pos hu, List.pairwise_append]
      refine ⟨h.sorted t, List.pairwise_singleton _ _, fun a ha b hb => ?_⟩
      rw [List.mem_singleton.mp hb]
      exact hnew a ha
    · rw [if_neg hu]
      exact h.sorted u
  · rw [rowsOf_insert]
    rcases h.reached u with hzero | ⟨old, hold, heq⟩
    · exact Or.inl hzero
    · refine Or.inr ⟨old, ?_, heq⟩
      by_cases hu : u = t
      · rw [if_pos hu]
        exact List.mem_append_left _ (hu ▸ hold)
      · rw [if_neg hu]
        exact hold
  · show ahead <+: ((w.insert t row).rowsOf u).filter fun row => w.cursors u < row.id
    have hold := h.ahead u ahead todo hstage
    rw [rowsOf_insert]
    by_cases hu : u = t
    · subst hu
      rw [if_pos rfl, List.filter_append]
      exact hold.trans (List.prefix_append _ _)
    · rw [if_neg hu]
      exact hold
  · rw [passed_insert h hpos hnew] at hr
    exact h.whole u r hr
  · unfold World.taken
    rw [passed_insert h hpos hnew]
    exact h.once u

/-- What a row that can be converted reads as. -/
theorem read_spec {row : SqlRow} {t : RasTable} {r : RasRow} (h : row.read t = .ok r) :
    ∃ n status, row.errors = .ok n ∧ row.statusIn t = .ok status ∧ r = row.converted n status := by
  obtain ⟨n, hn, h⟩ := bind_eq_ok.mp h
  obtain ⟨status, hs, h⟩ := bind_eq_ok.mp h
  exact ⟨n, status, hn, hs, (Except.ok.inj h).symm⟩

theorem read_id {row : SqlRow} {t : RasTable} {r : RasRow} (h : row.read t = .ok r) :
    r.id = row.id := by
  obtain ⟨n, status, -, -, rfl⟩ := read_spec h
  rfl

section Take

variable {t u : RasTable} {r : RasRow} {now : String} {added escalated : Bool}

theorem addedTo_take_self : (w.take opts t r now added escalated).addedTo t =
    w.addedTo t ++ (if (r.kind opts t).isSome then [r] else []) := by
  show (List.map Prod.snd (List.filter (fun p => decide (p.1 = t))
    (if (r.kind opts t).isSome = true then w.added ++ [(t, r)] else w.added))) = _
  split
  · rw [List.filter_append, List.map_append, List.filter_cons_of_pos (by simp), List.filter_nil]
    rfl
  · rw [List.append_nil]
    rfl

theorem addedTo_take_ne (hu : u ≠ t) :
    (w.take opts t r now added escalated).addedTo u = w.addedTo u := by
  show (List.map Prod.snd (List.filter (fun p => decide (p.1 = u))
    (if (r.kind opts t).isSome = true then w.added ++ [(t, r)] else w.added))) = _
  split
  · rw [List.filter_append, List.filter_cons_of_neg (by simpa using Ne.symm hu), List.filter_nil,
      List.append_nil]
    rfl
  · rfl

theorem holds_take (h : Holds opts w.store w.added) :
    Holds opts (w.take opts t r now added escalated).store
      (w.take opts t r now added escalated).added := by
  show Holds opts (r.record opts t now added escalated w.store)
    (if (r.kind opts t).isSome = true then w.added ++ [(t, r)] else w.added)
  cases hkind : r.kind opts t with
  | none =>
    rw [record_of_informational hkind]
    exact h
  | some kind => exact h.record hkind

end Take

section Taken

variable {t u : RasTable} {row : SqlRow} {ahead : List SqlRow} {todo : List RasTable}
  {r : RasRow} {now : String} {added escalated : Bool}

theorem cursors_take (hread : row.read t = .ok r) :
    (w.take opts t r now added escalated).cursors t = row.id := by
  show Function.update w.cursors t r.id t = row.id
  rw [Function.update_self, read_id hread]

theorem cursors_take_ne (hu : u ≠ t) :
    (w.take opts t r now added escalated).cursors u = w.cursors u :=
  Function.update_of_ne hu _ _

theorem passed_take_ne (hu : u ≠ t) :
    (w.take opts t r now added escalated).passed u = w.passed u := by
  show (w.rowsOf u).filter (fun j => j.id ≤ (w.take opts t r now added escalated).cursors u) = _
  rw [cursors_take_ne hu]
  rfl

/-- The row that is taken is the last that the cursor has passed, and the rows ahead are still
those after it. -/
theorem passed_take (h : Inv opts w) (hstage : w.stage = .rows t (row :: ahead) todo)
    (hread : row.read t = .ok r) (now : String) (added escalated : Bool) :
    row ∈ w.rowsOf t ∧
      (w.take opts t r now added escalated).passed t = w.passed t ++ [row] ∧
      ahead <+: (w.rowsOf t).filter
        fun j => (w.take opts t r now added escalated).cursors t < j.id := by
  obtain ⟨newer, hahead⟩ := h.ahead t _ _ hstage
  have hnext : (w.rowsOf t).filter (fun j => w.cursors t < j.id) = row :: (ahead ++ newer) :=
    hahead.symm
  obtain ⟨hle, hlt⟩ := Tally.filter_le_next (h.sorted t) hnext
  refine ⟨(List.mem_filter.mp (hnext ▸ List.mem_cons_self)).1, ?_, ?_⟩
  · show (w.rowsOf t).filter (fun j => j.id ≤ (w.take opts t r now added escalated).cursors t) = _
    rw [cursors_take hread]
    exact hle
  · rw [cursors_take hread, hlt]
    exact List.prefix_append _ _

/-- What has been added is what the cursors have passed, once the row is taken. -/
theorem once_take (h : Inv opts w) (hstage : w.stage = .rows t (row :: ahead) todo)
    (hread : row.read t = .ok r) (now : String) (added escalated : Bool) (u : RasTable) :
    (w.take opts t r now added escalated).addedTo u =
      (w.take opts t r now added escalated).taken opts u := by
  have hold := h.once u
  unfold World.taken at hold ⊢
  by_cases hu : u = t
  · subst hu
    rw [(passed_take h hstage hread now added escalated).2.1, List.filterMap_append, ← hold,
      addedTo_take_self]
    refine congrArg _ ?_
    unfold SqlRow.noted
    rw [List.filterMap_cons, hread]
    dsimp only
    split <;> rfl
  · rw [passed_take_ne hu, ← hold, addedTo_take_ne hu]

/-- The poll takes the next row of its table. -/
theorem Inv.take (h : Inv opts w) (hstage : w.stage = .rows t (row :: ahead) todo)
    (hread : row.read t = .ok r) (now : String) (added escalated : Bool) :
    Inv opts { w.take opts t r now added escalated with stage := .rows t ahead todo } := by
  obtain ⟨hmem, hpassed, hahead⟩ := passed_take h hstage hread now added escalated
  refine ⟨h.sorted, fun u => ?_, fun u ahead' todo' hstage' => ?_, fun u j hj => ?_, fun u => ?_,
    ?_⟩
  · by_cases hu : u = t
    · subst hu
      refine Or.inr ⟨row, hmem, ?_⟩
      show (w.take opts u r now added escalated).cursors u = row.id
      exact cursors_take hread
    · show (w.take opts t r now added escalated).cursors u = 0 ∨ _
      rw [cursors_take_ne hu]
      exact h.reached u
  · cases hstage'
    exact hahead
  · change j ∈ (w.take opts t r now added escalated).passed u at hj
    by_cases hu : u = t
    · subst hu
      rw [hpassed] at hj
      rcases List.mem_append.mp hj with hold | hnew
      · exact h.whole u j hold
      · rw [List.mem_singleton.mp hnew]
        exact ⟨r, hread⟩
    · rw [passed_take_ne hu] at hj
      exact h.whole u j hj
  · exact once_take h hstage hread now added escalated u
  · exact holds_take h.holds

end Taken

/-- A poll goes from one stage to the next and has no row to take in between. -/
theorem Inv.go (h : Inv opts w) {stage : Stage}
    (hstage : ∀ t ahead todo, stage ≠ .rows t ahead todo) :
    Inv opts { w with stage := stage } :=
  h.move (fun _ => rfl) rfl rfl (fun _ _ => rfl)
    fun t ahead todo heq => absurd heq (hstage t ahead todo)

theorem Inv.poll (h : Inv opts w) {e : Event} (hstep : pollStep opts w w.stage e = some v) :
    Inv opts v := by
  unfold pollStep at hstep
  split at hstep
  -- The poll starts.
  case h_1 =>
    obtain rfl := Option.some.inj hstep
    exact h.go nofun
  -- The tables are looked up.
  case h_2 =>
    dsimp only at hstep
    split at hstep
    · obtain rfl := Option.some.inj hstep
      exact h.raised _ _ _
    · obtain rfl := Option.some.inj hstep
      exact h.go nofun
  -- The largest id of the next table.
  case h_3 =>
    split at hstep
    · obtain rfl := Option.some.inj hstep
      exact h.raised _ _ _
    · obtain rfl := Option.some.inj hstep
      exact h.go nofun
  -- The rows after the cursor.
  case h_4 =>
    obtain rfl := Option.some.inj hstep
    refine h.move (fun _ => rfl) rfl rfl (fun _ _ => rfl) fun u ahead todo hstage => ?_
    cases hstage
    exact List.prefix_rfl
  -- The next row.
  case h_5 t row ahead todo message now added escalated hstage =>
    split at hstep
    · obtain rfl := Option.some.inj hstep
      exact h.raised _ _ _
    · rename_i r hread
      obtain rfl := Option.some.inj hstep
      exact h.take hstage hread now added escalated
  -- The table is done.
  case h_6 =>
    obtain rfl := Option.some.inj hstep
    exact h.go nofun
  -- The poll is done.
  case h_7 =>
    obtain rfl := Option.some.inj hstep
    exact h.go nofun
  -- Nothing can fail while no poll runs.
  case h_8 => cases hstep
  -- An exception from outside.
  case h_9 =>
    obtain rfl := Option.some.inj hstep
    exact h.raised _ _ _
  -- The event is not of this stage.
  case h_10 => cases hstep

theorem Inv.step (h : Inv opts w) {e : Event} (hstep : step opts w e = some v) : Inv opts v := by
  cases e with
  | create t =>
    obtain ⟨hnone, heq⟩ := Option.ite_none_right_eq_some.mp hstep
    obtain rfl := Option.some.inj heq
    refine h.move (fun u => ?_) rfl rfl (fun _ _ => rfl) h.ahead
    show (Function.update w.tables t (some []) u).getD [] = (w.tables u).getD []
    by_cases hu : u = t
    · subst hu
      rw [Function.update_self, hnone]
      rfl
    · rw [Function.update_of_ne hu]
  | insert t row =>
    obtain ⟨⟨-, hpos, hnew⟩, heq⟩ := Option.ite_none_right_eq_some.mp hstep
    obtain rfl := Option.some.inj heq
    exact h.insert hpos hnew
  | call c ok =>
    obtain ⟨hother, heq⟩ := Option.ite_none_left_eq_some.mp hstep
    obtain rfl := Option.some.inj heq
    refine h.move (fun _ => rfl) rfl rfl (fun k hk => ?_) h.ahead
    exact Store.get?_call_ne fun heq => hother (heq ▸ hk)
  | start | query _ _ | table _ _ | select | row _ _ _ _ | next | done | fail _ _ _ =>
    exact h.poll hstep

end Steps

/-! ## All polls -/

section Polls

variable {opts : Options} {w : World} {s : Store}

theorem inv_opened (h : ∀ k, isRasKey k → s.mem.items.get? k = none) : Inv opts (opened s) := by
  have hnone : ∀ t, (opened s).rowsOf t = [] := fun _ => rfl
  refine ⟨fun t => ?_, fun t => Or.inl rfl, fun _ _ _ hstage => (nomatch hstage),
    fun t row hrow => (nomatch hrow), fun t => rfl, ?_⟩
  · rw [hnone]
    exact List.Pairwise.nil
  · refine ⟨fun k hk => ?_, fun k hk => ?_, fun _ hp => (nomatch hp), fun _ hp => (nomatch hp)⟩
    · show (s.mem.items.get? k).isSome = true ↔ _
      rw [h k hk]
      exact iff_of_false Bool.false_ne_true fun ⟨_, hp, _⟩ => nomatch hp
    · show s.mem.items.countOf k = 0
      unfold Items.countOf
      rw [h k hk]
      rfl

theorem mem_addedTo {t : RasTable} {r : RasRow} : r ∈ w.addedTo t ↔ (t, r) ∈ w.added := by
  unfold World.addedTo
  simp

/-- Only the rows of its own table add to the count of a key. -/
theorem sum_shares {kind : RasKind} (t : RasTable) (added : List (RasTable × RasRow)) :
    (added.map fun p => p.2.share opts p.1 (kind.key t)).sum =
      (((added.filter fun p => decide (p.1 = t)).map Prod.snd).map
        fun r => r.share opts t (kind.key t)).sum := by
  induction added with
  | nil => rfl
  | cons p rest ih =>
    obtain ⟨u, r⟩ := p
    rw [List.map_cons, List.sum_cons, ih]
    by_cases hu : u = t
    · subst hu
      rw [List.filter_cons_of_pos (by simp), List.map_cons, List.map_cons, List.sum_cons]
    · have hzero : r.share opts u (kind.key t) = 0 := by
        unfold RasRow.share
        cases hkind : r.kind opts u with
        | none => rfl
        | some k => exact if_neg fun heq => hu (RasKind.eq_of_key_eq heq).1
      rw [List.filter_cons_of_neg (by simpa using hu)]
      dsimp only
      rw [hzero, zero_add]

theorem Inv.reflected (h : Inv opts w) : Reflected opts w := by
  have hmem : ∀ {t r}, r ∈ w.taken opts t ↔ (t, r) ∈ w.added := fun {t r} => by
    rw [← h.once t, mem_addedTo]
  refine ⟨h.once, h.whole, fun k hk => ?_, fun t r hr kind hkind => ?_,
    fun t r hr kind hkind hc => ?_, fun t r hr kind hkind hc => ?_⟩
  · rw [h.holds.present k hk]
    constructor
    · rintro ⟨⟨t, r⟩, hp, kind, hkind, hkey⟩
      exact ⟨t, r, hmem.mpr hp, kind, hkind, hkey⟩
    · rintro ⟨t, r, hr, kind, hkind, hkey⟩
      exact ⟨(t, r), hmem.mp hr, kind, hkind, hkey⟩
  · rw [h.holds.count _ (isRasKey_key kind t), sum_shares, ← h.once t]
    rfl
  · exact h.holds.uncorrected (t, r) (hmem.mp hr) kind hkind hc
  · have hkey : HasKey opts (kind.key t) (t, r) := ⟨kind, hkind, rfl⟩
    have hsome := (h.holds.present _ (isRasKey_key kind t)).mpr ⟨(t, r), hmem.mp hr, hkey⟩
    rw [RasRow.threshold_eq hkind]
    exact h.holds.corrected (t, r) (hmem.mp hr) kind hkind hc hsome

/-! ## The rows themselves -/

/-- How a row that is converted counts, and how the status of a machine check is read. -/
structure Decoded (opts : Options) (t : RasTable) (row : SqlRow) (r : RasRow) : Prop where
  count : ∃ n, row.errors = .ok n ∧ r.count = max 1 n
  status : t = .mceRecord → ∃ kind, r.kind opts t = some kind ∧
    (kind.corrected = true ↔ row.status ≠ .absent ∧ row.status ≠ .null ∧
      ∃ n, row.status.int = .ok n ∧ (BitVec.ofInt 64 n).getLsbD 61 = false)

/-- Bit 61 of an integer is that of the 64 bits it is stored in, also where it is negative. -/
theorem testBit_eq_getLsbD (n : Int) : n.testBit 61 = (BitVec.ofInt 64 n).getLsbD 61 := by
  cases n with
  | ofNat m =>
    rw [Int.ofNat_eq_natCast, BitVec.ofInt_natCast, BitVec.getLsbD_ofNat]
    rfl
  | negSucc m =>
    rw [BitVec.ofInt_negSucc_eq_not_ofNat, BitVec.getLsbD_not, BitVec.getLsbD_ofNat]
    rfl

theorem statusCorrected_value (row : SqlRow) (n m : Int) :
    (row.converted n (.value m)).statusCorrected = !(BitVec.ofInt 64 m).getLsbD 61 :=
  congrArg (!·) (testBit_eq_getLsbD m)

theorem statusCorrected_iff {row : SqlRow} {status : Column Int}
    (h : row.statusColumn = .ok status) (n : Int) :
    (row.converted n status).statusCorrected = true ↔
      row.status ≠ .absent ∧ row.status ≠ .null ∧
        ∃ n, row.status.int = .ok n ∧ (BitVec.ofInt 64 n).getLsbD 61 = false := by
  unfold SqlRow.statusColumn at h
  cases hcell : row.status with
  | absent =>
    rw [hcell] at h
    obtain rfl := Except.ok.inj h
    exact iff_of_false Bool.false_ne_true fun hand => hand.1 rfl
  | null =>
    rw [hcell] at h
    obtain rfl := Except.ok.inj h
    exact iff_of_false Bool.false_ne_true fun hand => hand.2.1 rfl
  | integer m =>
    rw [hcell] at h
    obtain rfl := Except.ok.inj h
    rw [statusCorrected_value]
    simp [Cell.int]
  | other truthy int =>
    rw [hcell] at h
    cases int with
    | error x => cases h
    | ok m =>
      obtain rfl := Except.ok.inj h
      rw [statusCorrected_value]
      simp [Cell.int]

theorem decoded_of_read {t : RasTable} {row : SqlRow} {r : RasRow} (h : row.read t = .ok r) :
    Decoded opts t row r := by
  obtain ⟨n, status, hn, hs, rfl⟩ := read_spec h
  refine ⟨⟨n, hn, ?_⟩, fun ht => ?_⟩
  · show max 1 (if n = 0 then 1 else n) = max 1 n
    split <;> omega
  · unfold SqlRow.statusIn at hs
    rw [if_pos ht] at hs
    subst ht
    exact ⟨_, rfl, statusCorrected_iff hs n⟩

end Polls

/-- After every event of a process, whatever its polls break off at, the findings reflect the
rows up to the cursors, each as it is stored. -/
theorem rows_reflected (opts : Options) {s : Store} {es : List Event} {w : World}
    (hfresh : ∀ k, isRasKey k → s.mem.items.get? k = none)
    (hrun : run (step opts) (opened s) es = some w) :
    Reflected opts w ∧ ∀ t row r, row.read t = .ok r → Decoded opts t row r := by
  have hinv : Inv opts w :=
    run_preserves_along (fun _ _ _ h _ ht => Inv.step h ht) (inv_opened hfresh)
      (along_of_forall fun _ _ _ => trivial) hrun
  exact ⟨hinv.reflected, fun _ _ _ h => decoded_of_read h⟩

/-- Three rows, of which the second cannot be converted: the poll takes the first. -/
def brokenPoll : List Event :=
  [.create .mcEvent,
    .insert .mcEvent
      { columns := { id := 1, errType := .value "Corrected" }, errCount := .integer 2 },
    .insert .mcEvent { columns := { id := 2 }, errCount := .other true (.error .valueError) },
    .insert .mcEvent { columns := { id := 3 } },
    .start, .query "" true, .table "" true, .select, .row "" "" true true,
    .row "invalid literal" "" true true]

theorem rows_reflected_broken :
    ∃ w, run (step {}) (opened { mem := Findings.new, files := RotatingFiles.empty }) brokenPoll =
      some w ∧ w.cursors .mcEvent = 1 ∧ Reflected {} w := by
  have hone : (run (step {}) (opened { mem := Findings.new, files := RotatingFiles.empty })
      brokenPoll).map (fun w => w.cursors .mcEvent) = some 1 := by decide +kernel
  obtain ⟨w, hw, hcursor⟩ := Option.map_eq_some_iff.mp hone
  exact ⟨w, hw, hcursor, (rows_reflected {} (fun _ _ => rfl) hw).1⟩

end RasPolls
end PcCheck
