/-
JSON as Python's `json` module writes and reads it.

`dumps` is `json.dumps` with an indent of 2, sorted keys and ASCII only, and `loads` is
`json.loads`.  The reader works on fuel, one unit for each character, and more never helps
(`loads_of_value`).

Two results are what the file exists for: `loads_dumps`, what is written is read back, and
`loads_of_cut`, a dict or a list that is cut short anywhere is refused.
-/
import PcCheck.Lib.Dict
import PcCheck.Lib.JsonString
import Mathlib.Data.List.Sort

namespace JsonText

/-! ## Documents -/

inductive Doc where
  | null
  | bool (b : Bool)
  | num (n : Literal)
  | str (s : String)
  | arr (items : List Doc)
  | obj (fields : List (String × Doc))

namespace Doc

/-- A number has no last character of its own. -/
def IsOpen : Doc → Prop
  | num _ => True
  | _ => False

mutual

/-- No dict has two entries of one key. -/
def Proper : Doc → Prop
  | arr items => ProperItems items
  | obj fields => (fields.map Prod.fst).Nodup ∧ ProperFields fields
  | _ => True

def ProperItems : List Doc → Prop
  | [] => True
  | d :: rest => d.Proper ∧ ProperItems rest

def ProperFields : List (String × Doc) → Prop
  | [] => True
  | (_, d) :: rest => d.Proper ∧ ProperFields rest

end

mutual

/-- Every dict with its keys in order. -/
def sorted : Doc → Doc
  | arr items => arr (sortedItems items)
  | obj fields => obj ((sortedFields fields).insertionSort fun a b => a.1 ≤ b.1)
  | d => d

def sortedItems : List Doc → List Doc
  | [] => []
  | d :: rest => d.sorted :: sortedItems rest

def sortedFields : List (String × Doc) → List (String × Doc)
  | [] => []
  | (k, d) :: rest => (k, d.sorted) :: sortedFields rest

end

end Doc

/-! ## Reading -/

section Reading

def isBlank (c : Char) : Bool := c == ' ' || c == '\t' || c == '\n' || c == '\r'

def skip (s : List Char) : List Char := s.dropWhile isBlank

def number (s : List Char) : Option (Doc × List Char) :=
  match h : lexNumber s with
  | some (_, r) => some (.num ⟨_, isNumber_of_lexNumber h⟩, r)
  | none => none

def word (w : List Char) (d : Doc) (s : List Char) : Option (Doc × List Char) :=
  (after w s).map fun r => (d, r)

/-- A value without parts. -/
def atom (s : List Char) : Option (Doc × List Char) :=
  if s.head? = some 'n' then word ['n', 'u', 'l', 'l'] .null s
  else if s.head? = some 't' then word ['t', 'r', 'u', 'e'] (.bool true) s
  else if s.head? = some 'f' then word ['f', 'a', 'l', 's', 'e'] (.bool false) s
  else number s

/-- The key of an entry of a dict, up to its value.  An item of a list has none. -/
def readKey (keyed : Bool) (n : Nat) (s : List Char) : Option (String × List Char) :=
  if keyed then
    if s.head? = some '"' then
      (readString n s.tail).bind fun k =>
        if (skip k.2).head? = some ':' then some (String.ofList k.1, skip (skip k.2).tail)
        else none
    else none
  else some ("", s)

def closer (keyed : Bool) : Char := if keyed then '\x7d' else ']'

mutual

def value : Nat → List Char → Option (Doc × List Char)
  | 0, _ => none
  | n + 1, s =>
    if s.head? = some '"' then
      (readString n s.tail).map fun p => (.str (String.ofList p.1), p.2)
    else if s.head? = some '\x7b' then
      if (skip s.tail).head? = some (closer true) then some (.obj [], (skip s.tail).tail)
      else (members true n (skip s.tail)).map fun p => (.obj (Dict.ofList p.1).entries, p.2)
    else if s.head? = some '[' then
      if (skip s.tail).head? = some (closer false) then some (.arr [], (skip s.tail).tail)
      else (members false n (skip s.tail)).map fun p => (.arr (p.1.map Prod.snd), p.2)
    else atom s

/-- The entries of a dict or the items of a list, up to its closing character. -/
def members (keyed : Bool) : Nat → List Char → Option (List (String × Doc) × List Char)
  | 0, _ => none
  | n + 1, s =>
    (readKey keyed n s).bind fun k => (value n k.2).bind fun p =>
      if (skip p.2).head? = some ',' then
        (members keyed n (skip (skip p.2).tail)).map fun q => ((k.1, p.1) :: q.1, q.2)
      else if (skip p.2).head? = some (closer keyed) then some ([(k.1, p.1)], (skip p.2).tail)
      else none

end

def loads (s : List Char) : Option Doc :=
  (value s.length (skip s)).bind fun p => if skip p.2 = [] then some p.1 else none

/-! ### What follows a value does not change it -/

variable {s r t : List Char} {n m : Nat} {d : Doc} {keyed : Bool}

theorem length_skip_le (s : List Char) : (skip s).length ≤ s.length := List.length_dropWhile_le _ s

theorem skip_append (h : skip s ≠ []) (t : List Char) : skip (s ++ t) = skip s ++ t := by
  unfold skip at h ⊢
  rw [List.dropWhile_append, if_neg]
  simpa using h

theorem skip_of_head (h : ∀ c ∈ s.head?, isBlank c = false) : skip s = s := by
  cases s with
  | nil => rfl
  | cons c s =>
    unfold skip
    rw [List.dropWhile_cons_of_neg]
    simp [h c rfl]

theorem ne_nil_of_head {c : Char} (h : s.head? = some c) : s ≠ [] := by
  rintro rfl
  cases h

theorem length_tail_lt {c : Char} (h : s.head? = some c) : s.tail.length < s.length := by
  cases s with
  | nil => cases h
  | cons c s => exact Nat.lt_succ_self _

theorem tail_append {c : Char} (h : s.head? = some c) (t : List Char) :
    (s ++ t).tail = s.tail ++ t := by
  cases s with
  | nil => cases h
  | cons c s => rfl

theorem head_append_eq {c : Char} (h : s.head? = some c) (t : List Char) :
    (s ++ t).head? = some c := (head_append_of_ne_nil (ne_nil_of_head h) t).trans h

/-- A text that is read takes up some characters, whatever follows it changes nothing, and no
more fuel is needed than it has characters. -/
def Firm {α : Type*} (read : Nat → List Char → Option (α × List Char)) (isOpen : α → Prop)
    (n : Nat) : Prop :=
  ∀ s a r, read n s = some (a, r) →
    r.length < s.length ∧ (∀ t, (isOpen a → Halts (r ++ t)) → read n (s ++ t) = some (a, r ++ t)) ∧
      ∀ m, s.length ≤ m + r.length → read m s = some (a, r)

theorem number_spec (h : number s = some (d, r)) :
    r.length < s.length ∧ d.IsOpen ∧ ∀ t, Halts (r ++ t) → number (s ++ t) = some (d, r ++ t) := by
  unfold number at h
  split at h
  next l r' hlex =>
    obtain ⟨rfl, rfl⟩ := Prod.mk.inj (Option.some.inj h)
    obtain ⟨rfl, hne, hread⟩ := lexNumber_spec hlex
    refine ⟨?_, trivial, fun t ht => ?_⟩
    · have hpos := List.length_pos_iff.mpr hne
      rw [List.length_append]
      omega
    · have hmore := hread _ ht
      unfold number
      rw [List.append_assoc]
      split
      next l' r'' hlex' =>
        obtain ⟨rfl, rfl⟩ := Prod.mk.inj (Option.some.inj (hmore.symm.trans hlex'))
        rfl
      next hlex' => cases hmore.symm.trans hlex'
  · cases h

theorem word_spec {w : List Char} (hw : w ≠ []) {d' : Doc} (h : word w d' s = some (d, r)) :
    r.length < s.length ∧ ∀ t, word w d' (s ++ t) = some (d, r ++ t) := by
  obtain ⟨r, hafter, heq⟩ := Option.map_eq_some_iff.mp h
  obtain ⟨rfl, rfl⟩ := Prod.mk.inj heq
  obtain ⟨rfl, hmore⟩ := after_spec hafter
  refine ⟨?_, fun t => ?_⟩
  · have hpos := List.length_pos_iff.mpr hw
    rw [List.length_append]
    omega
  · rw [word, hmore t]
    rfl

theorem atom_spec (h : atom s = some (d, r)) :
    r.length < s.length ∧ ∀ t, (d.IsOpen → Halts (r ++ t)) → atom (s ++ t) = some (d, r ++ t) := by
  have hne : s ≠ [] := by
    rintro rfl
    cases h
  have hhead := fun t => head_append_of_ne_nil hne t
  unfold atom at h
  split at h
  next hc =>
    obtain ⟨hlen, hmore⟩ := word_spec (by decide) h
    refine ⟨hlen, fun t _ => ?_⟩
    rw [atom, hhead, if_pos hc, hmore t]
  next hc =>
    split at h
    next hc' =>
      obtain ⟨hlen, hmore⟩ := word_spec (by decide) h
      refine ⟨hlen, fun t _ => ?_⟩
      rw [atom, hhead, if_neg hc, if_pos hc', hmore t]
    next hc' =>
      split at h
      next hc'' =>
        obtain ⟨hlen, hmore⟩ := word_spec (by decide) h
        refine ⟨hlen, fun t _ => ?_⟩
        rw [atom, hhead, if_neg hc, if_neg hc', if_pos hc'', hmore t]
      next hc'' =>
        obtain ⟨hlen, hopen, hmore⟩ := number_spec h
        refine ⟨hlen, fun t ht => ?_⟩
        rw [atom, hhead, if_neg hc, if_neg hc', if_neg hc'', hmore t (ht hopen)]

theorem readKey_spec {k : String} (h : readKey keyed n s = some (k, r)) (hr : r ≠ []) :
    r.length ≤ s.length ∧ (∀ t, readKey keyed n (s ++ t) = some (k, r ++ t)) ∧
      ∀ m, s.length ≤ m + r.length → readKey keyed m s = some (k, r) := by
  cases keyed with
  | false =>
    obtain ⟨rfl, rfl⟩ := Prod.mk.inj (Option.some.inj h)
    exact ⟨le_refl _, fun _ => rfl, fun _ _ => rfl⟩
  | true =>
    obtain ⟨hquote, h⟩ := Option.ite_none_right_eq_some.mp h
    obtain ⟨⟨l, r₁⟩, hread, h⟩ := Option.bind_eq_some_iff.mp h
    obtain ⟨hcolon, h⟩ := Option.ite_none_right_eq_some.mp h
    obtain ⟨rfl, rfl⟩ := Prod.mk.inj (Option.some.inj h)
    dsimp only at hcolon hr ⊢
    obtain ⟨hlen, hmore, hfuel⟩ := readString_spec hread
    have hlen₁ := length_tail_lt hquote
    have hlen₂ := length_skip_le r₁
    have hlen₃ := length_tail_lt hcolon
    have hlen₄ := length_skip_le (skip r₁).tail
    have hcolon' := fun t => head_append_eq hcolon t
    refine ⟨by omega, fun t => ?_, fun m hm => ?_⟩
    · unfold readKey
      rw [if_pos rfl, if_pos (head_append_eq hquote t), tail_append hquote, hmore t,
        Option.bind_some]
      dsimp only
      rw [skip_append (ne_nil_of_head hcolon), if_pos (hcolon' t), tail_append hcolon,
        skip_append hr]
    · unfold readKey
      rw [if_pos rfl, if_pos hquote, hfuel m (by omega), Option.bind_some]
      exact if_pos hcolon

theorem firm_members (hv : Firm value Doc.IsOpen n)
    (hm : Firm (members keyed) (fun _ => False) n) :
    Firm (members keyed) (fun _ => False) (n + 1) := by
  intro s l r h
  rw [members] at h
  obtain ⟨⟨k, r₁⟩, hkey, h⟩ := Option.bind_eq_some_iff.mp h
  obtain ⟨⟨d, r₂⟩, hvalue, h⟩ := Option.bind_eq_some_iff.mp h
  dsimp only at hvalue h
  obtain ⟨hlen₂, hmore₂, hfuel₂⟩ := hv _ _ _ hvalue
  have hne : r₁ ≠ [] := List.ne_nil_of_length_pos (by omega)
  obtain ⟨hlen₁, hmore₁, hfuel₁⟩ := readKey_spec hkey hne
  have hskip := length_skip_le r₂
  -- What stands after the value is a blank, a comma or the closing character.
  have hhalts : ∀ c, (skip r₂).head? = some c → isNumeric c = false →
      ∀ t, Halts (r₂ ++ t) := by
    intro c hc hnum t
    cases r₂ with
    | nil => cases hc
    | cons e r₂ =>
      refine halts_cons.mpr ?_
      by_cases hblank : isBlank e = true
      · simp only [isBlank, Bool.or_eq_true, beq_iff_eq] at hblank
        rcases hblank with ((rfl | rfl) | rfl) | rfl <;> decide
      · rw [skip_of_head fun e' he' => by
          obtain rfl := Option.some.inj he'
          exact Bool.not_eq_true _ ▸ hblank] at hc
        obtain rfl := Option.some.inj hc
        exact hnum
  split at h
  next hcomma =>
    obtain ⟨⟨l', r₃⟩, hrest, h⟩ := Option.map_eq_some_iff.mp h
    obtain ⟨rfl, rfl⟩ := Prod.mk.inj h
    obtain ⟨hlen₃, hmore₃, hfuel₃⟩ := hm _ _ _ hrest
    have htail := length_tail_lt hcomma
    have hskip' := length_skip_le (skip r₂).tail
    have hne' : skip (skip r₂).tail ≠ [] := List.ne_nil_of_length_pos (by omega)
    refine ⟨by dsimp only; omega, fun t _ => ?_, fun m hm => ?_⟩
    · rw [members, hmore₁ t, Option.bind_some]
      dsimp only
      rw [hmore₂ t fun _ => hhalts ',' hcomma rfl t, Option.bind_some]
      dsimp only
      rw [skip_append (ne_nil_of_head hcomma), if_pos (head_append_eq hcomma t),
        tail_append hcomma, skip_append hne', hmore₃ t (fun h => h.elim), Option.map_some]
    · dsimp only at hm
      cases m with
      | zero => omega
      | succ m =>
        rw [members, hfuel₁ m (by omega), Option.bind_some]
        dsimp only
        rw [hfuel₂ m (by omega), Option.bind_some]
        dsimp only
        rw [if_pos hcomma, hfuel₃ m (by omega), Option.map_some]
  next hcomma =>
    obtain ⟨hclose, h⟩ := Option.ite_none_right_eq_some.mp h
    obtain ⟨rfl, rfl⟩ := Prod.mk.inj (Option.some.inj h)
    have htail := length_tail_lt hclose
    refine ⟨by omega, fun t _ => ?_, fun m hm => ?_⟩
    · have hnum : isNumeric (closer keyed) = false := by cases keyed <;> rfl
      have hcomma' : (skip r₂ ++ t).head? ≠ some ',' := by
        rwa [head_append_of_ne_nil (ne_nil_of_head hclose)]
      rw [members, hmore₁ t, Option.bind_some]
      dsimp only
      rw [hmore₂ t fun _ => hhalts _ hclose hnum t, Option.bind_some]
      dsimp only
      rw [skip_append (ne_nil_of_head hclose), if_neg hcomma', if_pos (head_append_eq hclose t),
        tail_append hclose]
    · cases m with
      | zero => omega
      | succ m =>
        rw [members, hfuel₁ m (by omega), Option.bind_some]
        dsimp only
        rw [hfuel₂ m (by omega), Option.bind_some]
        dsimp only
        rw [if_neg hcomma, if_pos hclose]

/-- What stands between the opening character and the closing one. -/
theorem firm_container {α : Type*} {f : List (String × Doc) → α} {a b : α} {o : Char}
    (hm : Firm (members keyed) (fun _ => False) n) (ho : s.head? = some o)
    (h : (if (skip s.tail).head? = some (closer keyed) then some (b, (skip s.tail).tail)
      else (members keyed n (skip s.tail)).map fun p => (f p.1, p.2)) = some (a, r)) :
    r.length < s.length ∧
      (∀ t, (if (skip (s ++ t).tail).head? = some (closer keyed) then
          some (b, (skip (s ++ t).tail).tail)
        else (members keyed n (skip (s ++ t).tail)).map fun p => (f p.1, p.2)) =
          some (a, r ++ t)) ∧
      ∀ m, s.length ≤ m + 1 + r.length →
        (if (skip s.tail).head? = some (closer keyed) then some (b, (skip s.tail).tail)
          else (members keyed m (skip s.tail)).map fun p => (f p.1, p.2)) = some (a, r) := by
  have hlen := length_tail_lt ho
  have hskip := length_skip_le s.tail
  split at h
  next hclose =>
    obtain ⟨rfl, rfl⟩ := Prod.mk.inj (Option.some.inj h)
    have htail := length_tail_lt hclose
    refine ⟨by omega, fun t => ?_, fun m _ => if_pos hclose⟩
    rw [tail_append ho, skip_append (ne_nil_of_head hclose), if_pos (head_append_eq hclose t),
      tail_append hclose]
  next hclose =>
    obtain ⟨⟨l, r'⟩, hread, h⟩ := Option.map_eq_some_iff.mp h
    obtain ⟨rfl, rfl⟩ := Prod.mk.inj h
    obtain ⟨hlen', hmore, hfuel⟩ := hm _ _ _ hread
    have hne : skip s.tail ≠ [] := List.ne_nil_of_length_pos (by omega)
    dsimp only
    refine ⟨by omega, fun t => ?_, fun m hm => ?_⟩
    · have hclose' : (skip s.tail ++ t).head? ≠ some (closer keyed) := by
        rwa [head_append_of_ne_nil hne]
      rw [tail_append ho, skip_append hne, if_neg hclose', hmore t (fun h => h.elim),
        Option.map_some]
    · rw [if_neg hclose, hfuel m (by omega), Option.map_some]

theorem firm_value (hm : ∀ keyed, Firm (members keyed) (fun _ => False) n) :
    Firm value Doc.IsOpen (n + 1) := by
  intro s d r h
  have hne : s ≠ [] := by
    rintro rfl
    cases h
  have hhead := fun t => head_append_of_ne_nil hne t
  have hzero : ∀ {m : Nat}, r.length < s.length → s.length ≤ m + r.length → ∃ k, m = k + 1 := by
    intro m hlt hle
    cases m with
    | zero => omega
    | succ k => exact ⟨k, rfl⟩
  rw [value] at h
  split at h
  next hquote =>
    obtain ⟨⟨l, r⟩, hread, h⟩ := Option.map_eq_some_iff.mp h
    obtain ⟨rfl, rfl⟩ := Prod.mk.inj h
    obtain ⟨hlen, hmore, hfuel⟩ := readString_spec hread
    have htail := length_tail_lt hquote
    refine ⟨by dsimp only; omega, fun t _ => ?_, fun m hle => ?_⟩
    · rw [value, hhead, if_pos hquote, tail_append hquote, hmore t, Option.map_some]
    · dsimp only at hle hzero
      obtain ⟨m, rfl⟩ := hzero (by omega) hle
      rw [value, if_pos hquote, hfuel m (by omega), Option.map_some]
  next hquote =>
    split at h
    next hdict =>
      obtain ⟨hlen, hmore, hfuel⟩ :=
        firm_container (f := fun l => Doc.obj (Dict.ofList l).entries) (hm true) hdict h
      refine ⟨hlen, fun t _ => ?_, fun m hle => ?_⟩
      · rw [value, hhead, if_neg hquote, if_pos hdict]
        exact hmore t
      · obtain ⟨m, rfl⟩ := hzero hlen hle
        rw [value, if_neg hquote, if_pos hdict]
        exact hfuel m hle
    next hdict =>
      split at h
      next hlist =>
        obtain ⟨hlen, hmore, hfuel⟩ :=
          firm_container (f := fun l => Doc.arr (l.map Prod.snd)) (hm false) hlist h
        refine ⟨hlen, fun t _ => ?_, fun m hle => ?_⟩
        · rw [value, hhead, if_neg hquote, if_neg hdict, if_pos hlist]
          exact hmore t
        · obtain ⟨m, rfl⟩ := hzero hlen hle
          rw [value, if_neg hquote, if_neg hdict, if_pos hlist]
          exact hfuel m hle
      next hlist =>
        obtain ⟨hlen, hmore⟩ := atom_spec h
        refine ⟨hlen, fun t ht => ?_, fun m hle => ?_⟩
        · rw [value, hhead, if_neg hquote, if_neg hdict, if_neg hlist]
          exact hmore t ht
        · obtain ⟨m, rfl⟩ := hzero hlen hle
          rw [value, if_neg hquote, if_neg hdict, if_neg hlist]
          exact h

theorem firm (n : Nat) :
    Firm value Doc.IsOpen n ∧ ∀ keyed, Firm (members keyed) (fun _ => False) n := by
  induction n with
  | zero =>
    constructor
    · intro s d r h
      cases h
    · intro keyed s l r h
      cases h
  | succ n ih => exact ⟨firm_value ih.2, fun keyed => firm_members ih.1 (ih.2 keyed)⟩

/-- More fuel than the text has characters reads no more. -/
theorem loads_of_value (h : value n (skip s) = some (d, r)) (hr : skip r = []) :
    loads s = some d := by
  have hle := length_skip_le s
  rw [loads, ((firm n).1 _ _ _ h).2.2 s.length (by omega), Option.bind_some]
  exact if_pos hr

end Reading

/-! ## Writing -/

section Writing

def newline (level : Nat) : List Char := '\n' :: List.replicate (2 * level) ' '

def quoted (s : String) : List Char := '"' :: (escape s.toList ++ ['"'])

def opener (keyed : Bool) : Char := if keyed then '\x7b' else '['

/-- The entries after the first one, and the closing character. -/
def closing (keyed : Bool) (level : Nat) : List (List Char) → List Char
  | [] => newline level ++ [closer keyed]
  | x :: xs => ',' :: (newline (level + 1) ++ (x ++ closing keyed level xs))

def wrap (keyed : Bool) (level : Nat) : List (List Char) → List Char
  | [] => [opener keyed, closer keyed]
  | x :: xs => opener keyed :: (newline (level + 1) ++ (x ++ closing keyed level xs))

mutual

def text (level : Nat) : Doc → List Char
  | .null => ['n', 'u', 'l', 'l']
  | .bool true => ['t', 'r', 'u', 'e']
  | .bool false => ['f', 'a', 'l', 's', 'e']
  | .num n => n.text
  | .str s => quoted s
  | .arr items => wrap false level (textItems (level + 1) items)
  | .obj fields => wrap true level (textFields (level + 1) fields)

def textItems (level : Nat) : List Doc → List (List Char)
  | [] => []
  | d :: rest => text level d :: textItems level rest

def textFields (level : Nat) : List (String × Doc) → List (List Char)
  | [] => []
  | (k, d) :: rest => (quoted k ++ (':' :: ' ' :: text level d)) :: textFields level rest

end

def dumps (d : Doc) : List Char := text 0 d.sorted

/-! ### What is written is read back -/

variable {r s x : List Char} {n level : Nat} {d : Doc} {keyed : Bool}

/-- A text that no blank and no closing character begins. -/
def Starts (s : List Char) : Prop := ∃ c t, s = c :: t ∧ isBlank c = false ∧ c ≠ ']' ∧ c ≠ '\x7d'

theorem Starts.skip_eq (h : Starts s) : skip s = s := by
  obtain ⟨c, t, rfl, hblank, -⟩ := h
  exact skip_of_head fun e he => Option.some.inj he ▸ hblank

theorem Starts.append (h : Starts s) (t : List Char) : Starts (s ++ t) := by
  obtain ⟨c, s, rfl, hc⟩ := h
  exact ⟨c, s ++ t, rfl, hc⟩

theorem Starts.head_ne (h : Starts s) (keyed : Bool) : s.head? ≠ some (closer keyed) := by
  obtain ⟨c, t, rfl, -, hlist, hdict⟩ := h
  cases keyed with
  | false => exact fun hc => hlist (Option.some.inj hc)
  | true => exact fun hc => hdict (Option.some.inj hc)

theorem starts_quoted (k : String) : Starts (quoted k) := ⟨'"', _, rfl, by decide⟩

theorem starts_wrap (keyed : Bool) (level : Nat) (xs : List (List Char)) :
    Starts (wrap keyed level xs) := by
  cases xs <;> cases keyed <;> exact ⟨_, _, rfl, by decide⟩

/-- A character that a number may begin with. -/
abbrev IsNumberHead (c : Char) : Prop := c = 'N' ∨ c = 'I' ∨ c = '-' ∨ c.isDigit = true

theorem lexNumber_head {p : List Char × List Char} (h : lexNumber s = some p) :
    ∃ c t, s = c :: t ∧ IsNumberHead c := by
  cases s with
  | nil => cases h
  | cons c s =>
    refine ⟨c, s, rfl, ?_⟩
    rw [lexNumber_cons] at h
    split at h
    next hc => exact .inl hc
    next =>
      split at h
      next hc => exact .inr (.inl hc)
      next =>
        split at h
        next hc => exact .inr (.inr (.inl hc))
        next => exact .inr (.inr (.inr (lexUnsigned_head h).1))

theorem starts_text (level : Nat) (d : Doc) : Starts (text level d) := by
  cases d with
  | null => exact ⟨_, _, rfl, by decide⟩
  | bool b => cases b <;> exact ⟨_, _, rfl, by decide⟩
  | num l =>
    obtain ⟨c, t, htext, hc⟩ := lexNumber_head l.isNumber
    have hne : ∀ e, ¬ IsNumberHead e → c ≠ e := fun e he heq => he (heq ▸ hc)
    refine ⟨c, t, htext, ?_, hne _ (by decide), hne _ (by decide)⟩
    simp only [isBlank, Bool.or_eq_false_iff, beq_eq_false_iff_ne]
    exact ⟨⟨⟨hne _ (by decide), hne _ (by decide)⟩, hne _ (by decide)⟩, hne _ (by decide)⟩
  | str k => exact starts_quoted k
  | arr items => exact starts_wrap _ _ _
  | obj fields => exact starts_wrap _ _ _

theorem skip_newline (level : Nat) (s : List Char) : skip (newline level ++ s) = skip s := by
  unfold skip newline
  rw [List.cons_append, List.dropWhile_cons_of_pos (by rfl), List.dropWhile_append_of_pos]
  intro c hc
  rw [List.eq_of_mem_replicate hc]
  rfl

theorem skip_comma (s : List Char) : skip (',' :: s) = ',' :: s :=
  skip_of_head fun _ he => Option.some.inj he ▸ rfl

theorem skip_closer (keyed : Bool) (s : List Char) :
    skip (closer keyed :: s) = closer keyed :: s :=
  skip_of_head fun _ he => Option.some.inj he ▸ by cases keyed <;> rfl

theorem halts_closing (keyed : Bool) (level : Nat) (xs : List (List Char)) (r : List Char) :
    Halts (closing keyed level xs ++ r) := by
  cases xs <;> exact halts_cons.mpr (by decide)

/-- The text of an entry, or of an item, gives it back. -/
def Reads (keyed : Bool) (e : String × Doc) (x : List Char) : Prop :=
  Starts x ∧ ∀ n r, Halts r → x.length ≤ n →
    ∃ r', readKey keyed n (x ++ r) = some (e.1, r') ∧ value n r' = some (e.2, r)

theorem members_closing {e : String × Doc} {es : List (String × Doc)} {xs : List (List Char)}
    (he : Reads keyed e x) (hes : List.Forall₂ (Reads keyed) es xs)
    (hn : (x ++ closing keyed level xs).length ≤ n) (r : List Char) :
    members keyed n (x ++ (closing keyed level xs ++ r)) = some (e :: es, r) := by
  induction hes generalizing e x n with
  | nil =>
    have hlen : (closing keyed level []).length = 2 * level + 2 := by
      simp [closing, newline]
    rw [List.length_append, hlen] at hn
    cases n with
    | zero => omega
    | succ n =>
      obtain ⟨r', hkey, hvalue⟩ := he.2 n (closing keyed level [] ++ r)
        (halts_closing _ _ _ _) (by omega)
      have hskip : skip (closing keyed level [] ++ r) = closer keyed :: r := by
        rw [closing, List.append_assoc, skip_newline, List.singleton_append, skip_closer]
      have hcomma : closer keyed ≠ ',' := by cases keyed <;> decide
      rw [members, hkey, Option.bind_some, hvalue, Option.bind_some, hskip, List.head?_cons,
        if_neg fun hc => hcomma (Option.some.inj hc), if_pos rfl]
      rfl
  | @cons e' x' es xs he' _ ih =>
    have hlen : (x' ++ closing keyed level xs).length <
        (closing keyed level (x' :: xs)).length := by
      simp only [closing, List.length_cons, List.length_append]
      omega
    rw [List.length_append] at hn
    cases n with
    | zero => omega
    | succ n =>
      obtain ⟨r', hkey, hvalue⟩ := he.2 n (closing keyed level (x' :: xs) ++ r)
        (halts_closing _ _ _ _) (by omega)
      have hnext : closing keyed level (x' :: xs) ++ r =
          ',' :: (newline (level + 1) ++ (x' ++ (closing keyed level xs ++ r))) := by
        simp only [closing, List.cons_append, List.append_assoc]
      rw [members, hkey, Option.bind_some, hvalue, Option.bind_some, hnext, skip_comma,
        List.head?_cons, if_pos rfl, List.tail_cons, skip_newline, (he'.1.append _).skip_eq,
        ih he' (by omega), Option.map_some]

theorem members_wrap {es : List (String × Doc)} {xs : List (List Char)}
    (hes : List.Forall₂ (Reads keyed) es xs) (hn : (wrap keyed level xs).length ≤ n + 1)
    (r : List Char) {α : Type*} {f : List (String × Doc) → α} {b : α} (hb : f [] = b) :
    (if (skip (wrap keyed level xs ++ r).tail).head? = some (closer keyed) then
        some (b, (skip (wrap keyed level xs ++ r).tail).tail)
      else (members keyed n (skip (wrap keyed level xs ++ r).tail)).map fun p => (f p.1, p.2)) =
      some (f es, r) := by
  cases hes with
  | nil =>
    have hskip : skip (wrap keyed level [] ++ r).tail = closer keyed :: r := skip_closer keyed r
    rw [hskip, List.head?_cons, if_pos rfl, hb]
    rfl
  | @cons e x es xs he hes =>
    have htail : (wrap keyed level (x :: xs) ++ r).tail =
        newline (level + 1) ++ (x ++ (closing keyed level xs ++ r)) := by
      simp only [wrap, List.cons_append, List.append_assoc, List.tail_cons]
    have hlen : (x ++ closing keyed level xs).length ≤ n := by
      simp only [wrap, List.length_cons, List.length_append] at hn ⊢
      omega
    rw [htail, skip_newline, (he.1.append _).skip_eq, if_neg ((he.1.append _).head_ne keyed),
      members_closing he hes hlen, Option.map_some]

theorem head_wrap (keyed : Bool) (level : Nat) (xs : List (List Char)) (r : List Char) :
    (wrap keyed level xs ++ r).head? = some (opener keyed) := by
  cases xs <;> rfl

theorem readString_quoted (k : String) (r : List Char) (hn : (quoted k).length ≤ n + 1) :
    readString n (quoted k ++ r).tail = some (k.toList, r) := by
  have htail : (quoted k ++ r).tail = escape k.toList ++ '"' :: r := by
    simp only [quoted, List.cons_append, List.append_assoc, List.tail_cons, List.nil_append]
  have hlen : (quoted k).length = (escape k.toList).length + 2 := by
    simp only [quoted, List.length_cons, List.length_append, List.length_nil]
  rw [htail, readString_escape _ _ (by omega)]

theorem value_quoted (k : String) (r : List Char) (hn : (quoted k).length ≤ n) :
    value n (quoted k ++ r) = some (.str k, r) := by
  have hhead : (quoted k ++ r).head? = some '"' := rfl
  cases n with
  | zero => exact absurd hn (by simp [quoted])
  | succ n =>
    rw [value, if_pos hhead, readString_quoted k r hn, Option.map_some, String.ofList_toList]

/-- The words, and with them the numbers, are what no opening character begins. -/
theorem value_atom {c : Char} {t : List Char} (hc : c ≠ '"' ∧ c ≠ '\x7b' ∧ c ≠ '[')
    (hn : 0 < n) : value n (c :: t) = atom (c :: t) := by
  have hne : ∀ {e : Char}, c ≠ e → (c :: t).head? ≠ some e := fun h he => h (Option.some.inj he)
  obtain ⟨n, rfl⟩ := Nat.exists_eq_add_one_of_ne_zero hn.ne'
  rw [value, if_neg (hne hc.1), if_neg (hne hc.2.1), if_neg (hne hc.2.2)]

theorem number_text (l : Literal) (hr : Halts r) : number (l.text ++ r) = some (.num l, r) := by
  have hread := (lexNumber_spec l.isNumber).2.2 r hr
  unfold number
  split
  next l' r' hlex =>
    obtain ⟨rfl, rfl⟩ := Prod.mk.inj (Option.some.inj (hread.symm.trans hlex))
    rfl
  next hlex => cases hread.symm.trans hlex

theorem value_number (l : Literal) (hr : Halts r) (hn : l.text.length ≤ n) :
    value n (l.text ++ r) = some (.num l, r) := by
  obtain ⟨c, t, htext, hc⟩ := lexNumber_head l.isNumber
  have hne : ∀ e, ¬ IsNumberHead e → c ≠ e := fun e he heq => he (heq ▸ hc)
  have hhead : ∀ e, ¬ IsNumberHead e → (l.text ++ r).head? ≠ some e := by
    intro e he heq
    rw [htext] at heq
    exact hne e he (Option.some.inj heq)
  have hpos : 0 < n := by
    rw [htext, List.length_cons] at hn
    omega
  have hatom : atom (l.text ++ r) = number (l.text ++ r) := by
    rw [atom, if_neg (hhead _ (by decide)), if_neg (hhead _ (by decide)),
      if_neg (hhead _ (by decide))]
  have hvalue : value n (l.text ++ r) = atom (l.text ++ r) := by
    rw [htext]
    exact value_atom ⟨hne _ (by decide), hne _ (by decide), hne _ (by decide)⟩ hpos
  rw [hvalue, hatom, number_text l hr]

theorem reads_field {k : String} (hd : ∀ {n : Nat} {r : List Char}, Halts r →
    (text level d).length ≤ n → value n (text level d ++ r) = some (d, r)) :
    Reads true (k, d) (quoted k ++ (':' :: ' ' :: text level d)) := by
  refine ⟨(starts_quoted k).append _, fun n r hr hn => ?_⟩
  simp only [List.length_append, List.length_cons] at hn
  have hcolon : skip (':' :: ' ' :: (text level d ++ r)) = ':' :: ' ' :: (text level d ++ r) :=
    skip_of_head fun _ he => Option.some.inj he ▸ rfl
  have hblank : skip (' ' :: (text level d ++ r)) = text level d ++ r :=
    ((starts_text level d).append r).skip_eq
  refine ⟨text level d ++ r, ?_, hd hr (by omega)⟩
  have hcolon' : (skip (':' :: ' ' :: (text level d ++ r))).head? = some ':' := by rw [hcolon]; rfl
  rw [readKey, if_pos rfl, List.append_assoc, if_pos (by rfl),
    readString_quoted k _ (by omega), Option.bind_some]
  refine (if_pos hcolon').trans ?_
  show some (String.ofList k.toList, skip (skip (':' :: ' ' :: (text level d ++ r))).tail) = _
  rw [hcolon, List.tail_cons, hblank, String.ofList_toList]

mutual

theorem value_text (d : Doc) (hd : d.Proper) (level : Nat) {n : Nat} {r : List Char}
    (hr : Halts r) (hn : (text level d).length ≤ n) :
    value n (text level d ++ r) = some (d, r) := by
  have hpos : 0 < n := by
    obtain ⟨c, t, htext, -⟩ := starts_text level d
    rw [htext, List.length_cons] at hn
    omega
  match d, hd with
  | .null, _ => exact value_atom (by decide) hpos
  | .bool true, _ => exact value_atom (by decide) hpos
  | .bool false, _ => exact value_atom (by decide) hpos
  | .num l, _ => exact value_number l hr hn
  | .str k, _ => exact value_quoted k r hn
  | .arr items, hd =>
    obtain ⟨n, rfl⟩ := Nat.exists_eq_add_one_of_ne_zero hpos.ne'
    rw [text] at hn ⊢
    have hhead := head_wrap false level (textItems (level + 1) items) r
    have hitems : (items.map (Prod.mk "")).map Prod.snd = items := by
      rw [List.map_map]
      exact List.map_id items
    rw [value, hhead, if_neg (by decide), if_neg (by decide), if_pos (by rfl),
      members_wrap (f := fun l => Doc.arr (l.map Prod.snd)) (b := Doc.arr [])
        (reads_textItems items hd (level + 1)) hn r rfl, hitems]
  | .obj fields, hd =>
    obtain ⟨n, rfl⟩ := Nat.exists_eq_add_one_of_ne_zero hpos.ne'
    rw [text] at hn ⊢
    have hhead := head_wrap true level (textFields (level + 1) fields) r
    have hdict : (Dict.ofList fields).entries = fields :=
      congrArg Dict.entries (Dict.ofList_entries ⟨fields, hd.1⟩)
    rw [value, hhead, if_neg (by decide), if_pos (by rfl),
      members_wrap (f := fun l => Doc.obj (Dict.ofList l).entries) (b := Doc.obj [])
        (reads_textFields fields hd.2 (level + 1)) hn r rfl, hdict]

theorem reads_textItems (items : List Doc) (h : Doc.ProperItems items) (level : Nat) :
    List.Forall₂ (Reads false) (items.map (Prod.mk "")) (textItems level items) := by
  match items, h with
  | [], _ => exact .nil
  | d :: rest, h =>
    exact .cons ⟨starts_text level d, fun n r hr hn => ⟨_, rfl, value_text d h.1 level hr hn⟩⟩
      (reads_textItems rest h.2 level)

theorem reads_textFields (fields : List (String × Doc)) (h : Doc.ProperFields fields)
    (level : Nat) : List.Forall₂ (Reads true) fields (textFields level fields) := by
  match fields, h with
  | [], _ => exact .nil
  | (k, d) :: rest, h =>
    exact .cons (reads_field fun hr hn => value_text d h.1 level hr hn)
      (reads_textFields rest h.2 level)

end

theorem loads_text (h : d.Proper) : loads (text 0 d) = some d := by
  have hskip := (starts_text 0 d).skip_eq
  have hread := value_text d h 0 halts_nil (le_refl _)
  rw [List.append_nil] at hread
  exact loads_of_value (hskip.symm ▸ hread) rfl

/-! ### What is cut short is refused -/

/-- A dict or a list. -/
def Doc.IsContainer : Doc → Prop
  | .arr _ => True
  | .obj _ => True
  | _ => False

theorem text_of_container (h : d.IsContainer) (level : Nat) :
    ∃ keyed t, text level d = opener keyed :: t := by
  cases d with
  | arr items =>
    rw [text]
    cases textItems (level + 1) items <;> exact ⟨false, _, rfl⟩
  | obj fields =>
    rw [text]
    cases textFields (level + 1) fields <;> exact ⟨true, _, rfl⟩
  | _ => exact h.elim

theorem not_isOpen_of_opener {keyed : Bool} {p : Doc × List Char}
    (h : value n (opener keyed :: s) = some p) : ¬ p.1.IsOpen := by
  cases n with
  | zero => cases h
  | succ n =>
    rw [value, List.head?_cons, if_neg (by cases keyed <;> decide)] at h
    cases keyed with
    | true =>
      rw [if_pos (by rfl)] at h
      split at h
      next =>
        obtain rfl := Option.some.inj h
        exact id
      next =>
        obtain ⟨q, -, rfl⟩ := Option.map_eq_some_iff.mp h
        exact id
    | false =>
      rw [if_neg (by decide), if_pos (by rfl)] at h
      split at h
      next =>
        obtain rfl := Option.some.inj h
        exact id
      next =>
        obtain ⟨q, -, rfl⟩ := Option.map_eq_some_iff.mp h
        exact id

/-- A dict or a list whose text breaks off is not read as anything. -/
theorem loads_of_prefix (h : d.Proper) (hd : d.IsContainer) (hs : s <+: text 0 d)
    (hne : s ≠ text 0 d) : loads s = none := by
  by_contra hsome
  obtain ⟨d', hread⟩ := Option.ne_none_iff_exists'.mp hsome
  obtain ⟨⟨d', r⟩, hvalue, -⟩ := Option.bind_eq_some_iff.mp hread
  obtain ⟨t, ht⟩ := hs
  obtain ⟨keyed, u, hu⟩ := text_of_container hd 0
  obtain ⟨c, s, rfl⟩ : ∃ c s', s = c :: s' := by
    cases s with
    | nil => cases hvalue
    | cons c s => exact ⟨c, s, rfl⟩
  obtain ⟨rfl, -⟩ := List.cons.inj (ht.trans hu)
  have hstarts : Starts (opener keyed :: s) := by
    cases keyed <;> exact ⟨_, _, rfl, by decide⟩
  rw [hstarts.skip_eq] at hvalue
  -- The reader would stop at the same place of the whole text, and that is its end.
  have hfuel := ((firm _).1 _ _ _ hvalue).2.2 (text 0 d).length (by
    rw [← ht, List.length_append]
    omega)
  have hwhole := ((firm _).1 _ _ _ hfuel).2.1 t fun hopen =>
    (not_isOpen_of_opener hvalue hopen).elim
  have hread := value_text d h 0 halts_nil (le_refl _)
  rw [ht] at hwhole
  rw [List.append_nil, hwhole] at hread
  obtain ⟨-, hend⟩ := Prod.mk.inj (Option.some.inj hread)
  rw [(List.append_eq_nil_iff.mp hend).2, List.append_nil] at ht
  exact hne ht

/-! ### Sorted keys -/

theorem properFields_iff {fields : List (String × Doc)} :
    Doc.ProperFields fields ↔ ∀ e ∈ fields, e.2.Proper := by
  induction fields with
  | nil => simp [Doc.ProperFields]
  | cons e rest ih =>
    rw [Doc.ProperFields, ih, List.forall_mem_cons]

theorem keys_sortedFields (fields : List (String × Doc)) :
    (Doc.sortedFields fields).map Prod.fst = fields.map Prod.fst := by
  induction fields with
  | nil => rfl
  | cons e rest ih => rw [Doc.sortedFields, List.map_cons, List.map_cons, ih]

mutual

theorem Doc.Proper.sorted (d : Doc) (h : d.Proper) : d.sorted.Proper := by
  match d, h with
  | .null, _ => trivial
  | .bool _, _ => trivial
  | .num _, _ => trivial
  | .str _, _ => trivial
  | .arr items, h => exact Doc.ProperItems.sorted items h
  | .obj fields, h =>
    have hperm := List.perm_insertionSort (fun a b : String × Doc => a.1 ≤ b.1)
      (Doc.sortedFields fields)
    refine ⟨(hperm.map Prod.fst).nodup_iff.mpr ?_, properFields_iff.mpr fun e he => ?_⟩
    · rw [keys_sortedFields]
      exact h.1
    · exact properFields_iff.mp (Doc.ProperFields.sorted fields h.2) e (hperm.mem_iff.mp he)

theorem Doc.ProperItems.sorted (items : List Doc) (h : Doc.ProperItems items) :
    Doc.ProperItems (Doc.sortedItems items) := by
  match items, h with
  | [], _ => trivial
  | d :: rest, h => exact ⟨Doc.Proper.sorted d h.1, Doc.ProperItems.sorted rest h.2⟩

theorem Doc.ProperFields.sorted (fields : List (String × Doc)) (h : Doc.ProperFields fields) :
    Doc.ProperFields (Doc.sortedFields fields) := by
  match fields, h with
  | [], _ => trivial
  | (_, d) :: rest, h => exact ⟨Doc.Proper.sorted d h.1, Doc.ProperFields.sorted rest h.2⟩

end

theorem mem_sortedFields {fields : List (String × Doc)} {k : String} {v : Doc} :
    (k, v) ∈ Doc.sortedFields fields ↔ ∃ d, (k, d) ∈ fields ∧ d.sorted = v := by
  induction fields with
  | nil => simp [Doc.sortedFields]
  | cons e rest ih =>
    obtain ⟨k', d'⟩ := e
    simp only [Doc.sortedFields, List.mem_cons, ih, Prod.mk.injEq]
    grind

/-- Sorting a dict moves its entries and sorts their values. -/
theorem assoc_sorted {fields : List (String × Doc)} (h : (fields.map Prod.fst).Nodup) (k : String) :
    Dict.assoc k ((Doc.sortedFields fields).insertionSort fun a b => a.1 ≤ b.1) =
      (Dict.assoc k fields).map Doc.sorted := by
  have hperm := List.perm_insertionSort (fun a b : String × Doc => a.1 ≤ b.1)
    (Doc.sortedFields fields)
  have hnodup := (hperm.map Prod.fst).nodup_iff.mpr (keys_sortedFields fields ▸ h)
  have hiff : ∀ v, Dict.assoc k ((Doc.sortedFields fields).insertionSort fun a b => a.1 ≤ b.1) =
      some v ↔ (Dict.assoc k fields).map Doc.sorted = some v := by
    intro v
    rw [Dict.assoc_eq_some_iff hnodup, hperm.mem_iff, mem_sortedFields, Option.map_eq_some_iff]
    simp only [Dict.assoc_eq_some_iff h]
  exact Option.ext hiff

theorem Doc.IsContainer.sorted (h : d.IsContainer) : d.sorted.IsContainer := by
  cases d <;> exact h

theorem loads_dumps (h : d.Proper) : loads (dumps d) = some d.sorted := loads_text (h.sorted d)

theorem loads_of_cut (h : d.Proper) (hd : d.IsContainer) (hs : s <+: dumps d)
    (hne : s ≠ dumps d) : loads s = none :=
  loads_of_prefix (h.sorted d) hd.sorted hs hne

end Writing

end JsonText
