/-
The numbers of JSON texts.

A number is read as the longest literal at the head of a text, with the three names that
Python adds for the floats that are no numbers.  What a reader needs to know is that a literal
is read again, whole, before any text that does not go on in it (`lexNumber_spec`).
-/
import Mathlib.Data.List.TakeWhile
import Mathlib.Tactic.Common

namespace JsonText

/-! ## Number literals -/

section Numbers

def lexInteger : List Char → Option (List Char × List Char)
  | [] => none
  | c :: r =>
    if c = '0' then some ([c], r)
    else if c.isDigit then some (c :: r.takeWhile Char.isDigit, r.dropWhile Char.isDigit)
    else none

theorem lexInteger_cons (c : Char) (r : List Char) :
    lexInteger (c :: r) =
      if c = '0' then some ([c], r)
      else if c.isDigit then some (c :: r.takeWhile Char.isDigit, r.dropWhile Char.isDigit)
      else none := rfl

/-- A point without a digit after it belongs to what follows the number. -/
def lexFraction (s : List Char) : List Char × List Char :=
  if s.head? = some '.' ∧ s.tail.takeWhile Char.isDigit ≠ [] then
    ('.' :: s.tail.takeWhile Char.isDigit, s.tail.dropWhile Char.isDigit)
  else ([], s)

def isMark (c : Char) : Bool := c == 'e' || c == 'E'

def isSign (c : Char) : Bool := c == '+' || c == '-'

def sign (s : List Char) : List Char := (s.takeWhile isSign).take 1

def lexExponent : List Char → List Char × List Char
  | [] => ([], [])
  | c :: r =>
    let digits := (r.drop (sign r).length).takeWhile Char.isDigit
    if isMark c ∧ digits ≠ [] then
      (c :: (sign r ++ digits), (r.drop (sign r).length).dropWhile Char.isDigit)
    else ([], c :: r)

def lexUnsigned (s : List Char) : Option (List Char × List Char) :=
  (lexInteger s).map fun i =>
    let f := lexFraction i.2
    let e := lexExponent f.2
    (i.1 ++ (f.1 ++ e.1), e.2)

/-- What follows a word. -/
def after (word s : List Char) : Option (List Char) :=
  if word <+: s then some (s.drop word.length) else none

def lexWord (word : List Char) (s : List Char) : Option (List Char × List Char) :=
  (after word s).map fun r => (word, r)

def nan : List Char := ['N', 'a', 'N']

def infinity : List Char := ['I', 'n', 'f', 'i', 'n', 'i', 't', 'y']

/-- A number with its sign, or one of the three names of the floats that are none. -/
def lexNumber : List Char → Option (List Char × List Char)
  | [] => none
  | c :: r =>
    if c = 'N' then lexWord nan (c :: r)
    else if c = 'I' then lexWord infinity (c :: r)
    else if c = '-' then
      (if r.head? = some 'I' then lexWord infinity r else lexUnsigned r).map
        fun p => (c :: p.1, p.2)
    else lexUnsigned (c :: r)

theorem lexNumber_cons (c : Char) (r : List Char) :
    lexNumber (c :: r) =
      if c = 'N' then lexWord nan (c :: r)
      else if c = 'I' then lexWord infinity (c :: r)
      else if c = '-' then
        (if r.head? = some 'I' then lexWord infinity r else lexUnsigned r).map
          fun p => (c :: p.1, p.2)
      else lexUnsigned (c :: r) := rfl

/-- A character that a number before it could go on with. -/
def isNumeric (c : Char) : Bool := c.isDigit || c == '.' || isMark c

/-- No number before the text goes on in it. -/
def Halts (s : List Char) : Prop := ∀ c ∈ s.head?, isNumeric c = false

theorem halts_nil : Halts [] := fun _ h => nomatch h

theorem halts_cons {c : Char} {s : List Char} : Halts (c :: s) ↔ isNumeric c = false := by
  simp [Halts]

theorem takeWhile_append_stop {p : Char → Bool} {l r : List Char} (hl : ∀ c ∈ l, p c = true)
    (hr : ∀ c ∈ r.head?, p c = false) :
    (l ++ r).takeWhile p = l ∧ (l ++ r).dropWhile p = r := by
  rw [List.takeWhile_append_of_pos hl, List.dropWhile_append_of_pos hl]
  cases r with
  | nil => exact ⟨List.append_nil l, rfl⟩
  | cons c r =>
    have hc := hr c rfl
    rw [List.takeWhile_cons_of_neg (by simp [hc]), List.dropWhile_cons_of_neg (by simp [hc]),
      List.append_nil]
    exact ⟨rfl, rfl⟩

theorem all_takeWhile {p : Char → Bool} {s : List Char} : ∀ c ∈ s.takeWhile p, p c = true :=
  fun _ hc => List.mem_takeWhile_imp hc

/-- The digits of an integer are read again before anything that is no digit. -/
theorem lexInteger_spec {s l r : List Char} (h : lexInteger s = some (l, r)) :
    s = l ++ r ∧ ∀ r' : List Char, (∀ c ∈ r'.head?, c.isDigit = false) →
      lexInteger (l ++ r') = some (l, r') := by
  cases s with
  | nil => cases h
  | cons c s =>
    rw [lexInteger_cons] at h
    split at h
    next hzero =>
      obtain ⟨rfl, rfl⟩ := Prod.mk.inj (Option.some.inj h)
      exact ⟨rfl, fun r' _ => if_pos hzero⟩
    next hzero =>
      split at h
      next hdigit =>
        obtain ⟨rfl, rfl⟩ := Prod.mk.inj (Option.some.inj h)
        refine ⟨by rw [List.cons_append, List.takeWhile_append_dropWhile], fun r' hr' => ?_⟩
        obtain ⟨htake, hdrop⟩ := takeWhile_append_stop (all_takeWhile (s := s)) hr'
        rw [List.cons_append, lexInteger_cons, if_neg hzero, if_pos hdigit, htake, hdrop]
      · cases h

theorem lexFraction_spec (s : List Char) :
    s = (lexFraction s).1 ++ (lexFraction s).2 ∧ (∀ c ∈ (lexFraction s).1.head?, c = '.') ∧
      ∀ r' : List Char, (∀ c ∈ r'.head?, c.isDigit = false ∧ c ≠ '.') →
        lexFraction ((lexFraction s).1 ++ r') = ((lexFraction s).1, r') := by
  by_cases h : s.head? = some '.' ∧ s.tail.takeWhile Char.isDigit ≠ []
  · have hlex : lexFraction s =
        ('.' :: s.tail.takeWhile Char.isDigit, s.tail.dropWhile Char.isDigit) := if_pos h
    rw [hlex]
    refine ⟨?_, fun c hc => (Option.some.inj hc).symm, fun r' hr' => ?_⟩
    · rw [List.cons_append, List.takeWhile_append_dropWhile]
      cases s with
      | nil => cases h.1
      | cons c r =>
        obtain rfl := Option.some.inj h.1
        rfl
    · obtain ⟨htake, hdrop⟩ :=
        takeWhile_append_stop (all_takeWhile (s := s.tail)) fun c hc => (hr' c hc).1
      have hdigits : (s.tail.takeWhile Char.isDigit ++ r').takeWhile Char.isDigit ≠ [] := by
        rw [htake]
        exact h.2
      rw [List.cons_append, lexFraction, if_pos ⟨rfl, hdigits⟩, List.tail_cons, htake, hdrop]
  · have hlex : lexFraction s = ([], s) := if_neg h
    rw [hlex]
    refine ⟨rfl, fun c hc => (nomatch hc), fun r' hnext => ?_⟩
    exact if_neg fun hdot => (hnext '.' hdot.1).2 rfl

theorem sign_append {s : List Char} (t : List Char) (hs : s ≠ []) : sign (s ++ t) = sign s := by
  cases s with
  | nil => exact absurd rfl hs
  | cons c s =>
    unfold sign
    by_cases hc : isSign c
    · rw [List.cons_append, List.takeWhile_cons_of_pos hc, List.takeWhile_cons_of_pos hc]
      rfl
    · rw [List.cons_append, List.takeWhile_cons_of_neg hc, List.takeWhile_cons_of_neg hc]

theorem sign_append_drop (s : List Char) : s = sign s ++ s.drop (sign s).length := by
  cases s with
  | nil => rfl
  | cons c s =>
    unfold sign
    by_cases hc : isSign c
    · rw [List.takeWhile_cons_of_pos hc]
      rfl
    · rw [List.takeWhile_cons_of_neg hc]
      rfl

/-- The sign of digits that stand after a sign is the same. -/
theorem sign_of_digits {s ds : List Char} (hne : ds ≠ []) (hds : ∀ c ∈ ds, c.isDigit = true) :
    sign (sign s ++ ds) = sign s := by
  cases ds with
  | nil => exact absurd rfl hne
  | cons d ds =>
    have hd : ¬ isSign d = true := by
      have hdigit := hds d List.mem_cons_self
      intro hsign
      rcases Bool.or_eq_true_iff.mp hsign with hplus | hminus
      · rw [beq_iff_eq.mp hplus] at hdigit
        cases hdigit
      · rw [beq_iff_eq.mp hminus] at hdigit
        cases hdigit
    cases s with
    | nil =>
      show (List.takeWhile isSign (d :: ds)).take 1 = []
      rw [List.takeWhile_cons_of_neg hd]
      rfl
    | cons c s =>
      unfold sign
      by_cases hc : isSign c
      · rw [List.takeWhile_cons_of_pos hc]
        show (List.takeWhile isSign (c :: d :: ds)).take 1 = [c]
        rw [List.takeWhile_cons_of_pos hc]
        rfl
      · rw [List.takeWhile_cons_of_neg hc]
        show (List.takeWhile isSign (d :: ds)).take 1 = []
        rw [List.takeWhile_cons_of_neg hd]
        rfl

theorem lexExponent_spec (s : List Char) :
    s = (lexExponent s).1 ++ (lexExponent s).2 ∧
      (∀ c ∈ (lexExponent s).1.head?, isMark c = true) ∧
      ∀ r' : List Char, (∀ c ∈ r'.head?, c.isDigit = false ∧ isMark c = false) →
        lexExponent ((lexExponent s).1 ++ r') = ((lexExponent s).1, r') := by
  have hnone : ∀ r' : List Char, (∀ c ∈ r'.head?, c.isDigit = false ∧ isMark c = false) →
      lexExponent r' = ([], r') := by
    intro r' hr'
    cases r' with
    | nil => rfl
    | cons c r' =>
      refine if_neg fun h => ?_
      rw [(hr' c rfl).2] at h
      cases h.1
  cases s with
  | nil => exact ⟨rfl, fun c hc => (nomatch hc), hnone⟩
  | cons c r =>
    by_cases h : isMark c ∧ (r.drop (sign r).length).takeWhile Char.isDigit ≠ []
    · have hlex : lexExponent (c :: r) =
          (c :: (sign r ++ (r.drop (sign r).length).takeWhile Char.isDigit),
            (r.drop (sign r).length).dropWhile Char.isDigit) := if_pos h
      rw [hlex]
      refine ⟨?_, fun d hd => ?_, fun r' hr' => ?_⟩
      · rw [List.cons_append, List.append_assoc, List.takeWhile_append_dropWhile,
          ← sign_append_drop]
      · obtain rfl := Option.some.inj hd
        exact h.1
      · obtain ⟨htake, hdrop⟩ := takeWhile_append_stop
          (all_takeWhile (s := r.drop (sign r).length)) fun c hc => (hr' c hc).1
        generalize hds : (r.drop (sign r).length).takeWhile Char.isDigit = ds at *
        have hdigits : ∀ c ∈ ds, c.isDigit = true := hds ▸ all_takeWhile
        have hne : sign r ++ ds ≠ [] := List.append_ne_nil_of_right_ne_nil _ h.2
        have hsign : sign (sign r ++ ds ++ r') = sign r :=
          (sign_append r' hne).trans (sign_of_digits h.2 hdigits)
        have hrest : (sign r ++ ds ++ r').drop (sign r).length = ds ++ r' := by
          rw [List.append_assoc, List.drop_left]
        rw [List.cons_append, lexExponent]
        dsimp only
        rw [hsign, hrest, htake, hdrop, if_pos ⟨h.1, h.2⟩]
    · have hlex : lexExponent (c :: r) = ([], c :: r) := if_neg h
      rw [hlex]
      exact ⟨rfl, fun c hc => (nomatch hc), hnone⟩

theorem head_append {l r : List Char} {P : Char → Prop} (hl : ∀ c ∈ l.head?, P c)
    (hr : ∀ c ∈ r.head?, P c) : ∀ c ∈ (l ++ r).head?, P c := by
  cases l with
  | nil => exact hr
  | cons d l => exact hl

theorem isDigit_of_mark {c : Char} (h : isMark c = true) : c.isDigit = false ∧ c ≠ '.' := by
  rcases Bool.or_eq_true_iff.mp h with he | he <;> rw [beq_iff_eq.mp he] <;> decide

/-- A number is read again before anything that it does not go on with. -/
theorem lexUnsigned_spec {s l r : List Char} (h : lexUnsigned s = some (l, r)) :
    s = l ++ r ∧ ∀ r', Halts r' → lexUnsigned (l ++ r') = some (l, r') := by
  obtain ⟨⟨i, ri⟩, hi, heq⟩ := Option.map_eq_some_iff.mp h
  obtain ⟨rfl, rfl⟩ := Prod.mk.inj heq
  dsimp only
  obtain ⟨hs, hint⟩ := lexInteger_spec hi
  obtain ⟨hri, hdot, hfrac⟩ := lexFraction_spec ri
  obtain ⟨hrf, hmark, hexp⟩ := lexExponent_spec (lexFraction ri).2
  refine ⟨?_, fun r' hr' => ?_⟩
  · rw [List.append_assoc, List.append_assoc, ← hrf, ← hri]
    exact hs
  · have hstop : ∀ c ∈ r'.head?, c.isDigit = false ∧ c ≠ '.' ∧ isMark c = false := by
      intro c hc
      have hnum := hr' c hc
      simp only [isNumeric, Bool.or_eq_false_iff, beq_eq_false_iff_ne] at hnum
      exact ⟨hnum.1.1, hnum.1.2, hnum.2⟩
    have hexpRest : ∀ c ∈ ((lexExponent (lexFraction ri).2).1 ++ r').head?,
        c.isDigit = false ∧ c ≠ '.' :=
      head_append (fun c hc => isDigit_of_mark (hmark c hc))
        fun c hc => ⟨(hstop c hc).1, (hstop c hc).2.1⟩
    have hfracRest : ∀ c ∈ ((lexFraction ri).1 ++
        ((lexExponent (lexFraction ri).2).1 ++ r')).head?, c.isDigit = false :=
      head_append (fun c hc => by rw [hdot c hc]; decide) fun c hc => (hexpRest c hc).1
    rw [lexUnsigned, List.append_assoc, List.append_assoc, hint _ hfracRest, Option.map_some]
    dsimp only
    rw [hfrac _ hexpRest, hexp r' fun c hc => ⟨(hstop c hc).1, (hstop c hc).2.2⟩]

theorem lexWord_spec {word s l r : List Char} (h : lexWord word s = some (l, r)) :
    l = word ∧ s = l ++ r ∧ ∀ r', lexWord word (l ++ r') = some (l, r') := by
  obtain ⟨r, hr, heq⟩ := Option.map_eq_some_iff.mp h
  obtain ⟨rfl, rfl⟩ := Prod.mk.inj heq
  obtain ⟨⟨t, rfl⟩, hdrop⟩ := Option.ite_none_right_eq_some.mp hr
  obtain rfl := Option.some.inj hdrop
  refine ⟨rfl, by rw [List.drop_left], fun r' => ?_⟩
  rw [lexWord, after, if_pos (List.prefix_append _ _), List.drop_left]
  rfl

theorem lexUnsigned_head {c : Char} {s : List Char} {p : List Char × List Char}
    (h : lexUnsigned (c :: s) = some p) : c.isDigit = true ∧ ∃ l, p.1 = c :: l := by
  obtain ⟨⟨i, ri⟩, hi, rfl⟩ := Option.map_eq_some_iff.mp h
  rw [lexInteger_cons] at hi
  split at hi
  next hzero =>
    obtain ⟨rfl, -⟩ := Prod.mk.inj (Option.some.inj hi)
    exact ⟨by rw [hzero]; decide, _, rfl⟩
  next =>
    split at hi
    next hdigit =>
      obtain ⟨rfl, -⟩ := Prod.mk.inj (Option.some.inj hi)
      exact ⟨hdigit, _, rfl⟩
    · cases hi

theorem lexNumber_spec {s l r : List Char} (h : lexNumber s = some (l, r)) :
    s = l ++ r ∧ l ≠ [] ∧ ∀ r', Halts r' → lexNumber (l ++ r') = some (l, r') := by
  cases s with
  | nil => cases h
  | cons c s =>
    rw [lexNumber_cons] at h
    split at h
    next hc =>
      obtain ⟨rfl, hs, hread⟩ := lexWord_spec h
      exact ⟨hs, List.cons_ne_nil _ _, fun r' _ => hread r'⟩
    next hN =>
      split at h
      next hc =>
        obtain ⟨rfl, hs, hread⟩ := lexWord_spec h
        exact ⟨hs, List.cons_ne_nil _ _, fun r' _ => hread r'⟩
      next hI =>
        split at h
        next hc =>
          subst hc
          obtain ⟨⟨l, r⟩, hlex, heq⟩ := Option.map_eq_some_iff.mp h
          obtain ⟨rfl, rfl⟩ := Prod.mk.inj heq
          split at hlex
          next hinf =>
            obtain ⟨rfl, hs, hread⟩ := lexWord_spec hlex
            refine ⟨by rw [hs]; rfl, List.cons_ne_nil _ _, fun r' _ => ?_⟩
            have hhead : (infinity ++ r').head? = some 'I' := rfl
            rw [List.cons_append, lexNumber_cons, if_neg hN, if_neg hI, if_pos rfl, if_pos hhead,
              hread r']
            rfl
          next hinf =>
            obtain ⟨hs, hread⟩ := lexUnsigned_spec hlex
            refine ⟨by rw [hs]; rfl, List.cons_ne_nil _ _, fun r' hr' => ?_⟩
            have hhead : (l ++ r').head? ≠ some 'I' := by
              cases s with
              | nil => cases hlex
              | cons d s =>
                obtain ⟨hdigit, l', rfl⟩ := lexUnsigned_head hlex
                intro hd
                rw [Option.some.inj hd] at hdigit
                cases hdigit
            rw [List.cons_append, lexNumber_cons, if_neg hN, if_neg hI, if_pos rfl, if_neg hhead,
              hread r' hr']
            rfl
        next hminus =>
          obtain ⟨hs, hread⟩ := lexUnsigned_spec h
          obtain ⟨-, l', rfl⟩ := lexUnsigned_head h
          refine ⟨hs, List.cons_ne_nil _ _, fun r' hr' => ?_⟩
          rw [List.cons_append, lexNumber_cons, if_neg hN, if_neg hI, if_neg hminus,
            ← List.cons_append, hread r' hr']

end Numbers

/-- The text of a number. -/
structure Literal where
  text : List Char
  isNumber : lexNumber text = some (text, [])

theorem isNumber_of_lexNumber {s l r : List Char} (h : lexNumber s = some (l, r)) :
    lexNumber l = some (l, []) := by
  have hread := (lexNumber_spec h).2.2 [] halts_nil
  rwa [List.append_nil] at hread

namespace Literal

theorem toDigits_head (n : Nat) :
    ∃ c t, Nat.toDigits 10 n = c :: t ∧ (c = '0' → t = []) := by
  induction n using Nat.strong_induction_on with
  | _ n ih =>
    by_cases hn : n < 10
    · exact ⟨_, [], Nat.toDigits_of_lt_base hn, fun _ => rfl⟩
    · obtain ⟨c, t, hct, hzero⟩ := ih (n / 10) (by omega)
      refine ⟨c, t ++ Nat.toDigits 10 (n % 10), ?_, fun hc => ?_⟩
      · rw [Nat.toDigits_of_base_le (by decide) (Nat.le_of_not_lt hn), hct,
          Nat.toDigits_of_lt_base (Nat.mod_lt n (by decide))]
        rfl
      · -- A number that begins with 0 is 0, and this one has a digit more.
        have hvalue := Nat.ofDigitChars_ten_toDigits (n := n / 10)
        rw [hct, hzero hc, hc] at hvalue
        have : n / 10 = 0 := hvalue.symm
        omega

theorem lexUnsigned_toDigits (n : Nat) :
    lexUnsigned (Nat.toDigits 10 n) = some (Nat.toDigits 10 n, []) := by
  have hdigits : ∀ c ∈ Nat.toDigits 10 n, c.isDigit = true := fun c hc =>
    Nat.isDigit_of_mem_toDigits (by decide) (by decide) hc
  obtain ⟨c, t, hct, hzero⟩ := toDigits_head n
  rw [hct] at hdigits ⊢
  have hlex : lexInteger (c :: t) = some (c :: t, []) := by
    rw [lexInteger_cons]
    split
    next hc => rw [hzero hc]
    next hc =>
      have ht : ∀ e ∈ t, e.isDigit = true := fun e he => hdigits e (List.mem_cons_of_mem c he)
      rw [if_pos (hdigits c List.mem_cons_self), List.takeWhile_eq_self_iff.mpr ht,
        List.dropWhile_eq_nil_iff.mpr ht]
  rw [lexUnsigned, hlex, Option.map_some]
  simp [lexFraction, lexExponent]

def intText (n : Int) : List Char :=
  if n < 0 then '-' :: Nat.toDigits 10 n.natAbs else Nat.toDigits 10 n.natAbs

theorem lexNumber_intText (n : Int) : lexNumber (intText n) = some (intText n, []) := by
  have hlex := lexUnsigned_toDigits n.natAbs
  obtain ⟨c, t, hct, -⟩ := toDigits_head n.natAbs
  rw [hct] at hlex
  obtain ⟨hdigit, -⟩ := lexUnsigned_head hlex
  have hne : ∀ e : Char, e.isDigit = false → c ≠ e := by
    rintro e he rfl
    rw [hdigit] at he
    cases he
  have hhead : (c :: t).head? ≠ some 'I' := fun h => hne 'I' rfl (Option.some.inj h)
  unfold intText
  rw [hct]
  split
  · rw [lexNumber_cons, if_neg (by decide), if_neg (by decide), if_pos rfl, if_neg hhead, hlex]
    rfl
  · rw [lexNumber_cons, if_neg (hne _ rfl), if_neg (hne _ rfl), if_neg (hne _ rfl), hlex]

/-- An `int` as it is written. -/
def ofInt (n : Int) : Literal := ⟨intText n, lexNumber_intText n⟩

def natValue (s : List Char) : Option Nat :=
  if s.all Char.isDigit then some (Nat.ofDigitChars 10 s 0) else none

/-- The value of a number without a fraction and an exponent, which is read as an `int`. -/
def toInt? (l : Literal) : Option Int :=
  if l.text.head? = some '-' then (natValue l.text.tail).map fun n => -Int.ofNat n
  else (natValue l.text).map Int.ofNat

theorem natValue_toDigits (n : Nat) : natValue (Nat.toDigits 10 n) = some n := by
  rw [natValue, if_pos, Nat.ofDigitChars_ten_toDigits]
  exact List.all_eq_true.mpr fun c hc => Nat.isDigit_of_mem_toDigits (by decide) (by decide) hc

@[simp] theorem toInt?_ofInt (n : Int) : (ofInt n).toInt? = some n := by
  show (if (intText n).head? = some '-' then _ else _) = some n
  unfold ofInt intText
  split
  next hneg =>
    rw [List.head?_cons, if_pos rfl, List.tail_cons, natValue_toDigits, Option.map_some]
    exact congrArg some (by simp only [Int.ofNat_eq_natCast]; omega)
  next hneg =>
    have hhead : (Nat.toDigits 10 n.natAbs).head? ≠ some '-' := by
      intro hc
      have hmem := List.mem_of_mem_head? hc
      have hdigit := Nat.isDigit_of_mem_toDigits (b := 10) (by decide) (by decide) hmem
      cases hdigit
    rw [if_neg hhead, natValue_toDigits, Option.map_some]
    exact congrArg some (by simp only [Int.ofNat_eq_natCast]; omega)

end Literal

end JsonText
