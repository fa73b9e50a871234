/-
Texts and the numbers written in them: `str.splitlines`, `int` and `float` of a text.

A number may be written in the decimal digits of any script.  Which characters these are,
and what they stand for, is a table that Unicode decides on.
-/
import PcCheck.Python

namespace PcCheck

/-! ## Lines -/

/-- The characters that end a line, and `\r\n` besides. -/
def isLineEnd (c : Char) : Bool :=
  let n := c.toNat
  (10 ≤ n && n ≤ 13) || (28 ≤ n && n ≤ 30) || n == 0x85 || n == 0x2028 || n == 0x2029

/-- The lines of a text, the first of which has begun with the characters given in reverse. -/
def linesFrom : List Char → List Char → List (List Char)
  | [], [] => []
  | line, [] => [line.reverse]
  | line, '\r' :: '\n' :: rest => line.reverse :: linesFrom [] rest
  | line, c :: rest =>
    if isLineEnd c then line.reverse :: linesFrom [] rest else linesFrom (c :: line) rest

def splitlines (s : String) : List String := (linesFrom [] s.toList).map String.ofList

/-- `part in s` -/
def Occurs (part s : String) : Prop := part.toList <:+: s.toList

instance (part s : String) : Decidable (Occurs part s) :=
  inferInstanceAs (Decidable (part.toList <:+: s.toList))

/-! ## Digits -/

/-- What each decimal digit stands for. -/
structure DigitTable where
  value : Char → Option Nat
  small : ∀ c n, value c = some n → n < 10

namespace DigitTable

/-- The digits of ASCII. -/
def ascii : DigitTable where
  value c := if '0' ≤ c ∧ c ≤ '9' then some (c.toNat - '0'.toNat) else none
  small c n h := by
    obtain ⟨⟨-, hle⟩, hn⟩ := Option.ite_none_right_eq_some.mp h
    have htop : c.toNat ≤ 57 := hle
    have heq : c.toNat - 48 = n := Option.some.inj hn
    omega

variable (t : DigitTable)

def isDigit (c : Char) : Bool := (t.value c).isSome

/-- The number that digits begin with, how many they are, and what comes after them. -/
def run : List Char → Nat → Nat → Nat × Nat × List Char
  | [], n, k => (n, k, [])
  | c :: rest, n, k =>
    match t.value c with
    | some d => run rest (n * 10 + d) (k + 1)
    | none => (n, k, c :: rest)

/-- Without the underscores, each of which must stand between two digits. -/
def stripUnderscores : Bool → List Char → Option (List Char)
  | _, [] => some []
  | digitBefore, '_' :: rest =>
    if digitBefore = true ∧ rest.head?.any t.isDigit = true then stripUnderscores false rest
    else none
  | _, c :: rest => (stripUnderscores (t.isDigit c) rest).map (c :: ·)

/-! ## Numbers -/

/-- White space that may stand around a number: the separators of ASCII, which `strip` takes
for white space, may not. -/
def isBlank (c : Char) : Bool := isSpace c && !(28 ≤ c.toNat && c.toNat ≤ 31)

/-- The characters of a number, without the white space around it. -/
def trimmed (s : String) : List Char :=
  ((s.toList.dropWhile isBlank).reverse.dropWhile isBlank).reverse

/-- The sign, and what is left. -/
def sign : List Char → Bool × List Char
  | '-' :: rest => (true, rest)
  | '+' :: rest => (false, rest)
  | l => (false, l)

/-- `int(s)`, which takes no more than 4300 digits. -/
def int (s : String) : Except PyError Int :=
  let (negative, l) := sign (trimmed s)
  match t.stripUnderscores false l with
  | none => .error .valueError
  | some l =>
    let (n, k, rest) := t.run l 0 0
    if rest = [] ∧ 0 < k ∧ k ≤ 4300 then .ok (if negative then -(n : Int) else n)
    else .error .valueError

example : ["\u30007\t", "\x1c7"].map ascii.int = [.ok 7, .error .valueError] := by decide +kernel

/-- The exponent after the digits of a number, up to the end of the text. -/
def exponent : List Char → Option Int
  | [] => some 0
  | c :: rest =>
    if c = 'e' ∨ c = 'E' then
      let (negative, l) := sign rest
      let (n, k, rest) := t.run l 0 0
      if rest = [] ∧ 0 < k then some (if negative then -(n : Int) else n) else none
    else none

/-- A decimal number without its sign. -/
def decimal (l : List Char) : Option ℚ :=
  let (n, k, rest) := t.run l 0 0
  let (n, k', fraction, rest) := match rest with
    | '.' :: rest =>
      let (m, k', rest') := t.run rest n 0
      (m, k', k', rest')
    | rest => (n, 0, 0, rest)
  if k + k' = 0 then none
  else (t.exponent rest).map fun e => n * (10 : ℚ) ^ (e - (fraction : Int))

/-- `float(s)` -/
def float (s : String) : Except PyError PyFloat :=
  let (negative, l) := sign (trimmed s)
  let word := String.ofList (l.map Char.toLower)
  if word = "inf" ∨ word = "infinity" then .ok (.inf negative)
  else if word = "nan" then .ok .nan
  else
    match (t.stripUnderscores false l).bind t.decimal with
    | none => .error .valueError
    | some q => .ok (PyFloat.ofRat (if negative then -q else q))

/-! ### Numbers that are printed -/

/-- The digits of ASCII stand for what they do everywhere. -/
def ReadsAscii (t : DigitTable) : Prop :=
  ∀ c : Char, c.isDigit = true → t.value c = some (c.toNat - '0'.toNat)

theorem readsAscii_ascii : ascii.ReadsAscii := by
  intro c hc
  have hrange : 48 ≤ c.val ∧ c.val ≤ 57 := by simpa [Char.isDigit] using hc
  exact if_pos hrange

section Digits

variable {t : DigitTable} {l : List Char}

theorem isBlank_of_isDigit {c : Char} (hc : c.isDigit = true) : isBlank c = false := by
  have hval : 48 ≤ c.val ∧ c.val ≤ 57 := by simpa [Char.isDigit] using hc
  have hrange : 48 ≤ c.toNat ∧ c.toNat ≤ 57 := hval
  have hspace : isSpace c = false := by
    simp only [isSpace, Bool.or_eq_false_iff, Bool.and_eq_false_iff, decide_eq_false_iff_not,
      beq_eq_false_iff_ne]
    omega
  rw [isBlank, hspace]
  rfl

theorem dropWhile_blank (hl : ∀ c ∈ l, c.isDigit = true) : l.dropWhile isBlank = l := by
  cases l with
  | nil => rfl
  | cons c rest =>
    exact List.dropWhile_cons_of_neg (by simp [isBlank_of_isDigit (hl c List.mem_cons_self)])

theorem trimmed_of_digits (hl : ∀ c ∈ l, c.isDigit = true) : trimmed (String.ofList l) = l := by
  have hreverse : ∀ c ∈ l.reverse, c.isDigit = true := fun c hc => hl c (List.mem_reverse.mp hc)
  rw [trimmed, String.toList_ofList, dropWhile_blank hl, dropWhile_blank hreverse,
    List.reverse_reverse]

theorem sign_of_digits (hl : ∀ c ∈ l, c.isDigit = true) : sign l = (false, l) := by
  unfold sign
  split
  · exact absurd (hl '-' List.mem_cons_self) (by decide)
  · exact absurd (hl '+' List.mem_cons_self) (by decide)
  · rfl

theorem stripUnderscores_of_digits (hl : ∀ c ∈ l, c.isDigit = true) (before : Bool) :
    t.stripUnderscores before l = some l := by
  induction l generalizing before with
  | nil => rfl
  | cons c rest ih =>
    have hne : c ≠ '_' := fun heq => absurd (hl c List.mem_cons_self) (by rw [heq]; decide)
    unfold stripUnderscores
    split
    next heq => cases heq
    next heq => exact absurd (List.cons.inj heq).1 hne
    next heq =>
      obtain ⟨rfl, rfl⟩ := List.cons.inj heq
      rw [ih (fun e he => hl e (List.mem_cons_of_mem c he))]
      rfl

theorem run_of_digits (ht : t.ReadsAscii) (hl : ∀ c ∈ l, c.isDigit = true) (n k : Nat) :
    t.run l n k = (Nat.ofDigitChars 10 l n, k + l.length, []) := by
  induction l generalizing n k with
  | nil => rfl
  | cons c rest ih =>
    rw [run, ht c (hl c List.mem_cons_self)]
    dsimp only
    rw [ih (fun e he => hl e (List.mem_cons_of_mem c he)), Nat.ofDigitChars_cons, Nat.mul_comm n,
      List.length_cons, Nat.add_right_comm, Nat.add_assoc]

/-- A number written in digits and nothing else. -/
theorem int_of_run {s : String} {n k : Nat} (htrim : trimmed s = l) (hsign : sign l = (false, l))
    (hunderscores : t.stripUnderscores false l = some l) (hrun : t.run l 0 0 = (n, k, []))
    (hpos : 0 < k) (hlimit : k ≤ 4300) : t.int s = .ok n := by
  unfold int
  rw [htrim, hsign]
  dsimp only
  rw [hunderscores]
  dsimp only
  rw [hrun]
  exact if_pos ⟨rfl, hpos, hlimit⟩

/-- A number that is printed is read again. -/
theorem int_toDigits (ht : t.ReadsAscii) {n : Nat} (hn : (Nat.toDigits 10 n).length ≤ 4300) :
    t.int (String.ofList (Nat.toDigits 10 n)) = .ok n := by
  have hdigits : ∀ c ∈ Nat.toDigits 10 n, c.isDigit = true := fun c hc =>
    Nat.isDigit_of_mem_toDigits (by decide) (by decide) hc
  have hrun : t.run (Nat.toDigits 10 n) 0 0 = (n, (Nat.toDigits 10 n).length, []) := by
    rw [run_of_digits ht hdigits, Nat.ofDigitChars_ten_toDigits, Nat.zero_add]
  exact int_of_run (trimmed_of_digits hdigits) (sign_of_digits hdigits)
    (stripUnderscores_of_digits hdigits false) hrun Nat.length_toDigits_pos hn

end Digits
end DigitTable

end PcCheck
