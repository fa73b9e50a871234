/-
What the model takes from the language: the exceptions it tells apart, the string
methods it uses, and `float`.

A finite float is the rational it stands for.  `ofRat` rounds to the nearest binary64
value, ties to even, and overflows to an infinity; the signed zeros are one value.
-/
import Mathlib.Algebra.Order.Floor.Defs
import Mathlib.Data.Rat.Floor
import Mathlib.Data.Nat.Log

namespace PcCheck

inductive PyError where
  | valueError
  | keyError
  | typeError
  | attributeError
  | overflowError
  | runtimeError (text : String)
  | osError (text : String)
  deriving DecidableEq, Repr

/-- What runs to its end has run through each of its steps. -/
theorem bind_eq_ok {α β : Type} {x : Except PyError α} {f : α → Except PyError β} {b : β} :
    x.bind f = .ok b ↔ ∃ a, x = .ok a ∧ f a = .ok b := by
  cases x with
  | error err => exact iff_of_false nofun fun ⟨_, h, _⟩ => nomatch h
  | ok a => exact ⟨fun h => ⟨a, rfl, h⟩, fun ⟨_, rfl, h⟩ => h⟩

def isSpace (c : Char) : Bool :=
  let n := c.toNat
  (9 ≤ n && n ≤ 13) || (28 ≤ n && n ≤ 32) || n == 0x85 || n == 0xa0 || n == 0x1680 ||
    (0x2000 ≤ n && n ≤ 0x200a) || n == 0x2028 || n == 0x2029 || n == 0x202f || n == 0x205f ||
    n == 0x3000

def rstrip (s : String) : String := String.ofList (s.toList.reverse.dropWhile isSpace).reverse

def strip (s : String) : String := rstrip (String.ofList (s.toList.dropWhile isSpace))

theorem take_append {p : String} (a : String) {n : Nat} (h : n ≤ p.toList.length) :
    (p ++ a).toList.take n = p.toList.take n := by
  rw [String.toList_append, List.take_append_of_le_length h]

/-- Texts whose beginnings differ within the first `n` characters. -/
theorem append_ne_append {p q : String} (n : Nat) (hp : n ≤ p.toList.length)
    (hq : n ≤ q.toList.length) (hne : p.toList.take n ≠ q.toList.take n) (a b : String) :
    p ++ a ≠ q ++ b := by
  intro h
  have htake := congrArg (fun s => s.toList.take n) h
  rw [take_append a hp, take_append b hq] at htake
  exact hne htake

inductive PyFloat where
  | finite (q : ℚ)
  | inf (negative : Bool)
  | nan
  deriving DecidableEq

namespace PyFloat

/-- The nearest integer, the even one of two equally near. -/
def roundEven (q : ℚ) : ℤ :=
  let r := q - ⌊q⌋
  if r < 1 / 2 then ⌊q⌋
  else if 1 / 2 < r then ⌊q⌋ + 1
  else if ⌊q⌋ % 2 = 0 then ⌊q⌋ else ⌊q⌋ + 1

/-- The largest `e` with `2 ^ e ≤ q`, for a positive `q`. -/
def exponent (q : ℚ) : ℤ :=
  let e : ℤ := (Nat.log2 q.num.natAbs : ℤ) - (Nat.log2 q.den : ℤ)
  if q < (2 : ℚ) ^ e then e - 1 else e

def ofRat (q : ℚ) : PyFloat :=
  if q = 0 then finite 0
  else
    let ulp := (2 : ℚ) ^ (max (exponent |q|) (-1022) - 52)
    let r := roundEven (|q| / ulp) * ulp
    if (2 : ℚ) ^ (1024 : ℕ) ≤ r then inf (decide (q < 0)) else finite (if q < 0 then -r else r)

def isNegative : PyFloat → Bool
  | finite q => decide (q < 0)
  | inf n => n
  | nan => false

def mul : PyFloat → PyFloat → PyFloat
  | nan, _ => nan
  | _, nan => nan
  | finite a, finite b => ofRat (a * b)
  | a, b => if a = finite 0 ∨ b = finite 0 then nan else inf (xor a.isNegative b.isNegative)

/-- `a < b`; a nan compares with nothing. -/
def lt : PyFloat → PyFloat → Bool
  | nan, _ => false
  | _, nan => false
  | finite a, finite b => decide (a < b)
  | inf true, b => decide (b ≠ inf true)
  | inf false, _ => false
  | finite _, inf n => !n

/-- `a <= b` -/
def le (a b : PyFloat) : Bool := a.lt b || decide (a = b ∧ a ≠ nan)

@[simp] theorem lt_irrefl (a : PyFloat) : a.lt a = false := by
  cases a with
  | finite q => simp [lt]
  | inf n => cases n <;> rfl
  | nan => rfl

/-- `int(x)`: truncation towards zero. -/
def toInt : PyFloat → Except PyError ℤ
  | finite q => .ok (if q < 0 then ⌈q⌉ else ⌊q⌋)
  | inf _ => .error .overflowError
  | nan => .error .valueError

example : ofRat (1 / 10) = finite (3602879701896397 / 36028797018963968) := by decide +kernel

/-- The float an integer is converted to for arithmetic, if there is a finite one. -/
def ofInt (n : ℤ) : Except PyError PyFloat :=
  match ofRat n with
  | inf _ => .error .overflowError
  | x => .ok x

/-- `f"{x:.1f}"` of a number that is not negative. -/
def fixed1 (q : ℚ) : String :=
  let tenths := roundEven (q * 10)
  s!"{tenths / 10}.{tenths % 10}"

/-- `f"{x:.0f}"`. -/
def fixed0 (q : ℚ) : String := s!"{roundEven q}"

/-- A format of the numbers that are not negative, for every float. -/
def formatWith (fixed : ℚ → String) : PyFloat → String
  | finite q => if q < 0 then "-" ++ fixed (-q) else fixed q
  | inf negative => if negative then "-inf" else "inf"
  | nan => "nan"

/-- The largest `e` with `10 ^ e ≤ q`, for a positive `q`. -/
def decimalExponent (q : ℚ) : ℤ :=
  if 1 ≤ q then Nat.log 10 ⌊q⌋.toNat else -Nat.clog 10 ⌈1 / q⌉.toNat

/-- The shortest digits that read back as the float, and the place of their decimal point. -/
def shortest (q : ℚ) : List Char × ℤ :=
  let e := decimalExponent q
  let found := (List.range 17).findSome? fun n =>
    let unit := (10 : ℚ) ^ (e - n)
    let m := roundEven (q / unit)
    if ofRat (m * unit) = finite q then some ((toString m).toList, n) else none
  let (digits, n) := found.getD ([], 0)
  ((digits.reverse.dropWhile (· == '0')).reverse, e + digits.length - n)

def zeros (n : ℤ) : List Char := List.replicate n.toNat '0'

/-- The exponent, in two digits at least. -/
def exponentText (e : ℤ) : List Char :=
  let digits := (toString e.natAbs).toList
  'e' :: (if e < 0 then '-' else '+') :: (zeros (2 - digits.length) ++ digits)

def positiveRepr (q : ℚ) : List Char :=
  let (digits, point) := shortest q
  if point ≤ -4 ∨ 16 < point then
    digits.take 1 ++ (if 1 < digits.length then '.' :: digits.drop 1 else []) ++
      exponentText (point - 1)
  else if point ≤ 0 then '0' :: '.' :: (zeros (-point) ++ digits)
  else if digits.length ≤ point then digits ++ zeros (point - digits.length) ++ ['.', '0']
  else digits.take point.toNat ++ '.' :: digits.drop point.toNat

/-- `repr(x)`, which `str` and a format without a specification give as well. -/
def repr : PyFloat → String
  | finite q =>
    if q = 0 then "0.0"
    else if q < 0 then String.ofList ('-' :: positiveRepr (-q))
    else String.ofList (positiveRepr q)
  | inf negative => if negative then "-inf" else "inf"
  | nan => "nan"

example : [ofRat 16, ofRat (5 / 2), ofRat (1 / 10), ofRat (10 ^ 16), ofRat (1 / 1000)].map repr =
    ["16.0", "2.5", "0.1", "1e+16", "0.001"] := by decide +kernel

end PyFloat

end PcCheck
