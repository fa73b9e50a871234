/-
The strings of JSON: each character on its own, and what does not print as an escape.
-/
import PcCheck.Lib.JsonNumber
import Mathlib.Data.String.Basic

namespace JsonText

def hexDigit (n : Nat) : Char := if n < 10 then Char.ofNat (48 + n) else Char.ofNat (87 + n)

def hexVal (c : Char) : Option Nat :=
  if c.isDigit then some (c.toNat - 48)
  else if 'a' ≤ c ∧ c ≤ 'f' then some (c.toNat - 87)
  else if 'A' ≤ c ∧ c ≤ 'F' then some (c.toNat - 55)
  else none

def hex4 (n : Nat) : List Char :=
  [hexDigit (n / 4096), hexDigit (n / 256 % 16), hexDigit (n / 16 % 16), hexDigit (n % 16)]

def readHex4 : List Char → Option (Nat × List Char)
  | a :: b :: c :: d :: r =>
    (hexVal a).bind fun a => (hexVal b).bind fun b => (hexVal c).bind fun c =>
      (hexVal d).map fun d => (((a * 16 + b) * 16 + c) * 16 + d, r)
  | _ => none

/-- The letters after a backslash, and what they stand for. -/
def escapes : List (Char × Char) :=
  [('"', '"'), ('\\', '\\'), ('n', '\n'), ('r', '\r'), ('t', '\t'), ('f', Char.ofNat 12),
    ('b', Char.ofNat 8)]

def unicodeEscape (n : Nat) : List Char := '\\' :: 'u' :: hex4 n

/-- A character beyond the first plane is written as a pair of surrogates. -/
def escapeChar (c : Char) : List Char :=
  match escapes.find? fun e => e.2 == c with
  | some e => ['\\', e.1]
  | none =>
    if 32 ≤ c.toNat ∧ c.toNat ≤ 126 then [c]
    else if c.toNat < 0x10000 then unicodeEscape c.toNat
    else unicodeEscape (0xD800 + (c.toNat - 0x10000) / 1024) ++
      unicodeEscape (0xDC00 + (c.toNat - 0x10000) % 1024)

def escape (l : List Char) : List Char := l.flatMap escapeChar

def isHigh (u : Nat) : Bool := 0xD800 ≤ u && u ≤ 0xDBFF

def isLow (u : Nat) : Bool := 0xDC00 ≤ u && u ≤ 0xDFFF

/-- Only a pair of surrogates is a character. -/
def readUnicode (s : List Char) : Option (Char × List Char) :=
  (readHex4 s).bind fun p =>
    if isHigh p.1 then
      (after ['\\', 'u'] p.2).bind fun r => (readHex4 r).bind fun q =>
        if isLow q.1 then
          some (Char.ofNat (0x10000 + (p.1 - 0xD800) * 1024 + (q.1 - 0xDC00)), q.2)
        else none
    else if isLow p.1 then none
    else some (Char.ofNat p.1, p.2)

def readEscape : List Char → Option (Char × List Char)
  | [] => none
  | c :: r =>
    if c = 'u' then readUnicode r else (((('/', '/') :: escapes).lookup c).map fun m => (m, r))

def readChar : List Char → Option (Char × List Char)
  | [] => none
  | c :: r =>
    if c = '"' then none
    else if c = '\\' then readEscape r
    else if c.toNat < 32 then none
    else some (c, r)

/-- The characters up to the closing quote, and what follows it. -/
def readString : Nat → List Char → Option (List Char × List Char)
  | 0, _ => none
  | n + 1, s =>
    if s.head? = some '"' then some ([], s.tail)
    else (readChar s).bind fun p => (readString n p.2).map fun q => (p.1 :: q.1, q.2)

theorem hexVal_hexDigit {d : Nat} (h : d < 16) : hexVal (hexDigit d) = some d := by
  have hall : ∀ d, d < 16 → hexVal (hexDigit d) = some d := by decide
  exact hall d h

theorem readHex4_hex4 {n : Nat} (h : n < 0x10000) (r : List Char) :
    readHex4 (hex4 n ++ r) = some (n, r) := by
  have hvalue : ((n / 4096 * 16 + n / 256 % 16) * 16 + n / 16 % 16) * 16 + n % 16 = n := by omega
  show (hexVal _).bind _ = _
  rw [hexVal_hexDigit (by omega), Option.bind_some, hexVal_hexDigit (by omega), Option.bind_some,
    hexVal_hexDigit (by omega), Option.bind_some, hexVal_hexDigit (by omega), Option.map_some,
    hvalue]
  rfl

theorem readHex4_spec {s r : List Char} {u : Nat} (h : readHex4 s = some (u, r)) :
    r.length < s.length ∧ ∀ t, readHex4 (s ++ t) = some (u, r ++ t) := by
  unfold readHex4 at h
  split at h
  next a b c d r' =>
    obtain ⟨a', ha, h⟩ := Option.bind_eq_some_iff.mp h
    obtain ⟨b', hb, h⟩ := Option.bind_eq_some_iff.mp h
    obtain ⟨c', hc, h⟩ := Option.bind_eq_some_iff.mp h
    obtain ⟨d', hd, h⟩ := Option.map_eq_some_iff.mp h
    obtain ⟨rfl, rfl⟩ := Prod.mk.inj h
    refine ⟨by grind, fun t => ?_⟩
    show (hexVal a).bind _ = _
    rw [ha, Option.bind_some, hb, Option.bind_some, hc, Option.bind_some, hd, Option.map_some]
    rfl
  · cases h

theorem after_spec {word s r : List Char} (h : after word s = some r) :
    s = word ++ r ∧ ∀ t, after word (s ++ t) = some (r ++ t) := by
  obtain ⟨⟨t, rfl⟩, hdrop⟩ := Option.ite_none_right_eq_some.mp h
  obtain rfl := Option.some.inj hdrop
  refine ⟨by rw [List.drop_left], fun t => ?_⟩
  rw [after, List.append_assoc, if_pos (List.prefix_append _ _), List.drop_left, List.drop_left]

theorem after_append (word r : List Char) : after word (word ++ r) = some r := by
  rw [after, if_pos (List.prefix_append _ _), List.drop_left]

theorem readUnicode_spec {s r : List Char} {c : Char} (h : readUnicode s = some (c, r)) :
    r.length < s.length ∧ ∀ t, readUnicode (s ++ t) = some (c, r ++ t) := by
  obtain ⟨⟨u, r₁⟩, hu, h⟩ := Option.bind_eq_some_iff.mp h
  obtain ⟨hlen, hmore⟩ := readHex4_spec hu
  by_cases hhigh : isHigh u = true
  · rw [if_pos hhigh] at h
    obtain ⟨r₂, hword, h⟩ := Option.bind_eq_some_iff.mp h
    obtain ⟨⟨v, r₃⟩, hv, h⟩ := Option.bind_eq_some_iff.mp h
    obtain ⟨hlow, h⟩ := Option.ite_none_right_eq_some.mp h
    obtain ⟨rfl, rfl⟩ := Prod.mk.inj (Option.some.inj h)
    obtain ⟨rfl, hword'⟩ := after_spec hword
    obtain ⟨hlen', hmore'⟩ := readHex4_spec hv
    refine ⟨?_, fun t => ?_⟩
    · show r₃.length < s.length
      simp only [List.cons_append, List.nil_append, List.length_cons] at hlen
      omega
    · rw [readUnicode, hmore t, Option.bind_some]
      dsimp only
      rw [if_pos hhigh, hword' t, Option.bind_some, hmore' t, Option.bind_some]
      exact if_pos hlow
  · rw [if_neg hhigh] at h
    obtain ⟨hlow, h⟩ := Option.ite_none_left_eq_some.mp h
    obtain ⟨rfl, rfl⟩ := Prod.mk.inj (Option.some.inj h)
    refine ⟨hlen, fun t => ?_⟩
    rw [readUnicode, hmore t, Option.bind_some]
    dsimp only
    rw [if_neg hhigh, if_neg hlow]

theorem readEscape_cons (c : Char) (r : List Char) :
    readEscape (c :: r) =
      if c = 'u' then readUnicode r
      else (((('/', '/') :: escapes).lookup c).map fun m => (m, r)) := rfl

theorem readChar_cons (c : Char) (r : List Char) :
    readChar (c :: r) =
      if c = '"' then none
      else if c = '\\' then readEscape r
      else if c.toNat < 32 then none
      else some (c, r) := rfl

theorem readEscape_spec {s r : List Char} {c : Char} (h : readEscape s = some (c, r)) :
    r.length < s.length ∧ ∀ t, readEscape (s ++ t) = some (c, r ++ t) := by
  cases s with
  | nil => cases h
  | cons d s =>
    rw [readEscape_cons] at h
    by_cases hu : d = 'u'
    · rw [if_pos hu] at h
      obtain ⟨hlen, hmore⟩ := readUnicode_spec h
      refine ⟨hlen.trans (Nat.lt_succ_self _), fun t => ?_⟩
      rw [List.cons_append, readEscape_cons, if_pos hu, hmore t]
    · rw [if_neg hu] at h
      obtain ⟨m, hm, h⟩ := Option.map_eq_some_iff.mp h
      obtain ⟨rfl, rfl⟩ := Prod.mk.inj h
      refine ⟨Nat.lt_succ_self _, fun t => ?_⟩
      rw [List.cons_append, readEscape_cons, if_neg hu, hm, Option.map_some]

/-- A character takes up some of the text, and what follows it does not change it. -/
theorem readChar_spec {s r : List Char} {c : Char} (h : readChar s = some (c, r)) :
    r.length < s.length ∧ s.head? ≠ some '"' ∧ ∀ t, readChar (s ++ t) = some (c, r ++ t) := by
  cases s with
  | nil => cases h
  | cons d s =>
    rw [readChar_cons] at h
    obtain ⟨hquote, h⟩ := Option.ite_none_left_eq_some.mp h
    have hhead : (d :: s).head? ≠ some '"' := fun hd => hquote (Option.some.inj hd)
    by_cases hback : d = '\\'
    · rw [if_pos hback] at h
      obtain ⟨hlen, hmore⟩ := readEscape_spec h
      refine ⟨hlen.trans (Nat.lt_succ_self _), hhead, fun t => ?_⟩
      rw [List.cons_append, readChar_cons, if_neg hquote, if_pos hback, hmore t]
    · rw [if_neg hback] at h
      obtain ⟨hcontrol, h⟩ := Option.ite_none_left_eq_some.mp h
      obtain ⟨rfl, rfl⟩ := Prod.mk.inj (Option.some.inj h)
      refine ⟨Nat.lt_succ_self _, hhead, fun t => ?_⟩
      rw [List.cons_append, readChar_cons, if_neg hquote, if_neg hback, if_neg hcontrol]

theorem head_append_of_ne_nil {s : List Char} (hs : s ≠ []) (t : List Char) :
    (s ++ t).head? = s.head? := by
  cases s with
  | nil => exact absurd rfl hs
  | cons c s => rfl

theorem ne_nil_of_readChar {s : List Char} {p : Char × List Char} (h : readChar s = some p) :
    s ≠ [] := by
  rintro rfl
  cases h

/-- A string ends with its quote, and no more fuel is needed than it has characters. -/
theorem readString_spec {n : Nat} {s l r : List Char} (h : readString n s = some (l, r)) :
    r.length < s.length ∧ (∀ t, readString n (s ++ t) = some (l, r ++ t)) ∧
      ∀ m, s.length ≤ m + r.length → readString m s = some (l, r) := by
  induction n generalizing s l r with
  | zero => cases h
  | succ n ih =>
    unfold readString at h
    by_cases hquote : s.head? = some '"'
    · rw [if_pos hquote] at h
      obtain ⟨rfl, rfl⟩ := Prod.mk.inj (Option.some.inj h)
      cases s with
      | nil => cases hquote
      | cons c s =>
        refine ⟨Nat.lt_succ_self _, fun t => ?_, fun m hm => ?_⟩
        · have hquote' : (c :: s ++ t).head? = some '"' := hquote
          rw [readString, if_pos hquote']
          rfl
        · cases m with
          | zero =>
            simp only [List.length_cons, List.tail_cons] at hm
            omega
          | succ m => rw [readString, if_pos hquote]
    · rw [if_neg hquote] at h
      obtain ⟨⟨c, r₁⟩, hchar, h⟩ := Option.bind_eq_some_iff.mp h
      obtain ⟨⟨l', r₂⟩, hrest, h⟩ := Option.map_eq_some_iff.mp h
      obtain ⟨rfl, rfl⟩ := Prod.mk.inj h
      obtain ⟨hlen, -, hmore⟩ := readChar_spec hchar
      obtain ⟨hlen', hmore', hfuel⟩ := ih hrest
      dsimp only at hlen' hfuel
      refine ⟨hlen'.trans hlen, fun t => ?_, fun m hm => ?_⟩
      · have hquote' : (s ++ t).head? ≠ some '"' := by
          rwa [head_append_of_ne_nil (ne_nil_of_readChar hchar)]
        rw [readString, if_neg hquote', hmore t, Option.bind_some, hmore' t, Option.map_some]
      · dsimp only at hm
        cases m with
        | zero => omega
        | succ m =>
          rw [readString, if_neg hquote, hchar, Option.bind_some, hfuel m (by omega),
            Option.map_some]

/-! ## What is written is read back -/

theorem toNat_cases (c : Char) :
    c.toNat < 0xD800 ∨ (0xDFFF < c.toNat ∧ c.toNat < 0x110000) := c.valid

theorem readUnicode_hex4 {n : Nat} (hn : n < 0x10000) (hhigh : isHigh n = false)
    (hlow : isLow n = false) (r : List Char) :
    readUnicode (hex4 n ++ r) = some (Char.ofNat n, r) := by
  rw [readUnicode, readHex4_hex4 hn, Option.bind_some]
  dsimp only
  rw [hhigh, hlow, if_neg Bool.false_ne_true, if_neg Bool.false_ne_true]

theorem readUnicode_pair {n : Nat} (hn : 0x10000 ≤ n) (hlt : n < 0x110000) (r : List Char) :
    readUnicode (hex4 (0xD800 + (n - 0x10000) / 1024) ++
      (unicodeEscape (0xDC00 + (n - 0x10000) % 1024) ++ r)) = some (Char.ofNat n, r) := by
  have hhigh : isHigh (0xD800 + (n - 0x10000) / 1024) = true := by
    simp only [isHigh, Bool.and_eq_true, decide_eq_true_eq]
    omega
  have hlow : isLow (0xDC00 + (n - 0x10000) % 1024) = true := by
    simp only [isLow, Bool.and_eq_true, decide_eq_true_eq]
    omega
  have hvalue : 0x10000 + (0xD800 + (n - 0x10000) / 1024 - 0xD800) * 1024 +
      (0xDC00 + (n - 0x10000) % 1024 - 0xDC00) = n := by omega
  have hword : unicodeEscape (0xDC00 + (n - 0x10000) % 1024) ++ r =
      ['\\', 'u'] ++ (hex4 (0xDC00 + (n - 0x10000) % 1024) ++ r) := rfl
  rw [readUnicode, readHex4_hex4 (by omega), Option.bind_some]
  dsimp only
  rw [if_pos hhigh, hword, after_append, Option.bind_some, readHex4_hex4 (by omega),
    Option.bind_some]
  dsimp only
  rw [if_pos hlow, hvalue]

theorem readEscape_letter {e : Char × Char} (he : e ∈ escapes) (r : List Char) :
    readEscape (e.1 :: r) = some (e.2, r) := by
  have hall : ∀ e ∈ escapes, e.1 ≠ 'u' ∧ (('/', '/') :: escapes).lookup e.1 = some e.2 := by decide
  obtain ⟨hu, hlookup⟩ := hall e he
  rw [readEscape_cons, if_neg hu, hlookup, Option.map_some]

theorem readChar_escapeChar (c : Char) (r : List Char) :
    readChar (escapeChar c ++ r) = some (c, r) := by
  have hback : ∀ s, readChar ('\\' :: s) = readEscape s := fun _ => rfl
  have hunicode : ∀ n s, readChar (unicodeEscape n ++ s) = readUnicode (hex4 n ++ s) :=
    fun _ _ => rfl
  unfold escapeChar
  cases hfind : escapes.find? fun e => e.2 == c with
  | some e =>
    obtain rfl : e.2 = c := by simpa using List.find?_some hfind
    exact (hback _).trans (readEscape_letter (List.mem_of_find?_eq_some hfind) r)
  | none =>
    have hplain : ∀ e ∈ escapes, ¬ e.2 = c := by simpa using hfind
    have hquote : c ≠ '"' := fun h => hplain ('"', '"') (by decide) h.symm
    have hslash : c ≠ '\\' := fun h => hplain ('\\', '\\') (by decide) h.symm
    dsimp only
    split
    next hprint =>
      rw [List.cons_append, List.nil_append, readChar_cons, if_neg hquote, if_neg hslash,
        if_neg (Nat.not_lt.mpr hprint.1)]
    next =>
      split
      next hsmall =>
        have hvalid := toNat_cases c
        rw [hunicode, readUnicode_hex4 hsmall, Char.ofNat_toNat]
        · simp only [isHigh, Bool.and_eq_false_iff, decide_eq_false_iff_not]
          omega
        · simp only [isLow, Bool.and_eq_false_iff, decide_eq_false_iff_not]
          omega
      next hlarge =>
        have hvalid := toNat_cases c
        rw [List.append_assoc, hunicode, readUnicode_pair (by omega) (by omega),
          Char.ofNat_toNat]

theorem escapeChar_ne_nil (c : Char) : escapeChar c ≠ [] := by
  intro h
  have hread := readChar_escapeChar c []
  rw [h] at hread
  cases hread

theorem readString_escape (l r : List Char) {n : Nat} (hn : (escape l).length < n) :
    readString n (escape l ++ '"' :: r) = some (l, r) := by
  induction l generalizing n with
  | nil =>
    cases n with
    | zero => exact absurd hn (Nat.not_lt_zero _)
    | succ n => rfl
  | cons c l ih =>
    cases n with
    | zero => exact absurd hn (Nat.not_lt_zero _)
    | succ n =>
      have hchar := readChar_escapeChar c (escape l ++ '"' :: r)
      have htext : escape (c :: l) ++ '"' :: r = escapeChar c ++ (escape l ++ '"' :: r) := by
        rw [escape, List.flatMap_cons, List.append_assoc]
        rfl
      have hlen : (escape l).length < n := by
        have hpos := List.length_pos_iff.mpr (escapeChar_ne_nil c)
        rw [escape, List.flatMap_cons, List.length_append] at hn
        unfold escape
        omega
      rw [htext, readString, if_neg (readChar_spec hchar).2.1, hchar, Option.bind_some, ih hlen,
        Option.map_some]

end JsonText
