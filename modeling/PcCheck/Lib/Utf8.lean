/-
Bytes read as UTF-8, with a replacement for what is not.

The bytes are cut into pieces, each a character with the bytes it is read from.  Where no
sequence stands, the longest beginning of one is read as the replacement character, and
where there is none a single byte is.  A character of ASCII is read from its own byte and from
nothing else, so that a text of ASCII found in what was read stands in the bytes as well.
-/
import Mathlib.Data.List.Infix
import Mathlib.Algebra.Order.Ring.Nat

namespace Utf8

def replacement : Char := Char.ofNat 0xFFFD

/-- What the first byte of a sequence asks for: the bits it gives itself, the range of the
byte after it, and how many bytes come after that one. -/
structure Lead where
  bits : Nat
  low : Nat
  high : Nat
  more : Nat

def lead (b : UInt8) : Option Lead :=
  let n := b.toNat
  if n < 0xC2 then none
  else if n ≤ 0xDF then some ⟨n - 0xC0, 0x80, 0xBF, 0⟩
  else if n = 0xE0 then some ⟨0, 0xA0, 0xBF, 1⟩
  else if n = 0xED then some ⟨0xD, 0x80, 0x9F, 1⟩
  else if n ≤ 0xEF then some ⟨n - 0xE0, 0x80, 0xBF, 1⟩
  else if n = 0xF0 then some ⟨0, 0x90, 0xBF, 2⟩
  else if n ≤ 0xF3 then some ⟨n - 0xF0, 0x80, 0xBF, 2⟩
  else if n = 0xF4 then some ⟨4, 0x80, 0x8F, 2⟩
  else none

/-- Read the bytes after the first: the code point, if they all are as asked for, and how many
of them are. -/
def follow (low high value : Nat) : Nat → List UInt8 → Option Nat × Nat
  | _, [] => (none, 0)
  | more, b :: rest =>
    if low ≤ b.toNat ∧ b.toNat ≤ high then
      match more with
      | 0 => (some (value * 64 + b.toNat % 64), 1)
      | more + 1 =>
        let r := follow 0x80 0xBF (value * 64 + b.toNat % 64) more rest
        (r.1, r.2 + 1)
    else (none, 0)

/-- The character that begins with a byte, and how many of the bytes after it belong to it. -/
def readOne (b : UInt8) (rest : List UInt8) : Char × Nat :=
  if b.toNat < 0x80 then (Char.ofNat b.toNat, 0)
  else
    match lead b with
    | none => (replacement, 0)
    | some l =>
      let r := follow l.low l.high l.bits l.more rest
      (r.1.elim replacement Char.ofNat, r.2)

def piecesWithin : Nat → List UInt8 → List (Char × List UInt8)
  | 0, _ => []
  | _ + 1, [] => []
  | n + 1, b :: rest =>
    let r := readOne b rest
    (r.1, b :: rest.take r.2) :: piecesWithin n (rest.drop r.2)

def pieces (bytes : List UInt8) : List (Char × List UInt8) := piecesWithin bytes.length bytes

def decode (bytes : List UInt8) : List Char := (pieces bytes).map Prod.fst

/-- The byte of a character of ASCII. -/
def byteOf (c : Char) : UInt8 := UInt8.ofNat c.toNat

/-! ## Code points -/

theorem follow_bounds {low high more value v n : Nat} {bytes : List UInt8} (hlow : 0x80 ≤ low)
    (hhigh : high ≤ 0xBF) (h : follow low high value more bytes = (some v, n)) :
    (value * 64 + low % 64) * 64 ^ more ≤ v ∧ v < (value * 64 + high % 64 + 1) * 64 ^ more := by
  induction bytes generalizing low high more value n with
  | nil => simp [follow] at h
  | cons b rest ih =>
    unfold follow at h
    split at h
    next hb =>
      cases more with
      | zero =>
        obtain ⟨hv, -⟩ := Prod.mk.inj h
        obtain rfl := Option.some.inj hv
        omega
      | succ more =>
        obtain ⟨hv, -⟩ := Prod.mk.inj h
        have hrest := ih (le_refl _) (le_refl _) (Prod.ext hv rfl)
        have hmod : low % 64 ≤ b.toNat % 64 ∧ b.toNat % 64 ≤ high % 64 := by omega
        have hfrom :
            (value * 64 + low % 64) * 64 ≤ (value * 64 + b.toNat % 64) * 64 + 0x80 % 64 := by
          omega
        have hto : (value * 64 + b.toNat % 64) * 64 + 0xBF % 64 + 1 ≤
            (value * 64 + high % 64 + 1) * 64 := by
          omega
        rw [Nat.pow_succ, Nat.mul_comm (64 ^ more), ← Nat.mul_assoc, ← Nat.mul_assoc]
        exact ⟨(Nat.mul_le_mul_right _ hfrom).trans hrest.1,
          hrest.2.trans_le (Nat.mul_le_mul_right _ hto)⟩
    · cases h

/-- What a first byte asks for leads to characters outside ASCII, and to no surrogate. -/
theorem lead_range {b : UInt8} {l : Lead} (h : lead b = some l) :
    (0x80 ≤ l.low ∧ l.high ≤ 0xBF) ∧ 0x80 ≤ (l.bits * 64 + l.low % 64) * 64 ^ l.more ∧
      ((l.bits * 64 + l.high % 64 + 1) * 64 ^ l.more ≤ 0xD800 ∨
        (0xE000 ≤ (l.bits * 64 + l.low % 64) * 64 ^ l.more ∧
          (l.bits * 64 + l.high % 64 + 1) * 64 ^ l.more ≤ 0x110000)) := by
  have hb := b.toNat_lt
  unfold lead at h
  dsimp only at h
  repeat' split at h
  all_goals first
    | contradiction
    | (obtain rfl := Option.some.inj h
       dsimp only
       omega)

theorem code_point {b : UInt8} {l : Lead} {bytes : List UInt8} {v n : Nat} (h : lead b = some l)
    (hv : follow l.low l.high l.bits l.more bytes = (some v, n)) :
    0x80 ≤ v ∧ v.isValidChar := by
  obtain ⟨⟨hlow, hhigh⟩, hascii, hvalid⟩ := lead_range h
  have hbounds := follow_bounds hlow hhigh hv
  refine ⟨hascii.trans hbounds.1, ?_⟩
  rcases hvalid with hvalid | ⟨hfrom, hto⟩
  · exact Or.inl (hbounds.2.trans_le hvalid)
  · exact Or.inr ⟨(Nat.lt_of_lt_of_le (by decide) hfrom).trans_le hbounds.1,
      hbounds.2.trans_le hto⟩

theorem toNat_ofNat {n : Nat} (h : n.isValidChar) : (Char.ofNat n).toNat = n := by
  unfold Char.ofNat
  rw [dif_pos h]
  rfl

/-! ## Pieces -/

/-- A character of ASCII is read from its own byte. -/
theorem readOne_ascii {b : UInt8} {rest : List UInt8} (h : (readOne b rest).1.toNat < 0x80) :
    (readOne b rest).2 = 0 ∧ byteOf (readOne b rest).1 = b := by
  have hreplacement : ¬ replacement.toNat < 0x80 := by decide
  unfold readOne at h ⊢
  split
  next hb =>
    refine ⟨rfl, ?_⟩
    dsimp only
    rw [byteOf, toNat_ofNat (Or.inl (hb.trans (by decide)))]
    exact UInt8.ofNat_toNat
  next hb =>
    rw [if_neg hb] at h
    cases hl : lead b with
    | none =>
      rw [hl] at h
      exact absurd h hreplacement
    | some l =>
      rw [hl] at h
      dsimp only at h
      cases hv : (follow l.low l.high l.bits l.more rest).1 with
      | none =>
        rw [hv] at h
        exact absurd h hreplacement
      | some v =>
        obtain ⟨hascii, hvalid⟩ := code_point hl (Prod.ext hv rfl)
        rw [hv, Option.elim_some, toNat_ofNat hvalid] at h
        exact absurd h (Nat.not_lt_of_le hascii)

/-- The pieces are the bytes, cut up. -/
theorem flatten_pieces {n : Nat} {bytes : List UInt8} (h : bytes.length ≤ n) :
    ((piecesWithin n bytes).map Prod.snd).flatten = bytes := by
  induction n generalizing bytes with
  | zero => rw [List.length_eq_zero_iff.mp (Nat.le_zero.mp h)]; rfl
  | succ n ih =>
    cases bytes with
    | nil => rfl
    | cons b rest =>
      have hrest : (rest.drop (readOne b rest).2).length ≤ n := by
        rw [List.length_drop]
        have hlen : rest.length + 1 ≤ n + 1 := h
        omega
      unfold piecesWithin
      rw [List.map_cons, List.flatten_cons, ih hrest, List.cons_append, List.take_append_drop]

theorem mem_pieces_ascii {n : Nat} {bytes : List UInt8} {p : Char × List UInt8}
    (h : p ∈ piecesWithin n bytes) (hascii : p.1.toNat < 0x80) : p.2 = [byteOf p.1] := by
  induction n generalizing bytes with
  | zero => cases h
  | succ n ih =>
    cases bytes with
    | nil => cases h
    | cons b rest =>
      unfold piecesWithin at h
      rcases List.mem_cons.mp h with rfl | hmem
      · obtain ⟨hnone, hbyte⟩ := readOne_ascii hascii
        dsimp only
        rw [hnone, hbyte]
        rfl
      · exact ih hmem

/-- A text of ASCII in what was read stands in the bytes. -/
theorem infix_of_decode {s : List Char} {bytes : List UInt8} (hs : ∀ c ∈ s, c.toNat < 0x80)
    (h : s <:+: decode bytes) : s.map byteOf <:+: bytes := by
  obtain ⟨before, after, heq⟩ := h
  have hcut : (pieces bytes).map Prod.fst = before ++ (s ++ after) := by
    rw [← List.append_assoc]
    exact heq.symm
  obtain ⟨p, rest, hp, -, hrest⟩ := List.map_eq_append_iff.mp hcut
  obtain ⟨q, r, rfl, rfl, -⟩ := List.map_eq_append_iff.mp hrest
  have hmem : ∀ x ∈ q, x ∈ pieces bytes := by
    intro x hx
    rw [hp]
    exact List.mem_append_right p (List.mem_append_left r hx)
  have hq : q.map Prod.snd = (q.map Prod.fst).map fun c => [byteOf c] := by
    rw [List.map_map]
    refine List.map_congr_left fun x hx => ?_
    exact mem_pieces_ascii (hmem x hx) (hs x.1 (List.mem_map_of_mem hx))
  have hflat := flatten_pieces (le_refl bytes.length)
  have hsplit : (p.map Prod.snd).flatten ++ (q.map Prod.fst).map byteOf ++
      (r.map Prod.snd).flatten = bytes := by
    rw [← hflat]
    show _ = ((pieces bytes).map Prod.snd).flatten
    rw [hp, List.map_append, List.map_append, List.flatten_append, List.flatten_append, hq,
      ← List.append_assoc]
    congr 2
    exact List.map_eq_flatMap
  exact ⟨_, _, hsplit⟩

end Utf8
