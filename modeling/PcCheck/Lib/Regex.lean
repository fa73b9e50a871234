/-
Regular expressions, matched by backtracking.

The pieces of an alternation are tried from the left and a loop takes as much as it can, as
a backtracking engine does, so that the first match found is the match such an engine
reports.  What a match says of the text is the position it ends at and the parts its groups
have captured, and a part that is captured stands in the text.
-/
import Mathlib.Data.List.Infix

inductive Regex where
  | one (accepts : Char → Bool)
  | empty
  | seq (a b : Regex)
  | alt (a b : Regex)
  | star (a : Regex)
  | group (n : Nat) (a : Regex)
  | boundary (word : Char → Bool)

namespace Regex

/-- A position in a text, with what the groups have captured so far, the latest first. -/
structure Position where
  before : Option Char
  rest : List Char
  groups : List (Nat × List Char) := []

namespace Position

/-- A word boundary: just one of the two characters around the position is of a word. -/
def atBoundary (p : Position) (word : Char → Bool) : Bool :=
  xor (p.before.any word) (p.rest.head?.any word)

/-- The text between two positions. -/
def upTo (p q : Position) : List Char := p.rest.take (p.rest.length - q.rest.length)

/-- What a group has captured last. -/
def captured (p : Position) (n : Nat) : Option (List Char) := p.groups.lookup n

end Position

variable {β : Type*}

/-- Repeat a piece while it matches and consumes something, then go on. -/
def loop (piece : Position → (Position → Option β) → Option β) :
    Nat → Position → (Position → Option β) → Option β
  | 0, p, k => k p
  | n + 1, p, k =>
    match piece p fun q => if q.rest.length < p.rest.length then loop piece n q k else none with
    | some b => some b
    | none => k p

/-- Match at a position and go on with `k`, trying the next choice where `k` fails. -/
def matchAt : Regex → Position → (Position → Option β) → Option β
  | one accepts, p, k =>
    match p.rest with
    | [] => none
    | c :: rest => if accepts c then k { p with before := some c, rest := rest } else none
  | empty, p, k => k p
  | seq a b, p, k => matchAt a p fun q => matchAt b q k
  | alt a b, p, k =>
    match matchAt a p k with
    | some r => some r
    | none => matchAt b p k
  | star a, p, k => loop (matchAt a) p.rest.length p k
  | group n a, p, k => matchAt a p fun q => k { q with groups := (n, p.upTo q) :: q.groups }
  | boundary word, p, k => if p.atBoundary word then k p else none

/-- The numbers of the groups, in the order in which they open. -/
def groupNumbers : Regex → List Nat
  | seq a b => groupNumbers a ++ groupNumbers b
  | alt a b => groupNumbers a ++ groupNumbers b
  | star a => groupNumbers a
  | group n a => n :: groupNumbers a
  | _ => []

def searchFrom (r : Regex) : Option Char → List Char → Option Position
  | before, [] => matchAt r ⟨before, [], []⟩ some
  | before, c :: rest =>
    match matchAt r ⟨before, c :: rest, []⟩ some with
    | some q => some q
    | none => searchFrom r (some c) rest

/-- The leftmost match in a text. -/
def search (r : Regex) (text : String) : Option Position := searchFrom r none text.toList

/-! ## Pieces of a pattern -/

def text (s : String) : Regex := s.toList.foldr (fun c r => seq (one (· == c)) r) empty

def seqs : List Regex → Regex
  | [] => empty
  | [a] => a
  | a :: rest => seq a (seqs rest)

/-- The alternatives of a list, which is not empty. -/
def alts : List Regex → Regex
  | [] => empty
  | [a] => a
  | a :: rest => alt a (alts rest)

def opt (a : Regex) : Regex := alt a empty

def plus (a : Regex) : Regex := seq a (star a)

def times : Nat → Regex → Regex
  | 0, _ => empty
  | n + 1, a => seq a (times n a)

/-- `.`: anything but the end of a line. -/
def any : Regex := one (· != '\n')

def oneOf (s : String) : Regex := one fun c => s.toList.contains c

def noneOf (s : String) : Regex := one fun c => !s.toList.contains c

/-! ## What is captured stands in the text -/

/-- `q` is further on in the text than `p`, and what has been captured between them is
part of the text after `p`. -/
structure Position.Leads (p q : Position) : Prop where
  rest : q.rest <:+ p.rest
  groups : ∀ g ∈ q.groups, g ∈ p.groups ∨ g.2 <:+: p.rest

theorem Position.Leads.refl (p : Position) : p.Leads p :=
  ⟨List.suffix_refl p.rest, fun _ hg => Or.inl hg⟩

theorem Position.Leads.trans {p q r : Position} (h : p.Leads q) (h' : q.Leads r) : p.Leads r := by
  refine ⟨h'.rest.trans h.rest, fun g hg => ?_⟩
  rcases h'.groups g hg with hold | hnew
  · exact h.groups g hold
  · exact Or.inr (hnew.trans h.rest.isInfix)

theorem loop_leads {piece : Position → (Position → Option β) → Option β}
    (hpiece : ∀ p k b, piece p k = some b → ∃ q, p.Leads q ∧ k q = some b)
    {n : Nat} {p : Position} {k : Position → Option β} {b : β} (h : loop piece n p k = some b) :
    ∃ q, p.Leads q ∧ k q = some b := by
  induction n generalizing p with
  | zero => exact ⟨p, .refl p, h⟩
  | succ n ih =>
    simp only [loop] at h
    split at h
    · rename_i b' hb
      obtain rfl := Option.some.inj h
      obtain ⟨q, hq, hk⟩ := hpiece p _ _ hb
      split at hk
      · obtain ⟨r, hr, hkr⟩ := ih hk
        exact ⟨r, hq.trans hr, hkr⟩
      · cases hk
    · exact ⟨p, .refl p, h⟩

/-- A match goes on from a position that it leads to. -/
theorem matchAt_leads (r : Regex) : ∀ (p : Position) (k : Position → Option β) (b : β),
    matchAt r p k = some b → ∃ q, p.Leads q ∧ k q = some b := by
  induction r with
  | one accepts =>
    intro p k b h
    simp only [matchAt] at h
    split at h
    · cases h
    · rename_i c rest hrest
      split at h
      · refine ⟨{ p with before := some c, rest := rest }, ⟨?_, fun _ hg => Or.inl hg⟩, h⟩
        rw [hrest]
        exact List.suffix_cons c rest
      · cases h
  | empty => exact fun p k b h => ⟨p, .refl p, h⟩
  | seq a b iha ihb =>
    intro p k r h
    obtain ⟨q, hq, hk⟩ := iha p _ r h
    obtain ⟨s, hs, hks⟩ := ihb q k r hk
    exact ⟨s, hq.trans hs, hks⟩
  | alt a b iha ihb =>
    intro p k r h
    simp only [matchAt] at h
    split at h
    · rename_i r' hr
      obtain rfl := Option.some.inj h
      exact iha p k _ hr
    · exact ihb p k r h
  | star a ih => exact fun p k b h => loop_leads ih h
  | group n a ih =>
    intro p k b h
    obtain ⟨q, hq, hk⟩ := ih p _ b h
    refine ⟨{ q with groups := (n, p.upTo q) :: q.groups }, ⟨hq.rest, fun g hg => ?_⟩, hk⟩
    rcases List.mem_cons.mp hg with rfl | hold
    · exact Or.inr (List.take_prefix _ p.rest).isInfix
    · exact hq.groups g hold
  | boundary word =>
    intro p k b h
    simp only [matchAt] at h
    split at h
    · exact ⟨p, .refl p, h⟩
    · cases h

theorem searchFrom_groups (r : Regex) {before : Option Char} {l : List Char} {q : Position}
    (h : searchFrom r before l = some q) : ∀ g ∈ q.groups, g.2 <:+: l := by
  have hmatch : ∀ (before : Option Char) (l : List Char),
      matchAt r ⟨before, l, []⟩ some = some q → ∀ g ∈ q.groups, g.2 <:+: l := by
    intro before l hm g hg
    obtain ⟨q', hlead, hq⟩ := matchAt_leads r _ some q hm
    obtain rfl := Option.some.inj hq
    rcases hlead.groups g hg with hnil | hin
    · cases hnil
    · exact hin
  induction l generalizing before with
  | nil => exact hmatch before [] h
  | cons c rest ih =>
    simp only [searchFrom] at h
    split at h
    · rename_i q' hq
      obtain rfl := Option.some.inj h
      exact hmatch before _ hq
    · exact fun g hg => (ih h g hg).trans (List.suffix_cons c rest).isInfix

/-- What a search captures is part of the text. -/
theorem captured_infix {r : Regex} {s : String} {q : Position} (h : search r s = some q) {n : Nat}
    {part : List Char} (hn : q.captured n = some part) : part <:+: s.toList := by
  obtain ⟨l₁, l₂, hgroups, -⟩ := List.lookup_eq_some_iff.mp hn
  refine searchFrom_groups r h (n, part) ?_
  rw [hgroups]
  exact List.mem_append_right l₁ List.mem_cons_self

end Regex
