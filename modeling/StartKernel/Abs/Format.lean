import StartKernel.Lib.CString
import StartKernel.Lib.Numeral
import StartKernel.Comm.Types

/-!
# `StartKernel.Abs.Format`: formatted output

What a format string and its arguments stand for: a list of pieces, each one literal text or a
numeral. The conversions are `%d`, `%x`, `%c` and `%s`. A conversion that is not known, and a single
`%` at the end, stand for nothing.

* `pieces`: the pieces, when the arguments match the conversions.
* `ArgIs`: a word that was passed, and the argument that it stands for.
* `pieces_ne_zero`: the output has no zero byte.
-/

set_option autoImplicit false

namespace Format

open ByteMem (Mem IsStr char)
open Numeral (text ne_zero_of_mem_text)
open StartKernel (toU32)

/-- An argument: an `int`, or a string or the null pointer. -/
inductive Arg
  | int (v : Int)
  | str (s : Option (List (BitVec 8)))

/-- A piece of the output. -/
inductive Piece
  | text (s : List (BitVec 8))
  | num (s : List (BitVec 8))

/-- The bytes of a piece. -/
def Piece.bytes : Piece → List (BitVec 8)
  | .text s => s
  | .num s => s

/-- The piece is a numeral. -/
def Piece.isNum : Piece → Bool
  | .text _ => false
  | .num _ => true

/-- The output. -/
def output (ps : List Piece) : List (BitVec 8) := ps.flatMap Piece.bytes

/-- The numeral of an `int` in base 10. -/
def decimal (v : Int) : List (BitVec 8) :=
  if v < 0 then char '-' :: text 10 (-v).toNat else text 10 v.toNat

/-- The numeral of the 32-bit pattern of an `int` in base 16. -/
def hexadecimal (v : Int) : List (BitVec 8) := text 16 (toU32 v)

/-- The piece of a conversion, and the arguments behind it. Nothing, when the argument does not
match, or is the character 0. -/
def convert (ch : BitVec 8) (args : List Arg) : Option (Piece × List Arg) :=
  if ch = char 'd' then
    match args with
    | .int v :: args => some (.num (decimal v), args)
    | _ => none
  else if ch = char 'x' then
    match args with
    | .int v :: args => some (.num (hexadecimal v), args)
    | _ => none
  else if ch = char 'c' then
    match args with
    | .int v :: args =>
      if BitVec.ofInt 8 v = 0#8 then none else some (.text [BitVec.ofInt 8 v], args)
    | _ => none
  else if ch = char 's' then
    match args with
    | .str s :: args => some (.text (s.getD []), args)
    | _ => none
  else some (.text [], args)

/-- The pieces of a format string. -/
def pieces : List (BitVec 8) → List Arg → Option (List Piece)
  | [], _ => some []
  | [c], _ => if c = char '%' then some [] else some [.text [c]]
  | c :: d :: f, args =>
    if c = char '%' then
      (convert d args).bind fun r => (pieces f r.2).map (r.1 :: ·)
    else (pieces (d :: f) args).map (.text [c] :: ·)

/-- The output ends with a numeral: the pieces behind it are empty. -/
def endsInNum : List Piece → Bool
  | [] => false
  | p :: ps => endsInNum ps || ((output ps).isEmpty && p.isNum)

/-- The word `w` was passed for the argument. Its string lies in the memory, apart from the bytes
`lo` to `hi`. -/
def ArgIs (m : Mem) (lo hi w : Nat) : Arg → Prop
  | .int v => w = toU32 v ∧ -2 ^ 31 ≤ v ∧ v < 2 ^ 31
  | .str none => w = 0
  | .str (some s) =>
    w ≠ 0 ∧ IsStr m w s ∧ w + s.length < 2 ^ 32 ∧ (w + s.length < lo ∨ hi < w)

variable {m m' : Mem} {lo hi w : Nat} {ch : BitVec 8} {f : List (BitVec 8)} {a : Arg}
  {args args' : List Arg} {ws : List Nat} {p : Piece} {ps : List Piece}

@[simp] theorem output_nil : output [] = [] := rfl

@[simp] theorem output_cons (p : Piece) (ps : List Piece) :
    output (p :: ps) = p.bytes ++ output ps := rfl

/-- An argument depends on the bytes outside of `lo` to `hi`. -/
theorem ArgIs.congr (h : ArgIs m lo hi w a) (heq : ∀ x, x < lo ∨ hi < x → m' x = m x) :
    ArgIs m' lo hi w a := by
  match a, h with
  | .int _, h => exact h
  | .str none, h => exact h
  | .str (some s), h =>
    obtain ⟨hne, hs, hfits, hapart⟩ := h
    exact ⟨hne, hs.congr fun x h₁ h₂ => heq x (by omega), hfits, hapart⟩

/-- A numeral in base 10 has no zero byte. -/
theorem decimal_ne_zero (v : Int) : ∀ c ∈ decimal v, c ≠ 0#8 := by
  intro c hc
  unfold decimal at hc
  split at hc
  · rcases List.mem_cons.mp hc with rfl | hc
    · decide
    · exact ne_zero_of_mem_text (by decide) (by decide) hc
  · exact ne_zero_of_mem_text (by decide) (by decide) hc

/-- The conversions. -/
theorem convert_cases (h : convert ch args = some (p, args')) :
    (ch = char 'd' ∧ ∃ v, args = .int v :: args' ∧ p = .num (decimal v)) ∨
    (ch = char 'x' ∧ ∃ v, args = .int v :: args' ∧ p = .num (hexadecimal v)) ∨
    (ch = char 'c' ∧ ∃ v, args = .int v :: args' ∧ BitVec.ofInt 8 v ≠ 0#8 ∧
      p = .text [BitVec.ofInt 8 v]) ∨
    (ch = char 's' ∧ ∃ s, args = .str s :: args' ∧ p = .text (s.getD [])) ∨
    ((ch ≠ char 'd' ∧ ch ≠ char 'x' ∧ ch ≠ char 'c' ∧ ch ≠ char 's') ∧ args = args' ∧
      p = .text []) := by
  unfold convert at h
  -- The tests in the order in which they are made.
  by_cases hd : ch = char 'd'
  · rw [if_pos hd] at h
    split at h
    · obtain ⟨rfl, rfl⟩ := Prod.mk.inj (Option.some.inj h)
      exact Or.inl ⟨hd, _, rfl, rfl⟩
    · cases h
  rw [if_neg hd] at h
  by_cases hx : ch = char 'x'
  · rw [if_pos hx] at h
    split at h
    · obtain ⟨rfl, rfl⟩ := Prod.mk.inj (Option.some.inj h)
      exact Or.inr (Or.inl ⟨hx, _, rfl, rfl⟩)
    · cases h
  rw [if_neg hx] at h
  by_cases hc : ch = char 'c'
  · rw [if_pos hc] at h
    split at h
    · split at h
      · cases h
      · rename_i hne
        obtain ⟨rfl, rfl⟩ := Prod.mk.inj (Option.some.inj h)
        exact Or.inr (Or.inr (Or.inl ⟨hc, _, rfl, hne, rfl⟩))
    · cases h
  rw [if_neg hc] at h
  by_cases hs : ch = char 's'
  · rw [if_pos hs] at h
    split at h
    · obtain ⟨rfl, rfl⟩ := Prod.mk.inj (Option.some.inj h)
      exact Or.inr (Or.inr (Or.inr (Or.inl ⟨hs, _, rfl, rfl⟩)))
    · cases h
  rw [if_neg hs] at h
  obtain ⟨rfl, rfl⟩ := Prod.mk.inj (Option.some.inj h)
  exact Or.inr (Or.inr (Or.inr (Or.inr ⟨⟨hd, hx, hc, hs⟩, rfl, rfl⟩)))

/-- The piece of a conversion has no zero byte, and the words behind it stand for the arguments
behind it. -/
theorem convert_args (hws : List.Forall₂ (ArgIs m lo hi) ws args)
    (h : convert ch args = some (p, args')) :
    (∀ c ∈ p.bytes, c ≠ 0#8) ∧ ∃ ws', List.Forall₂ (ArgIs m lo hi) ws' args' := by
  rcases convert_cases h with ⟨-, v, rfl, rfl⟩ | ⟨-, v, rfl, rfl⟩ | ⟨-, v, rfl, hne, rfl⟩ |
    ⟨-, s, rfl, rfl⟩ | ⟨-, rfl, rfl⟩
  · cases hws with
    | cons _ hws => exact ⟨decimal_ne_zero v, _, hws⟩
  · cases hws with
    | cons _ hws => exact ⟨fun c hc => ne_zero_of_mem_text (by decide) (by decide) hc, _, hws⟩
  · cases hws with
    | cons _ hws => exact ⟨fun c hc => List.mem_singleton.mp hc ▸ hne, _, hws⟩
  · cases hws with
    | cons hw hws =>
      refine ⟨?_, _, hws⟩
      cases s with
      | none => exact fun c hc => absurd hc List.not_mem_nil
      | some s => exact hw.2.1.nonzero
  · exact ⟨fun c hc => absurd hc List.not_mem_nil, _, hws⟩

/-- A character that is copied. -/
theorem pieces_char {c : BitVec 8} (hc : c ≠ char '%') (h : pieces (c :: f) args = some ps) :
    ∃ ps', pieces f args = some ps' ∧ ps = .text [c] :: ps' := by
  cases f with
  | nil =>
    have he : pieces [c] args = some [.text [c]] := if_neg hc
    exact ⟨[], rfl, Option.some.inj (h.symm.trans he)⟩
  | cons d f =>
    have he : pieces (c :: d :: f) args = (pieces (d :: f) args).map (.text [c] :: ·) := if_neg hc
    obtain ⟨ps', hps, hcons⟩ := Option.map_eq_some_iff.mp (he.symm.trans h)
    exact ⟨ps', hps, hcons.symm⟩

/-- A `%` with a character behind it. -/
theorem pieces_conv {d : BitVec 8} (h : pieces (char '%' :: d :: f) args = some ps) :
    ∃ p args' ps', convert d args = some (p, args') ∧ pieces f args' = some ps' ∧
      ps = p :: ps' := by
  have he : pieces (char '%' :: d :: f) args
      = (convert d args).bind fun r => (pieces f r.2).map (r.1 :: ·) := if_pos rfl
  obtain ⟨⟨p, args'⟩, hconv, hrest⟩ := Option.bind_eq_some_iff.mp (he.symm.trans h)
  obtain ⟨ps', hps, hcons⟩ := Option.map_eq_some_iff.mp hrest
  exact ⟨p, args', ps', hconv, hps, hcons.symm⟩

/-- The output of a format string without zero bytes has no zero byte. -/
theorem pieces_ne_zero (hws : List.Forall₂ (ArgIs m lo hi) ws args) (hf : ∀ c ∈ f, c ≠ 0#8)
    (h : pieces f args = some ps) : ∀ c ∈ output ps, c ≠ 0#8 := by
  induction f, args using pieces.induct generalizing ws ps with
  | case1 args =>
    obtain rfl := Option.some.inj h
    exact fun c hc => absurd hc List.not_mem_nil
  | case2 args =>
    obtain rfl := Option.some.inj h
    exact fun c hc => absurd hc List.not_mem_nil
  | case3 c args hchar =>
    obtain ⟨ps', hnil, rfl⟩ := pieces_char hchar h
    obtain rfl := Option.some.inj hnil
    exact hf
  | case4 d f args ih =>
    -- A conversion: the words behind it stand for the arguments behind it.
    obtain ⟨p, args', ps', hconv, hps, rfl⟩ := pieces_conv h
    obtain ⟨hp, ws', hws'⟩ := convert_args hws hconv
    have hrest := ih (p, args') hws' (fun c hc => hf c (by simp [hc])) hps
    intro c hc
    rcases List.mem_append.mp hc with hc | hc
    · exact hp c hc
    · exact hrest c hc
  | case5 c d f args hchar ih =>
    obtain ⟨ps', hps, rfl⟩ := pieces_char hchar h
    have hrest := ih hws (fun e he => hf e (List.mem_cons_of_mem c he)) hps
    intro e he
    rcases List.mem_cons.mp he with rfl | he
    · exact hf e List.mem_cons_self
    · exact hrest e he

end Format
