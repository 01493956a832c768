import StartKernel.Abs.Format

/-!
# `StartKernel.Abs.FormatRoom`: how long an output can get

A bound on the output of a format string, from the kinds of its arguments. The numbers do not count,
and a string counts with its length.

* `room_spec`: a format string with a bound has an output, and it is not longer.
-/

set_option autoImplicit false

namespace Format

open ByteMem (char)
open Numeral (text)
open StartKernel (toU32)

/-- The argument is a string. -/
def Arg.isStr : Arg → Bool
  | .int _ => false
  | .str _ => true

/-- The bytes of a string, and none of an `int`. -/
def Arg.strLength : Arg → Nat
  | .int _ => 0
  | .str s => (s.getD []).length

/-- The argument is an `int` of 32 bits, or a string. -/
def Arg.Fits : Arg → Prop
  | .int v => -2 ^ 31 ≤ v ∧ v < 2 ^ 31
  | .str _ => True

/-- The most bytes of a conversion without those of a string, and the kinds of the arguments behind
it. `%c` has no bound here: its argument may be the zero byte, which ends the output. -/
def convertRoom (ch : BitVec 8) (kinds : List Bool) : Option (Nat × List Bool) :=
  if ch = char 'd' then
    match kinds with
    | false :: kinds => some (11, kinds)
    | _ => none
  else if ch = char 'x' then
    match kinds with
    | false :: kinds => some (8, kinds)
    | _ => none
  else if ch = char 'c' then none
  else if ch = char 's' then
    match kinds with
    | true :: kinds => some (0, kinds)
    | _ => none
  else some (0, kinds)

/-- The most bytes of the output without those of the strings. -/
def room : List (BitVec 8) → List Bool → Option Nat
  | [], _ => some 0
  | [c], _ => if c = char '%' then some 0 else some 1
  | c :: d :: f, kinds =>
    if c = char '%' then
      (convertRoom d kinds).bind fun r => (room f r.2).map (r.1 + ·)
    else (room (d :: f) kinds).map (1 + ·)

variable {ch : BitVec 8} {f : List (BitVec 8)} {args : List Arg} {kinds kinds' : List Bool}
  {n : Nat} {v : Int}

/-- A numeral with its sign has at most 11 bytes. -/
theorem length_decimal_le (h₁ : -2 ^ 31 ≤ v) (h₂ : v < 2 ^ 31) : (decimal v).length ≤ 11 := by
  unfold decimal
  split
  · rw [List.length_cons]
    have hdigits : (text 10 (-v).toNat).length ≤ 10 :=
      Numeral.length_text_le_pow (by omega) (by omega) (by omega)
    omega
  · have hdigits : (text 10 v.toNat).length ≤ 10 :=
      Numeral.length_text_le_pow (by omega) (by omega) (by omega)
    omega

theorem length_hexadecimal_le (v : Int) : (hexadecimal v).length ≤ 8 := by
  have hv := StartKernel.toU32_lt v
  exact Numeral.length_text_le_pow (by omega) (by omega) (by omega)

/-- A conversion with a bound. -/
theorem convertRoom_spec (hargs : ∀ a ∈ args, a.Fits)
    (h : convertRoom ch (args.map Arg.isStr) = some (n, kinds')) :
    ∃ p args', convert ch args = some (p, args') ∧ kinds' = args'.map Arg.isStr ∧
      p.bytes.length + (args'.map Arg.strLength).sum ≤ n + (args.map Arg.strLength).sum ∧
      ∀ a ∈ args', a.Fits := by
  unfold convertRoom at h
  unfold convert
  by_cases hd : ch = char 'd'
  · rw [if_pos hd] at h ⊢
    match args, h with
    | .int v :: args, h =>
      obtain ⟨rfl, rfl⟩ := Prod.mk.inj (Option.some.inj h)
      have hv := hargs _ List.mem_cons_self
      have hlen := length_decimal_le hv.1 hv.2
      refine ⟨_, _, rfl, rfl, ?_, fun a ha => hargs a (List.mem_cons_of_mem _ ha)⟩
      rw [List.map_cons, List.sum_cons]
      show (decimal v).length + _ ≤ 11 + (0 + _)
      omega
  rw [if_neg hd] at h ⊢
  by_cases hx : ch = char 'x'
  · rw [if_pos hx] at h ⊢
    match args, h with
    | .int v :: args, h =>
      obtain ⟨rfl, rfl⟩ := Prod.mk.inj (Option.some.inj h)
      have hlen := length_hexadecimal_le v
      refine ⟨_, _, rfl, rfl, ?_, fun a ha => hargs a (List.mem_cons_of_mem _ ha)⟩
      rw [List.map_cons, List.sum_cons]
      show (hexadecimal v).length + _ ≤ 8 + (0 + _)
      omega
  rw [if_neg hx] at h ⊢
  by_cases hc : ch = char 'c'
  · rw [if_pos hc] at h
    cases h
  rw [if_neg hc] at h ⊢
  by_cases hs : ch = char 's'
  · rw [if_pos hs] at h ⊢
    match args, h with
    | .str s :: args, h =>
      obtain ⟨rfl, rfl⟩ := Prod.mk.inj (Option.some.inj h)
      refine ⟨_, _, rfl, rfl, ?_, fun a ha => hargs a (List.mem_cons_of_mem _ ha)⟩
      rw [List.map_cons, List.sum_cons]
      show (s.getD []).length + _ ≤ 0 + ((s.getD []).length + _)
      omega
  rw [if_neg hs] at h ⊢
  obtain ⟨rfl, rfl⟩ := Prod.mk.inj (Option.some.inj h)
  exact ⟨_, _, rfl, rfl, le_refl _, hargs⟩

/-- A format string with a bound has an output, and the output is not longer. -/
theorem room_spec (hargs : ∀ a ∈ args, a.Fits) (h : room f (args.map Arg.isStr) = some n) :
    ∃ ps, pieces f args = some ps ∧ (output ps).length ≤ n + (args.map Arg.strLength).sum := by
  obtain ⟨kinds, hkinds⟩ : ∃ kinds, args.map Arg.isStr = kinds := ⟨_, rfl⟩
  rw [hkinds] at h
  induction f, kinds using room.induct generalizing n args with
  | case1 kinds => exact ⟨[], rfl, Nat.zero_le _⟩
  | case2 kinds => exact ⟨[], if_pos rfl, Nat.zero_le _⟩
  | case3 c kinds hchar =>
    obtain rfl := Option.some.inj ((if_neg hchar).symm.trans h)
    exact ⟨[.text [c]], if_neg hchar, Nat.le_add_right 1 _⟩
  | case4 d f kinds ih =>
    -- A conversion, and what is behind it.
    obtain ⟨r, hconv, hrest⟩ := Option.bind_eq_some_iff.mp ((if_pos rfl).symm.trans h)
    obtain ⟨k, hk, rfl⟩ := Option.map_eq_some_iff.mp hrest
    obtain ⟨p, args', hp, hkinds', hlen, hfits⟩ := convertRoom_spec hargs (hkinds ▸ hconv)
    obtain ⟨ps, hps, hlens⟩ := ih r hfits hk hkinds'.symm
    refine ⟨p :: ps, (if_pos rfl).trans ?_, ?_⟩
    · rw [hp, Option.bind_some, hps, Option.map_some]
    · rw [output_cons, List.length_append]
      omega
  | case5 c d f kinds hchar ih =>
    obtain ⟨k, hk, rfl⟩ := Option.map_eq_some_iff.mp ((if_neg hchar).symm.trans h)
    obtain ⟨ps, hps, hlens⟩ := ih hargs hk hkinds
    refine ⟨.text [c] :: ps, (if_neg hchar).trans ?_, ?_⟩
    · rw [hps, Option.map_some]
    · rw [output_cons, List.length_append]
      show [c].length + _ ≤ _
      rw [List.length_singleton]
      omega

end Format
