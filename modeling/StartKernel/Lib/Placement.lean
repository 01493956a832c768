import Mathlib.Data.List.Nodup
import Mathlib.Data.List.Basic
import Mathlib.Logic.Function.Basic

/-!
# `StartKernel.Lib.Placement`: tokens in lines

Tokens of a type `T` stand in lines, one line for each place of a type `P`. `Apart` says
that no token stands twice, neither in one line nor in two. `Placed D` adds that exactly
the tokens of `D` stand somewhere.

Two edits move tokens: `take` pulls a token out of a line, `put` sends it to the end of
one. `Apart.take` and `Apart.put` keep the lines apart, and `Placed.move`, the composition,
keeps every token placed exactly once.
-/

set_option autoImplicit false

namespace Placement

open Function (update)

variable {P T : Type} [DecidableEq P] [DecidableEq T]
  {line : P → List T} {p q : P} {t u : T} {D : T → Prop}

/-- No token stands twice. -/
structure Apart (line : P → List T) : Prop where
  nodup : ∀ p, (line p).Nodup
  disjoint : ∀ p q t, t ∈ line p → t ∈ line q → p = q

/-- Exactly the tokens of `D` stand in a line, each exactly once. -/
structure Placed (D : T → Prop) (line : P → List T) : Prop extends Apart line where
  mem_iff : ∀ t, D t ↔ ∃ p, t ∈ line p

/-- The token `t` leaves the line at `p`. -/
def take (line : P → List T) (p : P) (t : T) : P → List T :=
  update line p ((line p).erase t)

/-- The token `t` joins the end of the line at `p`. -/
def put (line : P → List T) (p : P) (t : T) : P → List T :=
  update line p (line p ++ [t])

@[simp] theorem take_self (line : P → List T) (p : P) (t : T) :
    take line p t p = (line p).erase t := by
  simp [take]

@[simp] theorem take_of_ne (line : P → List T) (t : T) (h : q ≠ p) :
    take line p t q = line q := by
  simp [take, h]

omit [DecidableEq T] in
@[simp] theorem put_self (line : P → List T) (p : P) (t : T) :
    put line p t p = line p ++ [t] := by
  simp [put]

omit [DecidableEq T] in
@[simp] theorem put_of_ne (line : P → List T) (t : T) (h : q ≠ p) :
    put line p t q = line q := by
  simp [put, h]

/-- Who stands at `q` after `t` left the line at `p`. -/
theorem mem_take (h : Apart line) : u ∈ take line p t q ↔ u ∈ line q ∧ ¬ (q = p ∧ u = t) := by
  by_cases hq : q = p
  · subst hq
    rw [take_self, (h.nodup q).mem_erase_iff]
    tauto
  · simp [hq]

omit [DecidableEq T] in
/-- Who stands at `q` after `t` joined the line at `p`. -/
theorem mem_put : u ∈ put line p t q ↔ u ∈ line q ∨ (q = p ∧ u = t) := by
  by_cases hq : q = p
  · subst hq
    simp
  · simp [hq]

/-- Taking a token keeps the lines apart. -/
theorem Apart.take (h : Apart line) (p : P) (t : T) : Apart (take line p t) where
  nodup q := by
    by_cases hq : q = p
    · subst hq
      rw [take_self]
      exact (h.nodup q).erase t
    · rw [take_of_ne line t hq]
      exact h.nodup q
  disjoint q r u hq hr := by
    rw [mem_take h] at hq hr
    exact h.disjoint q r u hq.1 hr.1

/-- A taken token stands nowhere. -/
theorem Apart.not_mem_take (h : Apart line) (ht : t ∈ line p) : t ∉ Placement.take line p t q := by
  rw [mem_take h]
  rintro ⟨hq, hne⟩
  exact hne ⟨h.disjoint q p t hq ht, rfl⟩

omit [DecidableEq T] in
/-- A token that stands nowhere may join a line. -/
theorem Apart.put (h : Apart line) (p : P) (ht : ∀ q, t ∉ line q) : Apart (put line p t) where
  nodup q := by
    by_cases hq : q = p
    · subst hq
      rw [put_self]
      exact List.nodup_append.mpr ⟨h.nodup q, by simp, by
        rintro x hx y hy rfl
        exact ht q (List.mem_singleton.mp hy ▸ hx)⟩
    · rw [put_of_ne line t hq]
      exact h.nodup q
  disjoint q r u hq hr := by
    rw [mem_put] at hq hr
    rcases hq with hq | ⟨rfl, rfl⟩ <;> rcases hr with hr | ⟨rfl, hur⟩
    · exact h.disjoint q r u hq hr
    · exact absurd (hur ▸ hq) (ht q)
    · exact absurd hr (ht r)
    · rfl

/-- Moving a token from one line to the end of another keeps every token placed once. -/
theorem Placed.move (h : Placed D line) (ht : t ∈ line p) (q : P) :
    Placed D (put (take line p t) q t) where
  toApart := (h.toApart.take p t).put q (fun _ => h.toApart.not_mem_take ht)
  mem_iff u := by
    rw [h.mem_iff]
    simp only [mem_put, mem_take h.toApart]
    constructor
    · rintro ⟨r, hr⟩
      by_cases hut : u = t
      · exact ⟨q, Or.inr ⟨rfl, hut⟩⟩
      · exact ⟨r, Or.inl ⟨hr, fun hn => hut hn.2⟩⟩
    · rintro ⟨r, ⟨hr, -⟩ | ⟨-, rfl⟩⟩
      · exact ⟨r, hr⟩
      · exact ⟨p, ht⟩

omit [DecidableEq P] [DecidableEq T] in
/-- A placed token stands at exactly one place. -/
theorem Placed.existsUnique (h : Placed D line) (ht : D t) : ∃! p, t ∈ line p := by
  obtain ⟨p, hp⟩ := (h.mem_iff t).mp ht
  exact ⟨p, hp, fun q hq => h.disjoint q p t hq hp⟩

end Placement
