import StartKernel.Lib.Trace

/-!
# `StartKernel.Lib.Turns`: taking turns in a line

A line of tokens moves on: new tokens join at its end, and its first token may leave. A token
that leaves the front may join again at the end. So two tokens that stay in the line come to the
front in turn.

* `Ahead.advance`: how the order of two tokens changes when the line moves on.
* `Rotates.turn_step`: one step of a system whose line moves on.
* `Rotates.once`: between two moments at which one token comes to the front, every other token
  that stays in the line comes to the front exactly once.
-/

set_option autoImplicit false

namespace Turns

open Trace (run Meets countSteps countSteps_cons)

variable {T : Type} {x y z : T} {xs ys : List T}

/-- The line moves on: tokens join at the end, and the first one may have left. -/
def Advance (xs ys : List T) : Prop := ∃ new, ys = xs ++ new ∨ ys = xs.tail ++ new

/-- The token `x` stands somewhere in front of `y`. -/
def Ahead (x y : T) (xs : List T) : Prop := [x, y].Sublist xs

/-- The first token stands in front of every other one. -/
theorem ahead_of_head (hx : xs.head? = some x) (hy : y ∈ xs) (hne : x ≠ y) : Ahead x y xs := by
  cases xs with
  | nil => cases hy
  | cons z zs =>
    obtain rfl := Option.some.inj hx
    exact (List.singleton_sublist.mpr ((List.mem_cons.mp hy).resolve_left hne.symm)).cons_cons z

/-- A token behind another one is not the first. -/
theorem Ahead.head?_ne (h : Ahead x y xs) (hnd : xs.Nodup) : xs.head? ≠ some y := by
  cases xs with
  | nil => exact fun he => by cases he
  | cons z zs =>
    intro he
    obtain rfl : z = y := Option.some.inj he
    -- Then the other token would stand in front of the first one.
    have hmem : z ∈ zs := by
      cases h with
      | cons _ h => exact h.subset (by simp)
      | cons_cons _ h => exact List.singleton_sublist.mp h
    exact (List.nodup_cons.mp hnd).1 hmem

/-- How the order of two tokens changes when the line moves on. The first token of the line stays
the first; it leaves, and it is not `x`; or it is `x`, and now `x` stands behind `y`. -/
theorem Ahead.advance (h : Ahead x y xs) (hadv : Advance xs ys) (hnd : xs.Nodup) (hx : x ∈ ys) :
    (ys.head? = xs.head? ∧ Ahead x y ys) ∨ (xs.head? ≠ some x ∧ Ahead x y ys) ∨
      (xs.head? = some x ∧ Ahead y x ys) := by
  cases xs with
  | nil => cases h
  | cons z zs =>
    obtain ⟨new, rfl | rfl⟩ := hadv
    · exact Or.inl ⟨rfl, List.Sublist.trans h (List.sublist_append_left _ new)⟩
    · right
      by_cases hz : z = x
      · subst hz
        right
        refine ⟨rfl, ?_⟩
        have hzs := (List.nodup_cons.mp hnd).1
        have hy : y ∈ zs := by
          cases h with
          | cons _ h => exact absurd (h.subset (by simp)) hzs
          | cons_cons _ h => exact List.singleton_sublist.mp h
        have hnew : z ∈ new := (List.mem_append.mp hx).resolve_left hzs
        exact (List.singleton_sublist.mpr hy).append (List.singleton_sublist.mpr hnew)
      · left
        refine ⟨fun he => hz (Option.some.inj he), ?_⟩
        have hzs : Ahead x y zs := by
          cases h with
          | cons _ h => exact h
          | cons_cons _ h => exact absurd rfl hz
        exact List.Sublist.trans hzs (List.sublist_append_left _ new)

/-! ### A system with a line -/

variable {σ L : Type} {step : σ → L → Option σ} {P : σ → L → Prop} {I : σ → Prop}
  {line : σ → List T} {curr : σ → T} {c c' c₁ c₂ : σ} {l : L} {ls : List L} {k : Nat}

/-- In the states of `I`, and with steps that meet `P`, the line of the system moves on with every
step. No token stands in it twice, and the current token is the first one. -/
structure Rotates (step : σ → L → Option σ) (P : σ → L → Prop) (I : σ → Prop) (line : σ → List T)
    (curr : σ → T) : Prop where
  keeps : ∀ c l c', I c → P c l → step c l = some c' → I c'
  advance : ∀ c l c', I c → P c l → step c l = some c' → Advance (line c) (line c')
  nodup : ∀ c, I c → (line c).Nodup
  front : ∀ c x, I c → x ∈ line c → (curr c = x ↔ (line c).head? = some x)

/-- The token becomes current with this step. -/
def Becomes (curr : σ → T) (x : T) (c c' : σ) : Prop := curr c ≠ x ∧ curr c' = x

instance [DecidableEq T] : DecidableRel (Becomes curr x) := fun c c' =>
  inferInstanceAs (Decidable (curr c ≠ x ∧ curr c' = x))

/-- How often `x` has become current since `y` was, as long as `y` has not become current again.
This can be read off the line. -/
def Turn (line : σ → List T) (curr : σ → T) (x y : T) (k : Nat) (c : σ) : Prop :=
  (Ahead x y (line c) ∧ ((curr c = x ∧ k = 1) ∨ (curr c ≠ x ∧ k = 0))) ∨
    (Ahead y x (line c) ∧ ((curr c = y ∧ k = 0) ∨ (curr c ≠ y ∧ k = 1)))

section

variable [DecidableEq T] (hrot : Rotates step P I line curr)

include hrot

/-- One step in which `y` does not become current. -/
theorem Rotates.turn_step (hne : x ≠ y) (hI : I c) (hP : P c l) (hs : step c l = some c')
    (hx : x ∈ line c) (hy : y ∈ line c) (hx' : x ∈ line c') (hy' : y ∈ line c')
    (hno : ¬ Becomes curr y c c') (ht : Turn line curr x y k c) :
    Turn line curr x y (k + if Becomes curr x c c' then 1 else 0) c' := by
  have hadv := hrot.advance c l c' hI hP hs
  have hI' := hrot.keeps c l c' hI hP hs
  have hnd := hrot.nodup c hI
  have hnd' := hrot.nodup c' hI'
  have hcx := hrot.front c x hI hx
  have hcy := hrot.front c y hI hy
  have hcx' := hrot.front c' x hI' hx'
  have hcy' := hrot.front c' y hI' hy'
  unfold Becomes at hno ⊢
  rcases ht with ⟨hahead, hk⟩ | ⟨hahead, hk⟩
  · rcases hahead.advance hadv hnd hx' with ⟨hsame, hahead'⟩ | ⟨hhead, hahead'⟩ | ⟨hhead, hahead'⟩
    · -- The first token is as before.
      rw [hsame] at hcx' hcy'
      refine Or.inl ⟨hahead', ?_⟩
      grind
    · -- Another token left the front.
      refine Or.inl ⟨hahead', ?_⟩
      grind
    · -- The token `x` left the front, and it is behind `y` now.
      have hbehind := hahead'.head?_ne hnd'
      refine Or.inr ⟨hahead', ?_⟩
      grind
  · rcases hahead.advance hadv hnd hy' with ⟨hsame, hahead'⟩ | ⟨hhead, hahead'⟩ | ⟨hhead, hahead'⟩
    · rw [hsame] at hcx' hcy'
      refine Or.inr ⟨hahead', ?_⟩
      grind
    · have hbehind := hahead'.head?_ne hnd'
      refine Or.inr ⟨hahead', ?_⟩
      grind
    · -- The token `y` left the front, and it is behind `x` now.
      refine Or.inl ⟨hahead', ?_⟩
      grind

/-- A run in which `y` does not become current. The induction is on the run, and it carries how
often `x` has become current in front of it. -/
theorem Rotates.turn_run (hne : x ≠ y) (hI : I c) (hP : Meets step P c ls)
    (hrun : run step c ls = some c') (hx : x ∈ line c') (hy : y ∈ line c')
    (hstay : Meets step (fun c _ => x ∈ line c ∧ y ∈ line c) c ls)
    (hno : countSteps step (Becomes curr y) c ls = 0) (ht : Turn line curr x y k c) :
    I c' ∧ Turn line curr x y (k + countSteps step (Becomes curr x) c ls) c' := by
  induction ls generalizing c k with
  | nil =>
    obtain rfl : c = c' := Option.some.inj hrun
    exact ⟨hI, ht⟩
  | cons l ls ih =>
    obtain ⟨c₁, hs, hrun⟩ := Option.bind_eq_some_iff.mp hrun
    rw [countSteps_cons hs] at hno
    rw [countSteps_cons hs, ← Nat.add_assoc]
    have hstay' := hstay.2 c₁ hs
    -- The tokens are in the line behind this step: in front of the next one, or at the end.
    have hin : x ∈ line c₁ ∧ y ∈ line c₁ := by
      cases ls with
      | nil =>
        obtain rfl : c₁ = c' := Option.some.inj hrun
        exact ⟨hx, hy⟩
      | cons l' ls => exact hstay'.1
    have hfirst : ¬ Becomes curr y c c₁ := by
      intro hb
      rw [if_pos hb] at hno
      omega
    exact ih (hrot.keeps c l c₁ hI hP.1 hs) (hP.2 c₁ hs) hrun hstay' (by omega)
      (hrot.turn_step hne hI hP.1 hs hstay.1.1 hstay.1.2 hin.1 hin.2 hfirst ht)

omit [DecidableEq T] in
/-- When `y` becomes current again, `x` has become current once. -/
theorem Rotates.turn_again (hI : I c) (hP : P c l) (hs : step c l = some c')
    (hx : x ∈ line c) (hy : y ∈ line c) (hx' : x ∈ line c') (hy' : y ∈ line c')
    (hagain : Becomes curr y c c') (ht : Turn line curr x y k c) : k = 1 := by
  have hadv := hrot.advance c l c' hI hP hs
  have hI' := hrot.keeps c l c' hI hP hs
  have hnd' := hrot.nodup c' hI'
  have hcx := hrot.front c x hI hx
  have hcy := hrot.front c y hI hy
  have hcy' := hrot.front c' y hI' hy'
  unfold Becomes at hagain
  rcases ht with ⟨hahead, hk⟩ | ⟨-, hk⟩
  · -- While `x` is in front of `y` and is not the first, it stays in front.
    rcases hahead.advance hadv (hrot.nodup c hI) hx' with ⟨hsame, -⟩ | ⟨-, hahead'⟩ | ⟨hhead, -⟩
    · rw [hsame] at hcy'
      exact absurd (hcy.mpr (hcy'.mp hagain.2)) hagain.1
    · exact absurd (hcy'.mp hagain.2) (hahead'.head?_ne hnd')
    · exact (hk.resolve_right fun hk => hk.1 (hcx.mpr hhead)).2
  · exact (hk.resolve_left fun hk => hagain.1 hk.1).2

/-- Between two successive moments at which `y` becomes current, any other token that stays in the
line becomes current exactly once. -/
theorem Rotates.once (hne : x ≠ y) (hI : I c) (hP : Meets step P c (ls ++ [l]))
    (hfirst : curr c = y) (hrun : run step c ls = some c₁) (hs : step c₁ l = some c₂)
    (hagain : Becomes curr y c₁ c₂) (hno : countSteps step (Becomes curr y) c ls = 0)
    (hstay : Meets step (fun c _ => x ∈ line c ∧ y ∈ line c) c (ls ++ [l]))
    (hx : x ∈ line c₂) (hy : y ∈ line c₂) : countSteps step (Becomes curr x) c ls = 1 := by
  have hlast := (hstay.right hrun).1
  have hmem : x ∈ line c ∧ y ∈ line c := by
    cases ls with
    | nil =>
      obtain rfl : c = c₁ := Option.some.inj hrun
      exact hlast
    | cons l' ls => exact hstay.1
  have hstart : Turn line curr x y 0 c :=
    Or.inr ⟨ahead_of_head ((hrot.front c y hI hmem.2).mp hfirst) hmem.1 hne.symm,
      Or.inl ⟨hfirst, rfl⟩⟩
  obtain ⟨hI₁, hturn⟩ := hrot.turn_run hne hI hP.left hrun hlast.1 hlast.2 hstay.left hno hstart
  rw [Nat.zero_add] at hturn
  exact hrot.turn_again hI₁ (hP.right hrun).1 hs hlast.1 hlast.2 hx hy hagain hturn

end

end Turns
