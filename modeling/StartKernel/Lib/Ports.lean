import Mathlib.Data.Set.Basic

/-!
# `StartKernel.Lib.Ports`: programmed input from a device

A program talks to a device through numbered ports. What the device is stays open: its state is a
type, and each access answers and leads to a next state. The state may hold what the device is going
to do by itself, so a loop that polls can see any values in any order.

Programmed input waits in front of each block until the status port promises data, and then takes
the block word by word from the data port. `Polled` and `Gives` say what the device does then, as
relations; the loop that polls has a fuel, and is over with enough of it exactly when the relation
holds.

* `Polled.poll`, `poll_sound`: the loop that polls.
* `Polled.not_of_invariant`: a device that never promises data.
* `Gives.length_words`: how many words a device gives.
-/

set_option autoImplicit false

/-- Devices behind I/O ports, with the states `σ`. -/
structure Ports (σ : Type*) where
  inb : σ → Nat → BitVec 8 × σ
  inw : σ → Nat → BitVec 16 × σ
  outb : σ → Nat → BitVec 8 → σ

namespace Ports

variable {σ : Type*} {p : Ports σ} {port n : Nat} {ready : BitVec 8 → Bool} {s s' s₁ s₂ : σ}

/-! ### Writing -/

/-- Bytes that are written to ports, one behind the other. -/
def outs (p : Ports σ) (s : σ) : List (Nat × BitVec 8) → σ
  | [] => s
  | w :: ws => p.outs (p.outb s w.1 w.2) ws

/-! ### Polling -/

/-- The loop that reads a port until the value is `ready`. -/
def poll (p : Ports σ) (port : Nat) (ready : BitVec 8 → Bool) (s : σ) : Nat → Option σ
  | 0 => none
  | n + 1 =>
    let (v, s) := p.inb s port
    if ready v then some s else p.poll port ready s n

/-- Some read of the port has a value that is `ready`, and the first such one leads from `s` to the
second state. -/
inductive Polled (p : Ports σ) (port : Nat) (ready : BitVec 8 → Bool) : σ → σ → Prop
  | now {s : σ} (h : ready (p.inb s port).1 = true) : Polled p port ready s (p.inb s port).2
  | later {s s' : σ} (h : ready (p.inb s port).1 = false)
      (rest : Polled p port ready (p.inb s port).2 s') : Polled p port ready s s'

theorem poll_succ (p : Ports σ) (port : Nat) (ready : BitVec 8 → Bool) (s : σ) (n : Nat) :
    p.poll port ready s (n + 1) = if ready (p.inb s port).1 = true then some (p.inb s port).2
      else p.poll port ready (p.inb s port).2 n := rfl

/-- The loop is over for every number of reads that is large enough. -/
theorem Polled.poll (h : p.Polled port ready s s') :
    ∃ n, ∀ polls ≥ n, p.poll port ready s polls = some s' := by
  induction h with
  | now h =>
    refine ⟨1, fun polls hle => ?_⟩
    obtain ⟨n, rfl⟩ := Nat.exists_eq_add_of_le' hle
    rw [poll_succ, if_pos h]
  | later h _ ih =>
    obtain ⟨n, hn⟩ := ih
    refine ⟨n + 1, fun polls hle => ?_⟩
    obtain ⟨k, rfl⟩ := Nat.exists_eq_add_of_le' hle
    rw [← Nat.add_assoc, poll_succ, if_neg (by rw [h]; exact Bool.false_ne_true)]
    exact hn (k + n) (Nat.le_add_left n k)

/-- When the loop is over, the device has become ready. -/
theorem poll_sound (h : p.poll port ready s n = some s') : p.Polled port ready s s' := by
  induction n generalizing s with
  | zero => cases h
  | succ n ih =>
    rw [poll_succ] at h
    split at h
    · rename_i hready
      cases h
      exact .now hready
    · rename_i hready
      exact .later (eq_false_of_ne_true hready) (ih h)

/-- A device becomes ready once. -/
theorem Polled.unique (h₁ : p.Polled port ready s s₁) (h₂ : p.Polled port ready s s₂) :
    s₁ = s₂ := by
  induction h₁ with
  | now h =>
    cases h₂ with
    | now => rfl
    | later h' => exact absurd (h.symm.trans h') (by decide)
  | later h _ ih =>
    cases h₂ with
    | now h' => exact absurd (h'.symm.trans h) (by decide)
    | later _ h' => exact ih h'

/-- While the states stay in a set without a value that is `ready`, the device does not become so.
-/
theorem Polled.not_of_invariant {I : Set σ}
    (hstep : ∀ s ∈ I, ready (p.inb s port).1 = false ∧ (p.inb s port).2 ∈ I) (hs : s ∈ I) :
    ¬ p.Polled port ready s s' := fun h => by
  induction h with
  | now h => exact absurd (h.symm.trans (hstep _ hs).1) (by decide)
  | later _ _ ih => exact ih (hstep _ hs).2

/-! ### Blocks of words -/

/-- The next `n` words of a port. -/
def inws (p : Ports σ) (port : Nat) (s : σ) : Nat → List (BitVec 16) × σ
  | 0 => ([], s)
  | n + 1 =>
    let first := p.inw s port
    let rest := p.inws port first.2 n
    (first.1 :: rest.1, rest.2)

@[simp] theorem length_inws (p : Ports σ) (port : Nat) (s : σ) (n : Nat) :
    (p.inws port s n).1.length = n := by
  induction n generalizing s with
  | zero => rfl
  | succ n ih => exact congrArg Nat.succ (ih _)

/-- Where programmed input finds its data: the two ports, the status values that promise a block,
and the words of a block. -/
structure Channel where
  status : Nat
  data : Nat
  ready : BitVec 8 → Bool
  block : Nat

variable {ch : Channel} {ws : List (BitVec 16)}

/-- The device gives the words `ws` in `n` blocks, and is then in the second state. -/
inductive Gives (p : Ports σ) (ch : Channel) : σ → Nat → List (BitVec 16) → σ → Prop
  | done {s : σ} : Gives p ch s 0 [] s
  | block {s s₁ s' : σ} {n : Nat} {ws : List (BitVec 16)} (h : p.Polled ch.status ch.ready s s₁)
      (rest : Gives p ch (p.inws ch.data s₁ ch.block).2 n ws s') :
      Gives p ch s (n + 1) ((p.inws ch.data s₁ ch.block).1 ++ ws) s'

theorem Gives.length_words (h : p.Gives ch s n ws s') : ws.length = ch.block * n := by
  induction h with
  | done => rfl
  | block _ _ ih => rw [List.length_append, length_inws, ih, Nat.mul_succ, Nat.add_comm]

end Ports
