import StartKernel.Lib.Ports

/-!
# `StartKernel.Lib.Pic`: what the two 8259A interrupt controllers document

A PC has two of the chips. Each has a command port and a data port, eight inputs with a mask, and
the vector that its first input has. How a chip works is left open: `Documented` is what its data
sheet says of the initialization and of the mask.
-/

set_option autoImplicit false

namespace Pic

/-- The two chips. -/
inductive Chip
  | master
  | slave
  deriving DecidableEq

/-- The port for the first initialization word. -/
def Chip.command : Chip → Nat
  | .master => 0x20
  | .slave => 0xA0

/-- The port for the other initialization words, and for the mask behind them. -/
def Chip.data : Chip → Nat
  | .master => 0x21
  | .slave => 0xA1

/-- What is known of a chip: whether its initialization is over, its mask, and the vector of its
first input. -/
structure Regs where
  ready : Bool
  mask : BitVec 8
  base : BitVec 8

/-- The behaviour of the two chips. -/
structure Documented {σ : Type*} (p : Ports σ) (regs : σ → Chip → Regs) : Prop where
  /-- The four initialization words of a chip that has a second one beside it. The mask is cleared.
  -/
  init : ∀ s c icw2 icw3 icw4, regs (p.outs s
    [(c.command, 0x11#8), (c.data, icw2), (c.data, icw3), (c.data, icw4)]) c
      = ⟨true, 0#8, icw2 &&& 0xF8#8⟩
  /-- Behind them the data port leads to the mask. -/
  write : ∀ s c v, (regs s c).ready = true →
    regs (p.outb s c.data v) c = { regs s c with mask := v }
  read : ∀ s c, (regs s c).ready = true →
    (p.inb s c.data).1 = (regs s c).mask ∧ regs (p.inb s c.data).2 = regs s
  /-- A chip does not see what is written to the other one. -/
  apart : ∀ s c c' port v, c ≠ c' → port = c.command ∨ port = c.data →
    regs (p.outb s port v) c' = regs s c'

variable {σ : Type*} {p : Ports σ} {regs : σ → Chip → Regs} {s : σ} {c c' : Chip}

/-- Words for one chip leave the other one as it was. -/
theorem Documented.outs_apart (h : Documented p regs) (hne : c ≠ c')
    {words : List (Nat × BitVec 8)} (hports : ∀ w ∈ words, w.1 = c.command ∨ w.1 = c.data) :
    regs (p.outs s words) c' = regs s c' := by
  induction words generalizing s with
  | nil => rfl
  | cons w words ih =>
    exact (ih fun w' hw' => hports w' (List.mem_cons_of_mem _ hw')).trans
      (h.apart s c c' w.1 w.2 hne (hports w List.mem_cons_self))

/-- The mask of a chip is read, and written again after `f`. -/
def changeMask (p : Ports σ) (s : σ) (c : Chip) (f : BitVec 8 → BitVec 8) : σ :=
  p.outb (p.inb s c.data).2 c.data (f (p.inb s c.data).1)

/-- No register but the mask has changed. -/
theorem Documented.changeMask (h : Documented p regs) (hready : (regs s c).ready = true)
    (f : BitVec 8 → BitVec 8) :
    regs (changeMask p s c f)
      = Function.update (regs s) c { regs s c with mask := f (regs s c).mask } := by
  obtain ⟨hread, hkeep⟩ := h.read s c hready
  unfold Pic.changeMask
  rw [hread]
  funext c'
  by_cases hc : c' = c
  · subst hc
    rw [Function.update_self, h.write _ _ _ (by rw [hkeep]; exact hready), hkeep]
  · rw [Function.update_of_ne hc, h.apart _ c c' _ _ (Ne.symm hc) (.inr rfl), hkeep]

end Pic
