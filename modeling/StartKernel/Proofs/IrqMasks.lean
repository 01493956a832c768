import Mathlib.Data.Set.Insert
import StartKernel.Cpu.Pic
import StartKernel.Lib.Pic

/-!
# `StartKernel.Proofs.IrqMasks`: the masks as a set of inputs

A driver sees the two masks as one set of enabled inputs. `init_pic` leaves the one between the
controllers enabled. `irq_enable` adds the input of its number and `irq_disable` takes it out. The
number of an input is its vector. A number below the vectors has no input, and behind them the shift
of the processor finds the inputs of the second controller again and again.

* `getLsbD_shiftedOne`: the bit of a number.
* `maskStep_cases`: a call does nothing, or changes the mask of one controller.
* `enabledLines_maskStep`: one call.
* `irqMasks_run`: any number of calls in any order.
-/

set_option autoImplicit false

namespace StartKernel

open Pic (Chip Regs Documented changeMask)

variable {σ : Type*} {p : Ports σ} {regs : σ → Chip → Regs} {s : σ} {c : Chip} {call : MaskCall}
  {i j : Nat} {n : Int} {v : BitVec 8}

/-! ### The inputs -/

/-- The controller of an input. -/
def chipOf (j : Nat) : Chip := if j < 8 then .master else .slave

/-- The input `j` of the sixteen is masked. -/
def masked (r : Chip → Regs) (j : Nat) : Bool := (r (chipOf j)).mask.getLsbD (j % 8)

/-- The inputs that are not masked. -/
def enabledLines (r : Chip → Regs) : Set Nat := { j | j < 16 ∧ masked r j = false }

/-- The vector of an input. -/
def vectorOf (r : Chip → Regs) (j : Nat) : Nat := ((r (chipOf j)).base + .ofNat 8 (j % 8)).toNat

/-- The inputs that have the number `irqNum`. -/
def linesOf (irqNum : Int) : Set Nat :=
  { j | j < 16 ∧ irqPicStart ≤ irqNum ∧
    if irqNum < irqPicStart + 8 then irqPicStart + j = irqNum
    else 8 ≤ j ∧ (irqNum - irqPicStart - 8) % 32 + 8 = j }

/-- The number of a call. -/
def MaskCall.irqNum : MaskCall → Int
  | .enable n => n
  | .disable n => n

/-- The set behind a call. -/
def maskSet (E : Set Nat) : MaskCall → Set Nat
  | .enable n => E ∪ linesOf n
  | .disable n => E \ linesOf n

/-! ### One bit of a mask -/

/-- The shifted bit. -/
theorem getLsbD_shiftedOne (hn : 0 ≤ n) (hi : i < 8) :
    (shiftedOne n).getLsbD i = decide (n % 32 = i) := by
  obtain ⟨k, hk⟩ : ∃ k, n.toNat % 32 = k := ⟨_, rfl⟩
  have hmod : decide (n % 32 = i) = decide (k = i) := decide_eq_decide.mpr (by omega)
  unfold shiftedOne
  rw [hk, hmod, BitVec.getLsbD_setWidth, BitVec.getLsbD_shiftLeft,
    BitVec.getLsbD_one]
  by_cases heq : k = i
  · subst heq
    simp [hi, Nat.lt_trans hi]
  · simp only [heq, decide_false]
    by_cases hlt : i < k
    · simp [hlt]
    · have hne : ¬ i - k = 0 := by omega
      simp [hne]

/-- What a call does to a mask, with the shift count `k`. -/
def MaskCall.onMask (k : Int) : MaskCall → BitVec 8 → BitVec 8
  | .enable _, v => v &&& ~~~shiftedOne k
  | .disable _, v => v ||| shiftedOne k

/-- What a call does to one bit, which is its own or not. -/
def MaskCall.onBit (own : Bool) : MaskCall → Bool → Bool
  | .enable _, old => old && !own
  | .disable _, old => old || own

theorem getLsbD_onMask (call : MaskCall) {k : Int} (hk : 0 ≤ k) (hi : i < 8) (v : BitVec 8) :
    (call.onMask k v).getLsbD i = call.onBit (decide (k % 32 = i)) (v.getLsbD i) := by
  cases call with
  | enable n =>
    show (v &&& ~~~shiftedOne k).getLsbD i = _
    rw [BitVec.getLsbD_and, BitVec.getLsbD_not, decide_eq_true hi, Bool.true_and,
      getLsbD_shiftedOne hk hi]
    rfl
  | disable n =>
    show (v ||| shiftedOne k).getLsbD i = _
    rw [BitVec.getLsbD_or, getLsbD_shiftedOne hk hi]
    rfl

/-- A bit that is not its own is left as it is. -/
theorem MaskCall.onBit_false (call : MaskCall) (old : Bool) : call.onBit false old = old := by
  cases call with
  | enable n => exact Bool.and_true old
  | disable n => exact Bool.or_false old

/-! ### One call -/

/-- A number below the vectors has no input. -/
theorem linesOf_low (h : n < irqPicStart) : linesOf n = ∅ :=
  Set.eq_empty_of_forall_notMem fun _ hj => absurd hj.2.1 (not_le.mpr h)

/-- The inputs of the first controller. -/
theorem mem_linesOf_master (hlow : irqPicStart ≤ n) (hn : n < irqPicStart + 8) (hj : j < 16) :
    j ∈ linesOf n ↔ chipOf j = .master ∧ (n - irqPicStart) % 32 = (j % 8 : Nat) := by
  unfold linesOf chipOf
  simp only [Set.mem_ofPred_eq, if_pos hn]
  split
  · simp only [true_and]
    omega
  · simp only [reduceCtorEq, false_and, iff_false]
    omega

/-- The inputs of the second controller. -/
theorem mem_linesOf_slave (hn : irqPicStart + 8 ≤ n) (hj : j < 16) :
    j ∈ linesOf n ↔ chipOf j = .slave ∧ (n - irqPicStart - 8) % 32 = (j % 8 : Nat) := by
  unfold linesOf chipOf
  simp only [Set.mem_ofPred_eq, if_neg (not_lt.mpr hn)]
  split
  · simp only [reduceCtorEq, false_and, iff_false]
    omega
  · simp only [true_and]
    omega

/-- A call does nothing, when its number is below the vectors, or changes the mask of one
controller. -/
theorem maskStep_cases (p : Ports σ) (s : σ) (call : MaskCall) :
    (linesOf call.irqNum = ∅ ∧ maskStep p s call = s) ∨
    ∃ c k, 0 ≤ k ∧ maskStep p s call = changeMask p s c (call.onMask k) ∧
      ∀ j < 16, j ∈ linesOf call.irqNum ↔ chipOf j = c ∧ k % 32 = (j % 8 : Nat) := by
  have hsplit : maskStep p s call =
      if call.irqNum < irqPicStart then s
      else if call.irqNum - irqPicStart < 8 then
        changeMask p s .master (call.onMask (call.irqNum - irqPicStart))
      else changeMask p s .slave (call.onMask (call.irqNum - irqPicStart - 8)) := by
    cases call <;> rfl
  rw [hsplit]
  by_cases hlow : call.irqNum < irqPicStart
  · exact .inl ⟨linesOf_low hlow, if_pos hlow⟩
  · rw [if_neg hlow]
    by_cases hmaster : call.irqNum - irqPicStart < 8
    · rw [if_pos hmaster]
      exact .inr ⟨_, _, by omega, rfl, fun j hj =>
        mem_linesOf_master (by omega) (by omega) hj⟩
    · rw [if_neg hmaster]
      exact .inr ⟨_, _, by omega, rfl, fun j hj => mem_linesOf_slave (by omega) hj⟩

/-- The initialization of both controllers is over. -/
def Ready (r : Chip → Regs) : Prop := ∀ c, (r c).ready = true

/-- What a call leaves as it is: that the initialization is over, and the vectors. -/
theorem maskStep_keeps (h : Documented p regs) (hready : Ready (regs s)) (call : MaskCall) :
    Ready (regs (maskStep p s call)) ∧
      ∀ c, (regs (maskStep p s call) c).base = (regs s c).base := by
  rcases maskStep_cases p s call with ⟨-, he⟩ | ⟨c, k, -, he, -⟩
  · rw [he]
    exact ⟨hready, fun _ => rfl⟩
  · rw [he, h.changeMask (hready c)]
    refine ⟨fun c' => ?_, fun c' => ?_⟩ <;> by_cases hc : c' = c
    · subst hc
      rw [Function.update_self]
      exact hready c'
    · rw [Function.update_of_ne hc]
      exact hready c'
    · subst hc
      rw [Function.update_self]
    · rw [Function.update_of_ne hc]

/-- One bit of the masks behind a call. -/
theorem masked_maskStep (h : Documented p regs) (hready : Ready (regs s)) (call : MaskCall)
    (hj : j < 16) [Decidable (j ∈ linesOf call.irqNum)] :
    masked (regs (maskStep p s call)) j
      = call.onBit (decide (j ∈ linesOf call.irqNum)) (masked (regs s) j) := by
  unfold masked
  rcases maskStep_cases p s call with ⟨hnone, he⟩ | ⟨c, k, hk, he, hmem⟩
  · have hout : j ∉ linesOf call.irqNum := hnone ▸ Set.notMem_empty j
    rw [he, decide_eq_false hout, MaskCall.onBit_false]
  · rw [he, h.changeMask (hready c), decide_eq_decide.mpr (hmem j hj)]
    -- The bit lies in the mask that the call has changed, or in the other one.
    by_cases hc : chipOf j = c
    · subst hc
      have hown : (chipOf j = chipOf j ∧ k % 32 = (j % 8 : Nat)) ↔ k % 32 = (j % 8 : Nat) :=
        and_iff_right rfl
      rw [Function.update_self, getLsbD_onMask call hk (Nat.mod_lt j (by decide)),
        decide_eq_decide.mpr hown]
    · have hother : ¬ (chipOf j = c ∧ k % 32 = (j % 8 : Nat)) := fun hboth => hc hboth.1
      rw [Function.update_of_ne hc, decide_eq_false hother, MaskCall.onBit_false]

/-- A call adds the inputs of its number, or takes them out. -/
theorem enabledLines_maskStep (h : Documented p regs) (hready : Ready (regs s)) (call : MaskCall) :
    enabledLines (regs (maskStep p s call)) = maskSet (enabledLines (regs s)) call := by
  classical
  ext j
  cases call with
  | enable n =>
    show j < 16 ∧ _ ↔ (j < 16 ∧ _) ∨ j ∈ linesOf n
    by_cases hj : j < 16
    · rw [masked_maskStep h hready (.enable n) hj]
      show j < 16 ∧ (masked (regs s) j && !decide (j ∈ linesOf n)) = false ↔ _
      rw [Bool.and_eq_false_iff, Bool.not_eq_false', decide_eq_true_iff]
      simp [hj]
    · have hout : j ∉ linesOf n := fun hmem => hj hmem.1
      simp [hj, hout]
  | disable n =>
    show j < 16 ∧ _ ↔ (j < 16 ∧ _) ∧ j ∉ linesOf n
    rw [and_assoc]
    refine and_congr_right fun hj => ?_
    rw [masked_maskStep h hready (.disable n) hj]
    show (masked (regs s) j || decide (j ∈ linesOf n)) = false ↔ _
    simp

/-! ### `init_pic` -/

/-- Behind `init_pic` only the input between the controllers is enabled, and the vectors start at
`IRQ_PIC_START`. -/
theorem regs_initPic (h : Documented p regs) (s : σ) :
    regs (initPic p s) .master = ⟨true, 0xFB#8, 0x20#8⟩ ∧
      regs (initPic p s) .slave = ⟨true, 0xFF#8, 0x28#8⟩ := by
  -- The words for each of the controllers, and then the two masks.
  obtain ⟨s₁, hs₁⟩ : ∃ s₁, p.outs s
      [(0x20, 0x11#8), (0x21, 0x20#8), (0x21, 1#8 <<< 2), (0x21, 0x01#8)] = s₁ := ⟨_, rfl⟩
  obtain ⟨s₂, hs₂⟩ : ∃ s₂, p.outs s₁
      [(0xA0, 0x11#8), (0xA1, 0x28#8), (0xA1, 0x02#8), (0xA1, 0x01#8)] = s₂ := ⟨_, rfl⟩
  have hend : initPic p s = p.outb (p.outb s₂ pic0Imr 0xFB#8) pic1Imr 0xFF#8 := by
    rw [← hs₂, ← hs₁]
    rfl
  have hmaster₁ : regs s₁ .master = ⟨true, 0#8, 0x20#8⟩ := hs₁ ▸ h.init s .master _ _ _
  have hslave₂ : regs s₂ .slave = ⟨true, 0#8, 0x28#8⟩ := hs₂ ▸ h.init s₁ .slave _ _ _
  have hmaster₂ : regs s₂ .master = regs s₁ .master := by
    rw [← hs₂]
    exact h.outs_apart (c := .slave) (by decide) (by decide)
  rw [hmaster₁] at hmaster₂
  have hmaster₃ : regs (p.outb s₂ pic0Imr 0xFB#8) .master = ⟨true, 0xFB#8, 0x20#8⟩ := by
    have hwrite := h.write s₂ .master 0xFB#8 (by rw [hmaster₂])
    rwa [hmaster₂] at hwrite
  have hslave₃ : regs (p.outb s₂ pic0Imr 0xFB#8) .slave = ⟨true, 0#8, 0x28#8⟩ :=
    (h.apart s₂ .master .slave _ _ (by decide) (.inr rfl)).trans hslave₂
  rw [hend]
  refine ⟨(h.apart _ .slave .master _ _ (by decide) (.inr rfl)).trans hmaster₃, ?_⟩
  have hwrite := h.write _ .slave 0xFF#8 (by rw [hslave₃] : (regs (p.outb s₂ pic0Imr 0xFB#8)
    .slave).ready = true)
  rwa [hslave₃] at hwrite

/-- The input between the controllers is the only one that is enabled. -/
theorem enabledLines_initPic (h : Documented p regs) (s : σ) :
    enabledLines (regs (initPic p s)) = {2} := by
  obtain ⟨hmaster, hslave⟩ := regs_initPic h s
  ext j
  show j < 16 ∧ ((regs (initPic p s)) (chipOf j)).mask.getLsbD (j % 8) = false ↔ j = 2
  unfold chipOf
  constructor
  · rintro ⟨hj, hbit⟩
    split at hbit
    · have hall : ∀ j < 8, (0xFB#8).getLsbD (j % 8) = false → j = 2 := by decide
      rw [hmaster] at hbit
      exact hall j ‹j < 8› hbit
    · have hall : ∀ j < 16, (0xFF#8).getLsbD (j % 8) = false → j = 2 := by decide
      rw [hslave] at hbit
      exact hall j hj hbit
  · rintro rfl
    rw [if_pos (by decide), hmaster]
    decide

/-! ### Any number of calls -/

/-- Any calls behind the initialization. -/
theorem run_maskStep (h : Documented p regs) (hready : Ready (regs s)) (calls : List MaskCall) :
    enabledLines (regs (calls.foldl (maskStep p) s))
        = calls.foldl maskSet (enabledLines (regs s)) ∧
      ∀ c, (regs (calls.foldl (maskStep p) s) c).base = (regs s c).base := by
  induction calls generalizing s with
  | nil => exact ⟨rfl, fun _ => rfl⟩
  | cons call calls ih =>
    obtain ⟨hready', hbase⟩ := maskStep_keeps h hready call
    obtain ⟨hset, hrest⟩ := ih hready'
    rw [enabledLines_maskStep h hready call] at hset
    exact ⟨hset, fun c => (hrest c).trans (hbase c)⟩

theorem ready_initPic (h : Documented p regs) (s : σ) : Ready (regs (initPic p s)) := by
  obtain ⟨hmaster, hslave⟩ := regs_initPic h s
  intro c
  cases c with
  | master => exact congrArg Regs.ready hmaster
  | slave => exact congrArg Regs.ready hslave

/-- The vector of an input, behind `init_pic`. -/
theorem vectorOf_initPic (h : Documented p regs) (s : σ) (hj : j < 16) :
    vectorOf (regs (initPic p s)) j = 0x20 + j := by
  obtain ⟨hmaster, hslave⟩ := regs_initPic h s
  unfold vectorOf chipOf
  split
  · have hall : ∀ j < 8, (0x20#8 + BitVec.ofNat 8 (j % 8)).toNat = 0x20 + j := by decide
    rw [hmaster]
    exact hall j ‹j < 8›
  · have hall : ∀ j < 16, ¬ j < 8 → (0x28#8 + BitVec.ofNat 8 (j % 8)).toNat = 0x20 + j := by
      decide
    rw [hslave]
    exact hall j hj ‹¬ j < 8›

/-- The number of an input is its vector, and no other input has it. -/
theorem linesOf_vector (hj : j < 16) : linesOf ((0x20 + j : Nat) : Int) = {j} := by
  ext i
  unfold linesOf irqPicStart
  rw [Set.mem_singleton_iff, Set.mem_ofPred_eq]
  split <;> omega

/-- The masks are a set of inputs, with any devices that do what the data sheet says. Behind
`init_pic` and any calls of `irq_enable` and `irq_disable`, with any numbers, the enabled inputs are
the one between the controllers and those that the calls have added, without those that they have
taken out again. The vector that an input has then is the number for which the calls change it, and
no other input. -/
theorem irqMasks_run (h : Documented p regs) (s : σ) (calls : List MaskCall) :
    enabledLines (regs (calls.foldl (maskStep p) (initPic p s))) = calls.foldl maskSet {2} ∧
      ∀ j < 16, linesOf (vectorOf (regs (calls.foldl (maskStep p) (initPic p s))) j) = {j} := by
  obtain ⟨hset, hbase⟩ := run_maskStep h (ready_initPic h s) calls
  rw [enabledLines_initPic h s] at hset
  refine ⟨hset, fun j hj => ?_⟩
  have hvector : vectorOf (regs (calls.foldl (maskStep p) (initPic p s))) j = 0x20 + j := by
    refine Eq.trans ?_ (vectorOf_initPic h s hj)
    unfold vectorOf
    rw [hbase]
  rw [hvector]
  exact linesOf_vector hj

/-! ### Two chips as in the data sheet -/

/-- A chip: the words that its initialization still waits for, and its registers. -/
structure ChipState where
  left : Nat
  mask : BitVec 8
  base : BitVec 8

/-- A byte for the command port. -/
def ChipState.command (c : ChipState) (v : BitVec 8) : ChipState :=
  if v = 0x11#8 then { c with left := 3, mask := 0#8 } else c

/-- A byte for the data port. -/
def ChipState.data (c : ChipState) (v : BitVec 8) : ChipState :=
  match c.left with
  | 0 => { c with mask := v }
  | 3 => { c with left := 2, base := v &&& 0xF8#8 }
  | n + 1 => { c with left := n }

/-- The ports of the two chips. -/
def chipPorts : Ports (Chip → ChipState) where
  inb s port := (if port = 0x21 then (s .master).mask else (s .slave).mask, s)
  inw s _ := (0#16, s)
  outb s port v :=
    if port = 0x20 then Function.update s .master ((s .master).command v)
    else if port = 0x21 then Function.update s .master ((s .master).data v)
    else if port = 0xA0 then Function.update s .slave ((s .slave).command v)
    else if port = 0xA1 then Function.update s .slave ((s .slave).data v)
    else s

/-- Their registers. -/
def chipRegs (s : Chip → ChipState) (c : Chip) : Regs :=
  ⟨(s c).left == 0, (s c).mask, (s c).base⟩

theorem outb_chipPorts_data (s : Chip → ChipState) (c : Chip) (v : BitVec 8) :
    chipPorts.outb s c.data v = Function.update s c ((s c).data v) := by
  cases c <;> rfl

theorem outb_chipPorts_command (s : Chip → ChipState) (c : Chip) (v : BitVec 8) :
    chipPorts.outb s c.command v = Function.update s c ((s c).command v) := by
  cases c <;> rfl

theorem documented_chipPorts : Documented chipPorts chipRegs where
  init s c icw2 icw3 icw4 := by
    simp only [Ports.outs, outb_chipPorts_command, outb_chipPorts_data, chipRegs,
      Function.update_self]
    rfl
  write s c v hready := by
    have hzero : (s c).left = 0 := beq_iff_eq.mp hready
    rw [outb_chipPorts_data]
    simp [chipRegs, ChipState.data, hzero]
  read s c _ := by
    cases c <;> exact ⟨rfl, rfl⟩
  apart s c c' port v hne hport := by
    rcases hport with rfl | rfl
    · rw [outb_chipPorts_command]
      simp [chipRegs, Function.update_of_ne (Ne.symm hne)]
    · rw [outb_chipPorts_data]
      simp [chipRegs, Function.update_of_ne (Ne.symm hne)]

/-- The keyboard is enabled, the number 3 has no input, and the numbers `0x28` and `0x48` have the
same one. -/
theorem irqMasks_run_keyboard :
    enabledLines (chipRegs ([.enable 0x21, .enable 3, .enable 0x48, .disable 0x28].foldl
      (maskStep chipPorts) (initPic chipPorts fun _ => ⟨0, 0#8, 0#8⟩))) = {1, 2} ∧
      linesOf (vectorOf (chipRegs ([.enable 0x21].foldl
        (maskStep chipPorts) (initPic chipPorts fun _ => ⟨0, 0#8, 0#8⟩))) 1) = {1} := by
  refine ⟨(irqMasks_run documented_chipPorts _ _).1.trans ?_,
    (irqMasks_run documented_chipPorts _ [.enable 0x21]).2 1 (by decide)⟩
  ext j
  show (((j ∈ ({2} : Set Nat) ∨ j ∈ linesOf 0x21) ∨ j ∈ linesOf 3) ∨ j ∈ linesOf 0x48) ∧
    j ∉ linesOf 0x28 ↔ j ∈ ({1, 2} : Set Nat)
  simp [linesOf, irqPicStart]
  omega

end StartKernel
