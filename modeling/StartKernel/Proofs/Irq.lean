import StartKernel.Cpu.Irq
import StartKernel.Proofs.TssInit

/-!
# `StartKernel.Proofs.Irq`: the interrupted code goes on as if nothing had happened

* `idt_gate`: every vector of the table leads to the stub that is meant for it.
* `exception_transparent`: the C function gets the interrupted registers in its frame, and when it
  returns, all of them are as they were.
-/

set_option autoImplicit false
set_option linter.unusedSectionVars false

namespace StartKernel

open ByteMem
open Function (update)

variable {entry : Handler → Nat} {idt : Idt} {v w n : Nat} {hs : List (Int × Handler)}

/-! ### The interrupt table -/

/-- The gate to a handler. -/
def irqGate (handler : Nat) : GateDesc :=
  .set kernelSelectorCs handler (gatePPresent ||| gateDpl0 ||| gateTypeIdt)

@[simp] theorem irqGate_attr (handler : Nat) :
    (irqGate handler).attr = gatePPresent ||| gateDpl0 ||| gateTypeIdt := rfl

@[simp] theorem irqGate_selector (handler : Nat) :
    (irqGate handler).selector = kernelSelectorCs := rfl

/-- Calls of `irq_install` in a row. -/
def installAll (entry : Handler → Nat) (idt : Idt) (hs : List (Int × Handler)) : Idt :=
  hs.foldl (fun idt h => (irqInstall idt h.1 (entry h.2)).2) idt

/-- The handlers with the timer. -/
def allHandlers : List (Int × Handler) := irqHandlers ++ [(irq0Timer, .timer)]

/-- The handler that is meant for a vector. -/
def handlerOf (v : Nat) : Handler :=
  ((allHandlers.find? fun h => h.1 = (v : Int)).map Prod.snd).getD .unknown

theorem irqInstall_table (idt : Idt) {i : Int} (hi : i < ideTableNr) (handler : Nat) :
    (irqInstall idt i handler).2 = update idt i (irqGate handler) := by
  unfold irqInstall
  rw [if_neg (by omega)]
  rfl

theorem installAll_cons (entry : Handler → Nat) (idt : Idt) (h : Int × Handler)
    (hs : List (Int × Handler)) :
    installAll entry idt (h :: hs) = installAll entry (irqInstall idt h.1 (entry h.2)).2 hs := rfl

theorem installAll_other {i : Int} (hnr : ∀ h ∈ hs, h.1 < ideTableNr) (hi : i ∉ hs.map Prod.fst) :
    installAll entry idt hs i = idt i := by
  induction hs generalizing idt with
  | nil => rfl
  | cons h hs ih =>
    obtain ⟨hne, hrest⟩ : i ≠ h.1 ∧ i ∉ hs.map Prod.fst := by simpa using hi
    rw [installAll_cons, ih (fun h' hm => hnr h' (List.mem_cons_of_mem h hm)) hrest,
      irqInstall_table idt (hnr h List.mem_cons_self), Function.update_of_ne hne]

/-- The table after some calls with different numbers. -/
theorem installAll_apply {i : Int} (hnr : ∀ h ∈ hs, h.1 < ideTableNr)
    (hnd : (hs.map Prod.fst).Nodup) :
    installAll entry idt hs i = match hs.find? fun h => h.1 = i with
      | some h => irqGate (entry h.2)
      | none => idt i := by
  induction hs generalizing idt with
  | nil => rfl
  | cons h hs ih =>
    obtain ⟨hfirst, hnd⟩ := List.nodup_cons.mp (List.map_cons ▸ hnd)
    have hrest : ∀ h' ∈ hs, h'.1 < ideTableNr := fun h' hm => hnr h' (List.mem_cons_of_mem h hm)
    rw [installAll_cons, irqInstall_table idt (hnr h List.mem_cons_self)]
    by_cases he : h.1 = i
    · rw [List.find?_cons_of_pos (by simpa using he)]
      rw [installAll_other hrest (he ▸ hfirst), he, Function.update_self]
    · rw [List.find?_cons_of_neg (by simpa using he)]
      rw [ih hrest hnd, Function.update_of_ne (Ne.symm he)]

theorem setUnknown_apply (unknown : Nat) (i : Nat) (n : Nat) :
    setUnknown unknown idt i n v = if i ≤ v ∧ v < i + n then irqGate unknown else idt v := by
  induction n generalizing idt i with
  | zero => rw [setUnknown, if_neg (by omega)]
  | succ n ih =>
    rw [setUnknown, ih]
    by_cases hv : v = i
    · rw [if_neg (by omega), if_pos (by omega), hv, Function.update_self]
      rfl
    · rw [Function.update_of_ne (by omega)]
      congr 1
      simp only [eq_iff_iff]
      omega

/-- Every vector leads to its handler. -/
theorem idt_gate (entry : Handler → Nat) (idt : Idt) (hv : v < ideTableNr) :
    timeInit entry (irqInit entry idt) v = irqGate (entry (handlerOf v)) := by
  have hall : timeInit entry (irqInit entry idt)
      = installAll entry (setUnknown (entry .unknown) idt 0 ideTableNr) allHandlers := by
    unfold installAll allHandlers
    rw [List.foldl_append]
    rfl
  rw [hall, installAll_apply (by decide) (by decide), setUnknown_apply, if_pos (by omega)]
  unfold handlerOf
  cases allHandlers.find? fun h => h.1 = (v : Int) <;> rfl

/-- The stubs push an error code where the processor does not. -/
theorem handlerOf_withErrCode : ∀ v < ideTableNr, (handlerOf v).withErrCode = hasErrorCode v := by
  decide +kernel

theorem stubAt_entry (hinj : Function.Injective entry) (h : Handler) :
    stubAt entry (entry h) = some h := by
  have hpred : (fun h' => decide (entry h' = entry h)) = fun h' => decide (h' = h) :=
    funext fun h' => decide_eq_decide.mpr hinj.eq_iff
  unfold stubAt
  rw [hpred]
  cases h <;> rfl

theorem GateDesc.offset_set {offset : Nat} (h : offset < 2 ^ 32) (selector attr : Nat) :
    (GateDesc.set selector offset attr).offset = offset := by
  show (offset &&& 0xFFFF) + 2 ^ 16 * ((offset >>> 16) &&& 0xFFFF) = offset
  rw [show (0xFFFF : Nat) = 2 ^ 16 - 1 by rfl, Nat.and_two_pow_sub_one_eq_mod,
    Nat.and_two_pow_sub_one_eq_mod, Nat.shiftRight_eq_div_pow]
  omega

/-! ### The stack -/

variable {p q q' : Proc} {m : Mem} {top esp : Nat} {ws : List Nat} {F : Features} {gdt : Gdt}

/-- The words `ws` have been pushed onto the stack that ends at `top`, the last one first. The other
bytes are those of `m`. -/
structure Pushed (m : Mem) (top : Nat) (ws : List Nat) (q : Proc) : Prop where
  esp : q.regs.esp + 4 * ws.length = top
  words : loadWords q.mem q.regs.esp ws.length = ws
  outside : ∀ x, x < q.regs.esp ∨ top ≤ x → q.mem x = m x

theorem Pushed.nil (p : Proc) : Pushed p.mem p.regs.esp [] p := ⟨rfl, rfl, fun _ _ => rfl⟩

/-- There is room for one more word. -/
theorem Pushed.push_esp (h : Pushed m top ws q) (hroom : 4 * (ws.length + 1) ≤ top)
    (htop : top < 2 ^ 32) : toU32 ((q.regs.esp : Int) - 4) = q.regs.esp - 4 := by
  have hesp := h.esp
  rw [toU32_of_fits (by omega) (by omega)]
  omega

theorem Pushed.push (h : Pushed m top ws q) (hroom : 4 * (ws.length + 1) ≤ top)
    (htop : top < 2 ^ 32) (hw : w < 2 ^ 32) : Pushed m top (w :: ws) (q.push w) := by
  have hesp := h.esp
  have hnew : (q.push w).regs.esp = q.regs.esp - 4 := h.push_esp hroom htop
  have hmem : (q.push w).mem = store32 q.mem (q.regs.esp - 4) w := by
    unfold Proc.push
    rw [h.push_esp hroom htop]
  refine ⟨?_, ?_, fun x hx => ?_⟩
  · rw [hnew, List.length_cons]
    omega
  · rw [hnew, hmem, List.length_cons, loadWords, load32_store32 _ _ hw,
      show q.regs.esp - 4 + 4 = q.regs.esp by omega,
      loadWords_congr fun x h₁ h₂ => store32_apart _ _ (by omega), h.words]
  · rw [hnew] at hx
    rw [hmem, store32_apart _ _ (by omega)]
    exact h.outside x (by omega)

/-- A segment register is the lower half of its word. -/
theorem Pushed.pushSeg (F : Features) (h : Pushed m top ws q) (hroom : 4 * (ws.length + 1) ≤ top)
    (htop : top < 2 ^ 32) {sel : Nat} (hsel : sel < 2 ^ 16) :
    ∃ w, w % 2 ^ 16 = sel ∧ Pushed m top (w :: ws) (q.pushSeg F sel) := by
  have hold := load32_lt q.mem (toU32 ((q.regs.esp : Int) - 4))
  refine ⟨_, ?_, h.push hroom htop ?_⟩
  · split <;> omega
  · split <;> omega

/-- The words `ws` lie on the stack. -/
structure OnStack (m : Mem) (esp : Nat) (ws : List Nat) : Prop where
  fits : esp + 4 * ws.length < 2 ^ 32
  words : loadWords m esp ws.length = ws

theorem Pushed.onStack (h : Pushed m top ws q) (htop : top < 2 ^ 32) :
    OnStack q.mem q.regs.esp ws := ⟨h.esp ▸ htop, h.words⟩

theorem OnStack.cons (h : OnStack m esp (w :: ws)) :
    load32 m esp = w ∧ (esp + 4) % 2 ^ 32 = esp + 4 ∧ OnStack m (esp + 4) ws := by
  have hfits := h.fits
  rw [List.length_cons] at hfits
  obtain ⟨hfirst, hrest⟩ := List.cons.inj h.words
  exact ⟨hfirst, by omega, by omega, hrest⟩

/-- The words behind the first ones. -/
theorem OnStack.drop {xs : List Nat} (h : OnStack m esp (xs ++ ws)) :
    OnStack m (esp + 4 * xs.length) ws := by
  induction xs generalizing esp with
  | nil => exact h
  | cons x xs ih =>
    obtain ⟨-, -, hrest⟩ := h.cons
    have hws := ih hrest
    rw [List.length_cons]
    rwa [show esp + 4 * (xs.length + 1) = esp + 4 + 4 * xs.length by omega]

/-- One word less. -/
theorem OnStack.pop (h : OnStack q.mem q.regs.esp (w :: ws)) :
    q.pop = (w, { q with regs := { q.regs with esp := q.regs.esp + 4 } }) := by
  obtain ⟨hw, hesp, -⟩ := h.cons
  unfold Proc.pop
  rw [hw, hesp]

/-! ### The way in -/

variable {err ret : Nat} {h : Handler} {doHandler : Handler → Proc → Option Proc}

/-- The end of the stack that the processor takes: the one of the interrupted code, when that is the
kernel, and the one in the TSS otherwise. -/
def kernelTop (p : Proc) : Nat :=
  if p.regs.cs % 4 = 0 then p.regs.esp else load32 p.mem (p.trBase + 1 * 4)

/-- Its segment. -/
def kernelSs (p : Proc) : Nat :=
  if p.regs.cs % 4 = 0 then p.regs.ss else load32 p.mem (p.trBase + 2 * 4) % 2 ^ 16

/-- There is room on the stack. -/
structure StackOk (gdt : Gdt) (p : Proc) : Prop where
  room : 4 * 21 ≤ kernelTop p
  fits : kernelTop p < 2 ^ 32
  ss0 : p.regs.cs % 4 = 0 ∨ StackSegOk gdt 0 (load32 p.mem (p.trBase + 2 * 4) % 2 ^ 16)

/-- The words that only an interrupt from a lower privilege has. -/
def lowerWords (p : Proc) : List Nat :=
  if p.regs.cs % 4 = 0 then [] else [p.regs.esp, p.regs.ss]

theorem lowerWords_length (p : Proc) : (lowerWords p).length ≤ 2 := by
  unfold lowerWords
  split <;> simp

/-- The error code is a word of the frame anyway. -/
def errorWord (v err : Nat) : Nat := if hasErrorCode v then err else 0

/-- What the processor does in front of the stub. -/
theorem deliver_spec (hgate : idt v = irqGate (entry h)) (hentry : entry h < 2 ^ 32)
    (hv : v < ideTableNr) (hcode : CodeSegOk gdt kernelSelectorCs) (hstack : StackOk gdt p)
    (hfits : ∀ w ∈ p.regs.words, w < 2 ^ 32) (herr : err < 2 ^ 32) :
    ∃ q, p.deliver gdt idt v err = some q ∧ q.trBase = p.trBase ∧
      Pushed p.mem (kernelTop p) ((if hasErrorCode v then [err] else []) ++
        p.regs.eip :: p.regs.cs :: p.regs.eflags :: lowerWords p) q ∧
      q.regs = { p.regs with
        eip := entry h
        cs := kernelSelectorCs
        eflags := p.regs.eflags &&& (2 ^ 32 - 1 - handlerFlags)
        esp := q.regs.esp
        ss := kernelSs p } := by
  have hroom := hstack.room
  have htop := hstack.fits
  have hlow := lowerWords_length p
  have hcond : v < ideTableNr ∧
      (idt v).attr &&& (gatePPresent ||| 0x1F00) = gatePPresent ||| gateTypeIdt ∧
      CodeSegOk gdt (idt v).selector ∧ (idt v).selector % 4 = 0 ∧
      (p.regs.cs % 4 = 0 ∨ StackSegOk gdt 0 (load32 p.mem (p.trBase + 2 * 4) % 2 ^ 16)) := by
    rw [hgate, irqGate_attr, irqGate_selector]
    exact ⟨hv, by decide, hcode, by decide, hstack.ss0⟩
  have hoffset : (idt v).offset = entry h := by
    rw [hgate]
    exact GateDesc.offset_set hentry _ _
  have hselector : (idt v).selector = kernelSelectorCs := by rw [hgate, irqGate_selector]
  obtain ⟨p₀, hp₀, htr₀, hpush₀, hregs₀⟩ : ∃ p₀, (if p.regs.cs % 4 = 0 then p
      else (({ p with regs := { p.regs with
        esp := load32 p.mem (p.trBase + 1 * 4)
        ss := load32 p.mem (p.trBase + 2 * 4) % 2 ^ 16 } } : Proc).push p.regs.ss).push p.regs.esp)
        = p₀ ∧ p₀.trBase = p.trBase ∧ Pushed p.mem (kernelTop p) (lowerWords p) p₀ ∧
      p₀.regs = { p.regs with esp := p₀.regs.esp, ss := kernelSs p } := by
    unfold kernelTop kernelSs lowerWords at *
    by_cases hcs : p.regs.cs % 4 = 0
    · simp only [if_pos hcs] at *
      exact ⟨p, rfl, rfl, .nil p, rfl⟩
    · simp only [if_neg hcs] at *
      refine ⟨_, rfl, rfl, ?_, rfl⟩
      have hbase := Pushed.nil ({ p with regs := { p.regs with
        esp := load32 p.mem (p.trBase + 1 * 4)
        ss := load32 p.mem (p.trBase + 2 * 4) % 2 ^ 16 } } : Proc)
      refine Pushed.push (Pushed.push hbase ?_ htop ?_) ?_ htop ?_
      · simp only [List.length_nil]
        omega
      · exact hfits _ (by simp [Regs.words])
      · simp only [List.length_cons, List.length_nil]
        omega
      · exact hfits _ (by simp [Regs.words])
  have heflags := hpush₀.push (w := p.regs.eflags) (by omega) htop (hfits _ (by simp [Regs.words]))
  have hcs := heflags.push (w := p.regs.cs) (by simp only [List.length_cons]; omega) htop
    (hfits _ (by simp [Regs.words]))
  have hpush := hcs.push (w := p.regs.eip) (by simp only [List.length_cons]; omega) htop
    (hfits _ (by simp [Regs.words]))
  refine ⟨_, if_pos hcond, ?_⟩
  simp only [hp₀, hoffset, hselector]
  cases hasErrorCode v with
  | false =>
    refine ⟨htr₀, ⟨hpush.esp, hpush.words, hpush.outside⟩, ?_⟩
    simp only [Bool.false_eq_true, if_false, Proc.push]
    rw [hregs₀]
  | true =>
    have hpush' := hpush.push (w := err) (by simp only [List.length_cons]; omega) htop herr
    refine ⟨htr₀, ⟨hpush'.esp, hpush'.words, hpush'.outside⟩, ?_⟩
    simp only [if_true, Proc.push]
    rw [hregs₀]

/-- A push changes no segment register. -/
@[simp] theorem push_seg (q : Proc) (w : Nat) (sr : SegReg) :
    (q.push w).regs.seg sr = q.regs.seg sr := by
  cases sr <;> rfl

@[simp] theorem pushSeg_seg (F : Features) (q : Proc) (sel : Nat) (sr : SegReg) :
    (q.pushSeg F sel).regs.seg sr = q.regs.seg sr := push_seg q _ sr

@[simp] theorem pusha_seg (q : Proc) (sr : SegReg) : q.pusha.regs.seg sr = q.regs.seg sr := by
  simp only [Proc.pusha, push_seg]

/-- The stub up to its call. -/
def atCall (F : Features) (ret : Nat) (h : Handler) (q : Proc) : Proc :=
  let q := if h.withErrCode then q else q.push 0
  let q := (q.push h.num).pusha
  let q := q.pushSeg F (q.regs.seg .ds)
  let q := q.pushSeg F (q.regs.seg .es)
  let q := q.pushSeg F (q.regs.seg .fs)
  let q := q.pushSeg F (q.regs.seg .gs)
  (q.push q.regs.esp).push ret

/-- Of the registers, only `esp` may differ. -/
def OnlyEsp (q q' : Proc) : Prop :=
  q'.regs = { q.regs with esp := q'.regs.esp } ∧ q'.trBase = q.trBase

theorem OnlyEsp.push (h : OnlyEsp q q') (w : Nat) : OnlyEsp q (q'.push w) := by
  refine ⟨?_, h.2⟩
  show ({ q'.regs with esp := _ } : Regs) = _
  rw [h.1]
  rfl

theorem OnlyEsp.pusha (h : OnlyEsp q q') : OnlyEsp q q'.pusha :=
  (((((((h.push _).push _).push _).push _).push _).push _).push _).push _

theorem atCall_regs (F : Features) (ret : Nat) (h : Handler) (q : Proc) :
    OnlyEsp q (atCall F ret h q) := by
  have hfirst : OnlyEsp q (if h.withErrCode then q else q.push 0) := by
    cases h.withErrCode
    · exact OnlyEsp.push ⟨rfl, rfl⟩ 0
    · exact ⟨rfl, rfl⟩
  exact ((((((hfirst.push _).pusha.push _).push _).push _).push _).push _).push _

/-- The stub behind its call. -/
def stubRest : List Instr :=
  [.addEsp (1 * 4), .popSeg .gs, .popSeg .fs, .popSeg .es, .popSeg .ds, .popa, .addEsp (2 * 4),
    .iret]

theorem execAll_stub (gdt : Gdt) (F : Features) (ret : Nat) (call : Proc → Option Proc)
    (h : Handler) (q : Proc) : execAll gdt F ret call q (exceptionHandler h)
      = (call (atCall F ret h q)).bind fun q' => execAll gdt F ret call q' stubRest := by
  unfold exceptionHandler atCall
  cases h.withErrCode <;> rfl

theorem Pushed.pusha (hpush : Pushed m top ws q) (hroom : 4 * (ws.length + 8) ≤ top)
    (htop : top < 2 ^ 32) (hfits : ∀ w ∈ q.regs.words, w < 2 ^ 32) :
    Pushed m top (q.regs.edi :: q.regs.esi :: q.regs.ebp :: q.regs.esp :: q.regs.ebx ::
      q.regs.edx :: q.regs.ecx :: q.regs.eax :: ws) q.pusha := by
  have h₁ := hpush.push (w := q.regs.eax) (by omega) htop (hfits _ (by simp [Regs.words]))
  have h₂ := h₁.push (w := q.regs.ecx) (by simp only [List.length_cons]; omega) htop
    (hfits _ (by simp [Regs.words]))
  have h₃ := h₂.push (w := q.regs.edx) (by simp only [List.length_cons]; omega) htop
    (hfits _ (by simp [Regs.words]))
  have h₄ := h₃.push (w := q.regs.ebx) (by simp only [List.length_cons]; omega) htop
    (hfits _ (by simp [Regs.words]))
  have h₅ := h₄.push (w := q.regs.esp) (by simp only [List.length_cons]; omega) htop
    (hfits _ (by simp [Regs.words]))
  have h₆ := h₅.push (w := q.regs.ebp) (by simp only [List.length_cons]; omega) htop
    (hfits _ (by simp [Regs.words]))
  have h₇ := h₆.push (w := q.regs.esi) (by simp only [List.length_cons]; omega) htop
    (hfits _ (by simp [Regs.words]))
  exact h₇.push (by simp only [List.length_cons]; omega) htop (hfits _ (by simp [Regs.words]))

/-- The selectors have 16 bits. -/
def SelsFit (r : Regs) : Prop := ∀ sr, r.seg sr < 2 ^ 16

/-- The words of the segment registers. -/
def segWords (ds es fs gs : Nat) : SegReg → Nat
  | .ds => ds
  | .es => es
  | .fs => fs
  | .gs => gs

/-- The words of a frame from `gs` to the error code, with the segment registers `segs`. -/
def frameWords (segs : SegReg → Nat) (r : Regs) (esp num errorCode : Nat) : List Nat :=
  [segs .gs, segs .fs, segs .es, segs .ds, r.edi, r.esi, r.ebp, esp, r.ebx, r.edx, r.ecx, r.eax,
    num, errorCode]

theorem words_esp {r : Regs} (hfits : ∀ w ∈ r.words, w < 2 ^ 32) (hesp : esp < 2 ^ 32) :
    ∀ w ∈ ({ r with esp } : Regs).words, w < 2 ^ 32 := by
  simp only [Regs.words, List.forall_mem_cons] at hfits ⊢
  tauto

/-- The stub saves the registers and pushes the address of the frame. -/
theorem atCall_spec (F : Features) (h : Handler) (hret : ret < 2 ^ 32)
    (hpush : Pushed m top ((if h.withErrCode then [err] else []) ++ ws) q) (hroom : 4 * 21 ≤ top)
    (hws : ws.length ≤ 5) (htop : top < 2 ^ 32) (hfits : ∀ w ∈ q.regs.words, w < 2 ^ 32)
    (hsel : SelsFit q.regs) :
    ∃ segs a, (∀ sr, segs sr % 2 ^ 16 = q.regs.seg sr) ∧ a + 4 * (ws.length + 14) = top ∧
      Pushed m top (ret :: a :: frameWords segs q.regs (a + 4 * 12) h.num
        (if h.withErrCode then err else 0) ++ ws) (atCall F ret h q) := by
  obtain ⟨q₁, hq₁, hregs₁, h₁⟩ : ∃ q₁, (if h.withErrCode then q else q.push 0) = q₁ ∧
      q₁.regs = { q.regs with esp := q₁.regs.esp } ∧
      Pushed m top ((if h.withErrCode then err else 0) :: ws) q₁ := by
    cases hw : h.withErrCode with
    | false =>
      have hpush : Pushed m top ws q := by simpa [hw] using hpush
      exact ⟨_, rfl, rfl, hpush.push (w := 0) (by omega) htop (by decide)⟩
    | true =>
      have hpush : Pushed m top (err :: ws) q := by simpa [hw] using hpush
      exact ⟨q, rfl, rfl, hpush⟩
  have hsel₁ : ∀ sr, q₁.regs.seg sr = q.regs.seg sr := by
    intro sr
    rw [hregs₁]
    cases sr <;> rfl
  have hself : SelsFit q₁.regs := fun sr => by
    rw [hsel₁ sr]
    exact hsel sr
  have h₂ := h₁.push (w := h.num) (by simp only [List.length_cons]; omega) htop (toU32_lt _)
  have hesp₂ := h₂.esp
  simp only [List.length_cons] at hesp₂
  have hregs₂ : (q₁.push h.num).regs = { q.regs with esp := (q₁.push h.num).regs.esp } := by
    show ({ q₁.regs with esp := (q₁.push h.num).regs.esp } : Regs) = _
    rw [hregs₁]
  have h₃ := h₂.pusha (by simp only [List.length_cons]; omega) htop (by
    rw [hregs₂]
    exact words_esp hfits (by omega))
  -- The segment registers, from `ds` to `gs`.
  obtain ⟨ds, hds, h₄⟩ := h₃.pushSeg F (by simp only [List.length_cons]; omega) htop
    (hself .ds)
  obtain ⟨es, hes, h₅⟩ := h₄.pushSeg F (by simp only [List.length_cons]; omega) htop
    (hself .es)
  obtain ⟨fs, hfs, h₆⟩ := h₅.pushSeg F (by simp only [List.length_cons]; omega) htop
    (hself .fs)
  obtain ⟨gs, hgs, h₇⟩ := h₆.pushSeg F (by simp only [List.length_cons]; omega) htop
    (hself .gs)
  obtain ⟨q₇, hq₇⟩ : ∃ q₇, ((((q₁.push h.num).pusha.pushSeg F (q₁.regs.seg .ds)).pushSeg F
    (q₁.regs.seg .es)).pushSeg F (q₁.regs.seg .fs)).pushSeg F (q₁.regs.seg .gs) = q₇ := ⟨_, rfl⟩
  rw [hq₇] at h₇
  have hesp₇ := h₇.esp
  simp only [List.length_cons] at hesp₇
  have h₈ := h₇.push (w := q₇.regs.esp) (by simp only [List.length_cons]; omega) htop (by omega)
  have h₉ := h₈.push (w := ret) (by simp only [List.length_cons]; omega) htop hret
  refine ⟨segWords ds es fs gs, q₇.regs.esp, fun sr => ?_, ?_, ?_⟩
  · rw [← hsel₁]
    cases sr
    · exact hds
    · exact hes
    · exact hfs
    · exact hgs
  · omega
  · have hcall : atCall F ret h q = (q₇.push q₇.regs.esp).push ret := by
      simp only [atCall, hq₁, push_seg, pushSeg_seg, pusha_seg, hq₇]
    have hsp : (q₁.push h.num).regs.esp = q₇.regs.esp + 4 * 12 := by omega
    have hregs : (q₁.push h.num).regs = { q.regs with esp := q₇.regs.esp + 4 * 12 } := by
      rw [hregs₂, hsp]
    rw [hregs] at h₉
    rw [hcall]
    exact h₉

/-! ### The way back -/

variable {r : Regs} {segs : SegReg → Nat} {num e : Nat} {call : Proc → Option Proc}

/-- `add $n, %esp` keeps NT. -/
theorem addEsp_nt (F : Features) (q : Proc) (n : Nat) :
    (q.addEsp F n).regs.eflags &&& eflagsNt = q.regs.eflags &&& eflagsNt := by
  show (q.regs.eflags &&& (2 ^ 32 - 1 - arithFlags) ||| F.addFlags q.regs.esp n &&& arithFlags) &&&
    eflagsNt = _
  rw [Nat.and_or_distrib_right, Nat.and_assoc, Nat.and_assoc,
    show arithFlags &&& eflagsNt = 0 by decide, Nat.and_zero, Nat.or_zero]
  rfl

/-- `pop` of a segment register that can be loaded. -/
theorem execAll_popSeg {sr : SegReg} {is : List Instr} (h : OnStack q.mem q.regs.esp (w :: ws))
    (hseg : DataSegOk gdt 0 (w % 2 ^ 16)) :
    execAll gdt F ret call q (.popSeg sr :: is) = execAll gdt F ret call { q with
      regs := ({ q.regs with esp := q.regs.esp + 4 } : Regs).setSeg (w % 2 ^ 16) sr } is := by
  have hexec : Instr.exec gdt F ret call q (.popSeg sr) = some { q with
      regs := ({ q.regs with esp := q.regs.esp + 4 } : Regs).setSeg (w % 2 ^ 16) sr } := by
    unfold Instr.exec
    rw [h.pop]
    exact if_pos hseg
  rw [execAll, hexec, Option.bind_some]

/-- `popa`. -/
theorem popa_spec {edi esi ebp skip ebx edx ecx eax : Nat}
    (h : OnStack q.mem q.regs.esp (edi :: esi :: ebp :: skip :: ebx :: edx :: ecx :: eax :: ws)) :
    q.popa = { q with regs := { q.regs with
      edi, esi, ebp, ebx, edx, ecx, eax
      esp := q.regs.esp + 4 * 8 } } := by
  obtain ⟨l₁, m₁, h₁⟩ := h.cons
  obtain ⟨l₂, m₂, h₂⟩ := h₁.cons
  obtain ⟨l₃, m₃, h₃⟩ := h₂.cons
  obtain ⟨l₄, m₄, h₄⟩ := h₃.cons
  obtain ⟨l₅, m₅, h₅⟩ := h₄.cons
  obtain ⟨l₆, m₆, h₆⟩ := h₅.cons
  obtain ⟨l₇, m₇, h₇⟩ := h₆.cons
  obtain ⟨l₈, m₈, -⟩ := h₇.cons
  simp only [Proc.popa, Proc.pop, l₁, l₂, l₃, l₅, l₆, l₇, l₈, m₁, m₂, m₃, m₄, m₅, m₆, m₇, m₈]

/-- `iret` to the interrupted code. -/
theorem iret_spec (h : OnStack q.mem q.regs.esp (r.eip :: r.cs :: r.eflags ::
      if r.cs % 4 = 0 then [] else [r.esp, r.ss])) (hnt : q.regs.eflags &&& eflagsNt = 0)
    (hvm : r.eflags &&& eflagsVm = 0) (hsegs : SegsOk gdt r) (hcs : r.cs < 2 ^ 16)
    (hss : r.ss < 2 ^ 16) (hsel : ∀ sr, q.regs.seg sr = r.seg sr)
    (hkernel : r.cs % 4 = 0 → q.regs.esp + 4 * 3 = r.esp ∧ q.regs.ss = r.ss) :
    q.iret gdt = some { q with regs := { q.regs with
      eip := r.eip
      cs := r.cs
      eflags := r.eflags
      esp := r.esp
      ss := r.ss } } := by
  obtain ⟨l₁, m₁, h₁⟩ := h.cons
  obtain ⟨l₂, m₂, h₂⟩ := h₁.cons
  obtain ⟨l₃, m₃, h₃⟩ := h₂.cons
  unfold Proc.iret
  rw [if_neg (by simpa using hnt)]
  simp only [Proc.pop, l₁, l₂, l₃, m₁, m₂, m₃, Nat.mod_eq_of_lt hcs]
  rw [if_neg (by simpa using hvm)]
  by_cases hmode : r.cs % 4 = 0
  · obtain ⟨hesp, hss'⟩ := hkernel hmode
    rw [if_pos hmode, if_pos hsegs.cs, ← hesp, ← hss']
  · rw [if_neg hmode] at h₃ ⊢
    obtain ⟨l₄, m₄, h₄⟩ := h₃.cons
    obtain ⟨l₅, -, -⟩ := h₄.cons
    have hdata : ∀ sr, DataSegOk gdt (r.cs % 4) (q.regs.seg sr) := by
      intro sr
      rw [hsel]
      cases sr <;> exact hsegs.data _ (by simp [Regs.seg])
    simp only [l₄, l₅, m₄, Nat.mod_eq_of_lt hss]
    have hds : DataSegOk gdt (r.cs % 4) q.regs.ds := hdata .ds
    have hes : DataSegOk gdt (r.cs % 4) q.regs.es := hdata .es
    have hfs : DataSegOk gdt (r.cs % 4) q.regs.fs := hdata .fs
    have hgs : DataSegOk gdt (r.cs % 4) q.regs.gs := hdata .gs
    rw [if_pos ⟨hsegs.cs, hsegs.ss⟩, if_pos hds, if_pos hes, if_pos hfs, if_pos hgs]

/-- A segment that the interrupted code may use can be loaded in the kernel too. -/
theorem SegsOk.kernel (h : SegsOk gdt r) (sr : SegReg) : DataSegOk gdt 0 (r.seg sr) := by
  have hdata : DataSegOk gdt (r.cs % 4) (r.seg sr) := by
    cases sr <;> exact h.data _ (by simp [Regs.seg])
  rcases hdata with hnull | ⟨hin, hattr, -, hrpl⟩
  · exact Or.inl hnull
  · exact Or.inr ⟨hin, hattr, Nat.zero_le _, hrpl⟩

/-- The stub gives back all registers. -/
theorem stubRest_spec (h : OnStack q.mem (q.regs.esp + 4) (frameWords segs r e num err ++
      r.eip :: r.cs :: r.eflags :: if r.cs % 4 = 0 then [] else [r.esp, r.ss]))
    (hesp : q.regs.esp + 4 < 2 ^ 32) (hnt : q.regs.eflags &&& eflagsNt = 0)
    (hvm : r.eflags &&& eflagsVm = 0) (hsegs : SegsOk gdt r) (hcs : r.cs < 2 ^ 16)
    (hss : r.ss < 2 ^ 16) (hsel : ∀ sr, segs sr % 2 ^ 16 = r.seg sr)
    (hkernel : r.cs % 4 = 0 → q.regs.esp + 4 * 18 = r.esp ∧ q.regs.ss = r.ss) :
    execAll gdt F ret call q stubRest = some { q with regs := r } := by
  have hdata : ∀ sr, DataSegOk gdt 0 (segs sr % 2 ^ 16) := by
    intro sr
    rw [hsel]
    exact hsegs.kernel sr
  have hadd : (q.regs.esp + 1 * 4) % 2 ^ 32 = q.regs.esp + 4 := by omega
  obtain ⟨q₁, hq₁, hmem₁, htr₁, hesp₁, hss₁, hnt₁⟩ : ∃ q₁, q.addEsp F (1 * 4) = q₁ ∧
      q₁.mem = q.mem ∧ q₁.trBase = q.trBase ∧ q₁.regs.esp = q.regs.esp + 4 ∧
      q₁.regs.ss = q.regs.ss ∧ q₁.regs.eflags &&& eflagsNt = 0 :=
    ⟨_, rfl, rfl, rfl, hadd, rfl, (addEsp_nt F q _).trans hnt⟩
  rw [← hmem₁, ← hesp₁] at h
  have hlast := h.drop
  simp only [frameWords, List.cons_append, List.nil_append] at h
  obtain ⟨-, -, h₁⟩ := h.cons
  obtain ⟨-, -, h₂⟩ := h₁.cons
  obtain ⟨-, -, h₃⟩ := h₂.cons
  obtain ⟨-, -, h₄⟩ := h₃.cons
  have hstart : execAll gdt F ret call q stubRest = execAll gdt F ret call q₁ stubRest.tail := by
    rw [← hq₁]
    rfl
  rw [hstart]
  refine (execAll_popSeg h (hdata .gs)).trans ?_
  refine (execAll_popSeg h₁ (hdata .fs)).trans ?_
  refine (execAll_popSeg h₂ (hdata .es)).trans ?_
  refine (execAll_popSeg h₃ (hdata .ds)).trans ?_
  simp only [Regs.setSeg, hsel]
  -- The general registers, and the number with the error code.
  have hfits := h₄.fits
  simp only [List.length_cons] at hfits
  obtain ⟨q₂, hq₂, hmem₂, htr₂, hregs₂, hnt₂⟩ : ∃ q₂, (Proc.popa { q₁ with regs := { q₁.regs with
      gs := r.seg .gs
      fs := r.seg .fs
      es := r.seg .es
      ds := r.seg .ds
      esp := q₁.regs.esp + 4 + 4 + 4 + 4 } }).addEsp F (2 * 4) = q₂ ∧ q₂.mem = q₁.mem ∧
      q₂.trBase = q₁.trBase ∧ q₂.regs = { r with
        eip := q₂.regs.eip
        cs := q₂.regs.cs
        eflags := q₂.regs.eflags
        esp := q₁.regs.esp + 4 * 14
        ss := q₁.regs.ss } ∧ q₂.regs.eflags &&& eflagsNt = 0 := by
    rw [popa_spec h₄]
    refine ⟨_, rfl, rfl, rfl, ?_, (addEsp_nt F _ _).trans hnt₁⟩
    simp only [Proc.addEsp]
    rw [Nat.mod_eq_of_lt (by omega)]
    rfl
  have hend : execAll gdt F ret call { q₁ with regs := { q₁.regs with
      gs := r.seg .gs
      fs := r.seg .fs
      es := r.seg .es
      ds := r.seg .ds
      esp := q₁.regs.esp + 4 + 4 + 4 + 4 } } [.popa, .addEsp (2 * 4), .iret] = q₂.iret gdt := by
    rw [← hq₂]
    exact Option.bind_fun_some _
  refine hend.trans ?_
  have hesp₂ : q₂.regs.esp = q₁.regs.esp + 4 * 14 := by rw [hregs₂]
  have hss₂ : q₂.regs.ss = q₁.regs.ss := by rw [hregs₂]
  have hsel₂ : ∀ sr, q₂.regs.seg sr = r.seg sr := by
    intro sr
    rw [hregs₂]
    cases sr <;> rfl
  have hlast₂ : OnStack q₂.mem q₂.regs.esp
      (r.eip :: r.cs :: r.eflags :: if r.cs % 4 = 0 then [] else [r.esp, r.ss]) := by
    rw [hmem₂, hesp₂]
    exact hlast
  rw [iret_spec hlast₂ hnt₂ hvm hsegs hcs hss hsel₂ ?_]
  · rw [hregs₂, hmem₂, htr₂, hmem₁, htr₁]
  · intro hmode
    obtain ⟨hesp', hss'⟩ := hkernel hmode
    rw [hesp₂, hss₂, hss₁]
    exact ⟨by omega, hss'⟩

/-! ### The whole exception -/

/-- What the C function promises when it returns: the stack pointer and `ss` of the calling
convention, and that the `n` bytes of the frame behind its argument are as they were. -/
structure HandlerReturns (n : Nat) (q q' : Proc) : Prop where
  esp : q'.regs.esp = q.regs.esp + 4
  ss : q'.regs.ss = q.regs.ss
  nt : q'.regs.eflags &&& eflagsNt = 0
  trBase : q'.trBase = q.trBase
  frame : ∀ x, q.regs.esp + 8 ≤ x → x < q.regs.esp + 8 + n → q'.mem x = q.mem x

/-- The frame of the interrupted code `p`. Only from a lower privilege it has `esp3` and `ss3`:
otherwise the interrupted stack is there. -/
structure FrameOf (v err : Nat) (p : Proc) (f : ExceptionFrame) : Prop where
  segs : f.gs % 2 ^ 16 = p.regs.gs ∧ f.fs % 2 ^ 16 = p.regs.fs ∧ f.es % 2 ^ 16 = p.regs.es ∧
    f.ds % 2 ^ 16 = p.regs.ds
  general : f.edi = p.regs.edi ∧ f.esi = p.regs.esi ∧ f.ebp = p.regs.ebp ∧ f.ebx = p.regs.ebx ∧
    f.edx = p.regs.edx ∧ f.ecx = p.regs.ecx ∧ f.eax = p.regs.eax
  esp : f.esp + 4 * (5 + (lowerWords p).length) = kernelTop p
  num : f.num = (handlerOf v).num
  errorCode : f.errorCode = errorWord v err
  code : f.eip = p.regs.eip ∧ f.cs = p.regs.cs ∧ f.eflags = p.regs.eflags
  lower : p.regs.cs % 4 ≠ 0 → f.esp3 = p.regs.esp ∧ f.ss3 = p.regs.ss
  same : p.regs.cs % 4 = 0 →
    f.esp3 = load32 p.mem p.regs.esp ∧ f.ss3 = load32 p.mem (p.regs.esp + 4)

/-- What the C function finds: interrupts are off, its argument points to the frame, and nothing but
the stack below `kernelTop` has changed. -/
structure Entered (v err : Nat) (p q : Proc) : Prop where
  masked : q.regs.eflags &&& eflagsIf = 0
  frame : FrameOf v err p (.read q.mem (load32 q.mem (q.regs.esp + 4)))
  outside : ∀ x, x < q.regs.esp ∨ kernelTop p ≤ x → q.mem x = p.mem x

theorem InTable.lt {sel : Nat} (h : InTable sel) : sel < 2 ^ 16 := by
  obtain ⟨-, hsel, -⟩ := h
  unfold gdtTableSize segmentDescSize at hsel
  omega

theorem SegsOk.selsFit (h : SegsOk gdt r) : SelsFit r := by
  intro sr
  rcases h.kernel sr with hnull | ⟨hin, -⟩
  · omega
  · exact hin.lt

/-- The words from the frame on. -/
theorem frame_words {a : Nat} (hcs : p.regs.cs % 4 = 0 → a + 4 * 17 = p.regs.esp)
    (hstack : OnStack m a (frameWords segs r e num err ++
      p.regs.eip :: p.regs.cs :: p.regs.eflags :: lowerWords p))
    (hout : p.regs.cs % 4 = 0 → ∀ x, p.regs.esp ≤ x → m x = p.mem x) :
    loadWords m a 19 = frameWords segs r e num err ++ p.regs.eip :: p.regs.cs :: p.regs.eflags ::
      if p.regs.cs % 4 = 0 then [load32 p.mem p.regs.esp, load32 p.mem (p.regs.esp + 4)]
      else [p.regs.esp, p.regs.ss] := by
  have hwords := hstack.words
  unfold lowerWords at hwords
  by_cases hmode : p.regs.cs % 4 = 0
  · have hkeep := hout hmode
    rw [if_pos hmode] at hwords
    have hrest : loadWords m p.regs.esp 2
        = [load32 p.mem p.regs.esp, load32 p.mem (p.regs.esp + 4)] := by
      rw [loadWords, loadWords, loadWords, load32_congr fun x h₁ _ => hkeep x h₁,
        load32_congr fun x h₁ _ => hkeep x (by omega)]
    rw [if_pos hmode, show 19 = 17 + 2 by rfl, loadWords_add, hcs hmode, hrest]
    have hfirst : loadWords m a 17 = frameWords segs r e num err ++
      [p.regs.eip, p.regs.cs, p.regs.eflags] := hwords
    rw [hfirst, List.append_assoc]
    rfl
  · rw [if_neg hmode] at hwords ⊢
    exact hwords

/-- The way to the C function, and the frame that it may not change. -/
structure AtHandler (gdt : Gdt) (idt : Idt) (F : Features) (entry : Handler → Nat) (ret v err : Nat)
    (p q : Proc) : Prop where
  way : ∃ q₀, p.deliver gdt idt v err = some q₀ ∧ q₀.regs.eip = entry (handlerOf v) ∧
    atCall F ret (handlerOf v) q₀ = q
  entered : Entered v err p q
  trBase : q.trBase = p.trBase
  ss : p.regs.cs % 4 = 0 → q.regs.ss = p.regs.ss
  esp : p.regs.cs % 4 = 0 → q.regs.esp + 4 * 19 = p.regs.esp
  frame : ∃ segs e, (∀ sr, segs sr % 2 ^ 16 = p.regs.seg sr) ∧
    OnStack q.mem (q.regs.esp + 8) (frameWords segs p.regs e (handlerOf v).num (errorWord v err) ++
      p.regs.eip :: p.regs.cs :: p.regs.eflags :: lowerWords p)

theorem exception_entered (idt : Idt) (F : Features) (hentry : ∀ h, entry h < 2 ^ 32)
    (hret : ret < 2 ^ 32) (hcode : CodeSegOk gdt kernelSelectorCs) (hv : v < ideTableNr)
    (herr : err < 2 ^ 32) (hstack : StackOk gdt p) (hsegs : SegsOk gdt p.regs)
    (hfits : ∀ w ∈ p.regs.words, w < 2 ^ 32) :
    ∃ q, AtHandler gdt (timeInit entry (irqInit entry idt)) F entry ret v err p q := by
  have htop := hstack.fits
  have hroom := hstack.room
  have hlow := lowerWords_length p
  have hsel := hsegs.selsFit
  obtain ⟨q₀, hdeliver, htr₀, hpush₀, hregs₀⟩ :=
    deliver_spec (idt_gate entry idt hv) (hentry _) hv hcode hstack hfits herr
  rw [← handlerOf_withErrCode v hv] at hpush₀
  have hesp₀ := hpush₀.esp
  have hfits₀ : ∀ w ∈ q₀.regs.words, w < 2 ^ 32 := by
    have hflags : p.regs.eflags &&& (2 ^ 32 - 1 - handlerFlags) < 2 ^ 32 :=
      lt_of_le_of_lt Nat.and_le_left (hfits _ (by simp [Regs.words]))
    have hss : kernelSs p < 2 ^ 32 := by
      unfold kernelSs
      split
      · exact hfits _ (by simp [Regs.words])
      · omega
    have hcs : kernelSelectorCs < 2 ^ 32 := by decide
    have hip := hentry (handlerOf v)
    rw [hregs₀]
    simp only [Regs.words, List.forall_mem_cons] at hfits ⊢
    simp only [hflags, hss, hcs, hip, true_and, show q₀.regs.esp < 2 ^ 32 by omega]
    tauto
  have hseg₀ : ∀ sr, q₀.regs.seg sr = p.regs.seg sr := by
    intro sr
    rw [hregs₀]
    cases sr <;> rfl
  obtain ⟨segs, a, hsegs', ha, hpush⟩ := atCall_spec F (handlerOf v) hret hpush₀ hroom
    (by simp only [List.length_cons]; omega) htop hfits₀ fun sr => by
      rw [hseg₀]
      exact hsel sr
  have hesp := hpush.esp
  simp only [List.length_append, List.length_cons, frameWords, List.length_nil] at hesp ha
  obtain ⟨hregs, htr⟩ := atCall_regs F ret (handlerOf v) q₀
  obtain ⟨q, hq⟩ : ∃ q, atCall F ret (handlerOf v) q₀ = q := ⟨_, rfl⟩
  rw [hq] at hpush hesp hregs htr
  -- The frame lies behind the return address and the argument.
  obtain ⟨-, -, harg⟩ := (hpush.onStack htop).cons
  obtain ⟨harg, -, hframe⟩ := harg.cons
  have haddr : q.regs.esp + 4 + 4 = a := by omega
  have herrWord : (if (handlerOf v).withErrCode then err else 0) = errorWord v err := by
    unfold errorWord
    rw [← handlerOf_withErrCode v hv]
  rw [haddr, hregs₀, herrWord] at hframe
  have hframe : OnStack q.mem a (frameWords segs p.regs (a + 4 * 12) (handlerOf v).num
      (errorWord v err) ++ p.regs.eip :: p.regs.cs :: p.regs.eflags :: lowerWords p) := hframe
  have hsegs' : ∀ sr, segs sr % 2 ^ 16 = p.regs.seg sr := fun sr => (hsegs' sr).trans (hseg₀ sr)
  have htop' : p.regs.cs % 4 = 0 → kernelTop p = p.regs.esp := fun h => if_pos h
  have hmode : p.regs.cs % 4 = 0 → a + 4 * 17 = p.regs.esp := by
    intro h
    have hempty : lowerWords p = [] := if_pos h
    rw [← htop' h, ← ha, hempty, List.length_nil]
  refine ⟨q, ⟨⟨q₀, hdeliver, by rw [hregs₀], hq⟩, ⟨?_, ?_, hpush.outside⟩, htr.trans htr₀,
    fun h => ?_, fun h => ?_, ⟨segs, a + 4 * 12, hsegs', ?_⟩⟩⟩
  · rw [hregs, hregs₀]
    show p.regs.eflags &&& (2 ^ 32 - 1 - handlerFlags) &&& eflagsIf = 0
    rw [Nat.and_assoc, show (2 ^ 32 - 1 - handlerFlags) &&& eflagsIf = 0 by decide, Nat.and_zero]
  · have hwords := frame_words (p := p) hmode hframe fun h x hx =>
      hpush.outside x (Or.inr (htop' h ▸ hx))
    rw [harg]
    unfold ExceptionFrame.read
    rw [hwords]
    refine ⟨⟨hsegs' .gs, hsegs' .fs, hsegs' .es, hsegs' .ds⟩, ⟨rfl, rfl, rfl, rfl, rfl, rfl, rfl⟩,
      ?_, rfl, rfl, ⟨rfl, rfl, rfl⟩, fun h => ?_, fun h => ?_⟩
    · show a + 4 * 12 + _ = _
      omega
    · rw [if_neg h]
      exact ⟨rfl, rfl⟩
    · rw [if_pos h]
      exact ⟨rfl, rfl⟩
  · rw [hregs, hregs₀]
    exact if_pos h
  · rw [← hmode h]
    omega
  · rw [show q.regs.esp + 8 = a by omega]
    exact hframe

/-- The C function `do_handler_...` of the vector runs with the interrupted registers in its frame.
Whatever it does elsewhere, when it returns, all registers are as they were. -/
theorem exception_transparent {idt : Idt} (hinj : Function.Injective entry)
    (hentry : ∀ h, entry h < 2 ^ 32) (hret : ret < 2 ^ 32) (hcode : CodeSegOk gdt kernelSelectorCs)
    (hv : v < ideTableNr) (herr : err < 2 ^ 32) (hstack : StackOk gdt p) (hsegs : SegsOk gdt p.regs)
    (hfits : ∀ w ∈ p.regs.words, w < 2 ^ 32) (hvm : p.regs.eflags &&& eflagsVm = 0)
    (hdo : ∀ h q q', doHandler h q = some q' →
      HandlerReturns (4 * (17 + (lowerWords p).length)) q q') :
    ∃ q, Entered v err p q ∧
      runException gdt (timeInit entry (irqInit entry idt)) F entry ret doHandler v err p
        = (doHandler (handlerOf v) q).map fun q' => { p with mem := q'.mem } := by
  obtain ⟨q, h⟩ := exception_entered idt F hentry hret hcode hv herr hstack hsegs hfits
  obtain ⟨q₀, hdeliver, heip, hq⟩ := h.way
  obtain ⟨segs, e, hsegs', hframe⟩ := h.frame
  refine ⟨q, h.entered, ?_⟩
  unfold runException
  rw [hdeliver, Option.bind_some, heip, stubAt_entry hinj, Option.bind_some, execAll_stub, hq]
  cases hcall : doHandler (handlerOf v) q with
  | none => rfl
  | some q' =>
    have hback := hdo _ _ _ hcall
    have hesp := hback.esp
    have hfits' := hframe.fits
    have hkept : OnStack q'.mem (q'.regs.esp + 4) (frameWords segs p.regs e (handlerOf v).num
        (errorWord v err) ++ p.regs.eip :: p.regs.cs :: p.regs.eflags :: lowerWords p) := by
      rw [show q'.regs.esp + 4 = q.regs.esp + 8 by omega]
      refine ⟨hframe.fits, (loadWords_congr fun x h₁ h₂ => hback.frame x h₁ ?_).trans hframe.words⟩
      simp only [List.length_append, List.length_cons, frameWords, List.length_nil] at h₂
      omega
    rw [Option.bind_some, Option.map_some, stubRest_spec hkept (by omega) hback.nt hvm hsegs
      hsegs.cs.1.lt hsegs.ss.1.lt hsegs' fun hmode => ⟨?_, ?_⟩, hback.trBase, h.trBase]
    · rw [← h.esp hmode]
      omega
    · rw [hback.ss, h.ss hmode]

/-- A table with the segments of the kernel and of the applications. -/
def appGdt : Gdt :=
  let attr := segPPresent ||| segDpl3 ||| segSNormal ||| segTypeRw ||| segD
  segmentDescSet (segmentDescSet (cpuInit (fun _ => ⟨0, 0, 0, 0, 0⟩) 0x10000) (4 * 8) 0 0xFFFFFFFF
    (attr ||| segTypeData)) (5 * 8) 0 0xFFFFFFFF (attr ||| segTypeCode)

/-- An application, with a kernel stack that ends at `0x9000`. -/
def appProc : Proc where
  regs :=
    { eip := 0x80000010, eflags := 0x202, eax := 1, ecx := 2, edx := 3, ebx := 4, esp := 0x80009FF0,
      ebp := 5, esi := 6, edi := 7, es := 0x23, cs := 0x2B, ss := 0x23, ds := 0x23, fs := 0x23,
      gs := 0x23 }
  trBase := 0x2000
  mem := storeWords (fun _ => 0) (0x2000 + 1 * 4) [0x9000, kernelSelectorDs]

/-- A function that stores a byte and returns. -/
def storeHandler (_ : Handler) (q : Proc) : Option Proc :=
  some { q with
    regs := { q.regs with esp := q.regs.esp + 4, eflags := 0, eax := 9 }
    mem := store8 q.mem 0 7 }

theorem exception_transparent_page_fault : ∃ q, Entered 14 6 appProc q ∧
    runException appGdt (timeInit (fun h => h.num % 2 ^ 16) (irqInit (fun h => h.num % 2 ^ 16)
      fun _ => ⟨0, 0, 0, 0⟩)) ⟨false, fun _ _ => 0⟩ (fun h => h.num % 2 ^ 16) 0x10004
      storeHandler 14 6 appProc
        = (storeHandler (handlerOf 14) q).map fun q' => { appProc with mem := q'.mem } := by
  have hinj : Function.Injective fun h : Handler => h.num % 2 ^ 16 := by
    intro h h' he
    revert he
    cases h <;> cases h' <;> decide
  refine exception_transparent hinj (fun h => by omega) (by decide) (by decide) (by decide)
    (by decide) ⟨by decide +kernel, by decide +kernel, by decide +kernel⟩ (by decide +kernel)
    (by decide) (by decide) ?_
  rintro h q q' hq
  obtain rfl : _ = q' := Option.some.inj hq
  refine ⟨rfl, rfl, Nat.zero_and _, rfl, fun x h₁ _ => ?_⟩
  exact store8_apart _ _ (by omega)

end StartKernel
