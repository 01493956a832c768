import StartKernel.Lib.Ports

/-!
# `StartKernel.Cpu.Pic`: the masks of the interrupt controllers (`cpu/irq.c`)

`init_pic` sets the controllers up with everything masked but the input between them, and
`irq_enable` and `irq_disable` change one bit of the masks. What is behind the ports is a parameter.
-/

set_option autoImplicit false

namespace StartKernel

variable {σ : Type*}

/-- `IRQ_PIC_START`. -/
def irqPicStart : Int := 0x20

/-- `PIC0_IMR`. -/
def pic0Imr : Nat := 0x21

/-- `PIC1_IMR`. -/
def pic1Imr : Nat := 0xA1

/-- `init_pic`. -/
def initPic (p : Ports σ) (s : σ) : σ :=
  p.outs s
    [(0x20, 0x11#8), (0x21, 0x20#8), (0x21, 1#8 <<< 2), (0x21, 0x01#8),
      (0xA0, 0x11#8), (0xA1, 0x28#8), (0xA1, 0x02#8), (0xA1, 0x01#8),
      (pic0Imr, 0xFF#8 &&& ~~~(1#8 <<< 2)), (pic1Imr, 0xFF#8)]

/-- `1 << n` as a byte. The processor takes the lower five bits of the shift count. -/
def shiftedOne (n : Int) : BitVec 8 := (1#32 <<< (n.toNat % 32)).setWidth 8

/-- `irq_enable`. -/
def irqEnable (p : Ports σ) (s : σ) (irqNum : Int) : σ :=
  if irqNum < irqPicStart then s
  else
    let irqNum := irqNum - irqPicStart
    if irqNum < 8 then
      let (imr, s) := p.inb s pic0Imr
      let mask := imr &&& ~~~shiftedOne irqNum
      p.outb s pic0Imr mask
    else
      let irqNum := irqNum - 8
      let (imr, s) := p.inb s pic1Imr
      let mask := imr &&& ~~~shiftedOne irqNum
      p.outb s pic1Imr mask

/-- `irq_disable`. -/
def irqDisable (p : Ports σ) (s : σ) (irqNum : Int) : σ :=
  if irqNum < irqPicStart then s
  else
    let irqNum := irqNum - irqPicStart
    if irqNum < 8 then
      let (imr, s) := p.inb s pic0Imr
      let mask := imr ||| shiftedOne irqNum
      p.outb s pic0Imr mask
    else
      let irqNum := irqNum - 8
      let (imr, s) := p.inb s pic1Imr
      let mask := imr ||| shiftedOne irqNum
      p.outb s pic1Imr mask

/-- A call of `irq_enable` or of `irq_disable`. -/
inductive MaskCall
  | enable (irqNum : Int)
  | disable (irqNum : Int)

/-- One call. -/
def maskStep (p : Ports σ) (s : σ) : MaskCall → σ
  | .enable n => irqEnable p s n
  | .disable n => irqDisable p s n

end StartKernel
