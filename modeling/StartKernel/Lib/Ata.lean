import Mathlib.Algebra.GroupWithZero.Nat
import StartKernel.Lib.Ports

/-!
# `StartKernel.Lib.Ata`: what an ATA drive does

The first drive of the primary channel of a PC reads sectors by programmed input, with 48-bit sector
addresses. How a drive works is left open: `Drive` names the states that the ATA standard speaks of,
and `ReadsExt` is what the standard says of them. The status values in front of a sector are any,
and nothing is said of a sector that cannot be read.

The registers for the count and the address are two bytes deep, the upper byte is written first.
-/

set_option autoImplicit false

namespace Ata

open Ports (Channel)

/-- The words of a sector. -/
def sectorWords : Nat := 256

/-- `DRQ` without `BSY`. -/
def dataReady (status : BitVec 8) : Bool := status &&& 0x88#8 == 0x8#8

/-- The primary channel. -/
def primary : Channel where
  status := 0x1F7
  data := 0x1F0
  ready := dataReady
  block := sectorWords

/-- A register that keeps the last two bytes that were written to it. -/
structure Fifo where
  previous : BitVec 8
  current : BitVec 8

/-- One more byte. -/
def Fifo.push (f : Fifo) (v : BitVec 8) : Fifo := ⟨f.current, v⟩

/-- The registers in front of a command. -/
structure Registers where
  device : BitVec 8
  sectorCount : Fifo
  lbaLow : Fifo
  lbaMid : Fifo
  lbaHigh : Fifo

/-- A byte is written to one of the ports `0x1F2` to `0x1F6`. -/
def Registers.write (r : Registers) (port : Nat) (v : BitVec 8) : Registers :=
  match port with
  | 0x1F2 => { r with sectorCount := r.sectorCount.push v }
  | 0x1F3 => { r with lbaLow := r.lbaLow.push v }
  | 0x1F4 => { r with lbaMid := r.lbaMid.push v }
  | 0x1F5 => { r with lbaHigh := r.lbaHigh.push v }
  | 0x1F6 => { r with device := v }
  | _ => r

/-- The 48-bit address in the registers. -/
def Registers.lba (r : Registers) : Nat :=
  r.lbaLow.current.toNat + 2 ^ 8 * r.lbaMid.current.toNat + 2 ^ 16 * r.lbaHigh.current.toNat
    + 2 ^ 24 * r.lbaLow.previous.toNat + 2 ^ 32 * r.lbaMid.previous.toNat
    + 2 ^ 40 * r.lbaHigh.previous.toNat

/-- The number of sectors in the registers. 0 stands for `2^16`. -/
def Registers.count (r : Registers) : Nat :=
  let n := r.sectorCount.current.toNat + 2 ^ 8 * r.sectorCount.previous.toNat
  if n = 0 then 2 ^ 16 else n

/-- The device register selects the first drive, and sectors by their numbers. -/
def Registers.SelectsFirst (r : Registers) : Prop :=
  r.device.getLsbD 4 = false ∧ r.device.getLsbD 6 = true

/-- The command `READ SECTORS EXT`. -/
def readSectorsExt : BitVec 8 := 0x24#8

/-- The states of a drive: it waits for a command, with what is in its registers, or has `left`
sectors from `lba` on still to give. -/
structure Drive (σ : Type*) where
  Idle : σ → Prop
  regs : σ → Registers
  Reading : σ → (lba left : Nat) → Prop

/-- The behaviour of a drive that can read the sectors that `media` has words for. The times that a
register takes to settle are left out. -/
structure ReadsExt {σ : Type*} (p : Ports σ) (drive : Drive σ)
    (media : Nat → Option (List (BitVec 16))) : Prop where
  /-- Without a command there is no data. -/
  idle : ∀ s, drive.Idle s → dataReady (p.inb s 0x1F7).1 = false ∧ drive.Idle (p.inb s 0x1F7).2
  /-- The registers are written. -/
  write : ∀ s, drive.Idle s → ∀ port v, 0x1F2 ≤ port → port ≤ 0x1F6 →
    drive.Idle (p.outb s port v) ∧ drive.regs (p.outb s port v) = (drive.regs s).write port v
  /-- The command takes the address and the count from the registers. -/
  command : ∀ s, drive.Idle s → (drive.regs s).SelectsFirst →
    drive.Reading (p.outb s 0x1F7 readSectorsExt) (drive.regs s).lba (drive.regs s).count
  /-- A sector that can be read is there after finitely many looks at the status, and its words are
  then at the data port. -/
  sector : ∀ s lba left words, drive.Reading s lba (left + 1) → media lba = some words →
    ∃ s', p.Polled 0x1F7 dataReady s s' ∧ (p.inws 0x1F0 s' sectorWords).1 = words ∧
      drive.Reading (p.inws 0x1F0 s' sectorWords).2 (lba + 1) left
  /-- Behind the last sector the drive waits for a command. -/
  last : ∀ s lba, drive.Reading s lba 0 → drive.Idle s

/-- The `n` sectors from `lba` on can all be read. -/
def Readable (media : Nat → Option (List (BitVec 16))) (lba n : Nat) : Prop :=
  ∀ i < n, (media (lba + i)).isSome = true

/-- Their words. -/
def wordsFrom (media : Nat → Option (List (BitVec 16))) (lba : Nat) : Nat → List (BitVec 16)
  | 0 => []
  | n + 1 => (media lba).getD [] ++ wordsFrom media (lba + 1) n

variable {σ : Type*} {p : Ports σ} {drive : Drive σ} {media : Nat → Option (List (BitVec 16))}
  {lba left n : Nat} {s s' : σ} {ws : List (BitVec 16)}

/-- The first sector, and the ones behind it. -/
theorem readable_succ :
    Readable media lba (n + 1) ↔ (media lba).isSome = true ∧ Readable media (lba + 1) n := by
  constructor
  · intro h
    refine ⟨h 0 n.succ_pos, fun i hi => ?_⟩
    rw [Nat.add_assoc, Nat.add_comm 1]
    exact h (i + 1) (Nat.succ_lt_succ hi)
  · rintro ⟨hfirst, hrest⟩ i hi
    cases i with
    | zero => exact hfirst
    | succ i =>
      rw [Nat.add_comm i, ← Nat.add_assoc]
      exact hrest i (Nat.lt_of_succ_lt_succ hi)

theorem Readable.mono {k : Nat} (h : Readable media lba n) (hk : k ≤ n) : Readable media lba k :=
  fun i hi => h i (Nat.lt_of_lt_of_le hi hk)

/-- Bytes that are written to the registers, one behind the other. -/
theorem ReadsExt.outs (h : ReadsExt p drive media) (hs : drive.Idle s)
    {bytes : List (Nat × BitVec 8)} (hports : ∀ b ∈ bytes, 0x1F2 ≤ b.1 ∧ b.1 ≤ 0x1F6) :
    drive.Idle (p.outs s bytes) ∧ drive.regs (p.outs s bytes)
      = bytes.foldl (fun r b => r.write b.1 b.2) (drive.regs s) := by
  induction bytes generalizing s with
  | nil => exact ⟨hs, rfl⟩
  | cons b bytes ih =>
    obtain ⟨hlow, hhigh⟩ := hports b List.mem_cons_self
    obtain ⟨hidle, hregs⟩ := h.write s hs b.1 b.2 hlow hhigh
    obtain ⟨hidle', hregs'⟩ := ih hidle fun b' hb' => hports b' (List.mem_cons_of_mem _ hb')
    refine ⟨hidle', hregs'.trans ?_⟩
    rw [hregs, List.foldl_cons]

/-- Without a command the drive does not become ready. -/
theorem ReadsExt.not_polled (h : ReadsExt p drive media) (hs : drive.Idle s) :
    ¬ p.Polled 0x1F7 dataReady s s' :=
  Ports.Polled.not_of_invariant (I := { s | drive.Idle s }) (fun s hs => h.idle s hs) hs

/-- A drive with `n` readable sectors to give, and `left` behind them, gives their words. -/
theorem ReadsExt.gives (h : ReadsExt p drive media) (hs : drive.Reading s lba (n + left))
    (hread : Readable media lba n) :
    ∃ s', p.Gives primary s n (wordsFrom media lba n) s' ∧ drive.Reading s' (lba + n) left := by
  induction n generalizing s lba with
  | zero => exact ⟨s, .done, by rwa [Nat.zero_add] at hs⟩
  | succ n ih =>
    obtain ⟨hfirst, hrest⟩ := readable_succ.mp hread
    obtain ⟨words, hwords⟩ := Option.isSome_iff_exists.mp hfirst
    rw [Nat.add_right_comm] at hs
    obtain ⟨s₁, hpolled, htaken, hnext⟩ := h.sector s lba (n + left) words hs hwords
    obtain ⟨s₂, hgives, hleft⟩ := ih hnext hrest
    refine ⟨s₂, ?_, by rwa [Nat.add_right_comm] at hleft⟩
    have hall : p.Gives primary s (n + 1)
        ((p.inws 0x1F0 s₁ sectorWords).1 ++ wordsFrom media (lba + 1) n) s₂ := .block hpolled hgives
    unfold wordsFrom
    rw [hwords]
    rwa [htaken] at hall

/-- It does not give more sectors than it was asked for. -/
theorem ReadsExt.not_gives (h : ReadsExt p drive media) (hs : drive.Reading s lba left)
    (hread : Readable media lba left) (hn : left < n) : ¬ p.Gives primary s n ws s' := by
  intro hgives
  induction left generalizing s lba n ws with
  | zero =>
    cases hgives with
    | done => exact absurd hn (Nat.lt_irrefl 0)
    | block hpolled _ => exact h.not_polled (h.last s lba hs) hpolled
  | succ left ih =>
    obtain ⟨hfirst, hrest⟩ := readable_succ.mp hread
    obtain ⟨words, hwords⟩ := Option.isSome_iff_exists.mp hfirst
    obtain ⟨s₁, hpolled, -, hnext⟩ := h.sector s lba left words hs hwords
    cases hgives with
    | done => exact absurd hn (Nat.not_lt_zero _)
    | block hpolled' hgives' =>
      obtain rfl := hpolled.unique hpolled'
      exact ih hnext hrest (Nat.lt_of_succ_lt_succ hn) hgives'

end Ata
