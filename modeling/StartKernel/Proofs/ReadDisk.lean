import StartKernel.Lib.Ata
import StartKernel.Loader.Load
import StartKernel.Proofs.ElfLoader

/-!
# `StartKernel.Proofs.ReadDisk`: `read_disk` against the drive

`read_disk` writes one command to the drive and then takes as many sectors as it was asked for,
without looking at the error bit. So it comes back exactly when the drive gives that many sectors,
and the buffer then has what the drive gave. A drive that follows the ATA standard sees the lower 16
bits of the number, so it gives all sectors up to `2^16` of them, and is waited for in vain behind
that.

* `waitData_eq`: the loop that waits for a sector polls the status port.
* `readWords_eq`: the words of a sector.
* `readSectors_of_gives`, `gives_of_readSectors`: the loop over the sectors.
* `readCommand_reading`: the command asks for the sectors.
* `readDisk_exact`: the whole function.
-/

set_option autoImplicit false

namespace StartKernel

open ByteMem
open Ata (Drive ReadsExt Readable wordsFrom dataReady sectorWords)

variable {σ : Type*} {p : Ports σ} {s s' : σ} {m m' : Mem}
  {n polls dataBuf buf sector sectorCount : Nat} {ws : List (BitVec 16)} {drive : Drive σ}
  {media : Nat → Option (List (BitVec 16))}

/-! ### Waiting for a sector -/

/-- The loop polls the status port for data. -/
theorem waitData_eq (p : Ports σ) (s : σ) (n : Nat) :
    waitData p s n = p.poll 0x1F7 dataReady s n := by
  induction n generalizing s with
  | zero => rfl
  | succ n ih =>
    have hready : dataReady (p.inb s 0x1F7).1 = true ↔ (p.inb s 0x1F7).1 &&& 0x88#8 = 0x8#8 :=
      beq_iff_eq
    rw [Ports.poll_succ, ← ih]
    show (if (p.inb s 0x1F7).1 &&& 0x88#8 ≠ 0x8#8 then waitData p (p.inb s 0x1F7).2 n
      else some (p.inb s 0x1F7).2) = _
    rw [ite_not]
    exact if_congr hready.symm rfl rfl

/-! ### The words of a sector -/

/-- The bytes of words, as they stand in the memory. -/
def wordBytes (ws : List (BitVec 16)) : List (BitVec 8) :=
  ws.flatMap fun w => [w.extractLsb' 0 8, w.extractLsb' 8 8]

theorem wordBytes_cons (w : BitVec 16) (ws : List (BitVec 16)) :
    wordBytes (w :: ws) = [w.extractLsb' 0 8, w.extractLsb' 8 8] ++ wordBytes ws :=
  List.flatMap_cons

theorem wordBytes_append (ws ws' : List (BitVec 16)) :
    wordBytes (ws ++ ws') = wordBytes ws ++ wordBytes ws' :=
  List.flatMap_append

@[simp] theorem length_wordBytes (ws : List (BitVec 16)) :
    (wordBytes ws).length = 2 * ws.length := by
  induction ws with
  | nil => rfl
  | cons w ws ih =>
    have hpair : [w.extractLsb' 0 8, w.extractLsb' 8 8].length = 2 := rfl
    rw [wordBytes_cons, List.length_append, ih, hpair, List.length_cons, Nat.mul_succ, Nat.add_comm]

/-- The two bytes of a word are stored one behind the other. -/
theorem store16_eq (m : Mem) (a : Nat) (w : BitVec 16) :
    store16 m a w = storeBytes m a [w.extractLsb' 0 8, w.extractLsb' 8 8] := by
  unfold store16
  rw [storeBytes_cons, storeBytes_cons, storeBytes_nil]

/-- The words are stored one behind the other, while the pointer does not wrap around. -/
theorem readWords_eq (p : Ports σ) (m : Mem) (s : σ) (hroom : buf + 2 * n ≤ 2 ^ 32) :
    readWords p m s (toU32 buf) n = (storeBytes m buf (wordBytes (p.inws 0x1F0 s n).1),
      (p.inws 0x1F0 s n).2, toU32 ((buf + 2 * n : Nat) : Int)) := by
  induction n generalizing m s buf with
  | zero => exact Prod.ext (storeBytes_nil m buf).symm rfl
  | succ n ih =>
    have hbuf : toU32 (buf : Int) = buf := toU32_natCast (by omega)
    have hnext : toU32 ((buf : Int) + 2) = toU32 ((buf + 2 : Nat) : Int) := by
      push_cast
      rfl
    show readWords p (store16 m (toU32 buf) (p.inw s 0x1F0).1) (p.inw s 0x1F0).2
      (toU32 ((toU32 buf : Nat) + 2)) n = _
    rw [hbuf, hnext, ih _ _ (by omega), store16_eq]
    refine Prod.ext ?_ (Prod.ext rfl ?_)
    · show _ = storeBytes m buf (wordBytes ((p.inw s 0x1F0).1 :: _))
      rw [wordBytes_cons, storeBytes_append]
      rfl
    · show toU32 ((buf + 2 + 2 * n : Nat) : Int) = _
      rw [Nat.add_assoc, Nat.mul_succ 2 n, Nat.add_comm 2]

/-- The devices do not see where the words are stored. -/
theorem readWords_devices (p : Ports σ) (m : Mem) (s : σ) (dataBuf n : Nat) :
    (readWords p m s dataBuf n).2.1 = (p.inws 0x1F0 s n).2 := by
  induction n generalizing m s dataBuf with
  | zero => rfl
  | succ n ih => exact ih _ _ _

/-! ### The loop over the sectors -/

/-- One sector of the loop. -/
theorem readSectors_succ (p : Ports σ) (polls : Nat) (m : Mem) (s : σ) (dataBuf n : Nat) :
    readSectors p polls m s dataBuf (n + 1) =
      (p.poll 0x1F7 dataReady s polls).bind fun s =>
        readSectors p polls (readWords p m s dataBuf sectorWords).1
          (p.inws 0x1F0 s sectorWords).2 (readWords p m s dataBuf sectorWords).2.2 n := by
  rw [← waitData_eq]
  refine Option.bind_congr fun s _ => ?_
  rw [← readWords_devices p m s dataBuf]
  rfl

/-- What the drive gives is stored, when the loop that waits may take long enough. -/
theorem readSectors_of_gives (h : p.Gives Ata.primary s n ws s')
    (hroom : buf + sectorSize * n ≤ 2 ^ 32) :
    ∃ k, ∀ polls ≥ k, readSectors p polls m s (toU32 buf) n
      = some (storeBytes m buf (wordBytes ws), s') := by
  induction h generalizing m buf with
  | done => exact ⟨0, fun _ _ => congrArg some (Prod.ext (storeBytes_nil m buf).symm rfl)⟩
  | @block s s₁ s' n ws hpolled _ ih =>
    have hwords : 2 * sectorWords = sectorSize := by decide
    rw [Nat.mul_succ, Nat.add_comm _ sectorSize, ← Nat.add_assoc] at hroom
    obtain ⟨k₁, h₁⟩ := hpolled.poll
    obtain ⟨k₂, h₂⟩ := ih (m := storeBytes m buf (wordBytes (p.inws 0x1F0 s₁ sectorWords).1)) hroom
    refine ⟨max k₁ k₂, fun polls hle => ?_⟩
    rw [readSectors_succ, show p.poll 0x1F7 dataReady s polls = some s₁ from h₁ polls (by omega),
      Option.bind_some, readWords_eq p m s₁ (by omega), hwords]
    refine (h₂ polls (by omega)).trans ?_
    rw [wordBytes_append, storeBytes_append, length_wordBytes, Ports.length_inws]
    rfl

/-- When the loop is over, the drive has given the sectors, and they are stored. -/
theorem gives_of_readSectors (h : readSectors p polls m s dataBuf n = some (m', s')) :
    ∃ ws, p.Gives Ata.primary s n ws s' ∧
      ∀ buf : Nat, dataBuf = toU32 buf → buf + sectorSize * n ≤ 2 ^ 32 →
        m' = storeBytes m buf (wordBytes ws) := by
  induction n generalizing m s dataBuf with
  | zero =>
    cases h
    exact ⟨[], .done, fun buf _ _ => (storeBytes_nil _ buf).symm⟩
  | succ n ih =>
    have hwords : 2 * sectorWords = sectorSize := by decide
    rw [readSectors_succ] at h
    obtain ⟨s₁, hpoll, hrest⟩ := Option.bind_eq_some_iff.mp h
    obtain ⟨ws, hgives, hstored⟩ := ih hrest
    refine ⟨_, .block (Ports.poll_sound hpoll) hgives, fun buf hbuf hroom => ?_⟩
    subst hbuf
    rw [Nat.mul_succ, Nat.add_comm _ sectorSize, ← Nat.add_assoc] at hroom
    rw [readWords_eq p m s₁ (by omega), hwords] at hstored
    rw [hstored (buf + sectorSize) rfl hroom, wordBytes_append, storeBytes_append, length_wordBytes,
      Ports.length_inws]
    rfl

/-! ### The command -/

/-- The number of sectors that the drive is asked for: the lower 16 bits count. -/
def askedFor (sectorCount : Nat) : Nat :=
  if sectorCount % 2 ^ 16 = 0 then 2 ^ 16 else sectorCount % 2 ^ 16

/-- The drive is asked for as many sectors as the loop waits for, or for fewer. -/
theorem le_askedFor : sectorCount ≤ askedFor sectorCount ↔ sectorCount ≤ 2 ^ 16 := by
  unfold askedFor
  split <;> omega

/-- The command of `read_disk`, as a list of bytes for the ports. -/
def commandBytes (sector sectorCount : Nat) : List (Nat × BitVec 8) :=
  [(0x1F6, 0xE0#8), (0x1F2, .ofNat 8 (sectorCount >>> 8)), (0x1F3, .ofNat 8 (sector >>> 24)),
    (0x1F4, 0#8), (0x1F5, 0#8), (0x1F2, .ofNat 8 sectorCount), (0x1F3, .ofNat 8 sector),
    (0x1F4, .ofNat 8 (sector >>> 8)), (0x1F5, .ofNat 8 (sector >>> 16))]

/-- The registers when the command is written. -/
def commandRegs (sector sectorCount : Nat) : Ata.Registers where
  device := 0xE0#8
  sectorCount := ⟨.ofNat 8 (sectorCount >>> 8), .ofNat 8 sectorCount⟩
  lbaLow := ⟨.ofNat 8 (sector >>> 24), .ofNat 8 sector⟩
  lbaMid := ⟨0#8, .ofNat 8 (sector >>> 8)⟩
  lbaHigh := ⟨0#8, .ofNat 8 (sector >>> 16)⟩

theorem commandRegs_lba (hsector : sector < 2 ^ 32) :
    (commandRegs sector sectorCount).lba = sector := by
  unfold Ata.Registers.lba commandRegs
  simp only [BitVec.toNat_ofNat, Nat.shiftRight_eq_div_pow]
  omega

theorem commandRegs_count (sector sectorCount : Nat) :
    (commandRegs sector sectorCount).count = askedFor sectorCount := by
  have hlow : sectorCount % 2 ^ 8 + 2 ^ 8 * (sectorCount / 2 ^ 8 % 2 ^ 8)
      = sectorCount % 2 ^ 16 := by
    omega
  unfold Ata.Registers.count commandRegs askedFor
  simp only [BitVec.toNat_ofNat, Nat.shiftRight_eq_div_pow]
  rw [hlow]

theorem commandRegs_selects (sector sectorCount : Nat) :
    (commandRegs sector sectorCount).SelectsFirst := by
  show (0xE0#8).getLsbD 4 = false ∧ (0xE0#8).getLsbD 6 = true
  decide

/-- The command asks for sectors from `sector` on. -/
theorem readCommand_reading (h : ReadsExt p drive media) (hs : drive.Idle s)
    (hsector : sector < 2 ^ 32) :
    drive.Reading (readCommand p s sector sectorCount) sector (askedFor sectorCount) := by
  have hports : ∀ b ∈ commandBytes sector sectorCount, 0x1F2 ≤ b.1 ∧ b.1 ≤ 0x1F6 := by
    simp [commandBytes]
  obtain ⟨hidle, hregs⟩ := h.outs hs hports
  have hregs' : drive.regs (p.outs s (commandBytes sector sectorCount))
      = commandRegs sector sectorCount := hregs
  have hreading := h.command _ hidle (by
    rw [hregs']
    exact commandRegs_selects sector sectorCount)
  rwa [hregs', commandRegs_lba hsector, commandRegs_count] at hreading

/-! ### The whole function -/

/-- The devices give the words `ws` to a call of `read_disk`, and are then in the state `s'`. -/
def DiskGives (p : Ports σ) (s : σ) (sector sectorCount : Nat) (ws : List (BitVec 16)) (s' : σ) :
    Prop :=
  p.Gives Ata.primary (readCommand p s sector sectorCount) sectorCount ws s'

/-- With the words of the sectors the function comes back. -/
theorem readDisk_of_gives (h : DiskGives p s sector sectorCount ws s') (hbuf : buf < 2 ^ 32)
    (hroom : buf + sectorSize * sectorCount ≤ 2 ^ 32) :
    ∃ n, ∀ polls ≥ n, readDisk p polls m s sector sectorCount buf
      = some (storeBytes m buf (wordBytes ws), s') := by
  have hread := readSectors_of_gives (m := m) h hroom
  rwa [toU32_natCast hbuf] at hread

/-- It does not come back without them. -/
theorem readDisk_none (h : ∀ ws s', ¬ DiskGives p s sector sectorCount ws s') (m : Mem)
    (polls buf : Nat) : readDisk p polls m s sector sectorCount buf = none := by
  refine Option.eq_none_iff_forall_ne_some.mpr ?_
  rintro ⟨m', s'⟩ hr
  obtain ⟨ws, hgives, -⟩ := gives_of_readSectors hr
  exact h ws s' hgives

/-- A drive that follows the standard gives up to `2^16` sectors that it can read. -/
theorem diskGives_of_readsExt (h : ReadsExt p drive media) (hs : drive.Idle s)
    (hsector : sector < 2 ^ 32) (hcount : sectorCount ≤ 2 ^ 16)
    (hread : Readable media sector sectorCount) :
    ∃ s', DiskGives p s sector sectorCount (wordsFrom media sector sectorCount) s' ∧
      (sectorCount ≠ 0 → drive.Idle s') := by
  obtain ⟨left, hleft⟩ := Nat.exists_eq_add_of_le (le_askedFor.mpr hcount)
  have hreading :
      drive.Reading (readCommand p s sector sectorCount) sector (askedFor sectorCount) :=
    readCommand_reading h hs hsector
  rw [hleft] at hreading
  obtain ⟨s', hgives, hend⟩ := h.gives hreading hread
  refine ⟨s', hgives, fun hne => h.last s' (sector + sectorCount) ?_⟩
  -- With a count of 0 the drive is asked for `2^16` sectors, of which none is taken.
  have hzero : left = 0 := by
    unfold askedFor at hleft
    split at hleft <;> omega
  rwa [hzero] at hend

/-- `read_disk`, with any devices behind the ports and however long they take. It comes back exactly
when it is given the words of all sectors; they are then in the buffer one behind the other, and no
other memory has changed. A drive that follows the ATA standard gives the sectors from `sector` on
when they are at most `2^16`, and is then idle again; a call for more does not come back. -/
theorem readDisk_exact (p : Ports σ) (m : Mem) (s : σ) (hbuf : buf < 2 ^ 32) :
    (∀ ws s', DiskGives p s sector sectorCount ws s' → buf + sectorSize * sectorCount ≤ 2 ^ 32 →
      ∃ n, ∀ polls ≥ n, readDisk p polls m s sector sectorCount buf
        = some (storeBytes m buf (wordBytes ws), s')) ∧
    (∀ polls m' s', readDisk p polls m s sector sectorCount buf = some (m', s') →
      ∃ ws, DiskGives p s sector sectorCount ws s' ∧ ws.length = sectorWords * sectorCount ∧
        (buf + sectorSize * sectorCount ≤ 2 ^ 32 → m' = storeBytes m buf (wordBytes ws))) ∧
    ∀ drive media, ReadsExt p drive media → drive.Idle s → sector < 2 ^ 32 →
      (sectorCount ≤ 2 ^ 16 → Readable media sector sectorCount →
        buf + sectorSize * sectorCount ≤ 2 ^ 32 → ∃ n s', (sectorCount ≠ 0 → drive.Idle s') ∧
          ∀ polls ≥ n, readDisk p polls m s sector sectorCount buf
            = some (storeBytes m buf (wordBytes (wordsFrom media sector sectorCount)), s')) ∧
      (2 ^ 16 < sectorCount → Readable media sector (askedFor sectorCount) →
        ∀ polls, readDisk p polls m s sector sectorCount buf = none) := by
  refine ⟨fun ws s' hgives hroom => readDisk_of_gives hgives hbuf hroom,
    fun polls m' s' hread => ?_, fun drive media h hs hsector =>
      ⟨fun hcount hreadable hroom => ?_, fun hmore hreadable => ?_⟩⟩
  · obtain ⟨ws, hgives, hstored⟩ := gives_of_readSectors hread
    exact ⟨ws, hgives, hgives.length_words, hstored buf (toU32_natCast hbuf).symm⟩
  · obtain ⟨s', hgives, hidle⟩ := diskGives_of_readsExt h hs hsector hcount hreadable
    obtain ⟨n, hn⟩ := readDisk_of_gives (m := m) hgives hbuf hroom
    exact ⟨n, s', hidle, hn⟩
  · have hfew : askedFor sectorCount < sectorCount :=
      Nat.lt_of_not_le fun hle => absurd (le_askedFor.mp hle) (Nat.not_le_of_lt hmore)
    have hnone : ∀ ws s', ¬ DiskGives p s sector sectorCount ws s' := fun ws s' =>
      h.not_gives (readCommand_reading h hs hsector) hreadable hfew
    exact fun polls => readDisk_none hnone m polls buf

/-! ### A drive that follows the standard -/

/-- What the drive is doing: it waits for a command, is busy in front of a sector, or has the words
of a sector from `pos` on, with `left` sectors behind it. -/
inductive DriveMode
  | idle
  | busy (lba left : Nat)
  | ready (lba left pos : Nat)

/-- The drive goes on with the sector `lba`, when there are `n` sectors to give. -/
def DriveMode.next (lba : Nat) : Nat → DriveMode
  | 0 => .idle
  | left + 1 => .busy lba left

/-- The registers, and what the drive is doing. -/
structure DriveState where
  regs : Ata.Registers
  mode : DriveMode

/-- A drive with the words `content` that is busy once in front of each sector. -/
def drivePorts (content : Nat → BitVec 16) : Ports DriveState where
  inb s _ :=
    match s.mode with
    | .idle => (0x50#8, s)
    | .busy lba left => (0x80#8, { s with mode := .ready lba left 0 })
    | .ready .. => (0x58#8, s)
  inw s _ :=
    match s.mode with
    | .ready lba left pos =>
      (content (sectorWords * lba + pos),
        if pos + 1 < sectorWords then { s with mode := .ready lba left (pos + 1) }
        else { s with mode := .next (lba + 1) left })
    | _ => (0xFFFF#16, s)
  outb s port v :=
    match s.mode with
    | .idle =>
      if port = 0x1F7 then { s with mode := .next s.regs.lba s.regs.count }
      else { s with regs := s.regs.write port v }
    | _ => s

/-- Its states. -/
def driveStates : Drive DriveState where
  Idle s := s.mode = .idle
  regs := DriveState.regs
  Reading s lba left := s.mode = .next lba left

/-- The words of its sectors. -/
def driveMedia (content : Nat → BitVec 16) (lba : Nat) : Option (List (BitVec 16)) :=
  some ((List.range' (sectorWords * lba) sectorWords).map content)

variable {content : Nat → BitVec 16}

/-- The words that are left of a sector, and then the next one. -/
theorem inws_drivePorts {st : DriveState} {lba left pos : Nat} (hst : st.mode = .ready lba left pos)
    (hn : pos + n = sectorWords) (hpos : 0 < n) :
    (drivePorts content).inws 0x1F0 st n = ((List.range' (sectorWords * lba + pos) n).map content,
      { st with mode := .next (lba + 1) left }) := by
  induction n generalizing st pos with
  | zero => exact absurd hpos (Nat.lt_irrefl 0)
  | succ n ih =>
    have hword : (drivePorts content).inw st 0x1F0 = (content (sectorWords * lba + pos),
        if pos + 1 < sectorWords then { st with mode := .ready lba left (pos + 1) }
        else { st with mode := .next (lba + 1) left }) := by
      unfold drivePorts
      dsimp only
      rw [hst]
    unfold Ports.inws
    rw [hword]
    cases n with
    | zero =>
      rw [if_neg (by omega)]
      rfl
    | succ n =>
      rw [if_pos (by omega)]
      dsimp only
      rw [ih rfl (by omega) (Nat.succ_pos n)]
      rfl

theorem readsExt_drivePorts (content : Nat → BitVec 16) :
    ReadsExt (drivePorts content) driveStates (driveMedia content) where
  idle s hs := by
    have hread : (drivePorts content).inb s 0x1F7 = (0x50#8, s) := by
      unfold drivePorts
      dsimp only
      rw [show s.mode = .idle from hs]
    have hnone : dataReady 0x50#8 = false := by decide
    rw [hread]
    exact ⟨hnone, hs⟩
  write s hs port v _ hport := by
    have hwrite : (drivePorts content).outb s port v = { s with regs := s.regs.write port v } := by
      unfold drivePorts
      dsimp only
      rw [show s.mode = .idle from hs]
      exact if_neg (by omega)
    rw [hwrite]
    exact ⟨hs, rfl⟩
  command s hs _ := by
    unfold drivePorts driveStates
    dsimp only
    rw [show s.mode = .idle from hs]
    rfl
  sector s lba left words hs hwords := by
    have hbusy : (drivePorts content).inb s 0x1F7
        = (0x80#8, { s with mode := .ready lba left 0 }) := by
      unfold drivePorts
      dsimp only
      rw [show s.mode = .busy lba left from hs]
    let st : DriveState := { s with mode := .ready lba left 0 }
    have hwait : dataReady 0x80#8 = false := by decide
    have hdata : dataReady 0x58#8 = true := by decide
    have hnow : (drivePorts content).Polled 0x1F7 dataReady st
        ((drivePorts content).inb st 0x1F7).2 := .now hdata
    have htaken : (drivePorts content).inws 0x1F0 st sectorWords = _ :=
      inws_drivePorts rfl (Nat.zero_add sectorWords) (by decide)
    refine ⟨st, .later ?_ ?_, ?_⟩
    · rw [hbusy]
      exact hwait
    · rw [hbusy]
      exact hnow
    · rw [htaken]
      exact ⟨Option.some.inj hwords, rfl⟩
  last _ _ hs := hs

/-- The drive without a command. -/
def idleDrive : DriveState := ⟨⟨0#8, ⟨0#8, 0#8⟩, ⟨0#8, 0#8⟩, ⟨0#8, 0#8⟩, ⟨0#8, 0#8⟩⟩, .idle⟩

/-- Two sectors are read. More than `2^16` are waited for in vain. -/
theorem readDisk_exact_two :
    (∃ n s', s'.mode = .idle ∧ ∀ polls ≥ n,
      readDisk (drivePorts fun k => .ofNat 16 k) polls (fun _ => 0#8) idleDrive 3 2 0x1000
        = some (storeBytes (fun _ => 0#8) 0x1000
          (wordBytes (wordsFrom (driveMedia fun k => .ofNat 16 k) 3 2)), s')) ∧
    ∀ polls, readDisk (drivePorts fun k => .ofNat 16 k) polls (fun _ => 0#8) idleDrive 3 0x10001
      0x1000 = none := by
  have hbuf : 0x1000 < 2 ^ 32 := by decide
  have hsector : 3 < 2 ^ 32 := by decide
  have hreadable : ∀ n, Readable (driveMedia fun k => .ofNat 16 k) 3 n := fun _ _ _ => rfl
  refine ⟨?_, ?_⟩
  · obtain ⟨n, s', hidle, hn⟩ := ((readDisk_exact (drivePorts fun k => .ofNat 16 k) (fun _ => 0#8)
      idleDrive hbuf).2.2 driveStates _ (readsExt_drivePorts _) rfl hsector).1 (by decide)
      (hreadable 2) (by decide)
    exact ⟨n, s', hidle (by decide), hn⟩
  · exact ((readDisk_exact (drivePorts fun k => .ofNat 16 k) (fun _ => 0#8)
      idleDrive hbuf).2.2 driveStates _ (readsExt_drivePorts _) rfl hsector).2 (by decide)
      (hreadable _)

end StartKernel
