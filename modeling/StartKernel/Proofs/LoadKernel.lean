import StartKernel.Proofs.ReadDisk

/-!
# `StartKernel.Proofs.LoadKernel`: from the disk to the entry of the kernel

`load_kernel` reads 500 sectors, of which the first is the sector 100, and loads the file that they
hold. What the kernel finds when it is called is said in terms of the words that the disk gives: the
segments of the file in their places, all memory but these and the buffer as it was, and the paging
turned on with the lowest 4 MB mapped to themselves.

* `WellFormed.congr`, `Segments.congr`: the file in the buffer is the one on the disk.
* `segment_byte`, `segment_outside`: the memory behind the loading of the segments.
* `translate_enabled`: the address translation behind `enable_page_mode`.
* `kernel_loaded`: the whole loader, also when it does not come to the kernel.
-/

set_option autoImplicit false

namespace StartKernel

open ByteMem

variable {σ : Type*} {p : Ports σ} {s : Machine32 σ} {m m' : Mem} {ws : List (BitVec 16)}
  {fb size i k x vaddr pageDir bootInfo : Nat}

/-! ### The file -/

/-- The program headers of a file that does not change. -/
theorem isLoad_congr (hw : WellFormed m fb size) (hfile : SameFile fb size m m') :
    IsLoad m' fb i ↔ IsLoad m fb i := by
  unfold IsLoad
  rw [readEhdr_congr hw.header hfile]
  exact and_congr_right fun hi => by rw [phdrOf_congr hw hfile hi]

theorem HasMagic.congr (hsize : 4 ≤ size) (hfile : SameFile fb size m m') :
    HasMagic m' fb ↔ HasMagic m fb := by
  unfold HasMagic
  rw [hfile fb (by omega) (by omega), hfile (fb + 1) (by omega) (by omega),
    hfile (fb + 2) (by omega) (by omega), hfile (fb + 3) (by omega) (by omega)]

theorem WellFormed.congr (hw : WellFormed m fb size) (hfile : SameFile fb size m m') :
    WellFormed m' fb size where
  magic := (HasMagic.congr (by have hheader := hw.header; omega) hfile).mpr hw.magic
  header := hw.header
  room := hw.room
  table := by
    rw [readEhdr_congr hw.header hfile]
    exact hw.table

theorem Segments.congr (hw : WellFormed m fb size) (hs : Segments m fb size)
    (hfile : SameFile fb size m m') : Segments m' fb size where
  loadable i hi := by
    have hi' := (isLoad_congr hw hfile).mp hi
    rw [phdrOf_congr hw hfile hi'.1]
    exact hs.loadable i hi'
  apart i k hne hi hk x := by
    have hi' := (isLoad_congr hw hfile).mp hi
    have hk' := (isLoad_congr hw hfile).mp hk
    rw [phdrOf_congr hw hfile hi'.1, phdrOf_congr hw hfile hk'.1]
    exact hs.apart i k hne hi' hk' x

/-- The byte `k` of a segment, of a file at `fb`. -/
def segmentByte (m : Mem) (fb : Nat) (h : Phdr) (k : Nat) : BitVec 8 :=
  if k < h.pFilesz then m (fb + h.pOffset + k) else 0#8

/-- A loaded segment has its bytes. -/
theorem segment_byte (hs : Segments m fb size) (hi : IsLoad m fb i)
    (hk : k < (phdrOf m fb i).pMemsz) :
    writeBlocks m (loadBlocks m fb 0 (readEhdr m fb).ePhnum) ((phdrOf m fb i).pPaddr + k)
      = segmentByte m fb (phdrOf m fb i) k := by
  have hl := hs.loadable i hi
  have hlen := length_segmentBlock m fb hl.filesz
  have hinside := writeBlocks_inside (m := m) (loadBlocks_apart hs rfl)
    ((mem_loadBlocks rfl).mpr ⟨i, hi, rfl⟩) (hlen.symm ▸ hk)
  unfold segmentBlock at hinside
  unfold segmentByte
  split
  · rename_i hdata
    rw [List.getElem?_append_left (by rw [length_bytesAt]; exact hdata), getElem?_bytesAt m _ hdata]
      at hinside
    exact (Option.some.inj hinside).symm
  · rename_i hrest
    rw [List.getElem?_append_right (by rw [length_bytesAt]; omega), length_bytesAt,
      List.getElem?_replicate, if_pos (by omega)] at hinside
    exact (Option.some.inj hinside).symm

/-- No other byte is written. -/
theorem segment_outside (hs : Segments m fb size)
    (hx : ∀ i, IsLoad m fb i → ¬ (phdrOf m fb i).Covers x) :
    writeBlocks m (loadBlocks m fb 0 (readEhdr m fb).ePhnum) x = m x := by
  refine writeBlocks_outside fun b hb hc => ?_
  obtain ⟨i, hi, rfl⟩ := (mem_loadBlocks rfl).mp hb
  exact hx i hi ((covers_segmentBlock (hs.loadable i hi).filesz x).mp hc)

/-! ### The paging of the loader -/

/-- The `page_dir` of the loader: its first entry maps the lowest 4 MB, and no other one is present.
-/
def LoaderPageDir (m : Mem) (pageDir : Nat) : Prop :=
  ∀ i < pdeCnt, load32 m (pageDir + 4 * i) = if i = 0 then pteP ||| pdePs ||| pteW else 0

theorem or_and_self (a b : Nat) : (a ||| b) &&& b = b :=
  Nat.eq_of_testBit_eq fun i => by
    rw [Nat.testBit_and, Nat.testBit_or]
    cases a.testBit i <;> cases b.testBit i <;> rfl

/-- Behind `enable_page_mode` the lowest 4 MB are mapped to themselves, and nothing else is mapped.
-/
theorem translate_enabled (hdir : LoaderPageDir s.mem pageDir) (hv : vaddr < 2 ^ 32) :
    (enablePageMode s pageDir).translate vaddr = if vaddr < 2 ^ 22 then some vaddr else none := by
  have hpg : ¬ (s.cr0 ||| cr0Pg) &&& cr0Pg = 0 := by
    rw [or_and_self]
    decide
  have hpse : (s.cr4 ||| cr4Pse) &&& cr4Pse ≠ 0 := by
    rw [or_and_self]
    decide
  have hindex : pdeIndex vaddr < pdeCnt := by
    unfold pdeIndex pdeCnt
    omega
  unfold Machine32.translate enablePageMode
  dsimp only
  rw [if_neg hpg, hdir _ hindex]
  unfold pdeIndex
  by_cases hlow : vaddr < 2 ^ 22
  · have hzero : vaddr / 2 ^ 22 = 0 := Nat.div_eq_of_lt hlow
    have hbig : (pteP ||| pdePs ||| pteW) &&& pdePs ≠ 0 := by decide
    rw [if_pos hlow, if_pos hzero, if_neg (by decide), if_pos ⟨hbig, hpse⟩, Nat.mod_eq_of_lt hlow]
    exact congrArg some (Nat.zero_add vaddr)
  · have hnonzero : ¬ vaddr / 2 ^ 22 = 0 := by omega
    rw [if_neg hlow, if_neg hnonzero, if_pos (by decide)]

/-! ### The loader -/

/-- The file that the words hold, at the place where it is read to. -/
def kernelFile (ws : List (BitVec 16)) : Mem :=
  storeBytes (fun _ => 0#8) sysKernelLoadAddr (wordBytes ws)

/-- The bytes that are read. -/
def kernelFileSize : Nat := sectorSize * 500

/-- The entry address in the file. -/
def kernelEntry (ws : List (BitVec 16)) : Nat :=
  (readEhdr (kernelFile ws) sysKernelLoadAddr).eEntry

/-- The addresses of the segments of the kernel. -/
def InKernel (ws : List (BitVec 16)) (x : Nat) : Prop :=
  ∃ i, IsLoad (kernelFile ws) sysKernelLoadAddr i ∧
    (phdrOf (kernelFile ws) sysKernelLoadAddr i).Covers x

/-- A file with a kernel that does not lie over the `page_dir` of the loader. -/
structure Bootable (ws : List (BitVec 16)) (pageDir : Nat) : Prop where
  wellFormed : WellFormed (kernelFile ws) sysKernelLoadAddr kernelFileSize
  segments : Segments (kernelFile ws) sysKernelLoadAddr kernelFileSize
  apart : ∀ x, pageDir ≤ x → x < pageDir + 4 * pdeCnt → ¬ InKernel ws x

/-- The memory behind `read_disk`. -/
def readMem (ws : List (BitVec 16)) (m : Mem) : Mem :=
  storeBytes m sysKernelLoadAddr (wordBytes ws)

/-- The words of 500 sectors. -/
theorem length_kernelWords {d d' : σ} (h : DiskGives p d 100 500 ws d') :
    (wordBytes ws).length = kernelFileSize := by
  rw [length_wordBytes, h.length_words]
  rfl

/-- The file is in the buffer. -/
theorem readMem_file (hlen : (wordBytes ws).length = kernelFileSize) (m : Mem) :
    SameFile sysKernelLoadAddr kernelFileSize (kernelFile ws) (readMem ws m) := by
  intro x h₁ h₂
  obtain ⟨k, rfl⟩ := Nat.exists_eq_add_of_le h₁
  have hk : k < (wordBytes ws).length := by omega
  exact Option.some.inj ((storeBytes_inside hk).symm.trans (storeBytes_inside hk))

theorem readMem_outside (hlen : (wordBytes ws).length = kernelFileSize) (m : Mem)
    (hx : x < sysKernelLoadAddr ∨ sysKernelLoadAddr + kernelFileSize ≤ x) :
    readMem ws m x = m x :=
  storeBytes_outside (by rw [hlen]; exact hx)

/-- The memory behind `reload_elf_file`, with a kernel in the buffer. -/
def loadedMem (ws : List (BitVec 16)) (m : Mem) : Mem :=
  writeBlocks (readMem ws m) (loadBlocks (readMem ws m) sysKernelLoadAddr 0
    (readEhdr (readMem ws m) sysKernelLoadAddr).ePhnum)

/-- With a kernel in the buffer the segments are loaded from it. -/
theorem reload_readMem (hlen : (wordBytes ws).length = kernelFileSize) (hb : Bootable ws pageDir)
    (m : Mem) : reloadElfFile (readMem ws m) sysKernelLoadAddr
      = some (kernelEntry ws, loadedMem ws m) := by
  have hfile := readMem_file hlen m
  unfold loadedMem kernelEntry
  rw [reloadElfFile_blocks (hb.wellFormed.congr hfile)
    (hb.segments.congr hb.wellFormed hfile), readEhdr_congr hb.wellFormed.header hfile]

/-- The memory behind the loading, in terms of the file. -/
theorem loaded_mem (hlen : (wordBytes ws).length = kernelFileSize) (hb : Bootable ws pageDir)
    (m : Mem) :
    (∀ i, IsLoad (kernelFile ws) sysKernelLoadAddr i →
      ∀ k < (phdrOf (kernelFile ws) sysKernelLoadAddr i).pMemsz,
        loadedMem ws m ((phdrOf (kernelFile ws) sysKernelLoadAddr i).pPaddr + k)
          = segmentByte (kernelFile ws) sysKernelLoadAddr
            (phdrOf (kernelFile ws) sysKernelLoadAddr i) k) ∧
    ∀ x, x < sysKernelLoadAddr ∨ sysKernelLoadAddr + kernelFileSize ≤ x → ¬ InKernel ws x →
      loadedMem ws m x = m x := by
  have hfile := readMem_file hlen m
  have hw := hb.wellFormed
  have hs := hb.segments.congr hw hfile
  refine ⟨fun i hi k hk => ?_, fun x hx hno => ?_⟩
  · have hi' := (isLoad_congr hw hfile).mpr hi
    have hdata := (hb.segments.loadable i hi).data
    have hbyte := segment_byte hs hi' (k := k) (by rw [phdrOf_congr hw hfile hi.1]; exact hk)
    rw [phdrOf_congr hw hfile hi.1] at hbyte
    refine hbyte.trans ?_
    unfold segmentByte
    split
    · exact hfile _ (by omega) (by omega)
    · rfl
  · refine (segment_outside hs fun i hi hc => ?_).trans (readMem_outside hlen m hx)
    have hi' := (isLoad_congr hw hfile).mp hi
    rw [phdrOf_congr hw hfile hi'.1] at hc
    exact hno ⟨i, hi', hc⟩

/-- What the kernel finds when it is called: its segments from the file, all memory but these and
the buffer as it was, and the lowest 4 MB mapped to themselves. -/
structure KernelEntered (ws : List (BitVec 16)) (s s' : Machine32 σ) : Prop where
  segments : ∀ i, IsLoad (kernelFile ws) sysKernelLoadAddr i →
    ∀ k < (phdrOf (kernelFile ws) sysKernelLoadAddr i).pMemsz,
      s'.mem ((phdrOf (kernelFile ws) sysKernelLoadAddr i).pPaddr + k)
        = segmentByte (kernelFile ws) sysKernelLoadAddr
          (phdrOf (kernelFile ws) sysKernelLoadAddr i) k
  others : ∀ x, x < sysKernelLoadAddr ∨ sysKernelLoadAddr + kernelFileSize ≤ x →
    ¬ InKernel ws x → s'.mem x = s.mem x
  paging : ∀ vaddr < 2 ^ 32, s'.translate vaddr = if vaddr < 2 ^ 22 then some vaddr else none

/-- A state with the memory behind the loading and the paging turned on. -/
theorem KernelEntered.intro {devices : σ} (hlen : (wordBytes ws).length = kernelFileSize)
    (hb : Bootable ws pageDir) (hdir : LoaderPageDir s.mem pageDir)
    (hlow : pageDir + 4 * pdeCnt ≤ sysKernelLoadAddr) :
    KernelEntered ws s
      (enablePageMode { s with mem := loadedMem ws s.mem, devices } pageDir) := by
  have hloaded := loaded_mem hlen hb s.mem
  generalize loadedMem ws s.mem = m' at hloaded ⊢
  obtain ⟨hsegments, hothers⟩ := hloaded
  refine ⟨hsegments, hothers, fun vaddr hv => translate_enabled (fun i hi => ?_) hv⟩
  -- Neither the file nor a segment lies over the `page_dir`.
  rw [← hdir i hi]
  exact load32_congr fun x h₁ h₂ => hothers x (.inl (by omega)) (hb.apart x (by omega) (by omega))

/-- Behind the two steps of the loader. -/
theorem loadKernel_eq {polls entry : Nat} {mem mem' : Mem} {devices : σ}
    (hread : readDisk p polls s.mem s.devices 100 500 sysKernelLoadAddr = some (mem, devices))
    (hload : reloadElfFile mem sysKernelLoadAddr = some (entry, mem')) :
    loadKernel p polls pageDir bootInfo s = some (if entry = 0
      then (.dead, { s with mem := mem', devices })
      else (.entered entry bootInfo, enablePageMode { s with mem := mem', devices } pageDir)) := by
  unfold loadKernel
  rw [hread, Option.bind_some, hload, Option.map_some]

/-- The words of a disk with the bytes `f`. -/
def diskWord (f : Nat → BitVec 8) (k : Nat) : BitVec 16 := f (2 * k + 1) ++ f (2 * k)

theorem wordBytes_diskWord (f : Nat → BitVec 8) (a n : Nat) :
    wordBytes ((List.range' a n).map (diskWord f)) = bytesAt f (2 * a) (2 * n) := by
  induction n generalizing a with
  | zero => rfl
  | succ n ih =>
    have hlo : (diskWord f a).extractLsb' 0 8 = f (2 * a) := BitVec.extractLsb'_append_eq_right
    have hhi : (diskWord f a).extractLsb' 8 8 = f (2 * a + 1) := BitVec.extractLsb'_append_eq_left
    show wordBytes (diskWord f a :: (List.range' (a + 1) n).map (diskWord f))
      = bytesAt f (2 * a) (2 * n + 1 + 1)
    rw [wordBytes_cons, ih, hlo, hhi, bytesAt_succ, bytesAt_succ]
    rfl

theorem wordsFrom_driveMedia (content : Nat → BitVec 16) (lba n : Nat) :
    Ata.wordsFrom (driveMedia content) lba n
      = (List.range' (Ata.sectorWords * lba) (Ata.sectorWords * n)).map content := by
  induction n generalizing lba with
  | zero => rfl
  | succ n ih =>
    show (List.range' (Ata.sectorWords * lba) Ata.sectorWords).map content
      ++ Ata.wordsFrom (driveMedia content) (lba + 1) n = _
    rw [ih, ← List.map_append, Nat.mul_succ Ata.sectorWords lba, List.range'_append_1, Nat.mul_succ,
      Nat.add_comm Ata.sectorWords]

/-- The words of the 500 sectors. -/
def diskWords (f : Nat → BitVec 8) : List (BitVec 16) :=
  Ata.wordsFrom (driveMedia (diskWord f)) 100 500

/-- The file on a disk with the bytes `f`. -/
def diskFile (f : Nat → BitVec 8) : Mem := fun x => f (sectorSize * 100 + (x - sysKernelLoadAddr))

theorem diskWords_file (f : Nat → BitVec 8) :
    SameFile sysKernelLoadAddr kernelFileSize (diskFile f) (kernelFile (diskWords f)) := by
  intro x h₁ h₂
  obtain ⟨k, rfl⟩ := Nat.exists_eq_add_of_le h₁
  have hk : k < kernelFileSize := by omega
  have hbytes : wordBytes (diskWords f) = bytesAt f (sectorSize * 100) kernelFileSize := by
    unfold diskWords
    rw [wordsFrom_driveMedia, wordBytes_diskWord, ← Nat.mul_assoc, ← Nat.mul_assoc]
    rfl
  have hlen : k < (bytesAt f (sectorSize * 100) kernelFileSize).length := by
    rw [length_bytesAt]
    exact hk
  have hbyte := storeBytes_inside (m := fun _ => 0#8) (a := sysKernelLoadAddr) hlen
  rw [getElem?_bytesAt _ _ hk] at hbyte
  unfold kernelFile diskFile
  rw [hbytes, Nat.add_sub_cancel_left]
  exact (Option.some.inj hbyte).symm

/-- The words are those that the drive gives. -/
theorem diskGives_drivePorts (f : Nat → BitVec 8) :
    ∃ d, DiskGives (drivePorts (diskWord f)) idleDrive 100 500 (diskWords f) d := by
  obtain ⟨d, hgives, -⟩ := diskGives_of_readsExt (readsExt_drivePorts (diskWord f))
    (s := idleDrive) rfl (by decide : 100 < 2 ^ 32) (by decide : 500 ≤ 2 ^ 16) fun _ _ => rfl
  exact ⟨d, hgives⟩

/-- A disk with `smallElf` from the sector 100 on. -/
def smallDisk (k : Nat) : BitVec 8 := .ofNat 8 (smallElf.getD (k - sectorSize * 100) 0)

theorem wellFormed_smallDisk : WellFormed (diskFile smallDisk) sysKernelLoadAddr kernelFileSize :=
  ⟨by decide +kernel, by decide, by decide, by decide +kernel⟩

/-- The headers on the disk are those of the file. -/
theorem smallHeaders_smallDisk :
    SmallHeaders (kernelFile (diskWords smallDisk)) sysKernelLoadAddr := by
  have h : SmallHeaders (diskFile smallDisk) sysKernelLoadAddr := ⟨rfl, rfl, rfl, rfl⟩
  have hphdr : ∀ i < 3, phdrOf (kernelFile (diskWords smallDisk)) sysKernelLoadAddr i
      = phdrOf (diskFile smallDisk) sysKernelLoadAddr i := fun i hi =>
    phdrOf_congr wellFormed_smallDisk (diskWords_file smallDisk) (by rw [h.phnum]; exact hi)
  refine ⟨?_, (hphdr 0 (by decide)).trans h.first, ?_, (hphdr 2 (by decide)).trans h.third⟩
  · rw [readEhdr_congr wellFormed_smallDisk.header (diskWords_file smallDisk)]
    exact h.phnum
  · rw [hphdr 1 (by decide)]
    exact h.note

theorem kernelEntry_smallDisk : kernelEntry (diskWords smallDisk) = 0x10000 := by
  unfold kernelEntry
  rw [readEhdr_congr wellFormed_smallDisk.header (diskWords_file smallDisk)]
  rfl

theorem bootable_smallDisk : Bootable (diskWords smallDisk) 0x9000 where
  wellFormed := wellFormed_smallDisk.congr (diskWords_file smallDisk)
  segments := smallHeaders_smallDisk.segments (by decide) (.inr (by decide))
  apart x h₁ h₂ hx := by
    obtain ⟨i, hi, hc⟩ := hx
    unfold pdeCnt at h₂
    rcases smallHeaders_smallDisk.isLoad.mp hi with rfl | rfl
    · rw [smallHeaders_smallDisk.first] at hc
      have hlow : 0x10000 ≤ x := hc.1
      omega
    · rw [smallHeaders_smallDisk.third] at hc
      have hlow : 0x20000 ≤ x := hc.1
      omega

/-- The state in front of `load_kernel`, with the `page_dir` at `0x9000`. -/
def smallLoader : Machine32 DriveState :=
  ⟨store32 (fun _ => 0#8) 0x9000 0x83, idleDrive, 0x11, 0, 0⟩

theorem loaderPageDir_smallLoader : LoaderPageDir smallLoader.mem 0x9000 := by
  intro i _
  by_cases hi : i = 0
  · subst hi
    exact load32_store32 _ _ (by decide)
  · rw [if_neg hi]
    exact load32_store32_apart _ _ (by omega)

end StartKernel
