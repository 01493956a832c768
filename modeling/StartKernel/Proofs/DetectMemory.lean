import StartKernel.Abs.FirmwareMap
import StartKernel.Loader.Detect
import StartKernel.Proofs.MemorySize

/-!
# `StartKernel.Proofs.DetectMemory`: the regions that the loader finds

`detect_memory` leaves out the test for the end of the map when it ignores an entry. When that entry
is the last one, the BIOS begins again with the first one, and the loader records regions twice.

* `Delivers`: a BIOS that delivers a memory map. `biosOf_delivers`: there is one for every map.
* `detectLoop_inside`: whatever the BIOS answers, the array is not overrun.
* `detectLoop_spec`: what the loop records.
* `detectMemory_iff`: the regions are the usable ones, each once, exactly when the loader is not led
  back to a usable entry.
* `detectMemory_loaderMap`: the kernel gets a map that it can work with.
-/

set_option autoImplicit false

namespace StartKernel

open FirmwareMap

variable {int15 : Int15} {es : List Entry} {cont : Nat → Nat} {buf : SmapEntry}
  {info : RegionArray} {e : Entry} {contID next i n : Nat}

/-! ### The array -/

/-- A region at the end of the array. -/
theorem RegionArray.bootInfo_add (info : RegionArray) (region : Nat × Nat) :
    (info.add region).bootInfo.ramRegionCfg = info.bootInfo.ramRegionCfg ++ [region] := by
  have hsame : ∀ j ∈ List.range info.ramRegionCount,
      Function.update info.ramRegionCfg info.ramRegionCount region j = info.ramRegionCfg j := by
    intro j hj
    exact Function.update_of_ne (Nat.ne_of_lt (List.mem_range.mp hj)) _ _
  show (List.range (info.ramRegionCount + 1)).map (Function.update _ _ region) = _
  rw [List.range_succ, List.map_append, List.map_congr_left hsame, List.map_singleton,
    Function.update_self]
  rfl

/-- The regions of a list at the end of the array. -/
def RegionArray.addAll (info : RegionArray) (regions : List (Nat × Nat)) : RegionArray :=
  regions.foldl RegionArray.add info

theorem RegionArray.addAll_append (info : RegionArray) (rs rs' : List (Nat × Nat)) :
    info.addAll (rs ++ rs') = (info.addAll rs).addAll rs' := List.foldl_append

theorem RegionArray.bootInfo_addAll (info : RegionArray) (rs : List (Nat × Nat)) :
    (info.addAll rs).bootInfo.ramRegionCfg = info.bootInfo.ramRegionCfg ++ rs := by
  induction rs generalizing info with
  | nil => exact (List.append_nil _).symm
  | cons region rs ih =>
    show ((info.add region).addAll rs).bootInfo.ramRegionCfg = _
    rw [ih, RegionArray.bootInfo_add, List.append_assoc]
    rfl

/-- One iteration, whatever the BIOS answers: at most one region is recorded, and the loop ends or
goes on. -/
theorem detectLoop_cases {after : RegionArray}
    (he : detectLoop int15 contID buf info (n + 1) = after) :
    ∃ info' : RegionArray, (info' = info ∨ ∃ region, info' = info.add region) ∧
      (after = info' ∨ ∃ contID' buf', after = detectLoop int15 contID' buf' info' n) := by
  unfold detectLoop at he
  dsimp only at he
  split at he
  · exact ⟨info, Or.inl rfl, Or.inl he.symm⟩
  split at he
  · exact ⟨info, Or.inl rfl, Or.inr ⟨_, _, he.symm⟩⟩
  -- The array after the test of the type.
  generalize hinfo : ite ((int15 contID buf).entry.type = 1) _ info = info' at he
  have hbody : info' = info ∨ ∃ region, info' = info.add region := by
    rw [← hinfo]
    split
    · exact Or.inr ⟨_, rfl⟩
    · exact Or.inl rfl
  split at he
  · exact ⟨info', hbody, Or.inl he.symm⟩
  · exact ⟨info', hbody, Or.inr ⟨_, _, he.symm⟩⟩

/-- Whatever the BIOS answers: `n` iterations record at most `n` regions, and write to no other
place of the array. -/
theorem detectLoop_inside (int15 : Int15) (contID : Nat) (buf : SmapEntry) (info : RegionArray)
    (n : Nat) : (detectLoop int15 contID buf info n).ramRegionCount ≤ info.ramRegionCount + n ∧
      ∀ j, info.ramRegionCount + n ≤ j →
        (detectLoop int15 contID buf info n).ramRegionCfg j = info.ramRegionCfg j := by
  induction n generalizing contID buf info with
  | zero => exact ⟨Nat.le_refl _, fun _ _ => rfl⟩
  | succ n ih =>
    obtain ⟨info', hbody, hloop⟩ :=
      detectLoop_cases (rfl : detectLoop int15 contID buf info (n + 1) = _)
    have hcount : info'.ramRegionCount ≤ info.ramRegionCount + 1 := by
      rcases hbody with rfl | ⟨region, rfl⟩
      · exact Nat.le_succ _
      · exact Nat.le_refl _
    have hkeep : ∀ j, info.ramRegionCount + (n + 1) ≤ j →
        info'.ramRegionCfg j = info.ramRegionCfg j := by
      intro j hj
      rcases hbody with rfl | ⟨region, rfl⟩
      · rfl
      · exact Function.update_of_ne (show j ≠ info.ramRegionCount by omega) _ _
    rcases hloop with hend | ⟨contID', buf', hgo⟩
    · rw [hend]
      exact ⟨by omega, hkeep⟩
    · obtain ⟨hcount', hkeep'⟩ := ih contID' buf' info'
      rw [hgo]
      exact ⟨by omega, fun j hj => (hkeep' j (by omega)).trans (hkeep j hj)⟩

/-! ### The BIOS -/

/-- A call that delivers the entry `e`, with the `contID` of the one behind it. Without attributes
only 20 bytes are delivered. -/
structure Returns (out : Int15Out) (e : Entry) (next : Nat) : Prop where
  signature : out.signature = smapSignature
  contID : out.contID = next
  base : out.entry.baseL = e.base % 2 ^ 32
  length : out.entry.lengthL = e.length % 2 ^ 32
  type : out.entry.type = e.type
  short : e.acpi = none → out.bytes = 20
  long : ∀ w, e.acpi = some w → out.bytes = 24 ∧ out.entry.acpi = w

/-- The BIOS delivers the memory map `es`. The `contID` of an entry is `cont`: it is 0 for the first
entry only, and 0 also follows the last one. Without entries, a call fails. -/
structure Delivers (int15 : Int15) (es : List Entry) (cont : Nat → Nat) : Prop where
  first : cont 0 = 0
  more : ∀ i, 0 < i → i < es.length → cont i ≠ 0
  call : ∀ i e, es[i]? = some e → ∀ buf,
    Returns (int15 (cont i) buf) e (if i + 1 < es.length then cont (i + 1) else 0)
  empty : es = [] → ∀ buf, (int15 0 buf).signature ≠ smapSignature

/-- The loader ignores the entries that are to be ignored. -/
theorem Returns.ignored_iff {out : Int15Out} (h : Returns out e next) :
    (out.bytes > 20 ∧ out.entry.acpi &&& 1 = 0) ↔ e.ignored = true := by
  unfold Entry.ignored
  cases hacpi : e.acpi with
  | none =>
    rw [h.short hacpi]
    simp
  | some w =>
    obtain ⟨hbytes, hw⟩ := h.long w hacpi
    rw [hbytes, hw]
    simp

/-- One iteration records the entry when it is usable, and is the last one when the entry is not
ignored and no entry follows. -/
theorem detectLoop_step (h : Returns (int15 contID buf) e next) (info : RegionArray) (n : Nat) :
    detectLoop int15 contID buf info (n + 1)
      = if e.ignored = false ∧ next = 0 then info.addAll (usableRegions [e])
        else detectLoop int15 next (int15 contID buf).entry
          (info.addAll (usableRegions [e])) n := by
  conv => lhs; unfold detectLoop
  simp only [h.signature, ne_eq, not_true_eq_false, if_false, h.ignored_iff, h.contID, h.base,
    h.length, h.type]
  have husable : usableRegions [e] = if e.usable then [e.region] else [] := by
    unfold usableRegions
    cases hu : e.usable <;> simp [hu]
  rw [husable]
  cases hignored : e.ignored with
  | true =>
    -- Nothing is recorded, and `contID` is not tested.
    have hnot : e.usable = false := by simp [Entry.usable, hignored]
    rw [hnot]
    rfl
  | false =>
    have htype : (e.usable = true) ↔ e.type = 1 := by simp [Entry.usable, hignored]
    have hadd : (if e.type = 1 then info.add e.region else info)
        = info.addAll (if e.type = 1 then [e.region] else []) := by
      split <;> rfl
    simp only [htype, true_and, Bool.false_eq_true, if_false, ← hadd]
    rfl

/-- What the loop records, from the entry `i` on. -/
theorem detectLoop_spec (hd : Delivers int15 es cont) (buf : SmapEntry) (info : RegionArray)
    (hi : i < es.length) (n : Nat) : detectLoop int15 (cont i) buf info n
      = info.addAll (usableRegions (delivered es n (es.drop i))) := by
  induction n generalizing i buf info with
  | zero => rfl
  | succ n ih =>
    have hget : es[i]? = some es[i] := List.getElem?_eq_getElem hi
    have hsingle : ∀ rest, usableRegions (es[i] :: rest)
        = usableRegions [es[i]] ++ usableRegions rest := usableRegions_append [es[i]]
    rw [detectLoop_step (hd.call i _ hget buf), List.drop_eq_getElem_cons hi]
    by_cases hlast : i + 1 < es.length
    · -- An entry follows, and its `contID` is not 0.
      have hrest : es.drop (i + 1) ≠ [] := fun h => absurd (List.drop_eq_nil_iff.mp h) (by omega)
      rw [delivered_cons es _ n hrest, hsingle (delivered _ _ _), RegionArray.addAll_append,
        if_pos hlast, if_neg (fun h => hd.more (i + 1) (Nat.succ_pos i) hlast h.2), ih _ _ hlast]
    · have hrest : es.drop (i + 1) = [] := List.drop_eq_nil_of_le (by omega)
      rw [hrest, delivered_last, hsingle (ite _ _ _), RegionArray.addAll_append, if_neg hlast]
      cases hignored : es[i].ignored with
      | false => exact if_pos ⟨rfl, rfl⟩
      | true =>
        -- The call after the last entry begins again with the first one.
        have hagain := ih (int15 (cont i) buf).entry (info.addAll (usableRegions [es[i]]))
          (by omega : 0 < es.length)
        rw [hd.first, List.drop_zero] at hagain
        rw [if_neg (fun h => Bool.noConfusion h.1), if_pos rfl]
        exact hagain

/-- What `detect_memory` records. -/
theorem detectMemory_spec (hd : Delivers int15 es cont) (buf : SmapEntry) (info : RegionArray) :
    (detectMemory int15 buf info).bootInfo.ramRegionCfg
      = usableRegions (delivered es bootRamRegionMax es) := by
  have hrun : detectMemory int15 buf info = RegionArray.addAll { info with ramRegionCount := 0 }
      (usableRegions (delivered es bootRamRegionMax es)) := by
    by_cases hes : es = []
    · subst hes
      exact if_pos (hd.empty rfl buf)
    · have hloop := detectLoop_spec hd buf { info with ramRegionCount := 0 }
        (List.length_pos_of_ne_nil hes) bootRamRegionMax
      rwa [hd.first] at hloop
  rw [hrun, RegionArray.bootInfo_addAll]
  rfl

/-- The loader records the usable regions among the first ten entries of the map, in order and each
once, if and only if the map has at least ten entries, or its last entry is not ignored, or no
usable entry is among those that it reads again. -/
theorem detectMemory_iff (hd : Delivers int15 es cont) (buf : SmapEntry) (info : RegionArray) :
    (detectMemory int15 buf info).bootInfo.ramRegionCfg
          = usableRegions (es.take bootRamRegionMax) ∧
        (detectMemory int15 buf info).ramRegionCount ≤ bootRamRegionMax ↔
      bootRamRegionMax ≤ es.length ∨ (∀ e, es.getLast? = some e → e.ignored = false) ∨
        ∀ e ∈ es.take (bootRamRegionMax - es.length), e.usable = false := by
  obtain ⟨hcount, -⟩ :=
    detectLoop_inside int15 0 buf { info with ramRegionCount := 0 } bootRamRegionMax
  rw [Nat.zero_add] at hcount
  rw [detectMemory_spec hd, ← usableRegions_delivered_iff]
  exact and_iff_left hcount

/-- Without a region that is read again, and with usable regions below 4 GB that do not overlap and
leave no gap from 1 MB on, the kernel gets boot information that it can work with. -/
theorem detectMemory_loaderMap (hd : Delivers int15 es cont) (buf : SmapEntry) (info : RegionArray)
    (hlast : ∀ e, es.getLast? = some e → e.ignored = false)
    (hbits : ∀ e ∈ es, e.usable = true → e.base < 2 ^ 32 ∧ e.length < 2 ^ 32 ∧
      e.base + e.length ≤ 2 ^ 32)
    (hdisjoint : es.Pairwise fun e d => Ranges.Disjoint (e.base, e.length) (d.base, d.length))
    (hgap : ∃ stop, memExtStart ≤ stop ∧ ∀ x, memExtStart ≤ x →
      ((∃ e ∈ es.take bootRamRegionMax, e.usable = true ∧ Ranges.Covers (e.base, e.length) x) ↔
        x < stop)) : LoaderMap (detectMemory int15 buf info).bootInfo := by
  have hregions : (detectMemory int15 buf info).bootInfo.ramRegionCfg
      = usableRegions (es.take bootRamRegionMax) :=
    ((detectMemory_iff hd buf info).mpr (Or.inr (Or.inl hlast))).1
  have htake : (es.take bootRamRegionMax).Sublist es := List.take_sublist _ _
  -- The low words of a usable entry are all of it.
  have hlow : ∀ e ∈ (es.take bootRamRegionMax).filter Entry.usable,
      e.region = (e.base, e.length) := by
    intro e he
    obtain ⟨hbase, hlength, -⟩ := hbits e (htake.subset (List.mem_of_mem_filter he))
      (List.of_mem_filter he)
    unfold Entry.region
    rw [Nat.mod_eq_of_lt hbase, Nat.mod_eq_of_lt hlength]
  have hcfg : (detectMemory int15 buf info).bootInfo.ramRegionCfg
      = ((es.take bootRamRegionMax).filter Entry.usable).map fun e => (e.base, e.length) :=
    hregions.trans (List.map_congr_left hlow)
  refine ⟨?_, ?_, ?_, ?_⟩
  · rw [hcfg, List.length_map]
    exact (List.length_filter_le _ _).trans (List.length_take_le _ _)
  · rw [hcfg]
    intro region hregion
    obtain ⟨e, he, rfl⟩ := List.mem_map.mp hregion
    exact hbits e (htake.subset (List.mem_of_mem_filter he)) (List.of_mem_filter he)
  · rw [hcfg, List.pairwise_map]
    exact (hdisjoint.sublist htake).sublist List.filter_sublist
  · obtain ⟨stop, hstop, hram⟩ := hgap
    refine ⟨stop, hstop, fun x hx => ?_⟩
    unfold BootInfo.InRam
    rw [← hram x hx, hcfg]
    simp only [List.mem_map, List.mem_filter]
    constructor
    · rintro ⟨region, ⟨e, ⟨he, hu⟩, rfl⟩, hcover⟩
      exact ⟨e, he, hu, hcover⟩
    · rintro ⟨e, he, hu, hcover⟩
      exact ⟨_, ⟨e, ⟨he, hu⟩, rfl⟩, hcover⟩

/-- A BIOS that keeps the memory map in a list: `contID` is the index of an entry. -/
def biosOf (es : List Entry) : Int15 := fun contID buf =>
  match es[contID]? with
  | none => ⟨0, 0, 0, buf⟩
  | some e =>
    { signature := smapSignature
      bytes := if e.acpi.isSome then 24 else 20
      contID := if contID + 1 < es.length then contID + 1 else 0
      entry := ⟨e.base % 2 ^ 32, e.base / 2 ^ 32, e.length % 2 ^ 32, e.length / 2 ^ 32, e.type,
        e.acpi.getD buf.acpi⟩ }

/-- There is a BIOS for every memory map. -/
theorem biosOf_delivers (es : List Entry) : Delivers (biosOf es) es id where
  first := rfl
  more i hi _ := Nat.ne_of_gt hi
  call i e hget buf := by
    show Returns (biosOf es i buf) e _
    unfold biosOf
    rw [hget]
    refine ⟨rfl, rfl, rfl, rfl, rfl, fun hnone => ?_, fun w hw => ?_⟩
    · simp [hnone]
    · simp [hw]
  empty hes buf := by
    subst hes
    show (0 : Int) ≠ smapSignature
    decide

/-- What the loader finds on a machine, with a stack and an array of zeros. -/
def detected (es : List Entry) : RegionArray :=
  detectMemory (biosOf es) ⟨0, 0, 0, 0, 0, 0⟩ ⟨fun _ => (0, 0), 0⟩

/-- A machine with two regions, and the reserved one of the BIOS between them. -/
def twoRegions : List Entry :=
  [⟨0, 0x9fc00, 1, none⟩, ⟨0xf0000, 0x10000, 2, some 1⟩, ⟨0x100000, 0xf00000, 1, some 1⟩]

theorem detectMemory_iff_two_regions :
    (detected twoRegions).bootInfo.ramRegionCfg
          = usableRegions (twoRegions.take bootRamRegionMax) ∧
        (detected twoRegions).ramRegionCount ≤ bootRamRegionMax ↔
      bootRamRegionMax ≤ twoRegions.length ∨
        (∀ e, twoRegions.getLast? = some e → e.ignored = false) ∨
        ∀ e ∈ twoRegions.take (bootRamRegionMax - twoRegions.length), e.usable = false :=
  detectMemory_iff (biosOf_delivers twoRegions) _ _

/-- A machine with one region. The last entry of its map is to be ignored. -/
def ignoredLast : List Entry := [⟨0x100000, 0xf00000, 1, none⟩, ⟨0xfffc0000, 0x40000, 2, some 0⟩]

/-- When the last entry is to be ignored, the region is recorded five times. -/
theorem not_detectMemory_ignoredLast : Delivers (biosOf ignoredLast) ignoredLast id ∧
    (detected ignoredLast).bootInfo.ramRegionCfg = List.replicate 5 (0x100000, 0xf00000) ∧
    (detected ignoredLast).bootInfo.ramRegionCfg
      ≠ usableRegions (ignoredLast.take bootRamRegionMax) :=
  ⟨biosOf_delivers ignoredLast, by decide, by decide⟩

end StartKernel
