import StartKernel.Proofs.FrameAlloc
import StartKernel.Proofs.Locked

/-!
# `StartKernel.Proofs.AllocLocked`: the page allocator under its mutex

`addr_alloc_page` and `addr_free_page` cut into steps, each with at most one access to the bitmap:
the loops of `bitmap_alloc_nbits` and `bitmap_set_bit` can be interrupted everywhere, also between
the load and the store of a byte.

* `allocBody_whole`: the steps of a call compute `addrAllocPage` or `addrFreePage`.
* `alloc_locked`: over every run of tasks that are switched in the middle of their calls, the calls
  act one after the other, and no frame is handed out twice.
-/

set_option autoImplicit false
set_option linter.unusedSectionVars false

namespace StartKernel

open Section (Body Turn Whole Entry Serial Replays)
open Trace (run)

variable {a a' d : AddrAlloc} {T M S : Type} {f g r : Nat}

/-! ### The steps of a call -/

/-- Where a call of the allocator is. `searchIdx`, `okIdx` and `i` are the locals of
`bitmap_alloc_nbits`; `index`, the bits that are left and `bit` are those of `bitmap_set_bit`, and
`addr` is the result of the call. -/
inductive AllocLocal
  /-- The loop condition of the search. -/
  | search (pageCount searchIdx : Nat)
  /-- The loop condition of the inner loop. -/
  | scan (pageCount okIdx i searchIdx : Nat)
  /-- The loop condition of `bitmap_set_bit`, and the load of a byte. -/
  | load (index count : Nat) (bit : Int) (addr : Nat)
  /-- The store of the byte. -/
  | store (index count : Nat) (bit : Int) (addr : Nat) (byte : BitVec 8)
  /-- `addr_free_page` computes the index. -/
  | free (addr pageCount : Nat)

/-- A byte of the bitmap with one bit changed. -/
def putBitByte (byte : BitVec 8) (index : Nat) (bit : Int) : BitVec 8 :=
  if bit ≠ 0 then byte ||| (1#8 <<< (index % 8)) else byte &&& ~~~(1#8 <<< (index % 8))

/-- The loop condition of the search, and the bit at the index. -/
def searchTurn (a : AddrAlloc) (pageCount searchIdx : Nat) : AddrAlloc × Turn AllocLocal Nat :=
  if (searchIdx : Int) < a.bitmap.bitCount then
    if bitmapGetBit a.bitmap searchIdx ≠ 0 then (a, .next (.search pageCount (searchIdx + 1)))
    else (a, .next (.scan pageCount searchIdx 1 searchIdx))
  else (a, .done 0)

/-- The loop condition of the inner loop, and the bit at the index. Behind the loop the run is long
enough, or the search goes on. -/
def scanTurn (a : AddrAlloc) (pageCount okIdx i searchIdx : Nat) :
    AddrAlloc × Turn AllocLocal Nat :=
  if i < pageCount ∧ (searchIdx : Int) < a.bitmap.bitCount then
    if bitmapGetBit a.bitmap searchIdx ≠ 0 then (a, .next (.search pageCount (searchIdx + 1)))
    else (a, .next (.scan pageCount okIdx (i + 1) (searchIdx + 1)))
  else if pageCount ≤ i then
    (a, .next (.load okIdx pageCount (-1) ((a.start + okIdx * a.pageSize) % 2 ^ 32)))
  else (a, .next (.search pageCount searchIdx))

/-- The loop condition of `bitmap_set_bit`, and the byte at the index. -/
def loadTurn (a : AddrAlloc) (index : Nat) (bit : Int) (addr : Nat) :
    Nat → AddrAlloc × Turn AllocLocal Nat
  | 0 => (a, .done addr)
  | count + 1 =>
    if (index : Int) < a.bitmap.bitCount then
      (a, .next (.store index count bit addr (a.bitmap.bits (index / 8))))
    else (a, .done addr)

/-- One step of a call. -/
def allocTurn (a : AddrAlloc) : AllocLocal → AddrAlloc × Turn AllocLocal Nat
  | .search pageCount searchIdx => searchTurn a pageCount searchIdx
  | .scan pageCount okIdx i searchIdx => scanTurn a pageCount okIdx i searchIdx
  | .load index count bit addr => loadTurn a index bit addr count
  | .store index count bit addr byte =>
    ({ a with bitmap := a.bitmap.setByte (index / 8) (putBitByte byte index bit) },
      .next (.load (index + 1) count bit addr))
  | .free addr pageCount =>
    (a, .next (.load (toU32 (addr - a.start) / a.pageSize) pageCount 0 0))

/-- The steps of a call. Nothing is read from outside. -/
def allocBody : Body Unit AllocCall AllocLocal AddrAlloc Nat where
  init
    | .alloc pageCount => .search pageCount 0
    | .free addr pageCount => .free addr pageCount
  step _ l a := allocTurn a l

/-- A call as one step: the allocator behind it, and the result. A call of `addr_free_page` has
none. -/
def allocCall : AllocCall → AddrAlloc → AddrAlloc × Nat
  | .alloc pageCount, a => (addrAllocPage a pageCount).swap
  | .free addr pageCount, a => (addrFreePage a addr pageCount, 0)

/-! ### What is left of a call -/

/-- The end of a call that found a run, or none. -/
def foundPages (a : AddrAlloc) : Option Nat × Bitmap → AddrAlloc × Nat
  | (some i, bitmap) => ({ a with bitmap }, (a.start + i * a.pageSize) % 2 ^ 32)
  | (none, bitmap) => ({ a with bitmap }, 0)

/-- What is left of a call. -/
def allocRest (a : AddrAlloc) : AllocLocal → AddrAlloc × Nat
  | .search pageCount searchIdx => foundPages a (bitmapSearch a.bitmap 0 pageCount searchIdx)
  | .scan pageCount okIdx i searchIdx =>
    let end' := bitmapScan a.bitmap 0 pageCount i searchIdx
    if pageCount ≤ end'.1 then
      foundPages a (some okIdx, bitmapSetBit a.bitmap okIdx pageCount (-1))
    else foundPages a (bitmapSearch a.bitmap 0 pageCount end'.2)
  | .load index count bit addr =>
    ({ a with bitmap := bitmapSetBit a.bitmap index count bit }, addr)
  | .store index count bit addr byte =>
    let bitmap := a.bitmap.setByte (index / 8) (putBitByte byte index bit)
    ({ a with bitmap := bitmapSetBit bitmap (index + 1) count bit }, addr)
  | .free addr pageCount => (addrFreePage a addr pageCount, 0)

/-- A step keeps what is left, or it ends the call with the result. -/
def KeepsRest (a : AddrAlloc) (l : AllocLocal) : AddrAlloc × Turn AllocLocal Nat → Prop
  | (a', .next l') => allocRest a' l' = allocRest a l
  | (a', .done r) => allocRest a l = (a', r)

theorem searchTurn_rest (a : AddrAlloc) (pageCount searchIdx : Nat) :
    KeepsRest a (.search pageCount searchIdx) (searchTurn a pageCount searchIdx) := by
  have hdef := bitmapSearch.eq_def a.bitmap 0 pageCount searchIdx
  unfold searchTurn
  by_cases hin : (searchIdx : Int) < a.bitmap.bitCount
  · rw [dif_pos hin] at hdef
    rw [if_pos hin]
    by_cases hbit : bitmapGetBit a.bitmap searchIdx ≠ 0
    · rw [if_pos hbit] at hdef
      rw [if_pos hbit]
      show foundPages a _ = foundPages a _
      rw [hdef]
    · rw [if_neg hbit] at hdef
      rw [if_neg hbit]
      show (if _ then _ else _) = foundPages a _
      rw [hdef]
      -- The complement of 0 is -1.
      split
      · rfl
      · rfl
  · rw [dif_neg hin] at hdef
    rw [if_neg hin]
    show foundPages a _ = _
    rw [hdef]
    rfl

theorem scanTurn_rest (a : AddrAlloc) (pageCount okIdx i searchIdx : Nat) :
    KeepsRest a (.scan pageCount okIdx i searchIdx) (scanTurn a pageCount okIdx i searchIdx) := by
  have hdef := bitmapScan.eq_def a.bitmap 0 pageCount i searchIdx
  unfold scanTurn
  by_cases hin : i < pageCount ∧ (searchIdx : Int) < a.bitmap.bitCount
  · rw [if_pos hin] at hdef
    rw [if_pos hin]
    by_cases hbit : bitmapGetBit a.bitmap searchIdx ≠ 0
    · rw [if_pos hbit] at hdef
      rw [if_pos hbit]
      show foundPages a _ = if _ then _ else _
      rw [hdef, if_neg (by simp only; omega)]
    · rw [if_neg hbit] at hdef
      rw [if_neg hbit]
      show (if _ then _ else _) = if _ then _ else _
      rw [hdef]
  · rw [if_neg hin] at hdef
    rw [if_neg hin]
    by_cases hi : pageCount ≤ i
    · rw [if_pos hi]
      show _ = if _ then _ else _
      rw [hdef, if_pos hi]
      rfl
    · rw [if_neg hi]
      show _ = if _ then _ else _
      rw [hdef, if_neg hi]
      rfl

theorem loadTurn_rest (a : AddrAlloc) (index : Nat) (bit : Int) (addr count : Nat) :
    KeepsRest a (.load index count bit addr) (loadTurn a index bit addr count) := by
  cases count with
  | zero => rfl
  | succ count =>
    rw [loadTurn]
    by_cases hin : (index : Int) < a.bitmap.bitCount
    · rw [if_pos hin]
      show _ =
        (({ a with bitmap := bitmapSetBit a.bitmap index (count + 1) bit } : AddrAlloc), addr)
      rw [bitmapSetBit, if_pos hin]
      rfl
    · rw [if_neg hin]
      show (({ a with bitmap := bitmapSetBit a.bitmap index (count + 1) bit } : AddrAlloc), addr)
        = _
      rw [bitmapSetBit, if_neg hin]

theorem allocTurn_rest (a : AddrAlloc) (l : AllocLocal) : KeepsRest a l (allocTurn a l) := by
  cases l with
  | search pageCount searchIdx => exact searchTurn_rest a pageCount searchIdx
  | scan pageCount okIdx i searchIdx => exact scanTurn_rest a pageCount okIdx i searchIdx
  | load index count bit addr => exact loadTurn_rest a index bit addr count
  | store index count bit addr byte => rfl
  | free addr pageCount => rfl

/-- The steps of a call compute the function of the source. -/
theorem allocBody_whole {j : AllocCall} (h : Whole allocBody j a r a') :
    allocCall j a = (a', r) := by
  refine Whole.eq (g := fun l a => allocRest a l) (fun j a => ?_) (fun e l a a' l' hs => ?_)
    (fun e l a a' r hs => ?_) h
  · cases j with
    | alloc pageCount =>
      show foundPages a (bitmapAllocNbits a.bitmap 0 pageCount) = (addrAllocPage a pageCount).swap
      unfold addrAllocPage foundPages
      rcases bitmapAllocNbits a.bitmap 0 pageCount with ⟨pageIndex, bitmap⟩
      cases pageIndex <;> rfl
    | free addr pageCount => rfl
  · have hs : allocTurn a l = (a', .next l') := hs
    have hrest := allocTurn_rest a l
    rw [hs] at hrest
    exact hrest
  · have hs : allocTurn a l = (a', .done r) := hs
    have hrest := allocTurn_rest a l
    rw [hs] at hrest
    exact hrest

/-! ### Frames over calls in a row -/

/-- A call of the memory functions: one page, and what is given back is a frame or an address of
the user half. -/
def FrameCall : AllocCall → Prop
  | .alloc pageCount => pageCount = 1
  | .free addr pageCount =>
    (pageCount = 1 ∧ IsFrame addr) ∨ (0x80000000 ≤ addr ∧ addr < 2 ^ 32)

instance (f : Nat) : Decidable (IsFrame f) :=
  decidable_of_iff (f % 4096 = 0 ∧ 0x100000 ≤ f ∧ f + 4096 ≤ 0x8000000)
    ⟨fun h => ⟨h.1, h.2.1, h.2.2⟩, fun h => ⟨h.aligned, h.above, h.below⟩⟩

instance : DecidablePred FrameCall
  | .alloc pageCount => inferInstanceAs (Decidable (pageCount = 1))
  | .free addr pageCount => inferInstanceAs (Decidable ((pageCount = 1 ∧ IsFrame addr) ∨
      (0x80000000 ≤ addr ∧ addr < 2 ^ 32)))

/-- A call keeps the shape of the allocator. -/
theorem allocCall_shape (h : PallocShape a) {j : AllocCall} (hj : FrameCall j) :
    PallocShape (allocCall j a).1 := by
  cases j with
  | alloc pageCount =>
    obtain rfl : pageCount = 1 := hj
    show PallocShape (addrAllocPage a 1).2
    rcases addrAllocPage_one h with ⟨f, a', he, ha⟩ | ⟨he, -⟩
    · rw [he]
      exact ha.shape
    · rw [he]
      exact h
  | free addr pageCount =>
    show PallocShape (addrFreePage a addr pageCount)
    rcases hj with ⟨rfl, hf⟩ | ⟨h₁, h₂⟩
    · exact (addrFreePage_one h hf).1
    · rw [addrFreePage_user h h₁ h₂]
      exact h

/-- A taken frame stays taken through a call that does not give it back. -/
theorem allocCall_taken (h : PallocShape a) {j : AllocCall} (hj : FrameCall j)
    (hne : j ≠ .free f 1) (ht : Taken a f) : Taken (allocCall j a).1 f := by
  cases j with
  | alloc pageCount =>
    obtain rfl : pageCount = 1 := hj
    show Taken (addrAllocPage a 1).2 f
    rcases addrAllocPage_one h with ⟨g, a', he, ha⟩ | ⟨he, -⟩
    · rw [he]
      exact (ha.taken f).mpr (Or.inl ht)
    · rw [he]
      exact ht
  | free addr pageCount =>
    show Taken (addrFreePage a addr pageCount) f
    rcases hj with ⟨rfl, hf⟩ | ⟨h₁, h₂⟩
    · exact ((addrFreePage_one h hf).2 f).mpr ⟨ht, fun hfa => hne (by rw [hfa])⟩
    · rw [addrFreePage_user h h₁ h₂]
      exact ht

/-- The frame that a call hands out was free, and it is taken. -/
theorem allocCall_fresh (h : PallocShape a) (hne : (allocCall (.alloc 1) a).2 ≠ 0) :
    ¬ Taken a (allocCall (.alloc 1) a).2 ∧
      Taken (allocCall (.alloc 1) a).1 (allocCall (.alloc 1) a).2 := by
  have hcall : allocCall (.alloc 1) a = (addrAllocPage a 1).swap := rfl
  rw [hcall] at hne ⊢
  rcases addrAllocPage_one h with ⟨f, a', he, ha⟩ | ⟨he, -⟩
  · rw [he]
    exact ⟨ha.fresh, (ha.taken f).mpr (Or.inr rfl)⟩
  · rw [he] at hne
    exact absurd rfl hne

/-- Between two calls that hand out the same frame, a call gives it back. -/
theorem replays_freed {xs ys zs : List (Entry T AllocCall Nat)} {x y : Entry T AllocCall Nat}
    (h : Replays allocCall a (xs ++ x :: (ys ++ y :: zs)) a') (hshape : PallocShape a)
    (hjobs : ∀ z ∈ xs ++ x :: (ys ++ y :: zs), FrameCall z.job) (hx : x.job = .alloc 1)
    (hy : y.job = .alloc 1) (hsame : y.result = x.result) (hne : x.result ≠ 0) :
    ∃ z ∈ ys, z.job = .free x.result 1 := by
  by_contra hnone
  obtain ⟨a₁, h₁, hresult, h₂⟩ := Section.replays_append.mp h
  obtain ⟨a₃, h₃, hresult', -⟩ := Section.replays_append.mp h₂
  rw [hx] at hresult h₃
  rw [hy, hsame] at hresult'
  have hshape₁ : PallocShape a₁ := by
    refine h₁.invariant (I := PallocShape) (fun z hz d hd => ?_) hshape
    exact allocCall_shape hd (hjobs z (List.mem_append_left _ hz))
  obtain ⟨-, htaken⟩ := allocCall_fresh hshape₁ (hresult ▸ hne)
  rw [hresult] at htaken
  -- The frame stays taken from the first call to the second.
  have hkept : PallocShape a₃ ∧ Taken a₃ x.result := by
    refine h₃.invariant (I := fun d => PallocShape d ∧ Taken d x.result) (fun z hz d hd => ?_)
      ⟨allocCall_shape hshape₁ rfl, htaken⟩
    have hz' : FrameCall z.job := hjobs z (by simp [hz])
    exact ⟨allocCall_shape hd.1 hz', allocCall_taken hd.1 hz' (fun hj => hnone ⟨z, hz, hj⟩) hd.2⟩
  have hfresh := (allocCall_fresh hkept.1 (hresult' ▸ hne)).1
  rw [hresult'] at hfresh
  exact hfresh hkept.2

/-! ### The tasks -/

section Tasks

variable [DecidableEq T] [HasIdle T] [DecidableEq M] [DecidableEq S]

/-- The calls of all tasks on the allocator `a`, up to the state `c`. -/
structure AllocSerial (a : AddrAlloc) (c : Locked T M S AllocCall AllocLocal AddrAlloc Nat) :
    Prop where
  /-- The calls that are over are calls of `addr_alloc_page` and `addr_free_page` in a row, and
  between calls the allocator is as the last one left it. -/
  serial : ∃ a', Replays allocCall a c.log a' ∧
    ((∀ t j l, c.phase t ≠ .inside j l) → c.data = a')
  /-- One task at most is inside of a call. -/
  one : ∀ t u j j' l l', c.phase t = .inside j l → c.phase u = .inside j' l' → t = u
  /-- A frame is handed out again only after it was given back. -/
  once : (∀ x ∈ c.log, FrameCall x.job) → ∀ xs ys zs x y, c.log = xs ++ x :: (ys ++ y :: zs) →
    x.job = .alloc 1 → y.job = .alloc 1 → y.result = x.result → x.result ≠ 0 →
      ∃ z ∈ ys, z.job = .free x.result 1

/-- Tasks that call the page allocator under its mutex. -/
theorem alloc_locked {m : M} {c c' : Locked T M S AllocCall AllocLocal AddrAlloc Nat}
    {ls : List (LockedLabel M S Unit AllocCall)} (h : LockedStart m c)
    (hshape : PallocShape c.data) (hfit : ∀ l ∈ ls, LockedFits l)
    (hrun : run (lockedStep m allocBody) c ls = some c') : AllocSerial c.data c' := by
  obtain ⟨⟨a, hserial, -, hidle⟩, hone⟩ := locked_serial h hfit hrun
  have hreplays := hserial.replays fun _ _ _ _ hw => allocBody_whole hw
  refine ⟨⟨a, hreplays, hidle⟩, hone, fun hjobs xs ys zs x y hlog hx hy hsame hne => ?_⟩
  rw [hlog] at hreplays hjobs
  exact replays_freed hreplays hshape hjobs hx hy hsame hne

/-- Two tasks, and an allocator with two pages. -/
def twoTasks : Locked (Fin 3) Unit Unit AllocCall AllocLocal AddrAlloc Nat where
  cfg := startConfig (readySched [1, 2] 0)
  data := addrAllocInit (fun _ => 0#8) 0x100000 0x2000 0x1000
  phase _ := .out
  log := []

/-- Each task takes a page. The first one is switched out between the load and the store of the
byte, and the second one waits. -/
def twoTasksRun : List (LockedLabel Unit Unit Unit AllocCall) :=
  [.lock (.alloc 1), .work (), .work (), .work (), .kernel (.start .schedYield), .lock (.alloc 1),
    .kernel .resume, .work (), .work (), .unlock, .kernel (.start .schedYield), .kernel .resume,
    .work (), .work (), .work (), .work (), .work (), .work (), .unlock]

theorem alloc_locked_two_tasks :
    ∃ c', run (lockedStep () allocBody) twoTasks twoTasksRun = some c' ∧
      c'.log.map (fun x => (x.agent, x.result)) = [(1, 0x100000), (2, 0x101000)] ∧
      AllocSerial twoTasks.data c' := by
  have hrun : (run (lockedStep () allocBody) twoTasks twoTasksRun).map
      (fun c => decide (c.log.map (fun x => (x.agent, x.result)) =
        [(1, 0x100000), (2, 0x101000)])) = some true := by
    decide +kernel
  obtain ⟨c, hc, hd⟩ := Option.map_eq_some_iff.mp hrun
  have hstart : LockedStart () twoTasks := by
    refine ⟨?_, rfl, fun _ => pendsOther_none (), fun _ => rfl, rfl⟩
    exact readySched_inv (by decide) (by decide) 0
  have hshape : PallocShape twoTasks.data := ⟨rfl, rfl, rfl, rfl, by decide⟩
  exact ⟨c, hc, of_decide_eq_true hd, alloc_locked hstart hshape (by decide) hc⟩

end Tasks

end StartKernel
