import Mathlib.Data.List.Basic
import Mathlib.Data.Nat.Bitwise

/-!
# `StartKernel.Abs.FirmwareMap`: the memory map of the firmware

The firmware keeps a list of entries, and a reader asks for them one by one. `delivered` is what a
reader sees in `n` calls when it stops behind the last entry, except that it begins again when it
ignores that entry.

* `delivered_of_le`, `delivered_of_stop`: a reader that is not led back to the first entry.
* `delivered_split`: what a reader sees twice are entries of the map.
* `usableRegions_delivered_iff`: when the usable entries among the ones it sees are the ones of the
  map.
-/

set_option autoImplicit false

namespace FirmwareMap

/-- An entry of the memory map. The attributes are there only in an entry of 24 bytes. -/
structure Entry where
  base : Nat
  length : Nat
  type : Nat
  acpi : Option Nat

/-- The entry is marked to be ignored: bit 0 of its attributes is clear. -/
def Entry.ignored (e : Entry) : Bool :=
  match e.acpi with
  | none => false
  | some w => w &&& 1 == 0

/-- The entry is memory that may be used. -/
def Entry.usable (e : Entry) : Bool := e.type == 1 && !e.ignored

/-- The low words of the base and the length. -/
def Entry.region (e : Entry) : Nat × Nat := (e.base % 2 ^ 32, e.length % 2 ^ 32)

/-- The regions of the usable entries, in order. -/
def usableRegions (es : List Entry) : List (Nat × Nat) :=
  (es.filter Entry.usable).map Entry.region

/-- The entries that a reader sees in `n` calls when `rest` is left of the map `es`. -/
def delivered (es : List Entry) : Nat → List Entry → List Entry
  | 0, _ => []
  | _ + 1, [] => []
  | n + 1, [e] => e :: if e.ignored then delivered es n es else []
  | n + 1, e :: d :: rest => e :: delivered es n (d :: rest)

variable {es rest : List Entry} {e : Entry} {n : Nat}

theorem usableRegions_append (es rest : List Entry) :
    usableRegions (es ++ rest) = usableRegions es ++ usableRegions rest := by
  unfold usableRegions
  rw [List.filter_append, List.map_append]

theorem usableRegions_eq_nil : usableRegions es = [] ↔ ∀ e ∈ es, e.usable = false := by
  unfold usableRegions
  rw [List.map_eq_nil_iff, List.filter_eq_nil_iff]
  simp only [Bool.not_eq_true]

/-- A call for an entry that is not the last one. -/
theorem delivered_cons (es : List Entry) (e : Entry) (n : Nat) (hrest : rest ≠ []) :
    delivered es (n + 1) (e :: rest) = e :: delivered es n rest := by
  cases rest with
  | nil => exact absurd rfl hrest
  | cons d rest => rfl

/-- The call for the last entry. -/
theorem delivered_last (es : List Entry) (e : Entry) (n : Nat) :
    delivered es (n + 1) [e] = e :: if e.ignored then delivered es n es else [] := rfl

/-- As many calls as entries, or less. -/
theorem delivered_of_le (hn : n ≤ rest.length) : delivered es n rest = rest.take n := by
  induction n generalizing rest with
  | zero => rfl
  | succ n ih =>
    match rest, hn with
    | [e], hn =>
      obtain rfl : n = 0 := by simpa using hn
      show e :: (if e.ignored then [] else []) = [e]
      rw [ite_self]
    | e :: d :: rest, hn =>
      show e :: delivered es n (d :: rest) = e :: (d :: rest).take n
      rw [ih (Nat.le_of_succ_le_succ hn)]

/-- A reader that does not ignore the last entry stops behind it. -/
theorem delivered_of_stop (hn : rest.length ≤ n)
    (hlast : ∀ e, rest.getLast? = some e → e.ignored = false) : delivered es n rest = rest := by
  induction n generalizing rest with
  | zero => rw [List.eq_nil_of_length_eq_zero (Nat.le_zero.mp hn)]; rfl
  | succ n ih =>
    match rest, hn, hlast with
    | [], _, _ => rfl
    | [e], _, hlast =>
      show e :: (if e.ignored then delivered es n es else []) = [e]
      rw [hlast e rfl]
      rfl
    | e :: d :: rest, hn, hlast =>
      show e :: delivered es n (d :: rest) = e :: d :: rest
      rw [ih (Nat.le_of_succ_le_succ hn) fun c hc => hlast c hc]

/-- A reader that ignores the last entry begins again behind it. -/
theorem delivered_of_ignored (hn : rest.length ≤ n) (hlast : rest.getLast? = some e)
    (he : e.ignored = true) : delivered es n rest = rest ++ delivered es (n - rest.length) es := by
  induction n generalizing rest with
  | zero =>
    obtain rfl := List.eq_nil_of_length_eq_zero (Nat.le_zero.mp hn)
    cases hlast
  | succ n ih =>
    match rest, hn, hlast with
    | [c], _, hlast =>
      obtain rfl : c = e := Option.some.inj hlast
      show c :: (if c.ignored then delivered es n es else []) = [c] ++ delivered es (n + 1 - 1) es
      rw [he]
      rfl
    | c :: d :: rest, hn, hlast =>
      have hleft : n + 1 - (c :: d :: rest).length = n - (d :: rest).length :=
        Nat.add_sub_add_right n 1 _
      show c :: delivered es n (d :: rest) = _
      rw [ih (Nat.le_of_succ_le_succ hn) hlast, hleft]
      rfl

/-- Only entries of the map are seen. -/
theorem mem_of_mem_delivered (hrest : ∀ e ∈ rest, e ∈ es) (he : e ∈ delivered es n rest) :
    e ∈ es := by
  induction n generalizing rest with
  | zero => exact absurd he List.not_mem_nil
  | succ n ih =>
    match rest, hrest, he with
    | [], _, he => exact absurd he List.not_mem_nil
    | [c], hrest, he =>
      rcases List.mem_cons.mp he with rfl | he
      · exact hrest _ List.mem_cons_self
      · split at he
        · -- Behind the last entry all of the map is left again.
          exact ih (fun _ hc => hc) he
        · exact absurd he List.not_mem_nil
    | c :: d :: rest, hrest, he =>
      rcases List.mem_cons.mp he with rfl | he
      · exact hrest _ List.mem_cons_self
      · exact ih (fun b hb => hrest b (List.mem_cons_of_mem c hb)) he

/-- A reader that ignores the last entry sees the first entries again, and behind them only entries
of the map. -/
theorem delivered_split (hlast : es.getLast? = some e) (he : e.ignored = true) (n : Nat) :
    ∃ more, delivered es n es = es.take n ++ more ∧ (∀ c ∈ more, c ∈ es.take n) := by
  rcases Nat.le_total n es.length with hn | hn
  · exact ⟨[], by rw [delivered_of_le hn, List.append_nil], fun c hc => absurd hc List.not_mem_nil⟩
  · -- The whole map was seen once.
    refine ⟨delivered es (n - es.length) es, ?_, fun c hc => ?_⟩
    · rw [delivered_of_ignored hn hlast he, List.take_of_length_le hn]
    · rw [List.take_of_length_le hn]
      exact mem_of_mem_delivered (fun _ hb => hb) hc

/-- In `n` calls, a reader sees the usable entries among the first `n` ones of the map, each once,
if and only if it is not led back to the first entry, or sees no usable one then. -/
theorem usableRegions_delivered_iff (es : List Entry) (n : Nat) :
    usableRegions (delivered es n es) = usableRegions (es.take n) ↔
      n ≤ es.length ∨ (∀ e, es.getLast? = some e → e.ignored = false) ∨
        ∀ e ∈ es.take (n - es.length), e.usable = false := by
  by_cases hn : n ≤ es.length
  · rw [delivered_of_le hn]
    exact iff_of_true rfl (Or.inl hn)
  by_cases hlast : ∀ e, es.getLast? = some e → e.ignored = false
  · rw [delivered_of_stop (by omega) hlast, List.take_of_length_le (by omega)]
    exact iff_of_true rfl (Or.inr (Or.inl hlast))
  obtain ⟨e, he, hignored⟩ : ∃ e, es.getLast? = some e ∧ e.ignored = true := by
    by_contra hno
    exact hlast fun e he => Bool.eq_false_iff.mpr fun htrue => hno ⟨e, he, htrue⟩
  -- What is left to compare are the usable entries of the calls behind the last entry.
  obtain ⟨more, hsplit, hmore⟩ := delivered_split he hignored (n - es.length)
  have hall : es.length ≤ n := by omega
  rw [delivered_of_ignored hall he hignored, List.take_of_length_le hall, usableRegions_append,
    List.append_right_eq_self, usableRegions_eq_nil, hsplit]
  constructor
  · intro hnone
    refine Or.inr (Or.inr fun c hc => ?_)
    exact hnone c (List.mem_append_left more hc)
  · rintro (hle | hstop | hnone)
    · exact absurd hle hn
    · exact absurd hstop hlast
    · intro c hc
      have hfirst : c ∈ es.take (n - es.length) := by
        rcases List.mem_append.mp hc with hc | hc
        · exact hc
        · exact hmore c hc
      exact hnone c hfirst

end FirmwareMap
