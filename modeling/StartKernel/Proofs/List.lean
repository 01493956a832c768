import StartKernel.Lib.Chain
import StartKernel.Tools.List

/-!
# `StartKernel.Proofs.List`: the list functions as edits of a sequence

`IsList heap list xs` says that the header `list` and the links in `heap` describe the
repeat-free sequence `xs`, in both directions, with `count` its length.

* `IsList.insertFirst`: inserting a node that is not in the list puts it in front.
* `IsList.insertLast`: inserting a node that is not in the list appends it.
* `IsList.remove`: removing a node of the list erases it and keeps the order.
* `listRemoveFirst_eq`: removing the first node is removing that node.
* `listInsertLast_other`, `listInsertFirst_other`, `listRemove_other`: the links of every
  node outside the list and the edited node stay as they were. With `IsList.congr` this is
  the frame rule: a disjoint list keeps its sequence.
-/

set_option autoImplicit false

namespace StartKernel

open Function (update)
open Chain (Linked)

variable {N : Type} {heap heap' : N → ListNode N} {list : ListT N} {xs a b : List N} {n : N}

/-- The header and the links describe the sequence `xs`. -/
structure IsList (heap : N → ListNode N) (list : ListT N) (xs : List N) : Prop where
  nodup : xs.Nodup
  first : list.first = xs.head?
  last : list.last = xs.getLast?
  count : list.count = xs.length
  linked : Linked (fun n => (heap n).pre) (fun n => (heap n).next) xs

/-- A list header describes one sequence only. -/
theorem IsList.unique {ys : List N} (hx : IsList heap list xs) (hy : IsList heap list ys) :
    xs = ys := by
  -- Two sequences of one length that start at one node and follow the same `next` links.
  have key : ∀ (k : Nat) (as bs as' bs' : List N), as.length = k → bs.length = k →
      xs = as' ++ as → ys = bs' ++ bs → as.head? = bs.head? → as = bs := by
    intro k
    induction k with
    | zero =>
      intro as bs _ _ ha hb _ _ _
      rw [List.length_eq_zero_iff.mp ha, List.length_eq_zero_iff.mp hb]
    | succ k ih =>
      intro as bs as' bs' ha hb hxs hys hhead
      obtain ⟨x, as, rfl⟩ := List.exists_of_length_succ as ha
      obtain ⟨y, bs, rfl⟩ := List.exists_of_length_succ bs hb
      obtain rfl : x = y := by simpa using hhead
      have hnx := (hx.linked as' x as hxs).2
      have hny := (hy.linked bs' x bs hys).2
      have hhead' : as.head? = bs.head? := hnx.symm.trans hny
      rw [ih as bs (as' ++ [x]) (bs' ++ [x]) (by simpa using ha) (by simpa using hb)
        (by simpa using hxs) (by simpa using hys) hhead']
  have hlen : xs.length = ys.length := by
    have h1 := hx.count
    have h2 := hy.count
    omega
  exact key xs.length xs ys [] [] rfl hlen.symm rfl rfl (hx.first.symm.trans hy.first)

/-- A fresh header describes the empty sequence. -/
theorem isList_init : IsList heap (listInit : ListT N) [] where
  nodup := List.nodup_nil
  first := rfl
  last := rfl
  count := rfl
  linked := Linked.nil

/-- A header whose first and last node has no neighbours describes that node. -/
theorem isList_singleton {n : N} (hfirst : list.first = some n) (hlast : list.last = some n)
    (hcount : list.count = 1) (hpre : (heap n).pre = none) (hnext : (heap n).next = none) :
    IsList heap list [n] where
  nodup := List.nodup_singleton n
  first := hfirst
  last := hlast
  count := hcount
  linked := by
    intro a x b h
    obtain ⟨rfl, h⟩ | ⟨a', rfl, h⟩ := List.cons_eq_append_iff.mp h
    · obtain ⟨rfl, rfl⟩ := List.cons.inj h
      exact ⟨hpre, hnext⟩
    · simp at h

/-- Links that agree on the nodes of the sequence describe it too. -/
theorem IsList.congr (h : IsList heap list xs) (heq : ∀ x ∈ xs, heap' x = heap x) :
    IsList heap' list xs where
  nodup := h.nodup
  first := h.first
  last := h.last
  count := h.count
  linked := h.linked.congr (fun x hx => by rw [heq x hx]) (fun x hx => by rw [heq x hx])

/-- The count test of the source is the emptiness of the sequence. -/
theorem IsList.isEmpty_iff (h : IsList heap list xs) : listIsEmpty list = true ↔ xs = [] := by
  unfold listIsEmpty
  rw [beq_iff_eq, h.count]
  simp

/-- Two nodes with the same links are the same node record. -/
theorem ListNode.eq_of_links {u v : ListNode N} (hp : u.pre = v.pre) (hn : u.next = v.next) :
    u = v := by
  cases u
  cases v
  simp_all

variable [DecidableEq N]

@[simp] theorem setNext_next (heap : N → ListNode N) (p v : Option N) (x : N) :
    (setNext heap p v x).next = if p = some x then v else (heap x).next := by
  cases p with
  | none => simp [setNext]
  | some n =>
    by_cases hx : x = n
    · simp [setNext, hx]
    · simp [setNext, hx, Ne.symm hx]

@[simp] theorem setNext_pre (heap : N → ListNode N) (p v : Option N) (x : N) :
    (setNext heap p v x).pre = (heap x).pre := by
  cases p with
  | none => rfl
  | some n =>
    by_cases hx : x = n
    · simp [setNext, hx]
    · simp [setNext, hx]

@[simp] theorem setPre_pre (heap : N → ListNode N) (p v : Option N) (x : N) :
    (setPre heap p v x).pre = if p = some x then v else (heap x).pre := by
  cases p with
  | none => simp [setPre]
  | some n =>
    by_cases hx : x = n
    · simp [setPre, hx]
    · simp [setPre, hx, Ne.symm hx]

@[simp] theorem setPre_next (heap : N → ListNode N) (p v : Option N) (x : N) :
    (setPre heap p v x).next = (heap x).next := by
  cases p with
  | none => rfl
  | some n =>
    by_cases hx : x = n
    · simp [setPre, hx]
    · simp [setPre, hx]

/-- A store through a pointer to another node leaves the links of `x`. -/
theorem setNext_other {p : Option N} {x : N} (v : Option N) (h : p ≠ some x) :
    setNext heap p v x = heap x :=
  ListNode.eq_of_links (by simp) (by simp [h])

/-- The same for the `pre` field. -/
theorem setPre_other {p : Option N} {x : N} (v : Option N) (h : p ≠ some x) :
    setPre heap p v x = heap x :=
  ListNode.eq_of_links (by simp [h]) (by simp)

/-! ### Insertion at the end -/

/-- Inserting a node that is not in the list appends it to the sequence. -/
theorem IsList.insertLast (h : IsList heap list xs) (hn : n ∉ xs) :
    IsList (listInsertLast heap list n).1 (listInsertLast heap list n).2 (xs ++ [n]) := by
  have hempty := h.isEmpty_iff
  have hcount := h.count
  have hnodup : (xs ++ [n]).Nodup := List.nodup_append.mpr ⟨h.nodup, by simp, by
    rintro x hx z hz rfl
    exact hn (List.mem_singleton.mp hz ▸ hx)⟩
  have hxn : ∀ x ∈ xs, n ≠ x := by
    rintro x hx rfl
    exact hn hx
  unfold listInsertLast
  by_cases hxs : xs = []
  · subst hxs
    rw [if_pos (hempty.mpr rfl)]
    refine ⟨hnodup, rfl, rfl, by simp [hcount], ?_⟩
    exact h.linked.concat h.nodup (by simp [h.last]) (by simp) (by simp) (by simp)
  · rw [if_neg (fun he => hxs (hempty.mp he))]
    refine ⟨hnodup, ?_, by simp, by simp [hcount], ?_⟩
    · rw [List.head?_append_of_ne_nil _ hxs]
      exact h.first
    · have hlast_n : xs.getLast? ≠ some n := fun hm => hn (List.mem_of_getLast? hm)
      refine h.linked.concat h.nodup (by simp [h.last]) (by simp [h.last, hlast_n]) ?_ ?_
      · intro x hx
        simp [hxn x hx]
      · intro x hx
        simp [h.last, hxn x hx]

/-- Inserting changes the links of the inserted node and of the old last node only. -/
theorem listInsertLast_other (h : IsList heap list xs) {x : N} (hx : x ∉ xs) (hxn : x ≠ n) :
    (listInsertLast heap list n).1 x = heap x := by
  have hlast : list.last ≠ some x := by
    rw [h.last]
    exact fun hm => hx (List.mem_of_getLast? hm)
  have hn : some n ≠ some x := by simpa using hxn.symm
  unfold listInsertLast
  split
  · simp only [setNext_other _ hn, setPre_other _ hn]
  · simp only [setNext_other _ hlast, setNext_other _ hn, setPre_other _ hn]

/-! ### Insertion at the front -/

/-- Inserting a node that is not in the list puts it in front of the sequence. -/
theorem IsList.insertFirst (h : IsList heap list xs) (hn : n ∉ xs) :
    IsList (listInsertFirst heap list n).1 (listInsertFirst heap list n).2 (n :: xs) := by
  have hempty := h.isEmpty_iff
  have hcount := h.count
  have hnodup : (n :: xs).Nodup := List.nodup_cons.mpr ⟨hn, h.nodup⟩
  have hxn : ∀ x ∈ xs, n ≠ x := by
    intro x hx he
    exact hn (he ▸ hx)
  unfold listInsertFirst
  by_cases hxs : xs = []
  · subst hxs
    rw [if_pos (hempty.mpr rfl)]
    refine ⟨hnodup, rfl, rfl, by simp [hcount], ?_⟩
    exact h.linked.cons h.nodup (by simp) (by simp [h.first]) (by simp) (by simp)
  · rw [if_neg (fun he => hxs (hempty.mp he))]
    refine ⟨hnodup, rfl, ?_, by simp [hcount], ?_⟩
    · obtain ⟨y, ys, rfl⟩ := List.exists_cons_of_ne_nil hxs
      simp [h.last, List.getLast?_cons]
    · have hfirst_n : xs.head? ≠ some n := fun hm => hn (List.mem_of_mem_head? hm)
      refine h.linked.cons h.nodup (by simp [h.first, hfirst_n]) (by simp [h.first]) ?_ ?_
      · intro x hx
        simp [h.first, hxn x hx]
      · intro x hx
        simp [hxn x hx]

/-- Inserting changes the links of the inserted node and of the old first node only. -/
theorem listInsertFirst_other (h : IsList heap list xs) {x : N} (hx : x ∉ xs) (hxn : x ≠ n) :
    (listInsertFirst heap list n).1 x = heap x := by
  have hfirst : list.first ≠ some x := by
    rw [h.first]
    exact fun hm => hx (List.mem_of_mem_head? hm)
  have hn : some n ≠ some x := by simpa using hxn.symm
  unfold listInsertFirst
  split
  · simp only [setPre_other _ hn, setNext_other _ hn]
  · simp only [setPre_other _ hfirst, setPre_other _ hn, setNext_other _ hn]

/-! ### Removal -/

/-- Removing a node of the list erases exactly that node. -/
theorem IsList.remove (h : IsList heap list (a ++ n :: b)) :
    IsList (listRemove heap list n).1 (listRemove heap list n).2 (a ++ b) := by
  have hab : (a ++ b).Nodup := h.nodup.sublist (by simp)
  obtain ⟨hpre, hnext⟩ := h.linked.at
  have hna : n ∉ a := fun hm =>
    (List.nodup_append.mp h.nodup).2.2 n hm n (by simp) rfl
  have hnb : n ∉ b := (List.nodup_cons.mp (List.nodup_append.mp h.nodup).2.1).1
  have hlast_n : a.getLast? ≠ some n := fun hm => hna (List.mem_of_getLast? hm)
  have hhead_n : b.head? ≠ some n := fun hm => hnb (List.mem_of_mem_head? hm)
  have hcount := h.count
  have hfirst := h.first
  have hlast := h.last
  unfold listRemove
  simp only [setNext_next, setNext_pre, hpre, hnext, hlast_n, if_false]
  refine ⟨hab, ?_, ?_, ?_, ?_⟩
  · -- The header's `first` moves on when the removed node was the first one.
    cases a with
    | nil => simp [hfirst]
    | cons x a' =>
      have hxn : x ≠ n := by rintro rfl; exact hna (by simp)
      simp [hfirst, hxn]
  · rcases List.eq_nil_or_concat b with rfl | ⟨b', y, rfl⟩
    · simp [hlast]
    · have hyn : y ≠ n := by rintro rfl; exact hnb (by simp)
      simp [hlast, List.getLast?_append, List.getLast?_cons, hyn]
  · simp only [List.length_append, List.length_cons] at hcount ⊢
    omega
  · have hxn : ∀ x ∈ a ++ b, n ≠ x := by
      rintro x hx rfl
      rcases List.mem_append.mp hx with hx | hx
      · exact hna hx
      · exact hnb hx
    refine h.linked.erase h.nodup ?_ ?_
    · intro x hx
      simp [hxn x hx]
    · intro x hx
      simp [hxn x hx]

/-- Removing changes the links of the removed node and of its neighbours only. -/
theorem listRemove_other (h : IsList heap list (a ++ n :: b)) {x : N}
    (hx : x ∉ a ++ n :: b) : (listRemove heap list n).1 x = heap x := by
  obtain ⟨hpre, hnext⟩ := h.linked.at
  have hna : n ∉ a := fun hm =>
    (List.nodup_append.mp h.nodup).2.2 n hm n (by simp) rfl
  have hlast_n : a.getLast? ≠ some n := fun hm => hna (List.mem_of_getLast? hm)
  have hxn : n ≠ x := by rintro rfl; exact hx (by simp)
  have hlast_x : a.getLast? ≠ some x := fun hm => hx (by simp [List.mem_of_getLast? hm])
  have hhead_x : b.head? ≠ some x := fun hm => hx (by simp [List.mem_of_mem_head? hm])
  unfold listRemove
  exact ListNode.eq_of_links (by simp [hnext, hpre, hlast_n, hxn, hhead_x])
    (by simp [hpre, hxn, hlast_x])

/-- Removing a member erases it from the sequence. -/
theorem IsList.erase (h : IsList heap list xs) (hn : n ∈ xs) :
    IsList (listRemove heap list n).1 (listRemove heap list n).2 (xs.erase n) := by
  obtain ⟨a, b, rfl⟩ := List.append_of_mem hn
  have hna : n ∉ a := fun hm =>
    (List.nodup_append.mp h.nodup).2.2 n hm n (by simp) rfl
  rw [List.erase_append_right _ hna, List.erase_cons_head]
  exact h.remove

/-- Removing a member leaves the links of every node outside the list. -/
theorem listRemove_frame (h : IsList heap list xs) (hn : n ∈ xs) {x : N} (hx : x ∉ xs) :
    (listRemove heap list n).1 x = heap x := by
  obtain ⟨a, b, rfl⟩ := List.append_of_mem hn
  exact listRemove_other h hx

/-- The removed node ends with null links. -/
theorem listRemove_self (heap : N → ListNode N) (list : ListT N) (n : N) :
    (listRemove heap list n).1 n = listNodeInit :=
  ListNode.eq_of_links (by simp [listRemove, listNodeInit])
    (by simp [listRemove, listNodeInit])

/-- On a list that starts with `n`, `list_remove_first` is `list_remove` of `n`. -/
theorem listRemoveFirst_eq (h : IsList heap list (n :: b)) :
    listRemoveFirst heap list = (some n, listRemove heap list n) := by
  have hne : ¬ listIsEmpty list = true := by simp [h.isEmpty_iff]
  have hfirst : list.first = some n := h.first
  obtain ⟨hpre, hnext⟩ := h.linked.head
  have hnb : n ∉ b := (List.nodup_cons.mp h.nodup).1
  have hlast : (if b.head? = none then none else list.last)
      = if list.last = some n then none else list.last := by
    rcases List.eq_nil_or_concat b with rfl | ⟨b', y, rfl⟩
    · simp [h.last]
    · have hyn : y ≠ n := by rintro rfl; exact hnb (by simp)
      have hl : list.last = some y := by
        simp [h.last, List.getLast?_cons]
      simp [hl, hyn]
  have hnull : ∀ v, setNext heap none v = heap := fun _ => rfl
  unfold listRemoveFirst listRemove
  rw [if_neg hne, hfirst]
  simp only [hpre, hnext, hlast, hnull, if_true]

end StartKernel
