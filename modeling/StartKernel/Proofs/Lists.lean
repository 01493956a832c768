import StartKernel.Proofs.List

/-!
# `StartKernel.Proofs.Lists`: several lists in one heap

The kernel keeps many lists at a time, and their nodes share one heap. `Lists heap list seq`
says that every header `list i` describes the sequence `seq i`, and that no node is in two of
the lists. `Edit` is an edit of one of the lists: the list describes a new sequence, and every
other list and every other node stay as they were.

* `Lists.edit`: the frame rule, which turns the lemma about one list into one about all of them.
* `list_refines`: the four functions that edit a list.
-/

set_option autoImplicit false

namespace StartKernel

open Function (update)
open Chain (Path)

variable {I N : Type} [DecidableEq I] [DecidableEq N] {heap heap' : N → ListNode N}
  {list : I → ListT N} {seq : I → List N} {i : I} {n : N} {xs : List N} {header : ListT N}

/-- Every header describes its sequence, and no node is in two lists. -/
structure Lists (heap : N → ListNode N) (list : I → ListT N) (seq : I → List N) : Prop where
  each : ∀ i, IsList heap (list i) (seq i)
  disjoint : ∀ i j n, n ∈ seq i → n ∈ seq j → i = j

/-- Following the links from the first node visits the sequence, and following them back from
the last node visits it in the opposite order. -/
def Traverses (heap : N → ListNode N) (header : ListT N) (xs : List N) : Prop :=
  Path (listNodeNext heap) (listFirst header) xs ∧
    Path (fun n => (heap n).pre) (listLast header) xs.reverse

omit [DecidableEq N] in
/-- A list is traversed in both directions. -/
theorem IsList.traverses (h : IsList heap header xs) : Traverses heap header xs := by
  constructor
  · show Path (fun n => (heap n).next) header.first xs
    rw [h.first]
    exact h.linked.path
  · show Path (fun n => (heap n).pre) header.last xs.reverse
    rw [h.last, ← List.head?_reverse]
    exact h.linked.reverse.path

/-- An edit of the list `i`: the heap is `heap'` and its header is `header` now, and it describes
`xs`. The node `n` is the one that joined or left. -/
structure Edit (heap : N → ListNode N) (list : I → ListT N) (seq : I → List N) (i : I) (n : N)
    (heap' : N → ListNode N) (header : ListT N) (xs : List N) : Prop where
  lists : Lists heap' (update list i header) (update seq i xs)
  traverses : ∀ j, Traverses heap' (update list i header j) (update seq i xs j)
  others : ∀ m, m ∉ seq i → m ≠ n → heap' m = heap m

omit [DecidableEq N] in
/-- The frame rule: an edit of the list `i` that changes no node outside it but `n`, which no
other list holds. -/
theorem Lists.edit (h : Lists heap list seq) (hi : IsList heap' header xs)
    (hxs : ∀ m ∈ xs, m ∈ seq i ∨ m = n) (hn : ∀ j, j ≠ i → n ∉ seq j)
    (hother : ∀ m, m ∉ seq i → m ≠ n → heap' m = heap m) :
    Edit heap list seq i n heap' header xs := by
  have hlists : Lists heap' (update list i header) (update seq i xs) := by
    constructor
    · intro j
      by_cases hj : j = i
      · subst hj
        simpa using hi
      · rw [Function.update_of_ne hj, Function.update_of_ne hj]
        -- The nodes of another list are neither in the edited list nor the node `n`.
        refine (h.each j).congr fun m hm => hother m ?_ ?_
        · intro hmi
          exact hj (h.disjoint j i m hm hmi)
        · intro he
          exact hn j hj (he ▸ hm)
    · intro j k m hj hk
      have hold : ∀ l, m ∈ update seq i xs l → m ∈ seq l ∨ (l = i ∧ m = n) := by
        intro l hl
        by_cases hli : l = i
        · subst hli
          rw [Function.update_self] at hl
          exact (hxs m hl).imp_right fun he => ⟨rfl, he⟩
        · rw [Function.update_of_ne hli] at hl
          exact Or.inl hl
      rcases hold j hj with hmj | ⟨rfl, rfl⟩
      · rcases hold k hk with hmk | ⟨rfl, rfl⟩
        · exact h.disjoint j k m hmj hmk
        · by_contra hne
          exact hn j hne hmj
      · rcases hold k hk with hmk | ⟨rfl, -⟩
        · by_contra hne
          exact hn k (Ne.symm hne) hmk
        · rfl
  exact ⟨hlists, fun j => (hlists.each j).traverses, hother⟩

/-- The functions of `tools/list.c` on one of several lists. A node that is in no list is put in
front or at the end. The first node is removed and returned, and an empty list stays as it is.
Any node of the list is removed, and the others keep their order. A removed node has no links. -/
theorem list_refines (h : Lists heap list seq) (i : I) :
    (∀ n, (∀ j, n ∉ seq j) → Edit heap list seq i n (listInsertFirst heap (list i) n).1
      (listInsertFirst heap (list i) n).2 (n :: seq i)) ∧
    (∀ n, (∀ j, n ∉ seq j) → Edit heap list seq i n (listInsertLast heap (list i) n).1
      (listInsertLast heap (list i) n).2 (seq i ++ [n])) ∧
    (seq i = [] → listRemoveFirst heap (list i) = (none, heap, list i)) ∧
    (∀ n xs, seq i = n :: xs → (listRemoveFirst heap (list i)).1 = some n ∧
      (listRemoveFirst heap (list i)).2.1 n = listNodeInit ∧
      Edit heap list seq i n (listRemoveFirst heap (list i)).2.1
        (listRemoveFirst heap (list i)).2.2 xs) ∧
    (∀ n ∈ seq i, (listRemove heap (list i) n).1 n = listNodeInit ∧
      Edit heap list seq i n (listRemove heap (list i) n).1 (listRemove heap (list i) n).2
        ((seq i).erase n)) := by
  have hi := h.each i
  -- A node of the list `i` is in no other list.
  have hout : ∀ n ∈ seq i, ∀ j, j ≠ i → n ∉ seq j := by
    intro n hn j hj hnj
    exact hj (h.disjoint j i n hnj hn)
  have hremove : ∀ n ∈ seq i, Edit heap list seq i n (listRemove heap (list i) n).1
      (listRemove heap (list i) n).2 ((seq i).erase n) := by
    intro n hn
    refine h.edit (hi.erase hn) (fun m hm => Or.inl (List.mem_of_mem_erase hm)) (hout n hn) ?_
    intro m hm _
    exact listRemove_frame hi hn hm
  refine ⟨?_, ?_, ?_, ?_, fun n hn => ⟨listRemove_self heap (list i) n, hremove n hn⟩⟩
  · intro n hn
    refine h.edit (hi.insertFirst (hn i)) ?_ (fun j _ => hn j) ?_
    · intro m hm
      exact (List.mem_cons.mp hm).symm
    · intro m hm hne
      exact listInsertFirst_other hi hm hne
  · intro n hn
    refine h.edit (hi.insertLast (hn i)) ?_ (fun j _ => hn j) ?_
    · intro m hm
      simpa using hm
    · intro m hm hne
      exact listInsertLast_other hi hm hne
  · intro hempty
    unfold listRemoveFirst
    rw [if_pos (hi.isEmpty_iff.mpr hempty)]
  · intro n xs hseq
    rw [hseq] at hi
    have hmem : n ∈ seq i := by simp [hseq]
    have herase : (seq i).erase n = xs := by simp [hseq]
    rw [listRemoveFirst_eq hi]
    refine ⟨rfl, listRemove_self heap (list i) n, ?_⟩
    rw [← herase]
    exact hremove n hmem

/-- Two empty lists of numbered nodes. -/
theorem lists_empty : Lists (fun _ : Nat => listNodeInit) (fun _ : Fin 2 => listInit)
    (fun _ => []) where
  each _ := isList_init
  disjoint _ _ _ h := absurd h List.not_mem_nil

/-- Of two lists, one of three nodes and one of one node, the first one loses its middle node or its
first one, and the second one gets a new first node. -/
theorem list_refines_two_lists : ∃ (heap : Nat → ListNode Nat) (list : Fin 2 → ListT Nat)
    (seq : Fin 2 → List Nat), Lists heap list seq ∧ seq 0 = [7, 8, 9] ∧ seq 1 = [3] ∧
      Edit heap list seq 0 8 (listRemove heap (list 0) 8).1 (listRemove heap (list 0) 8).2 [7, 9] ∧
      (listRemove heap (list 0) 8).1 8 = listNodeInit ∧
      (listRemoveFirst heap (list 0)).1 = some 7 ∧
      Edit heap list seq 0 7 (listRemoveFirst heap (list 0)).2.1
        (listRemoveFirst heap (list 0)).2.2 [8, 9] ∧
      Edit heap list seq 1 5 (listInsertFirst heap (list 1) 5).1
        (listInsertFirst heap (list 1) 5).2 [5, 3] := by
  -- Both lists are filled from the empty ones.
  have h₁ := ((list_refines lists_empty 0).2.1 7 (by decide)).lists
  have h₂ := ((list_refines h₁ 0).2.1 8 (by decide)).lists
  have h₃ := ((list_refines h₂ 0).2.1 9 (by decide)).lists
  have h₄ := ((list_refines h₃ 1).2.1 3 (by decide)).lists
  obtain ⟨-, -, -, hfirst, hmiddle⟩ := list_refines h₄ 0
  obtain ⟨hhead, -, hrest⟩ := hfirst 7 [8, 9] rfl
  obtain ⟨hlinks, herase⟩ := hmiddle 8 (by decide)
  exact ⟨_, _, _, h₄, rfl, rfl, herase, hlinks, hhead, hrest,
    (list_refines h₄ 1).1 5 (by decide)⟩

end StartKernel
