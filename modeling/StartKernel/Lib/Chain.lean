import Mathlib.Data.List.Nodup
import Mathlib.Logic.Function.Basic

/-!
# `StartKernel.Lib.Chain`: doubly linked chains

A doubly linked list is a pair of partial maps `pre` and `next` on an arbitrary type of
nodes. `Linked pre next xs` says that the two maps describe the sequence `xs`, one node
after the other: around every node `x` of `xs`, `pre x` is the node before it and `next x`
the node after it, with `none` at the two ends.

The module proves how the two edits of a linked list move the sequence:

* `Linked.concat`: linking a fresh node behind the last one appends it.
* `Linked.erase`: unlinking a node closes the gap between its neighbours.
* `Linked.cons`: linking a fresh node in front of the first one puts it there.
* `Linked.congr`: an edit that touches no node of the sequence keeps it.
* `Linked.path`, `Linked.reverse`: following the links visits the sequence, in both directions.

The edits are given by what the new maps return, so an implementation may write the links
in any order. Nothing here depends on a particular record of links or on a list header.
-/

set_option autoImplicit false

namespace Chain

variable {N : Type*} {pre next pre' next' : N → Option N} {xs a b : List N} {n x : N}

/-- The links of every node of `xs` are its neighbours in `xs`. The sequence is split at
the node, so the neighbours are the last node in front and the first node behind. -/
def Linked (pre next : N → Option N) (xs : List N) : Prop :=
  ∀ (a : List N) (x : N) (b : List N), xs = a ++ x :: b →
    pre x = a.getLast? ∧ next x = b.head?

/-- A sequence is linked when the maps are right at each position. -/
theorem linked_of_getElem {xs : List N} (h : ∀ i : Fin xs.length,
    pre xs[i] = (xs.take i).getLast? ∧ next xs[i] = (xs.drop (i + 1)).head?) :
    Linked pre next xs := by
  rintro a x b rfl
  have hx := h ⟨a.length, by simp⟩
  simpa using hx

/-- The empty sequence is linked by any maps. -/
theorem Linked.nil : Linked pre next ([] : List N) := by
  intro a x b h
  simp at h

/-- Maps that agree on the nodes of the sequence link the same sequence. -/
theorem Linked.congr (h : Linked pre next xs) (hp : ∀ x ∈ xs, pre' x = pre x)
    (hn : ∀ x ∈ xs, next' x = next x) : Linked pre' next' xs := by
  intro a x b hx
  have hmem : x ∈ xs := by simp [hx]
  rw [hp x hmem, hn x hmem]
  exact h a x b hx

/-- The first node has no predecessor, and its `next` is the head of the rest. -/
theorem Linked.head (h : Linked pre next (x :: b)) : pre x = none ∧ next x = b.head? :=
  h [] x b rfl

/-- The links of a node inside the sequence. -/
theorem Linked.at (h : Linked pre next (a ++ x :: b)) :
    pre x = a.getLast? ∧ next x = b.head? :=
  h a x b rfl

/-- In a sequence without repeats, the last node of the front part is not behind it. -/
theorem getLast?_ne_of_mem_right (hnd : (a ++ b).Nodup) (hx : x ∈ b) :
    a.getLast? ≠ some x := by
  intro h
  have hxa : x ∈ a := List.mem_of_getLast? h
  exact (List.nodup_append.mp hnd).2.2 x hxa x hx rfl

/-- In a sequence without repeats, the first node of the back part is not in front. -/
theorem head?_ne_of_mem_left (hnd : (a ++ b).Nodup) (hx : x ∈ a) : b.head? ≠ some x := by
  intro h
  have hxb : x ∈ b := List.mem_of_mem_head? h
  exact (List.nodup_append.mp hnd).2.2 x hx x hxb rfl

/-- Read backwards, the sequence is linked by the exchanged maps. -/
theorem Linked.reverse (h : Linked pre next xs) : Linked next pre xs.reverse := by
  intro a x b hx
  have hsplit : xs = b.reverse ++ x :: a.reverse := by
    have hrev := congrArg List.reverse hx
    simpa using hrev
  obtain ⟨hp, hn⟩ := h _ _ _ hsplit
  rw [hp, hn]
  exact ⟨List.head?_reverse, List.getLast?_reverse⟩

/-- Following `link` from the node `start` visits the nodes of the list, and then there is no
node any more. -/
inductive Path (link : N → Option N) : Option N → List N → Prop where
  | nil : Path link none []
  | cons {n : N} {xs : List N} (h : Path link (link n) xs) : Path link (some n) (n :: xs)

/-- Following `next` from the first node visits the sequence. -/
theorem Linked.path (h : Linked pre next xs) : Path next xs.head? xs := by
  -- The induction is on the nodes that are left, behind the ones already visited.
  have key : ∀ (b a : List N), Linked pre next (a ++ b) → Path next b.head? b := by
    intro b
    induction b with
    | nil =>
      intro a _
      exact .nil
    | cons x b ih =>
      intro a hab
      have hnext : next x = b.head? := hab.at.2
      refine .cons ?_
      rw [hnext]
      exact ih (a ++ [x]) (by simpa using hab)
  exact key xs [] h

variable [DecidableEq N]

/-- Linking a fresh node behind the last one appends it to the sequence. -/
theorem Linked.concat (h : Linked pre next xs) (hnd : xs.Nodup)
    (hpn : pre' n = xs.getLast?) (hnn : next' n = none)
    (hp : ∀ x ∈ xs, pre' x = pre x)
    (hn : ∀ x ∈ xs, next' x = if xs.getLast? = some x then some n else next x) :
    Linked pre' next' (xs ++ [n]) := by
  intro a x b hx
  -- The split point is the new node or a node of the old sequence.
  rcases List.eq_nil_or_concat b with rfl | ⟨b', y, rfl⟩
  · obtain ⟨rfl, hy⟩ := List.append_inj' hx rfl
    obtain rfl : n = x := by simpa using hy
    exact ⟨hpn, hnn⟩
  · have hx' : xs ++ [n] = (a ++ x :: b') ++ [y] := by simpa using hx
    obtain ⟨rfl, hy⟩ := List.append_inj' hx' rfl
    obtain rfl : n = y := by simpa using hy
    have hmem : x ∈ a ++ x :: b' := by simp
    obtain ⟨hpx, hnx⟩ := h a x b' rfl
    refine ⟨(hp x hmem).trans hpx, ?_⟩
    rw [hn x hmem]
    cases b' with
    | nil => simp
    | cons z b'' =>
      have hne : (a ++ x :: z :: b'').getLast? ≠ some x := by
        have hnd' : ((a ++ [x]) ++ (z :: b'')).Nodup := by simpa using hnd
        intro hlast
        have hlast' : (z :: b'').getLast? = some x := by
          simpa [List.getLast?_append] using hlast
        exact (List.nodup_append.mp hnd').2.2 x (by simp) x (List.mem_of_getLast? hlast') rfl
      rw [if_neg hne, hnx]
      simp

/-- Linking a fresh node in front of the first one: the same, read backwards. -/
theorem Linked.cons (h : Linked pre next xs) (hnd : xs.Nodup)
    (hpn : pre' n = none) (hnn : next' n = xs.head?)
    (hp : ∀ x ∈ xs, pre' x = if xs.head? = some x then some n else pre x)
    (hn : ∀ x ∈ xs, next' x = next x) : Linked pre' next' (n :: xs) := by
  have hback : Linked next' pre' (xs.reverse ++ [n]) := by
    refine h.reverse.concat (List.nodup_reverse.mpr hnd) ?_ hpn ?_ ?_
    · rw [hnn, List.getLast?_reverse]
    · intro x hx
      exact hn x (List.mem_reverse.mp hx)
    · intro x hx
      rw [hp x (List.mem_reverse.mp hx), List.getLast?_reverse]
  simpa using hback.reverse

/-- Unlinking the node `n` closes the gap: the node in front of it points at the node
behind it, and back. -/
theorem Linked.erase (h : Linked pre next (a ++ n :: b)) (hnd : (a ++ n :: b).Nodup)
    (hp : ∀ x ∈ a ++ b, pre' x = if b.head? = some x then a.getLast? else pre x)
    (hn : ∀ x ∈ a ++ b, next' x = if a.getLast? = some x then b.head? else next x) :
    Linked pre' next' (a ++ b) := by
  have hab : (a ++ b).Nodup := hnd.sublist (by simp)
  intro c x d hx
  have hmem : x ∈ a ++ b := by simp [hx]
  rw [hp x hmem, hn x hmem]
  rcases List.append_eq_append_iff.mp hx with ⟨c', rfl, hb⟩ | ⟨d', ha, hd⟩
  · -- `x` is behind the gap: `c = a ++ c'` and `b = c' ++ x :: d`.
    subst hb
    have hlink := h (a ++ n :: c') x d (by simp)
    have hxb : x ∈ c' ++ x :: d := by simp
    rw [if_neg (getLast?_ne_of_mem_right hab hxb)]
    refine ⟨?_, hlink.2⟩
    cases c' with
    | nil => simp
    | cons z c'' =>
      have hne : ((z :: c'') ++ x :: d).head? ≠ some x := by
        have hnd' : ((z :: c'') ++ x :: d).Nodup := (List.nodup_append.mp hab).2.1
        intro hz
        have hzx : z = x := by simpa using hz
        subst hzx
        simp at hnd'
      rw [if_neg hne, hlink.1]
      simp [List.getLast?_append, List.getLast?_cons]
  · -- `x` is in front of the gap, or it is the first node behind it.
    cases d' with
    | nil =>
      simp only [List.append_nil] at ha
      subst ha
      have hb : b = x :: d := by simpa using hd.symm
      subst hb
      have hlink := h (a ++ [n]) x d (by simp)
      have hne := getLast?_ne_of_mem_right hab (x := x) (by simp)
      rw [if_neg hne]
      exact ⟨by simp, hlink.2⟩
    | cons y a' =>
      obtain ⟨rfl, rfl⟩ : x = y ∧ d = a' ++ b := by simpa using hd
      subst ha
      have hlink := h c x (a' ++ n :: b) (by simp)
      have hxa : x ∈ c ++ x :: a' := by simp
      rw [if_neg (head?_ne_of_mem_left hab hxa)]
      refine ⟨hlink.1, ?_⟩
      rcases List.eq_nil_or_concat a' with rfl | ⟨a'', z, rfl⟩
      · simp
      · have hne : (c ++ x :: (a'' ++ [z])).getLast? ≠ some x := by
          have hnd' : ((c ++ [x]) ++ (a'' ++ [z])).Nodup := by
            have := (List.nodup_append.mp hab).1
            simpa using this
          intro hz
          have hzx : z = x := by
            simpa [List.getLast?_append, List.getLast?_cons] using hz
          subst hzx
          exact (List.nodup_append.mp hnd').2.2 z (by simp) z (by simp) rfl
        rw [List.concat_eq_append, if_neg hne, hlink.2]
        simp

end Chain
