import Mathlib.Logic.Function.Basic

/-!
# `StartKernel.Tools.List`: the intrusive list of `tools/list.c`

A `list_node_t` is embedded in the object it links. One list of the kernel only ever links
one kind of embedded node (`run_node`, `wait_node` or `all_node` of a task), so the pointer
to a node is represented by the object that holds it, of type `N`, and `list_node_parent`
is the identity. A heap of nodes of one kind is a function `N → ListNode N`. A null pointer
is `none`.

The functions take the heap and the list header and return both. `count` is the C `int`;
the number of objects in 32 bits of memory keeps it far below `2^31`, so it is an `Int`.
-/

set_option autoImplicit false

namespace StartKernel

open Function (update)

/-- `list_node_t`. -/
structure ListNode (N : Type) where
  pre : Option N
  next : Option N
  deriving DecidableEq, Repr

/-- `list_t`. -/
structure ListT (N : Type) where
  first : Option N
  last : Option N
  count : Int
  deriving DecidableEq, Repr

variable {N : Type}

/-- `list_init`. -/
def listInit : ListT N := { first := none, last := none, count := 0 }

/-- `list_node_init`. -/
def listNodeInit : ListNode N := { pre := none, next := none }

/-- `list_is_empty` reads the count, not the pointers. -/
def listIsEmpty (list : ListT N) : Bool := list.count == 0

/-- `list_count`. -/
def listCount (list : ListT N) : Int := list.count

/-- `list_first`. -/
def listFirst (list : ListT N) : Option N := list.first

/-- `list_last`. -/
def listLast (list : ListT N) : Option N := list.last

/-- `list_node_next`. -/
def listNodeNext (heap : N → ListNode N) (node : N) : Option N := (heap node).next

variable [DecidableEq N]

/-- The store `node->next = v` through a pointer. The source never makes it through a null
pointer on a well-formed list; here such a store changes nothing. -/
def setNext (heap : N → ListNode N) (node : Option N) (v : Option N) : N → ListNode N :=
  match node with
  | some n => update heap n { heap n with next := v }
  | none => heap

/-- The store `node->pre = v` through a pointer. -/
def setPre (heap : N → ListNode N) (node : Option N) (v : Option N) : N → ListNode N :=
  match node with
  | some n => update heap n { heap n with pre := v }
  | none => heap

/-- `list_insert_first`. -/
def listInsertFirst (heap : N → ListNode N) (list : ListT N) (node : N) :
    (N → ListNode N) × ListT N :=
  let heap := setNext heap (some node) list.first
  let heap := setPre heap (some node) none
  if listIsEmpty list then
    (heap, { first := some node, last := some node, count := list.count + 1 })
  else
    (setPre heap list.first (some node),
      { list with first := some node, count := list.count + 1 })

/-- `list_insert_last`. -/
def listInsertLast (heap : N → ListNode N) (list : ListT N) (node : N) :
    (N → ListNode N) × ListT N :=
  let heap := setPre heap (some node) list.last
  let heap := setNext heap (some node) none
  if listIsEmpty list then
    (heap, { first := some node, last := some node, count := list.count + 1 })
  else
    (setNext heap list.last (some node),
      { list with last := some node, count := list.count + 1 })

/-- `list_remove_first`. The first component is the returned node, null on an empty
list. -/
def listRemoveFirst (heap : N → ListNode N) (list : ListT N) :
    Option N × (N → ListNode N) × ListT N :=
  if listIsEmpty list then
    (none, heap, list)
  else
    match list.first with
    | none => (none, heap, list) -- `remove_node` is null: not reached on a well-formed list
    | some removeNode =>
      let first := (heap removeNode).next
      let last := if first = none then none else list.last
      let heap := setPre heap first none
      let heap := setPre (setNext heap (some removeNode) none) (some removeNode) none
      (some removeNode, heap, { first, last, count := list.count - 1 })

/-- `list_remove`. It does not check that the node is in the list. -/
def listRemove (heap : N → ListNode N) (list : ListT N) (removeNode : N) :
    (N → ListNode N) × ListT N :=
  let first := if list.first = some removeNode then (heap removeNode).next else list.first
  let last := if list.last = some removeNode then (heap removeNode).pre else list.last
  let heap := setNext heap (heap removeNode).pre (heap removeNode).next
  let heap := setPre heap (heap removeNode).next (heap removeNode).pre
  let heap := setPre (setNext heap (some removeNode) none) (some removeNode) none
  (heap, { first, last, count := list.count - 1 })

end StartKernel
