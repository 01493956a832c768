import Mathlib.Logic.Function.Basic

/-!
# `StartKernel.Abs.PrivateMemory`: address spaces as private memories

What address spaces are for: each one is a memory of its own. A space gives a cell to each of its
addresses, and says whether user code may write there. There are no frames, no tables and no
allocator.

`Step` says what an operation may do to the spaces. A new space is empty, an operation that runs
out of memory leaves part of its work undone, and the first contents of new cells are unspecified.

* `Step.frame`, `Run.frame`: a space that no operation names does not change.
-/

set_option autoImplicit false

namespace PrivateMemory

open Function (update)

variable {D V B : Type}

/-- What is at an address of a space. -/
@[ext]
structure Cell (B : Type) where
  writable : Bool
  byte : B

/-- A space: the cells at its addresses. -/
abbrev Space (V B : Type) := V → Option (Cell B)

/-- The spaces that exist, by name. -/
abbrev Spaces (D V B : Type) := D → Option (Space V B)

/-- The operations on spaces. -/
inductive Op (D V B : Type)
  | create
  /-- The space `d` gets cells at some of the addresses in `P`. -/
  | extend (d : D) (P : V → Prop) (writable : Bool)
  /-- The space `d` is copied to a new one. -/
  | fork (d : D)
  | destroy (d : D)
  /-- User code stores a byte in the space `d`. -/
  | store (d : D) (v : V) (b : B)
  /-- Something that the spaces do not see. -/
  | other

/-- The operation is about the space `d`, and it may change it. -/
def Op.names (d : D) : Op D V B → Prop
  | .extend d' _ _ => d' = d
  | .destroy d' => d' = d
  | .store d' _ _ => d' = d
  | _ => False

variable [DecidableEq D] [DecidableEq V]

/-- A store to a space. Where it may not write it changes nothing. -/
def Space.store (sp : Space V B) (v : V) (b : B) : Space V B :=
  match sp v with
  | some ⟨true, _⟩ => update sp v (some ⟨true, b⟩)
  | _ => sp

/-- What an operation may do to the spaces. -/
inductive Step : Spaces D V B → Op D V B → Spaces D V B → Prop
  | create {σ : Spaces D V B} {d : D} (hnew : σ d = none) :
      Step σ .create (update σ d (some fun _ => none))
  | createFails {σ : Spaces D V B} : Step σ .create σ
  | extend {σ : Spaces D V B} {d : D} {P : V → Prop} {w : Bool} {sp sp' : Space V B}
      (hd : σ d = some sp) (hfree : ∀ v, P v → sp v = none) (hout : ∀ v, ¬ P v → sp' v = sp v)
      (hin : ∀ v, P v → sp' v = none ∨ ∃ b, sp' v = some ⟨w, b⟩) :
      Step σ (.extend d P w) (update σ d (some sp'))
  | fork {σ : Spaces D V B} {d d' : D} {sp : Space V B} (hd : σ d = some sp)
      (hnew : σ d' = none) : Step σ (.fork d) (update σ d' (some sp))
  | forkFails {σ : Spaces D V B} {d : D} : Step σ (.fork d) σ
  | destroy {σ : Spaces D V B} {d : D} {sp : Space V B} (hd : σ d = some sp) :
      Step σ (.destroy d) (update σ d none)
  | store {σ : Spaces D V B} {d : D} {sp : Space V B} (hd : σ d = some sp) (v : V) (b : B) :
      Step σ (.store d v b) (update σ d (some (sp.store v b)))
  | other {σ : Spaces D V B} : Step σ .other σ

/-- A sequence of operations. -/
inductive Run : Spaces D V B → List (Op D V B) → Spaces D V B → Prop
  | nil {σ : Spaces D V B} : Run σ [] σ
  | cons {σ σ' σ'' : Spaces D V B} {op : Op D V B} {ops : List (Op D V B)} (h : Step σ op σ')
      (hrest : Run σ' ops σ'') : Run σ (op :: ops) σ''

variable {σ σ' : Spaces D V B} {op : Op D V B} {ops : List (Op D V B)} {d : D} {sp : Space V B}

/-- A space that exists and that the operation does not name stays as it is. -/
theorem Step.frame (h : Step σ op σ') (hn : ¬ op.names d) (hd : σ d = some sp) :
    σ' d = some sp := by
  have hold : ∀ d' x, d' ≠ d → update σ d' x d = some sp := fun d' x hne => by
    rw [Function.update_of_ne hne.symm, hd]
  have hnew : ∀ d', σ d' = none → d' ≠ d := by
    rintro d' hd' rfl
    rw [hd'] at hd
    cases hd
  cases h with
  | create h => exact hold _ _ (hnew _ h)
  | createFails => exact hd
  | extend => exact hold _ _ hn
  | fork _ h => exact hold _ _ (hnew _ h)
  | forkFails => exact hd
  | destroy => exact hold _ _ hn
  | store => exact hold _ _ hn
  | other => exact hd

/-- The same over a sequence of operations. -/
theorem Run.frame (h : Run σ ops σ') (hn : ∀ op ∈ ops, ¬ op.names d) (hd : σ d = some sp) :
    σ' d = some sp := by
  induction h with
  | nil => exact hd
  | cons hstep _ ih =>
    exact ih (fun op hop => hn op (List.mem_cons_of_mem _ hop))
      (hstep.frame (hn _ List.mem_cons_self) hd)

end PrivateMemory
