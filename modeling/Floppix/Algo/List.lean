import Floppix.Lib.Doubly
import Floppix.Lib.Transition
import Floppix.System.Errno

/-! # Lists

`fpx_list_t` links nodes that are fields of other structures, and owns none of them. Each of
the functions writes to the list, to the node and to its neighbours; the size is counted
apart from the links, in a `size_t` that wraps.
-/

namespace Floppix.Lists

open LinkedList Transition

structure Node (α : Type) where
  next : Option α
  prev : Option α

structure Header (α : Type) where
  head : Option α
  tail : Option α
  size : Nat

abbrev Nodes (α : Type) := α → Node α

def nextOf {α : Type} (nodes : Nodes α) (a : α) : Option α := (nodes a).next
def prevOf {α : Type} (nodes : Nodes α) (a : α) : Option α := (nodes a).prev

section Functions

variable {α : Type} [DecidableEq α]

def setNext (nodes : Nodes α) (a : α) (ptr : Option α) : Nodes α :=
  Function.update nodes a { nodes a with next := ptr }

def setPrev (nodes : Nodes α) (a : α) (ptr : Option α) : Nodes α :=
  Function.update nodes a { nodes a with prev := ptr }

@[simp] theorem nextOf_setNext (nodes : Nodes α) (a : α) (ptr : Option α) :
    nextOf (setNext nodes a ptr) = Function.update (nextOf nodes) a ptr := by
  funext x
  by_cases hx : x = a
  · subst hx
    simp [nextOf, setNext]
  · simp [nextOf, setNext, hx]

@[simp] theorem prevOf_setPrev (nodes : Nodes α) (a : α) (ptr : Option α) :
    prevOf (setPrev nodes a ptr) = Function.update (prevOf nodes) a ptr := by
  funext x
  by_cases hx : x = a
  · subst hx
    simp [prevOf, setPrev]
  · simp [prevOf, setPrev, hx]

@[simp] theorem nextOf_setPrev (nodes : Nodes α) (a : α) (ptr : Option α) :
    nextOf (setPrev nodes a ptr) = nextOf nodes := by
  funext x
  by_cases hx : x = a
  · subst hx
    simp [nextOf, setPrev]
  · simp [nextOf, setPrev, hx]

@[simp] theorem prevOf_setNext (nodes : Nodes α) (a : α) (ptr : Option α) :
    prevOf (setNext nodes a ptr) = prevOf nodes := by
  funext x
  by_cases hx : x = a
  · subst hx
    simp [prevOf, setNext]
  · simp [prevOf, setNext, hx]

/-! ## The functions -/

/-- `fpx_list_init`, and `fpx_list_clear`. -/
def listInit : Header α := ⟨none, none, 0⟩

/-- `size += 1` and `size -= 1` in a `size_t` that has `sizeMax` values. -/
def increment (sizeMax size : Nat) : Nat := (size + 1) % sizeMax
def decrement (sizeMax size : Nat) : Nat := (size + sizeMax - 1) % sizeMax

def pushFront (sizeMax : Nat) (list : Header α) (nodes : Nodes α) (node : α) :
    Header α × Nodes α :=
  let nodes := setPrev nodes node none
  let (list, nodes) :=
    match list.head with
    | none => ({ list with tail := some node }, setNext nodes node none)
    | some head => (list, setNext (setPrev nodes head (some node)) node (some head))
  ({ list with head := some node, size := increment sizeMax list.size }, nodes)

def pushBack (sizeMax : Nat) (list : Header α) (nodes : Nodes α) (node : α) :
    Header α × Nodes α :=
  let nodes := setNext nodes node none
  let (list, nodes) :=
    match list.tail with
    | none => ({ list with head := some node }, setPrev nodes node none)
    | some tail => (list, setPrev (setNext nodes tail (some node)) node (some tail))
  ({ list with tail := some node, size := increment sizeMax list.size }, nodes)

def remove (sizeMax : Nat) (list : Header α) (nodes : Nodes α) (node : α) :
    Header α × Nodes α :=
  let nodes := (nextOf nodes node).elim nodes fun b => setPrev nodes b (prevOf nodes node)
  let nodes := (prevOf nodes node).elim nodes fun a => setNext nodes a (nextOf nodes node)
  let list := if list.head = some node then { list with head := nextOf nodes node } else list
  let list := if list.tail = some node then { list with tail := prevOf nodes node } else list
  ({ list with size := decrement sizeMax list.size }, nodes)

def insertBefore (list : Header α) (nodes : Nodes α) (beforeNode node : α) :
    Header α × Nodes α :=
  match prevOf nodes beforeNode with
  | none =>
      let nodes := setNext (setPrev nodes node none) node (some beforeNode)
      ({ list with head := some node }, setPrev nodes beforeNode (some node))
  | some before =>
      let nodes := setPrev (setNext nodes node (some beforeNode)) node (some before)
      (list, setPrev (setNext nodes before (some node)) beforeNode (some node))

def insertAfter (list : Header α) (nodes : Nodes α) (afterNode node : α) :
    Header α × Nodes α :=
  match nextOf nodes afterNode with
  | none =>
      let nodes := setNext (setPrev nodes node (some afterNode)) node none
      ({ list with tail := some node }, setNext nodes afterNode (some node))
  | some after =>
      let nodes := setNext (setPrev nodes node (some afterNode)) node (some after)
      (list, setNext (setPrev nodes after (some node)) afterNode (some node))

/-- The loop that `fpx_list_find`, `fpx_list_remove_first` and `fpx_list_remove_last` have,
along one of the links, for a number of rounds: where it ends. -/
def search (link : α → Option α) (compar : α → Bool) : Nat → Option α → Option (Option α)
  | _, none => some none
  | 0, some _ => none
  | rounds + 1, some a =>
      if compar a then some (some a) else search link compar rounds (link a)

def find (rounds : Nat) (list : Header α) (nodes : Nodes α) (compar : α → Bool) :
    Option (Option α) := search (nextOf nodes) compar rounds list.head

def removeFound (sizeMax : Nat) (list : Header α) (nodes : Nodes α) :
    Option α → Err × Header α × Nodes α
  | none => (Err.failed, list, nodes)
  | some a => (Err.ok, remove sizeMax list nodes a)

def removeFirst (sizeMax rounds : Nat) (list : Header α) (nodes : Nodes α) (compar : α → Bool) :
    Option (Err × Header α × Nodes α) :=
  (search (nextOf nodes) compar rounds list.head).map (removeFound sizeMax list nodes)

def removeLast (sizeMax rounds : Nat) (list : Header α) (nodes : Nodes α) (compar : α → Bool) :
    Option (Err × Header α × Nodes α) :=
  (search (prevOf nodes) compar rounds list.tail).map (removeFound sizeMax list nodes)

/-! ## Pushing a node -/

section Pushing

variable {sizeMax : Nat} {list : Header α} {nodes : Nodes α} {a x : α}

theorem pushBack_size : (pushBack sizeMax list nodes a).1.size = increment sizeMax list.size := by
  unfold pushBack
  cases list.tail <;> rfl

theorem pushBack_frame (sizeMax : Nat) (hx : x ≠ a) (htail : list.tail ≠ some x) :
    (pushBack sizeMax list nodes a).2 x = nodes x := by
  unfold pushBack
  cases hlast : list.tail with
  | none => simp [setPrev, setNext, hx]
  | some t =>
      have hxt : x ≠ t := fun heq => htail (by rw [hlast, heq])
      simp [setPrev, setNext, hx, hxt]

end Pushing

end Functions

end Floppix.Lists
