import Mathlib.Logic.Function.Basic

/-!
# Promises and microtasks

A promise is named by the call that makes it and by its place in this call.  When it settles, the
reactions registered on it are queued for the calls that they belong to.  The microtasks of one call
run in the order in which they were queued; between calls any order is allowed, and the single queue
of an event loop gives one of them.
-/

namespace Promises

variable {Name Reaction Outcome : Type}

inductive Settlement (Reaction Outcome : Type) where
  | pending (reactions : List (Nat × Reaction))
  | settled (outcome : Outcome)

/-- `adopt` makes a promise that was resolved with another one follow it. -/
inductive Microtask (Name Reaction Outcome : Type) where
  | react (reaction : Reaction) (outcome : Outcome)
  | adopt (source : Name) (reaction : Reaction)

/-- The promises that a call has made, and its microtasks. -/
@[ext]
structure Cell (Name Reaction Outcome : Type) where
  promises : Name → Option (Settlement Reaction Outcome) := fun _ => none
  queue : List (Microtask Name Reaction Outcome) := []

abbrev Heap (Name Reaction Outcome : Type) := Nat → Cell Name Reaction Outcome

namespace Heap

def enqueue (heap : Heap Name Reaction Outcome) (call : Nat)
    (task : Microtask Name Reaction Outcome) : Heap Name Reaction Outcome :=
  Function.update heap call { heap call with queue := (heap call).queue ++ [task] }

variable [DecidableEq Name]

def put (heap : Heap Name Reaction Outcome) (call : Nat) (name : Name)
    (settlement : Settlement Reaction Outcome) : Heap Name Reaction Outcome :=
  Function.update heap call
    { heap call with promises := Function.update (heap call).promises name (some settlement) }

def create (heap : Heap Name Reaction Outcome) (call : Nat) (name : Name) :
    Heap Name Reaction Outcome :=
  heap.put call name (.pending [])

/-- `then` on a promise: the reaction waits, or is queued at once. -/
def subscribe (heap : Heap Name Reaction Outcome) (call : Nat) (name : Name)
    (reaction : Nat × Reaction) : Heap Name Reaction Outcome :=
  match (heap call).promises name with
  | some (.pending reactions) => heap.put call name (.pending (reactions ++ [reaction]))
  | some (.settled outcome) => heap.enqueue reaction.1 (.react reaction.2 outcome)
  | none => heap

def settle (heap : Heap Name Reaction Outcome) (call : Nat) (name : Name) (outcome : Outcome) :
    Heap Name Reaction Outcome :=
  match (heap call).promises name with
  | some (.pending reactions) =>
      reactions.foldl (fun heap reaction => heap.enqueue reaction.1 (.react reaction.2 outcome))
        (heap.put call name (.settled outcome))
  | _ => heap

section OneCall

variable {heap : Heap Name Reaction Outcome} {call : Nat} {cell : Cell Name Reaction Outcome}
  {name : Name}

omit [DecidableEq Name] in
@[simp]
theorem enqueue_update (task : Microtask Name Reaction Outcome) :
    enqueue (Function.update heap call cell) call task =
      Function.update heap call { cell with queue := cell.queue ++ [task] } := by
  simp [enqueue]

variable {other first : Nat} {reactions : List (Nat × Reaction)} {outcome : Outcome}
  {reaction onward : Reaction}

omit [DecidableEq Name] in
theorem enqueue_update_of_ne (hne : other ≠ call) (task : Microtask Name Reaction Outcome) :
    enqueue (Function.update heap call cell) other task =
      Function.update (Function.update heap call cell) other
        { heap other with queue := (heap other).queue ++ [task] } := by
  unfold enqueue
  rw [Function.update_of_ne hne]

@[simp]
theorem put_update (settlement : Settlement Reaction Outcome) :
    put (Function.update heap call cell) call name settlement = Function.update heap call
        { cell with promises := Function.update cell.promises name (some settlement) } := by
  simp [put]

theorem subscribe_pending (hpending : cell.promises name = some (.pending reactions))
    (reaction : Nat × Reaction) :
    subscribe (Function.update heap call cell) call name reaction =
      Function.update heap call
        { cell with
          promises := Function.update cell.promises name
            (some (.pending (reactions ++ [reaction]))) } := by
  unfold subscribe
  rw [Function.update_self, hpending]
  exact put_update _

theorem subscribe_settled (hsettled : cell.promises name = some (.settled outcome))
    (reaction : Reaction) : subscribe (Function.update heap call cell) call name (call, reaction) =
      Function.update heap call { cell with queue := cell.queue ++ [.react reaction outcome] } := by
  unfold subscribe
  rw [Function.update_self, hsettled]
  exact enqueue_update _

theorem subscribe_pending_other (hne : first ≠ call)
    (hpending : (heap first).promises name = some (.pending reactions))
    (reaction : Nat × Reaction) :
    subscribe (Function.update heap call cell) first name reaction =
      Function.update
        (Function.update heap first
          { heap first with
            promises := Function.update (heap first).promises name
              (some (.pending (reactions ++ [reaction]))) })
        call cell := by
  unfold subscribe
  rw [Function.update_of_ne hne, hpending]
  dsimp only [put]
  rw [Function.update_of_ne hne, Function.update_comm hne.symm]

theorem subscribe_settled_other (hne : first ≠ call)
    (hsettled : (heap first).promises name = some (.settled outcome)) (reaction : Reaction) :
    subscribe (Function.update heap call cell) first name (call, reaction) =
      Function.update heap call { cell with queue := cell.queue ++ [.react reaction outcome] } := by
  unfold subscribe
  rw [Function.update_of_ne hne, hsettled]
  exact enqueue_update _

theorem settle_pending (hpending : cell.promises name = some (.pending reactions))
    (outcome : Outcome) :
    settle (Function.update heap call cell) call name outcome =
      reactions.foldl
        (fun (heap : Heap Name Reaction Outcome) reaction =>
          heap.enqueue reaction.1 (.react reaction.2 outcome))
        (Function.update heap call
          { cell with
            promises := Function.update cell.promises name (some (.settled outcome)) }) := by
  unfold settle
  rw [Function.update_self, hpending]
  dsimp only
  rw [put_update]

theorem settle_alone (hpending : cell.promises name = some (.pending [])) (outcome : Outcome) :
    settle (Function.update heap call cell) call name outcome = Function.update heap call
        { cell with promises := Function.update cell.promises name (some (.settled outcome)) } := by
  rw [settle_pending hpending, List.foldl_nil]

theorem settle_own (hpending : cell.promises name = some (.pending [(call, reaction)]))
    (outcome : Outcome) : settle (Function.update heap call cell) call name outcome =
      Function.update heap call
        { promises := Function.update cell.promises name (some (.settled outcome))
          queue := cell.queue ++ [.react reaction outcome] } := by
  rw [settle_pending hpending, List.foldl_cons, List.foldl_nil, enqueue_update]

theorem settle_other (hne : other ≠ call)
    (hpending : cell.promises name = some (.pending [(other, onward)])) (outcome : Outcome) :
    settle (Function.update heap call cell) call name outcome = Function.update
        (Function.update heap call
          { cell with promises := Function.update cell.promises name (some (.settled outcome)) })
        other { heap other with queue := (heap other).queue ++ [.react onward outcome] } := by
  rw [settle_pending hpending, List.foldl_cons, List.foldl_nil, enqueue_update_of_ne hne]

theorem settle_own_twice {second : Reaction}
    (hpending : cell.promises name = some (.pending [(call, reaction), (call, second)]))
    (outcome : Outcome) : settle (Function.update heap call cell) call name outcome =
      Function.update heap call
        { promises := Function.update cell.promises name (some (.settled outcome))
          queue := cell.queue ++ [.react reaction outcome] ++ [.react second outcome] } := by
  rw [settle_pending hpending, List.foldl_cons, List.foldl_cons, List.foldl_nil, enqueue_update,
    enqueue_update]

theorem settle_own_next (hne : other ≠ call)
    (hpending : cell.promises name = some (.pending [(call, reaction), (other, onward)]))
    (outcome : Outcome) : settle (Function.update heap call cell) call name outcome =
      Function.update (Function.update heap call
          { promises := Function.update cell.promises name (some (.settled outcome))
            queue := cell.queue ++ [.react reaction outcome] })
        other { heap other with queue := (heap other).queue ++ [.react onward outcome] } := by
  rw [settle_pending hpending, List.foldl_cons, List.foldl_cons, List.foldl_nil, enqueue_update,
    enqueue_update_of_ne hne]

end OneCall

end Heap

end Promises
