import Aof.Lib.Run
import Mathlib.Data.List.Perm.Basic

/-!
# Read, modify, write

Calls on a shared file, each of which reads the whole file, and later writes what its edit makes of
that.  If at every write the file is still the one that the call has read, the file is what the
calls would have left one after the other.
-/

namespace ReadModifyWrite

open StepSystem

variable {File Call : Type*}

/-- A call that has read the file and has not written it. -/
structure Pending (File Call : Type*) where
  call : Call
  read : File

/-- The file, the calls that have read it, and the calls that are done, in the order of their
effects. -/
structure Session (File Call : Type*) where
  file : File
  pending : List (Pending File Call) := []
  order : List Call := []

inductive Event (Call : Type*) where
  | read (call : Call)
  | write (index : Nat)
  deriving DecidableEq, Repr

/-- A call whose edit has no result is done when it has read.  A call that is excluded by a pending
one waits with its read. -/
def step (edit : Call → File → Option File) (excludes : Call → Call → Bool)
    (session : Session File Call) : Event Call → Option (Session File Call)
  | .read call =>
      if session.pending.any fun other => excludes other.call call then none
      else
        match edit call session.file with
        | none => some { session with order := session.order ++ [call] }
        | some _ => some { session with pending := session.pending ++ [⟨call, session.file⟩] }
  | .write index =>
      match session.pending[index]? with
      | none => none
      | some pending => some
          { file := (edit pending.call pending.read).getD pending.read
            pending := session.pending.eraseIdx index
            order := session.order ++ [pending.call] }

def replay (edit : Call → File → Option File) (file : File) (calls : List Call) : File :=
  calls.foldl (fun file call => (edit call file).getD file) file

def issued (events : List (Event Call)) : List Call :=
  events.filterMap fun event =>
    match event with
    | .read call => some call
    | .write _ => none

def unchanged [DecidableEq File] (session : Session File Call) : Event Call → Bool
  | .read _ => true
  | .write index => (session.pending[index]?).all fun pending => pending.read = session.file

section Replay

variable {edit : Call → File → Option File} {file : File}

@[simp]
theorem replay_nil : replay edit file [] = file := rfl

@[simp]
theorem replay_cons (call : Call) (calls : List Call) :
    replay edit file (call :: calls) = replay edit ((edit call file).getD file) calls := rfl

theorem replay_append (calls calls' : List Call) :
    replay edit file (calls ++ calls') = replay edit (replay edit file calls) calls' :=
  List.foldl_append

theorem replay_snoc (calls : List Call) (call : Call) : replay edit file (calls ++ [call]) =
      (edit call (replay edit file calls)).getD (replay edit file calls) := by
  rw [replay_append, replay_cons, replay_nil]

theorem replay_invariant {related : File → File → Prop} (hrefl : ∀ file, related file file)
    (htrans : ∀ a b c, related a b → related b c → related a c) {calls : List Call}
    (hedit : ∀ call ∈ calls, ∀ file next, edit call file = some next → related file next) :
    related file (replay edit file calls) := by
  induction calls generalizing file with
  | nil => exact hrefl file
  | cons call calls ih =>
      have hrest : ∀ other ∈ calls, ∀ file next, edit other file = some next →
          related file next := fun other hmem => hedit other (List.mem_cons_of_mem _ hmem)
      rw [replay_cons]
      cases hresult : edit call file with
      | none => exact ih hrest
      | some next =>
          apply htrans _ _ _ (hedit call List.mem_cons_self file next hresult)
          exact ih hrest

theorem issued_append (events events' : List (Event Call)) :
    issued (events ++ events') = issued events ++ issued events' :=
  List.filterMap_append

end Replay

section Runs

variable {edit : Call → File → Option File} {excludes : Call → Call → Bool}
  {session next : Session File Call} {event : Event Call} {file : File}

theorem perm_step {calls : List Call}
    (hperm : (session.order ++ session.pending.map Pending.call).Perm calls)
    (hstep : step edit excludes session event = some next) :
    (next.order ++ next.pending.map Pending.call).Perm (calls ++ issued [event]) := by
  cases event with
  | read call =>
      rw [step, Option.ite_none_left_eq_some] at hstep
      obtain ⟨-, hstep⟩ := hstep
      split at hstep
      · obtain rfl := Option.some.inj hstep
        apply List.Perm.trans _ (hperm.append_right [call])
        rw [List.append_assoc, List.append_assoc]
        exact List.perm_append_comm.append_left session.order
      · obtain rfl := Option.some.inj hstep
        rw [List.map_append, ← List.append_assoc]
        exact hperm.append_right [call]
  | write index =>
      rw [step] at hstep
      split at hstep
      · cases hstep
      · rename_i pending hpending
        obtain rfl := Option.some.inj hstep
        obtain ⟨hindex, hget⟩ := List.getElem?_eq_some_iff.mp hpending
        have herase := (List.getElem_cons_eraseIdx_perm hindex).map Pending.call
        rw [List.map_cons, hget] at herase
        rw [show issued [Event.write index] = ([] : List Call) from rfl, List.append_nil,
          List.append_assoc]
        exact (herase.append_left session.order).trans hperm

variable [DecidableEq File]

theorem replay_step (hfile : session.file = replay edit file session.order)
    (hunchanged : unchanged session event = true)
    (hstep : step edit excludes session event = some next) :
    next.file = replay edit file next.order := by
  cases event with
  | read call =>
      rw [step, Option.ite_none_left_eq_some] at hstep
      obtain ⟨-, hstep⟩ := hstep
      split at hstep
      · rename_i hnone
        obtain rfl := Option.some.inj hstep
        rw [replay_snoc, ← hfile, hnone]
        rfl
      · obtain rfl := Option.some.inj hstep
        exact hfile
  | write index =>
      rw [step] at hstep
      split at hstep
      · cases hstep
      · rename_i pending hpending
        obtain rfl := Option.some.inj hstep
        rw [unchanged, hpending, Option.all_some] at hunchanged
        rw [replay_snoc, ← hfile, of_decide_eq_true hunchanged]

theorem serial_of_unchanged {events : List (Event Call)}
    (hrun : Run (step edit excludes) (fun session event => unchanged session event = true)
      { file } events session) (hsettled : session.pending = []) :
    session.order.Perm (issued events) ∧ session.file = replay edit file session.order := by
  have hinv := hrun.invariant_trace
    (fun (events : List (Event Call)) (session : Session File Call) =>
      (session.order ++ session.pending.map Pending.call).Perm (issued events) ∧
        session.file = replay edit file session.order)
    (fun events session event next hinv hunchanged hstep => by
      rw [issued_append]
      exact ⟨perm_step hinv.1 hstep, replay_step hinv.2 hunchanged hstep⟩)
    ⟨List.Perm.refl _, rfl⟩
  rw [hsettled, List.map_nil, List.append_nil] at hinv
  exact hinv

end Runs

end ReadModifyWrite
