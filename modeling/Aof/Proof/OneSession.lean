import Aof.HopSessions
import Aof.Proof.ResultConsumption

/-!
# One session for each hop

In every uncontended run of the asynchronous calls, at most one hop is in flight, no hop is spawned
again before its outcome is recorded, and no dispatch saves over a hop completion.
-/

namespace Aof

open Interleaving

namespace HopSessions

section Objects

variable {task : Task} {workflow : TaskWorkflow} {state : WorkflowState} {hopId timestamp : String}

def InFlight (task : Task) (hopId : String) : Prop := hopStatus task hopId = some .dispatched

theorem inFlight_iff (hworkflow : task.workflow = some workflow) :
    InFlight task hopId ↔ statusOf workflow.state.hops hopId = some .dispatched := by
  rw [InFlight, hopStatus, hworkflow, Option.bind_some]

theorem oneHopInFlight_iff :
    OneHopInFlight task ↔ ∀ id id', InFlight task id → InFlight task id' → id = id' := by
  constructor
  · intro hone id id' hid hid'
    cases hworkflow : task.workflow with
    | none => simp [InFlight, hopStatus, hworkflow] at hid
    | some workflow =>
        exact hone workflow hworkflow id id' ((inFlight_iff hworkflow).1 hid)
          ((inFlight_iff hworkflow).1 hid')
  · intro hone workflow hworkflow id id' hid hid'
    exact hone id id' ((inFlight_iff hworkflow).2 hid) ((inFlight_iff hworkflow).2 hid')

theorem inFlight_withWorkflowState (hworkflow : task.workflow = some workflow) :
    InFlight (task.withWorkflowState state) hopId ↔
      statusOf state.hops hopId = some .dispatched := by
  rw [InFlight, hopStatus, withWorkflowState_workflow hworkflow, Option.bind_some]

theorem inFlight_congr {task' : Task} (hworkflow : task'.workflow = task.workflow) :
    InFlight task' hopId ↔ InFlight task hopId := by
  rw [InFlight, InFlight, hopStatus, hopStatus, hworkflow]

theorem hasDispatched_iff :
    hasDispatched state = true ↔ ∃ id, statusOf state.hops id = some .dispatched := by
  simp only [hasDispatched, List.any_eq_true, decide_eq_true_eq, Dict.mem_values_iff_get?,
    statusOf_eq_some_iff]
  constructor
  · rintro ⟨hopState, ⟨id, hget⟩, hstatus⟩
    exact ⟨id, hopState, hget, hstatus⟩
  · rintro ⟨id, hopState, hget, hstatus⟩
    exact ⟨hopState, ⟨id, hget⟩, hstatus⟩

variable {hop : Hop} {result : DAGHopCompletionResult} {copy : Copy} {id : String}

theorem pollHop_spec {scanned fresh : Task} (hpoll : pollHop scanned fresh = some hop) :
    fresh.workflow.isSome ∧ ∀ id, ¬InFlight fresh id := by
  simp only [pollHop, Option.bind_eq_bind, Option.bind_eq_some_iff] at hpoll
  obtain ⟨scannedWorkflow, -, workflow, hworkflow, hpoll⟩ := hpoll
  split at hpoll
  · cases hpoll
  · rename_i hnone
    refine ⟨by simp [hworkflow], fun id hid => hnone (.inr ?_)⟩
    exact hasDispatched_iff.2 ⟨id, (inFlight_iff hworkflow).1 hid⟩

theorem nextHop_isSome (hnext : nextHop task result = some hop) : task.workflow.isSome := by
  simp only [nextHop, Option.bind_eq_bind, Option.bind_eq_some_iff] at hnext
  obtain ⟨workflow, hworkflow, -⟩ := hnext
  simp [hworkflow]

theorem inFlight_dispatch {sessionId : String} (hworkflow : copy.task.workflow.isSome) :
    InFlight (copy.dispatch hop sessionId timestamp).task hopId ↔
      hopId = hop.id ∨ InFlight copy.task hopId := by
  obtain ⟨workflow, hworkflow⟩ := Option.isSome_iff_exists.1 hworkflow
  simp only [Copy.dispatch, hworkflow]
  rw [inFlight_withWorkflowState hworkflow, statusOf_markDispatched, inFlight_iff hworkflow]
  by_cases heq : hopId = hop.id
  · simp [heq, recordStatus_self]
  · rw [recordStatus_of_ne heq]
    simp [heq]

theorem escalation_spec {hopState : HopState} {role : String}
    (hescalation : escalation task hopId = some (workflow, hopState, role)) :
    task.workflow = some workflow ∧ InFlight task hopId := by
  simp only [escalation, Option.bind_eq_bind, Option.bind_eq_some_iff] at hescalation
  obtain ⟨found, hworkflow, entry, hget, toRole, -, hescalation⟩ := hescalation
  split at hescalation
  · cases hescalation
  · rename_i hguard
    obtain ⟨rfl, rfl, rfl⟩ : found = workflow ∧ entry = hopState ∧ toRole = role := by
      simpa using hescalation
    refine ⟨hworkflow, (inFlight_iff hworkflow).2 (statusOf_eq_some_iff.2 ⟨entry, hget, ?_⟩)⟩
    by_contra hne
    exact hguard (.inl hne)

theorem inFlight_escalate {spawn : SpawnResult}
    (hescalation : (escalation copy.task hopId).isSome) :
    InFlight (copy.escalate hopId spawn timestamp).task id ↔
      if id = hopId then ∃ sessionId, spawn = .success sessionId else InFlight copy.task id := by
  obtain ⟨⟨workflow, hopState, role⟩, hescalation⟩ := Option.isSome_iff_exists.1 hescalation
  obtain ⟨hworkflow, -⟩ := escalation_spec hescalation
  simp only [Copy.escalate, hescalation]
  rw [inFlight_withWorkflowState hworkflow, statusOf_set, inFlight_iff hworkflow]
  by_cases heq : id = hopId
  · subst heq
    cases spawn <;> simp [escalatedHop]
  · simp [heq, Ne.symm heq]

theorem evaluation_spec {runResult : RunResult}
    (heval : evaluation task runResult timestamp = some (hopId, state, result)) :
    InFlight task hopId ∧ ∀ id, InFlight (task.withWorkflowState state) id →
      InFlight task id ∧ id ≠ hopId := by
  simp only [evaluation, Option.bind_eq_bind, Option.bind_eq_some_iff, Option.some.injEq,
    Prod.mk.injEq] at heval
  obtain ⟨workflow, hworkflow, _, hfind, evaluated, hevaluated, rfl, rfl, -⟩ := heval
  refine ⟨(inFlight_iff hworkflow).2 (findDispatchedHop_spec hfind), fun id hid => ?_⟩
  rw [inFlight_withWorkflowState hworkflow] at hid
  obtain ⟨hbefore, hne⟩ := (evaluation_of_evaluateDAG hevaluated).dispatched hid
  exact ⟨(inFlight_iff hworkflow).2 hbefore, hne⟩

theorem inFlight_enforceFailure (hworkflow : task.workflow = some workflow) :
    InFlight (task.withWorkflowState (enforceFailure workflow.state hopId timestamp)) id ↔
      InFlight task id ∧ id ≠ hopId := by
  rw [inFlight_withWorkflowState hworkflow, enforceFailure, statusOf_set, inFlight_iff hworkflow]
  by_cases heq : id = hopId
  · simp [heq]
  · simp [heq, Ne.symm heq]

end Objects

def Reads (state : TaskState) (copy : Copy) (claim : Prop) : Prop :=
  copy.saves ≤ state.saves ∧ (copy.saves = state.saves → claim)

def Current (state : TaskState) (copy : Copy) : Prop :=
  copy.task = state.disk ∧ copy.completions = state.completions

def Process.Busy : Process → Prop
  | .dispatching .. | .dispatched .. | .escalating .. | .escalated .. => True
  | _ => False

def Waiting (state : TaskState) : Process → Prop
  | .dispatching copy _ _ =>
      state.underWay = 1 ∧ Reads state copy
        (copy.completions = state.completions ∧ copy.task.workflow.isSome ∧
          (∀ id, ¬InFlight copy.task id) ∧ state.unrecorded = [])
  | .escalating copy hopId =>
      state.underWay = 1 ∧ (escalation copy.task hopId).isSome ∧ Reads state copy
        (Current state copy ∧ state.unrecorded = [])
  | .dispatched copy _ | .escalated copy =>
      state.underWay = 1 ∧ Reads state copy
        (copy.completions = state.completions ∧ OneHopInFlight copy.task ∧
          ∀ id ∈ state.unrecorded, InFlight copy.task id)
  | .timedOut copy | .ended copy | .answered copy _ => Reads state copy (Current state copy)
  | .completing copy hopId _ _ =>
      Reads state copy ((∀ id, ¬InFlight copy.task id) ∧ ∀ id, InFlight state.disk id → id = hopId)
  | .completed copy _ _ =>
      Reads state copy (Current state copy ∧ ∀ id, ¬InFlight copy.task id)
  | .counting copy _ | .rewriting copy _ =>
      Reads state copy (copy.task.workflow = state.disk.workflow)
  | .enforcing copy hopId =>
      Reads state copy (∀ id, InFlight copy.task id ↔ InFlight state.disk id ∧ id ≠ hopId)
  | _ => True

/-- While no dispatch is under way, every hop with a session is in flight. -/
structure Sound (state : TaskState) : Prop where
  session : OneSession state
  inFlight : state.underWay = 0 → ∀ id ∈ state.unrecorded, InFlight state.disk id

def invariant : Assertion TaskState Process where
  global := Sound
  waiting := Waiting
  apart p q := ¬(p.Busy ∧ q.Busy)

section Frames

variable {state next : TaskState} {copy : Copy} {claim claim' : Prop} {process : Process}

theorem Reads.imp (hreads : Reads state copy claim) (himp : claim → claim') :
    Reads state copy claim' :=
  ⟨hreads.1, fun hfresh => himp (hreads.2 hfresh)⟩

theorem reads_read (state : TaskState) (h : claim) : Reads state state.read claim :=
  ⟨le_refl _, fun _ => h⟩

theorem Reads.of_save (hreads : Reads state copy claim) (hlt : state.saves < next.saves) :
    Reads next copy claim' :=
  ⟨le_trans hreads.1 hlt.le, fun hfresh => absurd (hfresh ▸ hreads.1) (by omega)⟩

theorem Process.Busy.underWay (hbusy : process.Busy) (hwaiting : Waiting state process) :
    state.underWay = 1 := by
  cases process with
  | dispatching | dispatched | escalating | escalated => exact hwaiting.1
  | _ => exact hbusy.elim

theorem Waiting.of_save (hwaiting : Waiting state process) (hlt : state.saves < next.saves)
    (hunderWay : process.Busy → next.underWay = state.underWay) : Waiting next process := by
  cases process with
  | dispatching copy hop holdsLock =>
      exact ⟨(hunderWay trivial).trans hwaiting.1, hwaiting.2.of_save hlt⟩
  | dispatched copy holdsLock =>
      exact ⟨(hunderWay trivial).trans hwaiting.1, hwaiting.2.of_save hlt⟩
  | escalating copy hopId =>
      exact ⟨(hunderWay trivial).trans hwaiting.1, hwaiting.2.1, hwaiting.2.2.of_save hlt⟩
  | escalated copy => exact ⟨(hunderWay trivial).trans hwaiting.1, hwaiting.2.of_save hlt⟩
  | timedOut | ended | answered | completing | completed | counting | rewriting | enforcing =>
      exact Reads.of_save hwaiting hlt
  | _ => trivial

structure SameDisk (state next : TaskState) : Prop where
  disk : next.disk = state.disk
  saves : next.saves = state.saves
  completions : next.completions = state.completions

theorem SameDisk.reads (hsame : SameDisk state next) (hreads : Reads state copy claim)
    (himp : claim → claim') : Reads next copy claim' := by
  rw [Reads, hsame.saves]
  exact hreads.imp himp

theorem SameDisk.waiting (hsame : SameDisk state next) (hwaiting : Waiting state process)
    (hbusy : process.Busy → next.underWay = state.underWay ∧ next.unrecorded = state.unrecorded) :
    Waiting next process := by
  have hcurrent : ∀ {copy}, Current state copy → Current next copy := fun h =>
    ⟨h.1.trans hsame.disk.symm, h.2.trans hsame.completions.symm⟩
  cases process with
  | dispatching copy hop holdsLock =>
      obtain ⟨hunderWay, hunrecorded⟩ := hbusy trivial
      refine ⟨hunderWay.trans hwaiting.1, hsame.reads hwaiting.2 ?_⟩
      rw [hunrecorded, hsame.completions]
      exact fun h => h
  | dispatched copy holdsLock =>
      obtain ⟨hunderWay, hunrecorded⟩ := hbusy trivial
      refine ⟨hunderWay.trans hwaiting.1, hsame.reads hwaiting.2 ?_⟩
      rw [hunrecorded, hsame.completions]
      exact fun h => h
  | escalated copy =>
      obtain ⟨hunderWay, hunrecorded⟩ := hbusy trivial
      refine ⟨hunderWay.trans hwaiting.1, hsame.reads hwaiting.2 ?_⟩
      rw [hunrecorded, hsame.completions]
      exact fun h => h
  | escalating copy hopId =>
      obtain ⟨hunderWay, hunrecorded⟩ := hbusy trivial
      refine ⟨hunderWay.trans hwaiting.1, hwaiting.2.1, hsame.reads hwaiting.2.2 ?_⟩
      rw [hunrecorded]
      exact fun h => ⟨hcurrent h.1, h.2⟩
  | timedOut | ended | answered => exact hsame.reads hwaiting hcurrent
  | completed copy result outcome =>
      exact hsame.reads hwaiting fun h => ⟨hcurrent h.1, h.2⟩
  | completing copy hopId result outcome =>
      refine hsame.reads hwaiting ?_
      rw [hsame.disk]
      exact fun h => h
  | counting copy hopId =>
      refine hsame.reads hwaiting ?_
      rw [hsame.disk]
      exact fun h => h
  | rewriting copy holdsLock =>
      refine hsame.reads hwaiting ?_
      rw [hsame.disk]
      exact fun h => h
  | enforcing copy hopId =>
      refine hsame.reads hwaiting ?_
      rw [hsame.disk]
      exact fun h => h
  | _ => trivial

/-- What another call may notice of a turn. -/
structure Effect (state : TaskState) (process : Process) (next : TaskState) (process' : Process) :
    Prop where
  disk : SameDisk state next ∨ state.saves < next.saves
  busy : process'.Busy → process.Busy ∨ state.underWay = 0
  quiet : process.Busy ∨ state.underWay = 0 ∨ next.underWay = state.underWay ∧
    (SameDisk state next → next.unrecorded = state.unrecorded)

theorem SameDisk.refl (state : TaskState) : SameDisk state state := ⟨rfl, rfl, rfl⟩

theorem Effect.read {process' : Process} (hbusy : ¬process'.Busy) :
    Effect state process state process' :=
  ⟨.inl (.refl state), fun h => (hbusy h).elim, .inr (.inr ⟨rfl, fun _ => rfl⟩)⟩

theorem advance_effect {answer : Answer} {process' : Process}
    (hallowed : Allowed answer state process)
    (hadvance : advance answer state process = some (next, process')) :
    Effect state process next process' := by
  cases process with
  | poll | checkTimeouts | sessionEnd =>
      obtain ⟨rfl, rfl⟩ := Prod.mk.inj (Option.some.inj hadvance)
      refine .read ?_
      split <;> exact not_false
  | scanned task =>
      simp only [advance] at hadvance
      split at hadvance
      · rename_i hop hpoll
        obtain ⟨rfl, rfl⟩ := Prod.mk.inj (Option.some.inj hadvance)
        have hidle := hallowed (by simp [hpoll])
        exact ⟨.inl ⟨rfl, rfl, rfl⟩, fun _ => .inr hidle, .inr (.inl hidle)⟩
      · obtain ⟨rfl, rfl⟩ := Prod.mk.inj (Option.some.inj hadvance)
        exact .read not_false
  | dispatching copy hop holdsLock =>
      simp only [advance] at hadvance
      split at hadvance <;> obtain ⟨rfl, rfl⟩ := Prod.mk.inj (Option.some.inj hadvance)
      · exact ⟨.inl ⟨rfl, rfl, rfl⟩, fun _ => .inl trivial, .inl trivial⟩
      · exact ⟨.inl ⟨rfl, rfl, rfl⟩, fun h => h.elim, .inl trivial⟩
  | dispatched copy holdsLock =>
      obtain ⟨rfl, rfl⟩ := Prod.mk.inj (Option.some.inj hadvance)
      exact ⟨.inr (Nat.lt_succ_self _), fun h => h.elim, .inl trivial⟩
  | timedOut copy =>
      simp only [advance] at hadvance
      split at hadvance
      · rename_i hopId htimedOut
        split at hadvance <;> obtain ⟨rfl, rfl⟩ := Prod.mk.inj (Option.some.inj hadvance)
        · rename_i hescalation
          have hidle := hallowed hopId htimedOut hescalation
          exact ⟨.inl ⟨rfl, rfl, rfl⟩, fun _ => .inr hidle, .inr (.inl hidle)⟩
        · exact .read not_false
      · obtain ⟨rfl, rfl⟩ := Prod.mk.inj (Option.some.inj hadvance)
        exact .read not_false
  | escalating copy hopId =>
      obtain ⟨rfl, rfl⟩ := Prod.mk.inj (Option.some.inj hadvance)
      refine ⟨.inl ?_, fun _ => .inl trivial, .inl trivial⟩
      split <;> exact ⟨rfl, rfl, rfl⟩
  | escalated copy =>
      obtain ⟨rfl, rfl⟩ := Prod.mk.inj (Option.some.inj hadvance)
      exact ⟨.inr (Nat.lt_succ_self _), fun h => h.elim, .inl trivial⟩
  | ended copy =>
      simp only [advance] at hadvance
      split at hadvance <;> obtain ⟨rfl, rfl⟩ := Prod.mk.inj (Option.some.inj hadvance) <;>
        exact .read not_false
  | answered copy runResult =>
      simp only [advance] at hadvance
      split at hadvance
      · cases hadvance
      · split at hadvance <;> obtain ⟨rfl, rfl⟩ := Prod.mk.inj (Option.some.inj hadvance)
        · exact ⟨.inl ⟨rfl, rfl, rfl⟩, fun h => h.elim, .inr (.inr ⟨rfl, fun _ => rfl⟩)⟩
        · exact .read not_false
  | completing copy hopId result outcome =>
      obtain ⟨rfl, rfl⟩ := Prod.mk.inj (Option.some.inj hadvance)
      refine ⟨.inr (Nat.lt_succ_self _), fun h => h.elim, .inr (.inr ⟨rfl, fun hsame => ?_⟩)⟩
      exact absurd hsame.saves (Nat.succ_ne_self _)
  | completed copy result outcome =>
      simp only [advance] at hadvance
      split at hadvance <;> obtain ⟨rfl, rfl⟩ := Prod.mk.inj (Option.some.inj hadvance)
      · exact .read not_false
      · rename_i hop hstatus hnext
        have hidle := hallowed hstatus (by simp [hnext])
        exact ⟨.inl ⟨rfl, rfl, rfl⟩, fun _ => .inr hidle, .inr (.inl hidle)⟩
      · exact ⟨.inl ⟨rfl, rfl, rfl⟩, fun h => h.elim, .inr (.inr ⟨rfl, fun _ => rfl⟩)⟩
  | runComplete hopId =>
      simp only [advance] at hadvance
      split at hadvance <;> obtain ⟨rfl, rfl⟩ := Prod.mk.inj (Option.some.inj hadvance) <;>
        exact .read not_false
  | counting copy hopId =>
      obtain ⟨rfl, rfl⟩ := Prod.mk.inj (Option.some.inj hadvance)
      exact ⟨.inr (Nat.lt_succ_self _), fun h => h.elim, .inr (.inr ⟨rfl, fun _ => rfl⟩)⟩
  | counted hopId =>
      simp only [advance] at hadvance
      split at hadvance
      · obtain ⟨rfl, rfl⟩ := Prod.mk.inj (Option.some.inj hadvance)
        exact .read not_false
      · split at hadvance <;> obtain ⟨rfl, rfl⟩ := Prod.mk.inj (Option.some.inj hadvance) <;>
          exact .read not_false
  | enforcing copy hopId =>
      obtain ⟨rfl, rfl⟩ := Prod.mk.inj (Option.some.inj hadvance)
      refine ⟨.inr (Nat.lt_succ_self _), fun h => h.elim, .inr (.inr ⟨rfl, fun hsame => ?_⟩)⟩
      exact absurd hsame.saves (Nat.succ_ne_self _)
  | moving newStatus holdsLock =>
      simp only [advance] at hadvance
      split at hadvance <;> obtain ⟨rfl, rfl⟩ := Prod.mk.inj (Option.some.inj hadvance)
      · exact .read not_false
      · exact ⟨.inl ⟨rfl, rfl, rfl⟩, fun h => h.elim, .inr (.inr ⟨rfl, fun _ => rfl⟩)⟩
  | rewrite status lease metadata =>
      obtain ⟨rfl, rfl⟩ := Prod.mk.inj (Option.some.inj hadvance)
      exact .read not_false
  | rewriting copy holdsLock =>
      obtain ⟨rfl, rfl⟩ := Prod.mk.inj (Option.some.inj hadvance)
      exact ⟨.inr (Nat.lt_succ_self _), fun h => h.elim, .inr (.inr ⟨rfl, fun _ => rfl⟩)⟩
  | report runResult =>
      obtain ⟨rfl, rfl⟩ := Prod.mk.inj (Option.some.inj hadvance)
      exact ⟨.inl ⟨rfl, rfl, rfl⟩, fun h => h.elim, .inr (.inr ⟨rfl, fun _ => rfl⟩)⟩
  | finished => cases hadvance

theorem Effect.others {process' other : Process} (heffect : Effect state process next process')
    (hother : Waiting state other) (hapart : ¬(process.Busy ∧ other.Busy)) :
    Waiting next other ∧ ¬(process'.Busy ∧ other.Busy) := by
  have hstill : other.Busy → next.underWay = state.underWay ∧
      (SameDisk state next → next.unrecorded = state.unrecorded) := by
    intro hbusy
    rcases heffect.quiet with hself | hidle | hquiet
    · exact absurd ⟨hself, hbusy⟩ hapart
    · have := hbusy.underWay hother
      omega
    · exact hquiet
  constructor
  · rcases heffect.disk with hsame | hlt
    · exact hsame.waiting hother fun hbusy => ⟨(hstill hbusy).1, (hstill hbusy).2 hsame⟩
    · exact hother.of_save hlt fun hbusy => (hstill hbusy).1
  · rintro ⟨hbusy', hbusy⟩
    rcases heffect.busy hbusy' with hself | hidle
    · exact hapart ⟨hself, hbusy⟩
    · have := hbusy.underWay hother
      omega

end Frames

section Own

variable {state next : TaskState} {copy : Copy} {process process' : Process} {answer : Answer}

theorem Sound.release (hsound : Sound state) (holdsLock : Bool) : Sound (state.release holdsLock) :=
  ⟨⟨hsound.session.one, hsound.session.once, hsound.session.kept⟩, hsound.inFlight⟩

theorem Sound.save (hsound : Sound state)
    (hsame : ∀ id, InFlight copy.task id ↔ InFlight state.disk id) : Sound (state.save copy) where
  session :=
    { one := by
        have hone := oneHopInFlight_iff.1 hsound.session.one
        refine oneHopInFlight_iff.2 fun id id' hid hid' => ?_
        exact hone id id' ((hsame id).1 hid) ((hsame id').1 hid')
      once := hsound.session.once
      kept := hsound.session.kept }
  inFlight hidle id hid := (hsame id).2 (hsound.inFlight hidle id hid)

variable {hopId : String} {claim : Prop}

theorem Sound.saveCompletion (hsound : Sound state) (hone : OneHopInFlight copy.task)
    (hkept : ∀ id, InFlight state.disk id → id ≠ hopId → InFlight copy.task id) :
    Sound (state.saveCompletion copy hopId) where
  session := ⟨hone, hsound.session.once.filter _, hsound.session.kept⟩
  inFlight hidle id hid := by
    obtain ⟨hid, hne⟩ := List.mem_filter.1 hid
    exact hkept id (hsound.inFlight hidle id hid) (by simpa using hne)

theorem Sound.saveDispatch (hsound : Sound state)
    (hcompletions : copy.completions = state.completions) (hone : OneHopInFlight copy.task)
    (hinFlight : ∀ id ∈ state.unrecorded, InFlight copy.task id) :
    Sound (state.saveDispatch copy) where
  session :=
    { one := hone
      once := hsound.session.once
      kept := by simp [TaskState.saveDispatch, hsound.session.kept, hcompletions] }
  inFlight _ := hinFlight

theorem Reads.fresh (hreads : Reads state copy claim) (hfresh : copy.saves = state.saves) :
    claim := hreads.2 hfresh

theorem reads_saved (copy : Copy) (state : TaskState) (h : claim) :
    Reads state (copy.saved state) claim := ⟨le_refl _, fun _ => h⟩

variable (hsound : Sound state)
include hsound

theorem no_session_of_idle (hidle : state.underWay = 0) (hnone : ∀ id, ¬InFlight state.disk id) :
    state.unrecorded = [] :=
  List.eq_nil_iff_forall_not_mem.2 fun id hid => hnone id (hsound.inFlight hidle id hid)

theorem beginDispatch_sound : Sound state.beginDispatch :=
  ⟨⟨hsound.session.one, hsound.session.once, hsound.session.kept⟩,
    fun h => absurd h (Nat.succ_ne_zero _)⟩

theorem spawn_sound (hunderWay : state.underWay = 1) (hnone : state.unrecorded = []) :
    Sound (state.spawn hopId) where
  session :=
    { one := hsound.session.one
      once := by simp [TaskState.spawn, hnone]
      kept := hsound.session.kept }
  inFlight h := by
    change state.underWay = 0 at h
    omega

theorem advance_dispatching {hop : Hop} {holdsLock : Bool}
    (hwaiting : Waiting state (.dispatching copy hop holdsLock)) (hfresh : copy.saves = state.saves)
    (hadvance : advance answer state (.dispatching copy hop holdsLock) = some (next, process')) :
    Sound next ∧ Waiting next process' := by
  obtain ⟨hunderWay, hreads⟩ := hwaiting
  obtain ⟨hcompletions, hworkflow, hnone, hunrecorded⟩ := hreads.fresh hfresh
  simp only [advance] at hadvance
  split at hadvance <;> obtain ⟨rfl, rfl⟩ := Prod.mk.inj (Option.some.inj hadvance)
  · rename_i sessionId hspawn
    refine ⟨spawn_sound hsound hunderWay hunrecorded, hunderWay, hreads.1, fun _ => ?_⟩
    have hdispatched : ∀ id, InFlight (copy.dispatch hop sessionId answer.timestamp).task id ↔
        id = hop.id := fun id => by simp [inFlight_dispatch hworkflow, hnone id]
    refine ⟨hcompletions, oneHopInFlight_iff.2 fun id id' hid hid' => ?_, fun id hid => ?_⟩
    · exact ((hdispatched id).1 hid).trans ((hdispatched id').1 hid').symm
    · rw [TaskState.spawn, hunrecorded] at hid
      exact (hdispatched id).2 (by simpa using hid)
  · have hend : Sound state.endDispatch := by
      refine ⟨⟨hsound.session.one, hsound.session.once, hsound.session.kept⟩, fun _ id hid => ?_⟩
      simp [TaskState.endDispatch, hunrecorded] at hid
    exact ⟨hend.release holdsLock, trivial⟩

theorem advance_escalating (hwaiting : Waiting state (.escalating copy hopId))
    (hfresh : copy.saves = state.saves)
    (hadvance : advance answer state (.escalating copy hopId) = some (next, process')) :
    Sound next ∧ Waiting next process' := by
  obtain ⟨hunderWay, hescalation, hreads⟩ := hwaiting
  obtain ⟨⟨hdisk, hcompletions⟩, hunrecorded⟩ := hreads.fresh hfresh
  obtain ⟨⟨workflow, hopState, role⟩, hsome⟩ := Option.isSome_iff_exists.1 hescalation
  have hcopy : OneHopInFlight copy.task := hdisk ▸ hsound.session.one
  have honly : ∀ id, InFlight (copy.escalate hopId answer.spawn answer.timestamp).task id →
      id = hopId := by
    intro id hid
    by_contra hne
    rw [inFlight_escalate hescalation, if_neg hne] at hid
    exact hne (oneHopInFlight_iff.1 hcopy id hopId hid (escalation_spec hsome).2)
  have hone : OneHopInFlight (copy.escalate hopId answer.spawn answer.timestamp).task :=
    oneHopInFlight_iff.2 fun id id' hid hid' => (honly id hid).trans (honly id' hid').symm
  have hsaves : (copy.escalate hopId answer.spawn answer.timestamp).saves = copy.saves ∧
      (copy.escalate hopId answer.spawn answer.timestamp).completions = copy.completions := by
    simp [Copy.escalate, hsome]
  obtain ⟨rfl, rfl⟩ := Prod.mk.inj (Option.some.inj hadvance)
  cases hspawn : answer.spawn with
  | success sessionId =>
      rw [hspawn] at hone hsaves
      refine ⟨spawn_sound hsound hunderWay hunrecorded, hunderWay, hsaves.1 ▸ hreads.1,
        fun _ => ⟨hsaves.2.trans hcompletions, hone, fun id hid => ?_⟩⟩
      rw [TaskState.spawn, hunrecorded, List.nil_append, List.mem_singleton] at hid
      rw [inFlight_escalate hescalation, if_pos hid]
      exact ⟨sessionId, rfl⟩
  | failure error =>
      rw [hspawn] at hone hsaves
      refine ⟨hsound, hunderWay, hsaves.1 ▸ hreads.1,
        fun _ => ⟨hsaves.2.trans hcompletions, hone, fun id hid => ?_⟩⟩
      simp [hunrecorded] at hid

theorem advance_timedOut (hwaiting : Waiting state (.timedOut copy))
    (hallowed : Allowed answer state (.timedOut copy))
    (hadvance : advance answer state (.timedOut copy) = some (next, process')) :
    Sound next ∧ Waiting next process' := by
  simp only [advance] at hadvance
  split at hadvance
  · rename_i hopId htimedOut
    split at hadvance <;> obtain ⟨rfl, rfl⟩ := Prod.mk.inj (Option.some.inj hadvance)
    · rename_i hescalation
      have hidle : state.underWay = 0 := hallowed hopId htimedOut hescalation
      obtain ⟨⟨workflow, hopState, role⟩, hsome⟩ := Option.isSome_iff_exists.1 hescalation
      refine ⟨⟨⟨hsound.session.one, hsound.session.once.filter _, hsound.session.kept⟩,
        fun h => absurd h (Nat.succ_ne_zero _)⟩,
        by simp [TaskState.forceComplete, TaskState.beginDispatch, hidle], hescalation,
        hwaiting.imp fun hfresh => ⟨hfresh, ?_⟩⟩
      refine List.filter_eq_nil_iff.2 fun id hid => ?_
      have honly := oneHopInFlight_iff.1 hsound.session.one id hopId
        (hsound.inFlight hidle id hid) (hfresh.1 ▸ (escalation_spec hsome).2)
      simp [honly]
    · exact ⟨hsound, hwaiting⟩
  · obtain ⟨rfl, rfl⟩ := Prod.mk.inj (Option.some.inj hadvance)
    exact ⟨hsound, trivial⟩

theorem advance_answered {runResult : RunResult}
    (hwaiting : Waiting state (.answered copy runResult))
    (hadvance : advance answer state (.answered copy runResult) = some (next, process')) :
    Sound next ∧ Waiting next process' := by
  simp only [advance] at hadvance
  split at hadvance
  · cases hadvance
  · split at hadvance <;> obtain ⟨rfl, rfl⟩ := Prod.mk.inj (Option.some.inj hadvance)
    · rename_i hopId workflowState result heval
      obtain ⟨hinFlight, hafter⟩ := evaluation_spec heval
      refine ⟨⟨⟨hsound.session.one, hsound.session.once, hsound.session.kept⟩,
        hsound.inFlight⟩, hwaiting.1, fun hfresh => ?_⟩
      have hdisk : copy.task = state.disk := (hwaiting.2 hfresh).1
      have hone := oneHopInFlight_iff.1 hsound.session.one
      rw [hdisk] at hinFlight
      refine ⟨fun id hid => ?_, fun id hid => hone id hopId hid hinFlight⟩
      obtain ⟨hbefore, hne⟩ := hafter id hid
      exact hne (hone id hopId (hdisk ▸ hbefore) hinFlight)
    · exact ⟨hsound, trivial⟩

theorem advance_sound (hwaiting : Waiting state process) (hallowed : Allowed answer state process)
    (hadvance : advance answer state process = some (next, process')) :
    Sound next ∧ Waiting next process' := by
  have hcurrent : Current state state.read := ⟨rfl, rfl⟩
  cases process with
  | poll =>
      obtain ⟨rfl, rfl⟩ := Prod.mk.inj (Option.some.inj hadvance)
      refine ⟨hsound, ?_⟩
      split <;> trivial
  | checkTimeouts | sessionEnd =>
      obtain ⟨rfl, rfl⟩ := Prod.mk.inj (Option.some.inj hadvance)
      refine ⟨hsound, ?_⟩
      split
      · exact reads_read state hcurrent
      · trivial
  | scanned task =>
      simp only [advance] at hadvance
      split at hadvance <;> obtain ⟨rfl, rfl⟩ := Prod.mk.inj (Option.some.inj hadvance)
      · rename_i hop hpoll
        have hidle : state.underWay = 0 := hallowed (by simp [hpoll])
        obtain ⟨hworkflow, hnone⟩ := pollHop_spec hpoll
        have hunrecorded : state.unrecorded = [] := no_session_of_idle hsound hidle hnone
        exact ⟨beginDispatch_sound hsound, by simp [TaskState.beginDispatch, hidle], le_refl _,
          fun _ => ⟨rfl, hworkflow, hnone, hunrecorded⟩⟩
      · exact ⟨hsound, trivial⟩
  | dispatching copy hop holdsLock =>
      exact advance_dispatching hsound hwaiting hallowed hadvance
  | dispatched copy holdsLock =>
      obtain ⟨rfl, rfl⟩ := Prod.mk.inj (Option.some.inj hadvance)
      obtain ⟨hcompletions, hone, hinFlight⟩ := hwaiting.2.fresh hallowed
      exact ⟨(hsound.saveDispatch hcompletions hone hinFlight).release holdsLock, trivial⟩
  | timedOut copy => exact advance_timedOut hsound hwaiting hallowed hadvance
  | escalating copy hopId => exact advance_escalating hsound hwaiting hallowed hadvance
  | escalated copy =>
      obtain ⟨rfl, rfl⟩ := Prod.mk.inj (Option.some.inj hadvance)
      obtain ⟨hcompletions, hone, hinFlight⟩ := hwaiting.2.fresh hallowed
      exact ⟨hsound.saveDispatch hcompletions hone hinFlight, reads_saved _ _ ⟨rfl, rfl⟩⟩
  | ended copy =>
      simp only [advance] at hadvance
      split at hadvance <;> obtain ⟨rfl, rfl⟩ := Prod.mk.inj (Option.some.inj hadvance)
      · exact ⟨hsound, hwaiting⟩
      · exact ⟨hsound, trivial⟩
  | answered copy runResult => exact advance_answered hsound hwaiting hadvance
  | completing copy hopId result outcome =>
      obtain ⟨rfl, rfl⟩ := Prod.mk.inj (Option.some.inj hadvance)
      obtain ⟨hnone, honly⟩ := Reads.fresh hwaiting hallowed
      refine ⟨hsound.saveCompletion ?_ fun id hid hne => absurd (honly id hid) hne,
        reads_saved _ _ ⟨⟨rfl, rfl⟩, hnone⟩⟩
      exact oneHopInFlight_iff.2 fun id _ hid _ => absurd hid (hnone id)
  | completed copy result outcome =>
      simp only [advance] at hadvance
      split at hadvance <;> obtain ⟨rfl, rfl⟩ := Prod.mk.inj (Option.some.inj hadvance)
      · exact ⟨hsound, trivial⟩
      · rename_i hop hstatus hnext
        have hidle : state.underWay = 0 := hallowed hstatus (by simp [hnext])
        refine ⟨beginDispatch_sound hsound, by simp [TaskState.beginDispatch, hidle], hwaiting.1,
          fun hfresh => ?_⟩
        obtain ⟨⟨hdisk, hcompletions⟩, hnone⟩ := hwaiting.2 hfresh
        have hunrecorded : state.unrecorded = [] :=
          no_session_of_idle hsound hidle (hdisk ▸ hnone)
        exact ⟨hcompletions, nextHop_isSome hnext, hnone, hunrecorded⟩
      · exact ⟨hsound.release true, trivial⟩
  | runComplete hopId =>
      simp only [advance] at hadvance
      split at hadvance <;> obtain ⟨rfl, rfl⟩ := Prod.mk.inj (Option.some.inj hadvance)
      · exact ⟨hsound, le_refl _, fun _ => rfl⟩
      · exact ⟨hsound, trivial⟩
  | counting copy hopId =>
      obtain ⟨rfl, rfl⟩ := Prod.mk.inj (Option.some.inj hadvance)
      exact ⟨hsound.save fun id => inFlight_congr (Reads.fresh hwaiting hallowed), trivial⟩
  | counted hopId =>
      simp only [advance] at hadvance
      split at hadvance
      · obtain ⟨rfl, rfl⟩ := Prod.mk.inj (Option.some.inj hadvance)
        exact ⟨hsound, trivial⟩
      · split at hadvance <;> obtain ⟨rfl, rfl⟩ := Prod.mk.inj (Option.some.inj hadvance)
        · rename_i workflow hworkflow
          exact ⟨hsound, le_refl _, fun _ id => inFlight_enforceFailure hworkflow⟩
        · exact ⟨hsound, trivial⟩
  | enforcing copy hopId =>
      obtain ⟨rfl, rfl⟩ := Prod.mk.inj (Option.some.inj hadvance)
      have hsame := Reads.fresh hwaiting hallowed
      refine ⟨hsound.saveCompletion ?_ fun id hid hne => (hsame id).2 ⟨hid, hne⟩, trivial⟩
      have hone := oneHopInFlight_iff.1 hsound.session.one
      exact oneHopInFlight_iff.2 fun id id' hid hid' =>
        hone id id' ((hsame id).1 hid).1 ((hsame id').1 hid').1
  | moving newStatus holdsLock =>
      simp only [advance] at hadvance
      split at hadvance <;> obtain ⟨rfl, rfl⟩ := Prod.mk.inj (Option.some.inj hadvance)
      · exact ⟨hsound, le_refl _, fun _ => rfl⟩
      · exact ⟨hsound.release holdsLock, trivial⟩
  | rewrite status lease metadata =>
      obtain ⟨rfl, rfl⟩ := Prod.mk.inj (Option.some.inj hadvance)
      exact ⟨hsound, le_refl _, fun _ => rfl⟩
  | rewriting copy holdsLock =>
      obtain ⟨rfl, rfl⟩ := Prod.mk.inj (Option.some.inj hadvance)
      exact ⟨(hsound.save fun id => inFlight_congr (Reads.fresh hwaiting hallowed)).release _,
        trivial⟩
  | report runResult =>
      obtain ⟨rfl, rfl⟩ := Prod.mk.inj (Option.some.inj hadvance)
      exact ⟨⟨⟨hsound.session.one, hsound.session.once, hsound.session.kept⟩, hsound.inFlight⟩,
        trivial⟩
  | finished => cases hadvance

end Own

theorem preserves_invariant : Preserves advance Uncontended invariant where
  symm hapart := fun ⟨hq, hp⟩ => hapart ⟨hp, hq⟩
  own hholds hallowed hprocess hadvance :=
    advance_sound hholds.global (hholds.waiting _ _ hprocess) (hallowed _ hprocess) hadvance
  others hholds hallowed hprocess hadvance hne hother :=
    (advance_effect (hallowed _ hprocess) hadvance).others (hholds.waiting _ _ hother)
      (hholds.apart _ _ _ _ hne hprocess hother)

theorem holds_of_begins {pool : Pool TaskState Process} (hbegins : Begins pool) :
    invariant.Holds pool := by
  obtain ⟨hquiet, hnew⟩ := hbegins
  have hidle : ∀ {index : Nat} {process : Process}, pool.processes[index]? = some process →
      Waiting pool.shared process ∧ ¬process.Busy := by
    intro index process hprocess
    have hprocess := hnew process (List.mem_of_getElem? hprocess)
    cases process <;> first | exact hprocess.elim | exact ⟨trivial, not_false⟩
  exact ⟨⟨⟨hquiet.one, hquiet.once, hquiet.kept⟩, fun _ => hquiet.inFlight⟩,
    fun _ _ hprocess => (hidle hprocess).1, fun _ _ _ _ _ hp _ hbusy => (hidle hp).2 hbusy.1⟩

/-- In an uncontended run, at most one hop is in flight, no hop is spawned again before its outcome
is recorded, and no dispatch saves over a hop completion. -/
theorem one_session {pool next : Pool TaskState Process} {turns : List (Turn Answer)}
    (hbegins : Begins pool) (hrun : Runs advance Uncontended pool turns next) :
    OneSession next.shared :=
  (preserves_invariant.run hrun (holds_of_begins hbegins)).global.session

def started : Task :=
  { id := "task", status := .inProgress,
    workflow := some ⟨linear, initializeWorkflowState linear⟩ }

theorem started_quiet : Quiet { disk := started } where
  one := oneHopInFlight_iff.2 fun id _ hid _ => by
    have hworkflow : started.workflow = some ⟨linear, initializeWorkflowState linear⟩ := rfl
    have hnone : hasDispatched (initializeWorkflowState linear) = false := by decide
    rw [hasDispatched_iff.2 ⟨id, (inFlight_iff hworkflow).1 hid⟩] at hnone
    cases hnone
  once := List.nodup_nil
  inFlight _ hid := by cases hid
  unlocked := rfl
  idle := rfl
  kept := rfl

def twoPolls : Pool TaskState Process := ⟨{ disk := started }, [.poll, .poll]⟩

theorem twoPolls_begins : Begins twoPolls :=
  ⟨started_quiet, by simp [twoPolls, Process.New]⟩

/-- One of the polls dispatches the hop alone. -/
theorem one_poll_dispatches : ∃ turns next,
    Runs advance Uncontended twoPolls turns next ∧ OneSession next.shared ∧
      next.shared.unrecorded = ["implement"] := by
  have hrun : ∃ next, Runs advance Uncontended twoPolls
      [⟨0, {}⟩, ⟨0, {}⟩, ⟨0, { spawn := .success "s1", timestamp := "t1" }⟩, ⟨0, {}⟩] next ∧
      next.shared.unrecorded = ["implement"] := by
    refine ⟨_, .head ?_ rfl (.head ?_ rfl (.head ?_ rfl (.head ?_ rfl (.refl _)))), by decide⟩ <;>
      (rintro process hprocess; obtain rfl := Option.some.inj hprocess)
    · trivial
    · exact fun _ => rfl
    · exact rfl
    · exact rfl
  obtain ⟨next, hrun, hunrecorded⟩ := hrun
  exact ⟨_, next, hrun, one_session twoPolls_begins hrun, hunrecorded⟩

/-- Both polls read the task before one of them saves it. -/
theorem hop_spawned_twice : ¬∀ (pool next : Pool TaskState Process) (turns : List (Turn Answer)),
    Begins pool → Runs advance (fun _ _ => True) pool turns next → OneSession next.shared := by
  intro hall
  have hrun : ∃ next, Runs advance (fun _ _ => True) twoPolls
      [⟨0, {}⟩, ⟨1, {}⟩, ⟨0, {}⟩, ⟨1, {}⟩, ⟨0, { spawn := .success "s1", timestamp := "t1" }⟩,
        ⟨1, { spawn := .success "s2", timestamp := "t2" }⟩] next ∧
      next.shared.unrecorded = ["implement", "implement"] :=
    ⟨_, .head trivial rfl (.head trivial rfl (.head trivial rfl (.head trivial rfl
      (.head trivial rfl (.head trivial rfl (.refl _)))))), by decide⟩
  obtain ⟨next, hrun, hunrecorded⟩ := hrun
  have honce := (hall twoPolls next _ twoPolls_begins hrun).once
  rw [hunrecorded] at honce
  simp at honce

end HopSessions

end Aof
