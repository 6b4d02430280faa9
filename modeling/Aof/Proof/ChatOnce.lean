import Aof.Lib.AtMostOnce
import Aof.Openclaw.ChatDelivery
import Aof.Proof.SubscriptionUpdates

/-!
# A chat notification is sent at most once

A call holds the status of a subscription from the moment at which it invokes the message tool until
the status is in the ledger.  If no call invokes the tool for a status that is in the ledger or held
by another call, and no write loses a mark, then no message is sent twice.
-/

namespace Aof.ChatDelivery

open Interleaving StepSystem

def markedIn (file : SubscriptionsFile) (subscriptionId toStatus : String) : Bool :=
  (file.find subscriptionId).any fun sub => sub.notifiedStatuses.contains toStatus

variable {file next : SubscriptionsFile} {now : Nat} {turn : Turn Answer}

theorem markedIn_iff {subscriptionId toStatus : String} :
    markedIn file subscriptionId toStatus = true ↔
      ∃ sub, file.find subscriptionId = some sub ∧ toStatus ∈ sub.notifiedStatuses := by
  simp only [markedIn, Option.any_eq_true, List.contains_iff_mem]

section Files

variable {file next : SubscriptionsFile} {subscriptionId : String}
  {change : StoredSubscription → StoredSubscription}

theorem ids_modify (hid : ∀ sub, (change sub).id = sub.id) :
    (file.modify subscriptionId change).map (fun sub => sub.id) = file.map fun sub => sub.id := by
  induction file with
  | nil => rfl
  | cons sub rest ih =>
      rw [SubscriptionsFile.modify]
      split
      · rw [List.map_cons, List.map_cons, hid]
      · rw [List.map_cons, List.map_cons, ih]

theorem find_modify (hid : ∀ sub, (change sub).id = sub.id) (other : String) :
    (file.modify subscriptionId change).find other =
      if other = subscriptionId then (file.find other).map change else file.find other := by
  induction file with
  | nil => simp [SubscriptionsFile.modify, SubscriptionsFile.find]
  | cons sub rest ih =>
      simp only [SubscriptionsFile.find] at ih ⊢
      rw [SubscriptionsFile.modify]
      by_cases hsub : sub.id = subscriptionId
      · by_cases hother : other = subscriptionId
        · simp [hsub, hother, hid]
        · simp [hsub, hother, hid, Ne.symm hother]
      · by_cases hsame : sub.id = other
        · have hother : ¬other = subscriptionId := fun h => hsub (hsame.trans h)
          simp [hsame, hother]
        · simp only [hsub, ↓reduceIte, List.find?_cons, hsame, decide_false]
          exact ih

theorem isSome_find_iff :
    (file.find subscriptionId).isSome = true ↔ subscriptionId ∈ file.map fun sub => sub.id := by
  simp [SubscriptionsFile.find, List.find?_isSome]

theorem markedIn_edit {call : SubscriptionCall} (hledger : call.setsLedger = false)
    (hedit : call.edit file = some next) {other toStatus : String}
    (hmarked : markedIn file other toStatus = true) : markedIn next other toStatus = true := by
  obtain ⟨sub, hfind, hstatus⟩ := markedIn_iff.mp hmarked
  apply markedIn_iff.mpr
  cases edit_cases hedit with
  | inl happend =>
      obtain ⟨created, rfl⟩ := happend
      refine ⟨sub, ?_, hstatus⟩
      rw [SubscriptionsFile.find] at hfind ⊢
      rw [List.find?_append, hfind, Option.some_or]
  | inr hchange =>
      obtain ⟨changedId, change, hchange, hattempts, hkeeps⟩ := hchange
      rw [SubscriptionsFile.change, Option.ite_none_right_eq_some] at hchange
      obtain rfl := Option.some.inj hchange.2
      rw [find_modify fun sub => (hattempts sub).1, hfind]
      by_cases hother : other = changedId
      · rw [if_pos hother]
        exact ⟨change sub, rfl, (hkeeps hledger sub).2.subset hstatus⟩
      · rw [if_neg hother]
        exact ⟨sub, rfl, hstatus⟩

end Files

theorem setsLedger_call (delivery : Delivery) (stage : Stage) (now : Nat) :
    (delivery.call stage now).setsLedger = false := by
  cases stage <;> rfl

variable {delivery : Delivery}

theorem ids_edit {stage : Stage} (hedit : (delivery.call stage now).edit file = some next) :
    next.map (fun sub => sub.id) = file.map fun sub => sub.id := by
  have hchange : ∃ change : StoredSubscription → StoredSubscription,
      file.change delivery.sub.id change = some next ∧ ∀ sub, (change sub).id = sub.id := by
    cases stage with
    | attempt => exact ⟨_, hedit, fun _ => rfl⟩
    | mark =>
        simp only [Delivery.call, SubscriptionCall.edit, SubscriptionsFile.markStatusNotified,
          Option.ite_none_left_eq_some] at hedit
        exact ⟨_, hedit.2, fun _ => rfl⟩
    | deliver => exact ⟨_, hedit, fun _ => rfl⟩
    | failed error => exact ⟨_, hedit, fun _ => rfl⟩
  obtain ⟨change, hchange, hid⟩ := hchange
  rw [SubscriptionsFile.change, Option.ite_none_right_eq_some] at hchange
  obtain rfl := Option.some.inj hchange.2
  exact ids_modify hid

theorem markedIn_mark (hedit : (delivery.call .mark now).edit file = some next) :
    markedIn next delivery.sub.id delivery.toStatus = true := by
  simp only [Delivery.call, SubscriptionCall.edit, SubscriptionsFile.markStatusNotified,
    Option.ite_none_left_eq_some, SubscriptionsFile.change,
    Option.ite_none_right_eq_some] at hedit
  obtain ⟨-, hfound, hnext⟩ := hedit
  obtain rfl := Option.some.inj hnext
  obtain ⟨sub, hfind⟩ := Option.isSome_iff_exists.mp hfound
  have hid : ∀ sub : StoredSubscription, (sub.notified delivery.toStatus now).id = sub.id :=
    fun _ => rfl
  apply markedIn_iff.mpr
  rw [find_modify hid, if_pos rfl, hfind]
  exact ⟨_, rfl, List.mem_append_right _ List.mem_cons_self⟩

theorem markedIn_of_unchanged (hfound : (file.find delivery.sub.id).isSome = true)
    (hedit : (delivery.call .mark now).edit file = none) :
    markedIn file delivery.sub.id delivery.toStatus = true := by
  by_contra hunmarked
  simp only [Delivery.call, SubscriptionCall.edit, SubscriptionsFile.markStatusNotified,
    SubscriptionsFile.change, if_pos hfound] at hedit
  rw [markedIn] at hunmarked
  rw [if_neg hunmarked] at hedit
  cases hedit

inductive Moves (shared : Shared) : Process → Shared → Process → Prop
  | resolve (taskId toStatus : String) (agenda : Agenda) :
      Moves shared (.resolving taskId toStatus) shared (.visiting agenda)
  | giveUp (taskId toStatus : String) :
      Moves shared (.resolving taskId toStatus) shared .finished
  | list (taskId toStatus : String) (agenda agenda' : Agenda) :
      Moves shared (.visiting agenda) shared
        (.delivering taskId toStatus (candidates (shared.files taskId) toStatus) agenda')
  | visit (agenda agenda' : Agenda) :
      Moves shared (.visiting agenda) shared (.visiting agenda')
  | finish (agenda : Agenda) : Moves shared (.visiting agenda) shared .finished
  | leave (taskId toStatus : String) (agenda : Agenda) :
      Moves shared (.delivering taskId toStatus [] agenda) shared (.visiting agenda)
  | skip (taskId toStatus : String) (sub : StoredSubscription) (rest : List StoredSubscription)
      (agenda : Agenda) :
      Moves shared (.delivering taskId toStatus (sub :: rest) agenda) shared
        (.delivering taskId toStatus rest agenda)
  | send (delivery : Delivery) (hroute : (route delivery.sub).isSome = true) :
      Moves shared
        (.delivering delivery.taskId delivery.toStatus (delivery.sub :: delivery.rest)
          delivery.agenda)
        shared (.sending delivery)
  | succeed (delivery : Delivery) :
      Moves shared (.sending delivery)
        { shared with sent := shared.sent ++ [delivery.notification] } (.reading delivery .attempt)
  | fail (delivery : Delivery) (error : AttemptError) :
      Moves shared (.sending delivery) shared (.reading delivery (.failed error))
  | read (delivery : Delivery) (stage : Stage) (now : Nat) (next : SubscriptionsFile)
      (hedit : (delivery.call stage now).edit (shared.files delivery.taskId) = some next) :
      Moves shared (.reading delivery stage) shared
        (.writing delivery stage (shared.files delivery.taskId) next)
  | pass (delivery : Delivery) (stage : Stage) (now : Nat)
      (hedit : (delivery.call stage now).edit (shared.files delivery.taskId) = none) :
      Moves shared (.reading delivery stage) shared (delivery.unchanged stage)
  | write (delivery : Delivery) (stage : Stage) (read next : SubscriptionsFile) :
      Moves shared (.writing delivery stage read next)
        { shared with files := Function.update shared.files delivery.taskId next }
        (delivery.after stage)

theorem moves_advance {answer : Answer} {shared shared' : Shared} {process process' : Process}
    (hadvance : advance answer shared process = some (shared', process')) :
    Moves shared process shared' process' := by
  cases process with
  | resolving taskId toStatus =>
      simp only [advance, Option.some.injEq, Prod.mk.injEq] at hadvance
      obtain ⟨rfl, rfl⟩ := hadvance
      split
      · exact .resolve taskId toStatus _
      · exact .giveUp taskId toStatus
  | visiting agenda =>
      obtain ⟨tasks, statuses⟩ := agenda
      cases tasks with
      | cons task tasks =>
          simp only [advance, Option.some.injEq, Prod.mk.injEq] at hadvance
          obtain ⟨rfl, rfl⟩ := hadvance
          exact .list task.1 task.2 _ _
      | nil =>
          cases statuses with
          | cons status statuses =>
              simp only [advance, Option.some.injEq, Prod.mk.injEq] at hadvance
              obtain ⟨rfl, rfl⟩ := hadvance
              exact .visit _ _
          | nil =>
              simp only [advance, Option.some.injEq, Prod.mk.injEq] at hadvance
              obtain ⟨rfl, rfl⟩ := hadvance
              exact .finish _
  | delivering taskId toStatus subs agenda =>
      cases subs with
      | nil =>
          simp only [advance, Option.some.injEq, Prod.mk.injEq] at hadvance
          obtain ⟨rfl, rfl⟩ := hadvance
          exact .leave taskId toStatus agenda
      | cons sub rest =>
          simp only [advance] at hadvance
          split at hadvance
          · simp only [Option.some.injEq, Prod.mk.injEq] at hadvance
            obtain ⟨rfl, rfl⟩ := hadvance
            exact .skip taskId toStatus sub rest agenda
          · rename_i hroute
            simp only [Option.some.injEq, Prod.mk.injEq] at hadvance
            obtain ⟨rfl, rfl⟩ := hadvance
            exact .send ⟨taskId, toStatus, sub, answer.now, rest, agenda⟩
              (Option.isSome_iff_exists.mpr ⟨_, hroute⟩)
  | sending delivery =>
      simp only [advance] at hadvance
      split at hadvance
      · simp only [Option.some.injEq, Prod.mk.injEq] at hadvance
        obtain ⟨rfl, rfl⟩ := hadvance
        exact .succeed delivery
      · simp only [Option.some.injEq, Prod.mk.injEq] at hadvance
        obtain ⟨rfl, rfl⟩ := hadvance
        exact .fail delivery _
  | reading delivery stage =>
      simp only [advance] at hadvance
      split at hadvance
      · rename_i hedit
        simp only [Option.some.injEq, Prod.mk.injEq] at hadvance
        obtain ⟨rfl, rfl⟩ := hadvance
        exact .read delivery stage answer.now _ hedit
      · rename_i hedit
        simp only [Option.some.injEq, Prod.mk.injEq] at hadvance
        obtain ⟨rfl, rfl⟩ := hadvance
        exact .pass delivery stage answer.now hedit
  | writing delivery stage read next =>
      simp only [advance, Option.some.injEq, Prod.mk.injEq] at hadvance
      obtain ⟨rfl, rfl⟩ := hadvance
      exact .write delivery stage read next
  | finished => cases hadvance

/-- A call holds a notification while its message is sent, and until its mark is written. -/
def Process.phase : Process → AtMostOnce.Phase Notification
  | .sending delivery => .sending delivery.notification
  | .reading delivery .attempt | .reading delivery .mark | .writing delivery .attempt _ _
  | .writing delivery .mark _ _ => .recording delivery.notification
  | _ => .idle

def recorded (files : String → SubscriptionsFile) (notification : Notification) : Prop :=
  markedIn (files notification.taskId) notification.subscriptionId notification.toStatus = true

def view (pool : Pool Shared Process) : AtMostOnce.State Nat Notification where
  phase index := (pool.processes[index]?).elim .idle Process.phase
  sent := pool.shared.sent
  recorded := recorded pool.shared.files

/-- The message tool is not invoked for a status that is in the ledger or held by a call, and no
mark was written since the file that is replaced was read. -/
structure Undisturbed (pool : Pool Shared Process) (turn : Turn Answer) : Prop where
  send : ∀ taskId toStatus sub rest agenda,
    pool.processes[turn.index]? = some (.delivering taskId toStatus (sub :: rest) agenda) →
    (route sub).isSome = true →
    markedIn (pool.shared.files taskId) sub.id toStatus = false ∧
      ∀ process ∈ pool.processes, process.phase.held ≠ some ⟨taskId, sub.id, toStatus⟩
  write : ∀ delivery stage read next,
    pool.processes[turn.index]? = some (.writing delivery stage read next) →
    ∀ subscriptionId toStatus,
      markedIn (pool.shared.files delivery.taskId) subscriptionId toStatus = true →
      markedIn read subscriptionId toStatus = true

def Delivery.Known (ids : String → List String) (delivery : Delivery) : Prop :=
  ∀ sub ∈ delivery.sub :: delivery.rest, sub.id ∈ ids delivery.taskId

/-- The subscriptions that a call goes through are in the file, and what it writes is what its
update makes of a file that it has read. -/
def Process.Known (ids : String → List String) : Process → Prop
  | .delivering taskId _ subs _ => ∀ sub ∈ subs, sub.id ∈ ids taskId
  | .sending delivery | .reading delivery _ => delivery.Known ids
  | .writing delivery stage read next =>
      delivery.Known ids ∧ (read.map fun sub => sub.id) = ids delivery.taskId ∧
        ∃ now, (delivery.call stage now).edit read = some next
  | _ => True

def known (ids : String → List String) : Assertion Shared Process where
  global shared := ∀ taskId, (shared.files taskId).map (fun sub => sub.id) = ids taskId
  waiting _ process := process.Known ids
  apart _ _ := True

section Known

variable {ids : String → List String} {shared shared' : Shared} {process process' : Process}

theorem Delivery.Known.done {delivery : Delivery} (hknown : delivery.Known ids) :
    delivery.done.Known ids := fun sub hmem => hknown sub (List.mem_cons_of_mem _ hmem)

theorem Delivery.Known.after {delivery : Delivery} (hknown : delivery.Known ids) (stage : Stage) :
    (delivery.after stage).Known ids := by
  cases stage with
  | attempt => exact hknown
  | mark =>
      rw [Delivery.after]
      split
      · exact hknown
      · exact hknown.done
  | deliver => exact hknown.done
  | failed error => exact hknown.done

theorem Delivery.Known.unchanged {delivery : Delivery} (hknown : delivery.Known ids)
    (stage : Stage) : (delivery.unchanged stage).Known ids := by
  cases stage with
  | deliver => exact hknown
  | attempt => exact hknown.after .attempt
  | mark => exact hknown.after .mark
  | failed error => exact hknown.after (.failed error)

theorem known_moves (hids : ∀ taskId, (shared.files taskId).map (fun sub => sub.id) = ids taskId)
    (hknown : process.Known ids) (hmoves : Moves shared process shared' process') :
    (∀ taskId, (shared'.files taskId).map (fun sub => sub.id) = ids taskId) ∧
      process'.Known ids := by
  cases hmoves with
  | resolve | giveUp | visit | finish | leave => exact ⟨hids, trivial⟩
  | list taskId toStatus agenda agenda' =>
      refine ⟨hids, ?_⟩
      intro sub hmem
      rw [← hids taskId]
      exact List.mem_map_of_mem (List.mem_filter.mp hmem).1
  | skip => exact ⟨hids, fun sub hmem => hknown sub (List.mem_cons_of_mem _ hmem)⟩
  | send => exact ⟨hids, hknown⟩
  | succeed => exact ⟨hids, hknown⟩
  | fail => exact ⟨hids, hknown⟩
  | read delivery stage now next hedit =>
      exact ⟨hids, hknown, hids delivery.taskId, now, hedit⟩
  | pass delivery stage now hedit => exact ⟨hids, hknown.unchanged stage⟩
  | write delivery stage read next =>
      obtain ⟨hdelivery, hread, now, hedit⟩ := hknown
      refine ⟨?_, hdelivery.after stage⟩
      intro taskId
      by_cases htask : taskId = delivery.taskId
      · subst htask
        simp only [Function.update_self]
        exact (ids_edit hedit).trans hread
      · simp only [Function.update_of_ne htask]
        exact hids taskId

theorem preserves_known :
    Preserves advance Undisturbed (known ids) where
  symm := fun _ => trivial
  own := fun hholds _ hprocess hadvance =>
    known_moves hholds.global (hholds.waiting _ _ hprocess) (moves_advance hadvance)
  others := fun hholds _ _ _ _ hother => ⟨hholds.waiting _ _ hother, trivial⟩

end Known

section View

variable {pool : Pool Shared Process} {index : Nat} {shared : Shared} {process process' : Process}

section

variable (hprocess : pool.processes[index]? = some process)
include hprocess

theorem view_phase : (view pool).phase index = process.phase := by
  simp only [view, hprocess, Option.elim_some]

theorem view_set :
    view ⟨shared, pool.processes.set index process'⟩ =
      { (view pool).enter index process'.phase with
        sent := shared.sent
        recorded := recorded shared.files } := by
  have hlt : index < pool.processes.length := (List.getElem?_eq_some_iff.mp hprocess).1
  have hphase : (view ⟨shared, pool.processes.set index process'⟩).phase =
      Function.update (view pool).phase index process'.phase := by
    funext other
    by_cases hother : other = index
    · subst hother
      rw [Function.update_self]
      simp only [view, List.getElem?_set_self hlt, Option.elim_some]
    · rw [Function.update_of_ne hother]
      simp only [view, List.getElem?_set_ne (Ne.symm hother)]
  calc view ⟨shared, pool.processes.set index process'⟩
      = ⟨(view ⟨shared, pool.processes.set index process'⟩).phase, shared.sent,
          recorded shared.files⟩ := rfl
    _ = _ := by rw [hphase]; rfl

theorem keep_view (hphase : process'.phase = process.phase) (hsent : shared.sent = pool.shared.sent)
    (hkept : ∀ notification, recorded pool.shared.files notification → recorded shared.files
      notification) :
    AtMostOnce.Step (view pool) (view ⟨shared, pool.processes.set index process'⟩) := by
  have hsame : (view pool).enter index process'.phase = view pool := by
    rw [hphase, ← view_phase hprocess, AtMostOnce.State.enter, Function.update_eq_self]
  rw [view_set hprocess, hsame, hsent]
  exact .keep (recorded shared.files) hkept

end

theorem phase_after_mark (delivery : Delivery) : (delivery.after .mark).phase = .idle := by
  rw [Delivery.after]
  split <;> rfl

variable {delivery : Delivery} {stage : Stage} {now : Nat} {read next : SubscriptionsFile}

theorem recorded_write {files : String → SubscriptionsFile}
    (hread : ∀ subscriptionId toStatus, markedIn (files delivery.taskId) subscriptionId toStatus
      = true → markedIn read subscriptionId toStatus = true)
    (hedit : (delivery.call stage now).edit read = some next) (notification : Notification)
    (hrecorded : recorded files notification) :
    recorded (Function.update files delivery.taskId next) notification := by
  rw [recorded] at hrecorded ⊢
  by_cases htask : notification.taskId = delivery.taskId
  · rw [htask] at hrecorded ⊢
    rw [Function.update_self]
    apply markedIn_edit (setsLedger_call delivery stage now) hedit
    exact hread _ _ hrecorded
  · rw [Function.update_of_ne htask]
    exact hrecorded

theorem pass_view (hprocess : pool.processes[index]? = some (.reading delivery stage))
    (hfound : ((pool.shared.files delivery.taskId).find delivery.sub.id).isSome = true)
    (hedit : (delivery.call stage now).edit (pool.shared.files delivery.taskId) = none) :
    AtMostOnce.Step (view pool)
      (view ⟨pool.shared, pool.processes.set index (delivery.unchanged stage)⟩) := by
  cases stage with
  | attempt => exact keep_view hprocess rfl rfl fun _ h => h
  | mark =>
      rw [view_set hprocess, show delivery.unchanged .mark = delivery.after .mark from rfl,
        phase_after_mark]
      apply AtMostOnce.Step.record index delivery.notification
      · exact view_phase hprocess
      · exact fun _ h => h
      · exact markedIn_of_unchanged hfound hedit
  | deliver => exact keep_view hprocess rfl rfl fun _ h => h
  | failed error => exact keep_view hprocess rfl rfl fun _ h => h

theorem write_view (hprocess : pool.processes[index]? = some (.writing delivery stage read next))
    (hread : ∀ subscriptionId toStatus, markedIn (pool.shared.files delivery.taskId)
      subscriptionId toStatus = true → markedIn read subscriptionId toStatus = true)
    (hedit : (delivery.call stage now).edit read = some next) :
    AtMostOnce.Step (view pool)
      (view ⟨{ pool.shared with
          files := Function.update pool.shared.files delivery.taskId next },
        pool.processes.set index (delivery.after stage)⟩) := by
  have hkept := recorded_write hread hedit
  cases stage with
  | attempt => exact keep_view hprocess rfl rfl hkept
  | mark =>
      rw [view_set hprocess, phase_after_mark]
      apply AtMostOnce.Step.record index delivery.notification
      · exact view_phase hprocess
      · exact hkept
      · rw [recorded]
        simp only [Delivery.notification, Function.update_self]
        exact markedIn_mark hedit
  | deliver => exact keep_view hprocess rfl rfl hkept
  | failed error => exact keep_view hprocess rfl rfl hkept

theorem send_view
    (hprocess : pool.processes[index]? = some (.delivering delivery.taskId delivery.toStatus
      (delivery.sub :: delivery.rest) delivery.agenda))
    (hunmarked : markedIn (pool.shared.files delivery.taskId) delivery.sub.id delivery.toStatus =
      false) (hfree : ∀ process ∈ pool.processes, process.phase.held ≠ some delivery.notification) :
    AtMostOnce.Step (view pool)
      (view ⟨pool.shared, pool.processes.set index (.sending delivery)⟩) := by
  rw [view_set hprocess]
  apply AtMostOnce.Step.send index delivery.notification
  · intro hmarked
    exact absurd hmarked (Bool.eq_false_iff.mp hunmarked)
  · intro other
    simp only [view]
    cases hother : pool.processes[other]? with
    | none => exact nofun
    | some process => exact hfree process (List.mem_of_getElem? hother)
  · exact view_phase hprocess

end View

variable {ids : String → List String}

variable {pool : Pool Shared Process}

theorem step_view {next : Pool Shared Process} (hholds : (known ids).Holds pool)
    (hok : Undisturbed pool turn) (hstep : Interleaving.step advance pool turn = some next) :
    AtMostOnce.Step (view pool) (view next) := by
  obtain ⟨process, shared, process', hprocess, hadvance, rfl⟩ := step_eq_some.mp hstep
  have hknown : process.Known ids := hholds.waiting _ _ hprocess
  cases moves_advance hadvance with
  | resolve | giveUp | list | visit | finish | leave | skip =>
      exact keep_view hprocess rfl rfl fun _ h => h
  | send delivery hroute =>
      obtain ⟨hunmarked, hfree⟩ := hok.send _ _ _ _ _ hprocess hroute
      exact send_view hprocess hunmarked hfree
  | succeed delivery =>
      rw [view_set hprocess]
      apply AtMostOnce.Step.succeed turn.index delivery.notification
      exact view_phase hprocess
  | fail delivery error =>
      rw [view_set hprocess]
      apply AtMostOnce.Step.fail turn.index delivery.notification
      exact view_phase hprocess
  | read delivery stage now next hedit =>
      apply keep_view hprocess _ rfl fun _ h => h
      cases stage <;> rfl
  | pass delivery stage now hedit =>
      have hfound : ((pool.shared.files delivery.taskId).find delivery.sub.id).isSome = true := by
        rw [isSome_find_iff, hholds.global delivery.taskId]
        exact hknown delivery.sub List.mem_cons_self
      exact pass_view hprocess hfound hedit
  | write delivery stage read next =>
      obtain ⟨-, -, now, hedit⟩ := hknown
      exact write_view hprocess (hok.write _ _ _ _ hprocess) hedit

inductive Call where
  | handleEvent (event : BaseEvent)
  | replayUnnotifiedTerminals
  deriving DecidableEq, Repr

def Call.start : Call → Process
  | .handleEvent event => ChatDelivery.handleEvent event
  | .replayUnnotifiedTerminals => ChatDelivery.replayUnnotifiedTerminals

def begins (files : String → SubscriptionsFile) (calls : List Call) : Pool Shared Process :=
  ⟨{ files }, calls.map Call.start⟩

theorem start_cases (call : Call) : (∃ taskId toStatus, call.start = .resolving taskId toStatus) ∨
      (∃ agenda, call.start = .visiting agenda) ∨ call.start = .finished := by
  cases call with
  | handleEvent event =>
      simp only [Call.start, handleEvent]
      split
      · split
        · exact .inl ⟨_, _, rfl⟩
        · exact .inr (.inr rfl)
      · exact .inr (.inr rfl)
  | replayUnnotifiedTerminals => exact .inr (.inl ⟨_, rfl⟩)

theorem begins_known (files : String → SubscriptionsFile) (calls : List Call) :
    (known fun taskId => (files taskId).map fun sub => sub.id).Holds (begins files calls) := by
  refine ⟨fun _ => rfl, ?_, fun _ _ _ _ _ _ _ => trivial⟩
  intro index process hprocess
  obtain ⟨call, -, rfl⟩ := List.mem_map.mp (List.mem_of_getElem? hprocess)
  obtain ⟨taskId, toStatus, hstart⟩ | ⟨agenda, hstart⟩ | hstart := start_cases call
  all_goals
    rw [hstart]
    trivial

theorem begins_once (files : String → SubscriptionsFile) (calls : List Call) :
    AtMostOnce.Once (view (begins files calls)) := by
  apply AtMostOnce.once_begins _ rfl
  intro index
  cases hprocess : (begins files calls).processes[index]? with
  | none => simp only [view, hprocess, Option.elim_none]
  | some process =>
      rw [view_phase hprocess]
      obtain ⟨call, -, rfl⟩ := List.mem_map.mp (List.mem_of_getElem? hprocess)
      obtain ⟨taskId, toStatus, hstart⟩ | ⟨agenda, hstart⟩ | hstart := start_cases call
      all_goals
        rw [hstart]
        rfl

theorem run_view {next : Pool Shared Process} {turns : List (Turn Answer)}
    (hholds : (known ids).Holds pool) (hrun : Runs advance Undisturbed pool turns next) :
    Relation.ReflTransGen AtMostOnce.Step (view pool) (view next) ∧ (known ids).Holds next :=
  hrun.invariant
    (fun current => Relation.ReflTransGen AtMostOnce.Step (view pool) (view current) ∧
      (known ids).Holds current)
    (fun _ _ _ hinv hok hstep =>
      ⟨hinv.1.tail (step_view hinv.2 hok hstep), preserves_known.step hinv.2 hok hstep⟩)
    ⟨.refl, hholds⟩

def chatSubscription : StoredSubscription :=
  { id := "S", subscriberId := "main", granularity := .completion,
    deliveryKind := some OPENCLAW_CHAT_DELIVERY_KIND, chat := { target := some "room" },
    createdAt := 0, updatedAt := 0 }

def emittedTwice : List Call :=
  List.replicate 2 (.handleEvent
    { type := "task.transitioned", taskId := some "A", toStatus := some "done" })

def inTurn : List (Turn Answer) :=
  List.replicate 12 ⟨0, {}⟩ ++ List.replicate 4 ⟨1, {}⟩

def atOnce : List (Turn Answer) :=
  [⟨0, {}⟩, ⟨0, {}⟩, ⟨1, {}⟩, ⟨1, {}⟩, ⟨0, {}⟩, ⟨0, {}⟩, ⟨1, {}⟩, ⟨1, {}⟩]

def undisturbed (pool : Pool Shared Process) (turn : Turn Answer) : Bool :=
  match pool.processes[turn.index]? with
  | some (.delivering taskId toStatus (sub :: _) _) =>
      !markedIn (pool.shared.files taskId) sub.id toStatus &&
        pool.processes.all fun process =>
          process.phase.held ≠ some ⟨taskId, sub.id, toStatus⟩
  | some (.writing delivery _ read _) => pool.shared.files delivery.taskId = read
  | _ => true

theorem undisturbed_of_test (htest : undisturbed pool turn = true) : Undisturbed pool turn := by
  constructor
  · intro taskId toStatus sub rest agenda hprocess _
    simp only [undisturbed, hprocess, Bool.and_eq_true, Bool.not_eq_true', List.all_eq_true,
      decide_eq_true_iff] at htest
    exact htest
  · intro delivery stage read next hprocess subscriptionId toStatus hmarked
    rw [undisturbed, hprocess] at htest
    rw [← of_decide_eq_true htest]
    exact hmarked

end Aof.ChatDelivery
