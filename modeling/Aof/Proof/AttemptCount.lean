import Aof.Proof.CallbackDepth
import Aof.Proof.ChatOnce

/-!
# The counter of the delivery attempts

The counter of an entry is the number of its recorded attempts as long as no update sets it to
another number.  The chat deliveries keep to that; a callback delivery that fails raises the counter
and records no attempt.
-/

namespace Aof.SubscriptionActivity

open Interleaving StepSystem

/-- The file that is about to be written has, in the fields that callbacks read, what the delivery
writes by its own account. -/
def Callback.Faithful (callback : Callback) : Prop :=
  ∀ delivery fields read, callback.process = .writing delivery fields read →
    callback.next.map StoredSubscription.toTaskSubscription =
      updateSubscription read delivery.sub.id fields

section Views

variable {shared next : Shared} {callback after : Callback}

theorem find_toTaskSubscription (file : SubscriptionsFile) (subscriptionId : String) :
    findSubscription (file.map StoredSubscription.toTaskSubscription) subscriptionId =
      (file.find subscriptionId).map StoredSubscription.toTaskSubscription := by
  rw [findSubscription, SubscriptionsFile.find, List.find?_map]
  rfl

variable {answer : CallbackDelivery.Answer} {view : CallbackDelivery.Shared}
  {process : CallbackDelivery.Process} {delivery : CallbackDelivery.Delivery}
  {fields : SubscriptionFields} {read : List TaskSubscription} {rescued : Bool}

theorem subscriptions_of_moves {after : CallbackDelivery.Shared × CallbackDelivery.Process}
    (hmoves : CallbackDelivery.Moves answer view process after) :
    (∃ delivery fields read, process = .writing delivery fields read ∧
      after = CallbackDelivery.settle (view.write delivery fields read) delivery) ∨
      (∀ delivery fields read, process ≠ .writing delivery fields read) ∧
        after.1.subscriptions = view.subscriptions := by
  cases hmoves with
  | write delivery fields read => exact .inl ⟨delivery, fields, read, rfl, rfl⟩
  | stop hprocess =>
      right
      refine ⟨fun delivery fields read heq => ?_, rfl⟩
      rw [heq] at hprocess
      cases hprocess
  | miss hmissing hafter =>
      right
      refine ⟨fun _ _ _ heq => (by cases heq), ?_⟩
      obtain rfl | ⟨message, rfl⟩ := hafter <;> rfl
  | _ => exact .inr ⟨fun _ _ _ heq => (by cases heq), rfl⟩

theorem settle_ne_writing (view : CallbackDelivery.Shared)
    (delivery other : CallbackDelivery.Delivery) (fields : SubscriptionFields)
    (read : List TaskSubscription) :
    (CallbackDelivery.settle view delivery).2 ≠ .writing other fields read := by
  intro hwriting
  rw [CallbackDelivery.settle] at hwriting
  split at hwriting <;> cases hwriting

theorem updating_of_moves {after : CallbackDelivery.Shared × CallbackDelivery.Process}
    (hmoves : CallbackDelivery.Moves answer view process after)
    (hwriting : after.2 = .writing delivery fields read) :
    (∃ rescued, process = .updating delivery fields rescued) ∧
      read = view.subscriptions delivery.call.taskId := by
  cases hmoves with
  | read =>
      obtain ⟨rfl, rfl, rfl⟩ := CallbackDelivery.Process.writing.inj hwriting
      exact ⟨⟨_, rfl⟩, rfl⟩
  | abandon hall => exact absurd hwriting (settle_ne_writing _ _ _ _ _)
  | write other fields' read' => exact absurd hwriting (settle_ne_writing _ _ _ _ _)
  | miss hmissing hafter =>
      obtain rfl | ⟨message, rfl⟩ := hafter
      · exact absurd hwriting (settle_ne_writing _ _ _ _ _)
      · cases hwriting
  | _ => cases hwriting

theorem found_of_writing {answer : CallbackDelivery.Answer} {view : CallbackDelivery.Shared}
    {delivery : CallbackDelivery.Delivery} {fields : SubscriptionFields} {rescued : Bool}
    {after : CallbackDelivery.Shared} {read : List TaskSubscription}
    (hadvance : CallbackDelivery.advance answer view (.updating delivery fields rescued) =
      some (after, .writing delivery fields read)) :
    (findSubscription (view.subscriptions delivery.call.taskId) delivery.sub.id).isSome = true := by
  cases hfound : findSubscription (view.subscriptions delivery.call.taskId) delivery.sub.id with
  | some sub => rfl
  | none =>
      simp only [CallbackDelivery.advance, hfound] at hadvance
      split at hadvance
      · cases hadvance
      · have hsecond := congrArg Prod.snd (Option.some.inj hadvance)
        exact absurd hsecond (settle_ne_writing _ _ _ _ _)

theorem Callback.edited_updating (hprocess : callback.process = .updating delivery fields rescued)
    (hfound : ((shared.files delivery.call.taskId).find delivery.sub.id).isSome = true)
    (now : Nat) :
    callback.edited shared now = (shared.files delivery.call.taskId).modify delivery.sub.id
      fun sub => sub.updated { toSubscriptionFields := fields } now := by
  have hupdate : callback.update = some (delivery, { toSubscriptionFields := fields }) := by
    rw [update, hprocess]
  simp only [edited, hupdate, SubscriptionsFile.update, SubscriptionsFile.change, if_pos hfound]
  rfl

theorem callbacks_advance (hfaithful : callback.Faithful)
    (hadvance : advanceCallback answer shared callback = some (next, after)) :
    CallbackDelivery.advance answer shared.callbacks callback.process =
      some (next.callbacks, after.process) ∧ after.Faithful := by
  obtain ⟨⟨view, process⟩, hview, hresult⟩ := Option.map_eq_some_iff.mp hadvance
  obtain ⟨rfl, rfl⟩ := Prod.mk.inj hresult
  have hsubscriptions : view.subscriptions = fun taskId =>
      (callback.files shared taskId).map StoredSubscription.toTaskSubscription := by
    obtain ⟨delivery, fields, read, hprocess, hafter⟩ | ⟨hnot, hsame⟩ :=
      subscriptions_of_moves (CallbackDelivery.moves_advance hview)
    · have hfiles : callback.files shared =
          Function.update shared.files delivery.call.taskId callback.next := by
        rw [Callback.files, Callback.writes, hprocess]
      rw [show view = _ from congrArg Prod.fst hafter, hfiles]
      funext taskId
      by_cases htask : taskId = delivery.call.taskId
      · subst htask
        rw [Function.update_self, hfaithful delivery fields read hprocess]
        exact Function.update_self _ _ _
      · rw [Function.update_of_ne htask]
        exact Function.update_of_ne htask _ _
    · have hfiles : callback.files shared = shared.files := by
        have hwrites : callback.writes = none := by
          unfold Callback.writes
          split
          · rename_i delivery fields read hprocess
            exact absurd hprocess (hnot delivery fields read)
          · rfl
        rw [Callback.files, hwrites]
      rw [hfiles]
      exact hsame
  refine ⟨?_, ?_⟩
  · rw [hview]
    congr 2
    cases view
    cases hsubscriptions
    rfl
  · intro delivery fields read hprocess
    obtain rfl := hprocess
    obtain ⟨⟨rescued, hupdating⟩, rfl⟩ :=
      updating_of_moves (CallbackDelivery.moves_advance hview) rfl
    rw [hupdating] at hview
    have hfound := found_of_writing hview
    rw [Shared.callbacks, find_toTaskSubscription, Option.isSome_map] at hfound
    rw [callback.edited_updating hupdating hfound]
    exact map_modify_updated _ _ _ _

end Views

def Counted (sub : StoredSubscription) : Prop := sub.deliveryAttempts = sub.attempts.length

def AllCounted (file : SubscriptionsFile) : Prop := ∀ sub ∈ file, Counted sub

def counterSet : SubscriptionCall → Option (String × Nat)
  | .update subscriptionId fields _ =>
      fields.deliveryAttempts.map fun count => (subscriptionId, count)
  | _ => none

/-- The call sets no counter, except to the number of attempts that the file has of its entry. -/
def SetsCounted (file : SubscriptionsFile) (call : SubscriptionCall) : Prop :=
  ∀ subscriptionId count, counterSet call = some (subscriptionId, count) →
    ∀ entry, file.find subscriptionId = some entry → count = entry.attempts.length

section Counter

variable {file next : SubscriptionsFile} {subscriptionId : String}
  {change : StoredSubscription → StoredSubscription}

theorem allCounted_modify (hcounted : AllCounted file) :
    AllCounted (file.modify subscriptionId change) ↔
      ∀ entry, file.find subscriptionId = some entry → Counted (change entry) := by
  induction file with
  | nil => simp [SubscriptionsFile.modify, SubscriptionsFile.find, AllCounted]
  | cons sub rest ih =>
      obtain ⟨hsub, hrest⟩ := List.forall_mem_cons.mp hcounted
      rw [SubscriptionsFile.modify, SubscriptionsFile.find]
      by_cases hid : sub.id = subscriptionId
      · have hfind : (sub :: rest).find? (fun sub => sub.id = subscriptionId) = some sub :=
          List.find?_cons_of_pos (decide_eq_true hid)
        rw [if_pos hid, hfind, AllCounted, List.forall_mem_cons]
        constructor
        · rintro ⟨hchanged, -⟩ entry hentry
          exact Option.some.inj hentry ▸ hchanged
        · exact fun hentry => ⟨hentry sub rfl, hrest⟩
      · rw [if_neg hid, List.find?_cons_of_neg (by simpa using hid), AllCounted,
          List.forall_mem_cons]
        exact (and_iff_right hsub).trans (ih hrest)

theorem allCounted_change (hcounted : AllCounted file)
    (hresult : file.change subscriptionId change = some next) :
    AllCounted next ↔ ∀ entry, file.find subscriptionId = some entry → Counted (change entry) := by
  rw [SubscriptionsFile.change, Option.ite_none_right_eq_some] at hresult
  obtain rfl := Option.some.inj hresult.2
  exact allCounted_modify hcounted

variable {call : SubscriptionCall}

theorem setsCounted_of_none (hnone : counterSet call = none) : SetsCounted file call := by
  intro subscriptionId count hset
  rw [hnone] at hset
  cases hset

theorem AllCounted.of_find (hcounted : AllCounted file) {entry : StoredSubscription}
    (hentry : file.find subscriptionId = some entry) : Counted entry :=
  hcounted entry (List.mem_of_find?_eq_some hentry)

theorem allCounted_edit (hcounted : AllCounted file) (hedit : call.edit file = some next) :
    AllCounted next ↔ SetsCounted file call := by
  cases call with
  | create id subscriberId granularity deliveryKind chat now =>
      obtain rfl := Option.some.inj hedit
      apply iff_of_true _ (setsCounted_of_none rfl)
      intro sub hmem
      cases List.mem_append.mp hmem with
      | inl hold => exact hcounted sub hold
      | inr hnew => exact List.mem_singleton.mp hnew ▸ rfl
  | update id fields now =>
      apply (allCounted_change hcounted hedit).trans
      cases hcount : fields.deliveryAttempts with
      | none =>
          have hnone : counterSet (.update id fields now) = none := by
            rw [counterSet, hcount]
            rfl
          apply iff_of_true _ (setsCounted_of_none hnone)
          intro entry hentry
          have hentryCounted := hcounted.of_find hentry
          rw [Counted] at hentryCounted ⊢
          simp [StoredSubscription.updated, TaskSubscription.with, hcount, hentryCounted]
      | some count =>
          have hset : counterSet (.update id fields now) = some (id, count) := by
            rw [counterSet, hcount]
            rfl
          have hchanged : ∀ entry : StoredSubscription,
              Counted (entry.updated fields now) ↔ count = entry.attempts.length := by
            intro entry
            simp [Counted, StoredSubscription.updated, TaskSubscription.with, hcount]
          constructor
          · intro hall other number hsame entry hentry
            obtain ⟨rfl, rfl⟩ := Prod.mk.inj (Option.some.inj (hset.symm.trans hsame))
            exact (hchanged entry).mp (hall entry hentry)
          · intro hsets entry hentry
            exact (hchanged entry).mpr (hsets id count hset entry hentry)
  | cancel id now =>
      apply (allCounted_change hcounted hedit).trans
      apply iff_of_true _ (setsCounted_of_none rfl)
      intro entry hentry
      exact (hcounted.of_find hentry : Counted entry)
  | markStatusNotified id status now =>
      rw [SubscriptionCall.edit, SubscriptionsFile.markStatusNotified,
        Option.ite_none_left_eq_some] at hedit
      apply (allCounted_change hcounted hedit.2).trans
      apply iff_of_true _ (setsCounted_of_none rfl)
      intro entry hentry
      exact (hcounted.of_find hentry : Counted entry)
  | appendAttempt id attempt now =>
      apply (allCounted_change hcounted hedit).trans
      apply iff_of_true _ (setsCounted_of_none rfl)
      exact fun entry _ => rfl

end Counter

def Process.sets : Process → Option (String × String × Nat)
  | .store (.reading taskId call) => (counterSet call).map fun set => (taskId, set)
  | .callback current =>
      current.update.bind fun update =>
        update.2.deliveryAttempts.map fun count => (update.1.call.taskId, update.1.sub.id, count)
  | _ => none

def Process.pending : Process → Option SubscriptionsFile
  | .store (.writing _ next) => some next
  | .callback current => current.writes.map fun _ => current.next
  | .chat (.writing _ _ _ next) => some next
  | _ => none

/-- No edit sets a counter to anything but the number of attempts that the file then has of the
entry. -/
def CountsAttempts (pool : Pool Shared Process) (turn : Turn Answer) : Prop :=
  ∀ process taskId subscriptionId count, pool.processes[turn.index]? = some process →
    process.sets = some (taskId, subscriptionId, count) →
      ∀ entry, (pool.shared.files taskId).find subscriptionId = some entry →
        count = entry.attempts.length

def counted : Assertion Shared Process where
  global shared := ∀ taskId, AllCounted (shared.files taskId)
  waiting _ process := ∀ file ∈ process.pending, AllCounted file
  apart _ _ := True

section Runs

variable {shared next : Shared} {process after : Process} {answer : Answer}

variable {files : String → SubscriptionsFile}

theorem allCounted_update (hfiles : ∀ taskId, AllCounted (files taskId))
    {file : SubscriptionsFile} (hfile : AllCounted file) (changed taskId : String) :
    AllCounted (Function.update files changed file taskId) := by
  by_cases htask : taskId = changed
  · subst htask
    rwa [Function.update_self]
  · rw [Function.update_of_ne htask]
    exact hfiles taskId

theorem counted_store {call callAfter : StoreCall}
    (hfiles : ∀ taskId, AllCounted (shared.files taskId))
    (hpending : ∀ file ∈ (Process.store call).pending, AllCounted file)
    (hsets : ∀ taskId subscriptionId count,
      (Process.store call).sets = some (taskId, subscriptionId, count) →
        ∀ entry, (shared.files taskId).find subscriptionId = some entry →
          count = entry.attempts.length)
    (hadvance : advanceStore shared call = some (next, callAfter)) :
    (∀ taskId, AllCounted (next.files taskId)) ∧
      ∀ file ∈ (Process.store callAfter).pending, AllCounted file := by
  cases call with
  | reading taskId call =>
      simp only [advanceStore] at hadvance
      cases hedit : call.edit (shared.files taskId) with
      | none =>
          rw [hedit] at hadvance
          cases hadvance
          exact ⟨hfiles, fun _ hfile => by cases hfile⟩
      | some edited =>
          rw [hedit] at hadvance
          cases hadvance
          refine ⟨hfiles, ?_⟩
          intro file hfile
          obtain rfl := Option.some.inj hfile
          apply (allCounted_edit (hfiles taskId) hedit).mpr
          intro subscriptionId count hset
          apply hsets taskId subscriptionId count
          rw [Process.sets, hset]
          rfl
  | writing taskId edited =>
      cases hadvance
      exact ⟨allCounted_update hfiles (hpending edited rfl) taskId, fun _ hfile => by cases hfile⟩
  | finished => cases hadvance

theorem counted_callback {callback callbackAfter : Callback} {answer : CallbackDelivery.Answer}
    (hfiles : ∀ taskId, AllCounted (shared.files taskId))
    (hpending : ∀ file ∈ (Process.callback callback).pending, AllCounted file)
    (hsets : ∀ taskId subscriptionId count,
      (Process.callback callback).sets = some (taskId, subscriptionId, count) →
        ∀ entry, (shared.files taskId).find subscriptionId = some entry →
          count = entry.attempts.length)
    (hadvance : advanceCallback answer shared callback = some (next, callbackAfter)) :
    (∀ taskId, AllCounted (next.files taskId)) ∧
      ∀ file ∈ (Process.callback callbackAfter).pending, AllCounted file := by
  obtain ⟨⟨view, process⟩, hview, hresult⟩ := Option.map_eq_some_iff.mp hadvance
  obtain ⟨rfl, rfl⟩ := Prod.mk.inj hresult
  refine ⟨?_, ?_⟩
  · intro taskId
    unfold Callback.files
    split
    · rename_i delivery hwrites
      apply allCounted_update hfiles _ delivery.call.taskId
      apply hpending
      rw [Process.pending, hwrites]
      rfl
    · exact hfiles taskId
  · intro file hfile
    obtain ⟨other, hwrites, rfl⟩ := Option.map_eq_some_iff.mp hfile
    unfold Callback.writes at hwrites
    split at hwrites
    · rename_i delivery fields read hprocess
      obtain rfl : process = _ := hprocess
      obtain ⟨⟨rescued, hupdating⟩, -⟩ :=
        updating_of_moves (CallbackDelivery.moves_advance hview) rfl
      rw [hupdating] at hview
      have hfound := found_of_writing hview
      rw [Shared.callbacks, find_toTaskSubscription, Option.isSome_map] at hfound
      have hedit : (SubscriptionCall.update delivery.sub.id { toSubscriptionFields := fields }
          answer.now).edit (shared.files delivery.call.taskId) =
            some (callback.edited shared answer.now) := by
        rw [callback.edited_updating hupdating hfound]
        exact if_pos hfound
      apply (allCounted_edit (hfiles delivery.call.taskId) hedit).mpr
      intro subscriptionId count hset
      apply hsets delivery.call.taskId subscriptionId count
      obtain ⟨number, hnumber, hpair⟩ := Option.map_eq_some_iff.mp hset
      obtain ⟨rfl, rfl⟩ := Prod.mk.inj hpair
      have hupdate : callback.update = some (delivery, { toSubscriptionFields := fields }) := by
        rw [Callback.update, hupdating]
      rw [Process.sets, hupdate, Option.bind_some, hnumber]
      rfl
    · cases hwrites

theorem pending_after (delivery : ChatDelivery.Delivery) (stage : ChatDelivery.Stage) :
    (Process.chat (delivery.after stage)).pending = none := by
  cases stage with
  | mark =>
      rw [ChatDelivery.Delivery.after]
      split <;> rfl
  | _ => rfl

theorem counterSet_call (delivery : ChatDelivery.Delivery) (stage : ChatDelivery.Stage)
    (now : Nat) : counterSet (delivery.call stage now) = none := by
  cases stage <;> rfl

theorem counted_chat {chat chatAfter : ChatDelivery.Process} {answer : ChatDelivery.Answer}
    (hfiles : ∀ taskId, AllCounted (shared.files taskId))
    (hpending : ∀ file ∈ (Process.chat chat).pending, AllCounted file)
    (hadvance : advanceChat answer shared chat = some (next, chatAfter)) :
    (∀ taskId, AllCounted (next.files taskId)) ∧
      ∀ file ∈ (Process.chat chatAfter).pending, AllCounted file := by
  obtain ⟨⟨view, process⟩, hview, hresult⟩ := Option.map_eq_some_iff.mp hadvance
  obtain ⟨rfl, rfl⟩ := Prod.mk.inj hresult
  have hnone : ∀ {file : SubscriptionsFile} {current : Process}, current.pending = none →
      file ∈ current.pending → AllCounted file := by
    intro file current hcurrent hfile
    rw [hcurrent] at hfile
    cases hfile
  cases ChatDelivery.moves_advance hview with
  | read delivery stage now edited hedit =>
      refine ⟨hfiles, ?_⟩
      intro file hfile
      obtain rfl := Option.some.inj hfile
      apply (allCounted_edit (hfiles delivery.taskId) hedit).mpr
      exact setsCounted_of_none (counterSet_call delivery stage now)
  | pass delivery stage now hedit =>
      refine ⟨hfiles, fun file => hnone ?_⟩
      cases stage with
      | mark => exact pending_after delivery .mark
      | _ => rfl
  | write delivery stage read edited =>
      exact ⟨allCounted_update hfiles (hpending edited rfl) delivery.taskId,
        fun file => hnone (pending_after delivery stage)⟩
  | _ => exact ⟨hfiles, fun file => hnone rfl⟩

theorem preserves_counted : Preserves advance CountsAttempts counted where
  symm := fun _ => trivial
  own := by
    intro pool turn process shared after hholds hok hprocess hadvance
    have hpending := hholds.waiting _ _ hprocess
    cases process with
    | store call =>
        obtain ⟨result, hresult, hpair⟩ := Option.map_eq_some_iff.mp hadvance
        obtain ⟨rfl, rfl⟩ := Prod.mk.inj hpair
        exact counted_store hholds.global hpending
          (fun taskId id count => hok _ taskId id count hprocess) hresult
    | callback callback =>
        obtain ⟨result, hresult, hpair⟩ := Option.map_eq_some_iff.mp hadvance
        obtain ⟨rfl, rfl⟩ := Prod.mk.inj hpair
        exact counted_callback hholds.global hpending
          (fun taskId id count => hok _ taskId id count hprocess) hresult
    | chat process =>
        obtain ⟨result, hresult, hpair⟩ := Option.map_eq_some_iff.mp hadvance
        obtain ⟨rfl, rfl⟩ := Prod.mk.inj hpair
        exact counted_chat hholds.global hpending hresult
  others := fun hholds _ _ _ _ hother => ⟨hholds.waiting _ _ hother, trivial⟩

theorem counted_begins {tasks : String → Option CallbackDelivery.CallbackTask}
    (hfiles : ∀ taskId, AllCounted (files taskId)) (calls : List Call) :
    counted.Holds (begins tasks files calls) := by
  refine ⟨hfiles, ?_, fun _ _ _ _ _ _ _ => trivial⟩
  intro index process hprocess file hfile
  obtain ⟨call, -, rfl⟩ := List.mem_map.mp (List.mem_of_getElem? hprocess)
  have hnone : call.start.pending = none := by
    cases call with
    | handleEvent event =>
        obtain ⟨taskId, toStatus, hstart⟩ | ⟨agenda, hstart⟩ | hstart :=
          ChatDelivery.start_cases (.handleEvent event)
        all_goals
          rw [Call.start, show ChatDelivery.handleEvent event = _ from hstart]
          rfl
    | _ => rfl
  rw [hnone] at hfile
  cases hfile

end Runs

/-- As long as no update sets a counter to anything but the number of recorded attempts, the counter
of every stored subscription is that number. -/
theorem attempts_counted {tasks : String → Option CallbackDelivery.CallbackTask}
    {files : String → SubscriptionsFile} {calls : List Call} {turns : List (Turn Answer)}
    {pool : Pool Shared Process} (hfiles : ∀ taskId, AllCounted (files taskId))
    (hrun : Runs advance CountsAttempts (begins tasks files calls) turns pool) :
    ∀ taskId, ∀ sub ∈ pool.shared.files taskId, sub.deliveryAttempts = sub.attempts.length :=
  (preserves_counted.run hrun (counted_begins hfiles calls)).global

def doneTask (_ : String) : Option CallbackDelivery.CallbackTask := some { status := .done }

def createdSubscriptions : List Call :=
  [.store "A" (.create "S" "swe" .completion none {} 0),
    .store "A" (.create "C" "main" .completion (some ChatDelivery.OPENCLAW_CHAT_DELIVERY_KIND)
      { target := some "room" } 0),
    .callback ⟨.deliverCallbacks, "A"⟩,
    .handleEvent { type := "task.transitioned", taskId := some "A", toStatus := some "done" }]

def inOrder (spawn : CallbackDelivery.SpawnAnswer) : List (Turn Answer) :=
  let turns (index count : Nat) : List (Turn Answer) :=
    List.replicate count ⟨index, { callback := { spawn } }⟩
  turns 0 2 ++ turns 1 2 ++ turns 2 6 ++ turns 3 12

/-- The session cannot be spawned. -/
theorem failed_callback_not_recorded : ∃ turns pool,
    FreeRun (Interleaving.step advance) (begins doneTask (fun _ => []) createdSubscriptions) turns
      pool ∧ ¬ ∀ taskId, ∀ sub ∈ pool.shared.files taskId,
        sub.deliveryAttempts = sub.attempts.length := by
  have hexec : (exec (Interleaving.step advance)
      (begins doneTask (fun _ => []) createdSubscriptions)
      (inOrder (.failure (some "offline")))).any (fun pool =>
        ¬ ∀ sub ∈ pool.shared.files "A", sub.deliveryAttempts = sub.attempts.length) = true := by
    decide +kernel
  obtain ⟨pool, hpool, hcounts⟩ := (Option.any_eq_true _ _).mp hexec
  exact ⟨_, pool, freeRun_iff_exec.mpr hpool, fun hall => of_decide_eq_true hcounts (hall "A")⟩

def countsAttempts (pool : Pool Shared Process) (turn : Turn Answer) : Bool :=
  ((pool.processes[turn.index]?).bind Process.sets).all fun set =>
    ((pool.shared.files set.1).find set.2.1).all fun entry => set.2.2 = entry.attempts.length

theorem countsAttempts_of_test {pool : Pool Shared Process} {turn : Turn Answer}
    (htest : countsAttempts pool turn = true) : CountsAttempts pool turn := by
  intro process taskId subscriptionId count hprocess hsets entry hentry
  rw [countsAttempts, hprocess, Option.bind_some, hsets, Option.all_some, hentry,
    Option.all_some] at htest
  exact of_decide_eq_true htest

/-- The session is spawned, and the message is sent. -/
theorem delivered_attempts_counted : ∃ turns pool,
    Runs advance CountsAttempts (begins doneTask (fun _ => []) createdSubscriptions) turns pool ∧
      (pool.shared.files "A").map (fun sub => (sub.status, sub.attempts.length)) =
        [(.delivered, 0), (.delivered, 1)] ∧ ∀ taskId, ∀ sub ∈ pool.shared.files taskId,
        sub.deliveryAttempts = sub.attempts.length := by
  have hexec : (exec (checked (Interleaving.step advance) countsAttempts)
      (begins doneTask (fun _ => []) createdSubscriptions) (inOrder .success)).any (fun pool =>
        (pool.shared.files "A").map (fun sub => (sub.status, sub.attempts.length)) =
          [(.delivered, 0), (.delivered, 1)]) = true := by
    decide +kernel
  obtain ⟨pool, hpool, hresult⟩ := (Option.any_eq_true _ _).mp hexec
  have hrun := Run.of_exec (fun _ _ h => countsAttempts_of_test h) hpool
  have hempty : ∀ taskId : String, AllCounted ((fun _ => []) taskId) :=
    fun _ _ hmem => absurd hmem List.not_mem_nil
  exact ⟨_, pool, hrun, of_decide_eq_true hresult, attempts_counted hempty hrun⟩

end Aof.SubscriptionActivity
