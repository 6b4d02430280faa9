import Aof.Proof.CallEffects
import Aof.Tools.ProjectTools

/-!
# What a dispatch leaves

The subscriber of a dispatch is looked up in the org chart when the task is there already, and a
subscription of nobody makes its file unreadable.  Every other check comes before the task.
-/

namespace Aof.ProjectTools

/-- A get removes the older copies of a task. -/
def KeepsCopies (before after : TaskFiles) : Prop :=
  ∀ dir, after.copies dir = before.copies dir ∨ after.copies dir = none

structure NothingCreated (before after : State) : Prop where
  files : ∀ id, KeepsCopies (before.files id) (after.files id)
  subscriptions : after.subscriptions = before.subscriptions
  events : after.events = before.events

/-- The timeout, the tags and the metadata of the input, each before the next. -/
def requestedEntry (input : AOFDispatchInput) (key : String) : Option JsValue :=
  (if key = "timeoutMs" then (input.timeoutMs.bind cappedTimeout).map .num else none).or
    ((if key = "tags" then input.tags.map fun tags => .arr (tags.map .str) else none).or
      (input.metadata.bind (·.get? key)))

structure Requested (input : AOFDispatchInput) (document : Document) : Prop where
  title : document.title.val = jsTrim input.title
  status : document.status = .ready
  target : namesTarget document.routing.agent document.routing.team document.routing.role = true
  routing : namesTarget input.agent input.team input.role = true →
    document.routing.agent = input.agent ∧ document.routing.team = input.team ∧
      document.routing.role = input.role
  dependsOn : document.dependsOn = input.dependsOn.getD []
  metadata : ∀ key, document.metadata.get? key = requestedEntry input key

/-- The subscriptions of the task can be read, and such a one is active. -/
def Subscribed (after : State) (taskId : String) (asked : Subscription → Prop) : Prop :=
  ∃ entries, parseSubscriptions (after.subscriptions .ready taskId) = some entries ∧
    ∃ sub ∈ entries, sub.status = .active ∧ asked sub

structure Dispatched (input : AOFDispatchInput) (before : State) (result : AOFDispatchResult)
    (after : State) : Prop where
  unused : ∀ dir, (before.files result.taskId).copies dir = none
  task : ∃ document, Requested input document ∧ Stored document (after.files result.taskId)
  others : ∀ id, id ≠ result.taskId → KeepsCopies (before.files id) (after.files id)
  subscribed : ∀ granularity, input.subscribe = some granularity →
    Subscribed after result.taskId fun sub =>
      sub.subscriberId = dispatchActor input ∧ sub.granularity = granularity
  notified : ∀ delivery, completionDelivery input = some (some delivery) →
    Subscribed after result.taskId fun sub =>
      sub.granularity = .completion ∧ sub.delivery = some delivery

def AllOrNothing (ctx : ToolContext) (input : AOFDispatchInput) (draws : Draws) (before : State) :
    Prop :=
  Command.Ends (aofDispatch ctx input draws) before (Dispatched input before)
    (NothingCreated before)

structure Accepted (ctx : ToolContext) (input : AOFDispatchInput) (before : State) : Prop where
  title : jsTrim input.title ≠ ""
  brief : jsTrim (dispatchBrief input) ≠ ""
  target : hasTarget (resolveRouting ctx input) = true
  dependencies : ∀ id ∈ input.dependsOn.getD [], (before.files id).current ≠ none
  delivery : completionDelivery input ≠ none
  ids : input.parentId.all Schemas.isTaskId = true ∧
    (input.dependsOn.getD []).all Schemas.isTaskId = true

/-- A configured org chart can be loaded, and the actor is in it. -/
def SubscriberKnown (ctx : ToolContext) (input : AOFDispatchInput) : Prop :=
  ∀ path, truthy ctx.orgChartPath = some path →
    ∃ agents, ctx.orgChart path = some agents ∧ dispatchActor input ∈ agents

/-- What the generator of the ids promises: no task has an id that is drawn. -/
structure NewIds (draws : Draws) (before : State) : Prop where
  copies : ∀ attempt dir, (before.files (draws.ids attempt)).copies dir = none
  directory : ∀ attempt, before.subscriptions .ready (draws.ids attempt) = none

def Subscribable (ctx : ToolContext) (input : AOFDispatchInput) : Prop :=
  input.subscribe ≠ none → dispatchActor input ≠ "" ∧ SubscriberKnown ctx input

section Reading

variable {files middle after : TaskFiles} {s t u : State}

theorem KeepsCopies.refl (files : TaskFiles) : KeepsCopies files files := fun _ => .inl rfl

theorem KeepsCopies.trans (hfirst : KeepsCopies files middle) (hrest : KeepsCopies middle after) :
    KeepsCopies files after := by
  intro dir
  rcases hrest dir with heq | hnone
  · rw [heq]
    exact hfirst dir
  · exact .inr hnone

structure OnlyRead (before after : State) : Prop extends NothingCreated before after where
  current : ∀ id, (after.files id).current = (before.files id).current

theorem OnlyRead.refl (s : State) : OnlyRead s s :=
  ⟨⟨fun _ => .refl _, rfl, rfl⟩, fun _ => rfl⟩

theorem OnlyRead.trans (hfirst : OnlyRead s t) (hrest : OnlyRead t u) : OnlyRead s u where
  files id := (hfirst.files id).trans (hrest.files id)
  subscriptions := hrest.subscriptions.trans hfirst.subscriptions
  events := hrest.events.trans hfirst.events
  current id := (hrest.current id).trans (hfirst.current id)

theorem get_of_alone {id : String} {task : Option TaskObject}
    (halone : Aof.get.alone TaskFiles.quietly (s.files id) = some (task, after)) :
    (get id).run s = (some task, { s with files := Function.update s.files id after }) := by
  unfold Command.run get
  rw [halone]

theorem run_readSubscriptionsFile (dir : TaskStatus) (taskId : String) (s : State) :
    (readSubscriptionsFile dir taskId).run s =
      (parseSubscriptions (s.subscriptions dir taskId), s) := rfl

theorem run_get (s : State) (id : String) :
    ∃ t, (get id).run s = (some (s.files id).current, t) ∧ OnlyRead s t := by
  obtain ⟨after, halone, hcurrent, hcopies⟩ := alone_get_current (s.files id)
  refine ⟨_, get_of_alone halone, ⟨fun other => ?_, rfl, rfl⟩, fun other => ?_⟩
  · by_cases hother : other = id
    · subst hother
      exact fun dir => by simpa using hcopies dir
    · exact fun dir => .inl (by simp [hother])
  · by_cases hother : other = id
    · subst hother
      simpa using hcurrent
    · simp [hother]

theorem run_missingDependencies (ids : List String) (s : State) :
    ∃ t, (missingDependencies ids).run s =
      (some (ids.filter fun id => (s.files id).current.isNone), t) ∧ OnlyRead s t := by
  induction ids generalizing s with
  | nil => exact ⟨s, rfl, .refl s⟩
  | cons id ids ih =>
      obtain ⟨t, hget, hread⟩ := run_get s id
      obtain ⟨u, hrest, hread'⟩ := ih t
      refine ⟨u, ?_, hread.trans hread'⟩
      rw [missingDependencies, Command.run_bind_of_some hget, Command.run_bind_of_some hrest,
        Command.run_pure, List.filter_cons]
      simp only [hread.current]

end Reading

section Creation

variable {opts : CreateOpts} {draws : Draws} {s : State} {attempt : Nat}

theorem run_create (parentId : Option String) (left : Nat)
    (hstatus : (opts.document draws.now).status = .ready)
    (hfree : (s.files (draws.ids attempt)).copies .ready = none) :
    (create opts parentId draws (left + 1) attempt).run s =
      if parentId.all Schemas.isTaskId ∧
          (opts.document draws.now).dependsOn.all Schemas.isTaskId then
        (some ((draws.ids attempt).val, opts.document draws.now), { s with
          files := Function.update s.files (draws.ids attempt)
            ((s.files (draws.ids attempt)).write .ready (opts.document draws.now) 1) })
      else (none, s) := by
  show create opts parentId draws (left + 1) attempt s = _
  simp [create, hstatus, hfree]

/-- The task is there, and nothing else but what the entries of its subscriptions say. -/
structure Created (before : State) (id : String) (document : Document)
    (entries : Option (List Subscription)) (after : State) : Prop where
  file : Stored document (after.files id)
  others : ∀ other, other ≠ id → KeepsCopies (before.files other) (after.files other)
  subscriptions : after.subscriptions .ready id = entries

variable {before after : State} {id : String} {document : Document}
  {entries : Option (List Subscription)} {read : List Subscription}

variable (hcreated : Created before id document entries after)
include hcreated

theorem Created.not_nothing (hunused : ∀ dir, (before.files id).copies dir = none) :
    ¬NothingCreated before after := by
  intro hnothing
  obtain ⟨mtimeMs, -, -, hcopies⟩ := hcreated.file.only
  have hcopy := hcopies document.status
  rw [if_pos rfl] at hcopy
  rcases hnothing.files id document.status with heq | hnone
  · rw [heq, hunused] at hcopy
    cases hcopy
  · rw [hnone] at hcopy
    cases hcopy

theorem Created.taskDir : ∃ t, (taskDir id).run after = (some document.status, t) ∧
      Created before id document entries t := by
  obtain ⟨files, halone, hstored, -⟩ := yields_get (after.files id) hcreated.file rfl
  have hrun : (ProjectTools.taskDir id).run after = (some document.status,
      { after with files := Function.update after.files id files }) :=
    Command.run_bind_of_some (get_of_alone halone)
  refine ⟨_, hrun, ?_, fun other hother => ?_, hcreated.subscriptions⟩
  · simpa using hstored
  · simpa [hother] using hcreated.others other hother

variable (hstatus : document.status = .ready)
include hstatus

theorem Created.addSubscription (hread : parseSubscriptions entries = some read)
    (sub : Subscription) :
    ∃ t, (addSubscription id sub).run after = (some sub.id, t) ∧
      Created before id document (some (read ++ [sub])) t := by
  obtain ⟨t, hdir, hcreated⟩ := hcreated.taskDir
  rw [hstatus] at hdir
  have hfile : (readSubscriptionsFile .ready id).run t = (some read, t) := by
    rw [run_readSubscriptionsFile, hcreated.subscriptions, hread]
  have hrun : (ProjectTools.addSubscription id sub).run after = (some sub.id, { t with
      subscriptions := Function.update t.subscriptions .ready
        (Function.update (t.subscriptions .ready) id (some (read ++ [sub]))) }) := by
    rw [ProjectTools.addSubscription, Command.run_bind_of_some hdir,
      Command.run_bind_of_some hfile]
    rfl
  exact ⟨_, hrun, hcreated.file, hcreated.others, by simp⟩

theorem Created.addSubscription_throws (hread : parseSubscriptions entries = none)
    (sub : Subscription) :
    ∃ t, (ProjectTools.addSubscription id sub).run after = (none, t) ∧
      Created before id document entries t := by
  obtain ⟨t, hdir, hcreated⟩ := hcreated.taskDir
  rw [hstatus] at hdir
  have hfile : (readSubscriptionsFile .ready id).run t = (none, t) := by
    rw [run_readSubscriptionsFile, hcreated.subscriptions, hread]
  exact ⟨t, by rw [ProjectTools.addSubscription, Command.run_bind_of_some hdir,
    Command.run_bind_of_none hfile], hcreated⟩

theorem Created.validated (hread : parseSubscriptions entries = some read) :
    ∃ t, (listActive id).run after = (some (read.filter fun sub => sub.status = .active), t) ∧
      Created before id document entries t := by
  obtain ⟨t, hdir, hcreated⟩ := hcreated.taskDir
  rw [hstatus] at hdir
  refine ⟨t, ?_, hcreated⟩
  have hfile : (readSubscriptionsFile .ready id).run t = (some read, t) := by
    rw [run_readSubscriptionsFile, hcreated.subscriptions, hread]
  rw [listActive, Command.run_bind_of_some hdir, Command.run_bind_of_some hfile]
  rfl

end Creation

section Subscribing

variable {ctx : ToolContext} {input : AOFDispatchInput} {draws : Draws} {before after : State}
  {id : String} {document : Document} {entries : Option (List Subscription)}

def askedSubscription (input : AOFDispatchInput) (draws : Draws)
    (granularity : SubscriptionGranularity) : Subscription where
  id := draws.subscriptionId
  subscriberId := dispatchActor input
  granularity
  createdAt := draws.now

theorem run_validateSubscriberAgent (ctx : ToolContext) (input : AOFDispatchInput) (s : State) :
    ((validateSubscriberAgent ctx (dispatchActor input)).run s = (some (), s) ∧
        SubscriberKnown ctx input) ∨
      ((validateSubscriberAgent ctx (dispatchActor input)).run s = (none, s) ∧
        ¬SubscriberKnown ctx input) := by
  unfold validateSubscriberAgent SubscriberKnown
  cases hpath : truthy ctx.orgChartPath with
  | none => exact .inl ⟨rfl, fun _ h => by cases h⟩
  | some path =>
      cases hchart : ctx.orgChart path with
      | none => exact .inr ⟨by simp [hchart], fun h => by simpa [hchart] using h path rfl⟩
      | some agents =>
          by_cases hmem : dispatchActor input ∈ agents
          · refine .inl ⟨by simp [hchart, hmem], fun other hother => ?_⟩
            obtain rfl := Option.some.inj hother
            exact ⟨agents, hchart, hmem⟩
          · exact .inr ⟨by simp [hchart, hmem], fun h => by
              simpa [hchart, hmem] using h path rfl⟩

theorem ends_subscribeAtDispatch (hcreated : Created before id document none after)
    (hstatus : document.status = .ready) :
    Command.Ends (subscribeAtDispatch ctx input draws id) after
      (fun _ t => (input.subscribe = none ∨ SubscriberKnown ctx input) ∧ Created before id document
          (input.subscribe.map fun granularity => [askedSubscription input draws granularity]) t)
      (fun t => ¬Subscribable ctx input ∧ Created before id document none t) := by
  unfold subscribeAtDispatch
  cases hsubscribe : input.subscribe with
  | none => exact Command.ends_of_run (Command.run_pure none after) ⟨.inl rfl, hcreated⟩
  | some granularity =>
      obtain ⟨hvalid, hknown⟩ | ⟨hinvalid, hunknown⟩ :=
        run_validateSubscriberAgent ctx input after
      swap
      · unfold Command.Ends
        rw [Command.run_bind_of_none hinvalid]
        exact ⟨fun h => hunknown (h (by simp [hsubscribe])).2, hcreated⟩
      obtain ⟨t, hlist, hlisted⟩ := hcreated.validated hstatus rfl
      obtain ⟨u, hadd, hadded⟩ :=
        hlisted.addSubscription hstatus rfl (askedSubscription input draws granularity)
      unfold Command.Ends
      rw [Command.run_bind_of_some hvalid, Command.run_bind_of_some hlist]
      have hrun : (do
          let id ← addSubscription id (askedSubscription input draws granularity)
          pure (some id) : Tool (Option String)).run t = (some (some draws.subscriptionId), u) :=
        Command.run_bind_of_some hadd
      exact Command.ends_of_run hrun ⟨.inr hknown, hadded⟩

theorem ends_notifyAtDispatch (hcreated : Created before id document entries after)
    (hstatus : document.status = .ready) (delivery : Option CompletionDelivery) :
    Command.Ends (notifyAtDispatch draws id delivery) after
      (fun _ t => ∃ final, Created before id document final t ∧
        match delivery with
        | none => final = entries
        | some delivery => ∃ read, parseSubscriptions entries = some read ∧
            final = some (read ++ [deliverySubscription draws delivery]))
      (fun t => parseSubscriptions entries = none ∧ Created before id document entries t) := by
  unfold notifyAtDispatch
  cases delivery with
  | none => exact Command.ends_of_run (Command.run_pure none after) ⟨entries, hcreated, rfl⟩
  | some delivery =>
      cases hread : parseSubscriptions entries with
      | none =>
          obtain ⟨t, hadd, hadded⟩ :=
            hcreated.addSubscription_throws hstatus hread (deliverySubscription draws delivery)
          unfold Command.Ends
          rw [Command.run_bind_of_none hadd]
          exact ⟨rfl, hadded⟩
      | some read =>
          obtain ⟨t, hadd, hadded⟩ :=
            hcreated.addSubscription hstatus hread (deliverySubscription draws delivery)
          exact Command.ends_of_run (Command.run_bind_of_some hadd)
            ⟨_, hadded, read, rfl, rfl⟩

end Subscribing

section Outcome

variable {ctx : ToolContext} {input : AOFDispatchInput} {draws : Draws} {before s : State}

theorem get?_dispatchMetadata (input : AOFDispatchInput) (key : String) :
    (dispatchMetadata input).get? key = requestedEntry input key := by
  unfold dispatchMetadata requestedEntry
  cases input.timeoutMs.bind cappedTimeout <;> cases input.tags <;> cases input.metadata <;>
    simp [Dict.get?_set, Dict.get?_empty, eq_comm] <;> split_ifs <;> simp_all

theorem requested_dispatchOpts (htarget : hasTarget (resolveRouting ctx input) = true)
    (htitle : jsTrim input.title ≠ "") (now : Nat) :
    Requested input ((dispatchOpts input ⟨jsTrim input.title, htitle⟩
      (resolveRouting ctx input)).document now) where
  title := rfl
  status := rfl
  target := htarget
  routing hnames := by
    have hasked : resolveRouting ctx input =
        { role := input.role, team := input.team, agent := input.agent } := if_pos hnames
    rw [hasked]
    exact ⟨rfl, rfl, rfl⟩
  dependsOn := rfl
  metadata key := by
    rw [← get?_dispatchMetadata]
    simp only [dispatchOpts, CreateOpts.document]
    split
    · rename_i hkeys
      have hnone : (dispatchMetadata input).get? key = none := by
        by_contra hsome
        have hmem := Dict.mem_keys_iff.mpr (Option.ne_none_iff_exists'.mp hsome)
        rw [hkeys] at hmem
        cases hmem
      rw [hnone]
      rfl
    · rfl

theorem valid_delivery (draws : Draws) {delivery : CompletionDelivery}
    (hdelivery : completionDelivery input = some (some delivery)) :
    delivery.kind ≠ "" ∧ (deliverySubscription draws delivery).subscriberId ≠ "" := by
  unfold completionDelivery at hdelivery
  split at hdelivery
  · rename_i raw hraw
    obtain ⟨found, hfound, heq⟩ := Option.map_eq_some_iff.mp hdelivery
    obtain rfl := Option.some.inj heq
    simp only [normalizeCompletionDelivery, Option.ite_none_left_eq_some,
      Option.some.injEq] at hfound
    obtain ⟨hkind, rfl⟩ := hfound
    refine ⟨hkind, ?_⟩
    rw [deliverySubscription, truthy, Option.filter_some]
    split
    · simp_all
    · intro hnil
      exact absurd (String.append_eq_empty_iff.mp hnil).1 (by decide)
  · cases Option.some.inj hdelivery

theorem parse_append {entries : Option (List Subscription)} {read : List Subscription}
    (hread : parseSubscriptions entries = some read) {sub : Subscription}
    (hsub : sub.subscriberId ≠ "")
    (hkind : sub.delivery.all (fun delivery => delivery.kind ≠ "") = true) :
    parseSubscriptions (some (read ++ [sub])) = some (read ++ [sub]) := by
  cases entries with
  | none =>
      obtain rfl := Option.some.inj hread
      simp_all [parseSubscriptions]
  | some entries =>
      rw [parseSubscriptions, Option.ite_none_right_eq_some] at hread
      obtain ⟨hvalid, heq⟩ := hread
      obtain rfl := Option.some.inj heq
      simp_all [parseSubscriptions]

theorem parse_asked (input : AOFDispatchInput) (draws : Draws) : parseSubscriptions
    (input.subscribe.map fun granularity => [askedSubscription input draws granularity]) =
      if input.subscribe ≠ none ∧ dispatchActor input = "" then none
      else some (input.subscribe.map (askedSubscription input draws)).toList := by
  cases input.subscribe with
  | none => rfl
  | some granularity => by_cases hactor : dispatchActor input = "" <;>
      simp [parseSubscriptions, askedSubscription, hactor]

theorem ends_createAndSubscribe (hnew : NewIds draws before) (hread : OnlyRead before s)
    {opts : CreateOpts} (hrequested : Requested input (opts.document draws.now))
    {delivery : Option CompletionDelivery} (hdelivery : completionDelivery input = some delivery)
    (haccepted : input.parentId.all Schemas.isTaskId = true ∧
      (input.dependsOn.getD []).all Schemas.isTaskId = true ↔ Accepted ctx input before) :
    Command.Ends (createAndSubscribe ctx input draws opts delivery) s
      (fun result t => Dispatched input before result t ↔
        (Accepted ctx input before → Subscribable ctx input)) (fun t => NothingCreated before t ↔
        (Accepted ctx input before → Subscribable ctx input)) := by
  have hunused := hnew.copies 0
  have hcopies : ∀ dir, (s.files (draws.ids 0)).copies dir = none := fun dir =>
    (hread.files (draws.ids 0) dir).elim (fun heq => heq.trans (hunused dir)) id
  have hrun := run_create input.parentId 999 hrequested.status (hcopies .ready)
  rw [hrequested.dependsOn] at hrun
  unfold createAndSubscribe
  by_cases hvalid : input.parentId.all Schemas.isTaskId = true ∧
      (input.dependsOn.getD []).all Schemas.isTaskId = true
  swap
  · rw [if_neg hvalid] at hrun
    unfold Command.Ends
    rw [Command.run_bind_of_none hrun]
    exact iff_of_true hread.toNothingCreated fun h => absurd (haccepted.mpr h) hvalid
  rw [if_pos hvalid] at hrun
  simp only [imp_iff_right (haccepted.mp hvalid)]
  unfold Command.Ends
  rw [Command.run_bind_of_some hrun]
  dsimp only
  rw [Command.run_bind_of_some (Command.run_modify _ _)]
  have hcreated : Created before (draws.ids 0) (opts.document draws.now) none
      { s with
        files := Function.update s.files (draws.ids 0)
          ((s.files (draws.ids 0)).write .ready (opts.document draws.now) 1)
        events := s.events ++ [⟨dispatchActor input, draws.ids 0, (opts.document draws.now).title,
          (opts.document draws.now).priority, (opts.document draws.now).routing⟩] } := by
    refine ⟨⟨(s.files (draws.ids 0)).clock + 1, Nat.succ_pos _, ?_, fun dir => ?_⟩,
      fun other hother => ?_, ?_⟩
    · simp [TaskFiles.write]
    · simp [TaskFiles.write, Function.update_apply, hcopies, hrequested.status]
    · simpa [hother] using hread.files other
    · rw [← hnew.directory 0, ← hread.subscriptions]
  refine Command.Ends.bind ((ends_subscribeAtDispatch hcreated hrequested.status).mono
    (fun _ _ h => h) ?_) ?_
  · rintro t ⟨hnot, hcreated⟩
    exact iff_of_false (hcreated.not_nothing hunused) hnot
  rintro _ t ⟨hknown, hcreated⟩
  refine Command.Ends.bind ((ends_notifyAtDispatch hcreated hrequested.status delivery).mono
    (fun _ _ h => h) ?_) ?_
  · rintro t' ⟨hparse, hcreated⟩
    have hactor : input.subscribe ≠ none ∧ dispatchActor input = "" := by
      by_contra hok
      rw [parse_asked, if_neg hok] at hparse
      cases hparse
    exact iff_of_false (hcreated.not_nothing hunused) fun h => (h hactor.1).1 hactor.2
  rintro _ t' ⟨final, hcreated, hfinal⟩
  refine Command.ends_of_run (Command.run_pure _ _) ?_
  by_cases hactor : input.subscribe ≠ none ∧ dispatchActor input = ""
  · -- What was written for the actor cannot be read again.
    have hunread : parseSubscriptions final = none := by
      have hasked := parse_asked input draws
      rw [if_pos hactor] at hasked
      cases delivery with
      | none => rw [hfinal, hasked]
      | some delivery =>
          obtain ⟨read, hparse, -⟩ := hfinal
          rw [hasked] at hparse
          cases hparse
    refine iff_of_false (fun hdispatched => ?_) fun h => (h hactor.1).1 hactor.2
    obtain ⟨granularity, hsubscribe⟩ := Option.ne_none_iff_exists'.mp hactor.1
    obtain ⟨entries, hparse, -⟩ := hdispatched.subscribed granularity hsubscribe
    rw [hcreated.subscriptions, hunread] at hparse
    cases hparse
  have hasked := parse_asked input draws
  rw [if_neg hactor] at hasked
  obtain ⟨list, hlist, hsub, hnotify⟩ : ∃ list, parseSubscriptions final = some list ∧
      (∀ granularity, input.subscribe = some granularity →
        askedSubscription input draws granularity ∈ list) ∧
      ∀ asked, delivery = some asked → deliverySubscription draws asked ∈ list := by
    cases delivery with
    | none => exact ⟨_, by rw [hfinal, hasked], fun _ h => by simp [h], fun _ h => by cases h⟩
    | some delivery =>
        obtain ⟨read, hparse, rfl⟩ := hfinal
        obtain ⟨hkind, hsubscriber⟩ := valid_delivery draws hdelivery
        obtain rfl := Option.some.inj (hparse.symm.trans hasked)
        refine ⟨_, parse_append hparse hsubscriber (by simpa [deliverySubscription] using hkind),
          fun _ h => by simp [h], fun asked h => ?_⟩
        obtain rfl := Option.some.inj h
        exact List.mem_append_right _ List.mem_cons_self
  rw [← hcreated.subscriptions] at hlist
  refine iff_of_true ⟨hunused, ⟨_, hrequested, hcreated.file⟩, hcreated.others,
    fun granularity hsubscribe => ?_, fun asked hasked => ?_⟩
    fun hne => ⟨fun h => hactor ⟨hne, h⟩, hknown.resolve_left hne⟩
  · exact ⟨list, hlist, _, hsub granularity hsubscribe, rfl, rfl, rfl⟩
  · rw [hdelivery] at hasked
    exact ⟨list, hlist, _, hnotify asked (Option.some.inj hasked), rfl, rfl, rfl⟩

/-- A dispatch creates everything or nothing just if an input that passes the checks asks for no
subscription of an actor that cannot be subscribed. -/
theorem dispatch_allOrNothing_iff (hnew : NewIds draws before) :
    AllOrNothing ctx input draws before ↔ (Accepted ctx input before → Subscribable ctx input) := by
  have hends : Command.Ends (aofDispatch ctx input draws) before
      (fun result t => Dispatched input before result t ↔
        (Accepted ctx input before → Subscribable ctx input))
      (fun t => NothingCreated before t ↔
        (Accepted ctx input before → Subscribable ctx input)) := by
    have hrejected : ∀ {t : State}, OnlyRead before t → ¬Accepted ctx input before →
        (NothingCreated before t ↔ (Accepted ctx input before → Subscribable ctx input)) :=
      fun hread hnot => iff_of_true hread.toNothingCreated fun h => absurd h hnot
    unfold aofDispatch
    split_ifs with htitle hbrief htarget
    · exact hrejected (.refl before) fun h => h.title htitle
    · exact hrejected (.refl before) fun h => h.brief hbrief
    swap
    · exact hrejected (.refl before) fun h => htarget h.target
    obtain ⟨t, hrun, hread⟩ := run_missingDependencies (input.dependsOn.getD []) before
    unfold Command.Ends
    rw [Command.run_bind_of_some hrun]
    split_ifs with hmissing
    · refine hrejected hread fun h => hmissing ?_
      simpa [Option.isNone_iff_eq_none] using h.dependencies
    cases hdelivery : completionDelivery input with
    | none => exact hrejected hread fun h => h.delivery hdelivery
    | some delivery =>
        refine ends_createAndSubscribe hnew hread
          (requested_dispatchOpts htarget htitle draws.now) hdelivery
          ⟨fun hids => ⟨htitle, hbrief, htarget, ?_, ?_, hids⟩, Accepted.ids⟩
        · simpa [Option.isNone_iff_eq_none] using hmissing
        · rw [hdelivery]
          exact Option.some_ne_none _
  exact hends.iff (fun _ _ h => h) fun _ h => h

theorem sampleId_valid : Schemas.isTaskId "TASK-2026-01-01-AAAAAAAA" = true := by decide +kernel

def sampleDraws : Draws where
  ids _ := ⟨"TASK-2026-01-01-AAAAAAAA", sampleId_valid⟩
  subscriptionId := "s1"
  notificationSubscriptionId := "s2"
  now := 0

def emptyStore : State where
  files _ := { copies := fun _ => none }
  subscriptions _ _ := none
  events := []

theorem newIds_emptyStore : NewIds sampleDraws emptyStore := ⟨fun _ _ => rfl, fun _ => rfl⟩

/-- A context with an org chart of some agents. -/
def charted (agents : List String) : ToolContext where
  orgChartPath := some "org.yaml"
  orgChart _ := some agents

def subscribingInput : AOFDispatchInput where
  title := "Report"
  brief := "Write it"
  agent := some "writer"
  actor := some "ghost"
  subscribe := some .completion

theorem known_actor_dispatches :
    AllOrNothing (charted ["writer", "ghost"]) subscribingInput sampleDraws emptyStore := by
  refine (dispatch_allOrNothing_iff newIds_emptyStore).mpr
    fun _ _ => ⟨by decide, fun path hpath => ?_⟩
  exact ⟨_, rfl, by decide⟩

/-- The actor is not in the org chart: the call throws, and the task is ready. -/
theorem unknown_actor_leaves_task : NewIds sampleDraws emptyStore ∧
    ¬AllOrNothing (charted ["writer"]) subscribingInput sampleDraws emptyStore := by
  refine ⟨newIds_emptyStore, fun hall => ?_⟩
  have hthrows : ((aofDispatch (charted ["writer"]) subscribingInput sampleDraws).run
      emptyStore).1.isNone = true := by decide +kernel
  have hcopy : ((((aofDispatch (charted ["writer"]) subscribingInput sampleDraws).run
      emptyStore).2.files "TASK-2026-01-01-AAAAAAAA").copies .ready).isSome = true := by
    decide +kernel
  unfold AllOrNothing Command.Ends at hall
  split at hall
  · rename_i heq
    rw [heq] at hthrows
    cases hthrows
  · rename_i t heq
    rw [heq] at hcopy
    rcases hall.files "TASK-2026-01-01-AAAAAAAA" .ready with hsame | hnone
    · rw [hsame] at hcopy
      cases hcopy
    · rw [hnone] at hcopy
      cases hcopy

end Outcome

end Aof.ProjectTools
