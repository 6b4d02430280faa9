import Aof.Mcp.Subscriptions

/-!
# Who is told of an update

A flush owes a notification to a session as long as its resource is still to come or the reader of
its record has not passed it.  A debt is paid or kept by each step, if no send fails before the last
one of its flush.
-/

namespace Aof

namespace Mcp

open StepSystem

variable {uri sessionId : Text}

def StandsAt (uri sessionId : Text) (subscriptions : Subscriptions) (id place : Nat) : Prop :=
  ∃ record, subscriptions.get? uri = some record ∧ record.id = id ∧
    (place, sessionId) ∈ record.subscribers.entries

def Subscribed (uri sessionId : Text) (subscriptions : Subscriptions) : Prop :=
  ∃ id place, StandsAt uri sessionId subscriptions id place

def Owes (uri sessionId : Text) (subscriptions : Subscriptions) : Flush → Prop
  | .sending cursor uris =>
      uri ∈ uris ∨ (cursor.uri = uri ∧
        ∃ place, StandsAt uri sessionId subscriptions cursor.record place ∧ cursor.place ≤ place)
  | .finished => False

section Sessions

variable {manager next : SubscriptionManager} {id place : Nat}

theorem standsAt_subscribe (hstands : StandsAt uri sessionId manager.subscriptions id place)
    (uri' sessionId' : Text) :
    StandsAt uri sessionId (manager.subscribe uri' sessionId').subscriptions id place := by
  obtain ⟨record, hrecord, hid, hentry⟩ := hstands
  unfold SubscriptionManager.subscribe StandsAt
  dsimp only
  by_cases hsame : uri' = uri
  · rw [hsame, hrecord, Option.getD_some, Dict.get?_set_self]
    exact ⟨_, rfl, hid, LiveSet.entries_add hentry⟩
  · rw [Dict.get?_set_of_ne _ _ hsame]
    exact ⟨record, hrecord, hid, hentry⟩

theorem standsAt_unsubscribe (hstands : StandsAt uri sessionId manager.subscriptions id place)
    {uri' sessionId' : Text} (hother : ¬(uri' = uri ∧ sessionId' = sessionId)) :
    StandsAt uri sessionId (manager.unsubscribe uri' sessionId').subscriptions id place := by
  obtain ⟨record, hrecord, hid, hentry⟩ := hstands
  unfold SubscriptionManager.unsubscribe StandsAt
  cases hrecord' : manager.subscriptions.get? uri' with
  | none => exact ⟨record, hrecord, hid, hentry⟩
  | some record' =>
      dsimp only
      by_cases hsame : uri' = uri
      · have heq : record' = record := by
          rw [hsame, hrecord] at hrecord'
          exact (Option.some.inj hrecord').symm
        have hkept := LiveSet.entries_delete hentry fun heq => hother ⟨hsame, heq.symm⟩
        rw [heq, if_neg (List.ne_nil_of_mem hkept), hsame, Dict.get?_set_self]
        exact ⟨_, rfl, hid, hkept⟩
      · split
        · rw [Dict.get?_erase, if_neg (Ne.symm hsame)]
          exact ⟨record, hrecord, hid, hentry⟩
        · rw [Dict.get?_set_of_ne _ _ hsame]
          exact ⟨record, hrecord, hid, hentry⟩

theorem proceed_subscriptions (index : Nat) (send : Option (Notification × Cursor × List Text)) :
    (manager.proceed index send).subscriptions = manager.subscriptions := by
  rcases send with _ | ⟨notification, cursor, uris⟩ <;> rfl

theorem standsAt_step (hstands : StandsAt uri sessionId manager.subscriptions id place)
    {label : Step} (hlabel : label ≠ .unsubscribe uri sessionId)
    (hstep : step manager label = some next) :
    StandsAt uri sessionId next.subscriptions id place := by
  cases label with
  | subscribe uri' sessionId' =>
      rw [← Option.some.inj hstep]
      split
      · exact standsAt_subscribe hstands uri' sessionId'
      · exact hstands
  | unsubscribe uri' sessionId' =>
      rw [← Option.some.inj hstep]
      apply standsAt_unsubscribe hstands
      rintro ⟨rfl, rfl⟩
      exact hlabel rfl
  | watchEvent path task =>
      rw [← Option.some.inj hstep, SubscriptionManager.handleWatchEvent]
      split
      · exact hstands
      · exact hstands
  | flush =>
      rw [step, Option.ite_none_right_eq_some] at hstep
      rw [← Option.some.inj hstep.2, SubscriptionManager.flushPending, proceed_subscriptions]
      exact hstands
  | settle index ok =>
      unfold step at hstep
      dsimp only at hstep
      split at hstep
      · rw [← Option.some.inj hstep, proceed_subscriptions]
        exact hstands
      · cases hstep

end Sessions

section Sends

variable {subscriptions : Subscriptions}

def Paid (uri sessionId : Text) (subscriptions : Subscriptions)
    (send : Notification × Cursor × List Text) : Prop :=
  send.1 = ⟨uri, sessionId⟩ ∨ Owes uri sessionId subscriptions (.sending send.2.1 send.2.2)

theorem paid_of_standsAt {record : SubscriptionRecord} {place start : Nat}
    (hrecord : subscriptions.get? uri = some record)
    (hentry : (place, sessionId) ∈ record.subscribers.entries) (hstart : start ≤ place)
    (uris : List Text) :
    ∃ place' sessionId', record.subscribers.after start = some (place', sessionId') ∧
      Paid uri sessionId subscriptions (⟨uri, sessionId'⟩, ⟨uri, record.id, place' + 1⟩, uris) := by
  obtain ⟨found, hfound, heq | hbefore⟩ := LiveSet.after_le hentry hstart
  · exact ⟨place, sessionId, heq ▸ hfound, Or.inl rfl⟩
  · exact ⟨found.1, found.2, hfound,
      Or.inr (Or.inr ⟨rfl, place, ⟨record, hrecord, rfl, hentry⟩, hbefore⟩)⟩

theorem paid_firstSend (hsubscribed : Subscribed uri sessionId subscriptions) {uris : List Text}
    (huri : uri ∈ uris) :
    ∃ send, firstSend subscriptions uris = some send ∧ Paid uri sessionId subscriptions send := by
  obtain ⟨id, place, record, hrecord, -, hentry⟩ := hsubscribed
  induction uris with
  | nil => exact absurd huri List.not_mem_nil
  | cons uri' uris ih =>
      by_cases hsame : uri' = uri
      · obtain ⟨place', sessionId', hafter, hpaid⟩ :=
          paid_of_standsAt hrecord hentry (Nat.zero_le _) uris
        refine ⟨_, ?_, hpaid⟩
        simp only [firstSend, hsame, hrecord, hafter]
      · have hrest : uri ∈ uris := (List.mem_cons.mp huri).resolve_left (Ne.symm hsame)
        unfold firstSend
        split
        · exact ih hrest
        · split
          · exact ⟨_, rfl, Or.inr (Or.inl hrest)⟩
          · exact ih hrest

theorem paid_nextSend (hsubscribed : Subscribed uri sessionId subscriptions) {cursor : Cursor}
    {uris : List Text} (howes : Owes uri sessionId subscriptions (.sending cursor uris)) :
    ∃ send, nextSend subscriptions cursor uris = some send ∧
      Paid uri sessionId subscriptions send := by
  rcases howes with huri | ⟨hcursor, place, ⟨record, hrecord, hid, hentry⟩, hplace⟩
  · unfold nextSend
    split
    · exact ⟨_, rfl, Or.inr (Or.inl huri)⟩
    · exact paid_firstSend hsubscribed huri
  · obtain ⟨place', sessionId', hafter, hpaid⟩ := paid_of_standsAt hrecord hentry hplace uris
    refine ⟨_, ?_, hpaid⟩
    rw [nextSend, Cursor.next, hcursor, hrecord, Option.bind_some, if_pos hid, hafter, hid]

end Sends

/-- A send of a flush fails only if the flush has no send behind it. -/
def LastFails (manager : SubscriptionManager) (label : Step) : Prop :=
  ∀ index cursor uris, label = .settle index false →
    manager.flushes[index]? = some (.sending cursor uris) →
    nextSend manager.subscriptions cursor uris = none

section Pending

variable {manager : SubscriptionManager}

theorem mem_foldl_pending (test : Text → Bool) (uris pending : List Text) :
    uri ∈ uris.foldl (fun pending uri => if test uri && !pending.contains uri then pending ++ [uri]
        else pending) pending ↔ uri ∈ pending ∨ (uri ∈ uris ∧ test uri = true) := by
  induction uris generalizing pending with
  | nil => simp
  | cons other uris ih =>
      rw [List.foldl_cons, ih]
      simp only [Bool.and_eq_true, Bool.not_eq_true', List.contains_eq_mem,
        decide_eq_false_iff_not]
      by_cases hother : test other = true ∧ other ∉ pending
      · rw [if_pos hother, List.mem_append, List.mem_singleton, List.mem_cons]
        constructor
        · rintro ((hold | rfl) | ⟨hmem, htest⟩)
          · exact Or.inl hold
          · exact Or.inr ⟨Or.inl rfl, hother.1⟩
          · exact Or.inr ⟨Or.inr hmem, htest⟩
        · rintro (hold | ⟨rfl | hmem, htest⟩)
          · exact Or.inl (Or.inl hold)
          · exact Or.inl (Or.inr rfl)
          · exact Or.inr ⟨hmem, htest⟩
      · rw [if_neg hother, List.mem_cons]
        constructor
        · rintro (hold | ⟨hmem, htest⟩)
          · exact Or.inl hold
          · exact Or.inr ⟨Or.inr hmem, htest⟩
        · rintro (hold | ⟨rfl | hmem, htest⟩)
          · exact Or.inl hold
          · exact Or.inl (not_not.mp fun hnew => hother ⟨htest, hnew⟩)
          · exact Or.inr ⟨hmem, htest⟩

theorem mem_addPending (uris : List Text) : uri ∈ manager.addPending uris ↔
      uri ∈ manager.pending ∨ (uri ∈ uris ∧ manager.subscriptions.has uri = true) :=
  mem_foldl_pending _ uris manager.pending

theorem mem_pending_handleWatchEvent {uris : List Text} (hpending : uri ∈ manager.pending) :
    uri ∈ (manager.handleWatchEvent uris).pending := by
  unfold SubscriptionManager.handleWatchEvent
  split
  · exact hpending
  · exact (mem_addPending uris).mpr (Or.inl hpending)

theorem pending_proceed (index : Nat) (send : Option (Notification × Cursor × List Text)) :
    (manager.proceed index send).pending = manager.pending := by
  rcases send with _ | ⟨notification, cursor, uris⟩ <;> rfl

theorem pending_of_event {uris : List Text} (huri : uri ∈ uris)
    (hsubscribed : Subscribed uri sessionId manager.subscriptions) :
    uri ∈ (manager.handleWatchEvent uris).pending := by
  obtain ⟨id, place, record, hrecord, -, -⟩ := hsubscribed
  rw [SubscriptionManager.handleWatchEvent, if_neg (List.ne_nil_of_mem huri)]
  apply (mem_addPending uris).mpr
  exact Or.inr ⟨huri, by rw [Dict.has, hrecord]; rfl⟩

theorem mem_pending_step {next : SubscriptionManager} {label : Step} (hlabel : label ≠ .flush)
    (hpending : uri ∈ manager.pending) (hstep : step manager label = some next) :
    uri ∈ next.pending := by
  cases label with
  | subscribe uri' sessionId' =>
      rw [← Option.some.inj hstep]
      split <;> exact hpending
  | unsubscribe uri' sessionId' =>
      rw [← Option.some.inj hstep, SubscriptionManager.unsubscribe]
      split <;> exact hpending
  | watchEvent path task =>
      rw [← Option.some.inj hstep]
      exact mem_pending_handleWatchEvent hpending
  | flush => exact absurd rfl hlabel
  | settle index ok =>
      unfold step at hstep
      dsimp only at hstep
      split at hstep
      · rw [← Option.some.inj hstep, pending_proceed]
        exact hpending
      · cases hstep

end Pending

section Debts

variable {manager next : SubscriptionManager} {index : Nat}

/-- The log after a base has the notification, or the flush still owes it. -/
def Settled (uri sessionId : Text) (base : List Notification) (index : Nat)
    (manager : SubscriptionManager) : Prop :=
  Subscribed uri sessionId manager.subscriptions ∧ ∃ later, manager.sent = base ++ later ∧
    (⟨uri, sessionId⟩ ∈ later ∨ ∃ flush, manager.flushes[index]? = some flush ∧
      Owes uri sessionId manager.subscriptions flush)

theorem sent_proceed (send : Option (Notification × Cursor × List Text)) :
    (manager.proceed index send).sent = manager.sent ++ (send.map Prod.fst).toList := by
  rcases send with _ | ⟨notification, cursor, uris⟩
  · exact (List.append_nil _).symm
  · rfl

variable {label : Step} {flush : Flush} {base : List Notification}

theorem sent_step (hstep : step manager label = some next) :
    ∃ later, next.sent = manager.sent ++ later := by
  have hsame : ∃ later, manager.sent = manager.sent ++ later := ⟨[], (List.append_nil _).symm⟩
  cases label with
  | subscribe uri' sessionId' =>
      rw [← Option.some.inj hstep]
      split
      · exact ⟨_, rfl⟩
      · exact hsame
  | unsubscribe uri' sessionId' =>
      rw [← Option.some.inj hstep, SubscriptionManager.unsubscribe]
      split <;> exact hsame
  | watchEvent path task =>
      rw [← Option.some.inj hstep, SubscriptionManager.handleWatchEvent]
      split <;> exact hsame
  | flush =>
      rw [step, Option.ite_none_right_eq_some] at hstep
      rw [← Option.some.inj hstep.2, SubscriptionManager.flushPending, sent_proceed]
      exact ⟨_, rfl⟩
  | settle index' ok =>
      unfold step at hstep
      dsimp only at hstep
      split at hstep
      · rw [← Option.some.inj hstep, sent_proceed]
        exact ⟨_, rfl⟩
      · cases hstep

theorem flushes_proceed {index' : Nat} (hne : index' ≠ index)
    (send : Option (Notification × Cursor × List Text)) :
    (manager.proceed index' send).flushes[index]? = manager.flushes[index]? := by
  rcases send with _ | ⟨notification, cursor, uris⟩ <;> exact List.getElem?_set_ne hne

theorem flushes_step (hlabel : ∀ ok, label ≠ .settle index ok)
    (hflush : manager.flushes[index]? = some flush) (hstep : step manager label = some next) :
    next.flushes[index]? = some flush := by
  cases label with
  | subscribe uri' sessionId' =>
      rw [← Option.some.inj hstep]
      split <;> exact hflush
  | unsubscribe uri' sessionId' =>
      rw [← Option.some.inj hstep, SubscriptionManager.unsubscribe]
      split <;> exact hflush
  | watchEvent path task =>
      rw [← Option.some.inj hstep, SubscriptionManager.handleWatchEvent]
      split <;> exact hflush
  | flush =>
      have hlt := (List.getElem?_eq_some_iff.mp hflush).1
      rw [step, Option.ite_none_right_eq_some] at hstep
      rw [← Option.some.inj hstep.2, SubscriptionManager.flushPending, flushes_proceed hlt.ne']
      exact (List.getElem?_append_left hlt).trans hflush
  | settle index' ok =>
      have hne : index' ≠ index := fun heq => hlabel ok (heq ▸ rfl)
      unfold step at hstep
      dsimp only at hstep
      split at hstep
      · rw [← Option.some.inj hstep, flushes_proceed hne]
        exact hflush
      · cases hstep

theorem owes_step (hlabel : label ≠ .unsubscribe uri sessionId)
    (howes : Owes uri sessionId manager.subscriptions flush)
    (hstep : step manager label = some next) : Owes uri sessionId next.subscriptions flush := by
  cases flush with
  | finished => exact howes
  | sending cursor uris =>
      rcases howes with huri | ⟨hcursor, place, hstands, hplace⟩
      · exact Or.inl huri
      · exact Or.inr ⟨hcursor, place, standsAt_step hstands hlabel hstep, hplace⟩

theorem settled_proceed {send : Notification × Cursor × List Text}
    (hsubscribed : Subscribed uri sessionId manager.subscriptions) {later : List Notification}
    (hlater : manager.sent = base ++ later) (hlt : index < manager.flushes.length)
    (hpaid : Paid uri sessionId manager.subscriptions send) :
    Settled uri sessionId base index (manager.proceed index (some send)) := by
  refine ⟨by rwa [proceed_subscriptions], later ++ [send.1], ?_, ?_⟩
  · rw [sent_proceed, hlater, List.append_assoc]
    rfl
  · rcases hpaid with htold | howes
    · exact Or.inl (List.mem_append_right _ (by rw [htold]; exact List.mem_cons_self))
    · refine Or.inr ⟨_, List.getElem?_set_self hlt, ?_⟩
      rwa [proceed_subscriptions]

theorem settled_step (hsettled : Settled uri sessionId base index manager)
    (hok : LastFails manager label) (hlabel : label ≠ .unsubscribe uri sessionId)
    (hstep : step manager label = some next) : Settled uri sessionId base index next := by
  obtain ⟨⟨id, place, hstands⟩, later, hlater, hdebt⟩ := hsettled
  have hsubscribed' := standsAt_step hstands hlabel hstep
  obtain ⟨more, hmore⟩ := sent_step hstep
  have hsent : next.sent = base ++ (later ++ more) := by
    rw [hmore, hlater, List.append_assoc]
  rcases hdebt with htold | ⟨flush, hflush, howes⟩
  · exact ⟨⟨id, place, hsubscribed'⟩, _, hsent, Or.inl (List.mem_append_left _ htold)⟩
  by_cases hown : ∃ ok, label = .settle index ok
  · obtain ⟨ok, rfl⟩ := hown
    cases flush with
    | finished => exact howes.elim
    | sending cursor uris =>
        obtain ⟨send, hsend, hpaid⟩ := paid_nextSend ⟨id, place, hstands⟩ howes
        cases ok with
        | false =>
            rw [hok index cursor uris rfl hflush] at hsend
            cases hsend
        | true =>
            simp only [step, hflush, if_true, hsend, Option.some.injEq] at hstep
            rw [← hstep]
            exact settled_proceed ⟨id, place, hstands⟩ hlater
              (List.getElem?_eq_some_iff.mp hflush).1 hpaid
  · rw [not_exists] at hown
    exact ⟨⟨id, place, hsubscribed'⟩, _, hsent,
      Or.inr ⟨flush, flushes_step hown hflush hstep, owes_step hlabel howes hstep⟩⟩

end Debts

/-- In every run in which a send fails only at the end of its flush, a session that is subscribed to
a resource of an event, and does not leave until the flush behind the event is finished, is notified
by then. -/
theorem update_notified {atEvent waiting atFlush flushing finished : SubscriptionManager}
    {between during : List Step} {path : Text} {task : Option ResolvedTask}
    (huri : uri ∈ mapWatchEventToUris path task)
    (hsubscribed : Subscribed uri sessionId atEvent.subscriptions)
    (hevent : step atEvent (.watchEvent path task) = some waiting)
    (hbetween : Run step LastFails waiting between atFlush) (hfirst : .flush ∉ between)
    (hflush : step atFlush .flush = some flushing)
    (hduring : Run step LastFails flushing during finished)
    (hstays : Step.unsubscribe uri sessionId ∉ between ++ during)
    (hfinished : finished.flushes[atFlush.flushes.length]? = some .finished) :
    ∃ later, finished.sent = atFlush.sent ++ later ∧ ⟨uri, sessionId⟩ ∈ later := by
  rw [List.mem_append, not_or] at hstays
  have hpending : uri ∈ atFlush.pending ∧ Subscribed uri sessionId atFlush.subscriptions := by
    have hrun := hbetween.restrict
      fun label hlabel => And.intro (ne_of_mem_of_not_mem hlabel hfirst)
        (ne_of_mem_of_not_mem hlabel hstays.1)
    apply hrun.invariant fun manager =>
      uri ∈ manager.pending ∧ Subscribed uri sessionId manager.subscriptions
    · rintro manager label next ⟨hpending, id, place, hstands⟩ ⟨-, hlabel, hstay⟩ hstep
      exact ⟨mem_pending_step hlabel hpending hstep, id, place,
        standsAt_step hstands hstay hstep⟩
    · obtain ⟨id, place, hstands⟩ := hsubscribed
      have hlabel : Step.watchEvent path task ≠ .unsubscribe uri sessionId := Step.noConfusion
      refine ⟨?_, id, place, standsAt_step hstands hlabel hevent⟩
      rw [← Option.some.inj hevent]
      exact pending_of_event huri ⟨id, place, hstands⟩
  have hsettled : Settled uri sessionId atFlush.sent atFlush.flushes.length flushing := by
    obtain ⟨send, hsend, hpaid⟩ := paid_firstSend hpending.2 hpending.1
    rw [step, Option.ite_none_right_eq_some] at hflush
    rw [← Option.some.inj hflush.2, SubscriptionManager.flushPending, hsend]
    exact settled_proceed hpending.2 (List.append_nil _).symm (by simp) hpaid
  have hrun := hduring.restrict fun label hlabel => ne_of_mem_of_not_mem hlabel hstays.2
  obtain ⟨-, later, hlater, htold | ⟨flush, hflush', howes⟩⟩ :=
    hrun.invariant (Settled uri sessionId atFlush.sent atFlush.flushes.length)
      (fun _ _ _ hsettled hok hstep => settled_step hsettled hok.1 hok.2 hstep) hsettled
  · exact ⟨later, hlater, htold⟩
  · rw [hfinished, Option.some.injEq] at hflush'
    rw [← hflush'] at howes
    exact howes.elim

def taskUri : Text := "aof://tasks/TASK-1".toList

def taskPath : Text := "/data/tasks/ready/TASK-1.md".toList

def twoSubscribers : SubscriptionManager :=
  ((({} : SubscriptionManager).subscribe taskUri "first".toList).subscribe taskUri
    "second".toList).handleWatchEvent (mapWatchEventToUris taskPath none)

theorem subscribed_second : Subscribed taskUri "second".toList
      (((({} : SubscriptionManager).subscribe taskUri "first".toList).subscribe taskUri
        "second".toList)).subscriptions :=
  ⟨0, 1, _, rfl, rfl, List.mem_cons_of_mem _ List.mem_cons_self⟩

/-- The second session is notified if the send to the first one succeeds. -/
theorem second_notified :
    ∃ finished : SubscriptionManager, ∃ later, finished.sent = twoSubscribers.sent ++ later ∧
      ⟨taskUri, "second".toList⟩ ∈ later := by
  have hrun : ∃ finished, exec step twoSubscribers.flushPending
      [.settle 0 true, .settle 0 true] = some finished ∧
        finished.flushes[0]? = some .finished := ⟨_, rfl, by decide +kernel⟩
  obtain ⟨finished, hexec, hfinished⟩ := hrun
  have hduring : Run step LastFails twoSubscribers.flushPending
      [.settle 0 true, .settle 0 true] finished := by
    have hsucceeds : ∀ label ∈ [Step.settle 0 true, .settle 0 true],
        ∀ index, label ≠ .settle index false := by
      simp
    exact ((freeRun_iff_exec.mpr hexec).restrict hsucceeds).mono
      fun _ _ hok index _ _ hlabel => absurd hlabel (hok.2 index)
  exact ⟨finished, update_notified (by decide +kernel) subscribed_second rfl (.refl _)
    List.not_mem_nil rfl hduring (by decide) hfinished⟩

/-- A send to the first session that fails keeps the second one from being notified. -/
theorem second_not_notified : ∃ (atEvent flushing finished : SubscriptionManager),
      FreeRun step {} [.subscribe taskUri "first".toList, .subscribe taskUri "second".toList]
        atEvent ∧ taskUri ∈ mapWatchEventToUris taskPath none ∧
      Subscribed taskUri "second".toList atEvent.subscriptions ∧
      step atEvent (.watchEvent taskPath none) = some twoSubscribers ∧
      step twoSubscribers .flush = some flushing ∧
      FreeRun step flushing [.settle 0 false] finished ∧ finished.flushes[0]? = some .finished ∧
      ¬∃ later, finished.sent = twoSubscribers.sent ++ later ∧
        ⟨taskUri, "second".toList⟩ ∈ later := by
  refine ⟨_, _, _, freeRun_iff_exec.mpr rfl, by decide +kernel, subscribed_second, rfl, rfl,
    freeRun_iff_exec.mpr rfl, by decide +kernel, ?_⟩
  rintro ⟨later, hlater, hmem⟩
  have hfirst : later = [⟨taskUri, "first".toList⟩] := by
    have hsent : twoSubscribers.sent ++ later =
        twoSubscribers.sent ++ [⟨taskUri, "first".toList⟩] := by
      rw [← hlater]
      rfl
    exact List.append_cancel_left hsent
  rw [hfirst] at hmem
  exact absurd hmem (by decide +kernel)

end Mcp

end Aof
