import Aof.Events.NotificationPolicy

/-!
# What a suppressed notification was covered by

The store of recent notifications keeps one entry per task and event type, from the moment the
engine lets a notification through.  Every entry stands for such a call, so a suppressed event has
one in its window.
-/

namespace Aof

open StepSystem

theorem colon_not_mem_taskId {id : String} (hvalid : isTaskId id = true) : ':' ∉ id.toList := by
  rw [isTaskId, Bool.or_eq_true, Bool.or_eq_true] at hvalid
  rcases hvalid with (hmatches | hmatches) | hmatches
  all_goals
    apply not_mem_of_matchesClasses _ hmatches
    decide +kernel

theorem global_not_taskId : isTaskId "global" = false := by decide +kernel

theorem taskId_eq_of_getD {a b : Option String} (ha : ∀ id ∈ a, isTaskId id = true)
    (hb : ∀ id ∈ b, isTaskId id = true) (heq : a.getD "global" = b.getD "global") : a = b := by
  have hglobal : ∀ {id : String}, isTaskId id = true → id ≠ "global" := by
    intro id hvalid hid
    rw [hid, global_not_taskId] at hvalid
    cases hvalid
  cases a with
  | none =>
      cases b with
      | none => rfl
      | some b => exact absurd heq.symm (hglobal (hb b rfl))
  | some a =>
      cases b with
      | none => exact absurd heq (hglobal (ha a rfl))
      | some b => exact congrArg some heq

theorem colon_not_mem_getD {a : Option String} (ha : ∀ id ∈ a, isTaskId id = true) :
    ':' ∉ (a.getD "global").toList := by
  cases a with
  | none => decide
  | some id => exact colon_not_mem_taskId (ha id rfl)

theorem append_colon_inj {a b s t : List Char} (ha : ':' ∉ a) (hb : ':' ∉ b)
    (heq : a ++ ':' :: s = b ++ ':' :: t) : a = b ∧ s = t := by
  induction a generalizing b with
  | nil =>
      cases b with
      | nil => exact ⟨rfl, List.tail_eq_of_cons_eq heq⟩
      | cons c b =>
          have hhead : ':' = c := List.head_eq_of_cons_eq heq
          exact absurd (hhead ▸ List.mem_cons_self) hb
  | cons c a ih =>
      cases b with
      | nil =>
          have hhead : c = ':' := List.head_eq_of_cons_eq heq
          exact absurd (hhead ▸ List.mem_cons_self) ha
      | cons d b =>
          obtain ⟨hhead, htail⟩ := List.cons_eq_cons.mp heq
          obtain ⟨hab, hst⟩ := ih (fun hmem => ha (List.mem_cons_of_mem _ hmem))
            (fun hmem => hb (List.mem_cons_of_mem _ hmem)) htail
          exact ⟨List.cons_eq_cons.mpr ⟨hhead, hab⟩, hst⟩

theorem DeduplicationStore.toList_key (taskId : Option String) (eventType : String) :
    (DeduplicationStore.key taskId eventType).toList =
      (taskId.getD "global").toList ++ ':' :: eventType.toList := by
  rw [DeduplicationStore.key, String.toList_append, String.toList_append, List.append_assoc]
  rfl

def BaseEvent.key (event : BaseEvent) : String := DeduplicationStore.key event.taskId event.type

theorem BaseEvent.key_inj {event other : BaseEvent} (heq : event.key = other.key) :
    event.taskId = other.taskId ∧ event.type = other.type := by
  have hchars := congrArg String.toList heq
  rw [BaseEvent.key, BaseEvent.key, DeduplicationStore.toList_key,
    DeduplicationStore.toList_key] at hchars
  obtain ⟨hids, htypes⟩ := append_colon_inj (colon_not_mem_getD event.taskId_valid)
    (colon_not_mem_getD other.taskId_valid) hchars
  constructor
  · apply taskId_eq_of_getD event.taskId_valid other.taskId_valid
    exact String.toList_inj.mp hids
  · exact String.toList_inj.mp htypes

/-- `earlier` was let through, for the task and the event type of `later`, and the window of `later`
had not passed. -/
structure Covers (earlier later : Handling) : Prop where
  letThrough : earlier.verdict ≠ .suppressed
  taskId : earlier.event.taskId = later.event.taskId
  type : earlier.event.type = later.event.type
  recent : later.now - earlier.now < later.effectiveWindow

def SuppressedAfter (covers : Handling → Handling → Prop) (handled : List Handling) : Prop :=
  ∀ (index : Nat) (later : Handling), handled[index]? = some later →
    later.verdict = .suppressed →
      ∃ (before : Nat) (earlier : Handling), before < index ∧ handled[before]? = some earlier ∧
        covers earlier later

def NeverSuppressed (exempt : Handling → Prop) (handled : List Handling) : Prop :=
  ∀ handling ∈ handled, exempt handling → handling.verdict ≠ .suppressed

def Unsuppressable (handling : Handling) : Prop :=
  SeverityResolver.neverSuppress handling.event handling.rule.neverSuppress = true

def Critical (handling : Handling) : Prop :=
  SeverityResolver.resolve handling.rule.severity handling.event = .critical

/-- Every entry was written for a call that was let through. -/
def Backed (store : Dict String DedupeEntry) (handled : List Handling) : Prop :=
  ∀ key entry, store.get? key = some entry →
    ∃ handling ∈ handled, handling.verdict ≠ .suppressed ∧ handling.event.key = key ∧
      handling.now = entry.lastSentAt

structure EngineInvariant (engine : NotificationPolicyEngine) : Prop where
  backed : Backed engine.deduper.store engine.handled
  covered : SuppressedAfter Covers engine.handled
  heard : NeverSuppressed Unsuppressable engine.handled

section HandleEvent

variable {engine : NotificationPolicyEngine} {event : BaseEvent} {now : Int}
  {rule : NotificationRule}

theorem DeduplicationStore.shouldSend_cases (deduper : DeduplicationStore) (now : Int)
    (taskId : Option String) (eventType : String) (windowMs : Option Int) :
    (deduper.shouldSend now taskId eventType windowMs = (true, deduper)) ∨
      (deduper.shouldSend now taskId eventType windowMs =
        (true, { deduper with
          store := deduper.store.set (DeduplicationStore.key taskId eventType)
            ⟨now, windowMs.getD deduper.defaultWindowMs⟩ })) ∨
      (deduper.shouldSend now taskId eventType windowMs = (false, deduper) ∧
        ∃ entry, deduper.store.get? (DeduplicationStore.key taskId eventType) = some entry ∧
          now - entry.lastSentAt < windowMs.getD deduper.defaultWindowMs) := by
  unfold DeduplicationStore.shouldSend
  dsimp only
  split
  · exact .inl rfl
  · split
    · exact .inr (.inl rfl)
    · rename_i entry hentry
      split
      · rename_i hrecent
        exact .inr (.inr ⟨rfl, entry, hentry, hrecent⟩)
      · exact .inr (.inl rfl)

variable {store : Dict String DedupeEntry} {handled : List Handling}

theorem backed_append (hbacked : Backed store handled) (handling : Handling) :
    Backed store (handled ++ [handling]) := by
  intro key entry hentry
  obtain ⟨earlier, hmem, hearlier⟩ := hbacked key entry hentry
  exact ⟨earlier, List.mem_append_left _ hmem, hearlier⟩

variable {handling : Handling}

theorem backed_set (hbacked : Backed store handled) (windowMs : Int)
    (hthrough : handling.verdict ≠ .suppressed) :
    Backed (store.set handling.event.key ⟨handling.now, windowMs⟩) (handled ++ [handling]) := by
  intro key entry hentry
  rw [Dict.get?_set] at hentry
  split at hentry
  · rename_i hkey
    obtain rfl := Option.some.inj hentry
    exact ⟨handling, List.mem_append_right _ List.mem_cons_self, hthrough, hkey, rfl⟩
  · exact backed_append hbacked handling key entry hentry

theorem suppressedAfter_append {covers : Handling → Handling → Prop}
    (hcovered : SuppressedAfter covers handled)
    (hlast : handling.verdict = .suppressed → ∃ earlier ∈ handled, covers earlier handling) :
    SuppressedAfter covers (handled ++ [handling]) := by
  intro index later hlater hsuppressed
  by_cases hindex : index < handled.length
  · rw [List.getElem?_append_left hindex] at hlater
    obtain ⟨before, earlier, hbefore, hearlier, hcovers⟩ := hcovered index later hlater hsuppressed
    refine ⟨before, earlier, hbefore, ?_, hcovers⟩
    rw [List.getElem?_append_left (by omega), hearlier]
  · rw [List.getElem?_append_right (by omega), List.getElem?_singleton,
      Option.ite_none_right_eq_some] at hlater
    obtain rfl := Option.some.inj hlater.2
    obtain ⟨earlier, hmem, hcovers⟩ := hlast hsuppressed
    obtain ⟨before, hearlier⟩ := List.mem_iff_getElem?.mp hmem
    have hbefore := (List.getElem?_eq_some_iff.mp hearlier).1
    refine ⟨before, earlier, by omega, ?_, hcovers⟩
    rw [List.getElem?_append_left hbefore, hearlier]

theorem neverSuppressed_append {exempt : Handling → Prop} (hheard : NeverSuppressed exempt handled)
    (hlast : exempt handling → handling.verdict ≠ .suppressed) :
    NeverSuppressed exempt (handled ++ [handling]) := by
  intro other hmem
  rcases List.mem_append.mp hmem with hmem | hmem
  · exact hheard other hmem
  · obtain rfl := List.mem_singleton.mp hmem
    exact hlast

variable (hinv : EngineInvariant engine)
include hinv

theorem EngineInvariant.send (deduper : DeduplicationStore)
    (hdeduper : deduper = engine.deduper ∨ ∃ windowMs, deduper.store = engine.deduper.store.set
      event.key ⟨now, windowMs⟩) :
    EngineInvariant ({ engine with deduper := deduper }.send event now rule) where
  backed := by
    rcases hdeduper with rfl | ⟨windowMs, hstore⟩
    · exact backed_append hinv.backed _
    · have hthrough : (⟨event, now, rule, rule.dedupeWindowMs.getD deduper.defaultWindowMs,
          .sending⟩ : Handling).verdict ≠ .suppressed := Verdict.noConfusion
      have hset := backed_set hinv.backed windowMs hthrough
      show Backed deduper.store _
      rw [hstore]
      exact hset
  covered := suppressedAfter_append hinv.covered Verdict.noConfusion
  heard := neverSuppressed_append hinv.heard fun _ => Verdict.noConfusion

theorem EngineInvariant.suppress {entry : DedupeEntry}
    (hentry : engine.deduper.store.get? event.key = some entry)
    (hrecent : now - entry.lastSentAt < rule.dedupeWindowMs.getD engine.deduper.defaultWindowMs)
    (hdedupe : SeverityResolver.neverSuppress event rule.neverSuppress = false) :
    EngineInvariant (engine.suppress event now rule) where
  backed := backed_append hinv.backed _
  covered := by
    apply suppressedAfter_append hinv.covered
    intro _
    obtain ⟨earlier, hmem, hthrough, hkey, hnow⟩ := hinv.backed event.key entry hentry
    obtain ⟨htask, htype⟩ := BaseEvent.key_inj hkey
    refine ⟨earlier, hmem, hthrough, htask, htype, ?_⟩
    rw [hnow]
    exact hrecent
  heard := by
    apply neverSuppressed_append hinv.heard
    intro hexempt
    exact absurd (hdedupe.symm.trans hexempt) Bool.false_ne_true

theorem EngineInvariant.handleEvent : EngineInvariant (engine.handleEvent event now) := by
  unfold NotificationPolicyEngine.handleEvent
  split
  · exact hinv
  · split
    · exact ⟨hinv.backed, hinv.covered, hinv.heard⟩
    · rename_i rule hrule
      split
      · exact hinv.send engine.deduper (.inl rfl)
      · rename_i hdedupe
        rcases engine.deduper.shouldSend_cases now event.taskId event.type rule.dedupeWindowMs with
          hsame | hstarted | ⟨hrefused, entry, hentry, hrecent⟩
        · rw [hsame]
          exact hinv.send engine.deduper (.inl rfl)
        · rw [hstarted]
          exact hinv.send _ (.inr ⟨_, rfl⟩)
        · rw [hrefused]
          exact hinv.suppress hentry hrecent (Bool.eq_false_iff.mpr hdedupe)

end HandleEvent

section Settle

variable {handled : List Handling} {index : Nat} {handling : Handling} {verdict : Verdict}

section

variable (hget : handled[index]? = some handling) (hverdict : verdict ≠ .suppressed)
include hget hverdict

theorem settled_forward {i : Nat} {earlier : Handling} (hearlier : handled[i]? = some earlier)
    (hthrough : earlier.verdict ≠ .suppressed) :
    ∃ settled : Handling, (handled.set index { handling with verdict })[i]? = some settled ∧
      settled.verdict ≠ .suppressed ∧ settled.event = earlier.event ∧
        settled.now = earlier.now := by
  have hlength := (List.getElem?_eq_some_iff.mp hget).1
  by_cases hindex : index = i
  · subst hindex
    obtain rfl := Option.some.inj (hget.symm.trans hearlier)
    exact ⟨_, List.getElem?_set_self hlength, hverdict, rfl, rfl⟩
  · refine ⟨earlier, ?_, hthrough, rfl, rfl⟩
    rw [List.getElem?_set_ne hindex, hearlier]

theorem settled_backward {i : Nat} {later : Handling}
    (hlater : (handled.set index { handling with verdict })[i]? = some later)
    (hsuppressed : later.verdict = .suppressed) : handled[i]? = some later := by
  have hlength := (List.getElem?_eq_some_iff.mp hget).1
  by_cases hindex : index = i
  · subst hindex
    rw [List.getElem?_set_self hlength] at hlater
    obtain rfl := Option.some.inj hlater
    exact absurd hsuppressed hverdict
  · rwa [List.getElem?_set_ne hindex] at hlater

theorem suppressedAfter_settled (hcovered : SuppressedAfter Covers handled) :
    SuppressedAfter Covers (handled.set index { handling with verdict }) := by
  intro i later hlater hsuppressed
  obtain ⟨before, earlier, hbefore, hearlier, hcovers⟩ :=
    hcovered i later (settled_backward hget hverdict hlater hsuppressed) hsuppressed
  obtain ⟨settled, hsettled, hthrough, hevent, hnow⟩ :=
    settled_forward hget hverdict hearlier hcovers.letThrough
  refine ⟨before, settled, hbefore, hsettled, hthrough, ?_, ?_, ?_⟩
  · rw [hevent, hcovers.taskId]
  · rw [hevent, hcovers.type]
  · rw [hnow]
    exact hcovers.recent

theorem neverSuppressed_settled {exempt : Handling → Prop}
    (hheard : NeverSuppressed exempt handled) :
    NeverSuppressed exempt (handled.set index { handling with verdict }) := by
  intro other hmem hexempt hsuppressed
  obtain ⟨i, hother⟩ := List.mem_iff_getElem?.mp hmem
  have hbefore := settled_backward hget hverdict hother hsuppressed
  exact hheard other (List.mem_of_getElem? hbefore) hexempt hsuppressed

theorem backed_settled {store : Dict String DedupeEntry} (hbacked : Backed store handled) :
    Backed store (handled.set index { handling with verdict }) := by
  intro key entry hentry
  obtain ⟨earlier, hmem, hthrough, hkey, hnow⟩ := hbacked key entry hentry
  obtain ⟨i, hearlier⟩ := List.mem_iff_getElem?.mp hmem
  obtain ⟨settled, hsettled, hsettledThrough, hevent, hsettledNow⟩ :=
    settled_forward hget hverdict hearlier hthrough
  refine ⟨settled, List.mem_of_getElem? hsettled, hsettledThrough, ?_, ?_⟩
  · rw [hevent, hkey]
  · rw [hsettledNow, hnow]

end

theorem EngineInvariant.settle {engine next : NotificationPolicyEngine} {success : Bool}
    (hinv : EngineInvariant engine) (hstep : engine.settle index success = some next) :
    EngineInvariant next := by
  unfold NotificationPolicyEngine.settle at hstep
  split at hstep
  · cases hstep
  · rename_i handling hget
    split at hstep
    · cases hstep
    · obtain rfl := Option.some.inj hstep
      have hverdict : (if success then Verdict.sent else Verdict.failed) ≠ .suppressed := by
        cases success
        · exact Verdict.noConfusion
        · exact Verdict.noConfusion
      exact ⟨backed_settled hget hverdict hinv.backed,
        suppressedAfter_settled hget hverdict hinv.covered,
        neverSuppressed_settled hget hverdict hinv.heard⟩

end Settle

structure NotificationPolicyEngine.Fresh (engine : NotificationPolicyEngine) : Prop where
  handled : engine.handled = []
  store : engine.deduper.store = .empty

theorem engineInvariant_of_fresh {engine : NotificationPolicyEngine} (hfresh : engine.Fresh) :
    EngineInvariant engine where
  backed := by
    intro key entry hentry
    rw [hfresh.store, Dict.get?_empty] at hentry
    cases hentry
  covered := by
    intro index later hlater
    rw [hfresh.handled, List.getElem?_nil] at hlater
    cases hlater
  heard := by
    intro handling hmem
    rw [hfresh.handled] at hmem
    cases hmem

theorem engineInvariant_run {engine finish : NotificationPolicyEngine} {events : List EngineEvent}
    (hfresh : engine.Fresh) (hrun : FreeRun engineStep engine events finish) :
    EngineInvariant finish := by
  apply hrun.invariant EngineInvariant
  · intro engine event next hinv _ hstep
    cases event with
    | handleEvent event now =>
        obtain rfl := Option.some.inj hstep
        exact hinv.handleEvent
    | settled index success => exact hinv.settle hstep
    | updateRules rules =>
        obtain rfl := Option.some.inj hstep
        exact ⟨hinv.backed, hinv.covered, hinv.heard⟩
  · exact engineInvariant_of_fresh hfresh

theorem neverSuppress_of_critical {rule : NotificationRule} (hdefault : rule ∈ DEFAULT_RULES)
    (hcritical : rule.severity = .critical) : rule.neverSuppress = true := by
  revert rule
  decide +kernel

theorem unsuppressable_of_critical {handling : Handling} (hdefault : handling.rule ∈ DEFAULT_RULES)
    (hcritical : Critical handling) : Unsuppressable handling := by
  rw [Unsuppressable, SeverityResolver.neverSuppress, Bool.or_eq_true]
  rw [Critical, SeverityResolver.resolve] at hcritical
  split at hcritical
  · rename_i halways
    exact .inr halways
  · exact .inl (neverSuppress_of_critical hdefault hcritical)

/-- An event is suppressed only after one of the same task and type that was let through in its
window, and never if its type or its rule forbids it, or if it is critical by a default rule. -/
theorem suppressed_after_covering {engine finish : NotificationPolicyEngine}
    {events : List EngineEvent} (hfresh : engine.Fresh)
    (hrun : FreeRun engineStep engine events finish) :
    SuppressedAfter Covers finish.handled ∧ NeverSuppressed Unsuppressable finish.handled ∧
      NeverSuppressed (fun handling => handling.rule ∈ DEFAULT_RULES ∧ Critical handling)
        finish.handled := by
  have hinv := engineInvariant_run hfresh hrun
  refine ⟨hinv.covered, hinv.heard, ?_⟩
  intro handling hmem hexempt
  exact hinv.heard handling hmem (unsuppressable_of_critical hexempt.1 hexempt.2)

def transitioned (status : String) : BaseEvent where
  type := "task.transitioned"
  taskId := some "TASK-2026-02-01-001"
  payload := [("to", .str status)]
  taskId_valid := by decide +kernel

def startAndBlock (success : Bool) : List EngineEvent :=
  [.handleEvent (transitioned "in-progress") 0, .settled 0 success,
    .handleEvent (transitioned "blocked") 1000]

def Handling.outcome (handling : Handling) : Verdict × String :=
  (handling.verdict, handling.rule.channel)

theorem fresh_default : NotificationPolicyEngine.Fresh {} := ⟨rfl, rfl⟩

theorem block_covered : ∃ finish, FreeRun engineStep {} (startAndBlock true) finish ∧
    finish.handled.map Handling.outcome = [(.sent, "#aof-dispatch"), (.suppressed, "#aof-alerts")] ∧
    SuppressedAfter Covers finish.handled := by
  have hexec : (exec engineStep {} (startAndBlock true)).any (fun finish =>
      finish.handled.map Handling.outcome =
        [(.sent, "#aof-dispatch"), (.suppressed, "#aof-alerts")]) = true := by decide +kernel
  obtain ⟨finish, hfinish, houtcomes⟩ := (Option.any_eq_true _ _).mp hexec
  have hrun := freeRun_iff_exec.mpr hfinish
  exact ⟨finish, hrun, of_decide_eq_true houtcomes,
    (suppressed_after_covering fresh_default hrun).1⟩

def criticalRule : NotificationRule where
  ruleMatch := { eventType := "task.*" }
  severity := .critical
  channel := "#ops"
  template := "Attention"

theorem exists_cover {handled : List Handling} {covers : Handling → Handling → Prop}
    {first second : Verdict × String}
    (houtcomes : handled.map Handling.outcome = [first, second]) (hverdict : second.1 = .suppressed)
    (hcovered : SuppressedAfter covers handled) :
    ∃ earlier later : Handling, earlier.outcome = first ∧ later.outcome = second ∧
      covers earlier later := by
  obtain ⟨earlier, rest, rfl, rfl, hrest⟩ := List.map_eq_cons_iff.mp houtcomes
  obtain ⟨later, tail, rfl, rfl, htail⟩ := List.map_eq_cons_iff.mp hrest
  obtain rfl := List.map_eq_nil_iff.mp htail
  obtain ⟨before, cover, hbefore, hcover, hcovers⟩ := hcovered 1 later rfl hverdict
  obtain rfl : before = 0 := by omega
  obtain rfl := Option.some.inj hcover
  exact ⟨earlier, later, rfl, rfl, hcovers⟩

/-- The notification in the window may be one of another rule, it may have failed to be sent, and
a critical event may be suppressed. -/
theorem suppression_looser : (¬ ∀ events finish, FreeRun engineStep {} events finish →
      SuppressedAfter (fun earlier later => Covers earlier later ∧ earlier.rule = later.rule)
        finish.handled) ∧ (¬ ∀ events finish, FreeRun engineStep {} events finish →
      SuppressedAfter (fun earlier later => Covers earlier later ∧ earlier.verdict = .sent)
        finish.handled) ∧
    (¬ ∀ events finish, FreeRun engineStep { rules := [criticalRule] } events finish →
      NeverSuppressed Critical finish.handled) := by
  refine ⟨fun hclaim => ?_, fun hclaim => ?_, fun hclaim => ?_⟩
  · have hexec : (exec engineStep {} (startAndBlock true)).any (fun finish =>
        finish.handled.map Handling.outcome =
          [(.sent, "#aof-dispatch"), (.suppressed, "#aof-alerts")]) = true := by decide +kernel
    obtain ⟨finish, hfinish, houtcomes⟩ := (Option.any_eq_true _ _).mp hexec
    obtain ⟨earlier, later, hfirst, hsecond, -, hrule⟩ := exists_cover
      (of_decide_eq_true houtcomes) rfl (hclaim _ finish (freeRun_iff_exec.mpr hfinish))
    have hchannel : earlier.rule.channel = later.rule.channel := congrArg _ hrule
    rw [Handling.outcome, Prod.mk.injEq] at hfirst hsecond
    rw [hfirst.2, hsecond.2] at hchannel
    revert hchannel
    decide
  · have hexec : (exec engineStep {} (startAndBlock false)).any (fun finish =>
        finish.handled.map Handling.outcome =
          [(.failed, "#aof-dispatch"), (.suppressed, "#aof-alerts")]) = true := by decide +kernel
    obtain ⟨finish, hfinish, houtcomes⟩ := (Option.any_eq_true _ _).mp hexec
    obtain ⟨earlier, later, hfirst, hsecond, -, hsent⟩ := exists_cover
      (of_decide_eq_true houtcomes) rfl (hclaim _ finish (freeRun_iff_exec.mpr hfinish))
    rw [Handling.outcome, Prod.mk.injEq, hsent] at hfirst
    cases hfirst.1
  · have hexec : (exec engineStep { rules := [criticalRule] } (startAndBlock true)).any
        (fun finish => finish.handled.any fun handling =>
          handling.verdict = .suppressed ∧ SeverityResolver.resolve handling.rule.severity
            handling.event = .critical) = true := by decide +kernel
    obtain ⟨finish, hfinish, hany⟩ := (Option.any_eq_true _ _).mp hexec
    obtain ⟨handling, hmem, hhandling⟩ := List.any_eq_true.mp hany
    obtain ⟨hsuppressed, hcritical⟩ := of_decide_eq_true hhandling
    exact hclaim _ finish (freeRun_iff_exec.mpr hfinish) handling hmem hcritical hsuppressed

end Aof
