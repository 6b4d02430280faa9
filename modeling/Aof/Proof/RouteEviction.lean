import Aof.Lib.Recency
import Aof.Lib.Run
import Aof.Openclaw.ToolInvocationContext

/-!
# Which routes are evicted

A map of the store is a cache of bounded size.  A route that is captured again keeps its place in
the map, so what a map evicts need not be the route that was captured longest ago.
-/

namespace Aof

open StepSystem Recency ToolInvocationContext

inductive RouteSlot where
  | sessionKey
  | sessionId
  | toolCall
  deriving DecidableEq, Repr

namespace OpenClawToolInvocationContextStore

variable (store : OpenClawToolInvocationContextStore)

def routes : RouteSlot → RouteMap
  | .sessionKey => store.bySessionKey
  | .sessionId => store.bySessionId
  | .toolCall => store.byToolCallId

def limit : RouteSlot → Nat
  | .sessionKey | .sessionId => store.maxSessionRoutes
  | .toolCall => store.maxToolCalls

end OpenClawToolInvocationContextStore

/-- The key under which a call captures a route in a map, or which it clears there. -/
def RouteCall.event? : RouteSlot → RouteCall → Option (CacheEvent String)
  | .sessionKey, .captureMessageRoute event _ capturedAt =>
      ((extractRecipient event capturedAt).bind (·.sessionKey)).map .captured
  | .sessionId, .captureMessageRoute event _ capturedAt =>
      ((extractRecipient event capturedAt).bind (·.sessionId)).map .captured
  | .sessionKey, .clearSessionRoute event _ capturedAt =>
      ((extractRecipient event capturedAt).bind (·.sessionKey)).map .cleared
  | .sessionId, .clearSessionRoute event _ capturedAt =>
      ((extractRecipient event capturedAt).bind (·.sessionId)).map .cleared
  | .toolCall, .captureToolCall event _ capturedAt =>
      if extractToolName event = some "aof_dispatch" ∧ (extractRecipient event capturedAt).isSome
      then (extractToolCallId event).map .captured
      else none
  | .toolCall, .consumeToolCall toolCallId _ => some (.cleared toolCallId)
  | .toolCall, .clearToolCall event => (extractToolCallId event).map .cleared
  | _, _ => none

def routeHistory (slot : RouteSlot)
    (answers : List (RouteCall × Option OpenClawNotificationRecipient)) :
    List (CacheEvent String) :=
  answers.filterMap fun answer => answer.1.event? slot

def RouteState.history (state : RouteState) (slot : RouteSlot) : List (CacheEvent String) :=
  routeHistory slot state.answers

/-- What is captured and not cleared is missing only after as many captures as the map has room
for, and a tool call is consumed only if it was captured after it was last consumed. -/
structure RoutesKept (state : RouteState) : Prop where
  bounded : ∀ slot, (state.store.routes slot).keys.length ≤ state.store.limit slot
  missing : ∀ slot key others, since key (state.history slot) = some others →
    (state.store.routes slot).get? key = none → state.store.limit slot ≤ others.toFinset.card
  once : ∀ newer older toolCallId now recipient,
    state.answers = newer ++ (.consumeToolCall toolCallId now, some recipient) :: older →
      (since toolCallId (routeHistory .toolCall older)).isSome

/-- A call that evicts a route evicts the one that was captured longest ago. -/
def EvictsLeastRecent (state : RouteState) (call : RouteCall) : Prop :=
  ∀ slot, ∀ event ∈ call.event? slot,
    DropsLeastRecent (state.store.limit slot) (state.history slot)
      (state.store.routes slot).keys event

theorem forall_routeSlot {motive : RouteSlot → Prop} :
    (∀ slot, motive slot) ↔ motive .sessionKey ∧ motive .sessionId ∧ motive .toolCall := by
  refine ⟨fun hall => ⟨hall _, hall _, hall _⟩, fun ⟨hkey, hid, hcall⟩ slot => ?_⟩
  cases slot
  · exact hkey
  · exact hid
  · exact hcall

instance (state : RouteState) (call : RouteCall) : Decidable (EvictsLeastRecent state call) :=
  decidable_of_iff _ forall_routeSlot.symm

def Endless (map : RouteMap) : Prop :=
  ∀ entry ∈ map.entries, entry.1 ≠ "" ∧ entry.2.expiresAt = .posInf

theorem endless_empty : Endless .empty := fun _ hentry => absurd hentry List.not_mem_nil

variable {entry : StoredRecipient} {map : RouteMap} {event : JsValue}

theorem expired_posInf (now : Nat) (hentry : entry.expiresAt = .posInf) :
    expired now entry = false := by
  rw [expired, hentry]
  rfl

theorem Endless.erase (hmap : Endless map) (key : String) : Endless (map.erase key) :=
  fun entry hentry => hmap entry (List.mem_of_mem_filter hentry)

theorem Endless.prune_eq (hmap : Endless map) (now : Nat) : prune now map = map := by
  have hentries : (prune now map).entries = map.entries := by
    apply List.filter_eq_self.2
    intro entry hentry
    rw [expired_posInf now (hmap entry hentry).2, Bool.not_false]
  cases map
  simpa [prune] using hentries

theorem evictEntries_eq_drop {maxEntries : Nat} {entries : List (String × StoredRecipient)}
    (hkeys : ∀ entry ∈ entries, entry.1 ≠ "") :
    evictEntries maxEntries entries = entries.drop (entries.length - maxEntries) := by
  induction entries with
  | nil => rw [evictEntries, List.drop_nil]
  | cons oldest rest ih =>
      have holdest := hkeys oldest List.mem_cons_self
      rw [evictEntries, List.length_cons]
      by_cases hroom : rest.length + 1 ≤ maxEntries
      · rw [if_pos (.inl hroom), Nat.sub_eq_zero_of_le hroom, List.drop_zero]
      · have hmore : rest.length + 1 - maxEntries = rest.length - maxEntries + 1 := by omega
        rw [if_neg (not_or.2 ⟨hroom, holdest⟩), hmore, List.drop_succ_cons]
        exact ih fun entry hentry => hkeys entry (List.mem_cons_of_mem oldest hentry)

theorem Endless.set (hmap : Endless map) {key : String} (hkey : key ≠ "")
    (hentry : entry.expiresAt = .posInf) : Endless (map.set key entry) := by
  intro other hother
  rw [← Dict.get?_eq_some_iff, Dict.get?_set] at hother
  split at hother
  · rename_i heq
    obtain rfl := Option.some.inj hother
    exact ⟨heq ▸ hkey, hentry⟩
  · exact hmap other (Dict.get?_eq_some_iff.1 hother)

theorem Endless.evicted (hmap : Endless map) (maxEntries : Nat) : Endless (evict maxEntries map) :=
  fun entry hentry => hmap entry ((evictEntries_sublist maxEntries map.entries).subset hentry)

theorem Endless.keys_evict (hmap : Endless map) (maxEntries : Nat) :
    (evict maxEntries map).keys = lastKeys maxEntries map.keys := by
  have hkeys : ∀ entry ∈ map.entries, entry.1 ≠ "" := fun entry hentry => (hmap entry hentry).1
  calc
    (evict maxEntries map).keys = (evictEntries maxEntries map.entries).map Prod.fst := rfl
    _ = (map.entries.drop (map.entries.length - maxEntries)).map Prod.fst := by
      rw [evictEntries_eq_drop hkeys]
    _ = lastKeys maxEntries map.keys := by
      rw [List.map_drop, lastKeys, Dict.keys, List.length_map]

theorem Endless.getRecipient_eq (hmap : Endless map) (key : String) (now : Nat) :
    OpenClawToolInvocationContextStore.getRecipient map key now =
      ((map.get? key).map (·.recipient), map) := by
  unfold OpenClawToolInvocationContextStore.getRecipient
  cases hget : map.get? key with
  | none => rfl
  | some entry =>
      have hmem := Dict.get?_eq_some_iff.1 hget
      simp only [expired_posInf now (hmap _ hmem).2, Bool.false_eq_true, ↓reduceIte,
        Option.map_some]

namespace OpenClawToolInvocationContextStore

structure Lasting (store : OpenClawToolInvocationContextStore) : Prop where
  routeTtlMs : store.routeTtlMs = .posInf
  routes : ∀ slot, Endless (store.routes slot)

variable {store : OpenClawToolInvocationContextStore}

theorem Lasting.pruneExpired_eq (hstore : store.Lasting) (now : Nat) :
    store.pruneExpired now = store := by
  have hsessionKey : prune now store.bySessionKey = store.bySessionKey :=
    (hstore.routes .sessionKey).prune_eq now
  have hsessionId : prune now store.bySessionId = store.bySessionId :=
    (hstore.routes .sessionId).prune_eq now
  have htoolCall : prune now store.byToolCallId = store.byToolCallId :=
    (hstore.routes .toolCall).prune_eq now
  rw [pruneExpired, hsessionKey, hsessionId, htoolCall]

theorem Lasting.fallback_eq (hstore : store.Lasting) (recipient : OpenClawNotificationRecipient)
    (now : Nat) : (store.fallback recipient now).2 = store := by
  have hsessionKey : Endless store.bySessionKey := hstore.routes .sessionKey
  have hsessionId : Endless store.bySessionId := hstore.routes .sessionId
  unfold fallback
  split
  · rw [hsessionKey.getRecipient_eq]
  · rw [hsessionId.getRecipient_eq]
  · rfl

end OpenClawToolInvocationContextStore

structure AfterEvent (maxEntries : Nat) (map : RouteMap) (event : Option (CacheEvent String))
    (next : RouteMap) : Prop where
  endless : Endless next
  keys : next.keys = event.elim map.keys (·.keysAfter maxEntries map.keys)

section AfterEvent

variable {maxEntries now : Nat} {map : RouteMap} {key : String}

variable (hmap : Endless map)
include hmap

theorem afterEvent_none : AfterEvent maxEntries map none map :=
  ⟨hmap, rfl⟩

theorem afterEvent_cleared : AfterEvent maxEntries map (some (.cleared key)) (map.erase key) :=
  ⟨hmap.erase key, Dict.keys_erase map key⟩

theorem afterEvent_captured (hkey : key ≠ "") {store : OpenClawToolInvocationContextStore}
    (hstore : store.Lasting) (recipient : OpenClawNotificationRecipient) :
    AfterEvent maxEntries map (some (.captured key))
      (store.storeRecipient map key recipient maxEntries now) := by
  have hset : Endless (map.set key ⟨recipient, (JsNumber.finite now).add store.routeTtlMs⟩) := by
    rw [hstore.routeTtlMs]
    exact hmap.set hkey rfl
  refine ⟨hset.evicted maxEntries, ?_⟩
  rw [OpenClawToolInvocationContextStore.storeRecipient, hset.keys_evict, Dict.keys_set]
  rfl

theorem afterEvent_clears (key : Option String) :
    AfterEvent maxEntries map (key.map .cleared) (key.elim map map.erase) := by
  cases key with
  | none => exact afterEvent_none hmap
  | some key => exact afterEvent_cleared hmap

theorem afterEvent_captures {key : Option String} (hkey : ∀ text ∈ key, text ≠ "")
    {store : OpenClawToolInvocationContextStore} (hstore : store.Lasting)
    (recipient : OpenClawNotificationRecipient) : AfterEvent maxEntries map (key.map .captured)
      (key.elim map fun text => store.storeRecipient map text recipient maxEntries now) := by
  cases key with
  | none => exact afterEvent_none hmap
  | some key => exact afterEvent_captured hmap (hkey key rfl) hstore recipient

end AfterEvent

theorem getFirstString_ne_empty {paths : List String} :
    ∀ text ∈ getFirstString event paths, text ≠ "" := by
  intro text htext
  obtain ⟨path, -, hpath⟩ := List.exists_of_findSome?_eq_some htext
  unfold trimmed? at hpath
  split at hpath
  · rw [Option.filter_eq_some_iff] at hpath
    exact of_decide_eq_true hpath.2
  · cases hpath

theorem extractRecipient_keys {capturedAt : String} {recipient : OpenClawNotificationRecipient}
    (hrecipient : extractRecipient event capturedAt = some recipient) :
    (∀ text ∈ recipient.sessionKey, text ≠ "") ∧ ∀ text ∈ recipient.sessionId, text ≠ "" := by
  rw [extractRecipient] at hrecipient
  split at hrecipient
  · cases hrecipient
  · obtain rfl := Option.some.inj hrecipient
    exact ⟨getFirstString_ne_empty, getFirstString_ne_empty⟩

namespace OpenClawToolInvocationContextStore

structure AfterCall (store : OpenClawToolInvocationContextStore) (call : RouteCall)
    (next : OpenClawToolInvocationContextStore) : Prop where
  routeTtlMs : next.routeTtlMs = store.routeTtlMs
  limit : ∀ slot, next.limit slot = store.limit slot
  routes : ∀ slot,
    AfterEvent (store.limit slot) (store.routes slot) (call.event? slot) (next.routes slot)

variable {store : OpenClawToolInvocationContextStore}

variable (hstore : store.Lasting)
include hstore

theorem Lasting.after {call : RouteCall} {next : OpenClawToolInvocationContextStore}
    (hcall : store.AfterCall call next) : next.Lasting :=
  ⟨hcall.routeTtlMs.trans hstore.routeTtlMs, fun slot => (hcall.routes slot).endless⟩

theorem afterCall_captureMessageRoute (event : JsValue) (now : Nat) (capturedAt : String) :
    store.AfterCall (.captureMessageRoute event now capturedAt)
      (store.captureMessageRoute event now capturedAt) := by
  rw [captureMessageRoute, hstore.pruneExpired_eq]
  cases hrecipient : extractRecipient event capturedAt with
  | none =>
      refine ⟨rfl, fun slot => rfl, fun slot => ?_⟩
      cases slot <;> simp only [RouteCall.event?, hrecipient] <;>
        exact afterEvent_none (hstore.routes _)
  | some recipient =>
      have hkeys := extractRecipient_keys hrecipient
      refine ⟨rfl, fun slot => by cases slot <;> rfl, fun slot => ?_⟩
      cases slot with
      | sessionKey =>
          simp only [RouteCall.event?, hrecipient]
          exact afterEvent_captures (hstore.routes .sessionKey) hkeys.1 hstore recipient
      | sessionId =>
          simp only [RouteCall.event?, hrecipient]
          exact afterEvent_captures (hstore.routes .sessionId) hkeys.2 hstore recipient
      | toolCall => exact afterEvent_none (hstore.routes .toolCall)

theorem afterCall_captureToolCall (event : JsValue) (now : Nat) (capturedAt : String) :
    store.AfterCall (.captureToolCall event now capturedAt)
      (store.captureToolCall event now capturedAt) := by
  rw [captureToolCall, hstore.pruneExpired_eq]
  by_cases hname : extractToolName event = some "aof_dispatch"
  · cases hid : extractToolCallId event with
    | none =>
        simp only [hname, ne_eq, not_true_eq_false, ↓reduceIte]
        refine ⟨rfl, fun slot => rfl, fun slot => ?_⟩
        cases slot <;> simp only [RouteCall.event?, hid, Option.map_none, ite_self] <;>
          exact afterEvent_none (hstore.routes _)
    | some toolCallId =>
        cases hrecipient : extractRecipient event capturedAt with
        | none =>
            simp only [hname, ne_eq, not_true_eq_false, ↓reduceIte]
            refine ⟨rfl, fun slot => rfl, fun slot => ?_⟩
            cases slot <;> simp [RouteCall.event?, hrecipient] <;>
              exact afterEvent_none (hstore.routes _)
        | some recipient =>
            simp only [hname, ne_eq, not_true_eq_false, ↓reduceIte]
            have hfallback := hstore.fallback_eq recipient now
            generalize store.fallback recipient now = found at hfallback
            obtain ⟨route, same⟩ := found
            obtain rfl : same = store := hfallback
            refine ⟨rfl, fun slot => by cases slot <;> rfl, fun slot => ?_⟩
            cases slot with
            | sessionKey => exact afterEvent_none (hstore.routes .sessionKey)
            | sessionId => exact afterEvent_none (hstore.routes .sessionId)
            | toolCall =>
                have hkey : toolCallId ≠ "" := getFirstString_ne_empty toolCallId hid
                simp only [RouteCall.event?, hname, hid, hrecipient, Option.isSome_some, and_self,
                  ↓reduceIte, Option.map_some]
                exact afterEvent_captured (hstore.routes .toolCall) hkey hstore _
  · simp only [ne_eq, hname, not_false_eq_true, ↓reduceIte]
    refine ⟨rfl, fun slot => rfl, fun slot => ?_⟩
    cases slot <;> simp only [RouteCall.event?, hname, false_and, ↓reduceIte] <;>
      exact afterEvent_none (hstore.routes _)

theorem afterCall_consumeToolCall (toolCallId : String) (now : Nat) :
    store.AfterCall (.consumeToolCall toolCallId now) (store.consumeToolCall toolCallId now).2 := by
  have htoolCall : Endless store.byToolCallId := hstore.routes .toolCall
  rw [consumeToolCall, hstore.pruneExpired_eq, htoolCall.getRecipient_eq]
  refine ⟨rfl, fun slot => by cases slot <;> rfl, fun slot => ?_⟩
  cases slot with
  | sessionKey => exact afterEvent_none (hstore.routes .sessionKey)
  | sessionId => exact afterEvent_none (hstore.routes .sessionId)
  | toolCall => exact afterEvent_cleared htoolCall

theorem afterCall_clearToolCall (event : JsValue) :
    store.AfterCall (.clearToolCall event) (store.clearToolCall event) := by
  rw [clearToolCall]
  cases hid : extractToolCallId event with
  | none =>
      refine ⟨rfl, fun slot => rfl, fun slot => ?_⟩
      cases slot <;> simp only [RouteCall.event?, hid, Option.map_none] <;>
        exact afterEvent_none (hstore.routes _)
  | some toolCallId =>
      refine ⟨rfl, fun slot => by cases slot <;> rfl, fun slot => ?_⟩
      cases slot with
      | sessionKey => exact afterEvent_none (hstore.routes .sessionKey)
      | sessionId => exact afterEvent_none (hstore.routes .sessionId)
      | toolCall =>
          simp only [RouteCall.event?, hid, Option.map_some]
          exact afterEvent_cleared (hstore.routes .toolCall)

theorem afterCall_clearSessionRoute (event : JsValue) (now : Nat) (capturedAt : String) :
    store.AfterCall (.clearSessionRoute event now capturedAt)
      (store.clearSessionRoute event now capturedAt) := by
  let recipient := extractRecipient event capturedAt
  let cleared := { store with
    bySessionKey := (recipient.bind (·.sessionKey)).elim store.bySessionKey store.bySessionKey.erase
    bySessionId := (recipient.bind (·.sessionId)).elim store.bySessionId store.bySessionId.erase }
  have hcleared : store.AfterCall (.clearSessionRoute event now capturedAt) cleared := by
    refine ⟨rfl, fun slot => by cases slot <;> rfl, fun slot => ?_⟩
    cases slot with
    | sessionKey => exact afterEvent_clears (hstore.routes .sessionKey) _
    | sessionId => exact afterEvent_clears (hstore.routes .sessionId) _
    | toolCall => exact afterEvent_none (hstore.routes .toolCall)
  have hpruned : store.clearSessionRoute event now capturedAt = cleared.pruneExpired now := rfl
  rw [hpruned, (hstore.after hcleared).pruneExpired_eq]
  exact hcleared

theorem afterCall_perform (call : RouteCall) : store.AfterCall call (store.perform call).2 := by
  cases call with
  | captureMessageRoute event now capturedAt =>
      exact afterCall_captureMessageRoute hstore event now capturedAt
  | captureToolCall event now capturedAt =>
      exact afterCall_captureToolCall hstore event now capturedAt
  | consumeToolCall toolCallId now => exact afterCall_consumeToolCall hstore toolCallId now
  | clearToolCall event => exact afterCall_clearToolCall hstore event
  | clearSessionRoute event now capturedAt =>
      exact afterCall_clearSessionRoute hstore event now capturedAt

theorem Lasting.mem_of_consumed {toolCallId : String} {now : Nat}
    {recipient : OpenClawNotificationRecipient}
    (hanswer : (store.perform (.consumeToolCall toolCallId now)).1 = some recipient) :
    toolCallId ∈ (store.routes .toolCall).keys := by
  have htoolCall : Endless store.byToolCallId := hstore.routes .toolCall
  rw [perform, consumeToolCall, hstore.pruneExpired_eq, htoolCall.getRecipient_eq] at hanswer
  obtain ⟨entry, hentry, -⟩ := Option.map_eq_some_iff.1 hanswer
  exact Dict.mem_keys_iff.2 ⟨entry, hentry⟩

end OpenClawToolInvocationContextStore

namespace RouteState

structure Inv (state : RouteState) : Prop where
  lasting : state.store.Lasting
  bounded : ∀ slot, Bounded (state.store.limit slot) (state.history slot)
    (state.store.routes slot).keys
  once : ∀ newer older toolCallId now recipient,
    state.answers = newer ++ (.consumeToolCall toolCallId now, some recipient) :: older →
      (since toolCallId (routeHistory .toolCall older)).isSome

theorem history_after (state : RouteState) (call : RouteCall) (slot : RouteSlot) :
    (state.after call).history slot =
      (call.event? slot).elim (state.history slot) (· :: state.history slot) := by
  rw [history, after, routeHistory, List.filterMap_cons]
  cases call.event? slot <;> rfl

variable {state : RouteState}

theorem Inv.step (hinv : state.Inv) (call : RouteCall) : (state.after call).Inv := by
  have hcall := OpenClawToolInvocationContextStore.afterCall_perform hinv.lasting call
  refine ⟨hinv.lasting.after hcall, fun slot => ?_, ?_⟩
  · have hbounded := hinv.bounded slot
    rw [history_after, after, hcall.limit, (hcall.routes slot).keys]
    cases call.event? slot with
    | none => exact hbounded
    | some event => exact hbounded.after event
  · intro newer older toolCallId now recipient hanswers
    cases newer with
    | nil =>
        obtain ⟨hnewest, rfl⟩ := List.cons_eq_cons.1 hanswers
        obtain ⟨rfl, hanswer⟩ := Prod.mk.inj hnewest
        exact (hinv.bounded .toolCall).captured toolCallId (hinv.lasting.mem_of_consumed hanswer)
    | cons newest newer =>
        exact hinv.once newer older toolCallId now recipient (List.cons_eq_cons.1 hanswers).2

theorem keepsRecent_after (hinv : state.Inv) {call : RouteCall}
    (hevicts : EvictsLeastRecent state call) {slot : RouteSlot}
    (hkeeps : KeepsRecent (state.store.limit slot) (state.history slot) (state.store.routes
      slot).keys) :
    KeepsRecent ((state.after call).store.limit slot) ((state.after call).history slot)
      ((state.after call).store.routes slot).keys := by
  have hcall := OpenClawToolInvocationContextStore.afterCall_perform hinv.lasting call
  rw [history_after, after, hcall.limit, (hcall.routes slot).keys]
  cases hevent : call.event? slot with
  | none => exact hkeeps
  | some event => exact hkeeps.after (hevicts slot event hevent)

def initial (maxSessionRoutes maxToolCalls : Nat) : RouteState where
  store := { maxSessionRoutes, maxToolCalls }

theorem inv_initial (maxSessionRoutes maxToolCalls : Nat) :
    (initial maxSessionRoutes maxToolCalls).Inv where
  lasting := ⟨rfl, fun slot => by cases slot <;> exact endless_empty⟩
  bounded := fun slot => by cases slot <;> exact bounded_nil
  once := by
    intro newer older toolCallId now recipient hanswers
    cases newer <;> cases hanswers

end RouteState

/-- As long as every call that evicts a route evicts the one captured longest ago, no route is
missing that a cache of the least recently captured routes would have. -/
theorem routesKept_of_evictsLeastRecent (maxSessionRoutes maxToolCalls : Nat)
    {calls : List RouteCall} {state : RouteState} (hrun : Run RouteState.step EvictsLeastRecent
      (RouteState.initial maxSessionRoutes maxToolCalls) calls state) : RoutesKept state := by
  have hboth : state.Inv ∧ ∀ slot, KeepsRecent (state.store.limit slot) (state.history slot)
      (state.store.routes slot).keys := by
    refine hrun.invariant (fun state => state.Inv ∧ ∀ slot, KeepsRecent (state.store.limit slot)
      (state.history slot) (state.store.routes slot).keys) ?_ ?_
    · intro before call after hbefore hevicts hstep
      obtain rfl := Option.some.inj hstep
      exact ⟨hbefore.1.step call,
        fun slot => RouteState.keepsRecent_after hbefore.1 hevicts (hbefore.2 slot)⟩
    · exact ⟨RouteState.inv_initial maxSessionRoutes maxToolCalls,
        fun slot => by cases slot <;> exact keepsRecent_nil⟩
  obtain ⟨hinv, hkeeps⟩ := hboth
  refine ⟨fun slot => (hinv.bounded slot).bounded, ?_, hinv.once⟩
  intro slot key others hsince hmissing
  apply (hkeeps slot).missing key others hsince
  intro hkey
  obtain ⟨entry, hentry⟩ := Dict.mem_keys_iff.1 hkey
  rw [hentry] at hmissing
  cases hmissing

def messageFrom (sessionKey : String) : RouteCall :=
  .captureMessageRoute (.obj [("sessionKey", .str sessionKey)]) 0 ""

def busySession : List RouteCall :=
  [messageFrom "a", messageFrom "b", messageFrom "a", messageFrom "c"]

theorem routesKept_in_turn : ∃ state, Run RouteState.step EvictsLeastRecent (RouteState.initial 2 2)
      [messageFrom "a", messageFrom "b", messageFrom "c"] state ∧ RoutesKept state := by
  let calls := [messageFrom "a", messageFrom "b", messageFrom "c"]
  have hsome : (exec (checked RouteState.step fun state call =>
      decide (EvictsLeastRecent state call)) (RouteState.initial 2 2) calls).isSome := by
    decide +kernel
  obtain ⟨state, hexec⟩ := Option.isSome_iff_exists.1 hsome
  have hrun := Run.of_exec (fun _ _ => of_decide_eq_true) hexec
  exact ⟨state, hrun, routesKept_of_evictsLeastRecent 2 2 hrun⟩

theorem busy_session_evicted : ¬∀ maxSessionRoutes maxToolCalls calls state,
      FreeRun RouteState.step (RouteState.initial maxSessionRoutes maxToolCalls) calls state →
        RoutesKept state := by
  intro hall
  have hlost : ∃ state, exec RouteState.step (RouteState.initial 2 2) busySession = some state ∧
      since "a" (state.history .sessionKey) = some ["c"] ∧
        (state.store.routes .sessionKey).get? "a" = none ∧
          state.store.limit .sessionKey = 2 := by
    decide +kernel
  obtain ⟨state, hexec, hsince, hmissing, hlimit⟩ := hlost
  have hkept := hall 2 2 busySession state (freeRun_iff_exec.2 hexec)
  have hcard : state.store.limit .sessionKey ≤ 1 :=
    hkept.missing .sessionKey "a" ["c"] hsince hmissing
  omega

end Aof
