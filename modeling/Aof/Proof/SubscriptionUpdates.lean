import Aof.Store.SubscriptionStore
import Mathlib.Data.List.Permutation

/-!
# Updates of a subscriptions file

The calls on the file of a task are serializable, if no other call writes the file between the read
and the write of a call.  Then what a call has recorded stays in the file.
-/

namespace Aof

open StepSystem ReadModifyWrite

theorem map_modify_updated (file : SubscriptionsFile) (subscriptionId : String)
    (fields : StoredFields) (now : Nat) :
    (file.modify subscriptionId fun sub => sub.updated fields now).map
      StoredSubscription.toTaskSubscription =
        updateSubscription (file.map StoredSubscription.toTaskSubscription) subscriptionId
          fields.toSubscriptionFields := by
  induction file with
  | nil => rfl
  | cons sub rest ih =>
      rw [SubscriptionsFile.modify, List.map_cons, updateSubscription]
      split
      · rfl
      · rw [List.map_cons, ih]

def Persists (keeps : StoredSubscription → StoredSubscription → Prop)
    (file next : SubscriptionsFile) : Prop :=
  ∀ sub ∈ file, ∃ later ∈ next, keeps sub later

def KeepsAttempts (sub later : StoredSubscription) : Prop :=
  later.id = sub.id ∧ sub.attempts <+: later.attempts

def KeepsLedger (sub later : StoredSubscription) : Prop :=
  later.id = sub.id ∧ sub.notifiedStatuses <+: later.notifiedStatuses

def SubscriptionCall.setsLedger : SubscriptionCall → Bool
  | .update _ fields _ => fields.notifiedStatuses.isSome
  | _ => false

section Persists

variable {keeps : StoredSubscription → StoredSubscription → Prop}
  {file next : SubscriptionsFile} {subscriptionId : String}
  {change : StoredSubscription → StoredSubscription}

theorem kept_modify (hrefl : ∀ sub, keeps sub sub) (hchange : ∀ sub, keeps sub (change sub)) :
    Persists keeps file (file.modify subscriptionId change) := by
  induction file with
  | nil => exact fun _ hmem => absurd hmem List.not_mem_nil
  | cons sub rest ih =>
      intro other hmem
      rw [SubscriptionsFile.modify]
      split
      · rcases List.mem_cons.mp hmem with rfl | hmem
        · exact ⟨change other, List.mem_cons_self, hchange other⟩
        · exact ⟨other, List.mem_cons_of_mem _ hmem, hrefl other⟩
      · rcases List.mem_cons.mp hmem with rfl | hmem
        · exact ⟨other, List.mem_cons_self, hrefl other⟩
        · obtain ⟨later, hlater, hkeeps⟩ := ih other hmem
          exact ⟨later, List.mem_cons_of_mem _ hlater, hkeeps⟩

theorem kept_change (hrefl : ∀ sub, keeps sub sub) (hchange : ∀ sub, keeps sub (change sub))
    (hresult : file.change subscriptionId change = some next) : Persists keeps file next := by
  rw [SubscriptionsFile.change, Option.ite_none_right_eq_some] at hresult
  obtain rfl := Option.some.inj hresult.2
  exact kept_modify hrefl hchange

theorem mem_change (change : StoredSubscription → StoredSubscription)
    (hfound : (file.find subscriptionId).isSome = true) :
    ∃ next sub, file.change subscriptionId change = some next ∧ sub.id = subscriptionId ∧
      change sub ∈ next := by
  rw [SubscriptionsFile.change, if_pos hfound]
  refine ⟨file.modify subscriptionId change, ?_⟩
  induction file with
  | nil => cases hfound
  | cons sub rest ih =>
      rw [SubscriptionsFile.modify]
      by_cases hid : sub.id = subscriptionId
      · rw [if_pos hid]
        exact ⟨sub, rfl, hid, List.mem_cons_self⟩
      · rw [if_neg hid]
        have hrest : (SubscriptionsFile.find rest subscriptionId).isSome = true := by
          rwa [SubscriptionsFile.find, List.find?_cons_of_neg (by simpa using hid)] at hfound
        obtain ⟨other, -, hother, hmem⟩ := ih hrest
        exact ⟨other, rfl, hother, List.mem_cons_of_mem _ hmem⟩

theorem kept_refl (hrefl : ∀ sub, keeps sub sub) (file : SubscriptionsFile) :
    Persists keeps file file := fun sub hmem => ⟨sub, hmem, hrefl sub⟩

theorem kept_trans (htrans : ∀ a b c, keeps a b → keeps b c → keeps a c)
    (a b c : SubscriptionsFile) (hab : Persists keeps a b) (hbc : Persists keeps b c) :
    Persists keeps a c := by
  intro sub hmem
  obtain ⟨middle, hmiddle, hfirst⟩ := hab sub hmem
  obtain ⟨later, hlater, hsecond⟩ := hbc middle hmiddle
  exact ⟨later, hlater, htrans sub middle later hfirst hsecond⟩

end Persists

theorem keepsAttempts_refl (sub : StoredSubscription) : KeepsAttempts sub sub :=
  ⟨rfl, List.prefix_refl _⟩

theorem keepsAttempts_trans (a b c : StoredSubscription) (hab : KeepsAttempts a b)
    (hbc : KeepsAttempts b c) : KeepsAttempts a c := ⟨hbc.1.trans hab.1, hab.2.trans hbc.2⟩

theorem keepsLedger_refl (sub : StoredSubscription) : KeepsLedger sub sub :=
  ⟨rfl, List.prefix_refl _⟩

theorem keepsLedger_trans (a b c : StoredSubscription) (hab : KeepsLedger a b)
    (hbc : KeepsLedger b c) : KeepsLedger a c := ⟨hbc.1.trans hab.1, hab.2.trans hbc.2⟩

theorem edit_cases {call : SubscriptionCall} {file next : SubscriptionsFile}
    (hedit : call.edit file = some next) : (∃ sub, next = file ++ [sub]) ∨
      ∃ subscriptionId change, file.change subscriptionId change = some next ∧
        (∀ sub, KeepsAttempts sub (change sub)) ∧
        (call.setsLedger = false → ∀ sub, KeepsLedger sub (change sub)) := by
  cases call with
  | create id subscriberId granularity deliveryKind chat now =>
      exact .inl ⟨_, (Option.some.inj hedit).symm⟩
  | update subscriptionId fields now =>
      refine .inr ⟨subscriptionId, _, hedit, fun sub => keepsAttempts_refl sub, ?_⟩
      intro hledger sub
      have hnone : fields.notifiedStatuses = none := by
        simpa [SubscriptionCall.setsLedger] using hledger
      refine ⟨rfl, ?_⟩
      simp only [StoredSubscription.updated, hnone, Option.getD_none]
      exact List.prefix_refl _
  | cancel subscriptionId now =>
      exact .inr ⟨subscriptionId, _, hedit, fun sub => keepsAttempts_refl sub,
        fun _ sub => keepsLedger_refl sub⟩
  | markStatusNotified subscriptionId status now =>
      simp only [SubscriptionCall.edit, SubscriptionsFile.markStatusNotified,
        Option.ite_none_left_eq_some] at hedit
      exact .inr ⟨subscriptionId, _, hedit.2, fun sub => keepsAttempts_refl sub,
        fun _ sub => ⟨rfl, List.prefix_append _ _⟩⟩
  | appendAttempt subscriptionId attempt now =>
      exact .inr ⟨subscriptionId, _, hedit, fun sub => ⟨rfl, List.prefix_append _ _⟩,
        fun _ sub => keepsLedger_refl sub⟩

theorem kept_append {keeps : StoredSubscription → StoredSubscription → Prop}
    (hrefl : ∀ sub, keeps sub sub) (file : SubscriptionsFile) (sub : StoredSubscription) :
    Persists keeps file (file ++ [sub]) :=
  fun other hmem => ⟨other, List.mem_append_left _ hmem, hrefl other⟩

theorem keepsAttempts_replay (file : SubscriptionsFile) (calls : List SubscriptionCall) :
    Persists KeepsAttempts file (replay SubscriptionCall.edit file calls) := by
  apply replay_invariant (kept_refl keepsAttempts_refl) (kept_trans keepsAttempts_trans)
  intro call _ file next hedit
  rcases edit_cases hedit with ⟨sub, rfl⟩ | ⟨subscriptionId, change, hchange, hkeeps, -⟩
  · exact kept_append keepsAttempts_refl file sub
  · exact kept_change keepsAttempts_refl hkeeps hchange

theorem keepsLedger_replay (file : SubscriptionsFile) {calls : List SubscriptionCall}
    (hledger : ∀ call ∈ calls, call.setsLedger = false) :
    Persists KeepsLedger file (replay SubscriptionCall.edit file calls) := by
  apply replay_invariant (kept_refl keepsLedger_refl) (kept_trans keepsLedger_trans)
  intro call hmem file next hedit
  rcases edit_cases hedit with ⟨sub, rfl⟩ | ⟨subscriptionId, change, hchange, -, hkeeps⟩
  · exact kept_append keepsLedger_refl file sub
  · exact kept_change keepsLedger_refl (hkeeps (hledger call hmem)) hchange

/-- What the calls of a serial order have recorded is in the file: the created subscriptions, the
attempts, and the statuses, unless a later update has set the ledger. -/
structure RecordsKept (initial : SubscriptionsFile) (order : List SubscriptionCall)
    (file : SubscriptionsFile) : Prop where
  created : ∀ id subscriberId granularity deliveryKind chat now,
    .create id subscriberId granularity deliveryKind chat now ∈ order → ∃ sub ∈ file, sub.id = id
  attempted : ∀ before after id attempt now,
    order = before ++ .appendAttempt id attempt now :: after →
      (SubscriptionsFile.find (replay SubscriptionCall.edit initial before) id).isSome = true →
        ∃ sub ∈ file, sub.id = id ∧ attempt ∈ sub.attempts
  notified : ∀ before after id status now,
    order = before ++ .markStatusNotified id status now :: after →
      (SubscriptionsFile.find (replay SubscriptionCall.edit initial before) id).isSome = true →
        (∀ call ∈ after, call.setsLedger = false) →
          ∃ sub ∈ file, sub.id = id ∧ status ∈ sub.notifiedStatuses

theorem mem_of_find {file : SubscriptionsFile} {subscriptionId : String} {sub : StoredSubscription}
    (hfind : file.find subscriptionId = some sub) : sub ∈ file ∧ sub.id = subscriptionId := by
  refine ⟨List.mem_of_find?_eq_some hfind, ?_⟩
  simpa using List.find?_some hfind

theorem marked_edit {file : SubscriptionsFile} {subscriptionId status : String} {now : Nat}
    (hfound : (file.find subscriptionId).isSome = true) :
    ∃ sub ∈ ((SubscriptionCall.markStatusNotified subscriptionId status now).edit file).getD file,
      sub.id = subscriptionId ∧ status ∈ sub.notifiedStatuses := by
  simp only [SubscriptionCall.edit, SubscriptionsFile.markStatusNotified]
  split
  · rename_i hmarked
    obtain ⟨sub, hfind, hledger⟩ := (Option.any_eq_true _ _).mp hmarked
    obtain ⟨hmem, hid⟩ := mem_of_find hfind
    exact ⟨sub, hmem, hid, List.contains_iff_mem.mp hledger⟩
  · obtain ⟨next, sub, hchange, hid, hmem⟩ :=
      mem_change (fun sub => sub.notified status now) hfound
    rw [hchange, Option.getD_some]
    exact ⟨_, hmem, hid, List.mem_append_right _ List.mem_cons_self⟩

theorem recordsKept_replay (initial : SubscriptionsFile) (order : List SubscriptionCall) :
    RecordsKept initial order (replay SubscriptionCall.edit initial order) where
  created := by
    intro id subscriberId granularity deliveryKind chat now hmem
    obtain ⟨before, after, rfl⟩ := List.append_of_mem hmem
    rw [replay_append, replay_cons]
    have hcreated : StoredSubscription.created id subscriberId granularity deliveryKind chat now ∈
          ((SubscriptionCall.create id subscriberId granularity deliveryKind chat now).edit
            (replay SubscriptionCall.edit initial before)).getD
              (replay SubscriptionCall.edit initial before) :=
      List.mem_append_right _ List.mem_cons_self
    obtain ⟨later, hlater, hid, -⟩ := keepsAttempts_replay _ after _ hcreated
    exact ⟨later, hlater, hid⟩
  attempted := by
    rintro before after id attempt now rfl hfound
    rw [replay_append, replay_cons]
    obtain ⟨next, sub, hchange, hid, hmem⟩ :=
      mem_change (fun sub => sub.attempted attempt now) hfound
    rw [show (SubscriptionCall.appendAttempt id attempt now).edit
      (replay SubscriptionCall.edit initial before) = some next from hchange, Option.getD_some]
    obtain ⟨later, hlater, hlaterId, hattempts⟩ := keepsAttempts_replay next after _ hmem
    refine ⟨later, hlater, hlaterId.trans hid, hattempts.subset ?_⟩
    exact List.mem_append_right _ List.mem_cons_self
  notified := by
    rintro before after id status now rfl hfound hledger
    rw [replay_append, replay_cons]
    obtain ⟨sub, hmem, hid, hstatus⟩ := marked_edit hfound
    obtain ⟨later, hlater, hlaterId, hstatuses⟩ := keepsLedger_replay _ hledger sub hmem
    exact ⟨later, hlater, hlaterId.trans hid, hstatuses.subset hstatus⟩

/-- If every write finds the file that was read, the file is what the calls leave in some serial
order, and holds what they have recorded. -/
theorem subscription_updates_serial {file : SubscriptionsFile}
    {events : List (Event SubscriptionCall)} {finish : Session SubscriptionsFile SubscriptionCall}
    (hrun : Run subscriptionStep (fun session event => unchanged session event = true) { file }
      events finish) (hsettled : finish.pending = []) :
    ∃ order : List SubscriptionCall, order.Perm (issued events) ∧
      finish.file = replay SubscriptionCall.edit file order ∧
        RecordsKept file order finish.file := by
  obtain ⟨hperm, hfile⟩ := serial_of_unchanged hrun hsettled
  exact ⟨finish.order, hperm, hfile, hfile ▸ recordsKept_replay file finish.order⟩

def subscribe (id : String) : SubscriptionCall := .create id "swe" .completion none {} 0

def subscribeAtOnce : List (Event SubscriptionCall) :=
  [.read (subscribe "a"), .read (subscribe "b"), .write 0, .write 0]

def subscribeInTurn : List (Event SubscriptionCall) :=
  [.read (subscribe "a"), .write 0, .read (subscribe "b"), .write 0]

theorem two_subscribed : ∃ finish : Session SubscriptionsFile SubscriptionCall,
    finish.file.map (fun sub => sub.id) = ["a", "b"] ∧
    ∃ order : List SubscriptionCall, order.Perm (issued subscribeInTurn) ∧
      finish.file = replay SubscriptionCall.edit [] order ∧ RecordsKept [] order finish.file := by
  have hexec : (exec (checked subscriptionStep unchanged) { file := [] } subscribeInTurn).any
      (fun finish => finish.pending.isEmpty ∧ finish.file.map (fun sub => sub.id) = ["a", "b"]) =
        true := by
    decide +kernel
  obtain ⟨finish, hfinish, hresult⟩ := (Option.any_eq_true _ _).mp hexec
  obtain ⟨hsettled, hids⟩ := of_decide_eq_true hresult
  have hrun : Run subscriptionStep (fun session event => unchanged session event = true)
      { file := [] } subscribeInTurn finish := Run.of_exec (fun _ _ h => h) hfinish
  exact ⟨finish, hids, subscription_updates_serial hrun (List.isEmpty_iff.mp hsettled)⟩

/-- The first subscription is lost. -/
theorem subscription_lost : ¬ ∀ (events : List (Event SubscriptionCall))
      (finish : Session SubscriptionsFile SubscriptionCall),
      FreeRun subscriptionStep { file := [] } events finish → finish.pending = [] →
        ∃ order : List SubscriptionCall, order.Perm (issued events) ∧
          finish.file = replay SubscriptionCall.edit [] order := by
  intro hclaim
  have hexec : (exec subscriptionStep { file := [] } subscribeAtOnce).any (fun finish =>
      finish.pending.isEmpty ∧ finish.file.length = 1) = true := by
    decide +kernel
  obtain ⟨finish, hfinish, hresult⟩ := (Option.any_eq_true _ _).mp hexec
  obtain ⟨hsettled, hlength⟩ := of_decide_eq_true hresult
  obtain ⟨order, hperm, hfile⟩ := hclaim subscribeAtOnce finish (freeRun_iff_exec.mpr hfinish)
    (List.isEmpty_iff.mp hsettled)
  have hboth : ∀ order ∈ (issued subscribeAtOnce).permutations',
      (replay SubscriptionCall.edit [] order).length = 2 := by
    decide +kernel
  rw [hfile, hboth order (List.mem_permutations'.mpr hperm)] at hlength
  omega

end Aof
