import Aof.Lib.Command

/-!
# Recorded commands

A command on a state next to which every change is put down, and a log in which the program itself
writes what has changed.  A recorded command does to the state what the bare one does, and the
changes that it puts down lead from the one end of its run to the other.
-/

/-- A state, the changes that have led to it, and what the log says of them. -/
structure Recorded (State Change : Type) where
  state : State
  changes : List Change
  log : List Change

namespace Command

variable {State Change α β : Type}

/-- The changes that are seen between the two ends of a run are put down, and each is written to the
log in as many copies as told. -/
def recording (observe : State → State → List Change) (copies : Nat)
    (command : Command State α) : Command (Recorded State Change) α :=
  fun recorded =>
    ((command.run recorded.state).1,
      { state := command.after recorded.state
        changes := recorded.changes ++ observe recorded.state (command.after recorded.state)
        log := recorded.log ++
          (observe recorded.state (command.after recorded.state)).flatMap
            (List.replicate copies) })

def note (change : Change) : Command (Recorded State Change) Unit :=
  modify fun recorded => { recorded with log := recorded.log ++ [change] }

theorem bind_pure_run (command : Command State α) (s : State) :
    (command >>= Pure.pure).run s = command.run s := by
  rw [run_bind]
  match command.run s with
  | (some _, _) => rfl
  | (none, _) => rfl

theorem bind_assoc_run {γ : Type} (command : Command State α) (next : α → Command State β)
    (last : β → Command State γ) (s : State) :
    ((command >>= next) >>= last).run s = (command >>= fun a => next a >>= last).run s := by
  rw [run_bind, run_bind, run_bind]
  match command.run s with
  | (some _, _) => rfl
  | (none, _) => rfl

instance : LawfulMonad (Command State) :=
  LawfulMonad.mk' (Command State) (fun command => funext (bind_pure_run command))
    (fun _ _ => rfl) fun command next last => funext (bind_assoc_run command next last)

structure Leading (leads : State → List Change → State → Prop) : Prop where
  nil : ∀ s, leads s [] s
  append : ∀ {s t u xs ys}, leads s xs t → leads t ys u → leads s (xs ++ ys) u

/-- The first command records the second: it has its results and its effect on the state, and what
it puts down leads from the state before it to the state after it. -/
structure Records (leads : State → List Change → State → Prop)
    (recorded : Command (Recorded State Change) α) (command : Command State α) : Prop where
  result : ∀ r, (recorded.run r).1 = (command.run r.state).1
  state : ∀ r, (recorded.run r).2.state = (command.run r.state).2
  changes : ∀ r, ∃ made, (recorded.run r).2.changes = r.changes ++ made ∧
    leads r.state made (command.run r.state).2

section Rules

variable {leads : State → List Change → State → Prop}

variable {command : Command State α} {recorded : Command (Recorded State Change) α} {γ : Type}

theorem Records.recording {observe : State → State → List Change} {copies : Nat}
    (hleads : ∀ s, leads s (observe s (command.after s)) (command.after s)) :
    Records leads (command.recording observe copies) command :=
  ⟨fun _ => rfl, fun _ => rfl, fun r => ⟨_, rfl, hleads r.state⟩⟩

theorem Records.pure (hleading : Leading leads) (a : α) :
    Records leads (Pure.pure a : Command (Recorded State Change) α) (Pure.pure a) :=
  ⟨fun _ => rfl, fun _ => rfl, fun r => ⟨[], (List.append_nil _).symm, hleading.nil r.state⟩⟩

theorem Records.throw (hleading : Leading leads) :
    Records leads (Command.throw : Command (Recorded State Change) α) Command.throw :=
  ⟨fun _ => rfl, fun _ => rfl, fun r => ⟨[], (List.append_nil _).symm, hleading.nil r.state⟩⟩

theorem Records.note (hleading : Leading leads) (change : Change) :
    Records leads (Command.note change) (Pure.pure ()) :=
  ⟨fun _ => rfl, fun _ => rfl, fun r => ⟨[], (List.append_nil _).symm, hleading.nil r.state⟩⟩

theorem Records.attempt (hrecords : Records leads recorded command) :
    Records leads recorded.attempt command.attempt :=
  ⟨fun _ => rfl, hrecords.state, hrecords.changes⟩

variable (hleading : Leading leads)
include hleading

theorem Records.bind {recordedNext : α → Command (Recorded State Change) β}
    {next : α → Command State β} (hrecords : Records leads recorded command)
    (hnext : ∀ a, Records leads (recordedNext a) (next a)) :
    Records leads (recorded >>= recordedNext) (command >>= next) := by
  have hrun : ∀ r, recorded.run r =
      ((command.run r.state).1, (recorded.run r).2) := fun r =>
    Prod.ext (hrecords.result r) rfl
  constructor
  · intro r
    rw [run_bind, run_bind, hrun r]
    match hcommand : command.run r.state with
    | (some a, t) => exact ((hnext a).result _).trans (by rw [hrecords.state r, hcommand])
    | (none, t) => rfl
  · intro r
    rw [run_bind, run_bind, hrun r]
    match hcommand : command.run r.state with
    | (some a, t) => exact ((hnext a).state _).trans (by rw [hrecords.state r, hcommand])
    | (none, t) => exact (hrecords.state r).trans (by rw [hcommand])
  · intro r
    obtain ⟨made, hmade, hleads⟩ := hrecords.changes r
    rw [run_bind, run_bind, hrun r]
    match hcommand : command.run r.state with
    | (some a, t) =>
        obtain ⟨more, hmore, hlast⟩ := (hnext a).changes (recorded.run r).2
        rw [hrecords.state r, hcommand] at hlast
        rw [hcommand] at hleads
        refine ⟨made ++ more, ?_, hleading.append hleads hlast⟩
        rw [hmore, hmade, List.append_assoc]
    | (none, t) => exact ⟨made, hmade, by rwa [hcommand] at hleads⟩

theorem Records.bind_note {recorded : Command (Recorded State Change) Unit}
    {command : Command State Unit} (hrecords : Records leads recorded command) (change : Change) :
    Records leads (recorded >>= fun _ => Command.note change) command := by
  have hbound := hrecords.bind hleading fun _ => Records.note hleading change
  rwa [show (command >>= fun _ => Pure.pure ()) = command from bind_pure command] at hbound

theorem Records.note_bind (change : Change) (a : α) :
    Records leads (Command.note change >>= fun _ => Pure.pure a) (Pure.pure a) :=
  (Records.note hleading change).bind hleading fun _ => .pure hleading a

theorem Records.forM {recorded : γ → Command (Recorded State Change) Unit}
    {body : γ → Command State Unit} (hbody : ∀ x, Records leads (recorded x) (body x))
    (xs : List γ) : Records leads (xs.forM recorded) (xs.forM body) := by
  induction xs with
  | nil => exact .pure hleading ()
  | cons x rest ih => exact (hbody x).bind hleading fun _ => ih

theorem Records.foldlM {recorded : α → γ → Command (Recorded State Change) α}
    {body : α → γ → Command State α} (hbody : ∀ a x, Records leads (recorded a x) (body a x))
    (xs : List γ) (a : α) : Records leads (xs.foldlM recorded a) (xs.foldlM body a) := by
  induction xs generalizing a with
  | nil => exact .pure hleading a
  | cons x rest ih => exact (hbody a x).bind hleading ih

end Rules

/-- Of the selected changes, the log tells each once and in order. -/
def Faithful (selects : Change → Bool) (recorded : Recorded State Change) : Prop :=
  recorded.log.filter selects = recorded.changes.filter selects

def Keeps (selects : Change → Bool) (before after : Recorded State Change) : Prop :=
  Faithful selects before → Faithful selects after

instance (selects : Change → Bool) : IsPreorder (Recorded State Change) (Keeps selects) where
  refl _ := id
  trans _ _ _ hab hbc := hbc ∘ hab

section Telling

variable {selects : Change → Bool} {observe : State → State → List Change} {copies : Nat}
variable {command : Command State α} {r : Recorded State Change}

theorem flatMap_replicate_one (changes : List Change) :
    changes.flatMap (List.replicate 1) = changes := by
  induction changes with
  | nil => rfl
  | cons change rest ih => rw [List.flatMap_cons, ih, List.replicate_one, List.singleton_append]

theorem flatMap_replicate_zero (changes : List Change) :
    changes.flatMap (List.replicate 0) = [] := by
  induction changes with
  | nil => rfl
  | cons change rest ih => rw [List.flatMap_cons, ih, List.replicate_zero, List.nil_append]

theorem keeps_recording_once (honce : copies = 1) :
    Relates (Keeps selects) (command.recording observe copies) r := by
  intro hfaithful
  subst honce
  show List.filter selects (_ ++ _) = List.filter selects (_ ++ _)
  rw [List.filter_append, List.filter_append, flatMap_replicate_one, hfaithful]

/-- The selected changes and what the log says of them are as before. -/
structure Unseen (selects : Change → Bool) (before after : Recorded State Change) : Prop where
  log : after.log.filter selects = before.log.filter selects
  changes : after.changes.filter selects = before.changes.filter selects

instance (selects : Change → Bool) : IsPreorder (Recorded State Change) (Unseen selects) where
  refl _ := ⟨rfl, rfl⟩
  trans _ _ _ hab hbc := ⟨hbc.log.trans hab.log, hbc.changes.trans hab.changes⟩

theorem Unseen.keeps {before after : Recorded State Change}
    (hunseen : Unseen selects before after) : Keeps selects before after :=
  fun hfaithful => hunseen.log.trans (hfaithful.trans hunseen.changes.symm)

theorem unseen_recording
    (hunseen : ∀ change ∈ observe r.state (command.after r.state), selects change = false) :
    Relates (Unseen selects) (command.recording observe copies) r := by
  have hmade : (observe r.state (command.after r.state)).filter selects = [] := by
    rw [List.filter_eq_nil_iff]
    exact fun change hchange => by rw [hunseen change hchange]; exact Bool.false_ne_true
  have hcopies : ((observe r.state (command.after r.state)).flatMap
      (List.replicate copies)).filter selects = [] := by
    rw [List.filter_eq_nil_iff]
    intro change hchange
    obtain ⟨seen, hseen, hcopy⟩ := List.mem_flatMap.mp hchange
    rw [List.eq_of_mem_replicate hcopy, hunseen seen hseen]
    exact Bool.false_ne_true
  constructor
  · show List.filter selects (_ ++ _) = _
    rw [List.filter_append, hcopies, List.append_nil]
  · show List.filter selects (_ ++ _) = _
    rw [List.filter_append, hmade, List.append_nil]

theorem unseen_note {change : Change} (hunseen : selects change = false) :
    Relates (Unseen selects) (note change) r := by
  refine ⟨?_, rfl⟩
  show List.filter selects (_ ++ _) = _
  rw [List.filter_append, List.filter_cons_of_neg (by rw [hunseen]; exact Bool.false_ne_true),
    List.filter_nil, List.append_nil]

theorem keeps_recording_note {change : Change} {middle : α → Command (Recorded State Change) Unit}
    {next : α → Command (Recorded State Change) β} (hsilent : copies = 0)
    (hthrows : (command.run r.state).1 = none →
      (observe r.state (command.after r.state)).filter selects = [])
    (hmakes : ∀ a, (command.run r.state).1 = some a →
      (observe r.state (command.after r.state)).filter selects = [change].filter selects)
    (hmiddle : ∀ a t, (command.run r.state).1 = some a → t.state = command.after r.state →
      ((middle a).run t).1 = some () ∧ Relates (Unseen selects) (middle a) t)
    (hnext : ∀ a t u, (command.run r.state).1 = some a → t.state = command.after r.state →
      u.state = ((middle a).run t).2.state → Relates (Keeps selects) (next a) u) :
    Relates (Keeps selects) (command.recording observe copies >>= fun a => middle a >>= fun _ =>
        note change >>= fun _ => next a) r := by
  subst hsilent
  let done := ((command.recording observe 0).run r).2
  have hlog : done.log = r.log := by
    show r.log ++ _ = r.log
    rw [flatMap_replicate_zero, List.append_nil]
  match hcommand : (command.run r.state).1 with
  | none =>
      have hfirst : (command.recording observe 0).run r = (none, done) := Prod.ext hcommand rfl
      unfold Relates
      rw [run_bind_of_none hfirst]
      intro hfaithful
      show List.filter selects done.log = List.filter selects (r.changes ++ _)
      rw [hlog, List.filter_append, hthrows hcommand, List.append_nil, hfaithful]
  | some a =>
      have hchanges : done.changes.filter selects =
          r.changes.filter selects ++ [change].filter selects := by
        show List.filter selects (r.changes ++ _) = _
        rw [List.filter_append, hmakes a hcommand]
      obtain ⟨hreturns, hunseen⟩ := hmiddle a done hcommand rfl
      let passed := ((middle a).run done).2
      let told : Recorded State Change := { passed with log := passed.log ++ [change] }
      have hfirst : (command.recording observe 0).run r = (some a, done) := Prod.ext hcommand rfl
      have hsecond : (middle a).run done = (some (), passed) := Prod.ext hreturns rfl
      have hthird : (note change).run passed = (some (), told) := rfl
      unfold Relates
      rw [run_bind_of_some hfirst, run_bind_of_some hsecond, run_bind_of_some hthird]
      refine trans_of (Keeps selects) (fun hfaithful => ?_) (hnext a done told hcommand rfl rfl)
      show List.filter selects (passed.log ++ [change]) = List.filter selects passed.changes
      rw [List.filter_append, hunseen.log, hunseen.changes, hlog, hchanges, hfaithful]

end Telling

end Command
