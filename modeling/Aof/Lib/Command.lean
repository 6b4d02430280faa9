import Mathlib.Order.Defs.Unbundled

/-!
# Commands on a mutable state

A computation that reads and writes a state and may throw.  A throw ends it but undoes nothing.
Besides the equations of a run there is one judgement, that a run relates the states at its two
ends, with a rule for each way of composing commands.
-/

/-- The result, absent if the computation threw, and the state it left behind. -/
def Command (State α : Type) := State → Option α × State

namespace Command

variable {State α β : Type}

def run (command : Command State α) (s : State) : Option α × State := command s

instance : Monad (Command State) where
  pure a := fun s => (some a, s)
  bind command next := fun s =>
    match command s with
    | (some a, t) => next a t
    | (none, t) => (none, t)

def throw : Command State α := fun s => (none, s)

def read : Command State State := fun s => (some s, s)

def modify (f : State → State) : Command State Unit := fun s => (some (), f s)

/-- `try { … } catch { }` -/
def attempt (command : Command State α) : Command State Unit :=
  fun s => (some (), (command s).2)

def succeeds (command : Command State α) : Command State Bool :=
  fun s => (some (command s).1.isSome, (command s).2)

/-- `try { … } catch (error) { …; throw error; }` -/
def onThrow (command : Command State α) (handler : Command State Unit) : Command State α :=
  fun s =>
    match command s with
    | (some a, t) => (some a, t)
    | (none, t) => (none, (handler t).2)

def onPart {Part : Type} (get : State → Part) (put : Part → State → State)
    (command : Command Part α) : Command State α :=
  fun s => ((command (get s)).1, put (command (get s)).2 s)

def change (f : State → Option State) : Command State Unit :=
  fun s =>
    match f s with
    | some t => (some (), t)
    | none => (none, s)

def after (command : Command State α) (s : State) : State := (command s).2

@[simp]
theorem run_pure (a : α) (s : State) : (pure a : Command State α).run s = (some a, s) := rfl

@[simp]
theorem run_throw (s : State) : (throw : Command State α).run s = (none, s) := rfl

@[simp]
theorem run_read (s : State) : (read : Command State State).run s = (some s, s) := rfl

@[simp]
theorem run_modify (f : State → State) (s : State) : (modify f).run s = (some (), f s) := rfl

@[simp]
theorem run_attempt (command : Command State α) (s : State) :
    command.attempt.run s = (some (), (command.run s).2) := rfl

theorem run_bind (command : Command State α) (next : α → Command State β) (s : State) :
    (command >>= next).run s =
      match command.run s with
      | (some a, t) => (next a).run t
      | (none, t) => (none, t) := rfl

variable {command : Command State α} {next : α → Command State β} {s t : State}

theorem run_bind_of_some {a : α} (hrun : command.run s = (some a, t)) :
    (command >>= next).run s = (next a).run t := by
  rw [run_bind, hrun]

theorem run_bind_of_none (hrun : command.run s = (none, t)) :
    (command >>= next).run s = (none, t) := by
  rw [run_bind, hrun]

theorem run_bind_pure (command : Command State α) (f : α → β) (s : State) :
    ((command >>= fun a => (pure (f a) : Command State β)).run s).2 = (command.run s).2 := by
  rw [run_bind]
  match command.run s with
  | (some _, _) => rfl
  | (none, _) => rfl

theorem run_discard (command : Command State α) (b : β) (s : State) :
    ((command >>= fun _ => (pure b : Command State β)).run s).2 = (command.run s).2 :=
  run_bind_pure command (fun _ => b) s

theorem bind_unit (command : Command State Unit) :
    (command >>= fun _ => (pure () : Command State Unit)) = command := by
  funext s
  show (command >>= fun _ => pure ()).run s = command.run s
  rw [run_bind]
  match command.run s with
  | (some _, _) => rfl
  | (none, _) => rfl

theorem after_eq (command : Command State α) (s : State) : command.after s =
    (command.run s).2 := rfl

def Relates (R : State → State → Prop) (command : Command State α) (s : State) : Prop :=
  R s (command.run s).2

section Rules

variable {R : State → State → Prop} {command : Command State α} {next : α → Command State β}
variable {s : State}

theorem Relates.attempt (hcommand : Relates R command s) : Relates R command.attempt s := hcommand

theorem Relates.modify {f : State → State} (hf : R s (f s)) : Relates R (Command.modify f) s := hf

theorem Relates.pure [IsPreorder State R] (a : α) (s : State) :
    Relates R (Pure.pure a : Command State α) s := refl_of R s

theorem Relates.throw [IsPreorder State R] (s : State) :
    Relates R (Command.throw : Command State α) s := refl_of R s

theorem Relates.read [IsPreorder State R] (s : State) :
    Relates R (Command.read : Command State State) s := refl_of R s

theorem Relates.bind [IsPreorder State R] (hcommand : Relates R command s)
    (hnext : ∀ a t, command.run s = (some a, t) → Relates R (next a) t) :
    Relates R (command >>= next) s := by
  unfold Relates at hcommand ⊢
  rw [run_bind]
  match hrun : command.run s with
  | (some a, t) =>
      rw [hrun] at hcommand
      exact trans_of R hcommand (hnext a t hrun)
  | (none, t) =>
      rw [hrun] at hcommand
      exact hcommand

theorem Relates.forM_from [IsPreorder State R] {γ : Type} {body : γ → Command State Unit}
    (xs : List γ) (hbody : ∀ x ∈ xs, ∀ t, R s t → Relates R (body x) t) :
    Relates R (xs.forM body) s := by
  induction xs generalizing s with
  | nil => exact Relates.pure () s
  | cons x rest ih =>
      have hfirst := hbody x List.mem_cons_self s (refl_of R s)
      refine hfirst.bind fun _ t hrun => ?_
      have hst : R s t := by
        unfold Relates at hfirst
        rwa [hrun] at hfirst
      exact ih fun y hy u htu => hbody y (List.mem_cons_of_mem _ hy) u (trans_of R hst htu)

theorem Relates.forM [IsPreorder State R] {γ : Type} {body : γ → Command State Unit}
    (xs : List γ) (hbody : ∀ x ∈ xs, ∀ s, Relates R (body x) s) (s : State) :
    Relates R (xs.forM body) s :=
  Relates.forM_from xs fun x hx t _ => hbody x hx t

end Rules

/-- A run that returns ends with `post`, one that throws with `fail`. -/
def Ends (command : Command State α) (s : State) (post : α → State → Prop) (fail : State → Prop) :
    Prop :=
  match command.run s with
  | (some a, t) => post a t
  | (none, t) => fail t

section Ends

variable {command : Command State α} {next : α → Command State β} {s : State}
variable {post : α → State → Prop} {fail : State → Prop}

variable {t : State} {other : α → State → Prop} {otherFail : State → Prop} {γ : Type}
  {f : State → Option State}

theorem ends_of_run {a : α} (hrun : command.run s = (some a, t)) (hpost : post a t) :
    Ends command s post fail := by
  unfold Ends
  rw [hrun]
  exact hpost

theorem Ends.mono {weaker : α → State → Prop} {weakerFail : State → Prop}
    (hends : Ends command s post fail) (hpost : ∀ a t, post a t → weaker a t)
    (hfail : ∀ t, fail t → weakerFail t) : Ends command s weaker weakerFail := by
  unfold Ends at hends ⊢
  match hrun : command.run s with
  | (some a, t) =>
      rw [hrun] at hends
      exact hpost a t hends
  | (none, t) =>
      rw [hrun] at hends
      exact hfail t hends

theorem Ends.and (hends : Ends command s post fail) (hother : Ends command s other otherFail) :
    Ends command s (fun a t => post a t ∧ other a t) (fun t => fail t ∧ otherFail t) := by
  unfold Ends at hends hother ⊢
  match hrun : command.run s with
  | (some a, t) =>
      rw [hrun] at hends hother
      exact ⟨hends, hother⟩
  | (none, t) =>
      rw [hrun] at hends hother
      exact ⟨hends, hother⟩

theorem Ends.iff {condition : Prop} (hends : Ends command s post fail)
    (hpost : ∀ a t, post a t → (other a t ↔ condition))
    (hfail : ∀ t, fail t → (otherFail t ↔ condition)) :
    Ends command s other otherFail ↔ condition := by
  unfold Ends at hends ⊢
  match hrun : command.run s with
  | (some a, t) =>
      rw [hrun] at hends
      exact hpost a t hends
  | (none, t) =>
      rw [hrun] at hends
      exact hfail t hends

theorem Ends.bind {p : α → State → Prop} {last : β → State → Prop}
    (hcommand : Ends command s p fail) (hnext : ∀ a t, p a t → Ends (next a) t last fail) :
    Ends (command >>= next) s last fail := by
  unfold Ends at hcommand ⊢
  rw [run_bind]
  match hrun : command.run s with
  | (some a, t) =>
      rw [hrun] at hcommand
      exact hnext a t hcommand
  | (none, t) =>
      rw [hrun] at hcommand
      exact hcommand

theorem Ends.read_bind {next : State → Command State α} (hnext : Ends (next s) s post fail) :
    Ends (read >>= next) s post fail := hnext

theorem Ends.succeeds {kept : Bool → State → Prop}
    (hends : Ends command s (fun _ t => kept true t) (kept false)) :
    Ends command.succeeds s kept fail := by
  unfold Ends at hends
  show kept (command.run s).1.isSome (command.run s).2
  match hrun : command.run s with
  | (some a, t) =>
      rw [hrun] at hends
      exact hends
  | (none, t) =>
      rw [hrun] at hends
      exact hends

theorem Ends.attempt {kept : State → Prop} (hends : Ends command s (fun _ t => kept t) kept) :
    Ends command.attempt s (fun _ t => kept t) fail :=
  @Ends.succeeds State α command s fail (fun _ t => kept t) hends

theorem Ends.onThrow {handler : Command State Unit}
    (hends : Ends command s post fun t => Ends handler t (fun _ u => fail u) fail) :
    Ends (command.onThrow handler) s post fail := by
  unfold Ends at hends ⊢
  show match command.onThrow handler s with
    | (some a, t) => post a t
    | (none, t) => fail t
  unfold Command.onThrow
  match hrun : command.run s with
  | (some a, t) =>
      rw [hrun] at hends
      rw [show command s = (some a, t) from hrun]
      exact hends
  | (none, t) =>
      rw [hrun] at hends
      rw [show command s = (none, t) from hrun]
      match hhandler : handler.run t with
      | (some (), u) =>
          simp only [hhandler] at hends
          show fail (handler t).2
          rw [show handler t = (some (), u) from hhandler]
          exact hends
      | (none, u) =>
          simp only [hhandler] at hends
          show fail (handler t).2
          rw [show handler t = (none, u) from hhandler]
          exact hends

theorem Ends.foldlM {body : β → γ → Command State β} (xs : List γ) {b : β}
    (inv : List γ → β → State → Prop)
    (hbody : ∀ done x rest, xs = done ++ x :: rest → ∀ b t, inv done b t →
      Ends (body b x) t (inv (done ++ [x])) fail)
    (hstart : inv [] b s) : Ends (xs.foldlM body b) s (inv xs) fail := by
  suffices h : ∀ rest done b s, xs = done ++ rest → inv done b s →
      Ends (rest.foldlM body b) s (inv xs) fail from h xs [] b s rfl hstart
  intro rest
  induction rest with
  | nil =>
      intro done b s hxs hinv
      rw [hxs, List.append_nil]
      exact hinv
  | cons x rest ih =>
      intro done b s hxs hinv
      apply (hbody done x rest hxs b s hinv).bind
      intro b t hnext
      apply ih (done ++ [x]) b t _ hnext
      rw [hxs, List.append_assoc, List.singleton_append]

theorem Ends.forM {body : γ → Command State Unit} (xs : List γ) (inv : List γ → State → Prop)
    (hbody : ∀ done x rest, xs = done ++ x :: rest → ∀ t, inv done t →
      Ends (body x) t (fun _ => inv (done ++ [x])) fail)
    (hstart : inv [] s) : Ends (xs.forM body) s (fun _ => inv xs) fail := by
  suffices h : ∀ rest done s, xs = done ++ rest → inv done s →
      Ends (rest.forM body) s (fun _ => inv xs) fail from h xs [] s rfl hstart
  intro rest
  induction rest with
  | nil =>
      intro done s hxs hinv
      rw [hxs, List.append_nil]
      exact hinv
  | cons x rest ih =>
      intro done s hxs hinv
      apply (hbody done x rest hxs s hinv).bind
      intro _ t hnext
      apply ih (done ++ [x]) t _ hnext
      rw [hxs, List.append_assoc, List.singleton_append]

theorem run_change (hf : f s = some t) : (change f).run s = (some (), t) := by
  show change f s = _
  rw [change, hf]

theorem ends_change {post : Unit → State → Prop} (hpost : ∀ t, f s = some t → post () t)
    (hfail : f s = none → fail s) : Ends (change f) s post fail := by
  cases hf : f s with
  | none =>
      have hrun : (change f).run s = (none, s) := by
        show change f s = _
        rw [change, hf]
      unfold Ends
      rw [hrun]
      exact hfail hf
  | some t => exact ends_of_run (run_change hf) (hpost t hf)

theorem run_forM_change {f : γ → State → Option State} {xs : List γ}
    (hall : xs.foldlM (fun s x => f x s) s = some t) :
    (xs.forM fun x => change (f x)).run s = (some (), t) := by
  induction xs generalizing s with
  | nil =>
      obtain rfl := Option.some.inj hall
      rfl
  | cons x rest ih =>
      rw [List.foldlM_cons] at hall
      obtain ⟨middle, hfirst, hrest⟩ := Option.bind_eq_some_iff.mp hall
      show (change (f x) >>= fun _ => rest.forM fun x => change (f x)).run s = _
      rw [run_bind_of_some (run_change hfirst)]
      exact ih hrest

end Ends

end Command
