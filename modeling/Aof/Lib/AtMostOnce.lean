import Mathlib.Data.List.Nodup
import Mathlib.Logic.Function.Basic
import Mathlib.Logic.Relation

/-!
# At most once

Workers send messages under keys and record the keys that they have sent.  From the sending to the
record, the worker holds the key.  If no worker starts to send under a key that is recorded or held,
no two messages are sent under one key.
-/

namespace AtMostOnce

variable {Worker Key : Type*}

/-- What a worker does: nothing that matters, send under a key, or record that it has sent. -/
inductive Phase (Key : Type*) where
  | idle
  | sending (key : Key)
  | recording (key : Key)

def Phase.held : Phase Key → Option Key
  | .idle => none
  | .sending key | .recording key => some key

structure State (Worker Key : Type*) where
  phase : Worker → Phase Key
  sent : List Key
  recorded : Key → Prop

section Steps

variable [DecidableEq Worker]

def State.enter (state : State Worker Key) (worker : Worker) (phase : Phase Key) :
    State Worker Key :=
  { state with phase := Function.update state.phase worker phase }

/-- One step of one worker.  What is recorded stays recorded. -/
inductive Step (state : State Worker Key) : State Worker Key → Prop
  | keep (recorded : Key → Prop) (hkept : ∀ key, state.recorded key → recorded key) :
      Step state { state with recorded }
  | send (worker : Worker) (key : Key) (hunrecorded : ¬state.recorded key)
      (hfree : ∀ other, (state.phase other).held ≠ some key)
      (hidle : state.phase worker = .idle) :
      Step state (state.enter worker (.sending key))
  | succeed (worker : Worker) (key : Key) (hsending : state.phase worker = .sending key) :
      Step state { state.enter worker (.recording key) with sent := state.sent ++ [key] }
  | fail (worker : Worker) (key : Key) (hsending : state.phase worker = .sending key) :
      Step state (state.enter worker .idle)
  | record (worker : Worker) (key : Key) (recorded : Key → Prop)
      (hrecording : state.phase worker = .recording key)
      (hkept : ∀ key, state.recorded key → recorded key) (hrecorded : recorded key) :
      Step state { state.enter worker .idle with recorded }

end Steps

/-- A sent key is recorded, or held by a worker that will record it; and a worker that sends under a
key is the first one to do so. -/
structure Once (state : State Worker Key) : Prop where
  nodup : state.sent.Nodup
  unique : ∀ i j key, (state.phase i).held = some key → (state.phase j).held = some key → i = j
  unsent : ∀ i key, state.phase i = .sending key → key ∉ state.sent
  accounted : ∀ key ∈ state.sent, state.recorded key ∨ ∃ i, state.phase i = .recording key

section Preservation

variable [DecidableEq Worker] {state next : State Worker Key} {worker : Worker} {phase : Phase Key}

@[simp]
theorem enter_self : (state.enter worker phase).phase worker = phase := Function.update_self ..

theorem enter_of_ne {other : Worker} (hne : other ≠ worker) :
    (state.enter worker phase).phase other = state.phase other := Function.update_of_ne hne ..

theorem Once.unique_enter (honce : Once state) (hphase : ∀ key, phase.held = some key →
      ∀ other, other ≠ worker → (state.phase other).held ≠ some key) :
    ∀ i j key, ((state.enter worker phase).phase i).held = some key →
      ((state.enter worker phase).phase j).held = some key → i = j := by
  intro i j key hi hj
  by_cases hworker : i = worker
  · subst hworker
    by_contra hne
    rw [enter_self] at hi
    rw [enter_of_ne (Ne.symm hne)] at hj
    exact hphase key hi j (Ne.symm hne) hj
  · rw [enter_of_ne hworker] at hi
    by_cases hother : j = worker
    · subst hother
      rw [enter_self] at hj
      exact absurd hi (hphase key hj i hworker)
    · rw [enter_of_ne hother] at hj
      exact honce.unique i j key hi hj

variable {key : Key} {i : Worker}

omit [DecidableEq Worker] in
theorem Once.held_ne (honce : Once state) (hheld : (state.phase worker).held = some key) :
    ∀ other, other ≠ worker → (state.phase other).held ≠ some key :=
  fun other hne hother => hne (honce.unique other worker key hother hheld)

theorem recording_enter (hrecording : state.phase i = .recording key)
    (hworker : state.phase worker ≠ .recording key) :
    (state.enter worker phase).phase i = .recording key := by
  rw [enter_of_ne]
  · exact hrecording
  · intro heq
    exact hworker (heq ▸ hrecording)

theorem sending_of_enter (hphase : ∀ key, phase ≠ .sending key)
    (hsending : (state.enter worker phase).phase i = .sending key) :
    i ≠ worker ∧ state.phase i = .sending key := by
  have hne : i ≠ worker := by
    rintro rfl
    rw [enter_self] at hsending
    exact hphase key hsending
  rw [enter_of_ne hne] at hsending
  exact ⟨hne, hsending⟩

theorem Step.once (hstep : Step state next) (honce : Once state) : Once next := by
  cases hstep with
  | keep recorded hkept =>
      refine ⟨honce.nodup, honce.unique, honce.unsent, ?_⟩
      intro key hsent
      exact (honce.accounted key hsent).imp_left (hkept key)
  | send worker key hunrecorded hfree hidle =>
      refine ⟨honce.nodup, ?_, ?_, ?_⟩
      · apply honce.unique_enter
        intro other hheld i _
        obtain rfl : key = other := Option.some.inj hheld
        exact hfree i
      · intro i other hsending hsent
        by_cases hworker : i = worker
        · subst hworker
          rw [enter_self] at hsending
          obtain rfl : key = other := Phase.sending.inj hsending
          cases honce.accounted key hsent with
          | inl hrecorded => exact hunrecorded hrecorded
          | inr hrecording =>
              obtain ⟨j, hj⟩ := hrecording
              exact hfree j (hj ▸ rfl)
        · rw [enter_of_ne hworker] at hsending
          exact honce.unsent i other hsending hsent
      · intro other hsent
        apply (honce.accounted other hsent).imp_right
        rintro ⟨i, hi⟩
        exact ⟨i, recording_enter hi (hidle ▸ nofun)⟩
  | succeed worker key hsending =>
      have hheld : (state.phase worker).held = some key := hsending ▸ rfl
      refine ⟨?_, honce.unique_enter ?_, ?_, ?_⟩
      · rw [List.nodup_append_comm]
        exact List.nodup_cons.mpr ⟨honce.unsent worker key hsending, honce.nodup⟩
      · intro other hother
        obtain rfl : key = other := Option.some.inj hother
        exact honce.held_ne hheld
      · intro i other hi hsent
        obtain ⟨hne, hsender⟩ := sending_of_enter nofun hi
        cases List.mem_append.mp hsent with
        | inl hmem => exact honce.unsent i other hsender hmem
        | inr hmem =>
            obtain rfl := List.mem_singleton.mp hmem
            exact honce.held_ne hheld i hne (hsender ▸ rfl)
      · intro other hsent
        cases List.mem_append.mp hsent with
        | inl hmem =>
            apply (honce.accounted other hmem).imp_right
            rintro ⟨i, hi⟩
            exact ⟨i, recording_enter hi (hsending ▸ nofun)⟩
        | inr hmem =>
            obtain rfl := List.mem_singleton.mp hmem
            exact .inr ⟨worker, enter_self⟩
  | fail worker key hsending =>
      refine ⟨honce.nodup, honce.unique_enter nofun, ?_, ?_⟩
      · intro i other hi
        exact honce.unsent i other (sending_of_enter nofun hi).2
      · intro other hsent
        apply (honce.accounted other hsent).imp_right
        rintro ⟨i, hi⟩
        exact ⟨i, recording_enter hi (hsending ▸ nofun)⟩
  | record worker key recorded hrecording hkept hrecorded =>
      refine ⟨honce.nodup, honce.unique_enter nofun, ?_, ?_⟩
      · intro i other hi
        exact honce.unsent i other (sending_of_enter nofun hi).2
      · intro other hsent
        by_cases hkey : other = key
        · exact .inl (hkey ▸ hrecorded)
        · apply (honce.accounted other hsent).imp (hkept other)
          rintro ⟨i, hi⟩
          refine ⟨i, recording_enter hi ?_⟩
          rw [hrecording]
          exact fun h => hkey (Phase.recording.inj h).symm

theorem Once.run (hrun : Relation.ReflTransGen Step state next) (honce : Once state) :
    Once next := by
  induction hrun with
  | refl => exact honce
  | tail _ hstep ih => exact hstep.once ih

omit [DecidableEq Worker] in
theorem once_begins (hidle : ∀ i, state.phase i = .idle) (hsent : state.sent = []) :
    Once state where
  nodup := hsent ▸ List.nodup_nil
  unique := fun i _ _ hheld => by
    rw [hidle i] at hheld
    cases hheld
  unsent := fun i _ hsending => by
    rw [hidle i] at hsending
    cases hsending
  accounted := by
    rw [hsent]
    exact nofun

end Preservation

end AtMostOnce
