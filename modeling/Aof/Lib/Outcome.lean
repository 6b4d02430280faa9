import Aof.Lib.Async

/-!
# How a program that runs alone ends

A program returns or throws, and either way it leaves a state.  The rules follow the program's
structure, and say of both ends what holds there.
-/

namespace Async

variable {Op : Type} {Reply : Op → Type} {Shared α β : Type}

/-- From a state with the first property the program returns with the second one, or throws with the
third. -/
def Outcome (perform : (op : Op) → Shared → Option (Reply op × Shared)) (pre : Shared → Prop)
    (program : Async Op Reply α) (post : α → Shared → Prop) (thrown : Shared → Prop) : Prop :=
  ∀ s, pre s → ∃ result t, program.attempt.alone perform s = some (result, t) ∧
    result.elim (thrown t) fun value => post value t

section Rules

variable {perform : (op : Op) → Shared → Option (Reply op × Shared)}
variable {pre pre' thrown thrown' : Shared → Prop} {post post' : α → Shared → Prop}
variable {program : Async Op Reply α}

theorem Outcome.ret {value : α} (hpost : ∀ s, pre s → post value s) :
    Outcome perform pre (.ret value) post thrown :=
  fun s hs => ⟨some value, s, rfl, hpost s hs⟩

theorem Outcome.throw (hthrown : ∀ s, pre s → thrown s) :
    Outcome perform pre (.throw : Async Op Reply α) post thrown :=
  fun s hs => ⟨none, s, rfl, hthrown s hs⟩

theorem Outcome.performs {op : Op} {post : Reply op → Shared → Prop}
    (hstep : ∀ s, pre s → ∃ reply t, perform op s = some (reply, t) ∧ post reply t) :
    Outcome perform pre (Async.perform op) post thrown := by
  intro s hs
  obtain ⟨reply, t, hperform, hreply⟩ := hstep s hs
  refine ⟨some reply, t, Async.alone_attempt ?_, hreply⟩
  rw [Async.alone_perform, hperform]

theorem Outcome.conseq (houtcome : Outcome perform pre program post thrown)
    (hpre : ∀ s, pre' s → pre s) (hpost : ∀ value s, post value s → post' value s)
    (hthrown : ∀ s, thrown s → thrown' s) : Outcome perform pre' program post' thrown' := by
  intro s hs
  obtain ⟨result, t, halone, hresult⟩ := houtcome s (hpre s hs)
  refine ⟨result, t, halone, ?_⟩
  cases result with
  | none => exact hthrown t hresult
  | some value => exact hpost value t hresult

theorem Outcome.weaken (houtcome : Outcome perform pre program post thrown)
    (hpre : ∀ s, pre' s → pre s) : Outcome perform pre' program post thrown :=
  houtcome.conseq hpre (fun _ _ h => h) fun _ h => h

theorem Outcome.assume {fact : Prop} (houtcome : fact → Outcome perform pre program post thrown) :
    Outcome perform (fun s => pre s ∧ fact) program post thrown :=
  fun s hs => houtcome hs.2 s hs.1

theorem Outcome.bind {next : α → Async Op Reply β} {last : β → Shared → Prop}
    (hprogram : Outcome perform pre program post thrown)
    (hnext : ∀ value, Outcome perform (post value) (next value) last thrown) :
    Outcome perform pre (program >>= next) last thrown := by
  intro s hs
  obtain ⟨result, t, halone, hresult⟩ := hprogram s hs
  rw [attempt_bind, alone_bind, halone, Option.bind_some]
  cases result with
  | none => exact ⟨none, t, rfl, hresult⟩
  | some value => exact hnext value t hresult

theorem Outcome.attempt {post : Option α → Shared → Prop}
    (hprogram : Outcome perform pre program (fun value => post (some value)) (post none)) :
    Outcome perform pre program.attempt post thrown := by
  intro s hs
  obtain ⟨result, t, halone, hresult⟩ := hprogram s hs
  refine ⟨some result, t, Async.alone_attempt halone, ?_⟩
  cases result <;> exact hresult

end Rules

end Async
