import Aof.Lib.Async
import Aof.Lib.Command

/-!
# Programs that are stopped

A program that runs alone over a state may be stopped before its first operation, between two of
them, or be left to run to its end.  What holds wherever it is stopped is proved along the way in
which it is composed.
-/

namespace Async

variable {Op : Type} {Reply : Op → Type} {Shared α β : Type}

/-- The program as a command, if each operation has a reply in every state. -/
def execute (perform : (op : Op) → Shared → Reply op × Shared) :
    Async Op Reply α → Command Shared α
  | .ret value => pure value
  | .throw => .throw
  | .await op rest => fun s => execute perform (rest (perform op s).1) (perform op s).2

def Stops (perform : (op : Op) → Shared → Reply op × Shared) :
    Async Op Reply α → Shared → Shared → Prop
  | .await op rest, s, t => t = s ∨ Stops perform (rest (perform op s).1) (perform op s).2 t
  | _, s, t => t = s

def runFor (perform : (op : Op) → Shared → Reply op × Shared) :
    Async Op Reply α → Nat → Shared → Shared
  | .await op rest, count + 1, s =>
      runFor perform (rest (perform op s).1) count (perform op s).2
  | _, _, s => s

variable {perform : (op : Op) → Shared → Reply op × Shared}
variable {program : Async Op Reply α} {next : α → Async Op Reply β} {s t : Shared}

@[simp]
theorem execute_ret (value : α) :
    execute perform (.ret value : Async Op Reply α) = pure value := rfl

@[simp]
theorem execute_throw : execute perform (.throw : Async Op Reply α) = Command.throw := rfl

theorem execute_bind (program : Async Op Reply α) (next : α → Async Op Reply β) :
    execute perform (program >>= next) =
      execute perform program >>= fun value => execute perform (next value) := by
  induction program with
  | ret value => rfl
  | throw => rfl
  | await op rest ih =>
      funext s
      exact congrFun (ih (perform op s).1) (perform op s).2

theorem Stops.start (program : Async Op Reply α) (s : Shared) : Stops perform program s s := by
  cases program with
  | await op rest => exact Or.inl rfl
  | _ => rfl

theorem Stops.finish (program : Async Op Reply α) (s : Shared) :
    Stops perform program s ((execute perform program).run s).2 := by
  induction program generalizing s with
  | ret value => rfl
  | throw => rfl
  | await op rest ih => exact Or.inr (ih (perform op s).1 (perform op s).2)

theorem stops_iff : Stops perform program s t ↔ ∃ count, t = runFor perform program count s := by
  constructor
  · intro hstops
    induction program generalizing s with
    | ret value => exact ⟨0, hstops⟩
    | throw => exact ⟨0, hstops⟩
    | await op rest ih =>
        rcases hstops with rfl | hstops
        · exact ⟨0, rfl⟩
        · obtain ⟨count, hcount⟩ := ih _ hstops
          exact ⟨count + 1, hcount⟩
  · rintro ⟨count, rfl⟩
    induction program generalizing s count with
    | ret value => rfl
    | throw => rfl
    | await op rest ih =>
        cases count with
        | zero => exact Or.inl rfl
        | succ count => exact Or.inr (ih _ count)

theorem Stops.of_bind (hstops : Stops perform (program >>= next) s t) :
    Stops perform program s t ∨ ∃ value middle,
      (execute perform program).run s = (some value, middle) ∧
        Stops perform (next value) middle t := by
  induction program generalizing s with
  | ret value => exact Or.inr ⟨value, s, rfl, hstops⟩
  | throw => exact Or.inl hstops
  | await op rest ih =>
      rcases hstops with rfl | hstops
      · exact Or.inl (Or.inl rfl)
      · exact (ih (perform op s).1 hstops).imp Or.inr id

theorem Stops.bind_left (hstops : Stops perform program s t) (next : α → Async Op Reply β) :
    Stops perform (program >>= next) s t := by
  induction program generalizing s with
  | ret value =>
      obtain rfl : t = s := hstops
      exact Stops.start (next value) t
  | throw => exact hstops
  | await op rest ih =>
      rcases hstops with rfl | hstops
      · exact Or.inl rfl
      · exact Or.inr (ih (perform op s).1 hstops)

theorem Stops.bind_right {value : α} {middle : Shared}
    (hrun : (execute perform program).run s = (some value, middle))
    (hstops : Stops perform (next value) middle t) : Stops perform (program >>= next) s t := by
  induction program generalizing s with
  | ret other =>
      obtain ⟨hvalue, rfl⟩ := Prod.mk.inj hrun
      obtain rfl := Option.some.inj hvalue
      exact hstops
  | throw => cases (Prod.mk.inj hrun).1
  | await op rest ih => exact Or.inr (ih (perform op s).1 hrun)

theorem Uses.mono {property weaker : Op → Prop} (huses : program.Uses property)
    (hweaker : ∀ op, property op → weaker op) : program.Uses weaker := by
  induction program with
  | ret value => trivial
  | throw => trivial
  | await op rest ih => exact ⟨hweaker op huses.1, fun reply => ih reply (huses.2 reply)⟩

theorem Stops.related {R : Shared → Shared → Prop} {property : Op → Prop}
    (hrefl : ∀ s, R s s) (htrans : ∀ s t u, R s t → R t u → R s u)
    (hop : ∀ op s, property op → R s (perform op s).2) (huses : program.Uses property)
    (hstops : Stops perform program s t) : R s t := by
  induction program generalizing s with
  | ret value =>
      obtain rfl : t = s := hstops
      exact hrefl t
  | throw =>
      obtain rfl : t = s := hstops
      exact hrefl t
  | await op rest ih =>
      rcases hstops with rfl | hstops
      · exact hrefl t
      · exact htrans _ _ _ (hop op s huses.1) (ih (perform op s).1 (huses.2 _) hstops)

end Async
