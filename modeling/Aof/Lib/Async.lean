import Aof.Lib.Run

/-!
# Asynchronous programs

A program performs operations one at a time and waits for the reply of each.  Several programs run
over one shared state; a turn performs the next operation of one of them, and in between the others
may take any number of turns.  What holds of a program whatever the others do is proved from what it
relies on: a relation that every turn of another program keeps.
-/

/-- A program that waits for the reply to each of its operations. -/
inductive Async (Op : Type) (Reply : Op → Type) (α : Type) where
  | ret (value : α)
  | throw
  | await (op : Op) (next : Reply op → Async Op Reply α)

namespace Async

variable {Op : Type} {Reply : Op → Type} {α β : Type}

def perform (op : Op) : Async Op Reply (Reply op) := .await op .ret

def bind : Async Op Reply α → (α → Async Op Reply β) → Async Op Reply β
  | .ret value, next => next value
  | .throw, _ => .throw
  | .await op rest, next => .await op fun reply => (rest reply).bind next

instance : Monad (Async Op Reply) where
  pure := .ret
  bind := bind

/-- `try { … } catch { … }`: the throw becomes a value. -/
def attempt : Async Op Reply α → Async Op Reply (Option α)
  | .ret value => .ret (some value)
  | .throw => .ret none
  | .await op rest => .await op fun reply => (rest reply).attempt

def settled : Async Op Reply α → Bool
  | .await .. => false
  | _ => true

@[simp]
theorem pure_eq (value : α) : (Pure.pure value : Async Op Reply α) = .ret value := rfl

@[simp]
theorem ret_bind (value : α) (next : α → Async Op Reply β) :
    ((.ret value : Async Op Reply α) >>= next) = next value := rfl

@[simp]
theorem throw_bind (next : α → Async Op Reply β) :
    ((.throw : Async Op Reply α) >>= next) = .throw := rfl

@[simp]
theorem await_bind (op : Op) (rest : Reply op → Async Op Reply α) (next : α → Async Op Reply β) :
    (Async.await op rest >>= next) = .await op fun reply => rest reply >>= next := rfl

theorem bind_ret (program : Async Op Reply α) :
    (program >>= fun value => .ret value) = program := by
  induction program with
  | ret value => rfl
  | throw => rfl
  | await op rest ih =>
      rw [await_bind]
      congr 1
      funext reply
      exact ih reply

theorem bind_assoc {γ : Type} (program : Async Op Reply α) (next : α → Async Op Reply β)
    (last : β → Async Op Reply γ) :
    ((program >>= next) >>= last) = program >>= fun value => next value >>= last := by
  induction program with
  | ret value => rfl
  | throw => rfl
  | await op rest ih =>
      rw [await_bind, await_bind, await_bind]
      congr 1
      funext reply
      exact ih reply

theorem attempt_bind (program : Async Op Reply α) (next : α → Async Op Reply β) :
    (program >>= next).attempt = program.attempt >>= fun result =>
      result.elim (.ret none) fun value => (next value).attempt := by
  induction program with
  | ret value => rfl
  | throw => rfl
  | await op rest ih =>
      rw [await_bind, attempt, attempt, await_bind]
      congr 1
      funext reply
      exact ih reply

variable {Shared Answer : Type}

/-- The value and the state that a program ends with, if it neither throws nor waits for ever. -/
def alone (perform : (op : Op) → Shared → Option (Reply op × Shared)) :
    Async Op Reply α → Shared → Option (α × Shared)
  | .ret value, s => some (value, s)
  | .throw, _ => none
  | .await op rest, s => (perform op s).bind fun result => (rest result.1).alone perform result.2

section Alone

variable {perform : (op : Op) → Shared → Option (Reply op × Shared)}

@[simp]
theorem alone_ret (value : α) (s : Shared) :
    (.ret value : Async Op Reply α).alone perform s = some (value, s) := rfl

@[simp]
theorem alone_throw (s : Shared) : (.throw : Async Op Reply α).alone perform s = none := rfl

@[simp]
theorem alone_perform (op : Op) (s : Shared) :
    (Async.perform op : Async Op Reply (Reply op)).alone perform s = perform op s := by
  cases hperform : perform op s <;> simp [Async.perform, alone, hperform]

theorem alone_bind (program : Async Op Reply α) (next : α → Async Op Reply β) (s : Shared) :
    (program >>= next).alone perform s =
      (program.alone perform s).bind fun result => (next result.1).alone perform result.2 := by
  induction program generalizing s with
  | ret value => rfl
  | throw => rfl
  | await op rest ih =>
      simp only [await_bind, alone, Option.bind_assoc]
      congr 1
      funext result
      exact ih result.1 result.2

variable {program : Async Op Reply α} {s t : Shared} {value : α}

theorem alone_attempt (halone : program.alone perform s = some (value, t)) :
    program.attempt.alone perform s = some (some value, t) := by
  induction program generalizing s with
  | ret other =>
      obtain ⟨rfl, rfl⟩ := Prod.mk.inj (Option.some.inj halone)
      rfl
  | throw => cases halone
  | await op rest ih =>
      obtain ⟨result, hperform, hrest⟩ := Option.bind_eq_some_iff.mp halone
      simp only [attempt, alone, hperform, Option.bind_some]
      exact ih result.1 hrest

theorem alone_attempt_bind (halone : program.alone perform s = some (value, t))
    (next : α → Async Op Reply β) :
    (program >>= next).attempt.alone perform s = (next value).attempt.alone perform t := by
  induction program generalizing s with
  | ret other =>
      obtain ⟨rfl, rfl⟩ := Prod.mk.inj (Option.some.inj halone)
      rfl
  | throw => cases halone
  | await op rest ih =>
      obtain ⟨result, hperform, hrest⟩ := Option.bind_eq_some_iff.mp halone
      simp only [await_bind, attempt, alone, hperform, Option.bind_some]
      exact ih result.1 hrest

theorem alone_attempt_ne (halone : program.alone perform s = none) :
    program.attempt.alone perform s ≠ some (some value, t) := by
  induction program generalizing s with
  | ret other => cases halone
  | throw => exact nofun
  | await op rest ih =>
      intro hattempt
      simp only [attempt, alone] at hattempt
      obtain ⟨result, hperform, hrest⟩ := Option.bind_eq_some_iff.mp hattempt
      rw [alone, hperform, Option.bind_some] at halone
      exact ih result.1 halone hrest

end Alone

structure Pool (Op : Type) (Reply : Op → Type) (Shared : Type) where
  shared : Shared
  programs : List (Async Op Reply Unit)

structure Turn (Answer : Type) where
  index : Nat
  answer : Answer
  deriving DecidableEq, Repr

def step (perform : Nat → Answer → (op : Op) → Shared → Option (Reply op × Shared))
    (pool : Pool Op Reply Shared) (turn : Turn Answer) : Option (Pool Op Reply Shared) :=
  match pool.programs[turn.index]? with
  | some (.await op rest) => do
      let (reply, shared) ← perform turn.index turn.answer op pool.shared
      some ⟨shared, pool.programs.set turn.index (rest reply)⟩
  | _ => none

/-- The guard of a turn, read off the operation that the program waits to perform. -/
def Guarded (allowed : Nat → Answer → Op → Shared → Prop) (pool : Pool Op Reply Shared)
    (turn : Turn Answer) : Prop :=
  ∀ op rest, pool.programs[turn.index]? = some (.await op rest) →
    allowed turn.index turn.answer op pool.shared

def Pool.tested (test : Nat → Answer → Op → Shared → Bool) (pool : Pool Op Reply Shared)
    (turn : Turn Answer) : Bool :=
  match pool.programs[turn.index]? with
  | some (.await op _) => test turn.index turn.answer op pool.shared
  | _ => true

variable {allowed : Nat → Answer → Op → Shared → Prop} {pool next : Pool Op Reply Shared}
  {turn : Turn Answer}

theorem guarded_of_tested {test : Nat → Answer → Op → Shared → Bool}
    (htest : ∀ index answer op s, test index answer op s = true → allowed index answer op s)
    (htested : pool.tested test turn = true) : Guarded allowed pool turn := by
  intro op rest hprogram
  apply htest
  simpa only [Pool.tested, hprogram] using htested

abbrev Runs (perform : Nat → Answer → (op : Op) → Shared → Option (Reply op × Shared))
    (allowed : Nat → Answer → Op → Shared → Prop) :
    Pool Op Reply Shared → List (Turn Answer) → Pool Op Reply Shared → Prop :=
  StepSystem.Run (step perform) (Guarded allowed)

def Pool.Settled (pool : Pool Op Reply Shared) : Prop :=
  ∀ program ∈ pool.programs, program.settled = true

theorem step_eq_some {perform : Nat → Answer → (op : Op) → Shared → Option (Reply op × Shared)} :
    step perform pool turn = some next ↔
      ∃ op rest reply shared, pool.programs[turn.index]? = some (.await op rest) ∧
        perform turn.index turn.answer op pool.shared = some (reply, shared) ∧
        next = ⟨shared, pool.programs.set turn.index (rest reply)⟩ := by
  constructor
  · intro hstep
    unfold step at hstep
    split at hstep
    · rename_i op rest hprogram
      simp only [Option.bind_eq_bind, Option.bind_eq_some_iff, Option.some.injEq,
        Prod.exists] at hstep
      obtain ⟨reply, shared, hperform, rfl⟩ := hstep
      exact ⟨op, rest, reply, shared, hprogram, hperform, rfl⟩
    · cases hstep
  · rintro ⟨op, rest, reply, shared, hprogram, hperform, rfl⟩
    simp [step, hprogram, hperform]

theorem length_programs_of_step
    {perform : Nat → Answer → (op : Op) → Shared → Option (Reply op × Shared)}
    (hstep : step perform pool turn = some next) : next.programs.length = pool.programs.length := by
  obtain ⟨op, rest, reply, shared, -, -, rfl⟩ := step_eq_some.mp hstep
  exact List.length_set

theorem Runs.length_programs
    {perform : Nat → Answer → (op : Op) → Shared → Option (Reply op × Shared)}
    {last : Pool Op Reply Shared} {turns : List (Turn Answer)}
    (hrun : Runs perform allowed pool turns last) : last.programs.length = pool.programs.length :=
  hrun.invariant (fun s => s.programs.length = pool.programs.length)
    (fun _ _ _ hlength _ hstep => (length_programs_of_step hstep).trans hlength) rfl

/-- Whatever the replies are, each operation of the program has the property. -/
def Uses (property : Op → Prop) : Async Op Reply α → Prop
  | .await op rest => property op ∧ ∀ reply, (rest reply).Uses property
  | _ => True

def Pool.Uses (pool : Pool Op Reply Shared) (chosen : Nat → Prop) (property : Op → Prop) : Prop :=
  ∀ (index : Nat) (program : Async Op Reply Unit), chosen index →
    pool.programs[index]? = some program → program.Uses property

section Uses

variable {property : Op → Prop} {chosen : Nat → Prop}
variable {perform : Nat → Answer → (op : Op) → Shared → Option (Reply op × Shared)}
variable {allowed : Nat → Answer → Op → Shared → Prop}
variable {pool next last : Pool Op Reply Shared} {turn : Turn Answer} {turns : List (Turn Answer)}

theorem uses_perform {op : Op} (hop : property op) :
    (Async.perform op : Async Op Reply (Reply op)).Uses property :=
  ⟨hop, fun _ => trivial⟩

theorem Uses.bind {program : Async Op Reply α} {next : α → Async Op Reply β}
    (hprogram : program.Uses property) (hnext : ∀ value, (next value).Uses property) :
    (program >>= next).Uses property := by
  induction program with
  | ret value => exact hnext value
  | throw => trivial
  | await op rest ih => exact ⟨hprogram.1, fun reply => ih reply (hprogram.2 reply)⟩

theorem Uses.attempt {program : Async Op Reply α} (hprogram : program.Uses property) :
    program.attempt.Uses property := by
  induction program with
  | ret value => trivial
  | throw => trivial
  | await op rest ih => exact ⟨hprogram.1, fun reply => ih reply (hprogram.2 reply)⟩

theorem Pool.Uses.step (huses : pool.Uses chosen property)
    (hstep : Async.step perform pool turn = some next) : next.Uses chosen property := by
  obtain ⟨op, rest, reply, shared, hprogram, -, rfl⟩ := step_eq_some.mp hstep
  intro index program hchosen hindex
  by_cases heq : turn.index = index
  · subst heq
    have hlt : turn.index < pool.programs.length := (List.getElem?_eq_some_iff.mp hprogram).1
    rw [List.getElem?_set_self hlt, Option.some.injEq] at hindex
    exact hindex ▸ (huses _ _ hchosen hprogram).2 reply
  · rw [List.getElem?_set_ne heq] at hindex
    exact huses index program hchosen hindex

theorem Runs.uses (hrun : Runs perform allowed pool turns last)
    (huses : pool.Uses chosen property) : last.Uses chosen property :=
  hrun.invariant (fun s => s.Uses chosen property)
    (fun _ _ _ hholds _ hstep => hholds.step hstep) huses

/-- What each operation of the chosen programs keeps is kept while only they take turns. -/
theorem Runs.related {related : Shared → Shared → Prop} (hrefl : ∀ s, related s s)
    (htrans : ∀ s t u, related s t → related t u → related s u)
    (hop : ∀ index answer op s reply t, chosen index → property op → allowed index answer op s →
      perform index answer op s = some (reply, t) → related s t)
    (hrun : Runs perform allowed pool turns last) (huses : pool.Uses chosen property)
    (hturns : ∀ turn ∈ turns, chosen turn.index) : related pool.shared last.shared := by
  induction hrun with
  | refl => exact hrefl _
  | @snoc middle after turns turn hbefore hguard hstep ih =>
      have hchosen : chosen turn.index := hturns turn (List.mem_concat_self)
      have hmiddle := Runs.uses hbefore huses
      obtain ⟨op, rest, reply, shared, hprogram, hperform, rfl⟩ := step_eq_some.mp hstep
      apply htrans _ middle.shared
      · apply ih
        exact fun turn hmem => hturns turn (List.mem_append_left _ hmem)
      · apply hop _ _ _ _ _ _ hchosen (hmiddle _ _ hchosen hprogram).1 _ hperform
        exact hguard op rest hprogram

end Uses

section Ghost

variable {Ghost : Type}
variable {perform : Nat → Answer → (op : Op) → Shared → Option (Reply op × Shared)}
variable {allowed : Nat → Answer → Op → Shared → Prop}

/-- The operations together with a state that follows them and that no program sees. -/
def withGhost (perform : Nat → Answer → (op : Op) → Shared → Option (Reply op × Shared))
    (update : Nat → Answer → Op → Shared → Ghost → Ghost) (index : Nat) (answer : Answer) (op : Op)
    (s : Shared × Ghost) : Option (Reply op × (Shared × Ghost)) :=
  (perform index answer op s.1).map fun result =>
    (result.1, result.2, update index answer op s.1 s.2)

theorem withGhost_eq_some {update : Nat → Answer → Op → Shared → Ghost → Ghost} {index : Nat}
    {answer : Answer} {op : Op} {s t : Shared × Ghost} {reply : Reply op} :
    withGhost perform update index answer op s = some (reply, t) ↔
      perform index answer op s.1 = some (reply, t.1) ∧ t.2 = update index answer op s.1 s.2 := by
  simp only [withGhost, Option.map_eq_some_iff]
  constructor
  · rintro ⟨result, hperform, hresult⟩
    obtain ⟨rfl, rfl⟩ := Prod.mk.inj hresult
    exact ⟨hperform, rfl⟩
  · rintro ⟨hperform, hghost⟩
    exact ⟨_, hperform, by rw [← hghost]⟩

/-- Every run can be followed by an auxiliary state. -/
theorem Runs.withGhost (update : Nat → Answer → Op → Shared → Ghost → Ghost) (ghost : Ghost)
    {pool last : Pool Op Reply Shared} {turns : List (Turn Answer)}
    (hrun : Runs perform allowed pool turns last) :
    ∃ followed, Runs (Async.withGhost perform update)
      (fun index answer op s => allowed index answer op s.1) ⟨(pool.shared, ghost), pool.programs⟩
      turns ⟨(last.shared, followed), last.programs⟩ := by
  induction hrun with
  | refl => exact ⟨ghost, .refl _⟩
  | @snoc before after turns turn _ hguard hstep ih =>
      obtain ⟨followed, hfollows⟩ := ih
      obtain ⟨op, rest, reply, shared, hprogram, hperform, rfl⟩ := step_eq_some.mp hstep
      refine ⟨update turn.index turn.answer op before.shared followed, hfollows.snoc ?_ ?_⟩
      · exact fun op rest hprogram => hguard op rest hprogram
      · apply step_eq_some.mpr
        exact ⟨op, rest, reply, _, hprogram, withGhost_eq_some.mpr ⟨hperform, rfl⟩, rfl⟩

end Ghost

end Async

/-- What the operations do when a given program performs them, under which guard a turn is taken,
and what a program may assume: an invariant of the shared state, and a relation that holds between
the states before and after the turns of the others. -/
structure Interference (Op : Type) (Reply : Op → Type) (Shared Answer : Type) where
  perform : Nat → Answer → (op : Op) → Shared → Option (Reply op × Shared)
  allowed : Nat → Answer → Op → Shared → Prop
  inv : Shared → Prop
  rely : Nat → Shared → Shared → Prop
  rely_refl : ∀ index s, rely index s s
  rely_trans : ∀ index s t u, rely index s t → rely index t u → rely index s u

namespace Interference

open Async (Pool Turn Runs Guarded step_eq_some)

variable {Op : Type} {Reply : Op → Type} {Shared Answer α β : Type}
variable (env : Interference Op Reply Shared Answer) (index : Nat)

/-- The program at an index keeps the invariant and the assumptions of the others, and its outcome
is as described. -/
def Safe (outcome : Option α → Shared → Prop) : Async Op Reply α → Shared → Prop
  | .ret value, s => ∀ t, env.rely index s t → env.inv t → outcome (some value) t
  | .throw, s => ∀ t, env.rely index s t → env.inv t → outcome none t
  | .await op rest, s => ∀ t, env.rely index s t → env.inv t →
      ∀ answer reply u, env.allowed index answer op t →
        env.perform index answer op t = some (reply, u) →
        (env.inv u ∧ ∀ other, other ≠ index → env.rely other t u) ∧ Safe outcome (rest reply) u

section Rules

variable {env index} {outcome : Option α → Shared → Prop} {s t : Shared}

variable {program : Async Op Reply α}

theorem Safe.stable (hsafe : env.Safe index outcome program s) (hrely : env.rely index s t) :
    env.Safe index outcome program t := by
  cases program with
  | ret value => exact fun u hu => hsafe u (env.rely_trans index s t u hrely hu)
  | throw => exact fun u hu => hsafe u (env.rely_trans index s t u hrely hu)
  | await op rest => exact fun u hu => hsafe u (env.rely_trans index s t u hrely hu)

theorem Safe.mono {weaker : Option α → Shared → Prop} (hsafe : env.Safe index outcome program s)
    (hweaker : ∀ result t, env.inv t → outcome result t → weaker result t) :
    env.Safe index weaker program s := by
  induction program generalizing s with
  | ret value => exact fun t hrely hinv => hweaker _ _ hinv (hsafe t hrely hinv)
  | throw => exact fun t hrely hinv => hweaker _ _ hinv (hsafe t hrely hinv)
  | await op rest ih =>
      intro t hrely hinv answer reply u hallowed hperform
      obtain ⟨hkeeps, hrest⟩ := hsafe t hrely hinv answer reply u hallowed hperform
      exact ⟨hkeeps, ih reply hrest⟩

theorem Safe.of_rely
    (hsafe : ∀ t, env.rely index s t → env.inv t → env.Safe index outcome program t) :
    env.Safe index outcome program s := by
  cases program with
  | ret value => exact fun t hrely hinv => hsafe t hrely hinv t (env.rely_refl index t) hinv
  | throw => exact fun t hrely hinv => hsafe t hrely hinv t (env.rely_refl index t) hinv
  | await op rest => exact fun t hrely hinv => hsafe t hrely hinv t (env.rely_refl index t) hinv

end Rules

def Stable (property : Shared → Prop) : Prop :=
  ∀ s t, env.rely index s t → env.inv t → property s → property t

def Keeps (s t : Shared) : Prop :=
  env.inv t ∧ ∀ other, other ≠ index → env.rely other s t

/-- From a state with the first property the program is safe, and it returns with the second property
or throws with the third. -/
def Triple (pre : Shared → Prop) (program : Async Op Reply α) (post : α → Shared → Prop)
    (thrown : Shared → Prop) : Prop :=
  ∀ s, env.inv s → pre s →
    env.Safe index (fun result t => result.elim (thrown t) fun value => post value t) program s

section TripleRules

variable {env index} {pre pre' thrown thrown' : Shared → Prop} {post post' : α → Shared → Prop}
variable {program : Async Op Reply α}

theorem Stable.and {p q : Shared → Prop} (hp : env.Stable index p) (hq : env.Stable index q) :
    env.Stable index fun s => p s ∧ q s :=
  fun s t hrely hinv h => ⟨hp s t hrely hinv h.1, hq s t hrely hinv h.2⟩

theorem stable_const (p : Prop) : env.Stable index fun _ => p := fun _ _ _ _ h => h

theorem Triple.ret {value : α} (hpre : env.Stable index pre)
    (hpost : ∀ s, env.inv s → pre s → post value s) :
    env.Triple index pre (.ret value) post thrown :=
  fun s _ hs t hrely hinv => hpost t hinv (hpre s t hrely hinv hs)

theorem Triple.throw (hpre : env.Stable index pre) (hthrown : ∀ s, env.inv s → pre s → thrown s) :
    env.Triple index pre (.throw : Async Op Reply α) post thrown :=
  fun s _ hs t hrely hinv => hthrown t hinv (hpre s t hrely hinv hs)

theorem Triple.perform {op : Op} {post : Reply op → Shared → Prop} (hpre : env.Stable index pre)
    (hpost : ∀ reply, env.Stable index (post reply))
    (hstep : ∀ s answer reply t, env.inv s → pre s → env.allowed index answer op s →
      env.perform index answer op s = some (reply, t) → env.Keeps index s t ∧ post reply t) :
    env.Triple index pre (Async.perform op) post thrown := by
  intro s _ hs t hrely hinv answer reply u hallowed hperform
  obtain ⟨hkeeps, hreply⟩ := hstep t answer reply u hinv (hpre s t hrely hinv hs) hallowed hperform
  exact ⟨hkeeps, fun v hv hinv => hpost reply u v hv hinv hreply⟩

section

variable (htriple : env.Triple index pre program post thrown)
  (hpre : ∀ s, env.inv s → pre' s → pre s)
include htriple hpre

theorem Triple.conseq (hpost : ∀ value s, env.inv s → post value s → post' value s)
    (hthrown : ∀ s, env.inv s → thrown s → thrown' s) :
    env.Triple index pre' program post' thrown' := by
  intro s hinv hs
  refine (htriple s hinv (hpre s hinv hs)).mono fun result t hinv h => ?_
  cases result with
  | none => exact hthrown t hinv h
  | some value => exact hpost value t hinv h

theorem Triple.weaken : env.Triple index pre' program post thrown :=
  htriple.conseq hpre (fun _ _ _ h => h) fun _ _ h => h

end

theorem Triple.assume {fact : Prop} (htriple : fact → env.Triple index pre program post thrown) :
    env.Triple index (fun s => fact ∧ pre s) program post thrown :=
  fun s hinv hs => htriple hs.1 s hinv hs.2

theorem Triple.bind {next : α → Async Op Reply β} {last : β → Shared → Prop}
    (hprogram : env.Triple index pre program post thrown)
    (hnext : ∀ value, env.Triple index (post value) (next value) last thrown) :
    env.Triple index pre (program >>= next) last thrown := by
  intro s hinv hs
  have hsafe := hprogram s hinv hs
  clear hs hinv hprogram
  induction program generalizing s with
  | ret value =>
      apply Safe.of_rely
      intro t hrely hinv
      exact hnext value t hinv (hsafe t hrely hinv)
  | throw => exact hsafe
  | await op rest ih =>
      intro t hrely hinv answer reply u hallowed hperform
      obtain ⟨hkeeps, hrest⟩ := hsafe t hrely hinv answer reply u hallowed hperform
      exact ⟨hkeeps, ih reply u hrest⟩

theorem Triple.attempt {post : Option α → Shared → Prop}
    (hprogram : env.Triple index pre program (fun value => post (some value)) (post none)) :
    env.Triple index pre program.attempt post thrown := by
  intro s hinv hs
  have hsafe := hprogram s hinv hs
  clear hs hinv hprogram
  induction program generalizing s with
  | ret value => exact hsafe
  | throw => exact hsafe
  | await op rest ih =>
      intro t hrely hinv answer reply u hallowed hperform
      obtain ⟨hkeeps, hrest⟩ := hsafe t hrely hinv answer reply u hallowed hperform
      exact ⟨hkeeps, ih reply u hrest⟩

end TripleRules

/-- The invariant holds, and every program is safe from where it waits. -/
structure SafePool (outcome : Nat → Option Unit → Shared → Prop) (pool : Pool Op Reply Shared) :
    Prop where
  inv : env.inv pool.shared
  programs : ∀ (index : Nat) (program : Async Op Reply Unit), pool.programs[index]? = some program →
    env.Safe index (outcome index) program pool.shared

section Pools

variable {pool next : Pool Op Reply Shared} {turn : Turn Answer}
variable {env} {outcome : Nat → Option Unit → Shared → Prop}

variable (hsafe : env.SafePool outcome pool)
include hsafe

theorem SafePool.step (hallowed : Guarded env.allowed pool turn)
    (hstep : Async.step env.perform pool turn = some next) : env.SafePool outcome next := by
  obtain ⟨op, rest, reply, shared, hprogram, hperform, rfl⟩ := step_eq_some.mp hstep
  obtain ⟨⟨hinv, hothers⟩, hrest⟩ := hsafe.programs _ _ hprogram pool.shared
    (env.rely_refl _ _) hsafe.inv turn.answer reply shared (hallowed op rest hprogram) hperform
  refine ⟨hinv, fun index program hindex => ?_⟩
  by_cases heq : turn.index = index
  · subst heq
    have hlt : turn.index < pool.programs.length := (List.getElem?_eq_some_iff.mp hprogram).1
    rw [List.getElem?_set_self hlt, Option.some.injEq] at hindex
    exact hindex ▸ hrest
  · rw [List.getElem?_set_ne heq] at hindex
    exact (hsafe.programs index program hindex).stable (hothers index (Ne.symm heq))

theorem SafePool.run {turns : List (Turn Answer)}
    (hrun : Runs env.perform env.allowed pool turns next) : env.SafePool outcome next :=
  hrun.invariant (env.SafePool outcome)
    (fun _ _ _ hholds hallowed hstep => hholds.step hallowed hstep) hsafe

theorem SafePool.outcome_of_ret {index : Nat} (hret : pool.programs[index]? = some (.ret ())) :
    outcome index (some ()) pool.shared :=
  hsafe.programs index _ hret pool.shared (env.rely_refl _ _) hsafe.inv

theorem SafePool.outcome_of_throw {index : Nat} (hthrow : pool.programs[index]? = some .throw) :
    outcome index none pool.shared :=
  hsafe.programs index _ hthrow pool.shared (env.rely_refl _ _) hsafe.inv

end Pools

end Interference
