import Aof.Lib.Sha256
import Aof.Store.FilesystemTaskStore

/-!
# Content hashes

`contentHash` of `store/task-parser.ts`, and the calls of `store/task-store.ts` and
`store/task-mutations.ts` that set it.  A file holds the body as it was given; the parser trims it.
-/

namespace Aof

/-- The first sixteen digits of the digest. -/
def contentHash (body : String) : String :=
  String.ofList ((Sha256.hexDigest body).toList.take 16)

/-- What a task file holds, or what is read from it. -/
structure HashedTask where
  document : Document
  contentHash : Option String := none

def HashedTask.parsed (task : HashedTask) : HashedTask :=
  { task with document.body := jsTrim task.document.body }

def HashedTask.created (opts : CreateOpts) (now : Nat) : HashedTask where
  document := { opts.document now with body := opts.body }
  contentHash := some (Aof.contentHash opts.body)

def HashedTask.withBody (task : HashedTask) (body : String) (now : Nat) : HashedTask where
  document := { task.document.withBody body now with body := body }
  contentHash := some (Aof.contentHash body)

/-- Only a patch with a description sets the hash. -/
def HashedTask.updated (task : HashedTask) (patch : UpdatePatch) (now : Nat) : HashedTask where
  document :=
    { task.document.updated patch now with body := patch.description.getD task.document.body }
  contentHash := (patch.description.map Aof.contentHash).or task.contentHash

abbrev HashedStore := Dict String HashedTask

namespace HashedStore

variable (store : HashedStore)

def get (id : String) : Option HashedTask := (store.get? id).map HashedTask.parsed

def updateBody (id body : String) (now : Nat) : HashedStore :=
  match get store id with
  | none => store
  | some task => store.set id (task.withBody body now)

def update (id : String) (patch : UpdatePatch) (now : Nat) : HashedStore :=
  match get store id with
  | none => store
  | some task =>
      if task.document.status = .done then store else store.set id (task.updated patch now)

end HashedStore

/-- A call; a created task gets an id that is not in use. -/
inductive BodyCall where
  | create (id : String) (opts : CreateOpts) (now : Nat)
  | updateBody (id body : String) (now : Nat)
  | update (id : String) (patch : UpdatePatch) (now : Nat)

/-- A call that throws leaves the files as they are. -/
def bodyStep (store : HashedStore) : BodyCall → Option HashedStore
  | .create id opts now =>
      if store.has id then none else some (store.set id (.created opts now))
  | .updateBody id body now => some (store.updateBody id body now)
  | .update id patch now => some (store.update id patch now)

end Aof

/-!
## The hash of the stored body

The writers hash the body that they were given, and a reader gets the trimmed one.  The two agree
after every call just as long as trimming changes the hash of no body that is written.
-/

namespace Aof

open StepSystem

def HashedStore.Match (store : HashedStore) : Prop :=
  ∀ id task, store.get id = some task → task.contentHash = some (contentHash task.document.body)

def BodyCall.body (store : HashedStore) : BodyCall → Option String
  | .create _ opts _ => some opts.body
  | .updateBody id body _ => (store.get id).map fun _ => body
  | .update id patch _ =>
      ((store.get id).filter fun task => task.document.status ≠ .done).bind fun _ =>
        patch.description

def HashKept (store : HashedStore) (call : BodyCall) : Prop :=
  ∀ body ∈ call.body store, contentHash body = contentHash (jsTrim body)

section Steps

variable {store next : HashedStore} {call : BodyCall}

theorem match_set (hmatch : store.Match) (id : String) (task : HashedTask) :
    HashedStore.Match (store.set id task) ↔
      task.contentHash = some (contentHash (jsTrim task.document.body)) := by
  constructor
  · intro hall
    apply hall id task.parsed
    rw [HashedStore.get, Dict.get?_set_self]
    rfl
  · intro htask other read hread
    rw [HashedStore.get, Dict.get?_set] at hread
    split at hread
    · obtain rfl := Option.some.inj hread
      exact htask
    · exact hmatch other read hread

theorem some_hash_iff (body : String) : some (contentHash body) = some (contentHash (jsTrim body)) ↔
      ∀ given ∈ some body, contentHash given = contentHash (jsTrim given) := by
  rw [Option.some.injEq]
  constructor
  · rintro hkept given hgiven
    obtain rfl := Option.some.inj hgiven
    exact hkept
  · exact fun hall => hall body rfl

theorem match_step (hmatch : store.Match) (hstep : bodyStep store call = some next) :
    next.Match ↔ HashKept store call := by
  cases call with
  | create id opts now =>
      rw [bodyStep, Option.ite_none_left_eq_some] at hstep
      obtain rfl := Option.some.inj hstep.2
      exact (match_set hmatch id _).trans (some_hash_iff opts.body)
  | updateBody id body now =>
      obtain rfl := Option.some.inj hstep
      rw [HashedStore.updateBody, HashKept, BodyCall.body]
      cases store.get id with
      | none => exact iff_of_true hmatch fun _ hbody => by cases hbody
      | some task => exact (match_set hmatch id _).trans (some_hash_iff body)
  | update id patch now =>
      obtain rfl := Option.some.inj hstep
      rw [HashedStore.update, HashKept, BodyCall.body]
      cases hget : store.get id with
      | none => exact iff_of_true hmatch fun _ hbody => by cases hbody
      | some task =>
          rw [Option.filter_some]
          by_cases hdone : task.document.status = .done
          · simp only [hdone, ↓reduceIte, ne_eq, not_true_eq_false, decide_false,
              Bool.false_eq_true, Option.bind_none]
            exact iff_of_true hmatch fun _ hbody => by cases hbody
          · simp only [hdone, ↓reduceIte, ne_eq, not_false_eq_true, decide_true, Option.bind_some]
            apply (match_set hmatch id _).trans
            cases hdescription : patch.description with
            | none =>
                apply iff_of_true _ fun _ hbody => by cases hbody
                obtain ⟨file, -, rfl⟩ := Option.map_eq_some_iff.mp hget
                simp only [HashedTask.updated, hdescription, Option.map_none, Option.none_or,
                  Option.getD_none]
                rw [hmatch id _ hget, HashedTask.parsed, jsTrim_jsTrim]
            | some description =>
                simp only [HashedTask.updated, hdescription]
                exact some_hash_iff description

end Steps

/-- The hash that is read is the one of the body after each of the calls, just if each of them keeps
the hash of the body that it writes when it is trimmed. -/
theorem hashes_match_iff {calls : List BodyCall} {store : HashedStore} :
    Run bodyStep HashKept .empty calls store ↔ FreeRun bodyStep .empty calls store ∧
        ∀ before after (middle : HashedStore), calls = before ++ after →
          FreeRun bodyStep .empty before middle → middle.Match := by
  apply run_iff_invariant fun _ _ _ => match_step
  intro id task hget
  cases hget

def lineOpts : CreateOpts := { title := ⟨"Report", by decide⟩, body := "x\n" }

theorem hash_of_untrimmed_body : ∃ calls store,
    FreeRun bodyStep .empty calls store ∧ ¬ HashedStore.Match store := by
  refine ⟨[.create "T" lineOpts 0], _, freeRun_iff_exec.mpr rfl, ?_⟩
  intro hmatch
  have hcreated := hmatch "T" (HashedTask.created lineOpts 0).parsed rfl
  exact absurd (Option.some.inj hcreated) (by decide +kernel)

end Aof
