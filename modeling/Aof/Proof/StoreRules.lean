import Aof.Store.FilesystemTaskStore

/-!
# Rules for the calls of the store

What holds of the pieces that the calls of the store are made of, whatever the other calls do, given
what one operation does.
-/

namespace Aof

open Interference

/-- An interference of calls on one task, over a state that may hold more than its files. -/
abbrev TaskEnvOn (Shared : Type) := Interference TaskOp TaskReply Shared OsAnswer

abbrev TaskEnv := TaskEnvOn TaskFiles

section Rules

variable {Shared : Type} {env : TaskEnvOn Shared} {index : Nat} {thrown : Shared → Prop}

theorem triple_removeStale {removing : List Match → Shared → Prop}
    (hremoving : ∀ stale, env.Stable index (removing stale))
    (hrm : ∀ stale others, env.Triple index (removing (stale :: others))
      (TaskProgram.rm stale.task.path) (fun _ => removing others) thrown) (stale : List Match) :
    env.Triple index (removing stale) (removeStale stale) (fun _ => removing []) thrown := by
  induction stale with
  | nil => exact Triple.ret (hremoving []) fun _ _ h => h
  | cons stale others ih =>
      apply (hrm stale others).bind
      intro _
      exact ih

section

variable {searching : List TaskStatus → List Match → Shared → Prop}
  {reading : TaskStatus → Document → List TaskStatus → List Match → Shared → Prop}
  (hsearching : ∀ dirs found, env.Stable index (searching dirs found))
  (hread : ∀ dir dirs found, env.Triple index (searching (dir :: dirs) found)
    (TaskProgram.readFile dir) (fun reply s =>
      reply.elim (searching dirs found s) fun document => reading dir document dirs found s) thrown)
  (hstat : ∀ dir document dirs found, env.Triple index (reading dir document dirs found)
    (TaskProgram.stat dir) (fun reply =>
      searching dirs (found ++ [⟨⟨document, dir⟩, reply.getD 0⟩])) thrown)
include hsearching hread hstat

/-- The search of a get: `searching dirs found` holds with the directories still to be read and the
copies found so far, and `reading dir document dirs found` between the two operations on a copy. -/
theorem triple_findMatches (dirs : List TaskStatus) (found : List Match) :
    env.Triple index (searching dirs found) (findMatches dirs)
      (fun more => searching [] (found ++ more)) thrown := by
  induction dirs generalizing found with
  | nil =>
      apply Triple.ret (hsearching [] found)
      intro s _ hs
      rwa [List.append_nil]
  | cons dir dirs ih =>
      apply (hread dir dirs found).bind
      intro reply
      cases reply with
      | none => exact ih found
      | some document =>
          apply (hstat dir document dirs found).bind
          intro mtimeMs
          apply (ih _).bind
          intro others
          apply Triple.ret (hsearching [] _)
          intro s _ hs
          rwa [List.append_assoc] at hs

theorem triple_get {removing : Option TaskObject → List Match → Shared → Prop}
    (hremoving : ∀ winner stale, env.Stable index (removing winner stale))
    (hfew : ∀ found s, env.inv s → found.length ≤ 1 → searching [] found s →
      removing (found.head?.map Match.task) [] s)
    (hmany : ∀ found s, env.inv s → 1 < found.length → searching [] found s →
      removing ((newestFirst found).head?.map Match.task) (newestFirst found).tail s)
    (hrm : ∀ winner stale others, env.Triple index (removing winner (stale :: others))
      (TaskProgram.rm stale.task.path) (fun _ => removing winner others) thrown) :
    env.Triple index (searching STATUS_DIRS []) Aof.get (fun winner => removing winner [])
      thrown := by
  apply (triple_findMatches hsearching hread hstat STATUS_DIRS []).bind
  intro found
  rw [List.nil_append]
  split
  · rename_i hfound
    exact Triple.ret (hsearching [] found) fun s hinv hs => hfew found s hinv hfound hs
  · rename_i hfound
    have hstart := (triple_removeStale (hremoving _) (hrm _) (newestFirst found).tail).weaken
      fun s hinv hs => hmany found s hinv (not_le.mp hfound) hs
    apply hstart.bind
    intro _
    exact Triple.ret (hremoving _ []) fun _ _ h => h

end

theorem triple_getOrThrow {pre : Shared → Prop} {post : Option TaskObject → Shared → Prop}
    (hpost : ∀ task, env.Stable index (post task)) (hget : env.Triple index pre Aof.get post thrown)
    (hthrown : ∀ s, env.inv s → post none s → thrown s) :
    env.Triple index pre getOrThrow (fun task => post (some task)) thrown := by
  apply hget.bind
  intro task
  cases task with
  | none => exact Triple.throw (hpost none) hthrown
  | some task => exact Triple.ret (hpost (some task)) fun _ _ h => h

theorem triple_orThrow {pre post : Shared → Prop} {program : TaskProgram Bool}
    (hpost : env.Stable index post) (hthrown : env.Stable index thrown)
    (hprogram : env.Triple index pre program
      (fun succeeds s => if succeeds then post s else thrown s) thrown) :
    env.Triple index pre (TaskProgram.orThrow program) (fun _ => post) thrown := by
  apply hprogram.bind
  intro succeeds
  cases succeeds with
  | false => exact Triple.throw hthrown fun _ _ h => h
  | true => exact Triple.ret hpost fun _ _ h => h

theorem triple_locked {α : Type} {pre entered failed : Shared → Prop}
    {returned post : α → Shared → Prop} {program : TaskProgram α}
    (hpost : ∀ value, env.Stable index (post value)) (hthrown : env.Stable index thrown)
    (hlock : env.Triple index pre (TaskProgram.perform .lock) (fun _ => entered) thrown)
    (hprogram : env.Triple index entered program returned failed)
    (hreturn : ∀ value, env.Triple index (returned value) (TaskProgram.perform .unlock)
      (fun _ => post value) thrown)
    (hfail : env.Triple index failed (TaskProgram.perform .unlock) (fun _ => thrown) thrown) :
    env.Triple index pre (TaskProgram.locked program) post thrown := by
  apply hlock.bind
  intro _
  have hattempt : env.Triple index entered program.attempt
      (fun result s => result.elim (failed s) fun value => returned value s) thrown :=
    hprogram.attempt
  apply hattempt.bind
  intro result
  cases result with
  | none =>
      apply hfail.bind
      intro _
      exact Triple.throw hthrown fun _ _ h => h
  | some value =>
      apply (hreturn value).bind
      intro _
      exact Triple.ret (hpost value) fun _ _ h => h

section Sole

variable {env : TaskEnv} {thrown property : TaskFiles → Prop} {document : Document}
  {path : TaskStatus}

structure Readable (env : TaskEnv) (index : Nat) (property : TaskFiles → Prop) : Prop where
  same : ∀ s, env.inv s → property s → env.Keeps index s s
  beginRead : ∀ s dir, env.inv s → property s →
    env.Keeps index s (s.beginRead index dir) ∧ property (s.beginRead index dir)
  noteTime : ∀ s dir file, env.inv s → property s → s.copies dir = some file →
    env.Keeps index s (s.noteTime index dir) ∧ property (s.noteTime index dir)

def SearchingSole (document : Document) (path : TaskStatus) (property : TaskFiles → Prop)
    (dirs : List TaskStatus) (found : List Match) (files : TaskFiles) : Prop :=
  property files ∧ dirs.Nodup ∧
    (found = [] ∨ path ∉ dirs ∧ ∃ mtimeMs, found = [⟨⟨document, path⟩, mtimeMs⟩])

def ReadingSole (document : Document) (path : TaskStatus) (property : TaskFiles → Prop)
    (dir : TaskStatus) (read : Document) (dirs : List TaskStatus) (found : List Match)
    (files : TaskFiles) : Prop :=
  property files ∧ dirs.Nodup ∧ dir = path ∧ read = document ∧ found = [] ∧ path ∉ dirs

def ChosenSole (document : Document) (path : TaskStatus) (property : TaskFiles → Prop)
    (winner : Option TaskObject) (stale : List Match) (files : TaskFiles) : Prop :=
  property files ∧ stale = [] ∧ (winner = none ∨ winner = some ⟨document, path⟩)

theorem triple_get_sole (hperform : env.perform = TaskFiles.perform)
    (hproperty : env.Stable index property) (hreadable : Readable env index property)
    (hsole : ∀ s dir file, env.inv s → property s → s.copies dir = some file →
      dir = path ∧ file.document = document) : env.Triple index property Aof.get (fun winner s =>
      property s ∧ (winner = none ∨ winner = some ⟨document, path⟩)) thrown := by
  have hread : ∀ dir dirs found, env.Triple index
      (SearchingSole document path property (dir :: dirs) found) (TaskProgram.readFile dir)
      (fun reply s => reply.elim (SearchingSole document path property dirs found s)
        fun read => ReadingSole document path property dir read dirs found s) thrown := by
    intro dir dirs found
    apply Triple.perform (hproperty.and (stable_const _))
    · intro reply
      cases reply with
      | none => exact hproperty.and (stable_const _)
      | some read => exact hproperty.and (stable_const _)
    rintro s answer reply t hinv ⟨hs, hdirs, hfound⟩ - hstep
    rw [hperform] at hstep
    obtain ⟨hdir, hnodup⟩ := List.nodup_cons.mp hdirs
    obtain ⟨rfl, rfl⟩ := Prod.mk.inj (Option.some.inj hstep)
    obtain ⟨hkeeps, hafter⟩ := hreadable.beginRead s dir hinv hs
    refine ⟨hkeeps, ?_⟩
    have hmissed : SearchingSole document path property dirs found (s.beginRead index dir) := by
      refine ⟨hafter, hnodup, hfound.imp_right ?_⟩
      rintro ⟨hold, mtimeMs, rfl⟩
      exact ⟨fun hmem => hold (List.mem_cons_of_mem _ hmem), mtimeMs, rfl⟩
    split
    · exact hmissed
    · cases hcopy : s.copies dir with
      | none => exact hmissed
      | some file =>
          obtain ⟨rfl, hfile⟩ := hsole s dir file hinv hs hcopy
          refine ⟨hafter, hnodup, rfl, hfile, ?_, hdir⟩
          apply hfound.resolve_right
          rintro ⟨hold, -⟩
          exact hold List.mem_cons_self
  have hstat : ∀ dir read dirs found, env.Triple index
      (ReadingSole document path property dir read dirs found) (TaskProgram.stat dir)
      (fun reply => SearchingSole document path property dirs
        (found ++ [⟨⟨read, dir⟩, reply.getD 0⟩])) thrown := by
    intro dir read dirs found
    apply Triple.perform (hproperty.and (stable_const _)) fun _ => hproperty.and (stable_const _)
    rintro s answer reply t hinv ⟨hs, hnodup, rfl, rfl, rfl, hdirs⟩ - hstep
    rw [hperform] at hstep
    rcases perform_stat hstep with ⟨rfl, -⟩ | ⟨file, hcopy, -, rfl⟩
    · exact ⟨hreadable.same t hinv hs, hs, hnodup, .inr ⟨hdirs, _, rfl⟩⟩
    · obtain ⟨hkeeps, hafter⟩ := hreadable.noteTime s dir file hinv hs hcopy
      exact ⟨hkeeps, hafter, hnodup, .inr ⟨hdirs, _, rfl⟩⟩
  have hsearching : ∀ dirs found,
      env.Stable index (SearchingSole document path property dirs found) :=
    fun _ _ => hproperty.and (stable_const _)
  have hremoving : ∀ winner stale,
      env.Stable index (ChosenSole document path property winner stale) :=
    fun _ _ => hproperty.and (stable_const _)
  have hget : env.Triple index (SearchingSole document path property STATUS_DIRS []) Aof.get
      (fun winner => ChosenSole document path property winner []) thrown := by
    apply triple_get hsearching hread hstat hremoving
    · rintro found s - - ⟨hs, -, hfound⟩
      refine ⟨hs, rfl, ?_⟩
      rcases hfound with rfl | ⟨-, mtimeMs, rfl⟩
      · exact .inl rfl
      · exact .inr rfl
    · rintro found s - hmany ⟨-, -, hfound⟩
      rcases hfound with rfl | ⟨-, mtimeMs, rfl⟩ <;> simp at hmany
    · rintro winner stale others s - ⟨-, hnone, -⟩
      cases hnone
  exact hget.conseq (fun _ _ hs => ⟨hs, by decide, .inl rfl⟩) (fun _ _ _ h => ⟨h.1, h.2.2⟩)
    fun _ _ h => h

/-- The transition of the one document that a get finds. -/
theorem triple_transitionTask {newStatus : TaskStatus} {metadataPatch : Dict String JsValue}
    {now : Nat} (hstable : env.Stable index property)
    (hget : env.Triple index property Aof.get (fun winner s => property s ∧
      (winner = none ∨ winner = some ⟨document, document.status⟩)) fun _ => True)
    (hplace : document.status ≠ newStatus → isValidTransition document.status newStatus = true →
      env.Triple index property
        (place document.status newStatus (document.transitioned newStatus metadataPatch now))
        (fun _ _ => True) fun _ => True) :
    env.Triple index property (transitionTask newStatus metadataPatch now) (fun _ _ => True)
      fun _ => True := by
  have hfound := triple_getOrThrow (fun task => hstable.and (stable_const
    (task = none ∨ task = some ⟨document, document.status⟩))) hget fun _ _ _ => trivial
  apply hfound.bind
  intro task
  have htask : env.Triple index (fun s => task = ⟨document, document.status⟩ ∧ property s) (if
        task.document.status = newStatus then pure task
      else if isValidTransition task.document.status newStatus then do
        place task.path newStatus (task.document.transitioned newStatus metadataPatch now)
        pure ⟨task.document.transitioned newStatus metadataPatch now, newStatus⟩
      else .throw) (fun _ _ => True) fun _ => True := by
    apply Triple.assume
    rintro rfl
    split
    · exact Triple.ret hstable fun _ _ _ => trivial
    · rename_i hmoves
      split
      · rename_i hvalid
        apply (hplace hmoves hvalid).bind
        intro _
        exact Triple.ret (stable_const True) fun _ _ _ => trivial
      · exact Triple.throw hstable fun _ _ _ => trivial
  apply htask.weaken
  rintro s - ⟨hs, hchosen⟩
  exact ⟨by simpa using hchosen, hs⟩

end Sole

end Rules

end Aof
