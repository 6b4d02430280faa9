import Aof.Proof.CallEffects
import Aof.Tools.TaskFileTools

/-!
# The task tools change everything or nothing

A completion and an update each write the body before the first transition that may be refused.
What a refused call leaves is the old task just if it has not written a new body.
-/

namespace Aof

open TaskFiles (quietly)

section Ends

variable {holder : Option Nat} {document middle last : Document} {α β : Type}

/-- A program that runs alone returns the result, or throws, and leaves the document. -/
def Ends (holder : Option Nat) (document : Document) (program : TaskProgram α)
    (result : Option α) (last : Document) : Prop :=
  Yields holder document program.attempt result last

variable {program : TaskProgram α} {value : α} {next : α → TaskProgram β} {newStatus : TaskStatus}
  {now : Nat}

theorem Yields.ends (hyields : Yields holder document program value last) :
    Ends holder document program (some value) last := by
  intro files hstored hholder
  obtain ⟨after, halone, hafter⟩ := hyields files hstored hholder
  exact ⟨after, Async.alone_attempt halone, hafter⟩

theorem ends_throw : Ends holder document (.throw : TaskProgram α) none document :=
  Yields.ret none

theorem Ends.bind {result : Option β} (hprogram : Ends holder document program (some value) middle)
    (hnext : Ends holder middle (next value) result last) :
    Ends holder document (program >>= next) result last := by
  rw [Ends, Async.attempt_bind]
  exact Yields.bind hprogram hnext

theorem Ends.bind_none (hprogram : Ends holder document program none last) :
    Ends holder document (program >>= next) none last := by
  rw [Ends, Async.attempt_bind]
  exact Yields.bind hprogram (Yields.ret none)

theorem ends_locked {result : Option α} (hprogram : Ends (some 0) document program result last) :
    Ends none document (TaskProgram.locked program) result last := by
  intro files hstored hfree
  obtain ⟨after, halone, hafter, -⟩ := hprogram { files with holder := some 0 }
    (hstored.congr rfl rfl) rfl
  have hlock : (TaskProgram.perform .lock).attempt.alone quietly files =
      some (some (), { files with holder := some 0 }) := by
    apply Async.alone_attempt
    simp [TaskProgram.perform, quietly, TaskFiles.perform, hfree]
  refine ⟨{ after with holder := none }, ?_, hafter.congr rfl rfl, rfl⟩
  simp only [TaskProgram.locked, Async.attempt_bind, Async.alone_bind, hlock, Option.bind_some,
    Option.elim_some, Async.alone_attempt halone]
  cases result <;> rfl

theorem ends_transition (hvalid : isValidTransition document.status newStatus = true) :
    Ends none document (transition newStatus .empty now)
      (some ⟨document.transitioned newStatus .empty now, newStatus⟩)
      (document.transitioned newStatus .empty now) :=
  (yields_transition (afterTransition_of_valid hvalid _ _)).ends

theorem ends_refused (hother : document.status ≠ newStatus)
    (hinvalid : isValidTransition document.status newStatus = false) :
    Ends none document (transition newStatus .empty now) none document := by
  apply ends_locked
  apply (yields_getOrThrow.ends).bind
  rw [if_neg hother, if_neg (by simp [hinvalid])]
  exact ends_throw

end Ends

namespace TaskFileTools

structure Kept (document last : Document) : Prop where
  body : last.body = document.body
  metadata : last.metadata = document.metadata
  status : last.status = document.status

/-- A call that runs alone on the files returns, and what was asked for is done, or it throws, and
the task is as before. -/
def AllOrNothing (program : TaskProgram TaskObject) (applied : Document → Prop)
    (document : Document) (files : TaskFiles) : Prop :=
  ∃ result last after, program.attempt.alone quietly files = some (result, after) ∧
    Stored last after ∧ if result.isSome then applied last else Kept document last

structure Completed (document : Document) (summary : Option String) (last : Document) : Prop where
  status : last.status = .done
  metadata : last.metadata = document.metadata
  body : last.body = match truthy summary with
    | some summary => jsTrim (withSummary document.body summary)
    | none => document.body

structure Updated (document : Document) (body : Option String) (status : Option TaskStatus)
    (last : Document) : Prop where
  status : last.status = status.getD document.status
  metadata : last.metadata = document.metadata
  body : last.body = (body.map jsTrim).getD document.body

section Documents

variable {document last last' : Document} {files after : TaskFiles}

theorem stored_unique (hlast : Stored last files) (hlast' : Stored last' files) : last' = last := by
  obtain ⟨mtimeMs, -, -, hcopies⟩ := hlast'.only
  have hcopy : files.copies last'.status = some ⟨last', mtimeMs⟩ := by rw [hcopies, if_pos rfl]
  exact (hlast.copy_eq hcopy).2

theorem allOrNothing_iff {program : TaskProgram TaskObject} {result : Option TaskObject}
    (hends : Ends none document program result last) (applied : Document → Prop)
    (hstored : Stored document files) (hfree : files.holder = none) :
    AllOrNothing program applied document files ↔
      if result.isSome then applied last else Kept document last := by
  obtain ⟨after, halone, hafter, -⟩ := hends files hstored hfree
  constructor
  · rintro ⟨result', last', after', halone', hstored', houtcome⟩
    obtain ⟨rfl, rfl⟩ := Prod.mk.inj (Option.some.inj (halone.symm.trans halone'))
    exact stored_unique hafter hstored' ▸ houtcome
  · exact fun houtcome => ⟨result, last, after, halone, hafter, houtcome⟩

theorem ends_updateBody (body : String) (now : Nat) : Ends none document (updateBody body now)
      (some ⟨document.withBody body now, document.status⟩) (document.withBody body now) := by
  have hwrite : Ends (some 0) document
      (TaskProgram.writeFileAtomic document.status (document.withBody body now)) (some ())
      (document.withBody body now) := by
    apply Yields.ends
    apply yields_write
    rfl
  apply ends_locked
  apply yields_getOrThrow.ends.bind
  exact hwrite.bind (Yields.ret _).ends

end Documents

section Completion

variable {document : Document} {summary : Option String} {times : CompletionTimes}

def summarized (document : Document) (summary : Option String) (now : Nat) : Document :=
  match truthy summary with
  | some summary => document.withBody (withSummary document.body summary) now
  | none => document

section

variable (document : Document) (summary : Option String) (now : Nat)

theorem status_summarized : (summarized document summary now).status = document.status := by
  unfold summarized
  split <;> rfl

theorem metadata_summarized : (summarized document summary now).metadata = document.metadata := by
  unfold summarized
  split <;> rfl

theorem ends_summarize : Ends none document (summarize summary ⟨document, document.status⟩ now)
      (some ⟨summarized document summary now, document.status⟩)
      (summarized document summary now) := by
  rw [summarize, summarized]
  cases truthy summary with
  | none => exact (Yields.ret _).ends
  | some summary => exact ends_updateBody _ now

end

def stuckStatuses : List TaskStatus := [.backlog, .cancelled, .deadletter]

theorem ends_startForCompletion_stuck (hstuck : document.status ∈ stuckStatuses)
    (path : TaskStatus) :
    Ends none document (startForCompletion ⟨document, path⟩ times) none document := by
  have hfree : document.status ≠ .inProgress ∧ document.status ≠ .review ∧
      document.status ≠ .blocked ∧ isValidTransition document.status .inProgress = false := by
    revert hstuck
    generalize document.status = status
    cases status <;> decide
  rw [startForCompletion, if_pos ⟨hfree.1, hfree.2.1⟩, if_neg hfree.2.2.1]
  exact ends_refused hfree.1 hfree.2.2.2

theorem ends_startForCompletion (hopen : document.status ∉ stuckStatuses)
    (hundone : document.status ≠ .done) :
    ∃ started, Ends none document (startForCompletion ⟨document, document.status⟩ times)
      (some ⟨started, started.status⟩) started ∧
        (started.status = .inProgress ∨ started.status = .review) ∧
          started.body = document.body ∧ started.metadata = document.metadata := by
  by_cases hworked : document.status = .inProgress ∨ document.status = .review
  · refine ⟨document, ?_, hworked, rfl, rfl⟩
    rw [startForCompletion, if_neg (by tauto)]
    exact (Yields.ret _).ends
  rw [not_or] at hworked
  rw [startForCompletion, if_pos hworked]
  by_cases hblocked : document.status = .blocked
  · rw [if_pos hblocked]
    have hunblocked : isValidTransition document.status .ready = true := by
      rw [hblocked]
      rfl
    exact ⟨_, (ends_transition hunblocked).bind (ends_transition rfl), .inl rfl, rfl, rfl⟩
  · have hready : document.status = .ready := by
      revert hopen hundone hworked hblocked
      generalize document.status = status
      cases status <;> decide
    rw [if_neg hblocked]
    have hstarted : isValidTransition document.status .inProgress = true := by
      rw [hready]
      rfl
    exact ⟨_, ends_transition hstarted, .inl rfl, rfl, rfl⟩

theorem ends_reviewForCompletion
    (hworked : document.status = .inProgress ∨ document.status = .review) :
    ∃ task reviewed, Ends none document
      (reviewForCompletion ⟨document, document.status⟩ times) (some task) reviewed ∧
        reviewed.status = .review ∧ reviewed.body = document.body ∧
          reviewed.metadata = document.metadata := by
  rw [reviewForCompletion]
  by_cases hworking : document.status = .inProgress
  · have hvalid : isValidTransition document.status .review = true := by
      rw [hworking]
      rfl
    rw [if_pos hworking]
    exact ⟨_, _, ends_transition hvalid, rfl, rfl, rfl⟩
  · rw [if_neg hworking]
    exact ⟨_, document, (Yields.ret _).ends, hworked.resolve_left hworking, rfl, rfl⟩

theorem ends_aofTaskComplete (hopen : document.status ∉ stuckStatuses)
    (hundone : document.status ≠ .done) :
    ∃ task last, Ends none document (aofTaskComplete summary times) (some task) last ∧
      Completed document summary last := by
  have hsame := status_summarized document summary times.summarized
  obtain ⟨started, hstart, hworked, hbody, hmetadata⟩ :=
    @ends_startForCompletion (summarized document summary times.summarized) times
      (by rwa [hsame]) (by rwa [hsame])
  obtain ⟨task, reviewed, hreview, hstatus, hbody', hmetadata'⟩ :=
    @ends_reviewForCompletion started times hworked
  have hvalid : isValidTransition reviewed.status .done = true := by
    rw [hstatus]
    rfl
  refine ⟨⟨reviewed.transitioned .done .empty times.completed, .done⟩,
    reviewed.transitioned .done .empty times.completed, ?_, rfl, ?_, ?_⟩
  · apply yields_getOrThrow.ends.bind
    rw [if_neg hundone]
    apply (ends_summarize document summary times.summarized).bind
    rw [if_pos (by rwa [hsame]), ← hsame]
    exact hstart.bind (hreview.bind (ends_transition hvalid))
  · exact (hmetadata'.trans hmetadata).trans (metadata_summarized _ _ _)
  · apply (hbody'.trans hbody).trans
    rw [summarized]
    cases truthy summary <;> rfl

theorem ends_aofTaskComplete_stuck (hstuck : document.status ∈ stuckStatuses) :
    Ends none document (aofTaskComplete summary times) none
      (summarized document summary times.summarized) := by
  have hundone : document.status ≠ .done := by
    revert hstuck
    generalize document.status = status
    cases status <;> decide
  have hsame := status_summarized document summary times.summarized
  apply yields_getOrThrow.ends.bind
  rw [if_neg hundone]
  apply (ends_summarize document summary times.summarized).bind
  rw [if_pos (by rwa [hsame])]
  exact (ends_startForCompletion_stuck (by rwa [hsame]) _).bind_none

theorem ends_aofTaskComplete_done (hdone : document.status = .done) :
    Ends none document (aofTaskComplete summary times) none document := by
  apply yields_getOrThrow.ends.bind
  rw [if_pos hdone]
  exact ends_throw

theorem trim_withSummary_ne (body summary : String) : jsTrim (withSummary body summary) ≠ body := by
  intro hsame
  have hfilter := congrArg (fun text : String => text.toList.filter fun c => !isJsSpace c) hsame
  simp only [toList_jsTrim, Trim.filter_trim] at hfilter
  have hlength := congrArg List.length hfilter
  unfold withSummary at hlength
  split at hlength
  · rw [String.toList_append, String.toList_append, List.filter_append, List.filter_append,
      List.length_append, List.length_append] at hlength
    have hheading : 0 < ("\n\n## Completion Summary\n".toList.filter
      fun c => !isJsSpace c).length := by decide
    omega
  · rename_i hempty
    rw [not_not.mp hempty, String.toList_append, List.filter_append, List.length_append] at hlength
    have hheading : 0 < ("## Completion Summary\n".toList.filter
      fun c => !isJsSpace c).length := by decide
    have hnone : ("".toList.filter fun c => !isJsSpace c).length = 0 := by decide
    omega

theorem kept_summarized_iff (now : Nat) :
    Kept document (summarized document summary now) ↔ truthy summary = none := by
  unfold summarized
  cases truthy summary with
  | none => exact iff_of_true ⟨rfl, rfl, rfl⟩ rfl
  | some text =>
      apply iff_of_false _ (Option.some_ne_none text)
      exact fun hkept => trim_withSummary_ne document.body text hkept.body

end Completion

section Update

variable {document : Document} {body : Option String} {status : Option TaskStatus}
  {edited moved : Nat}

def rewritten (document : Document) (body : Option String) (now : Nat) : Document :=
  match body with
  | some body => document.withBody body now
  | none => document

section

variable (document : Document) (body : Option String) (now : Nat)

theorem status_rewritten : (rewritten document body now).status = document.status := by
  cases body <;> rfl

theorem metadata_rewritten : (rewritten document body now).metadata = document.metadata := by
  cases body <;> rfl

theorem body_rewritten :
    (rewritten document body now).body = (body.map jsTrim).getD document.body := by
  cases body <;> rfl

theorem ends_replaceBody : Ends none document (replaceBody body ⟨document, document.status⟩ now)
      (some ⟨rewritten document body now, document.status⟩) (rewritten document body now) := by
  cases body with
  | none => exact (Yields.ret _).ends
  | some body => exact ends_updateBody body now

end

def Refused (document : Document) (status : Option TaskStatus) : Prop :=
  ∃ target, status = some target ∧ target ≠ document.status ∧
    isValidTransition document.status target = false

theorem ends_aofTaskUpdate (haccepted : ¬Refused document status) :
    ∃ task last, Ends none document (aofTaskUpdate body status edited moved) (some task) last ∧
      Updated document body status last := by
  have hsame := status_rewritten document body edited
  by_cases hmoves : ∃ target, status = some target ∧ target ≠ document.status
  · obtain ⟨target, rfl, hother⟩ := hmoves
    have hvalid : isValidTransition (rewritten document body edited).status target = true := by
      rw [hsame]
      by_contra hinvalid
      exact haccepted ⟨target, rfl, hother, by simpa using hinvalid⟩
    refine ⟨⟨(rewritten document body edited).transitioned target .empty moved, target⟩,
      (rewritten document body edited).transitioned target .empty moved, ?_, rfl,
      metadata_rewritten document body edited, body_rewritten document body edited⟩
    apply yields_getOrThrow.ends.bind
    apply (ends_replaceBody document body edited).bind
    rw [Option.filter_some, if_pos (by simpa [hsame] using hother)]
    exact ends_transition hvalid
  · have hnone : status.filter (· ≠ (rewritten document body edited).status) = none := by
      rw [Option.filter_eq_none_iff]
      intro target htarget
      rw [hsame]
      simpa using fun hother => hmoves ⟨target, htarget, hother⟩
    have hstatus : status.getD document.status = document.status := by
      cases status with
      | none => rfl
      | some target =>
          by_contra hother
          exact hmoves ⟨target, rfl, hother⟩
    refine ⟨⟨rewritten document body edited, document.status⟩, rewritten document body edited, ?_,
      hsame.trans hstatus.symm, metadata_rewritten document body edited,
      body_rewritten document body edited⟩
    apply yields_getOrThrow.ends.bind
    apply (ends_replaceBody document body edited).bind
    rw [hnone]
    exact (Yields.ret _).ends

theorem ends_aofTaskUpdate_refused (hrefused : Refused document status) :
    Ends none document (aofTaskUpdate body status edited moved) none
      (rewritten document body edited) := by
  obtain ⟨target, rfl, hother, hinvalid⟩ := hrefused
  have hsame := status_rewritten document body edited
  apply yields_getOrThrow.ends.bind
  apply (ends_replaceBody document body edited).bind
  rw [Option.filter_some, if_pos (by simpa [hsame] using hother)]
  exact ends_refused (by rw [hsame]; exact hother.symm) (by rwa [hsame])

theorem kept_rewritten_iff (now : Nat) :
    Kept document (rewritten document body now) ↔ ∀ text ∈ body, jsTrim text = document.body := by
  constructor
  · intro hkept text htext
    obtain rfl := htext
    exact hkept.body
  · intro hsame
    refine ⟨?_, metadata_rewritten _ _ _, status_rewritten _ _ _⟩
    cases body with
    | none => rfl
    | some text => exact hsame text rfl

end Update

/-- A completion is all or nothing just if it has no summary to write, or starts from a status from
which the task can be worked on, or is done.  An update is so just if its transition is not refused,
or it gives no new body. -/
theorem allOrNothing_tools_iff {document : Document} {files : TaskFiles}
    (hstored : Stored document files) (hfree : files.holder = none)
    (summary body : Option String) (status : Option TaskStatus) (times : CompletionTimes)
    (edited moved : Nat) :
    (AllOrNothing (aofTaskComplete summary times) (Completed document summary) document files ↔
      truthy summary = none ∨ document.status ∉ stuckStatuses) ∧
    (AllOrNothing (aofTaskUpdate body status edited moved) (Updated document body status) document
        files ↔ ¬Refused document status ∨ ∀ text ∈ body, jsTrim text = document.body) := by
  constructor
  · by_cases hstuck : document.status ∈ stuckStatuses
    · rw [allOrNothing_iff (ends_aofTaskComplete_stuck hstuck) _ hstored hfree,
        or_iff_left (not_not.mpr hstuck)]
      exact kept_summarized_iff times.summarized
    · apply iff_of_true _ (.inr hstuck)
      by_cases hdone : document.status = .done
      · rw [allOrNothing_iff (ends_aofTaskComplete_done hdone) _ hstored hfree]
        exact ⟨rfl, rfl, rfl⟩
      · obtain ⟨task, last, hends, hcompleted⟩ :=
          @ends_aofTaskComplete document summary times hstuck hdone
        exact (allOrNothing_iff hends _ hstored hfree).mpr hcompleted
  · by_cases hrefused : Refused document status
    · rw [allOrNothing_iff (ends_aofTaskUpdate_refused hrefused) _ hstored hfree,
        or_iff_right (not_not.mpr hrefused)]
      exact kept_rewritten_iff edited
    · apply iff_of_true _ (.inl hrefused)
      obtain ⟨task, last, hends, hupdated⟩ :=
        @ends_aofTaskUpdate document body status edited moved hrefused
      exact (allOrNothing_iff hends _ hstored hfree).mpr hupdated

theorem report_named : "Report" ≠ "" := by decide

def backlogDocument : Document :=
  { title := ⟨"Report", report_named⟩, status := .backlog, updatedAt := 0, lastTransitionAt := 0 }

def storedFiles (document : Document) : TaskFiles where
  copies dir := if dir = document.status then some ⟨document, 1⟩ else none
  clock := 1

theorem stored_storedFiles (document : Document) : Stored document (storedFiles document) :=
  ⟨1, Nat.one_pos, le_refl 1, fun _ => rfl⟩

def anyTimes : CompletionTimes := ⟨1, 2, 3, 4, 5⟩

/-- Completed without a summary, the backlog task stays as it is; with a body, it can be made
ready. -/
theorem backlog_all_or_nothing :
    AllOrNothing (aofTaskComplete none anyTimes) (Completed backlogDocument none) backlogDocument
        (storedFiles backlogDocument) ∧ AllOrNothing (aofTaskUpdate (some "text") (some .ready) 1 2)
        (Updated backlogDocument (some "text") (some .ready)) backlogDocument
        (storedFiles backlogDocument) := by
  have hiff := allOrNothing_tools_iff (stored_storedFiles backlogDocument) rfl none (some "text")
    (some .ready) anyTimes 1 2
  refine ⟨hiff.1.mpr (.inl rfl), hiff.2.mpr (.inl ?_)⟩
  rintro ⟨target, htarget, -, hinvalid⟩
  cases htarget
  exact absurd hinvalid (by decide)

/-- A backlog task with a summary, and one that is updated to `done`. -/
theorem backlog_half_done :
    ¬AllOrNothing (aofTaskComplete (some "ok") anyTimes) (Completed backlogDocument (some "ok"))
        backlogDocument (storedFiles backlogDocument) ∧
      ¬AllOrNothing (aofTaskUpdate (some "text") (some .done) 1 2)
        (Updated backlogDocument (some "text") (some .done)) backlogDocument
        (storedFiles backlogDocument) := by
  have hstored := stored_storedFiles backlogDocument
  constructor
  · rw [allOrNothing_iff (ends_aofTaskComplete_stuck (by decide)) _ hstored rfl]
    exact fun hkept => absurd ((kept_summarized_iff anyTimes.summarized).mp hkept) (by decide)
  · have hrefused : Refused backlogDocument (some .done) := ⟨.done, rfl, by decide, rfl⟩
    rw [allOrNothing_iff (ends_aofTaskUpdate_refused hrefused) _ hstored rfl]
    exact fun hkept => absurd ((kept_rewritten_iff 1).mp hkept "text" rfl) (by decide)

end TaskFileTools

end Aof
