import Aof.Lib.Dict
import Aof.Lib.Interleaving

/-!
# The trace writer

The captures of one task (`trace/trace-writer.ts`) as processes that wait at their awaits.  The
trace itself, serialized, is an answer to the turn that builds it; the events are left out.
-/

namespace Aof

namespace TraceWriter

open Interleaving

abbrev Text := List Char

/-- `trace-${attemptNumber}.json` -/
def traceName (attemptNumber : Nat) : Text :=
  "trace-".toList ++ Nat.toDigits 10 attemptNumber ++ ".json".toList

/-- `/^trace-\d+\.json$/.test(f)` -/
def isTraceFile (f : Text) : Bool :=
  let digits := (f.drop 6).take (f.length - 11)
  "trace-".toList.isPrefixOf f && ".json".toList.isSuffixOf (f.drop 6) && digits ≠ [] &&
    digits.all (·.isDigit)

/-- `detectNoop`, of a session that was found. -/
def detectNoop (toolCallCount : Nat) : Bool := toolCallCount = 0

structure CaptureTraceResult where
  success : Bool
  noopDetected : Bool := false
  tracePath : Option Text := none
  error : Option Text := none
  deriving DecidableEq

/-- The directory of the task, if it exists, and the files that were written, oldest first.  The
program keeps no such record. -/
structure Shared where
  taskDir : Option (Dict Text Text)
  written : List (Text × Text) := []

namespace Shared

def files (shared : Shared) : Dict Text Text := shared.taskDir.getD .empty

def traceFiles (shared : Shared) : List Text := shared.files.keys.filter isTraceFile

end Shared

/-- Where a capture waits: for the access check, for the session, for the list of the directory, for
the directory to be made, for the file to be written and for the events. -/
inductive Process where
  | checking
  | parsing
  | listing (noop : Bool)
  | making (noop : Bool) (attemptNumber : Nat) (serialized : Text)
  | writing (noop : Bool) (attemptNumber : Nat) (serialized : Text)
  | logging (noop : Bool) (tracePath : Text)
  | loggingNoop (tracePath : Text)
  | failing (error : Text)
  | finished (result : CaptureTraceResult)
  deriving DecidableEq

/-- The answer to a turn: whether what the capture waits for has come about, or the error, the
number of calls in the session and the trace. -/
structure Answer where
  ok : Bool := true
  error : Text := []
  toolCallCount : Nat := 0
  serialized : Text := []
  deriving DecidableEq

def nextAttempt (shared : Shared) (ok : Bool) : Nat :=
  if ok then shared.traceFiles.length + 1 else 1

def advance (answer : Answer) (shared : Shared) : Process → Option (Shared × Process)
  | .checking =>
      some (shared, if answer.ok then .parsing else .failing "Session file not found".toList)
  | .parsing =>
      some (shared, if answer.ok then .listing (detectNoop answer.toolCallCount)
        else .failing answer.error)
  | .listing noop =>
      some (shared, .making noop (nextAttempt shared answer.ok) answer.serialized)
  | .making noop attemptNumber serialized =>
      if answer.ok then
        some ({ shared with taskDir := some shared.files },
          .writing noop attemptNumber serialized)
      else some (shared, .failing answer.error)
  | .writing noop attemptNumber serialized =>
      let tracePath := traceName attemptNumber
      if answer.ok then
        some (⟨some (shared.files.set tracePath serialized),
          shared.written ++ [(tracePath, serialized)]⟩, .logging noop tracePath)
      else some (shared, .failing answer.error)
  | .logging noop tracePath =>
      some (shared, if answer.ok && noop then .loggingNoop tracePath
        else .finished { success := true, noopDetected := noop, tracePath := some tracePath })
  | .loggingNoop tracePath =>
      some (shared,
        .finished { success := true, noopDetected := true, tracePath := some tracePath })
  | .failing error => some (shared, .finished { success := false, error := some error })
  | .finished _ => none

def start (taskDir : Option (Dict Text Text)) (captures : Nat) : Pool Shared Process :=
  ⟨{ taskDir }, List.replicate captures .checking⟩

end TraceWriter

end Aof

/-!
## Trace files are kept

A capture takes the number of trace files plus one.  As long as no file has a higher number than
there are trace files, and no other capture has a number in hand when the directory is listed, this
number is free until the file is written.
-/

namespace Aof

namespace TraceWriter

open Interleaving

theorem traceName_inj {n m : Nat} (heq : traceName n = traceName m) : n = m := by
  have hdigits : Nat.toDigits 10 n = Nat.toDigits 10 m :=
    List.append_cancel_left (List.append_cancel_right heq)
  have hvalue := congrArg (fun digits => Nat.ofDigitChars 10 digits 0) hdigits
  rwa [Nat.ofDigitChars_ten_toDigits, Nat.ofDigitChars_ten_toDigits] at hvalue

theorem isTraceFile_traceName (n : Nat) : isTraceFile (traceName n) = true := by
  have hdigits : ∀ c ∈ Nat.toDigits 10 n, c.isDigit = true := fun c hc =>
    Nat.isDigit_of_mem_toDigits (by decide) (by decide) hc
  have hdrop : (traceName n).drop 6 = Nat.toDigits 10 n ++ ".json".toList := by
    rw [traceName, List.append_assoc]
    rfl
  have hlength : (traceName n).length - 11 = (Nat.toDigits 10 n).length := by
    simp [traceName]
  have hprefix : "trace-".toList.isPrefixOf (traceName n) = true := by
    rw [List.isPrefixOf_iff_prefix, traceName, List.append_assoc]
    exact List.prefix_append _ _
  have hsuffix : ".json".toList.isSuffixOf (Nat.toDigits 10 n ++ ".json".toList) = true := by
    rw [List.isSuffixOf_iff_suffix]
    exact List.suffix_append _ _
  rw [isTraceFile, hlength, hdrop, List.take_left, hprefix, hsuffix,
    List.all_eq_true.mpr hdigits]
  simp

def Process.number? : Process → Option Nat
  | .making _ attemptNumber _ | .writing _ attemptNumber _ => some attemptNumber
  | _ => none

def Process.path? : Process → Option Text
  | .logging _ tracePath | .loggingNoop tracePath => some tracePath
  | .finished result => if result.success then result.tracePath else none
  | _ => none

def Dense (shared : Shared) : Prop :=
  ∀ n, traceName n ∈ shared.files.keys → n ≤ shared.traceFiles.length

/-- A directory is listed while no other capture has a number in hand, and the list is complete. -/
def Alone (pool : Pool Shared Process) (turn : Turn Answer) : Prop :=
  ∀ noop, pool.processes[turn.index]? = some (.listing noop) →
    (∀ (j : Nat) (other : Process), turn.index ≠ j → pool.processes[j]? = some other →
      other.number? = none) ∧
    (turn.event.ok = true ∨ pool.shared.traceFiles = [])

/-- Every file that was there is still there, every file that was written was new and is still
there, and every success tells of a file of its own. -/
structure Intact (start : Option (Dict Text Text)) (pool : Pool Shared Process) : Prop where
  kept : ∀ name contents, (start.getD .empty).get? name = some contents →
    pool.shared.files.get? name = some contents
  fresh : (pool.shared.written.map Prod.fst).Nodup ∧
    ∀ name ∈ pool.shared.written.map Prod.fst, name ∉ (start.getD .empty).keys
  held : ∀ entry ∈ pool.shared.written, pool.shared.files.get? entry.1 = some entry.2
  reported : ∀ (i : Nat) (result : CaptureTraceResult), result.success = true →
    pool.processes[i]? = some (.finished result) →
      ∃ tracePath ∈ pool.shared.written.map Prod.fst, result.tracePath = some tracePath
  distinct : ∀ (i j : Nat) (result result' : CaptureTraceResult), i ≠ j →
    result.success = true → result'.success = true →
    pool.processes[i]? = some (.finished result) → pool.processes[j]? = some (.finished result') →
      result.tracePath ≠ result'.tracePath

section

variable (start : Option (Dict Text Text))

structure Sound (shared : Shared) : Prop where
  dense : Dense shared
  kept : ∀ name contents, (start.getD .empty).get? name = some contents →
    shared.files.get? name = some contents
  fresh : (shared.written.map Prod.fst).Nodup ∧
    ∀ name ∈ shared.written.map Prod.fst, name ∉ (start.getD .empty).keys
  held : ∀ entry ∈ shared.written, shared.files.get? entry.1 = some entry.2

/-- A number in hand is the next one, and a path that is told of was written. -/
structure Waits (shared : Shared) (process : Process) : Prop where
  next : ∀ attemptNumber, process.number? = some attemptNumber →
    attemptNumber = shared.traceFiles.length + 1
  written : ∀ tracePath, process.path? = some tracePath →
    tracePath ∈ shared.written.map Prod.fst
  told : ∀ result, process = .finished result → result.success = true →
    result.tracePath ≠ none

/-- At most one of two captures has a number, and their paths differ. -/
structure Apart (process other : Process) : Prop where
  numbers : process.number? = none ∨ other.number? = none
  paths : ∀ tracePath, process.path? = some tracePath → other.path? ≠ some tracePath

def assertion : Assertion Shared Process := ⟨Sound start, Waits, Apart⟩

end

section Steps

variable {start : Option (Dict Text Text)} {shared : Shared}

theorem Dense.traceName_not_mem (hdense : Dense shared) :
    traceName (shared.traceFiles.length + 1) ∉ shared.files.keys := by
  intro hmem
  have hle := hdense _ hmem
  omega

def Shared.write (shared : Shared) (tracePath serialized : Text) : Shared :=
  ⟨some (shared.files.set tracePath serialized), shared.written ++ [(tracePath, serialized)]⟩

theorem traceFiles_write (hdense : Dense shared) (serialized : Text) :
    (shared.write (traceName (shared.traceFiles.length + 1)) serialized).traceFiles =
      shared.traceFiles ++ [traceName (shared.traceFiles.length + 1)] := by
  have hkeys : (shared.files.set (traceName (shared.traceFiles.length + 1)) serialized).keys =
      shared.files.keys ++ [traceName (shared.traceFiles.length + 1)] := by
    rw [Dict.keys_set, if_neg hdense.traceName_not_mem]
  calc
    (shared.write (traceName (shared.traceFiles.length + 1)) serialized).traceFiles =
        (shared.files.set (traceName (shared.traceFiles.length + 1)) serialized).keys.filter
          isTraceFile := rfl
    _ = shared.traceFiles ++ [traceName (shared.traceFiles.length + 1)] := by
        rw [hkeys, List.filter_append, List.filter_cons_of_pos (isTraceFile_traceName _)]
        rfl

theorem Sound.write (hsound : Sound start shared) (serialized : Text) :
    Sound start (shared.write (traceName (shared.traceFiles.length + 1)) serialized) := by
  have hnew := hsound.dense.traceName_not_mem
  have hfiles : (shared.write (traceName (shared.traceFiles.length + 1)) serialized).files =
      shared.files.set (traceName (shared.traceFiles.length + 1)) serialized := rfl
  have hother : ∀ {name contents}, shared.files.get? name = some contents →
      (shared.files.set (traceName (shared.traceFiles.length + 1)) serialized).get? name =
        some contents := by
    intro name contents hget
    rw [Dict.get?_set_of_ne, hget]
    rintro rfl
    exact hnew (Dict.mem_keys_iff.mpr ⟨contents, hget⟩)
  have hwritten : ∀ name ∈ shared.written.map Prod.fst, name ∈ shared.files.keys := by
    intro name hname
    obtain ⟨entry, hentry, rfl⟩ := List.mem_map.mp hname
    exact Dict.mem_keys_iff.mpr ⟨_, hsound.held entry hentry⟩
  refine ⟨?_, ?_, ?_, ?_⟩
  · intro n hn
    rw [traceFiles_write hsound.dense, List.length_append, List.length_singleton]
    rw [hfiles, Dict.keys_set, if_neg hnew, List.mem_append, List.mem_singleton] at hn
    rcases hn with hold | hlast
    · exact (hsound.dense n hold).trans (Nat.le_succ _)
    · exact (traceName_inj hlast).le
  · intro name contents hget
    exact hother (hsound.kept name contents hget)
  · rw [Shared.write, List.map_append, List.map_singleton]
    constructor
    · rw [List.nodup_append_comm, List.singleton_append, List.nodup_cons]
      exact ⟨fun hmem => hnew (hwritten _ hmem), hsound.fresh.1⟩
    · intro name hname
      rcases List.mem_append.mp hname with hold | hlast
      · exact hsound.fresh.2 name hold
      · rw [List.mem_singleton.mp hlast]
        intro hmem
        obtain ⟨contents, hget⟩ := Dict.mem_keys_iff.mp hmem
        exact hnew (Dict.mem_keys_iff.mpr ⟨contents, hsound.kept _ _ hget⟩)
  · intro entry hentry
    rcases List.mem_append.mp hentry with hold | hlast
    · exact hother (hsound.held entry hold)
    · rw [List.mem_singleton.mp hlast, hfiles]
      exact Dict.get?_set_self _ _ _

/-- A turn writes a file, or it keeps all files and the path of the capture, whose number changes
only when it lists the directory. -/
theorem advance_cases {answer : Answer} {shared' : Shared} {process process' : Process}
    (hadvance : advance answer shared process = some (shared', process')) :
    (∃ noop attemptNumber serialized, process = .writing noop attemptNumber serialized ∧
      shared' = shared.write (traceName attemptNumber) serialized ∧
      process' = .logging noop (traceName attemptNumber)) ∨
    ((shared'.files = shared.files ∧ shared'.written = shared.written) ∧
      process'.path? = process.path? ∧
      (process'.number? = none ∨ process'.number? = process.number? ∨
        ∃ noop, process = .listing noop ∧ process'.number? = some (nextAttempt shared answer.ok)) ∧
      ∀ result, process' = .finished result → result.success = true → result.tracePath ≠ none) := by
  cases process with
  | checking =>
      right
      simp only [advance, Option.some.injEq, Prod.mk.injEq] at hadvance
      obtain ⟨rfl, rfl⟩ := hadvance
      split <;> simp [Process.path?, Process.number?]
  | parsing =>
      right
      simp only [advance, Option.some.injEq, Prod.mk.injEq] at hadvance
      obtain ⟨rfl, rfl⟩ := hadvance
      split <;> simp [Process.path?, Process.number?]
  | listing noop =>
      right
      simp only [advance, Option.some.injEq, Prod.mk.injEq] at hadvance
      obtain ⟨rfl, rfl⟩ := hadvance
      simp [Process.path?, Process.number?]
  | making noop attemptNumber serialized =>
      right
      rw [advance] at hadvance
      split at hadvance
      · simp only [Option.some.injEq, Prod.mk.injEq] at hadvance
        obtain ⟨rfl, rfl⟩ := hadvance
        simp [Process.path?, Process.number?, Shared.files]
      · simp only [Option.some.injEq, Prod.mk.injEq] at hadvance
        obtain ⟨rfl, rfl⟩ := hadvance
        simp [Process.path?, Process.number?]
  | writing noop attemptNumber serialized =>
      rw [advance] at hadvance
      split at hadvance
      · simp only [Option.some.injEq, Prod.mk.injEq] at hadvance
        obtain ⟨rfl, rfl⟩ := hadvance
        exact .inl ⟨noop, attemptNumber, serialized, rfl, rfl, rfl⟩
      · right
        simp only [Option.some.injEq, Prod.mk.injEq] at hadvance
        obtain ⟨rfl, rfl⟩ := hadvance
        simp [Process.path?, Process.number?]
  | logging noop tracePath =>
      right
      simp only [advance, Option.some.injEq, Prod.mk.injEq] at hadvance
      obtain ⟨rfl, rfl⟩ := hadvance
      split <;> simp [Process.path?, Process.number?]
  | loggingNoop tracePath =>
      right
      simp only [advance, Option.some.injEq, Prod.mk.injEq] at hadvance
      obtain ⟨rfl, rfl⟩ := hadvance
      simp [Process.path?, Process.number?]
  | failing error =>
      right
      simp only [advance, Option.some.injEq, Prod.mk.injEq] at hadvance
      obtain ⟨rfl, rfl⟩ := hadvance
      simp [Process.path?, Process.number?]
  | finished result => simp [advance] at hadvance

theorem nextAttempt_eq {ok : Bool} (hlist : ok = true ∨ shared.traceFiles = []) :
    nextAttempt shared ok = shared.traceFiles.length + 1 := by
  rcases hlist with hok | hnil
  · rw [nextAttempt, if_pos hok]
  · rw [nextAttempt, hnil]
    exact ite_self _

theorem Sound.congr {shared' : Shared} (hsound : Sound start shared)
    (hfiles : shared'.files = shared.files) (hwritten : shared'.written = shared.written) :
    Sound start shared' where
  dense := by
    rw [Dense, Shared.traceFiles, hfiles]
    exact hsound.dense
  kept := by
    rw [hfiles]
    exact hsound.kept
  fresh := by
    rw [hwritten]
    exact hsound.fresh
  held := by
    rw [hfiles, hwritten]
    exact hsound.held

theorem preserves : Preserves advance Alone (assertion start) where
  symm := fun happart =>
    ⟨happart.numbers.symm, fun tracePath hpath hother => happart.paths tracePath hother hpath⟩
  own := by
    intro pool turn process shared' process' hholds hok hprocess hadvance
    have hwaits := hholds.waiting _ _ hprocess
    rcases advance_cases hadvance with ⟨noop, attemptNumber, serialized, rfl, rfl, rfl⟩ |
      ⟨⟨hfiles, hwritten⟩, hpath, hnumber, htold⟩
    · have hnext := hwaits.next attemptNumber rfl
      rw [hnext]
      refine ⟨hholds.global.write serialized, ⟨?_, ?_, ?_⟩⟩
      · intro _ hsome
        cases hsome
      · intro tracePath hsome
        rw [Shared.write, List.map_append, ← Option.some.inj hsome]
        exact List.mem_append_right _ List.mem_cons_self
      · intro _ hfinished
        cases hfinished
    · refine ⟨hholds.global.congr hfiles hwritten, ⟨?_, ?_, htold⟩⟩
      · intro attemptNumber hsome
        rw [Shared.traceFiles, hfiles, ← Shared.traceFiles]
        rcases hnumber with hnone | hsame | ⟨noop, rfl, hnext⟩
        · rw [hnone] at hsome
          cases hsome
        · exact hwaits.next attemptNumber (hsame ▸ hsome)
        · rw [← nextAttempt_eq (hok noop hprocess).2]
          exact Option.some.inj (hsome.symm.trans hnext)
      · intro tracePath hsome
        rw [hwritten]
        exact hwaits.written tracePath (hpath ▸ hsome)
  others := by
    intro pool turn process shared' process' index other hholds hok hprocess hadvance hne hother
    have hwaits := hholds.waiting _ _ hother
    have hapart := hholds.apart _ _ _ _ hne hprocess hother
    rcases advance_cases hadvance with ⟨noop, attemptNumber, serialized, rfl, rfl, rfl⟩ |
      ⟨⟨hfiles, hwritten⟩, hpath, hnumber, htold⟩
    · have hnumber : other.number? = none := by
        rcases hapart.numbers with hself | hother
        · cases hself
        · exact hother
      have hnext := (hholds.waiting _ _ hprocess).next attemptNumber rfl
      refine ⟨⟨?_, ?_, hwaits.told⟩, ⟨Or.inr hnumber, ?_⟩⟩
      · intro _ hsome
        rw [hnumber] at hsome
        cases hsome
      · intro tracePath hsome
        rw [Shared.write, List.map_append]
        exact List.mem_append_left _ (hwaits.written tracePath hsome)
      · intro tracePath hsome hpath
        -- The other path is in the directory, and the next number is not.
        obtain ⟨entry, hentry, hname⟩ := List.mem_map.mp (hwaits.written tracePath hpath)
        have hheld := hholds.global.held entry hentry
        rw [hname, ← Option.some.inj hsome, hnext] at hheld
        exact hholds.global.dense.traceName_not_mem (Dict.mem_keys_iff.mpr ⟨_, hheld⟩)
    · refine ⟨⟨?_, ?_, hwaits.told⟩, ⟨?_, ?_⟩⟩
      · intro attemptNumber hsome
        rw [Shared.traceFiles, hfiles, ← Shared.traceFiles]
        exact hwaits.next attemptNumber hsome
      · intro tracePath hsome
        rw [hwritten]
        exact hwaits.written tracePath hsome
      · rcases hnumber with hnone | hsame | ⟨noop, rfl, -⟩
        · exact Or.inl hnone
        · rw [hsame]
          exact hapart.numbers
        · exact Or.inr ((hok noop hprocess).1 index other hne hother)
      · rw [hpath]
        exact hapart.paths

end Steps

/-- In every run from a directory without a number above the number of its trace files, in which
each listing is complete and no other capture has a number in hand, all traces are kept. -/
theorem traces_kept (taskDir : Option (Dict Text Text)) (captures : Nat)
    (hdense : Dense { taskDir }) {turns : List (Turn Answer)} {pool : Pool Shared Process}
    (hrun : Runs advance Alone (start taskDir captures) turns pool) : Intact taskDir pool := by
  have hinit : (assertion taskDir).Holds (start taskDir captures) := by
    have hchecking : ∀ (index : Nat) (process : Process),
        (start taskDir captures).processes[index]? = some process → process = .checking := by
      intro index process hprocess
      exact List.eq_of_mem_replicate (List.mem_of_getElem? hprocess)
    refine ⟨⟨hdense, fun _ _ hget => hget, ⟨List.nodup_nil, List.forall_mem_nil _⟩,
      List.forall_mem_nil _⟩, ?_, ?_⟩
    · intro index process hprocess
      rw [hchecking index process hprocess]
      exact ⟨by simp [Process.number?], by simp [Process.path?], by simp⟩
    · intro i j process other _ hprocess _
      rw [hchecking i process hprocess]
      exact ⟨Or.inl rfl, by simp [Process.path?]⟩
  have hholds := preserves.run hrun hinit
  have hpath : ∀ result : CaptureTraceResult, result.success = true →
      (Process.finished result).path? = result.tracePath := fun result h => if_pos h
  refine ⟨hholds.global.kept, hholds.global.fresh, hholds.global.held, ?_, ?_⟩
  · intro i result hsuccess hprocess
    have hwaits := hholds.waiting i _ hprocess
    obtain ⟨tracePath, htold⟩ := Option.ne_none_iff_exists'.mp (hwaits.told result rfl hsuccess)
    exact ⟨tracePath, hwaits.written tracePath ((hpath result hsuccess).trans htold), htold⟩
  · intro i j result result' hij hsuccess hsuccess' hprocess hprocess' heq
    have hwaits := hholds.waiting i _ hprocess
    obtain ⟨tracePath, htold⟩ := Option.ne_none_iff_exists'.mp (hwaits.told result rfl hsuccess)
    exact (hholds.apart i j _ _ hij hprocess hprocess').paths tracePath
      ((hpath result hsuccess).trans htold)
      ((hpath result' hsuccess').trans (heq.symm.trans htold))

def isAlone (pool : Pool Shared Process) (turn : Turn Answer) : Bool :=
  match pool.processes[turn.index]? with
  | some (.listing _) =>
      (List.range pool.processes.length).all (fun j =>
        j = turn.index || (pool.processes[j]?.bind Process.number?).isNone) && turn.event.ok
  | _ => true

theorem alone_of_isAlone {pool : Pool Shared Process} {turn : Turn Answer}
    (htest : isAlone pool turn = true) : Alone pool turn := by
  intro noop hlisting
  simp only [isAlone, hlisting, Bool.and_eq_true, List.all_eq_true, List.mem_range,
    Bool.or_eq_true, decide_eq_true_eq, Option.isNone_iff_eq_none] at htest
  refine ⟨fun j other hne hother => ?_, Or.inl htest.2⟩
  rcases htest.1 j (List.getElem?_eq_some_iff.mp hother).1 with heq | hnone
  · exact absurd heq.symm hne
  · rwa [hother, Option.bind_some] at hnone

def wholeCapture (index : Nat) (serialized : String) : List (Turn Answer) :=
  List.replicate 6 ⟨index, { toolCallCount := 1, serialized := serialized.toList }⟩

def oneFile (name contents : String) : Option (Dict Text Text) :=
  some (Dict.empty.set name.toList contents.toList)

/-- Two captures, one after the other, behind a first trace. -/
theorem retry_kept : ∃ pool : Pool Shared Process, Intact (oneFile "trace-1.json" "first") pool ∧
      pool.shared.files.keys = ["trace-1.json".toList, "trace-2.json".toList,
        "trace-3.json".toList] := by
  have hrun : ∃ pool, StepSystem.exec (StepSystem.checked (step advance) isAlone)
      (start (oneFile "trace-1.json" "first") 2)
      (wholeCapture 0 "second" ++ wholeCapture 1 "third") = some pool ∧
        pool.shared.files.keys = ["trace-1.json".toList, "trace-2.json".toList,
          "trace-3.json".toList] := by
    refine ⟨_, rfl, ?_⟩
    decide +kernel
  obtain ⟨pool, hexec, hkeys⟩ := hrun
  refine ⟨pool, traces_kept _ _ (fun n hn => ?_)
    (StepSystem.Run.of_exec (fun _ _ => alone_of_isAlone) hexec), hkeys⟩
  have hfirst : traceName 1 = "trace-1.json".toList := by decide +kernel
  have hname : traceName n = traceName 1 := by
    rw [hfirst]
    exact List.mem_singleton.mp hn
  rw [traceName_inj hname]
  decide +kernel

/-- Behind a gap in the numbers a capture overwrites a trace, and so does the later of two captures
that list the directory at the same time. -/
theorem traces_lost : (∃ (turns : List (Turn Answer)) (pool : Pool Shared Process),
      Runs advance (fun _ _ => True) (start (oneFile "trace-2.json" "old") 1) turns pool ∧
        ¬Intact (oneFile "trace-2.json" "old") pool) ∧
    ∃ (turns : List (Turn Answer)) (pool : Pool Shared Process),
      Runs advance (fun _ _ => True) (start none 2) turns pool ∧ ¬Intact none pool := by
  constructor
  · refine ⟨wholeCapture 0 "new", _, StepSystem.freeRun_iff_exec.mpr rfl, fun hintact => ?_⟩
    have hkept := hintact.kept "trace-2.json".toList "old".toList (by decide +kernel)
    exact absurd hkept (by decide +kernel)
  · refine ⟨(wholeCapture 0 "first").zip (wholeCapture 1 "second") |>.flatMap
      (fun turns => [turns.1, turns.2]), _, StepSystem.freeRun_iff_exec.mpr rfl,
      fun hintact => ?_⟩
    exact absurd hintact.fresh.1 (by decide +kernel)

end TraceWriter

end Aof
