import Aof.Proof.CallOutcomes

/-!
# The calls of the store are serializable

Calls on one task that never write on an outdated read leave one copy of the task, and it is the one
that the successful calls would have left one after the other.
-/

namespace Aof

open Interference
open TaskFiles (quietly)

def Account.opening (document : Document) (mtimeMs : Nat) : Account where
  settled := document
  place := document.status
  newest := ⟨document, mtimeMs⟩

variable {calls : List StoreCall} {document : Document} {files : TaskFiles}
  {turns : List (Async.Turn OsAnswer)} {pool : Async.Pool TaskOp TaskReply TaskFiles}
  {turn : Async.Turn OsAnswer}

theorem Accounts.opening {mtimeMs : Nat} (hpos : 0 < mtimeMs) (hclock : mtimeMs ≤ files.clock)
    (hcopies : ∀ dir, files.copies dir = if dir =
      document.status then some ⟨document, mtimeMs⟩ else none)
    (hfree : files.holder = none) :
    Accounts calls document (files, Account.opening document mtimeMs) where
  newest := by
    refine ⟨by rw [hcopies]; exact if_pos rfl, fun other copy hother hcopy => ?_⟩
    rw [hcopies, if_neg (show ¬other = document.status from hother)] at hcopy
    cases hcopy
  pos := hpos
  clock := hclock
  serial := rfl
  nodup := List.nodup_nil
  whole _ := rfl
  ahead index hhalf := nomatch hhalf
  status := rfl
  dependsOn := rfl
  rest _ := ⟨rfl, fun dir hdir => by rw [hcopies]; exact if_neg hdir⟩
  held index hheld := by
    rw [hfree] at hheld
    cases hheld
  prepared index hhalf := nomatch hhalf
  uncounted index hhalf := nomatch hhalf

theorem accounted {calls : List StoreCall} {document : Document} {files : TaskFiles}
    (hstored : Stored document files) (hfree : files.holder = none) (hrecord : files.record = {})
    {turns : List (Async.Turn OsAnswer)} {pool : Async.Pool TaskOp TaskReply TaskFiles}
    (hrun : Async.Runs TaskFiles.perform (Uncrossed calls)
      ⟨files, calls.map StoreCall.program⟩ turns pool) :
    ∃ account, (accounting calls document).SafePool
      (fun index result => Ended index (result.isSome = true))
      ⟨(pool.shared, account), pool.programs⟩ := by
  obtain ⟨mtimeMs, hpos, hclock, hcopies⟩ := hstored.only
  obtain ⟨account, hfollowed⟩ :=
    hrun.withGhost (Account.update calls) (Account.opening document mtimeMs)
  have hinv : Accounts calls document (files, Account.opening document mtimeMs) :=
    Accounts.opening hpos hclock hcopies hfree
  have hstart : (accounting calls document).SafePool
      (fun index result => Ended index (result.isSome = true))
      ⟨(files, Account.opening document mtimeMs), calls.map StoreCall.program⟩ := by
    refine ⟨hinv, fun index program hprogram => ?_⟩
    rw [List.getElem?_map, Option.map_eq_some_iff] at hprogram
    obtain ⟨call, hcall, rfl⟩ := hprogram
    have hends : Ended index False (files, Account.opening document mtimeMs) := by
      refine ⟨?_, ?_, ?_, ?_⟩
      · rw [hfree]
        simp
      · simp [Account.opening]
      · simp [Account.opening]
      · rw [hrecord]
        simp
    refine (accounting_program hcall _ hinv hends).mono fun result s _ hs => ?_
    cases result with
    | none => simpa [Ended] using hs
    | some _ => simpa [Ended] using hs
  exact ⟨account, hstart.run hfollowed⟩

theorem SafePool.rests {pool : Async.Pool TaskOp TaskReply Accounted}
    (hpool : (accounting calls document).SafePool (fun index result => Ended index (result.isSome
      = true)) pool) (hlength : pool.programs.length = calls.length) (hsettled : pool.Settled) :
    pool.shared.1.holder = none ∧ pool.shared.2.half = none ∧
      ∀ index, index ∈ pool.shared.2.order ↔ pool.programs[index]? = some (.ret ()) := by
  have hended : ∀ index, index < calls.length → ∃ result : Option Unit,
      Ended index (result.isSome = true) pool.shared ∧
        (pool.programs[index]? = some (.ret ()) ↔ result.isSome = true) := by
    intro index hindex
    obtain ⟨program, hprogram⟩ : ∃ program, pool.programs[index]? = some program :=
      ⟨_, List.getElem?_eq_getElem (hlength ▸ hindex)⟩
    have hdone := hsettled program (List.mem_of_getElem? hprogram)
    cases program with
    | ret value => exact ⟨some (), hpool.outcome_of_ret hprogram, by simp [hprogram]⟩
    | throw => exact ⟨none, hpool.outcome_of_throw hprogram, by simp [hprogram]⟩
    | await op rest => cases hdone
  have hinv := hpool.inv
  refine ⟨?_, ?_, fun index => ⟨fun hmem => ?_, fun hret => ?_⟩⟩
  · cases hheld : pool.shared.1.holder with
    | none => rfl
    | some index =>
        obtain ⟨result, hends, -⟩ := hended index (hinv.held index hheld)
        exact absurd hheld fun h => hends.holder.mp h
  · cases hhalf : pool.shared.2.half with
    | none => rfl
    | some index =>
        obtain ⟨call, next, hcall, -⟩ := hinv.prepared index hhalf
        obtain ⟨result, hends, -⟩ := hended index (List.getElem?_eq_some_iff.mp hcall).1
        exact absurd hhalf fun h => hends.half.mp h
  · obtain ⟨result, hends, hiff⟩ := hended index (lt_of_mem_effects hinv.serial index hmem)
    exact hiff.mpr (hends.counted.mp hmem)
  · have hindex := (List.getElem?_eq_some_iff.mp hret).1
    obtain ⟨result, hends, hiff⟩ := hended index (hlength ▸ hindex)
    exact hends.counted.mpr (hiff.mp hret)

/-- If no call fails on the file system, and no call writes, and no release begins its transition,
on a read that another call's write has outdated or while another call is between its first write
and its return, and no get removes the newest copy, then one copy is left, and a get returns the
task that some serial order of the successful calls leaves. -/
theorem calls_serializable {calls : List StoreCall} {document : Document} {files : TaskFiles}
    (hstored : Stored document files) (hfree : files.holder = none) (hrecord : files.record = {})
    {turns : List (Async.Turn OsAnswer)} {pool : Async.Pool TaskOp TaskReply TaskFiles}
    (hrun : Async.Runs TaskFiles.perform (Uncrossed calls)
      ⟨files, calls.map StoreCall.program⟩ turns pool) (hsettled : pool.Settled) :
    (∃! dir, (pool.shared.copies dir).isSome) ∧ ∃ order, order.Nodup ∧
        (∀ index, index ∈ order ↔ pool.programs[index]? = some (.ret ())) ∧
        ∃ last task after found, serially calls order files = some last ∧
          Aof.get.alone quietly last = some (some task, after) ∧
          Aof.get.alone quietly pool.shared = some (some task, found) := by
  obtain ⟨account, hpool⟩ := accounted hstored hfree hrecord hrun
  have hlength : pool.programs.length = calls.length := by
    rw [hrun.length_programs, List.length_map]
  obtain ⟨hholder, hhalf, horder⟩ := SafePool.rests hpool hlength hsettled
  have hinv := hpool.inv
  obtain ⟨hplace, halone⟩ := hinv.rest hholder
  have hwhole : account.newest.document = account.settled := hinv.whole hhalf
  constructor
  · refine ⟨account.place, ?_, fun dir hdir => ?_⟩
    · show (pool.shared.copies account.place).isSome = true
      rw [hinv.newest.copy]
      rfl
    · by_contra hother
      have hnone : pool.shared.copies dir = none := halone dir hother
      have hsome : (pool.shared.copies dir).isSome = true := hdir
      rw [hnone] at hsome
      cases hsome
  · obtain ⟨last, hserial, hlast⟩ := serially_of_effects hstored hfree hinv.serial
    obtain ⟨found, hget⟩ := hinv.newest.alone_get
    obtain ⟨after, halone, -⟩ := yields_get last hlast rfl
    refine ⟨account.order, hinv.nodup, horder, last, _, after, found, hserial, halone, ?_⟩
    rw [← hwhole]
    have hpath : account.place = account.newest.document.status := hplace
    rw [← hpath]
    exact hget

def keepsToGuard (calls : List StoreCall) (pool : Async.Pool TaskOp TaskReply TaskFiles)
    (turn : Async.Turn OsAnswer) : Bool :=
  let undisturbed := (List.range calls.length).all fun other =>
    other == turn.index || !pool.shared.record.ahead other
  !turn.answer.fails &&
    match pool.programs[turn.index]? with
    | some (.await (.writeFile ..) _) =>
        0 < turn.answer.elapsed && undisturbed &&
          pool.shared.record.viewed turn.index == some pool.shared.record.writes
    | some (.await (.rename ..) _) => undisturbed
    | some (.await (.rm _) _) => false
    | some (.await (.readFile _) _) => !(calls[turn.index]?.any StoreCall.releases)
    | _ => true

theorem ahead_of_step {next : Async.Pool TaskOp TaskReply TaskFiles}
    (hstep : Async.step TaskFiles.perform pool turn = some next)
    (hahead : ∀ other, pool.programs.length ≤ other → pool.shared.record.ahead other = false) :
    ∀ other, next.programs.length ≤ other → next.shared.record.ahead other = false := by
  intro other hother
  rw [Async.length_programs_of_step hstep] at hother
  obtain ⟨op, rest, reply, shared, hprogram, hperform, rfl⟩ := Async.step_eq_some.mp hstep
  have hne : other ≠ turn.index := by
    have hlt := (List.getElem?_eq_some_iff.mp hprogram).1
    omega
  have hold := hahead other hother
  rw [← hold]
  cases op with
  | readFile dir =>
      obtain ⟨-, rfl⟩ := Prod.mk.inj (Option.some.inj hperform)
      simp only [TaskFiles.beginRead]
      split <;> rfl
  | stat dir =>
      rcases perform_stat hperform with ⟨rfl, -⟩ | ⟨file, -, -, rfl⟩ <;> rfl
  | unlink dir => rcases perform_unlink hperform with rfl | rfl <;> rfl
  | rm dir =>
      obtain ⟨-, rfl⟩ := Prod.mk.inj (Option.some.inj hperform)
      split <;> rfl
  | writeFile dir document ahead =>
      simp only [TaskFiles.perform] at hperform
      split at hperform <;> obtain ⟨-, rfl⟩ := Prod.mk.inj (Option.some.inj hperform)
      · rfl
      · exact Function.update_of_ne hne _ _
  | rename source target =>
      simp only [TaskFiles.perform] at hperform
      split at hperform <;> obtain ⟨-, rfl⟩ := Prod.mk.inj (Option.some.inj hperform)
      · rfl
      · exact Function.update_of_ne hne _ _
  | lock =>
      simp only [TaskFiles.perform] at hperform
      split at hperform
      · cases hperform
      · obtain ⟨-, rfl⟩ := Prod.mk.inj (Option.some.inj hperform)
        rfl
  | finish =>
      obtain ⟨-, rfl⟩ := Prod.mk.inj (Option.some.inj hperform)
      exact Function.update_of_ne hne _ _
  | _ =>
      obtain ⟨-, rfl⟩ := Prod.mk.inj (Option.some.inj hperform)
      rfl

theorem uncrossed_of_test (hlength : pool.programs.length = calls.length)
    (hahead : ∀ other, pool.programs.length ≤ other → pool.shared.record.ahead other = false)
    (htest : keepsToGuard calls pool turn = true) : Async.Guarded (Uncrossed calls) pool turn := by
  intro op rest hprogram
  simp only [keepsToGuard, hprogram, Bool.and_eq_true, Bool.not_eq_true'] at htest
  obtain ⟨hfails, htest⟩ := htest
  have hundisturbed : ((List.range calls.length).all fun other =>
      other == turn.index || !pool.shared.record.ahead other) = true →
      Undisturbed turn.index pool.shared := by
    intro hall other hother
    by_cases hlt : other < calls.length
    · have := List.all_eq_true.mp hall other (List.mem_range.mpr hlt)
      simpa [hother] using this
    · exact hahead other (hlength ▸ not_lt.mp hlt)
  refine ⟨hfails, ?_⟩
  cases op with
  | writeFile dir document ahead =>
      simp only [Bool.and_eq_true, decide_eq_true_eq, beq_iff_eq] at htest
      exact ⟨htest.1.1, htest.2, hundisturbed htest.1.2⟩
  | rename source target => exact hundisturbed htest
  | rm dir => cases htest
  | readFile dir =>
      intro _ _ hreleases
      rw [hreleases] at htest
      cases htest
  | _ => trivial

theorem runs_of_exec {calls : List StoreCall} {files : TaskFiles}
    {turns : List (Async.Turn OsAnswer)} {pool : Async.Pool TaskOp TaskReply TaskFiles}
    (hrecord : files.record = {})
    (hexec : StepSystem.exec (StepSystem.checked (Async.step TaskFiles.perform)
      (keepsToGuard calls)) ⟨files, calls.map StoreCall.program⟩ turns = some pool) :
    Async.Runs TaskFiles.perform (Uncrossed calls) ⟨files, calls.map StoreCall.program⟩ turns
      pool := by
  refine (StepSystem.Run.of_exec_of_invariant (fun pool : Async.Pool TaskOp TaskReply TaskFiles =>
    pool.programs.length = calls.length ∧
      ∀ other, pool.programs.length ≤ other → pool.shared.record.ahead other = false) ?_ ?_ ?_
    hexec).1
  · rintro s turn t ⟨hlength, hahead⟩ hstep
    exact ⟨(Async.length_programs_of_step hstep).trans hlength, ahead_of_step hstep hahead⟩
  · rintro s turn ⟨hlength, hahead⟩ htest
    exact uncrossed_of_test hlength hahead htest
  · refine ⟨List.length_map .., fun other _ => ?_⟩
    rw [hrecord]

def leasedDocument : Document :=
  { plainDocument .inProgress with
    lease := some { agent := "agent", acquiredAt := 0, expiresAt := 10 } }

def renewal : StoreCall := .renewLease "agent" {} 2

def submission : StoreCall := .transition .review .empty 1

/-- The lease is renewed while the transition waits to read the task. -/
theorem renewed_serializable : ∃ turns pool,
    Async.Runs TaskFiles.perform (Uncrossed [renewal, submission])
      ⟨filed leasedDocument, [renewal, submission].map StoreCall.program⟩ turns pool ∧
    (∃! dir, (pool.shared.copies dir).isSome) ∧ ∃ order, order.Nodup ∧
        (∀ index, index ∈ order ↔ pool.programs[index]? = some (.ret ())) ∧
        ∃ last task after found, serially [renewal, submission] order (filed leasedDocument) =
            some last ∧ Aof.get.alone quietly last = some (some task, after) ∧
          Aof.get.alone quietly pool.shared = some (some task, found) := by
  have hexec : (StepSystem.exec (StepSystem.checked (Async.step TaskFiles.perform)
      (keepsToGuard [renewal, submission]))
      ⟨filed leasedDocument, [renewal, submission].map StoreCall.program⟩
      (⟨1, {}⟩ :: List.replicate 10 ⟨0, {}⟩ ++ List.replicate 15 ⟨1, {}⟩)).any (fun pool =>
        pool.programs.all Async.settled) = true := by rfl
  obtain ⟨pool, hpool, hsettled⟩ := (Option.any_eq_true _ _).mp hexec
  have hrun := runs_of_exec rfl hpool
  refine ⟨_, pool, hrun, ?_⟩
  exact calls_serializable ⟨1, Nat.one_pos, le_refl 1, fun _ => rfl⟩ rfl rfl hrun
    (List.all_eq_true.mp hsettled)

/-- A renewal reads the task, a transition moves it, and the renewal writes where it read: two
copies are left. -/
theorem renewal_resurrects : ∃ turns pool, StepSystem.FreeRun (Async.step TaskFiles.perform)
      ⟨filed leasedDocument, [renewal, submission].map StoreCall.program⟩ turns pool ∧
    (∀ turn ∈ turns, turn.answer.fails = false ∧ 0 < turn.answer.elapsed) ∧ pool.Settled ∧
    ¬∃! dir, (pool.shared.copies dir).isSome := by
  have hexec : (StepSystem.exec (Async.step TaskFiles.perform)
      ⟨filed leasedDocument, [renewal, submission].map StoreCall.program⟩
      (List.replicate 9 ⟨0, {}⟩ ++ List.replicate 16 ⟨1, {}⟩ ++ [⟨0, {}⟩])).any (fun pool =>
        pool.programs.all Async.settled && (pool.shared.copies .inProgress).isSome &&
          (pool.shared.copies .review).isSome) = true := by rfl
  obtain ⟨pool, hpool, htest⟩ := (Option.any_eq_true _ _).mp hexec
  rw [Bool.and_eq_true, Bool.and_eq_true] at htest
  refine ⟨_, pool, StepSystem.freeRun_iff_exec.mpr hpool, by decide,
    List.all_eq_true.mp htest.1.1, ?_⟩
  rintro ⟨dir, -, honly⟩
  have hsame := (honly _ htest.1.2).trans (honly _ htest.2).symm
  cases hsame

end Aof
