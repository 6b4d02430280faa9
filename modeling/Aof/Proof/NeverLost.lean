import Aof.Proof.TransitionAtomic

/-!
# Readers and a transition that fails

A get removes the older of two copies, and a transition that cannot move the companion directory
removes the newer one.  Some copy is left as long as the two do not meet.
-/

namespace Aof

open Interference

/-- The first call is the transition and the others are gets.  A written copy is newer than those
there are, a get learns the modification time of every copy that is there, and the transition only
takes back its copy while the old one is there and no get that is under way has the time of the new
one. -/
def Careful (newStatus : TaskStatus) (call : Nat) (answer : OsAnswer) (op : TaskOp)
    (files : TaskFiles) : Prop :=
  match op with
  | .writeFile .. => 0 < answer.elapsed
  | .stat dir => call ≠ 0 → files.copies dir ≠ none → answer.fails = false
  | .unlink dir => dir = newStatus → answer.fails = false →
      (∃ old, old ≠ dir ∧ files.copies old ≠ none) ∧
        ∀ other, other ≠ 0 → files.record.timed other dir = false
  | _ => True

/-- The copies while the transition moves the task: at most one write has been made, the old copy is
older than the new one, and no get has the time of a new copy that was taken back. -/
structure InTransit (document : Document) (new : TaskStatus) (time start : Nat)
    (files : TaskFiles) : Prop where
  places : ∀ dir, files.copies dir ≠ none → dir = document.status ∨ dir = new
  old : ∀ file, files.copies document.status = some file → file = ⟨document, time⟩
  newer : ∀ file, files.copies new = some file → time < file.mtimeMs
  pos : 0 < time
  clock : time ≤ files.clock
  writes : files.record.writes = start ∨ files.record.writes = start + 1
  unwritten : files.record.writes = start → files.copies new = none
  kept : files.copies document.status ≠ none ∨ files.copies new ≠ none
  timed : ∀ call, call ≠ 0 → files.record.timed call new = true → files.copies new ≠ none

/-- What the gets may do to the transition: they remove the old copy once the new one is there. -/
structure TransitionRelies (document : Document) (new : TaskStatus) (s t : TaskFiles) : Prop where
  writes : t.record.writes = s.record.writes
  new : t.copies new = s.copies new
  clock : t.clock = s.clock

/-- What the others may do to a get: a copy that is gone stays away. -/
structure GetRelies (document : Document) (new : TaskStatus) (start call : Nat)
    (s t : TaskFiles) : Prop where
  timed : t.record.timed call = s.record.timed call
  written : s.record.writes = start + 1 → t.record.writes = start + 1
  old : s.copies document.status = none → t.copies document.status = none
  new : s.record.writes = start + 1 → s.copies new = none → t.copies new = none

section Watching

variable (document : Document) (newStatus new : TaskStatus) (time start : Nat)

def watching : TaskEnv where
  perform := TaskFiles.perform
  allowed := Careful newStatus
  inv := InTransit document new time start
  rely index s t :=
    if index = 0 then TransitionRelies document new s t
    else GetRelies document new start index s t
  rely_refl index s := by
    split
    · exact ⟨rfl, rfl, rfl⟩
    · exact ⟨rfl, id, id, fun _ h => h⟩
  rely_trans index s t u hst htu := by
    split at hst
    · rename_i hindex
      rw [if_pos hindex] at htu ⊢
      exact ⟨htu.writes.trans hst.writes, htu.new.trans hst.new, htu.clock.trans hst.clock⟩
    · rename_i hindex
      rw [if_neg hindex] at htu ⊢
      exact ⟨htu.timed.trans hst.timed, fun h => htu.written (hst.written h),
        fun h => htu.old (hst.old h), fun hw h => htu.new (hst.written hw) (hst.new hw h)⟩

variable {document newStatus new time start}

variable {s t : TaskFiles} {index : Nat} {dir : TaskStatus} {op : TaskOp} {pre : TaskFiles → Prop}
  {copy : Match} {dirs : List TaskStatus} {found : List Match}

theorem watching_rely_zero : (watching document newStatus new time start).rely 0 s t ↔
      TransitionRelies document new s t := by
  simp [watching]

theorem watching_rely {call : Nat} (hcall : call ≠ 0) :
    (watching document newStatus new time start).rely call s t ↔
      GetRelies document new start call s t := by
  simp [watching, hcall]

section

variable (hs : InTransit document new time start s) (hcopies : t.copies = s.copies)
  (hclock : t.clock = s.clock)
include hs hcopies hclock

theorem InTransit.congr (hwrites : t.record.writes = s.record.writes)
    (htimed : ∀ call, call ≠ 0 → t.record.timed call new = true → t.copies new ≠ none) :
    InTransit document new time start t where
  places := by rw [hcopies]; exact hs.places
  old := by rw [hcopies]; exact hs.old
  newer := by rw [hcopies]; exact hs.newer
  pos := hs.pos
  clock := by rw [hclock]; exact hs.clock
  writes := by rw [hwrites]; exact hs.writes
  unwritten := by rw [hwrites, hcopies]; exact hs.unwritten
  kept := by rw [hcopies]; exact hs.kept
  timed := htimed

theorem watching_keeps (hwrites : t.record.writes = s.record.writes)
    (hothers : ∀ call, call ≠ index → t.record.timed call = s.record.timed call)
    (hown : index ≠ 0 → t.record.timed index new = true → t.copies new ≠ none) :
    (watching document newStatus new time start).Keeps index s t := by
  have htimed : ∀ call, call ≠ 0 → t.record.timed call new = true → t.copies new ≠ none := by
    intro call hcall htrue
    by_cases hindex : call = index
    · subst hindex
      exact hown hcall htrue
    · rw [hothers call hindex] at htrue
      rw [hcopies]
      exact hs.timed call hcall htrue
  refine ⟨hs.congr hcopies hclock hwrites htimed, fun other hother => ?_⟩
  by_cases hzero : other = 0
  · subst hzero
    exact watching_rely_zero.mpr ⟨hwrites, by rw [hcopies], hclock⟩
  · refine (watching_rely hzero).mpr ⟨hothers other hother, ?_, ?_, ?_⟩
    · rw [hwrites]; exact id
    · rw [hcopies]; exact id
    · rw [hcopies]; exact fun _ h => h

theorem watching_same (hrecord : t.record = s.record) :
    (watching document newStatus new time start).Keeps index s t := by
  apply watching_keeps hs hcopies hclock (by rw [hrecord]) (fun call _ => by rw [hrecord])
  intro hindex htrue
  rw [hrecord] at htrue
  rw [hcopies]
  exact hs.timed index hindex htrue

end

theorem watching_remove {other : TaskStatus} (hs : InTransit document new time start s)
    (hother : other ≠ dir) (hpresent : s.copies other ≠ none)
    (hnew : dir = new → index = 0 ∧ ∀ call, call ≠ 0 → s.record.timed call new = false) :
    (watching document newStatus new time start).Keeps index s (s.remove dir) := by
  have hsub : ∀ place file, (s.remove dir).copies place = some file →
      place ≠ dir ∧ s.copies place = some file := by
    intro place file hplace
    simp only [TaskFiles.remove, Function.update_apply] at hplace
    split at hplace
    · cases hplace
    · rename_i hne
      exact ⟨hne, hplace⟩
  have hnone : ∀ place, s.copies place = none → (s.remove dir).copies place = none := by
    intro place hplace
    simp only [TaskFiles.remove, Function.update_apply]
    split
    · rfl
    · exact hplace
  have hkeep : (s.remove dir).copies other ≠ none := by
    simpa only [TaskFiles.remove, Function.update_of_ne hother] using hpresent
  refine ⟨⟨?_, ?_, ?_, hs.pos, hs.clock, hs.writes, ?_, ?_, ?_⟩, fun call hcall => ?_⟩
  · exact fun place hplace => hs.places place fun h => hplace (hnone place h)
  · exact fun file hfile => hs.old file (hsub _ file hfile).2
  · exact fun file hfile => hs.newer file (hsub _ file hfile).2
  · exact fun hwrites => hnone _ (hs.unwritten hwrites)
  · rcases hs.places other hpresent with rfl | rfl
    · exact .inl hkeep
    · exact .inr hkeep
  · intro call hcall htimed
    have hne : new ≠ dir := by
      intro hdir
      have hfalse := (hnew hdir.symm).2 call hcall
      rw [show (s.remove dir).record = s.record from rfl, hfalse] at htimed
      cases htimed
    simpa only [TaskFiles.remove, Function.update_of_ne hne] using hs.timed call hcall htimed
  · by_cases hzero : call = 0
    · subst hzero
      refine watching_rely_zero.mpr ⟨rfl, ?_, rfl⟩
      have hne : new ≠ dir := fun hdir => hcall (hnew hdir.symm).1.symm
      simp only [TaskFiles.remove, Function.update_of_ne hne]
    · exact (watching_rely hzero).mpr ⟨rfl, id, hnone _, fun _ => hnone _⟩

theorem stable_writes (writes : Nat) : (watching document newStatus new time start).Stable 0
    fun s => s.record.writes = writes := by
  intro s t hrely _ hs
  exact (watching_rely_zero.mp hrely).writes.trans hs

def Written (new : TaskStatus) (start : Nat) (files : TaskFiles) : Prop :=
  files.record.writes = start + 1 ∧ files.copies new ≠ none

theorem stable_written :
    (watching document newStatus new time start).Stable 0 (Written new start) := by
  rintro s t hrely - ⟨hwrites, hnew⟩
  have hrely := watching_rely_zero.mp hrely
  exact ⟨hrely.writes.trans hwrites, by rwa [hrely.new]⟩

theorem watching_transition_get :
    (watching document newStatus new time start).Triple 0 (fun s => s.record.writes = start)
      Aof.get (fun winner s => s.record.writes = start ∧
        (winner = none ∨ winner = some ⟨document, document.status⟩)) fun _ => True := by
  apply triple_get_sole rfl (stable_writes start)
  · refine ⟨?_, ?_, ?_⟩
    · intro s hinv _
      exact watching_keeps hinv rfl rfl rfl (fun _ _ => rfl) fun h => absurd rfl h
    · intro s dir hinv hs
      have hsame := sameFiles_beginRead s 0 dir
      refine ⟨watching_keeps hinv hsame.copies hsame.clock (writes_beginRead s 0 dir) ?_
        fun h => absurd rfl h, (writes_beginRead s 0 dir).trans hs⟩
      exact fun call hcall => timed_beginRead_of_ne s hcall dir
    · intro s dir file hinv hs _
      refine ⟨watching_keeps hinv rfl rfl rfl ?_ fun h => absurd rfl h, hs⟩
      exact fun call hcall => timed_noteTime_of_ne s hcall dir
  · intro s dir file hinv hs hcopy
    have hpresent : s.copies dir ≠ none := by
      rw [hcopy]
      exact Option.some_ne_none file
    rcases hinv.places dir hpresent with rfl | rfl
    · exact ⟨rfl, by rw [hinv.old file hcopy]⟩
    · exact absurd (hinv.unwritten hs) hpresent

theorem watching_perform {op : TaskOp} {pre : TaskFiles → Prop}
    {post : TaskReply op → TaskFiles → Prop}
    (hpre : (watching document newStatus new time start).Stable 0 pre)
    (hpost : ∀ reply, (watching document newStatus new time start).Stable 0 (post reply))
    (hstep : ∀ s answer reply t, InTransit document new time start s → pre s →
      Careful newStatus 0 answer op s → TaskFiles.perform 0 answer op s = some (reply, t) →
      (watching document newStatus new time start).Keeps 0 s t ∧ post reply t) :
    (watching document newStatus new time start).Triple 0 pre (TaskProgram.perform op) post
      fun _ => True :=
  Triple.perform hpre hpost hstep

theorem watching_write (hne : new ≠ document.status) (moved : Document) :
    (watching document new new time start).Triple 0 (fun s => s.record.writes = start)
      (TaskProgram.writeFileAtomic new moved) (fun _ => Written new start) fun _ => True := by
  apply triple_orThrow stable_written (stable_const True)
  apply watching_perform (stable_writes start)
  · intro reply
    cases reply with
    | false => exact stable_const True
    | true => exact stable_written
  rintro s answer reply t hinv hs hcareful hperform
  simp only [TaskFiles.perform] at hperform
  split at hperform <;> obtain ⟨rfl, rfl⟩ := Prod.mk.inj (Option.some.inj hperform)
  · exact ⟨watching_keeps hinv rfl rfl rfl (fun _ _ => rfl) fun h => absurd rfl h, trivial⟩
  · have hnone := hinv.unwritten hs
    have hwrites : s.record.writes + 1 = start + 1 := by rw [hs]
    have hold : ((s.write new moved answer.elapsed).noteWrite 0 false).copies document.status =
        s.copies document.status := Function.update_of_ne hne.symm _ _
    have hnew : ((s.write new moved answer.elapsed).noteWrite 0 false).copies new =
        some ⟨moved, s.clock + answer.elapsed⟩ := Function.update_self ..
    refine ⟨⟨⟨?_, ?_, ?_, hinv.pos, ?_, .inr hwrites, ?_, ?_, ?_⟩, fun call hcall => ?_⟩,
      hwrites, ?_⟩
    · intro dir hdir
      by_cases heq : dir = new
      · exact .inr heq
      · apply hinv.places dir
        simpa only [TaskFiles.noteWrite, TaskFiles.write, Function.update_of_ne heq] using hdir
    · rw [hold]
      exact hinv.old
    · intro file hfile
      rw [hnew, Option.some.injEq] at hfile
      rw [← hfile]
      have hticking : 0 < answer.elapsed := hcareful
      exact lt_of_le_of_lt hinv.clock (Nat.lt_add_of_pos_right hticking)
    · exact hinv.clock.trans (Nat.le_add_right _ _)
    · intro hunwritten
      exact absurd (hwrites.symm.trans hunwritten) (Nat.succ_ne_self start)
    · exact .inr (by rw [hnew]; exact Option.some_ne_none _)
    · exact fun _ _ _ => by rw [hnew]; exact Option.some_ne_none _
    · refine (watching_rely hcall).mpr ⟨rfl, fun _ => hwrites, ?_, ?_⟩
      · rw [hold]
        exact id
      · intro hwritten
        rw [hs] at hwritten
        exact absurd hwritten.symm (Nat.succ_ne_self start)
    · rw [hnew]
      exact Option.some_ne_none _

theorem watching_idle {op : TaskOp} {pre post : TaskFiles → Prop}
    (hpre : (watching document newStatus new time start).Stable 0 pre)
    (hpost : (watching document newStatus new time start).Stable 0 post)
    (himplies : ∀ s t, pre s → t.copies = s.copies → t.record.writes = s.record.writes → post t)
    (hidle : ∀ s answer reply t, TaskFiles.perform 0 answer op s = some (reply, t) →
      t.copies = s.copies ∧ t.clock = s.clock ∧ t.record.writes = s.record.writes ∧
        ∀ call, call ≠ 0 → t.record.timed call = s.record.timed call) :
    (watching document newStatus new time start).Triple 0 pre (TaskProgram.perform op)
      (fun _ => post) fun _ => True := by
  apply watching_perform hpre fun _ => hpost
  intro s answer reply t hinv hs _ hperform
  obtain ⟨hcopies, hclock, hwrites, htimed⟩ := hidle s answer reply t hperform
  exact ⟨watching_keeps hinv hcopies hclock hwrites htimed fun h => absurd rfl h,
    himplies s t hs hcopies hwrites⟩

theorem watching_relocate (hne : new ≠ document.status) (moved : Document) :
    (watching document new new time start).Triple 0 (fun s => s.record.writes = start)
      (relocate document.status new moved) (fun _ _ => True) fun _ => True := by
  have hmkdir : (watching document new new time start).Triple 0
      (fun s => s.record.writes = start) TaskProgram.mkdir
      (fun _ s => s.record.writes = start) fun _ => True := by
    apply triple_orThrow (stable_writes start) (stable_const True)
    have hidle : (watching document new new time start).Triple 0
        (fun s => s.record.writes = start) (TaskProgram.perform .mkdir)
        (fun _ s => s.record.writes = start) fun _ => True := by
      apply watching_idle (stable_writes start) (stable_writes start)
      · exact fun s t hs _ hwrites => hwrites.trans hs
      · intro s answer reply t hperform
        obtain ⟨-, rfl⟩ := Prod.mk.inj (Option.some.inj hperform)
        exact ⟨rfl, rfl, rfl, fun _ _ => rfl⟩
    apply hidle.conseq (fun _ _ h => h) (fun succeeds s _ hs => ?_) fun _ _ h => h
    split
    · exact hs
    · trivial
  have hwritten : ∀ s t : TaskFiles, Written new start s → t.copies = s.copies →
      t.record.writes = s.record.writes → Written new start t :=
    fun s t hs hcopies hwrites => ⟨hwrites.trans hs.1, by rw [hcopies]; exact hs.2⟩
  have hcompanion : (watching document new new time start).Triple 0 (Written new start)
      TaskProgram.moveCompanion (fun _ => Written new start) fun _ => True := by
    apply watching_idle stable_written stable_written hwritten
    intro s answer reply t hperform
    obtain ⟨-, rfl⟩ := Prod.mk.inj (Option.some.inj hperform)
    exact ⟨rfl, rfl, rfl, fun _ _ => rfl⟩
  have hstat : (watching document new new time start).Triple 0 (Written new start)
      (TaskProgram.stat new) (fun _ => Written new start) fun _ => True := by
    apply watching_idle stable_written stable_written hwritten
    intro s answer reply t hperform
    rcases perform_stat hperform with ⟨rfl, -⟩ | ⟨file, -, -, rfl⟩
    · exact ⟨rfl, rfl, rfl, fun _ _ => rfl⟩
    · exact ⟨rfl, rfl, rfl, fun call hcall => timed_noteTime_of_ne s hcall new⟩
  -- the new copy is only taken back while the old one is there, and stays when the old one goes
  have hunlink : ∀ dir, dir = new ∨ dir = document.status →
      (watching document new new time start).Triple 0 (Written new start)
        (TaskProgram.unlink dir) (fun _ _ => True) fun _ => True := by
    intro dir hdir
    apply watching_perform stable_written fun _ => stable_const True
    intro s answer reply t hinv hs hcareful hperform
    refine ⟨?_, trivial⟩
    simp only [TaskFiles.perform] at hperform
    split at hperform
    · obtain ⟨-, rfl⟩ := Prod.mk.inj (Option.some.inj hperform)
      exact watching_same hinv rfl rfl rfl
    · rename_i hsucceeds
      split at hperform <;> obtain ⟨-, rfl⟩ := Prod.mk.inj (Option.some.inj hperform)
      · rcases hdir with rfl | rfl
        · obtain ⟨⟨old, hold, hpresent⟩, htimed⟩ := hcareful rfl (by simpa using hsucceeds)
          exact watching_remove hinv hold hpresent fun _ => ⟨rfl, htimed⟩
        · exact watching_remove hinv hne hs.2 fun h => absurd h.symm hne
      · exact watching_same hinv rfl rfl rfl
  apply hmkdir.bind
  intro _
  apply (watching_write hne moved).bind
  intro _
  apply hcompanion.bind
  intro moved
  cases moved with
  | ok | ENOENT =>
      apply hstat.bind
      intro mtimeMs
      cases mtimeMs with
      | none => exact Triple.ret stable_written fun _ _ _ => trivial
      | some _ =>
          apply (hunlink _ (.inr rfl)).bind
          intro _
          exact Triple.ret (stable_const True) fun _ _ _ => trivial
  | other =>
      apply (hunlink _ (.inl rfl)).bind
      intro _
      exact Triple.throw (stable_const True) fun _ _ h => h

section

variable (hne : new ≠ document.status) (hnew : newStatus = document.status ∨ newStatus = new)
  (metadataPatch : Dict String JsValue) (now : Nat)
include hne hnew metadataPatch now

theorem watching_transitionTask : (watching document newStatus new time start).Triple 0
      (fun s => s.record.writes = start) (transitionTask newStatus metadataPatch now)
      (fun _ _ => True) fun _ => True := by
  apply triple_transitionTask (stable_writes start) watching_transition_get
  intro hmoves _
  obtain rfl : newStatus = new := hnew.resolve_left (Ne.symm hmoves)
  rw [place, if_pos hne.symm]
  exact watching_relocate hne _

theorem watching_transition : (watching document newStatus new time start).Triple 0
      (fun s => s.record.writes = start)
      (StoreCall.transition newStatus metadataPatch now).program (fun _ _ => True)
      fun _ => True := by
  have hlock : (watching document newStatus new time start).Triple 0
      (fun s => s.record.writes = start) (TaskProgram.perform .lock)
      (fun _ s => s.record.writes = start) fun _ => True := by
    apply watching_idle (stable_writes start) (stable_writes start)
    · exact fun s t hs _ hwrites => hwrites.trans hs
    · intro s answer reply t hperform
      simp only [TaskFiles.perform] at hperform
      split at hperform
      · cases hperform
      · obtain ⟨-, rfl⟩ := Prod.mk.inj (Option.some.inj hperform)
        exact ⟨rfl, rfl, rfl, fun _ _ => rfl⟩
  have hunlock : (watching document newStatus new time start).Triple 0 (fun _ => True)
      (TaskProgram.perform .unlock) (fun _ _ => True) fun _ => True := by
    apply watching_idle (stable_const True) (stable_const True) fun _ _ _ _ _ => trivial
    intro s answer reply t hperform
    obtain ⟨-, rfl⟩ := Prod.mk.inj (Option.some.inj hperform)
    exact ⟨rfl, rfl, rfl, fun _ _ => rfl⟩
  have hlocked : (watching document newStatus new time start).Triple 0
      (fun s => s.record.writes = start) (transition newStatus metadataPatch now)
      (fun _ _ => True) fun _ => True :=
    triple_locked (fun _ => stable_const True) (stable_const True) hlock
      (watching_transitionTask hne hnew metadataPatch now) (fun _ => hunlock) hunlock
  apply hlocked.bind
  intro _
  exact Triple.ret (stable_const True) fun _ _ _ => trivial

end

/-- What a get knows of a copy that it has found: the old copy, which has gone if its time was not
read; or the new copy, which is there if its time was read and was taken back if it was not. -/
def Seen (document : Document) (new : TaskStatus) (time start call : Nat) (copy : Match)
    (files : TaskFiles) : Prop :=
  (copy.task.path = document.status ∧
      (copy.mtimeMs = time ∨ copy.mtimeMs = 0 ∧ files.copies document.status = none)) ∨
    copy.task.path = new ∧ ((time < copy.mtimeMs ∧ files.record.timed call new = true) ∨
      copy.mtimeMs = 0 ∧ files.record.writes = start + 1 ∧ files.copies new = none)

/-- A copy that a get may remove: it is gone, or it is the old one and the new one stays. -/
def Removable (document : Document) (new : TaskStatus) (start call : Nat) (dir : TaskStatus)
    (files : TaskFiles) : Prop :=
  (dir = document.status ∧
      (files.copies document.status = none ∨ files.record.timed call new = true)) ∨
    dir = new ∧ files.record.writes = start + 1 ∧ files.copies new = none

def SearchingAny (document : Document) (new : TaskStatus) (time start call : Nat)
    (dirs : List TaskStatus) (found : List Match) (files : TaskFiles) : Prop :=
  dirs <:+ STATUS_DIRS ∧ (dirs = STATUS_DIRS → found = []) ∧
    (found.map fun copy => copy.task.path).Nodup ∧
    ∀ copy ∈ found, copy.task.path ∉ dirs ∧ Seen document new time start call copy files

def ReadingAny (document : Document) (new : TaskStatus) (time start call : Nat) (dir : TaskStatus)
    (_ : Document) (dirs : List TaskStatus) (found : List Match) (files : TaskFiles) : Prop :=
  (dir :: dirs) <:+ STATUS_DIRS ∧ (found.map fun copy => copy.task.path).Nodup ∧
    (dir = document.status ∨ dir = new ∧ files.record.writes = start + 1) ∧
    ∀ copy ∈ found, copy.task.path ∉ dir :: dirs ∧ Seen document new time start call copy files

def RemovingAny (document : Document) (new : TaskStatus) (start call : Nat)
    (_ : Option TaskObject) (stale : List Match) (files : TaskFiles) : Prop :=
  ∀ copy ∈ stale, Removable document new start call copy.task.path files

variable {call : Nat}

theorem Seen.mono (hseen : Seen document new time start call copy s)
    (htimed : s.record.timed call new = true → t.record.timed call new = true)
    (hwritten : s.record.writes = start + 1 → t.record.writes = start + 1)
    (hold : s.copies document.status = none → t.copies document.status = none)
    (hnew : s.record.writes = start + 1 → s.copies new = none → t.copies new = none) :
    Seen document new time start call copy t := by
  rcases hseen with ⟨hpath, htime | ⟨hzero, hnone⟩⟩ | ⟨hpath, ⟨htime, hknown⟩ | ⟨hzero, hwrites,
    hnone⟩⟩
  · exact .inl ⟨hpath, .inl htime⟩
  · exact .inl ⟨hpath, .inr ⟨hzero, hold hnone⟩⟩
  · exact .inr ⟨hpath, .inl ⟨htime, htimed hknown⟩⟩
  · exact .inr ⟨hpath, .inr ⟨hzero, hwritten hwrites, hnew hwrites hnone⟩⟩

theorem Seen.stable (hseen : Seen document new time start call copy s)
    (hrely : GetRelies document new start call s t) : Seen document new time start call copy t :=
  hseen.mono (fun h => by rwa [hrely.timed]) hrely.written hrely.old hrely.new

theorem Removable.stable (hremovable : Removable document new start call dir s)
    (hrely : GetRelies document new start call s t) : Removable document new start call dir t := by
  rcases hremovable with ⟨hdir, hnone | htimed⟩ | ⟨hdir, hwrites, hnone⟩
  · exact .inl ⟨hdir, .inl (hrely.old hnone)⟩
  · exact .inl ⟨hdir, .inr (by rw [hrely.timed]; exact htimed)⟩
  · exact .inr ⟨hdir, hrely.written hwrites, hrely.new hwrites hnone⟩

theorem stable_searching (hcall : call ≠ 0) (dirs : List TaskStatus) (found : List Match) :
    (watching document newStatus new time start).Stable call
      (SearchingAny document new time start call dirs found) := by
  rintro s t hrely - ⟨hsuffix, hstart, hnodup, hfound⟩
  refine ⟨hsuffix, hstart, hnodup, fun copy hcopy => ?_⟩
  obtain ⟨hdirs, hseen⟩ := hfound copy hcopy
  exact ⟨hdirs, hseen.stable ((watching_rely hcall).mp hrely)⟩

theorem stable_reading (hcall : call ≠ 0) (dir : TaskStatus) (read : Document)
    (dirs : List TaskStatus) (found : List Match) :
    (watching document newStatus new time start).Stable call
      (ReadingAny document new time start call dir read dirs found) := by
  rintro s t hrely - ⟨hsuffix, hnodup, hdir, hfound⟩
  have hrely := (watching_rely hcall).mp hrely
  refine ⟨hsuffix, hnodup, hdir.imp_right fun h => ⟨h.1, hrely.written h.2⟩, fun copy hcopy => ?_⟩
  obtain ⟨hdirs, hseen⟩ := hfound copy hcopy
  exact ⟨hdirs, hseen.stable hrely⟩

theorem stable_removing (hcall : call ≠ 0) (winner : Option TaskObject) (stale : List Match) :
    (watching document newStatus new time start).Stable call
      (RemovingAny document new start call winner stale) :=
  fun _ _ hrely _ hs copy hcopy => (hs copy hcopy).stable ((watching_rely hcall).mp hrely)

theorem eq_of_backlog_suffix (hsuffix : (.backlog :: dirs) <:+ STATUS_DIRS) :
    .backlog :: dirs = STATUS_DIRS := by
  rcases List.suffix_cons_iff.mp hsuffix with heq | htail
  · exact heq
  · exact absurd (htail.subset List.mem_cons_self) (by decide)

theorem watching_get_read (hcall : call ≠ 0) (dir : TaskStatus) (dirs : List TaskStatus)
    (found : List Match) : (watching document newStatus new time start).Triple call
      (SearchingAny document new time start call (dir :: dirs) found) (TaskProgram.readFile dir)
      (fun reply s => reply.elim (SearchingAny document new time start call dirs found s)
        fun read => ReadingAny document new time start call dir read dirs found s)
      fun _ => True := by
  apply Triple.perform (stable_searching hcall _ _)
  · intro reply
    cases reply with
    | none => exact stable_searching hcall _ _
    | some read => exact stable_reading hcall dir read dirs found
  rintro s answer reply t hinv ⟨hsuffix, hstart, hnodup, hfound⟩ - hperform
  obtain ⟨rfl, rfl⟩ := Prod.mk.inj (Option.some.inj hperform)
  have hsame := sameFiles_beginRead s call dir
  have hkeeps : (watching document newStatus new time start).Keeps call s
      (s.beginRead call dir) := by
    apply watching_keeps hinv hsame.copies hsame.clock (writes_beginRead s call dir)
    · exact fun other hother => timed_beginRead_of_ne s hother dir
    · intro _ htrue
      rw [hsame.copies]
      exact hinv.timed call hcall (timed_beginRead_self s htrue).2
  -- the times noted so far are forgotten at the first directory only, when nothing is found yet
  have hseen : ∀ copy ∈ found, Seen document new time start call copy (s.beginRead call dir) := by
    intro copy hcopy
    have hne : dir ≠ .backlog := by
      rintro rfl
      rw [hstart (eq_of_backlog_suffix hsuffix)] at hcopy
      cases hcopy
    refine (hfound copy hcopy).2.stable ⟨by rw [timed_beginRead hne], ?_, ?_, ?_⟩
    · rw [writes_beginRead]; exact id
    · rw [hsame.copies]; exact id
    · rw [hsame.copies]; exact fun _ h => h
  refine ⟨hkeeps, ?_⟩
  have hmissed : SearchingAny document new time start call dirs found (s.beginRead call dir) := by
    refine ⟨(List.suffix_cons dir dirs).trans hsuffix, ?_, hnodup, fun copy hcopy =>
      ⟨fun hmem => (hfound copy hcopy).1 (List.mem_cons_of_mem _ hmem), hseen copy hcopy⟩⟩
    rintro rfl
    exact absurd hsuffix.length_le (Nat.not_succ_le_self _)
  split
  · exact hmissed
  · cases hcopy : s.copies dir with
    | none => exact hmissed
    | some file =>
        refine ⟨hsuffix, hnodup, ?_, fun copy hmem => ⟨(hfound copy hmem).1, hseen copy hmem⟩⟩
        have hpresent : s.copies dir ≠ none := by
          rw [hcopy]
          exact Option.some_ne_none file
        refine (hinv.places dir hpresent).imp_right fun hnew => ⟨hnew, ?_⟩
        rw [writes_beginRead]
        exact hinv.writes.resolve_left fun hs => hpresent (hnew ▸ hinv.unwritten hs)

theorem ReadingAny.note {read : Document} {mtimeMs : Nat}
    (hreading : ReadingAny document new time start call dir read dirs found s)
    (hfound : ∀ copy ∈ found, Seen document new time start call copy s →
      Seen document new time start call copy t)
    (hseen : Seen document new time start call ⟨⟨read, dir⟩, mtimeMs⟩ t) :
    SearchingAny document new time start call dirs (found ++ [⟨⟨read, dir⟩, mtimeMs⟩]) t := by
  obtain ⟨hsuffix, hnodup, -, hold⟩ := hreading
  have hdirs : (dir :: dirs).Nodup := hsuffix.sublist.nodup nodup_STATUS_DIRS
  refine ⟨(List.suffix_cons dir dirs).trans hsuffix, ?_, ?_, ?_⟩
  · rintro rfl
    exact absurd hsuffix.length_le (Nat.not_succ_le_self _)
  · simp only [List.map_append, List.map_cons, List.map_nil]
    apply hnodup.append (List.nodup_singleton dir)
    intro path hpath hdir
    obtain ⟨copy, hcopy, rfl⟩ := List.mem_map.mp hpath
    rw [List.mem_singleton] at hdir
    exact (hold copy hcopy).1 (hdir ▸ List.mem_cons_self)
  · intro copy hcopy
    rcases List.mem_append.mp hcopy with hcopy | hlast
    · obtain ⟨hpath, hknown⟩ := hold copy hcopy
      exact ⟨fun hmem => hpath (List.mem_cons_of_mem _ hmem), hfound copy hcopy hknown⟩
    · rw [List.mem_singleton.mp hlast]
      exact ⟨(List.nodup_cons.mp hdirs).1, hseen⟩

theorem watching_get_stat (hcall : call ≠ 0) (dir : TaskStatus) (read : Document)
    (dirs : List TaskStatus) (found : List Match) :
    (watching document newStatus new time start).Triple call
      (ReadingAny document new time start call dir read dirs found) (TaskProgram.stat dir)
      (fun reply => SearchingAny document new time start call dirs
        (found ++ [⟨⟨read, dir⟩, reply.getD 0⟩])) fun _ => True := by
  apply Triple.perform (stable_reading hcall _ read _ _) fun _ => stable_searching hcall _ _
  intro s answer reply t hinv hreading hcareful hperform
  have hdir := hreading.2.2.1
  cases hcopy : s.copies dir with
  | none =>
      rcases perform_stat hperform with ⟨rfl, rfl⟩ | ⟨file, hfile, -, -⟩
      · refine ⟨watching_same hinv rfl rfl rfl, hreading.note (fun _ _ h => h) ?_⟩
        rcases hdir with rfl | ⟨rfl, hwrites⟩
        · exact .inl ⟨rfl, .inr ⟨rfl, hcopy⟩⟩
        · exact .inr ⟨rfl, .inr ⟨rfl, hwrites, hcopy⟩⟩
      · rw [hcopy] at hfile
        cases hfile
  | some file =>
      have hpresent : s.copies dir ≠ none := by
        rw [hcopy]
        exact Option.some_ne_none file
      have hfails : answer.fails = false := hcareful hcall hpresent
      obtain ⟨rfl, rfl⟩ : reply = some file.mtimeMs ∧ t = s.noteTime call dir := by
        change TaskFiles.perform call answer (.stat dir) s = some (reply, t) at hperform
        simp only [TaskFiles.perform, hcopy, hfails, Bool.false_eq_true, ↓reduceIte] at hperform
        obtain ⟨rfl, rfl⟩ := Prod.mk.inj (Option.some.inj hperform)
        exact ⟨rfl, rfl⟩
      have hnoted : ∀ place, (s.noteTime call dir).record.timed call place = true →
          place = dir ∨ s.record.timed call place = true := by
        intro place htrue
        rw [timed_noteTime] at htrue
        simpa using htrue
      refine ⟨watching_keeps hinv rfl rfl rfl ?_ ?_, hreading.note ?_ ?_⟩
      · exact fun other hother => timed_noteTime_of_ne s hother dir
      · intro _ htrue
        rcases hnoted new htrue with rfl | hold
        · exact hpresent
        · exact hinv.timed call hcall hold
      · intro copy _ hseen
        refine hseen.mono (fun htrue => ?_) id id fun _ h => h
        rw [timed_noteTime, htrue, Bool.or_true]
      · rcases hdir with rfl | ⟨rfl, -⟩
        · refine .inl ⟨rfl, .inl ?_⟩
          rw [hinv.old file hcopy]
          rfl
        · refine .inr ⟨rfl, .inl ⟨hinv.newer file hcopy, ?_⟩⟩
          rw [timed_noteTime, decide_eq_true rfl, Bool.true_or]

theorem removable_of_older {first : Match} (hinv : InTransit document new time start s)
    (hfirst : Seen document new time start call first s)
    (hcopy : Seen document new time start call copy s) (hpath : copy.task.path ≠ first.task.path)
    (holder : copy.mtimeMs ≤ first.mtimeMs) :
    Removable document new start call copy.task.path s := by
  have hpos := hinv.pos
  rcases hcopy with ⟨hold, htime⟩ | ⟨hnew, hcopy⟩
  · rcases hfirst with ⟨hfirst, -⟩ | ⟨-, ⟨-, htimed⟩ | ⟨hzero, -, -⟩⟩
    · exact absurd (hold.trans hfirst.symm) hpath
    · exact .inl ⟨hold, .inr htimed⟩
    · rcases htime with htime | ⟨-, hnone⟩
      · omega
      · exact .inl ⟨hold, .inl hnone⟩
  · rcases hcopy with ⟨hlater, -⟩ | ⟨-, hwrites, hnone⟩
    · rcases hfirst with ⟨-, htime⟩ | ⟨hfirst, -⟩
      · omega
      · exact absurd (hnew.trans hfirst.symm) hpath
    · exact .inr ⟨hnew, hwrites, hnone⟩

theorem watching_get_choose (hinv : InTransit document new time start s)
    (hfound : SearchingAny document new time start call [] found s) :
    RemovingAny document new start call ((newestFirst found).head?.map Match.task)
      (newestFirst found).tail s := by
  obtain ⟨-, -, hnodup, hseen⟩ := hfound
  intro copy hcopy
  cases hsorted : newestFirst found with
  | nil =>
      rw [hsorted] at hcopy
      cases hcopy
  | cons first stale =>
      rw [hsorted, List.tail_cons] at hcopy
      have hmem : ∀ other ∈ first :: stale, other ∈ found := by
        intro other hother
        rwa [← mem_newestFirst, hsorted]
      have hpaths : ((first :: stale).map fun copy => copy.task.path).Nodup := by
        rw [← hsorted]
        exact ((List.perm_insertionSort _ found).map _).nodup_iff.mpr hnodup
      apply removable_of_older hinv (hseen first (hmem first List.mem_cons_self)).2
        (hseen copy (hmem copy (List.mem_cons_of_mem _ hcopy))).2
      · rintro heq
        exact (List.nodup_cons.mp hpaths).1 (List.mem_map.mpr ⟨copy, hcopy, heq⟩)
      · exact le_head_newestFirst hsorted (hmem copy (List.mem_cons_of_mem _ hcopy))

theorem watching_get_rm (hne : new ≠ document.status) (hcall : call ≠ 0)
    (winner : Option TaskObject) (stale : Match) (others : List Match) :
    (watching document newStatus new time start).Triple call
      (RemovingAny document new start call winner (stale :: others))
      (TaskProgram.rm stale.task.path)
      (fun _ => RemovingAny document new start call winner others) fun _ => True := by
  apply Triple.perform (stable_removing hcall winner _) fun _ => stable_removing hcall winner _
  intro s answer reply t hinv hremoving _ hperform
  obtain ⟨-, rfl⟩ := Prod.mk.inj (Option.some.inj hperform)
  have hrest : RemovingAny document new start call winner others s :=
    fun copy hcopy => hremoving copy (List.mem_cons_of_mem _ hcopy)
  have hnone : ∀ dir, s.copies dir = none → (s.remove stale.task.path).copies dir = none := by
    intro dir hdir
    simp only [TaskFiles.remove, Function.update_apply, hdir, ite_self]
  split
  · exact ⟨watching_same hinv rfl rfl rfl, hrest⟩
  · refine ⟨?_, fun copy hcopy => ?_⟩
    · -- a copy that is gone is no loss, and the old one goes while the new one is there
      have hgone : s.copies stale.task.path = none →
          (watching document newStatus new time start).Keeps call s
            (s.remove stale.task.path) := by
        intro hgone
        have hsame : (s.remove stale.task.path).copies = s.copies := by
          rw [TaskFiles.remove, ← hgone, Function.update_eq_self]
        exact watching_same hinv hsame rfl rfl
      rcases hremoving stale List.mem_cons_self with ⟨hdir, hold | htimed⟩ | ⟨hdir, -, hnew⟩
      · exact hgone (hdir ▸ hold)
      · refine watching_remove hinv (hdir ▸ hne) (hinv.timed call hcall htimed) fun hnew => ?_
        exact absurd (hnew.symm.trans hdir) hne
      · exact hgone (hdir ▸ hnew)
    · refine (hrest copy hcopy).stable ⟨rfl, id, hnone _, fun _ => hnone _⟩

theorem watching_get (hne : new ≠ document.status) (hcall : call ≠ 0) :
    (watching document newStatus new time start).Triple call (fun _ => True)
      reader (fun _ _ => True) fun _ => True := by
  have hget : (watching document newStatus new time start).Triple call
      (SearchingAny document new time start call STATUS_DIRS []) Aof.get
      (fun winner => RemovingAny document new start call winner []) fun _ => True := by
    apply triple_get (stable_searching hcall) (watching_get_read hcall) (watching_get_stat hcall)
      (stable_removing hcall)
    · intro found s _ _ _ copy hcopy
      cases hcopy
    · intro found s hinv _ hfound
      exact watching_get_choose hinv hfound
    · exact watching_get_rm hne hcall
  have hstart := hget.weaken fun (s : TaskFiles) _ (_ : True) =>
    (⟨List.suffix_refl _, fun _ => rfl, List.nodup_nil, fun _ h => nomatch h⟩ :
      SearchingAny document new time start call STATUS_DIRS [] s)
  apply hstart.bind
  intro _
  exact Triple.ret (stable_removing hcall _ []) fun _ _ _ => trivial

end Watching

/-- The task always has a copy, if gets and a transition that may fail keep out of each other's
way. -/
theorem task_never_lost {document : Document} {files : TaskFiles} (hstored : Stored document files)
    (hrecord : files.record = {}) (newStatus : TaskStatus) (metadataPatch : Dict String JsValue)
    (now gets : Nat) {turns : List (Async.Turn OsAnswer)}
    {pool : Async.Pool TaskOp TaskReply TaskFiles}
    (hrun : Async.Runs TaskFiles.perform (Careful newStatus)
      ⟨files, (StoreCall.transition newStatus metadataPatch now).program ::
        List.replicate gets reader⟩ turns pool) : ∃ dir, (pool.shared.copies dir).isSome := by
  obtain ⟨time, hpos, hclock, hcopies⟩ := hstored.only
  obtain ⟨new, hne, hnew⟩ : ∃ new, new ≠ document.status ∧
      (newStatus = document.status ∨ newStatus = new) := by
    by_cases hsame : newStatus = document.status
    · by_cases hready : document.status = .ready
      · exact ⟨.done, by rw [hready]; decide, .inl hsame⟩
      · exact ⟨.ready, Ne.symm hready, .inl hsame⟩
    · exact ⟨newStatus, hsame, .inr rfl⟩
  have hinv : InTransit document new time files.record.writes files := by
    refine ⟨?_, ?_, ?_, hpos, hclock, .inl rfl, ?_, ?_, ?_⟩
    · intro dir hdir
      rw [hcopies] at hdir
      by_contra hother
      rw [not_or] at hother
      exact hdir (if_neg hother.1)
    · intro file hfile
      rw [hcopies, if_pos rfl] at hfile
      exact (Option.some.inj hfile).symm
    · intro file hfile
      rw [hcopies, if_neg hne] at hfile
      cases hfile
    · exact fun _ => by rw [hcopies, if_neg hne]
    · exact .inl (by rw [hcopies, if_pos rfl]; exact Option.some_ne_none _)
    · intro call _ htimed
      rw [hrecord] at htimed
      cases htimed
  have hpool : (watching document newStatus new time files.record.writes).SafePool
      (fun _ _ _ => True) ⟨files, (StoreCall.transition newStatus metadataPatch now).program ::
        List.replicate gets reader⟩ := by
    refine ⟨hinv, fun index program hprogram => ?_⟩
    cases index with
    | zero =>
        obtain rfl := Option.some.inj hprogram
        exact (watching_transition hne hnew metadataPatch now files hinv rfl).mono
          fun _ _ _ _ => trivial
    | succ index =>
        obtain rfl := List.eq_of_mem_replicate (List.mem_of_getElem? hprogram)
        exact (watching_get hne (Nat.succ_ne_zero index) files hinv trivial).mono
          fun _ _ _ _ => trivial
  have hlast := (hpool.run hrun).inv
  rcases hlast.kept with hold | hnew
  · exact ⟨_, Option.isSome_iff_ne_none.mpr hold⟩
  · exact ⟨_, Option.isSome_iff_ne_none.mpr hnew⟩

/-- A get finds both copies and removes the old one; then the companion directory cannot be moved,
and the transition takes back the new one. -/
theorem task_lost : ∃ turns pool, StepSystem.FreeRun (Async.step TaskFiles.perform)
      ⟨filed (plainDocument .ready), (StoreCall.transition .inProgress .empty 1).program ::
        List.replicate 1 reader⟩ turns pool ∧
    (turns.filter fun turn => turn.answer.fails).length = 1 ∧
    ∀ dir, pool.shared.copies dir = none := by
  have hexec : (StepSystem.exec (Async.step TaskFiles.perform)
      ⟨filed (plainDocument .ready), (StoreCall.transition .inProgress .empty 1).program ::
        List.replicate 1 reader⟩
      (List.replicate 12 ⟨0, {}⟩ ++ List.replicate 10 ⟨1, {}⟩ ++
        [⟨0, { fails := true }⟩, ⟨1, {}⟩, ⟨0, {}⟩])).any (fun pool =>
          STATUS_DIRS.all fun dir => (pool.shared.copies dir).isNone) = true := by rfl
  obtain ⟨pool, hpool, hnone⟩ := (Option.any_eq_true _ _).mp hexec
  refine ⟨_, pool, StepSystem.freeRun_iff_exec.mpr hpool, by decide, fun dir => ?_⟩
  exact Option.isNone_iff_eq_none.mp (List.all_eq_true.mp hnone dir (mem_STATUS_DIRS dir))

def unlinks : Option (Async TaskOp TaskReply Unit) → Bool
  | some (.await (.unlink _) _) => true
  | _ => false

def movesOn (pool : Async.Pool TaskOp TaskReply TaskFiles) (turn : Async.Turn OsAnswer) : Bool :=
  turn.index = 0 && 0 < turn.answer.elapsed && !unlinks pool.programs[0]?

theorem careful_of_movesOn {newStatus : TaskStatus} {pool : Async.Pool TaskOp TaskReply TaskFiles}
    {turn : Async.Turn OsAnswer} (hmoves : movesOn pool turn = true) :
    Async.Guarded (Careful newStatus) pool turn := by
  simp only [movesOn, Bool.and_eq_true, decide_eq_true_eq] at hmoves
  obtain ⟨⟨hindex, helapsed⟩, hmatch⟩ := hmoves
  intro op rest hprogram
  rw [hindex] at hprogram ⊢
  rw [hprogram] at hmatch
  cases op with
  | writeFile => exact helapsed
  | stat => exact fun h => absurd rfl h
  | unlink => cases hmatch
  | _ => trivial

/-- The companion directory cannot be moved before a get begins. -/
theorem failedMove_kept : ∃ turns pool, Async.Runs TaskFiles.perform (Careful .inProgress)
      ⟨filed (plainDocument .ready), (StoreCall.transition .inProgress .empty 1).program ::
        List.replicate 1 reader⟩ turns pool ∧
    (turns.filter fun turn => turn.answer.fails).length = 1 ∧
    ∃ dir, (pool.shared.copies dir).isSome := by
  have hexec : (StepSystem.exec (StepSystem.checked (Async.step TaskFiles.perform) movesOn)
      ⟨filed (plainDocument .ready), (StoreCall.transition .inProgress .empty 1).program ::
        List.replicate 1 reader⟩
      (List.replicate 12 ⟨0, {}⟩ ++ [⟨0, { fails := true }⟩])).isSome = true := by rfl
  obtain ⟨pool, hpool⟩ := Option.isSome_iff_exists.mp hexec
  have hrun : Async.Runs TaskFiles.perform (Careful .inProgress) _ _ pool :=
    StepSystem.Run.of_exec (fun _ _ hmoves => careful_of_movesOn hmoves) hpool
  refine ⟨_, pool, hrun, by decide, ?_⟩
  exact task_never_lost ⟨1, Nat.one_pos, le_refl 1, fun _ => rfl⟩ rfl .inProgress .empty 1 1 hrun

end Aof
