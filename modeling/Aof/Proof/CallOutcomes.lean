import Aof.Proof.CallSteps

/-!
# Every call is accounted for

A call that keeps to the guard has taken effect once if it returns, and not at all if it throws.
-/

namespace Aof

open Interference

variable {calls : List StoreCall} {document : Document} {index : Nat} {call : StoreCall}
  {s t : Accounted} {known : Document → Prop} {task : TaskObject}

def Ended (index : Nat) (counted : Prop) (s : Accounted) : Prop :=
  Stands index False False counted False s

theorem stable_ended {counted : Prop} :
    (accounting calls document).Stable index (Ended index counted) := stable_stands

variable {α : Type} {program : TaskProgram α} {post : α → Accounted → Prop}
  {thrown : Accounted → Prop} {written prepared next : Document} {newStatus : TaskStatus}
  {metadataPatch : Dict String JsValue} {now : Nat} {agentId : String} {opts : LeaseOptions}

theorem accounting_locked {α : Type} {program : TaskProgram α} (hcall : calls[index]? = some call)
    (hprogram : (accounting calls document).Triple index (Entered index known) program
      (fun _ => Resting index True False) (Resting index False False)) :
    (accounting calls document).Triple index
      (fun s => Ended index False s ∧ Known index known s) (TaskProgram.locked program)
      (fun _ => Ended index True) (Ended index False) := by
  have hlock : (accounting calls document).Triple index
      (fun s => Ended index False s ∧ Known index known s) (TaskProgram.perform .lock)
      (fun _ => Entered index known) (Ended index False) :=
    (accounting_lock hcall stable_known fun _ h => h).conseq (fun _ _ h => h) (fun _ _ _ h => h)
      fun _ _ h => h.elim
  have hunlock : ∀ counted, (accounting calls document).Triple index
      (Resting index counted False) (TaskProgram.perform .unlock) (fun _ => Ended index counted)
      (Ended index False) :=
    fun _ => accounting_unlock.conseq (fun _ _ h => h) (fun _ _ _ h => h) fun _ _ h => h.elim
  exact triple_locked (fun _ => stable_ended) stable_ended hlock hprogram
    (fun _ => hunlock True) (hunlock False)

section

variable (hs : Obtained index call known task s)
include hs

theorem Obtained.path_eq : task.path = task.document.status := by
  obtain ⟨⟨read, -, -, -, hresting, -⟩, ⟨hpath, hstatus, -⟩, -⟩ := hs
  rw [hpath, hstatus, hresting.2.place]

theorem Obtained.resting {idle : Prop}
    (hidle : ∀ read, known read → read.status = task.document.status → read.dependsOn =
      task.document.dependsOn → (call.idle read = true ↔ idle)) :
    Resting index idle False s := by
  obtain ⟨⟨read, hknown, hstatus, hdependsOn, ⟨hstands, hplace⟩, -⟩, ⟨-, hsame, hsame'⟩, -⟩ := hs
  have hiff := hidle read hknown (hstatus.trans hsame.symm) (hdependsOn.trans hsame'.symm)
  exact ⟨⟨hstands.holder, hstands.half, hstands.counted.trans hiff, hstands.ahead⟩, hplace⟩

theorem Obtained.current (hinv : Accounts calls document s) (hcurrent : Current index s.1)
    (hundisturbed : Undisturbed index s.1) :
    s.2.place = task.path ∧ s.2.settled = task.document ∧ known task.document := by
  obtain ⟨⟨read, -, -, -, ⟨hstands, -⟩, hviewed⟩, ⟨hpath, -⟩, hmark⟩ := hs
  have htask : task = ⟨s.2.newest.document, s.2.place⟩ := hmark.of_current hcurrent
  have hknown : known s.2.newest.document := hviewed.of_current hcurrent
  have hnone := (hinv.half_of_undisturbed hundisturbed).resolve_right
    fun h => hstands.half.mp h
  have hdocument : task.document = s.2.newest.document := by rw [htask]
  exact ⟨hpath.symm, (hinv.whole hnone).symm.trans hdocument.symm, hdocument ▸ hknown⟩

end

theorem accounting_obtained {α : Type} {program : TaskProgram α} {post : α → Accounted → Prop}
    {thrown : Accounted → Prop}
    (hprogram : task.path = task.document.status → (accounting calls document).Triple index
      (Obtained index call known task) program post thrown) :
    (accounting calls document).Triple index (Obtained index call known task) program post thrown :=
  fun s hinv hs => hprogram hs.path_eq s hinv hs

theorem accounting_getOrThrow (hcall : calls[index]? = some call)
    (hrelease : (∀ document, known document) ∨ call.releases = true) :
    (accounting calls document).Triple index (Entered index known) getOrThrow
      (fun task => Obtained index call known task) (Resting index False False) :=
  (accounting_get_held hcall hrelease).conseq (fun _ _ h => h) (fun _ _ _ h => h)
    fun _ _ h => h.elim

theorem accounting_refuse {α : Type} {post : α → Accounted → Prop}
    (hidle : ∀ read, known read → read.status = task.document.status →
      read.dependsOn = task.document.dependsOn → (call.idle read = true ↔ False)) :
    (accounting calls document).Triple index (Obtained index call known task)
      (.throw : TaskProgram α) post (Resting index False False) :=
  Triple.throw stable_obtained fun _ _ hs => hs.resting hidle

theorem accounting_skip {α : Type} (value : α)
    (hidle : ∀ read, known read → read.status = task.document.status →
      read.dependsOn = task.document.dependsOn → (call.idle read = true ↔ True)) :
    (accounting calls document).Triple index (Obtained index call known task)
      (.ret value : TaskProgram α) (fun _ => Resting index True False)
      (Resting index False False) :=
  Triple.ret stable_obtained fun _ _ hs => hs.resting hidle

section

variable (hcall : calls[index]? = some call)
include hcall

theorem accounting_overwritten
    (hidle : ∀ read, known read → read.status = task.document.status → read.dependsOn =
      task.document.dependsOn → (call.idle read = true ↔ False))
    (heffect : known task.document → call.effect task.document = some written) :
    (accounting calls document).Triple index (Obtained index call known task)
      (TaskProgram.writeFileAtomic task.path written)
      (fun _ => Committed index False task.path written.status task.path) fun _ => False := by
  apply accounting_commit hcall stable_obtained (fun s hs => hs.resting hidle)
  intro s hinv hs hcurrent hundisturbed
  obtain ⟨hplace, hsettled, hknown⟩ := hs.current hinv hcurrent hundisturbed
  exact ⟨hplace, hsettled ▸ heffect hknown⟩

section

variable (hpath : task.path = task.document.status)
  (hidle : ∀ read, known read → read.status = task.document.status →
    read.dependsOn = task.document.dependsOn → (call.idle read = true ↔ False))
include hpath hidle

theorem accounting_change (hstatus : written.status = task.document.status)
    (heffect : known task.document → call.effect task.document = some written) :
    (accounting calls document).Triple index (Obtained index call known task)
      (TaskProgram.writeFileAtomic task.path written) (fun _ => Resting index True False)
      (Resting index False False) := by
  have hwrite : (accounting calls document).Triple index (Obtained index call known task)
      (TaskProgram.writeFileAtomic task.path written) (fun _ => Resting index True False)
      fun _ => False := by
    apply (accounting_overwritten hcall hidle heffect).conseq (fun _ _ h => h) _ fun _ _ h => h
    intro _ s _ hs
    rw [hstatus.trans hpath.symm] at hs
    exact hs.resting
  exact hwrite.conseq (fun _ _ h => h) (fun _ _ _ h => h) fun _ _ h => h.elim

theorem accounting_move (hstatus : written.status = newStatus)
    (hne : task.document.status ≠ newStatus)
    (heffect : known task.document → call.effect task.document = some written) :
    (accounting calls document).Triple index (Obtained index call known task)
      (place task.path newStatus written) (fun _ => Resting index True False)
      (Resting index False False) := by
  rw [place, if_pos (hpath ▸ hne)]
  have hmove : (accounting calls document).Triple index (Obtained index call known task)
      (relocate task.path newStatus written) (fun _ => Resting index True False)
      fun _ => False := by
    apply accounting_relocate hcall stable_obtained (fun s hs => hs.resting hidle) _ hstatus
    · rw [hpath]
      exact hne.symm
    · intro s hinv hs hcurrent hundisturbed
      obtain ⟨hplace, hsettled, hknown⟩ := hs.current hinv hcurrent hundisturbed
      exact ⟨hplace, hsettled ▸ heffect hknown⟩
  exact hmove.conseq (fun _ _ h => h) (fun _ _ _ h => h) fun _ _ h => h.elim

end

theorem accounting_transitionTask {newStatus : TaskStatus} {metadataPatch : Dict String JsValue}
    {now : Nat} (hrelease : (∀ document, known document) ∨ call.releases = true)
    (hidle : ∀ read, known read → (call.idle read = true ↔ read.status = newStatus))
    (heffect : ∀ document, known document → call.effect document = document.afterTransition
      newStatus metadataPatch now) : (accounting calls document).Triple index (Entered index known)
      (transitionTask newStatus metadataPatch now) (fun _ => Resting index True False)
      (Resting index False False) := by
  apply (accounting_getOrThrow hcall hrelease).bind
  intro task
  apply accounting_obtained
  intro hpath
  have hsame : ∀ read, known read → read.status = task.document.status →
      read.dependsOn = task.document.dependsOn →
      (call.idle read = true ↔ task.document.status = newStatus) := by
    intro read hknown hstatus _
    rw [hidle read hknown, hstatus]
  split
  · rename_i hdone
    apply accounting_skip
    simpa only [hdone] using hsame
  rename_i hne
  simp only [hne] at hsame
  split
  · rename_i hvalid
    apply Triple.bind
    · apply accounting_move hcall hpath hsame _ hne
      · intro hknown
        rw [heffect _ hknown, Document.afterTransition, if_neg hne, if_pos hvalid]
      · rfl
    · intro _
      exact Triple.ret stable_resting fun _ _ h => h
  · exact accounting_refuse hsame

end

variable (call known task) in
theorem never_idle (hidle : ∀ read, call.idle read = false) :
    ∀ read, known read → read.status = task.document.status →
      read.dependsOn = task.document.dependsOn → (call.idle read = true ↔ False) := by
  intro read _ _ _
  simp [hidle read]

theorem accounting_rename {path target : TaskStatus} :
    (accounting calls document).Triple index (Committed index False path target path)
      (TaskProgram.rename path target) (fun _ => Resting index True False) fun _ => False := by
  apply triple_orThrow stable_resting (stable_const False)
  apply Triple.perform stable_committed
  · intro reply
    cases reply with
    | false => exact stable_const False
    | true => exact stable_resting
  rintro s answer reply t hinv ⟨hstands, rfl, hstatus, halone⟩ ⟨hfails, hundisturbed⟩ hperform
  obtain ⟨hperform, haccount⟩ := accounting_perform.mp hperform
  have hpresent : ¬(answer.fails = true ∨ s.1.copies s.2.place = none) := by
    rw [hfails, hinv.newest.copy]
    simp
  simp only [TaskFiles.perform, if_neg hpresent] at hperform
  obtain ⟨rfl, hfiles⟩ := Prod.mk.inj (Option.some.inj hperform)
  obtain rfl : t = ((s.1.move s.2.place target).noteWrite index false,
      { s.2 with place := target }) := Prod.ext hfiles.symm haccount
  refine ⟨hinv.keeps_rename (hstands.holder.mpr trivial) hundisturbed
    fun dir hdir => halone dir hdir hdir,
    ⟨hstands.holder, hstands.half, hstands.counted, ?_⟩, hstatus.symm, fun dir hdir => ?_⟩
  · simp only [TaskFiles.noteWrite, TaskFiles.move, Function.update_self, Bool.or_false]
    exact hstands.ahead
  · simp only [TaskFiles.noteWrite, TaskFiles.move, Function.update_of_ne hdir]
    by_cases hold : dir = s.2.place
    · rw [hold, Function.update_self]
    · rw [Function.update_of_ne hold]
      exact halone dir hold hold

theorem accounting_cancelTask {reason : Option String}
    (hcall : calls[index]? = some (.cancel reason now)) :
    (accounting calls document).Triple index (Entered index fun _ => True)
      (cancelTask reason now) (fun _ => Resting index True False) (Resting index False False) := by
  apply (accounting_getOrThrow hcall (.inl fun _ => trivial)).bind
  intro task
  apply accounting_obtained
  intro hpath
  have hidle := never_idle (.cancel reason now) (fun _ => True) task fun _ => rfl
  split
  · exact accounting_refuse hidle
  rename_i hopen
  have heffect : (StoreCall.cancel reason now).effect task.document =
      some (task.document.cancelled reason now) := by
    rw [StoreCall.effect, if_neg hopen]
  rw [not_or] at hopen
  rw [if_pos (hpath ▸ hopen.2)]
  have hmove : (accounting calls document).Triple index
      (Obtained index (.cancel reason now) (fun _ => True) task) (do
        TaskProgram.writeFileAtomic task.path (task.document.cancelled reason now)
        TaskProgram.rename task.path .cancelled
        let _ ← TaskProgram.moveCompanion) (fun _ => Resting index True False)
      fun _ => False := by
    apply (accounting_overwritten hcall hidle fun _ => heffect).bind
    intro _
    apply accounting_rename.bind
    intro _
    apply (accounting_moveCompanion stable_resting).bind
    intro _
    exact Triple.ret ((stable_const _).and stable_resting) fun _ _ h => h.2
  exact hmove.conseq (fun _ _ h => h) (fun _ _ _ h => h) fun _ _ h => h.elim

theorem accounting_updateTask {patch : UpdatePatch}
    (hcall : calls[index]? = some (.update patch now)) :
    (accounting calls document).Triple index (Entered index fun _ => True)
      (updateTask patch now) (fun _ => Resting index True False) (Resting index False False) := by
  apply (accounting_getOrThrow hcall (.inl fun _ => trivial)).bind
  intro task
  apply accounting_obtained
  intro hpath
  have hidle := never_idle (.update patch now) (fun _ => True) task fun _ => rfl
  split
  · exact accounting_refuse hidle
  · rename_i hopen
    refine accounting_change hcall hpath hidle rfl fun _ => ?_
    rw [StoreCall.effect, if_neg hopen]

theorem accounting_updateBody {body : String}
    (hcall : calls[index]? = some (.updateBody body now)) :
    (accounting calls document).Triple index (Entered index fun _ => True)
      (updateBody body now) (fun _ => Resting index True False) (Resting index False False) := by
  apply (accounting_getOrThrow hcall (.inl fun _ => trivial)).bind
  intro task
  apply accounting_obtained
  intro hpath
  have hidle := never_idle (.updateBody body now) (fun _ => True) task fun _ => rfl
  exact accounting_change hcall hpath hidle rfl fun _ => rfl

theorem accounting_removeDependency {blockerId : String}
    (hcall : calls[index]? = some (.removeDep blockerId now)) :
    (accounting calls document).Triple index (Entered index fun _ => True)
      (removeDependency blockerId now) (fun _ => Resting index True False)
      (Resting index False False) := by
  apply (accounting_getOrThrow hcall (.inl fun _ => trivial)).bind
  intro task
  apply accounting_obtained
  intro hpath
  have hidle : ∀ read : Document, True → read.status = task.document.status →
      read.dependsOn = task.document.dependsOn →
      ((StoreCall.removeDep blockerId now).idle read = true ↔
        ¬(task.document.status = .done ∨ task.document.status = .cancelled) ∧
          ¬task.document.dependsOn.contains blockerId = true) := by
    intro read _ hstatus hdependsOn
    simp only [StoreCall.idle, hstatus, hdependsOn, Bool.and_eq_true, Bool.not_eq_true',
      decide_eq_false_iff_not, Bool.not_eq_true]
  split
  · rename_i hclosed
    apply accounting_refuse
    simpa only [hclosed, not_true, false_and] using hidle
  rename_i hopen
  split
  · rename_i hlisted
    refine accounting_change hcall hpath ?_ rfl fun _ => ?_
    · simpa only [hlisted, not_true, and_false] using hidle
    · rw [StoreCall.effect, if_neg hopen, if_pos hlisted]
  · rename_i hlisted
    apply accounting_skip
    simpa only [hopen, hlisted, Bool.false_eq_true, not_false_eq_true, and_true] using hidle

theorem accounting_get_again (hcall : calls[index]? = some call)
    (hidle : ∀ read, call.idle read = false) :
    (accounting calls document).Triple index (Resting index False False) Aof.get
      (fun _ => Resting index False False) (Resting index False False) := by
  have hget : (accounting calls document).Triple index (Resting index False False) Aof.get
      (fun winner => Choosing index False (Resting index False False) winner [])
      fun _ => False := by
    apply accounting_get stable_resting stable_resting fun h => h.elim
    · exact fun s t hreads hs => ⟨hreads.stands hs.1, hreads.inPlace hs.2⟩
    · rintro s answer hinv ⟨hstands, hplace⟩ -
      obtain ⟨hkeeps, hafter⟩ := keeps_beginRead hcall hinv hstands (fun _ h => h) fun h => h.elim
      simp only [hidle, Bool.false_eq_true, and_false, or_false] at hafter
      have hupdate : s.2.update calls index answer (.readFile .backlog) s.1 = s.2 := by
        apply if_neg
        rintro ⟨-, -, hany⟩
        rw [hcall, Option.any_some, hidle] at hany
        cases hany
      rw [hupdate] at hkeeps hafter ⊢
      refine ⟨hkeeps, hafter, hplace.place, fun dir hdir => ?_⟩
      rw [(sameFiles_beginRead s.1 index .backlog).copies]
      exact hplace.alone dir hdir
  exact hget.conseq (fun _ _ h => h) (fun _ _ _ h => h.1) fun _ _ h => h.elim

theorem accounting_addDependency {blocker : Blocker}
    (hcall : calls[index]? = some (.addDep blocker now)) :
    (accounting calls document).Triple index (Entered index fun _ => True)
      (addDependency blocker now) (fun _ => Resting index True False)
      (Resting index False False) := by
  apply (accounting_getOrThrow hcall (.inl fun _ => trivial)).bind
  intro task
  apply accounting_obtained
  intro hpath
  have hidle : ∀ read : Document, True → read.status = task.document.status →
      read.dependsOn = task.document.dependsOn →
      ((StoreCall.addDep blocker now).idle read = true ↔
        ((blocker.isTask = false ∧ blocker.found = true) ∧
          ¬(task.document.status = .done ∨ task.document.status = .cancelled)) ∧
          task.document.dependsOn.contains blocker.id = true) := by
    intro read _ hstatus hdependsOn
    simp only [StoreCall.idle, hstatus, hdependsOn, Bool.and_eq_true, Bool.not_eq_true',
      decide_eq_false_iff_not]
  cases hself : blocker.isTask with
  | true =>
      have hnever : ∀ read : Document, (StoreCall.addDep blocker now).idle read = false := by
        intro read
        simp [StoreCall.idle, hself]
      have hrests : ∀ s, Obtained index (.addDep blocker now) (fun _ => True) task s →
          Resting index False False s :=
        fun s hs => hs.resting (never_idle _ _ task hnever)
      have hfound : (accounting calls document).Triple index
          (Obtained index (.addDep blocker now) (fun _ => True) task) (blockerFound blocker)
          (fun _ => Resting index False False) (Resting index False False) := by
        rw [blockerFound, if_pos hself]
        apply ((accounting_get_again hcall hnever).weaken fun s _ hs => hrests s hs).bind
        intro _
        exact Triple.ret stable_resting fun _ _ h => h
      apply hfound.bind
      intro found
      split
      · exact Triple.throw stable_resting fun _ _ h => h
      · split
        · exact Triple.throw stable_resting fun _ _ h => h
        · exact Triple.throw stable_resting fun _ _ h => h
  | false =>
      simp only [hself, true_and] at hidle
      simp only [blockerFound, hself, Bool.false_eq_true, if_false, Async.pure_eq, Async.ret_bind]
      split
      · rename_i hmissing
        rw [Bool.not_eq_true'] at hmissing
        apply accounting_refuse
        simpa only [hmissing, Bool.false_eq_true, false_and] using hidle
      rename_i hfound
      rw [Bool.not_eq_true', Bool.not_eq_false] at hfound
      split
      · rename_i hclosed
        apply accounting_refuse
        simpa only [hclosed, not_true, and_false, false_and] using hidle
      rename_i hopen
      split
      · rename_i hlisted
        apply accounting_skip
        simpa only [hfound, hopen, hlisted, not_false_eq_true, and_self] using hidle
      rename_i hlisted
      have hnot : ∀ read : Document, True → read.status = task.document.status →
          read.dependsOn = task.document.dependsOn →
          ((StoreCall.addDep blocker now).idle read = true ↔ False) := by
        simpa only [hlisted, Bool.false_eq_true, and_false] using hidle
      split
      · exact accounting_refuse hnot
      · rename_i hcycle
        refine accounting_change hcall hpath hnot rfl fun _ => ?_
        rw [not_or] at hopen
        simp only [StoreCall.effect, hself, hfound, hopen.1, hopen.2, hlisted, hcycle,
          Bool.not_true, Bool.false_eq_true, or_self, ↓reduceIte]

def Halfway (base prepared : Document) (s : Accounted) : Prop :=
  s.2.settled = base ∧ s.2.newest.document = prepared

theorem lasting_halfway (base prepared : Document) : Lasting (Halfway base prepared) := by
  rintro s t hsame ⟨hsettled, hnewest⟩
  exact ⟨hsame.settled.trans hsettled, by rw [hsame.newest]; exact hnewest⟩

theorem accounting_prepare (hcall : calls[index]? = some call)
    (hprepared : call.prepared task.document = prepared)
    (heffect : call.effect task.document = some next)
    (hhalfway : call.halfway prepared.status = true)
    (hstatus : prepared.status = task.document.status)
    (hdependsOn : prepared.dependsOn = task.document.dependsOn) :
    (accounting calls document).Triple index
      (fun s => Ended index False s ∧
        Viewed index (fun s => task = ⟨s.2.newest.document, s.2.place⟩) s)
      (TaskProgram.writeFileAtomic task.path prepared true)
      (fun _ s => Stands index False True False True s ∧ Halfway task.document prepared s)
      fun _ => False := by
  apply accounting_write (stable_ended.and (stable_viewed (lasting_mark task)))
    (stable_ahead (lasting_halfway _ _))
  rintro s answer hinv ⟨hs, hviewed⟩ helapsed hcurrent hundisturbed
  have htask : task = ⟨s.2.newest.document, s.2.place⟩ := hviewed.of_current hcurrent
  have hdocument : task.document = s.2.newest.document := by rw [htask]
  have hpath : task.path = s.2.place := by rw [htask]
  have hnone := (hinv.half_of_undisturbed hundisturbed).resolve_right fun h => hs.half.mp h
  have hsettled : task.document = s.2.settled := hdocument.trans (hinv.whole hnone)
  have hupdate : s.2.update calls index answer (.writeFile task.path prepared true) s.1 =
      { s.2 with
        place := task.path
        newest := ⟨prepared, s.1.clock + answer.elapsed⟩
        half := some index } := by
    apply if_pos
    rw [hcall]
    exact ⟨rfl, hhalfway⟩
  rw [hupdate]
  refine ⟨?_, ⟨hs.holder, by simp, hs.counted, by simp [TaskFiles.noteWrite]⟩, hsettled.symm, rfl⟩
  apply hinv.keeps_write helapsed hundisturbed _ hinv.serial hinv.nodup (fun _ _ => Iff.rfl)
    (hsettled ▸ hstatus) (hsettled ▸ hdependsOn)
    (.inr ⟨rfl, rfl, call, next, hcall, hhalfway, hsettled ▸ hprepared.symm, hsettled ▸ heffect,
      fun hmem => hs.counted.mp hmem⟩)
  exact .inr ⟨hpath, hdocument ▸ hstatus, hdocument ▸ hdependsOn⟩

theorem accounting_transition_ahead {base : Document} (hcall : calls[index]? = some call)
    (hidle : ∀ read, call.idle read = false)
    (hvalid : isValidTransition prepared.status newStatus = true)
    (heffect : call.effect base = some (prepared.transitioned newStatus .empty now)) :
    (accounting calls document).Triple index
      (fun s => Stands index False True False True s ∧ Halfway base prepared s)
      (transition newStatus .empty now) (fun _ => Stands index False False True True)
      fun _ => False := by
  have hne : prepared.status ≠ newStatus := (isValidTransition_ne hvalid).symm
  have hlasting : Lasting fun s => InPlace s ∧ Halfway base prepared s := by
    rintro s t hsame ⟨⟨hplace, halone⟩, hs⟩
    refine ⟨⟨?_, fun dir hdir => ?_⟩, lasting_halfway _ _ s t hsame hs⟩
    · rw [hsame.place, hsame.newest]
      exact hplace
    · cases hcopy : t.1.copies dir with
      | none => rfl
      | some file =>
          have hold := hsame.copies dir file hcopy
          rw [halone dir (hsame.place ▸ hdir)] at hold
          cases hold
  have hlock : (accounting calls document).Triple index
      (fun s => Stands index False True False True s ∧ Halfway base prepared s)
      (TaskProgram.perform .lock) (fun _ s =>
        Stands index True True False True s ∧ InPlace s ∧ Halfway base prepared s)
      fun _ => False := by
    have hstable : (accounting calls document).Stable index fun s =>
        Stands index False True False True s ∧ Halfway base prepared s :=
      stable_ahead (lasting_halfway _ _)
    apply Triple.perform hstable fun _ => stable_ahead hlasting
    rintro s answer reply t hinv ⟨hstands, hs⟩ - hperform
    obtain ⟨hfree, rfl⟩ := accounting_lock_eq hperform
    refine ⟨hinv.keeps_lock (List.getElem?_eq_some_iff.mp hcall).1 hfree, ?_, ?_, hs⟩
    · exact ⟨by simp, hstands.half, hstands.counted, hstands.ahead⟩
    · exact ⟨(hinv.rest hfree).1, (hinv.rest hfree).2⟩
  have htransition : (accounting calls document).Triple index
      (fun s => Stands index True True False True s ∧ InPlace s ∧ Halfway base prepared s)
      (transitionTask newStatus .empty now) (fun _ => Resting index True True)
      fun _ => False := by
    apply (accounting_get_ahead hcall hidle (fun _ h => h) hlasting).bind
    intro task
    have hrest : task = ⟨prepared, prepared.status⟩ → (accounting calls document).Triple index
        (fun s => (Stands index True True False True s ∧ InPlace s ∧ Halfway base prepared s) ∧
          Current index s.1) (if task.document.status = newStatus then pure task
        else if isValidTransition task.document.status newStatus then do
          place task.path newStatus (task.document.transitioned newStatus .empty now)
          pure ⟨task.document.transitioned newStatus .empty now, newStatus⟩
        else .throw) (fun _ => Resting index True True) fun _ => False := by
      rintro rfl
      rw [if_neg hne, if_pos hvalid, place, if_pos hne]
      have hmove : (accounting calls document).Triple index
          (fun s => (Stands index True True False True s ∧ InPlace s ∧ Halfway base prepared s) ∧
            Current index s.1)
          (relocate prepared.status newStatus (prepared.transitioned newStatus .empty now))
          (fun _ => Resting index True True) fun _ => False := by
        refine accounting_relocate hcall (stable_current hlasting)
          (fun s hs => ⟨hs.1.1, hs.1.2.1⟩) ?_ rfl hne.symm
        rintro s - ⟨⟨-, hplace, hsettled, hnewest⟩, -⟩ - -
        refine ⟨hplace.place.trans (by rw [hnewest]), ?_⟩
        rw [hsettled, heffect]
      apply hmove.bind
      intro _
      exact Triple.ret stable_resting fun _ _ h => h
    rintro s hinv ⟨hs, hmark⟩
    obtain ⟨⟨-, hplace, -, hnewest⟩, -⟩ := id hs
    apply hrest _ s hinv hs
    rw [hmark, hplace.place, hnewest]
  exact triple_locked (fun _ => stable_stands) (stable_const False) hlock htransition
    (fun _ => accounting_unlock) fun s _ h => h.elim

theorem accounting_finish :
    (accounting calls document).Triple index (Stands index False False True True)
      TaskProgram.finish (fun _ => Ended index True) fun _ => False := by
  apply Triple.perform stable_stands fun _ => stable_ended
  intro s answer reply t hinv hs _ hperform
  obtain ⟨hperform, haccount⟩ := accounting_perform.mp hperform
  obtain ⟨-, hfiles⟩ := Prod.mk.inj (Option.some.inj hperform)
  obtain rfl : t = (_, s.2) := Prod.ext hfiles.symm haccount
  refine ⟨hinv.keeps_record ⟨rfl, rfl, rfl⟩ rfl (fun _ _ => rfl) ?_ ?_ hinv.serial hinv.nodup
    (fun _ _ => Iff.rfl) (hinv.uncounted index), hs.holder, hs.half, hs.counted, by simp⟩
  · exact fun other hother => Function.update_of_ne hother _ _
  · exact fun hhalf => absurd hhalf fun h => hs.half.mp h

theorem accounting_getOrThrow_free (hcall : calls[index]? = some call) :
    (accounting calls document).Triple index (Ended index False) getOrThrow
      (fun task s => Ended index False s ∧
        Viewed index (fun s => task = ⟨s.2.newest.document, s.2.place⟩) s) (Ended index False) := by
  have hmark : ∀ winner : Option TaskObject, Lasting fun s =>
      winner = some ⟨s.2.newest.document, s.2.place⟩ := by
    intro winner s t hsame hs
    rw [hsame.place, hsame.newest]
    exact hs
  have hget : (accounting calls document).Triple index (Ended index False) Aof.get
      (fun winner s => Ended index False s ∧
        Viewed index (fun s => winner = some ⟨s.2.newest.document, s.2.place⟩) s)
      (Ended index False) :=
    (accounting_get_free hcall).conseq (fun _ _ h => h) (fun _ _ _ h => h) fun _ _ h => h.elim
  have horThrow := triple_getOrThrow
    (fun winner => stable_ended.and (stable_viewed (hmark winner))) hget fun _ _ h => h.1
  refine horThrow.conseq (fun _ _ h => h) (fun task s _ h => ⟨h.1, ?_⟩) fun _ _ h => h
  obtain ⟨writes, hviewed, hle, hwinner⟩ := h.2
  exact ⟨writes, hviewed, hle, fun hsame => Option.some.inj (hwinner hsame)⟩

theorem stable_seen {task : TaskObject} : (accounting calls document).Stable index fun s =>
    Ended index False s ∧ Viewed index (fun s => task = ⟨s.2.newest.document, s.2.place⟩) s :=
  stable_ended.and (stable_viewed (lasting_mark task))

theorem accounting_refuse_free :
    (accounting calls document).Triple index (fun s => Ended index False s ∧
        Viewed index (fun s => task = ⟨s.2.newest.document, s.2.place⟩) s)
      (.throw : TaskProgram α) post (Ended index False) :=
  Triple.throw stable_seen fun _ _ h => h.1

theorem accounting_surely {pre : Accounted → Prop}
    (hprogram : (accounting calls document).Triple index pre program post fun _ => False) :
    (accounting calls document).Triple index pre program post thrown :=
  hprogram.conseq (fun _ _ h => h) (fun _ _ _ h => h) fun _ _ h => h.elim

theorem accounting_twice {α : Type} {prepared next : Document} {move : TaskProgram α}
    {rest : TaskProgram Unit} (hcall : calls[index]? = some call)
    (hprepared : call.prepared task.document = prepared)
    (heffect : call.effect task.document = some next)
    (hhalfway : call.halfway prepared.status = true)
    (hstatus : prepared.status = task.document.status)
    (hdependsOn : prepared.dependsOn = task.document.dependsOn)
    (hmove : (accounting calls document).Triple index
      (fun s => Stands index False True False True s ∧ Halfway task.document prepared s) move
      (fun _ => Stands index False False True True) fun _ => False)
    (hrest : (accounting calls document).Triple index (Stands index False False True True) rest
      (fun _ => Ended index True) fun _ => False) :
    (accounting calls document).Triple index (fun s => Ended index False s ∧
        Viewed index (fun s => task = ⟨s.2.newest.document, s.2.place⟩) s)
      (do
        TaskProgram.writeFileAtomic task.path prepared true
        let _ ← move
        rest) (fun _ => Ended index True) (Ended index False) := by
  apply accounting_surely
  apply (accounting_prepare hcall hprepared heffect hhalfway hstatus hdependsOn).bind
  intro _
  apply hmove.bind
  intro _
  exact hrest

theorem accounting_blockTask {reason : String} (hcall : calls[index]? = some (.block reason now)) :
    (accounting calls document).Triple index (Ended index False) (blockTask reason now)
      (fun _ => Ended index True) (Ended index False) := by
  apply (accounting_getOrThrow_free hcall).bind
  intro task
  split
  · exact accounting_refuse_free
  rename_i hopen
  have hvalid : isValidTransition (task.document.withBlockReason reason).status .blocked =
      true := by
    change isValidTransition task.document.status .blocked = true
    cases hstatus : task.document.status <;> simp [hstatus] at hopen <;> rfl
  have heffect : (StoreCall.block reason now).effect task.document =
      some ((task.document.withBlockReason reason).transitioned .blocked .empty now) := by
    rw [StoreCall.effect, if_neg hopen, afterTransition_of_valid hvalid]
  exact accounting_twice hcall rfl heffect rfl rfl rfl
    (accounting_transition_ahead hcall (fun _ => rfl) hvalid heffect) accounting_finish

theorem accounting_unblockTask (hcall : calls[index]? = some (.unblock now)) :
    (accounting calls document).Triple index (Ended index False) (unblockTask now)
      (fun _ => Ended index True) (Ended index False) := by
  apply (accounting_getOrThrow_free hcall).bind
  intro task
  split
  · exact accounting_refuse_free
  rename_i hblocked
  have hvalid : isValidTransition task.document.withoutBlockReason.status .ready = true := by
    change isValidTransition task.document.status .ready = true
    rw [not_not.mp hblocked]
    rfl
  have heffect : (StoreCall.unblock now).effect task.document =
      some (task.document.withoutBlockReason.transitioned .ready .empty now) := by
    rw [StoreCall.effect, if_neg hblocked, afterTransition_of_valid hvalid]
  exact accounting_twice hcall rfl heffect rfl rfl rfl
    (accounting_transition_ahead hcall (fun _ => rfl) hvalid heffect) accounting_finish

theorem accounting_writeArtifacts (opts : LeaseOptions) (hcall : calls[index]? = some call)
    (hidle : ∀ read, call.idle read = false) :
    (accounting calls document).Triple index (Stands index False False True True)
      (writeArtifacts opts) (fun _ => Stands index False False True True) fun _ => False := by
  have hget : (accounting calls document).Triple index (Stands index False False True True)
      getOrThrow (fun _ => Stands index False False True True) fun _ => False := by
    have htrue : Lasting fun _ => True := fun _ _ _ _ => trivial
    exact (accounting_get_ahead hcall hidle (fun h => h.elim) htrue).conseq
      (fun _ _ h => ⟨h, trivial⟩) (fun _ _ _ h => h.1.1.1) fun _ _ h => h
  unfold writeArtifacts
  split
  · apply hget.bind
    intro _
    apply hget.bind
    intro _
    exact Triple.ret stable_stands fun _ _ h => h
  · exact Triple.ret stable_stands fun _ _ h => h

theorem accounting_change_free {flag : Bool} (hcall : calls[index]? = some call)
    (heffect : call.effect task.document = some written)
    (hwhole : ¬(flag = true ∧ call.halfway written.status = true))
    (hstatus : written.status = task.document.status)
    (hdependsOn : written.dependsOn = task.document.dependsOn) :
    (accounting calls document).Triple index (fun s => Ended index False s ∧
        Viewed index (fun s => task = ⟨s.2.newest.document, s.2.place⟩) s)
      (TaskProgram.writeFileAtomic task.path written flag)
      (fun _ => Stands index False False True (flag = true)) fun _ => False := by
  apply accounting_write stable_seen stable_stands
  rintro s answer hinv ⟨hs, hviewed⟩ helapsed hcurrent hundisturbed
  have htask : task = ⟨s.2.newest.document, s.2.place⟩ := hviewed.of_current hcurrent
  have hdocument : task.document = s.2.newest.document := by rw [htask]
  have hpath : task.path = s.2.place := by rw [htask]
  have hnone := (hinv.half_of_undisturbed hundisturbed).resolve_right fun h => hs.half.mp h
  have hsettled : task.document = s.2.settled := hdocument.trans (hinv.whole hnone)
  have hcommits : Commits calls document index False (False ∨ flag = true) task.path written s
      ((s.1.write task.path written answer.elapsed).noteWrite index flag,
        s.2.update calls index answer (.writeFile task.path written flag) s.1) :=
    commits_write hcall hinv hs helapsed hundisturbed hwhole (hsettled ▸ heffect)
      (.inr ⟨hpath, hdocument ▸ hstatus, hdocument ▸ hdependsOn⟩)
  exact ⟨hcommits.keeps, by simpa using hcommits.stands⟩

theorem accounting_acquireLease {times : LeaseTimes}
    (hcall : calls[index]? = some (.acquireLease agentId opts times)) :
    (accounting calls document).Triple index (Ended index False)
      (Aof.acquireLease agentId opts times) (fun _ => Ended index True) (Ended index False) := by
  have hidle : ∀ read, (StoreCall.acquireLease agentId opts times).idle read = false :=
    fun _ => rfl
  have hrest : (accounting calls document).Triple index (Stands index False False True True) (do
      writeArtifacts opts
      TaskProgram.finish) (fun _ => Ended index True) fun _ => False := by
    apply (accounting_writeArtifacts opts hcall hidle).bind
    intro _
    exact accounting_finish
  apply (accounting_getOrThrow_free hcall).bind
  intro task
  split
  · exact accounting_refuse_free
  rename_i hworked
  split
  · exact accounting_refuse_free
  rename_i hfree
  have heffect : (StoreCall.acquireLease agentId opts times).effect task.document =
      (task.document.leasedTo agentId opts.ttlMs times.granted).afterTransition .inProgress .empty
        times.moved := by
    rw [StoreCall.effect, if_neg hworked, if_neg hfree]
  by_cases hready : task.document.status = .ready
  · have hvalid : isValidTransition
        (task.document.leasedTo agentId opts.ttlMs times.granted).status .inProgress = true := by
      change isValidTransition task.document.status .inProgress = true
      rw [hready]
      rfl
    rw [afterTransition_of_valid hvalid] at heffect
    refine accounting_twice hcall rfl heffect (decide_eq_true hready) rfl rfl ?_ hrest
    rw [beginWork, if_pos hready]
    apply (accounting_transition_ahead hcall hidle hvalid heffect).bind
    intro _
    exact Triple.ret stable_stands fun _ _ h => h
  · have hworking : task.document.status = .inProgress := by
      by_contra hother
      exact hworked ⟨hready, hother⟩
    have hleased : (task.document.leasedTo agentId opts.ttlMs times.granted).afterTransition
        .inProgress .empty times.moved =
          some (task.document.leasedTo agentId opts.ttlMs times.granted) := if_pos hworking
    have hwrite : (accounting calls document).Triple index (fun s => Ended index False s ∧
          Viewed index (fun s => task = ⟨s.2.newest.document, s.2.place⟩) s)
        (TaskProgram.writeFileAtomic task.path
          (task.document.leasedTo agentId opts.ttlMs times.granted) true)
        (fun _ => Stands index False False True True) fun _ => False := by
      refine (accounting_change_free hcall (heffect.trans hleased) ?_ rfl rfl).conseq
        (fun _ _ h => h) (fun _ _ _ h => ?_) fun _ _ h => h
      · rintro ⟨-, hhalfway⟩
        exact hready (of_decide_eq_true hhalfway)
      · simpa using h
    apply accounting_surely
    rw [beginWork, if_neg hready]
    apply hwrite.bind
    intro _
    exact hrest

theorem accounting_renewLease (hcall : calls[index]? = some (.renewLease agentId opts now)) :
    (accounting calls document).Triple index (Ended index False)
      (Aof.renewLease agentId opts now) (fun _ => Ended index True) (Ended index False) := by
  apply (accounting_getOrThrow_free hcall).bind
  intro task
  cases hlease : task.document.lease with
  | none => exact accounting_refuse_free
  | some lease =>
      show (accounting calls document).Triple index _
        (if lease.agent ≠ agentId then .throw
        else if opts.maxRenewals ≤ lease.renewCount then .throw
        else TaskProgram.writeFileAtomic task.path (task.document.renewed lease opts.ttlMs now)) _ _
      split
      · exact accounting_refuse_free
      rename_i hagent
      split
      · exact accounting_refuse_free
      rename_i hrenewals
      have heffect : (StoreCall.renewLease agentId opts now).effect task.document =
          some (task.document.renewed lease opts.ttlMs now) := by
        simp only [StoreCall.effect, hlease, if_neg hagent, if_neg hrenewals]
      have hwrite : (accounting calls document).Triple index (fun s => Ended index False s ∧
            Viewed index (fun s => task = ⟨s.2.newest.document, s.2.place⟩) s)
          (TaskProgram.writeFileAtomic task.path (task.document.renewed lease opts.ttlMs now))
          (fun _ => Stands index False False True (false = true)) fun _ => False :=
        accounting_change_free hcall heffect (fun h => by cases h.1) rfl rfl
      apply accounting_surely
      apply hwrite.conseq (fun _ _ h => h) _ fun _ _ h => h
      intro _ s _ hs
      simpa [Ended] using hs

theorem accounting_transition {newStatus : TaskStatus} {metadataPatch : Dict String JsValue}
    {now : Nat} (hcall : calls[index]? = some call)
    (hrelease : (∀ document, known document) ∨ call.releases = true)
    (hidle : ∀ read, known read → (call.idle read = true ↔ read.status = newStatus))
    (heffect : ∀ document, known document →
      call.effect document = document.afterTransition newStatus metadataPatch now) :
    (accounting calls document).Triple index
      (fun s => Ended index False s ∧ Known index known s)
      (do
        let _ ← transition newStatus metadataPatch now
        pure ()) (fun _ => Ended index True) (Ended index False) := by
  apply (accounting_locked hcall
    (accounting_transitionTask hcall hrelease hidle heffect)).bind
  intro _
  exact Triple.ret stable_ended fun _ _ h => h

theorem accounting_releaseLease (hcall : calls[index]? = some (.releaseLease agentId now)) :
    (accounting calls document).Triple index (Ended index False)
      (Aof.releaseLease agentId now) (fun _ => Ended index True) (Ended index False) := by
  apply (accounting_getOrThrow_free hcall).bind
  intro task
  split
  · rename_i hheld
    have hrelease : (accounting calls document).Triple index
        (fun s => Ended index False s ∧ Known index
          (fun document => (document.lease.any fun lease => lease.agent = agentId) = true) s)
        (do
          let _ ← transition .ready .empty now
          pure ()) (fun _ => Ended index True) (Ended index False) := by
      apply accounting_transition hcall (.inr rfl)
      · intro read hread
        simp only [StoreCall.idle, hread, Bool.true_and, decide_eq_true_eq]
      · intro document hdocument
        rw [StoreCall.effect, if_pos hdocument]
    apply hrelease.weaken
    rintro s - ⟨hs, writes, hviewed, hle, htask⟩
    refine ⟨hs, .inr ⟨writes, hviewed, hle, fun hsame => ?_⟩⟩
    rw [htask hsame] at hheld
    exact hheld
  · exact accounting_refuse_free

theorem accounting_locked_call {program : TaskProgram Unit} (hcall : calls[index]? = some call)
    (hprogram : (accounting calls document).Triple index (Entered index fun _ => True) program
      (fun _ => Resting index True False) (Resting index False False)) :
    (accounting calls document).Triple index (Ended index False) (TaskProgram.locked program)
      (fun _ => Ended index True) (Ended index False) :=
  (accounting_locked hcall hprogram).weaken fun _ _ hs => ⟨hs, .inl fun _ => trivial⟩

theorem accounting_program (hcall : calls[index]? = some call) :
    (accounting calls document).Triple index (Ended index False) call.program
      (fun _ => Ended index True) (Ended index False) := by
  cases call with
  | transition newStatus metadataPatch now =>
      have htransition : (accounting calls document).Triple index
          (fun s => Ended index False s ∧ Known index (fun _ => True) s)
          (StoreCall.transition newStatus metadataPatch now).program (fun _ => Ended index True)
          (Ended index False) := by
        apply accounting_transition hcall (.inl fun _ => trivial)
        · exact fun read _ => decide_eq_true_iff
        · exact fun _ _ => rfl
      exact htransition.weaken fun _ _ hs => ⟨hs, .inl fun _ => trivial⟩
  | cancel reason now => exact accounting_locked_call hcall (accounting_cancelTask hcall)
  | update patch now => exact accounting_locked_call hcall (accounting_updateTask hcall)
  | updateBody body now => exact accounting_locked_call hcall (accounting_updateBody hcall)
  | addDep blocker now => exact accounting_locked_call hcall (accounting_addDependency hcall)
  | removeDep blockerId now =>
      exact accounting_locked_call hcall (accounting_removeDependency hcall)
  | block reason now => exact accounting_blockTask hcall
  | unblock now => exact accounting_unblockTask hcall
  | acquireLease agentId opts times => exact accounting_acquireLease hcall
  | renewLease agentId opts now => exact accounting_renewLease hcall
  | releaseLease agentId now => exact accounting_releaseLease hcall

end Aof
