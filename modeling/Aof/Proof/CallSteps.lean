import Aof.Proof.CallRules

/-!
# Writing while others write

What the parts of a call do that keeps to the guard: a get under the lock and outside it, the write
with which the call takes effect, and the move between directories.
-/

namespace Aof

open Interference

variable {calls : List StoreCall} {document : Document} {index : Nat} {call : StoreCall}
  {s t : Accounted}

/-- The task lies in the directory of its status, and nowhere else. -/
structure InPlace (s : Accounted) : Prop where
  place : s.2.place = s.2.newest.document.status
  alone : ∀ dir, dir ≠ s.2.place → s.1.copies dir = none

def Resting (index : Nat) (counted ahead : Prop) (s : Accounted) : Prop :=
  Stands index True False counted ahead s ∧ InPlace s

def Known (index : Nat) (known : Document → Prop) (s : Accounted) : Prop :=
  (∀ document, known document) ∨ Viewed index (fun s => known s.2.newest.document) s

def Entered (index : Nat) (known : Document → Prop) (s : Accounted) : Prop :=
  Resting index False False s ∧ Known index known s

/-- The call has begun to read under the lock: if it has nothing to write for the document of then,
it has taken effect. -/
def Begun (index : Nat) (call : StoreCall) (known : Document → Prop) (s : Accounted) : Prop :=
  ∃ read, known read ∧ read.status = s.2.newest.document.status ∧
    read.dependsOn = s.2.newest.document.dependsOn ∧
    Resting index (call.idle read = true) False s ∧
    Viewed index (fun s => known s.2.newest.document) s

def Obtained (index : Nat) (call : StoreCall) (known : Document → Prop) (task : TaskObject)
    (s : Accounted) : Prop :=
  Begun index call known s ∧ Placed task s ∧
    Viewed index (fun s => task = ⟨s.2.newest.document, s.2.place⟩) s

theorem InPlace.stable (hrely : CallRelies index s t) (hheld : s.1.holder = some index)
    (hs : InPlace s) : InPlace t := by
  refine ⟨(hrely.place hheld).trans (hs.place.trans (hrely.status hheld).symm), ?_⟩
  intro dir hdir
  rw [hrely.place hheld] at hdir
  exact hrely.alone hheld dir hdir (hs.alone dir hdir)

variable {counted ahead held half : Prop} {known : Document → Prop} {answer : OsAnswer}
  {property pre : Accounted → Prop} {dir old new : TaskStatus} {written : Document}

theorem stable_resting :
    (accounting calls document).Stable index (Resting index counted ahead) := by
  rintro s t hrely hinv ⟨hstands, hplace⟩
  exact ⟨stable_stands s t hrely hinv hstands, hplace.stable hrely (hstands.holder.mpr trivial)⟩

theorem lasting_document (property : Document → Prop) :
    Lasting fun s => property s.2.newest.document := by
  intro s t hsame hs
  rwa [hsame.newest]

theorem stable_known : (accounting calls document).Stable index (Known index known) := by
  rintro s t hrely hinv (hknown | hknown)
  · exact .inl hknown
  · exact .inr (stable_viewed (lasting_document known) s t hrely hinv hknown)

theorem stable_begun : (accounting calls document).Stable index (Begun index call known) := by
  rintro s t hrely hinv ⟨read, hknown, hstatus, hdependsOn, hresting, hviewed⟩
  have hheld := hresting.1.holder.mpr trivial
  exact ⟨read, hknown, hstatus.trans (hrely.status hheld).symm,
    hdependsOn.trans (hrely.dependsOn hheld).symm, stable_resting s t hrely hinv hresting,
    stable_viewed (lasting_document known) s t hrely hinv hviewed⟩

theorem lasting_mark (task : TaskObject) :
    Lasting fun s => task = ⟨s.2.newest.document, s.2.place⟩ := by
  intro s t hsame hs
  rw [hsame.place, hsame.newest]
  exact hs

theorem stable_obtained {task : TaskObject} :
    (accounting calls document).Stable index (Obtained index call known task) := by
  rintro s t hrely hinv ⟨hbegun, hplaced, hviewed⟩
  obtain ⟨read, -, -, -, hresting, -⟩ := id hbegun
  have hheld := hresting.1.holder.mpr trivial
  exact ⟨stable_begun s t hrely hinv hbegun,
    hplaced.congr (hrely.place hheld) (hrely.status hheld) (hrely.dependsOn hheld),
    stable_viewed (lasting_mark task) s t hrely hinv hviewed⟩

theorem keeps_beginRead (hcall : calls[index]? = some call) (hinv : Accounts calls document s)
    (hs : Stands index held half counted ahead s) (hfirst : held → ¬counted)
    (hhalf : half → ∀ document, call.idle document = false) :
    (accounting calls document).Keeps index s (s.1.beginRead index .backlog,
        s.2.update calls index answer (.readFile .backlog) s.1) ∧
      Stands index held half (counted ∨ held ∧ call.idle s.2.settled = true) ahead
        (s.1.beginRead index .backlog, s.2.update calls index answer (.readFile .backlog) s.1) := by
  have hrecord : ∀ order, effects calls order document = some s.2.settled → order.Nodup →
      (∀ other, other ≠ index → (other ∈ order ↔ other ∈ s.2.order)) →
      (s.2.half = some index → index ∉ order) →
      (accounting calls document).Keeps index s
        (s.1.beginRead index .backlog, { s.2 with order := order }) := by
    intro order hserial hnodup hcounted hnew
    apply hinv.keeps_record (sameFiles_beginRead _ _ _) (writes_beginRead _ _ _) _ _ _ hserial
      hnodup hcounted hnew
    · exact fun other hother => by simp [TaskFiles.beginRead, hother]
    · exact fun other _ => by simp [TaskFiles.beginRead]
    · intro hown
      simpa [TaskFiles.beginRead] using hinv.ahead index hown
  have hahead : (s.1.beginRead index .backlog).record.ahead index = s.1.record.ahead index := by
    simp [TaskFiles.beginRead]
  by_cases hidle : held ∧ call.idle s.2.settled = true
  · have hheld := hs.holder.mpr hidle.1
    have hnew : index ∉ s.2.order := fun hmem => hfirst hidle.1 (hs.counted.mp hmem)
    have hupdate : s.2.update calls index answer (.readFile .backlog) s.1 =
        { s.2 with order := s.2.order ++ [index] } := by
      simp [Account.update, hheld, hcall, hidle.2]
    rw [hupdate]
    refine ⟨hrecord _ ?_ ?_ ?_ ?_, hs.holder, hs.half, ?_, by rw [hahead]; exact hs.ahead⟩
    · exact effects_snoc hinv.serial hcall (StoreCall.effect_of_idle hidle.2)
    · exact hinv.nodup.append (List.nodup_singleton index) (by simpa using hnew)
    · exact fun other hother => by simp [hother]
    · intro hown
      rw [hhalf (hs.half.mp hown)] at hidle
      cases hidle.2
    · simp [hidle]
  · have hupdate : s.2.update calls index answer (.readFile .backlog) s.1 = s.2 := by
      apply if_neg
      rintro ⟨-, hheld, hany⟩
      rw [hcall] at hany
      exact hidle ⟨hs.holder.mp hheld, hany⟩
    rw [hupdate]
    refine ⟨hrecord _ hinv.serial hinv.nodup (fun _ _ => Iff.rfl) (hinv.uncounted index), hs.holder,
      hs.half, ?_, by rw [hahead]; exact hs.ahead⟩
    rw [or_iff_left hidle]
    exact hs.counted

theorem Reads.inPlace (hreads : Reads index s t) (hs : InPlace s) : InPlace t := by
  refine ⟨by rw [hreads.account]; exact hs.place, fun dir hdir => ?_⟩
  rw [hreads.account] at hdir
  cases hcopy : t.1.copies dir with
  | none => rfl
  | some file =>
      have hold := hreads.copies dir file hcopy
      rw [hs.alone dir hdir] at hold
      cases hold

theorem accounting_get_free (hcall : calls[index]? = some call) :
    (accounting calls document).Triple index (Stands index False False counted ahead)
      Aof.get (fun winner s => Stands index False False counted ahead s ∧
        Viewed index (fun s => winner = some ⟨s.2.newest.document, s.2.place⟩) s)
      fun _ => False := by
  have hget : (accounting calls document).Triple index
      (Stands index False False counted ahead) Aof.get
      (fun winner => Choosing index False (Stands index False False counted ahead) winner [])
      fun _ => False := by
    apply accounting_get stable_stands stable_stands (fun h => h.elim)
    · exact fun s t hreads hs => hreads.stands hs
    · intro s answer hinv hs _
      obtain ⟨hkeeps, hstands⟩ := keeps_beginRead hcall hinv hs (fun h => h.elim) fun h => h.elim
      simp only [false_and, or_false] at hstands
      exact ⟨hkeeps, hstands⟩
  exact hget.conseq (fun _ _ h => h) (fun _ _ _ h => ⟨h.1, h.2.1⟩) fun _ _ h => h

theorem accounting_get_held (hcall : calls[index]? = some call)
    (hrelease : (∀ document, known document) ∨ call.releases = true) :
    (accounting calls document).Triple index (Entered index known) getOrThrow
      (fun task => Obtained index call known task) fun _ => False := by
  have hbegun : True → ∀ s, Begun index call known s → Holding index s := by
    rintro - s ⟨read, -, -, -, hresting, -⟩
    exact ⟨hresting.1.holder.mpr trivial, hresting.2.alone⟩
  have hget : (accounting calls document).Triple index (Entered index known) Aof.get
      (fun winner => Choosing index True (Begun index call known) winner []) fun _ => False := by
    apply accounting_get (stable_resting.and stable_known) stable_begun hbegun
    · rintro s t hreads ⟨read, hknown, hstatus, hdependsOn, ⟨hstands, hplace⟩, hviewed⟩
      refine ⟨read, hknown, ?_, ?_, ⟨hreads.stands hstands, hreads.inPlace hplace⟩,
        hreads.viewed_mono (lasting_document known) hviewed⟩
      · rw [hreads.account]
        exact hstatus
      · rw [hreads.account]
        exact hdependsOn
    · rintro s answer hinv ⟨⟨hstands, hplace⟩, hknown⟩ hguard
      obtain ⟨hkeeps, hafter⟩ := keeps_beginRead hcall hinv hstands (fun _ h => h) fun h => h.elim
      refine ⟨hkeeps, ?_⟩
      obtain ⟨hsettled, hnewest⟩ : known s.2.settled ∧ known s.2.newest.document := by
        rcases hknown with hall | hviewed
        · exact ⟨hall _, hall _⟩
        · rcases hrelease with hall | hrelease
          · exact ⟨hall _, hall _⟩
          · obtain ⟨hcurrent, hundisturbed⟩ := hguard.2 rfl (hstands.holder.mpr trivial)
              (by rw [hcall]; exact hrelease)
            have hnewest := hviewed.of_current hcurrent
            have hnone := (hinv.half_of_undisturbed hundisturbed).resolve_right
              fun h => hstands.half.mp h
            exact ⟨hinv.whole hnone ▸ hnewest, hnewest⟩
      have hsame : ∀ order, Unwritten s (s.1.beginRead index .backlog,
          { s.2 with order := order }) := by
        refine fun order => ⟨rfl, rfl, rfl, rfl, fun dir file hcopy => ?_⟩
        rwa [(sameFiles_beginRead s.1 index .backlog).copies] at hcopy
      have hupdate : ∃ order, s.2.update calls index answer (.readFile .backlog) s.1 =
          { s.2 with order := order } := by
        simp only [Account.update]
        split
        · exact ⟨_, rfl⟩
        · exact ⟨_, rfl⟩
      obtain ⟨order, hupdate⟩ := hupdate
      rw [hupdate] at hafter ⊢
      rw [false_or, true_and] at hafter
      refine ⟨s.2.settled, hsettled, hinv.status.symm, hinv.dependsOn.symm,
        ⟨hafter, hplace.place, fun dir hdir => ?_⟩, s.1.record.writes, ?_, ?_, fun _ => hnewest⟩
      · rw [(sameFiles_beginRead s.1 index .backlog).copies]
        exact hplace.alone dir hdir
      · simp [TaskFiles.beginRead]
      · exact (writes_beginRead s.1 index .backlog).ge
  have hsome : (accounting calls document).Triple index (Entered index known) Aof.get
      (fun winner s => ∃ task, winner = some task ∧ Obtained index call known task s)
      fun _ => False := by
    refine hget.conseq (fun _ _ h => h) (fun winner s _ h => ?_) fun _ _ h => h
    obtain ⟨hs, hviewed, hfound⟩ := h
    obtain ⟨task, rfl, hplaced⟩ := hfound trivial
    obtain ⟨writes, hread, hle, hmark⟩ := hviewed
    exact ⟨task, rfl, hs, hplaced, writes, hread, hle,
      fun hsame => Option.some.inj (hmark hsame)⟩
  have horThrow : (accounting calls document).Triple index (Entered index known) getOrThrow
      (fun task s => ∃ other, some task = some other ∧ Obtained index call known other s)
      fun _ => False := by
    apply triple_getOrThrow _ hsome
    · rintro s - ⟨task, hnone, -⟩
      cases hnone
    · rintro winner s t hrely hinv ⟨task, rfl, hs⟩
      exact ⟨task, rfl, stable_obtained s t hrely hinv hs⟩
  refine horThrow.conseq (fun _ _ h => h) (fun task s _ h => ?_) fun _ _ h => h
  obtain ⟨other, hsame, hs⟩ := h
  exact Option.some.inj hsame ▸ hs

theorem stable_ahead (hproperty : Lasting property) :
    (accounting calls document).Stable index fun s =>
      Stands index held half counted True s ∧ property s := by
  rintro s t hrely hinv ⟨hs, hholds⟩
  refine ⟨stable_stands s t hrely hinv hs, ?_⟩
  exact hproperty s t (hrely.same (hrely.undisturbed (hs.ahead.mpr trivial))) hholds

theorem stable_current (hproperty : Lasting property) :
    (accounting calls document).Stable index fun s =>
      (Stands index held half counted True s ∧ property s) ∧ Current index s.1 := by
  rintro s t hrely hinv ⟨hs, hcurrent⟩
  refine ⟨stable_ahead hproperty s t hrely hinv hs, ?_⟩
  unfold Current at hcurrent ⊢
  rw [hrely.viewed, hrely.undisturbed (hs.1.ahead.mpr trivial)]
  exact hcurrent

theorem accounting_get_ahead (hcall : calls[index]? = some call)
    (hidle : ∀ document, call.idle document = false) (hfirst : held → ¬counted)
    (hproperty : Lasting property) : (accounting calls document).Triple index
      (fun s => Stands index held half counted True s ∧ property s) getOrThrow
      (fun task s => ((Stands index held half counted True s ∧ property s) ∧ Current index s.1) ∧
        task = ⟨s.2.newest.document, s.2.place⟩) fun _ => False := by
  have hget : (accounting calls document).Triple index
      (fun s => Stands index held half counted True s ∧ property s) Aof.get
      (fun winner => Choosing index False
        (fun s => (Stands index held half counted True s ∧ property s) ∧ Current index s.1)
        winner []) fun _ => False := by
    apply accounting_get (stable_ahead hproperty) (stable_current hproperty) fun h => h.elim
    · rintro s t hreads ⟨⟨hstands, hholds⟩, hcurrent⟩
      refine ⟨⟨hreads.stands hstands, hproperty s t hreads.unwritten hholds⟩, ?_⟩
      unfold Current at hcurrent ⊢
      rw [hreads.viewed, hreads.writes]
      exact hcurrent
    · rintro s answer hinv ⟨hstands, hholds⟩ -
      obtain ⟨hkeeps, hafter⟩ := keeps_beginRead hcall hinv hstands hfirst fun _ => hidle
      simp only [hidle, Bool.false_eq_true, and_false, or_false] at hafter
      have hupdate : s.2.update calls index answer (.readFile .backlog) s.1 = s.2 := by
        apply if_neg
        rintro ⟨-, -, hany⟩
        rw [hcall, Option.any_some, hidle] at hany
        cases hany
      rw [hupdate] at hkeeps hafter ⊢
      refine ⟨hkeeps, ⟨hafter, hproperty s _ ⟨rfl, rfl, rfl, rfl, fun dir file hcopy => ?_⟩ hholds⟩,
        ?_⟩
      · rwa [(sameFiles_beginRead s.1 index .backlog).copies] at hcopy
      · simp [Current, TaskFiles.beginRead]
  have horThrow : (accounting calls document).Triple index
      (fun s => Stands index held half counted True s ∧ property s) getOrThrow
      (fun task s => ((Stands index held half counted True s ∧ property s) ∧ Current index s.1) ∧
        some task = some ⟨s.2.newest.document, s.2.place⟩) fun _ => False := by
    have hwinner : ∀ winner : Option TaskObject, (accounting calls document).Stable index fun s =>
        ((Stands index held half counted True s ∧ property s) ∧ Current index s.1) ∧
          winner = some ⟨s.2.newest.document, s.2.place⟩ := by
      rintro winner s t hrely hinv ⟨hs, hmark⟩
      have hunwritten := hrely.same (hrely.undisturbed (hs.1.1.ahead.mpr trivial))
      refine ⟨stable_current hproperty s t hrely hinv hs, ?_⟩
      rw [hunwritten.place, hunwritten.newest]
      exact hmark
    apply triple_getOrThrow hwinner _ fun s _ h => by cases h.2
    apply hget.conseq (fun _ _ h => h) (fun winner s _ h => ?_) fun _ _ h => h
    exact ⟨h.1, h.2.1.of_current h.1.2⟩
  exact horThrow.conseq (fun _ _ h => h) (fun _ _ _ h => ⟨h.1, Option.some.inj h.2⟩)
    fun _ _ h => h

theorem accounting_write {dir : TaskStatus} {written : Document} {ahead : Bool}
    {pre post : Accounted → Prop} (hpre : (accounting calls document).Stable index pre)
    (hpost : (accounting calls document).Stable index post)
    (hstep : ∀ s answer, Accounts calls document s → pre s → 0 < answer.elapsed →
      Current index s.1 → Undisturbed index s.1 → (accounting calls document).Keeps index s
          ((s.1.write dir written answer.elapsed).noteWrite index ahead,
            s.2.update calls index answer (.writeFile dir written ahead) s.1) ∧
        post ((s.1.write dir written answer.elapsed).noteWrite index ahead,
          s.2.update calls index answer (.writeFile dir written ahead) s.1)) :
    (accounting calls document).Triple index pre (TaskProgram.writeFileAtomic dir written ahead)
      (fun _ => post) fun _ => False := by
  apply triple_orThrow hpost (stable_const False)
  apply Triple.perform hpre
  · intro reply
    cases reply with
    | false => exact stable_const False
    | true => exact hpost
  rintro s answer reply t hinv hs ⟨hfails, helapsed, hcurrent, hundisturbed⟩ hperform
  obtain ⟨hperform, haccount⟩ := accounting_perform.mp hperform
  simp only [TaskFiles.perform, hfails, Bool.false_eq_true, if_false] at hperform
  obtain ⟨rfl, hfiles⟩ := Prod.mk.inj (Option.some.inj hperform)
  rw [show t = (_, _) from Prod.ext hfiles.symm haccount]
  exact hstep s answer hinv hs helapsed hcurrent hundisturbed

/-- What is known of a write with which its call takes effect. -/
structure Commits (calls : List StoreCall) (document : Document) (index : Nat)
    (held ahead : Prop) (dir : TaskStatus) (written : Document) (s t : Accounted) : Prop where
  keeps : (accounting calls document).Keeps index s t
  stands : Stands index held False True ahead t
  place : t.2.place = dir
  newest : t.2.newest.document = written
  copies : ∀ other, other ≠ dir → t.1.copies other = s.1.copies other

theorem commits_write {dir : TaskStatus} {written : Document} {flag : Bool} {answer : OsAnswer}
    {held half ahead : Prop} (hcall : calls[index]? = some call)
    (hinv : Accounts calls document s) (hs : Stands index held half False ahead s)
    (helapsed : 0 < answer.elapsed) (hundisturbed : Undisturbed index s.1)
    (hwhole : ¬(flag = true ∧ call.halfway written.status = true))
    (heffect : call.effect s.2.settled = some written)
    (hwhere : held ∨ dir = s.2.place ∧ written.status = s.2.newest.document.status ∧
      written.dependsOn = s.2.newest.document.dependsOn) :
    Commits calls document index held (ahead ∨ flag = true) dir written s
      ((s.1.write dir written answer.elapsed).noteWrite index flag,
        s.2.update calls index answer (.writeFile dir written flag) s.1) := by
  have hnew : index ∉ s.2.order := fun hmem => hs.counted.mp hmem
  have hupdate : s.2.update calls index answer (.writeFile dir written flag) s.1 =
      { order := s.2.order ++ [index], settled := written, place := dir,
        newest := ⟨written, s.1.clock + answer.elapsed⟩, half := none } := by
    apply if_neg
    rw [hcall]
    exact hwhole
  rw [hupdate]
  refine ⟨?_, ⟨hs.holder, ?_, ?_, ?_⟩, rfl, rfl, ?_⟩
  · apply hinv.keeps_write helapsed hundisturbed
      (hwhere.imp_left hs.holder.mpr) (effects_snoc hinv.serial hcall heffect) _ _ rfl rfl
      (.inl ⟨rfl, rfl⟩)
    · exact hinv.nodup.append (List.nodup_singleton index) (by simpa using hnew)
    · exact fun other hother => by simp [hother]
  · simp
  · simp
  · simp only [TaskFiles.noteWrite, Function.update_self, Bool.or_eq_true]
    exact or_congr hs.ahead Iff.rfl
  · exact fun other hother => Function.update_of_ne hother _ _

/-- Under the lock the call has taken effect; a copy may still lie in the old directory. -/
def Committed (index : Nat) (ahead : Prop) (dir status old : TaskStatus) (s : Accounted) : Prop :=
  Stands index True False True ahead s ∧ s.2.place = dir ∧ s.2.newest.document.status = status ∧
    ∀ other, other ≠ dir → other ≠ old → s.1.copies other = none

theorem stable_committed {status : TaskStatus} :
    (accounting calls document).Stable index (Committed index ahead dir status old) := by
  rintro s t hrely hinv ⟨hs, hplace, hstatus, halone⟩
  have hheld := hs.holder.mpr trivial
  refine ⟨stable_stands s t hrely hinv hs, (hrely.place hheld).trans hplace,
    (hrely.status hheld).trans hstatus, fun other hdir hold => ?_⟩
  exact hrely.alone hheld other (hplace ▸ hdir) (halone other hdir hold)

theorem Committed.resting (hs : Committed index ahead dir dir dir s) :
    Resting index True ahead s := by
  obtain ⟨hstands, hplace, hstatus, halone⟩ := hs
  refine ⟨hstands, hplace.trans hstatus.symm, fun other hother => ?_⟩
  rw [hplace] at hother
  exact halone other hother hother

theorem accounting_commit {dir old : TaskStatus} {written : Document} {half ahead : Prop}
    {pre : Accounted → Prop} (hcall : calls[index]? = some call)
    (hpre : (accounting calls document).Stable index pre)
    (hstands : ∀ s, pre s → Stands index True half False ahead s ∧ InPlace s)
    (hready : ∀ s, Accounts calls document s → pre s → Current index s.1 → Undisturbed index s.1 →
      s.2.place = old ∧ call.effect s.2.settled = some written) :
    (accounting calls document).Triple index pre (TaskProgram.writeFileAtomic dir written)
      (fun _ => Committed index ahead dir written.status old) fun _ => False := by
  apply accounting_write hpre stable_committed
  intro s answer hinv hs helapsed hcurrent hundisturbed
  obtain ⟨hplace, heffect⟩ := hready s hinv hs hcurrent hundisturbed
  obtain ⟨hstands, hinplace⟩ := hstands s hs
  have hcommits : Commits calls document index True (ahead ∨ false = true) dir written s
      ((s.1.write dir written answer.elapsed).noteWrite index false,
        s.2.update calls index answer (.writeFile dir written false) s.1) :=
    commits_write hcall hinv hstands helapsed hundisturbed (fun h => nomatch h.1) heffect
      (.inl trivial)
  refine ⟨hcommits.keeps, by simpa using hcommits.stands, hcommits.place, ?_, ?_⟩
  · rw [hcommits.newest]
  · intro other hdir hold
    rw [hcommits.copies other hdir]
    exact hinplace.alone other (hplace ▸ hold)

theorem accounting_same {op : TaskOp} {pre : Accounted → Prop} {result : TaskReply op → Prop}
    (hpre : (accounting calls document).Stable index pre)
    (hsame : ∀ (s t : Accounted) answer reply, answer.fails = false →
      TaskFiles.perform index answer op s.1 = some (reply, t.1) →
      t.2 = s.2.update calls index answer op s.1 → t = s ∧ result reply) :
    (accounting calls document).Triple index pre (TaskProgram.perform op)
      (fun reply s => result reply ∧ pre s) fun _ => False := by
  apply Triple.perform hpre fun reply => (stable_const _).and hpre
  intro s answer reply t hinv hs hguard hperform
  obtain ⟨hperform, haccount⟩ := accounting_perform.mp hperform
  obtain ⟨rfl, hresult⟩ := hsame s t answer reply hguard.1 hperform haccount
  exact ⟨hinv.keeps_same (SameFiles.refl _) rfl (fun _ _ => rfl) rfl, hresult, hs⟩

theorem accounting_mkdir (hpre : (accounting calls document).Stable index pre) :
    (accounting calls document).Triple index pre TaskProgram.mkdir (fun _ => pre)
      fun _ => False := by
  apply triple_orThrow hpre (stable_const False)
  have hmkdir : (accounting calls document).Triple index pre (TaskProgram.perform .mkdir)
      (fun reply s => reply = true ∧ pre s) fun _ => False := by
    apply accounting_same hpre
    intro s t answer reply hfails hperform haccount
    obtain ⟨hreply, hfiles⟩ := Prod.mk.inj (Option.some.inj hperform)
    exact ⟨Prod.ext hfiles.symm haccount, by rw [← hreply, hfails]; rfl⟩
  refine hmkdir.conseq (fun _ _ h => h) (fun reply s _ h => ?_) fun _ _ h => h
  obtain ⟨rfl, hs⟩ := h
  exact hs

theorem accounting_moveCompanion (hpre : (accounting calls document).Stable index pre) :
    (accounting calls document).Triple index pre TaskProgram.moveCompanion
      (fun reply s => reply ≠ .other ∧ pre s) fun _ => False := by
  apply accounting_same hpre
  intro s t answer reply hfails hperform haccount
  obtain ⟨hreply, hfiles⟩ := Prod.mk.inj (Option.some.inj hperform)
  refine ⟨Prod.ext hfiles.symm haccount, ?_⟩
  rw [← hreply, hfails]
  cases answer.companion <;> decide

theorem accounting_stat_moved :
    (accounting calls document).Triple index (Committed index ahead new new old)
      (TaskProgram.stat new)
      (fun reply s => reply ≠ none ∧ Committed index ahead new new old s) fun _ => False := by
  apply Triple.perform stable_committed fun reply => (stable_const _).and stable_committed
  rintro s answer reply t hinv ⟨hstands, hplace, hstatus, halone⟩ hguard hperform
  obtain ⟨hperform, haccount⟩ := accounting_perform.mp hperform
  have hcopy : s.1.copies new = some s.2.newest := hplace ▸ hinv.newest.copy
  have hfails : answer.fails = false := hguard.1
  simp only [TaskFiles.perform, hcopy, hfails, Bool.false_eq_true, if_false] at hperform
  obtain ⟨rfl, hfiles⟩ := Prod.mk.inj (Option.some.inj hperform)
  obtain rfl : t = (s.1.noteTime index new, s.2) := Prod.ext hfiles.symm haccount
  exact ⟨hinv.keeps_same (sameFiles_noteTime _ _ _) rfl (fun _ _ => rfl) rfl,
    Option.some_ne_none _, ⟨hstands.holder, hstands.half, hstands.counted, hstands.ahead⟩, hplace,
    hstatus, halone⟩

theorem perform_unlink_ok {files after : TaskFiles} {reply : Errno} (hfails : answer.fails = false)
    (hperform : TaskFiles.perform index answer (.unlink dir) files = some (reply, after)) :
    after = files.remove dir := by
  simp only [TaskFiles.perform, hfails, Bool.false_eq_true, if_false] at hperform
  split at hperform
  · exact (Prod.mk.inj (Option.some.inj hperform)).2.symm
  · rename_i hcopy
    rw [← (Prod.mk.inj (Option.some.inj hperform)).2, TaskFiles.remove,
      ← Option.not_isSome_iff_eq_none.mp hcopy, Function.update_eq_self]

theorem accounting_unlink (hne : new ≠ old) :
    (accounting calls document).Triple index (Committed index ahead new new old)
      (TaskProgram.unlink old) (fun _ => Resting index True ahead) fun _ => False := by
  apply Triple.perform stable_committed fun _ => stable_resting
  rintro s answer reply t hinv ⟨hstands, hplace, hstatus, halone⟩ hguard hperform
  obtain ⟨hperform, haccount⟩ := accounting_perform.mp hperform
  have hfiles := perform_unlink_ok hguard.1 hperform
  obtain rfl : t = (s.1.remove old, s.2) := Prod.ext hfiles haccount
  refine ⟨hinv.keeps_remove (hplace ▸ hne.symm),
    ⟨hstands.holder, hstands.half, hstands.counted, hstands.ahead⟩, hplace.trans hstatus.symm, ?_⟩
  intro dir hdir
  simp only [TaskFiles.remove, Function.update_apply]
  split
  · rfl
  · rename_i hold
    exact halone dir (hplace ▸ hdir) hold

theorem accounting_relocate (hcall : calls[index]? = some call)
    (hpre : (accounting calls document).Stable index pre)
    (hstands : ∀ s, pre s → Stands index True half False ahead s ∧ InPlace s)
    (hready : ∀ s, Accounts calls document s → pre s → Current index s.1 →
      Undisturbed index s.1 → s.2.place = old ∧ call.effect s.2.settled = some written)
    (hstatus : written.status = new) (hne : new ≠ old) :
    (accounting calls document).Triple index pre (relocate old new written)
      (fun _ => Resting index True ahead) fun _ => False := by
  have hwrite : (accounting calls document).Triple index pre
      (TaskProgram.writeFileAtomic new written) (fun _ => Committed index ahead new new old)
      fun _ => False := by
    have hcommit : (accounting calls document).Triple index pre
        (TaskProgram.writeFileAtomic new written)
        (fun _ => Committed index ahead new written.status old)
        fun _ => False := accounting_commit hcall hpre hstands hready
    rwa [hstatus] at hcommit
  apply (accounting_mkdir hpre).bind
  intro _
  apply hwrite.bind
  intro _
  apply (accounting_moveCompanion stable_committed).bind
  intro moved
  apply Triple.assume
  intro hmoved
  cases moved with
  | ok | ENOENT =>
      apply accounting_stat_moved.bind
      intro mtimeMs
      apply Triple.assume
      intro hsome
      cases mtimeMs with
      | none => exact absurd rfl hsome
      | some _ =>
          apply (accounting_unlink hne).bind
          intro _
          exact Triple.ret stable_resting fun _ _ h => h
  | other => exact absurd rfl hmoved

theorem accounting_lock_eq {reply : Unit}
    (hperform : (accounting calls document).perform index answer .lock s = some (reply, t)) :
    s.1.holder = none ∧ t = ({ s.1 with holder := some index }, s.2) := by
  obtain ⟨hperform, haccount⟩ := accounting_perform.mp hperform
  simp only [TaskFiles.perform] at hperform
  split at hperform
  · cases hperform
  · rename_i hfree
    obtain ⟨-, hfiles⟩ := Prod.mk.inj (Option.some.inj hperform)
    exact ⟨Option.not_isSome_iff_eq_none.mp hfree, Prod.ext hfiles.symm haccount⟩

theorem accounting_lock (hcall : calls[index]? = some call)
    (hstable : (accounting calls document).Stable index property)
    (hlock : ∀ s : Accounted, property s → property ({ s.1 with holder := some index }, s.2)) :
    (accounting calls document).Triple index
      (fun s => Stands index False half counted ahead s ∧ property s) (TaskProgram.perform .lock)
      (fun _ s => (Stands index True half counted ahead s ∧ InPlace s) ∧ property s)
      fun _ => False := by
  have hpost : (accounting calls document).Stable index fun s =>
      (Stands index True half counted ahead s ∧ InPlace s) ∧ property s := by
    rintro s t hrely hinv ⟨⟨hstands, hplace⟩, hs⟩
    exact ⟨⟨stable_stands s t hrely hinv hstands,
      hplace.stable hrely (hstands.holder.mpr trivial)⟩, hstable s t hrely hinv hs⟩
  apply Triple.perform (stable_stands.and hstable) fun _ => hpost
  rintro s answer reply t hinv ⟨hstands, hs⟩ - hperform
  obtain ⟨hfree, rfl⟩ := accounting_lock_eq hperform
  refine ⟨hinv.keeps_lock (List.getElem?_eq_some_iff.mp hcall).1 hfree, ⟨⟨?_, ?_⟩, hlock s hs⟩⟩
  · exact ⟨by simp, hstands.half, hstands.counted, hstands.ahead⟩
  · exact ⟨(hinv.rest hfree).1, (hinv.rest hfree).2⟩

theorem accounting_unlock :
    (accounting calls document).Triple index (Resting index counted ahead)
      (TaskProgram.perform .unlock) (fun _ => Stands index False False counted ahead)
      fun _ => False := by
  apply Triple.perform stable_resting fun _ => stable_stands
  rintro s answer reply t hinv ⟨hstands, hplace⟩ - hperform
  obtain ⟨hperform, haccount⟩ := accounting_perform.mp hperform
  obtain ⟨-, hfiles⟩ := Prod.mk.inj (Option.some.inj hperform)
  obtain rfl : t = ({ s.1 with holder := none }, s.2) := Prod.ext hfiles.symm haccount
  refine ⟨hinv.keeps_unlock (hstands.holder.mpr trivial) hplace.place hplace.alone, ?_⟩
  exact ⟨by simp, hstands.half, hstands.counted, hstands.ahead⟩

end Aof
