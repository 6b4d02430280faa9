import Aof.Proof.CallAccount

/-!
# Reading while others write

What a get finds while other calls keep to the guard: the newest copy, if nobody has written since
it began, and a copy in the task's place, if its call holds the lock.
-/

namespace Aof

open Interference

variable {calls : List StoreCall} {document : Document} {index : Nat} {call : StoreCall}
  {s t : Accounted}

structure Stands (index : Nat) (held half counted ahead : Prop) (s : Accounted) : Prop where
  holder : s.1.holder = some index ↔ held
  half : s.2.half = some index ↔ half
  counted : index ∈ s.2.order ↔ counted
  ahead : s.1.record.ahead index = true ↔ ahead

variable {held half counted ahead : Prop} {property : Accounted → Prop} {task : TaskObject}

theorem stable_stands :
    (accounting calls document).Stable index (Stands index held half counted ahead) := by
  intro s t hrely _ hs
  exact ⟨hrely.holder.trans hs.holder, hrely.half.trans hs.half, hrely.counted.trans hs.counted,
    by rw [hrely.ahead]; exact hs.ahead⟩

def Viewed (index : Nat) (property : Accounted → Prop) (s : Accounted) : Prop :=
  ∃ writes, s.1.record.viewed index = some writes ∧ writes ≤ s.1.record.writes ∧
    (writes = s.1.record.writes → property s)

def Lasting (property : Accounted → Prop) : Prop :=
  ∀ s t, Unwritten s t → property s → property t

theorem stable_viewed (hproperty : Lasting property) :
    (accounting calls document).Stable index (Viewed index property) := by
  rintro s t hrely - ⟨writes, hviewed, hle, hholds⟩
  have hwrites := hrely.writes
  refine ⟨writes, hrely.viewed.trans hviewed, hle.trans hwrites, fun hsame => ?_⟩
  exact hproperty s t (hrely.same (by omega)) (hholds (by omega))

theorem Viewed.of_current (hviewed : Viewed index property s) (hcurrent : Current index s.1) :
    property s := by
  obtain ⟨writes, hread, -, hholds⟩ := hviewed
  exact hholds (Option.some.inj (hread.symm.trans hcurrent))

theorem accounting_perform {op : TaskOp} {answer : OsAnswer} {reply : TaskReply op} :
    (accounting calls document).perform index answer op s = some (reply, t) ↔
      TaskFiles.perform index answer op s.1 = some (reply, t.1) ∧
        t.2 = s.2.update calls index answer op s.1 :=
  Async.withGhost_eq_some

structure Reads (index : Nat) (s t : Accounted) : Prop where
  account : t.2 = s.2
  holder : t.1.holder = s.1.holder
  viewed : t.1.record.viewed index = s.1.record.viewed index
  writes : t.1.record.writes = s.1.record.writes
  ahead : t.1.record.ahead = s.1.record.ahead
  copies : ∀ dir file, t.1.copies dir = some file → s.1.copies dir = some file

theorem Reads.unwritten (hreads : Reads index s t) : Unwritten s t :=
  ⟨by rw [hreads.account], by rw [hreads.account], by rw [hreads.account], by rw [hreads.account],
    hreads.copies⟩

theorem Reads.viewed_mono (hreads : Reads index s t) (hproperty : Lasting property)
    (hviewed : Viewed index property s) : Viewed index property t := by
  obtain ⟨writes, hread, hle, hholds⟩ := hviewed
  refine ⟨writes, hreads.viewed.trans hread, hreads.writes.symm ▸ hle, fun hsame => ?_⟩
  exact hproperty s t hreads.unwritten (hholds (hsame.trans hreads.writes))

theorem Reads.stands (hreads : Reads index s t) (hs : Stands index held half counted ahead s) :
    Stands index held half counted ahead t :=
  ⟨by rw [hreads.holder]; exact hs.holder, by rw [hreads.account]; exact hs.half,
    by rw [hreads.account]; exact hs.counted, by rw [hreads.ahead]; exact hs.ahead⟩

def Account.mark (account : Account) : Match :=
  ⟨⟨account.newest.document, account.place⟩, account.newest.mtimeMs⟩

/-- The newest copy is still to be read or has been found, and what else was found is older. -/
def SeenIn (dirs : List TaskStatus) (found : List Match) (s : Accounted) : Prop :=
  (s.2.place ∈ dirs ∨ s.2.mark ∈ found) ∧
    ∀ copy ∈ found, copy = s.2.mark ∨ copy.mtimeMs < s.2.newest.mtimeMs

def Placed (task : TaskObject) (s : Accounted) : Prop :=
  task.path = s.2.place ∧ task.document.status = s.2.newest.document.status ∧
    task.document.dependsOn = s.2.newest.document.dependsOn

def PlacedIn (dirs : List TaskStatus) (found : List Match) (s : Accounted) : Prop :=
  (s.2.place ∈ dirs ∨ found ≠ []) ∧ ∀ copy ∈ found, Placed copy.task s

def Searching (index : Nat) (held : Prop) (before after : Accounted → Prop)
    (dirs : List TaskStatus) (found : List Match) (s : Accounted) : Prop :=
  dirs = STATUS_DIRS ∧ found = [] ∧ before s ∨
    dirs <:+ STATUS_DIRS.tail ∧ after s ∧ Viewed index (SeenIn dirs found) s ∧
      (held → PlacedIn dirs found s)

def Reading (index : Nat) (held : Prop) (after : Accounted → Prop) (dir : TaskStatus)
    (read : Document) (dirs : List TaskStatus) (found : List Match) (s : Accounted) : Prop :=
  dirs <:+ STATUS_DIRS.tail ∧ after s ∧
    Viewed index (fun s => SeenIn (dir :: dirs) found s ∧
      (dir = s.2.place → read = s.2.newest.document)) s ∧
    (held → PlacedIn (dir :: dirs) found s ∧ Placed ⟨read, dir⟩ s)

def Choosing (index : Nat) (held : Prop) (after : Accounted → Prop) (winner : Option TaskObject)
    (_ : List Match) (s : Accounted) : Prop :=
  after s ∧ Viewed index (fun s => winner = some ⟨s.2.newest.document, s.2.place⟩) s ∧
    (held → ∃ task, winner = some task ∧ Placed task s)

structure Holding (index : Nat) (s : Accounted) : Prop where
  held : s.1.holder = some index
  alone : ∀ dir, dir ≠ s.2.place → s.1.copies dir = none

theorem lasting_seenIn (dirs : List TaskStatus) (found : List Match) :
    Lasting (SeenIn dirs found) := by
  intro s t hsame hs
  unfold SeenIn Account.mark at hs ⊢
  rwa [hsame.place, hsame.newest]

theorem Placed.congr (hs : Placed task s) (hplace : t.2.place = s.2.place)
    (hstatus : t.2.newest.document.status = s.2.newest.document.status)
    (hdependsOn : t.2.newest.document.dependsOn = s.2.newest.document.dependsOn) : Placed task t :=
  ⟨hs.1.trans hplace.symm, hs.2.1.trans hstatus.symm, hs.2.2.trans hdependsOn.symm⟩

theorem stable_placed {after : Accounted → Prop} (hheld : held → ∀ s, after s → Holding index s)
    (hrely : CallRelies index s t) (hs : after s) (hholds : held) (hplaced : Placed task s) :
    Placed task t := by
  have hholding := hheld hholds s hs
  exact hplaced.congr (hrely.place hholding.held) (hrely.status hholding.held)
    (hrely.dependsOn hholding.held)

section Get

variable {held : Prop} {before after : Accounted → Prop}

variable {dirs : List TaskStatus} {found : List Match} {dir : TaskStatus}

theorem PlacedIn.stable (hheld : held → ∀ s, after s → Holding index s)
    (hrely : CallRelies index s t) (hs : after s) (hholds : held)
    (hplaced : PlacedIn dirs found s) : PlacedIn dirs found t := by
  refine ⟨?_, fun copy hcopy => stable_placed hheld hrely hs hholds (hplaced.2 copy hcopy)⟩
  rw [hrely.place (hheld hholds s hs).held]
  exact hplaced.1

theorem stable_searching_call (hbefore : (accounting calls document).Stable index before)
    (hafter : (accounting calls document).Stable index after)
    (hheld : held → ∀ s, after s → Holding index s) (dirs : List TaskStatus) (found : List Match) :
    (accounting calls document).Stable index (Searching index held before after dirs found) := by
  rintro s t hrely hinv (⟨hdirs, hfound, hs⟩ | ⟨hdirs, hs, hviewed, hplaced⟩)
  · exact .inl ⟨hdirs, hfound, hbefore s t hrely hinv hs⟩
  · refine .inr ⟨hdirs, hafter s t hrely hinv hs, ?_, fun hholds => ?_⟩
    · exact stable_viewed (lasting_seenIn dirs found) s t hrely hinv hviewed
    · exact (hplaced hholds).stable hheld hrely hs hholds

section

variable (hafter : (accounting calls document).Stable index after)
  (hheld : held → ∀ s, after s → Holding index s)
include hafter hheld

theorem stable_reading_call (dir : TaskStatus) (read : Document) (dirs : List TaskStatus)
    (found : List Match) :
    (accounting calls document).Stable index (Reading index held after dir read dirs found) := by
  rintro s t hrely hinv ⟨hdirs, hs, hviewed, hplaced⟩
  refine ⟨hdirs, hafter s t hrely hinv hs, ?_, fun hholds => ?_⟩
  · refine stable_viewed (fun s t hsame h => ⟨lasting_seenIn _ found s t hsame h.1, ?_⟩) s t hrely
      hinv hviewed
    rw [hsame.place, hsame.newest]
    exact h.2
  · exact ⟨(hplaced hholds).1.stable hheld hrely hs hholds,
      stable_placed hheld hrely hs hholds (hplaced hholds).2⟩

theorem stable_choosing_call (winner : Option TaskObject) (stale : List Match) :
    (accounting calls document).Stable index (Choosing index held after winner stale) := by
  rintro s t hrely hinv ⟨hs, hviewed, hplaced⟩
  refine ⟨hafter s t hrely hinv hs, ?_, fun hholds => ?_⟩
  · refine stable_viewed (fun s t hsame h => ?_) s t hrely hinv hviewed
    rw [hsame.place, hsame.newest]
    exact h
  · obtain ⟨task, hwinner, htask⟩ := hplaced hholds
    exact ⟨task, hwinner, stable_placed hheld hrely hs hholds htask⟩

end

theorem searching_next (hheld : held → ∀ s, after s → Holding index s)
    (hinv : Accounts calls document s) (hdirs : dirs <:+ STATUS_DIRS.tail) (hs : after s)
    (hviewed : Viewed index (SeenIn (dir :: dirs) found) s)
    (hplaced : held → PlacedIn (dir :: dirs) found s) :
    ((s.1.copies dir).map TaskFile.document).elim
      (Searching index held before after dirs found s)
      fun read => Reading index held after dir read dirs found s := by
  cases hcopy : s.1.copies dir with
  | none =>
      have hplace : s.2.place ∈ dir :: dirs → s.2.place ∈ dirs := by
        intro hmem
        refine (List.mem_cons.mp hmem).resolve_left ?_
        rintro rfl
        rw [hinv.newest.copy] at hcopy
        cases hcopy
      obtain ⟨writes, hread, hle, hseen⟩ := hviewed
      refine .inr ⟨hdirs, hs, ⟨writes, hread, hle, fun hsame => ?_⟩, fun hholds => ?_⟩
      · exact ⟨(hseen hsame).1.imp_left hplace, (hseen hsame).2⟩
      · exact ⟨(hplaced hholds).1.imp_left hplace, (hplaced hholds).2⟩
  | some file =>
      obtain ⟨writes, hread, hle, hseen⟩ := hviewed
      have hfile : dir = s.2.place → file = s.2.newest := by
        rintro rfl
        exact Option.some.inj (hcopy.symm.trans hinv.newest.copy)
      refine ⟨hdirs, hs, ⟨writes, hread, hle, fun hsame => ⟨hseen hsame, ?_⟩⟩, fun hholds => ?_⟩
      · exact fun hdir => congrArg TaskFile.document (hfile hdir)
      · have hdir : dir = s.2.place := by
          by_contra hother
          rw [(hheld hholds s hs).alone dir hother] at hcopy
          cases hcopy
        rw [hfile hdir]
        exact ⟨hplaced hholds, hdir, rfl, rfl⟩

/-- The first read of a get leads from `before` to `after`. -/
def StartsGet (calls : List StoreCall) (document : Document) (index : Nat)
    (before after : Accounted → Prop) : Prop :=
  ∀ s answer, Accounts calls document s → before s →
    Uncrossed calls index answer (.readFile .backlog) s.1 →
    (accounting calls document).Keeps index s (s.1.beginRead index .backlog,
        s.2.update calls index answer (.readFile .backlog) s.1) ∧
      after (s.1.beginRead index .backlog, s.2.update calls index answer (.readFile .backlog) s.1)

theorem accounting_readFile (hbefore : (accounting calls document).Stable index before)
    (hafter : (accounting calls document).Stable index after)
    (hheld : held → ∀ s, after s → Holding index s)
    (hbegin : StartsGet calls document index before after) (dir : TaskStatus)
    (dirs : List TaskStatus) (found : List Match) :
    (accounting calls document).Triple index
      (Searching index held before after (dir :: dirs) found) (TaskProgram.readFile dir)
      (fun reply s => reply.elim (Searching index held before after dirs found s)
        fun read => Reading index held after dir read dirs found s) fun _ => False := by
  apply Triple.perform (stable_searching_call hbefore hafter hheld _ _)
  · intro reply
    cases reply with
    | none => exact stable_searching_call hbefore hafter hheld _ _
    | some read => exact stable_reading_call hafter hheld _ _ _ _
  intro s answer reply t hinv hsearching hguard hperform
  obtain ⟨hperform, haccount⟩ := accounting_perform.mp hperform
  obtain ⟨hreply, hfiles⟩ := Prod.mk.inj (Option.some.inj hperform)
  have hsame := sameFiles_beginRead s.1 index dir
  rw [hguard.1, if_neg Bool.false_ne_true, ← hsame.copies, hfiles] at hreply
  rcases hsearching with ⟨hdirs, rfl, hs⟩ | ⟨hdirs, hs, hviewed, hplaced⟩
  · obtain ⟨rfl, rfl⟩ := List.cons_eq_cons.mp hdirs
    obtain rfl : t = (s.1.beginRead index .backlog,
        s.2.update calls index answer (.readFile .backlog) s.1) := Prod.ext hfiles.symm haccount
    obtain ⟨hkeeps, hstarted⟩ := hbegin s answer hinv hs hguard
    refine ⟨hkeeps, ?_⟩
    rw [← hreply]
    apply searching_next hheld hkeeps.1 (List.suffix_refl _) hstarted
    · refine ⟨s.1.record.writes, ?_, ?_, fun _ => ⟨.inl (mem_STATUS_DIRS _), ?_⟩⟩
      · simp [TaskFiles.beginRead]
      · exact (writes_beginRead s.1 index .backlog).ge
      · exact fun copy hcopy => nomatch hcopy
    · exact fun _ => ⟨.inl (mem_STATUS_DIRS _), fun copy hcopy => nomatch hcopy⟩
  · have hdir : dir ≠ .backlog := by
      rintro rfl
      have hmem := hdirs.subset List.mem_cons_self
      exact absurd hmem (by decide)
    have hunread : s.1.beginRead index dir = s.1 := by
      rw [TaskFiles.beginRead, if_neg hdir]
    obtain rfl : t = s := by
      refine Prod.ext (hfiles.symm.trans hunread) (haccount.trans ?_)
      simp [Account.update, hdir]
    refine ⟨hinv.keeps_same (SameFiles.refl _) rfl (fun _ _ => rfl) rfl, ?_⟩
    rw [← hreply]
    exact searching_next hheld hinv ((List.suffix_cons _ _).trans hdirs) hs hviewed hplaced

theorem seenIn_snoc {read : Document} {mtimeMs : Nat} (hseen : SeenIn (dir :: dirs) found s)
    (hread : dir = s.2.place → read = s.2.newest.document)
    (hnewest : dir = s.2.place → mtimeMs = s.2.newest.mtimeMs)
    (hstale : dir ≠ s.2.place → mtimeMs < s.2.newest.mtimeMs) :
    SeenIn dirs (found ++ [⟨⟨read, dir⟩, mtimeMs⟩]) s := by
  have hmark : dir = s.2.place → (⟨⟨read, dir⟩, mtimeMs⟩ : Match) = s.2.mark := by
    intro hdir
    rw [hread hdir, hnewest hdir, hdir]
    rfl
  constructor
  · rcases hseen.1 with hmem | hmem
    · rcases List.mem_cons.mp hmem with hdir | hmem
      · right
        rw [hmark hdir.symm]
        exact List.mem_append_right _ (List.mem_singleton_self _)
      · exact .inl hmem
    · exact .inr (List.mem_append_left _ hmem)
  · intro copy hcopy
    rcases List.mem_append.mp hcopy with hcopy | hcopy
    · exact hseen.2 copy hcopy
    · rw [List.mem_singleton.mp hcopy]
      by_cases hdir : dir = s.2.place
      · exact .inl (hmark hdir)
      · exact .inr (hstale hdir)

theorem accounting_stat (hafter : (accounting calls document).Stable index after)
    (hbefore : (accounting calls document).Stable index before)
    (hheld : held → ∀ s, after s → Holding index s)
    (hreads : ∀ s t, Reads index s t → after s → after t) (dir : TaskStatus) (read : Document)
    (dirs : List TaskStatus) (found : List Match) :
    (accounting calls document).Triple index (Reading index held after dir read dirs found)
      (TaskProgram.stat dir) (fun reply => Searching index held before after dirs
        (found ++ [⟨⟨read, dir⟩, reply.getD 0⟩])) fun _ => False := by
  apply Triple.perform (stable_reading_call hafter hheld _ _ _ _)
    fun _ => stable_searching_call hbefore hafter hheld _ _
  rintro s answer reply t hinv ⟨hdirs, hs, hviewed, hplaced⟩ hguard hperform
  obtain ⟨hperform, haccount⟩ := accounting_perform.mp hperform
  have hfails : answer.fails = false := hguard.1
  have hlands : ∀ files, t = (files, s.2) → SameFiles s.1 files →
      files.record.writes = s.1.record.writes → files.record.viewed = s.1.record.viewed →
      files.record.ahead = s.1.record.ahead →
      (dir = s.2.place → reply.getD 0 = s.2.newest.mtimeMs) →
      (dir ≠ s.2.place → reply.getD 0 < s.2.newest.mtimeMs) →
      (accounting calls document).Keeps index s t ∧ Searching index held before after dirs
        (found ++ [⟨⟨read, dir⟩, reply.getD 0⟩]) t := by
    rintro files rfl hsame hwrites hseen hahead hnewest hstale
    have hread : Reads index s (files, s.2) :=
      ⟨rfl, hsame.holder, by rw [hseen], hwrites, hahead,
        fun dir file hcopy => by rwa [← hsame.copies]⟩
    refine ⟨hinv.keeps_same hsame hwrites (fun _ _ => by rw [hseen]) hahead,
      .inr ⟨hdirs, hreads _ _ hread hs, ?_, fun hholds => ⟨.inr (by simp), ?_⟩⟩⟩
    · apply hread.viewed_mono (lasting_seenIn _ _)
      obtain ⟨writes, hviews, hle, hfound⟩ := hviewed
      refine ⟨writes, hviews, hle, fun hcurrent => ?_⟩
      exact seenIn_snoc (hfound hcurrent).1 (hfound hcurrent).2 hnewest hstale
    · intro copy hcopy
      rcases List.mem_append.mp hcopy with hcopy | hcopy
      · exact (hplaced hholds).1.2 copy hcopy
      · rw [List.mem_singleton.mp hcopy]
        exact (hplaced hholds).2
  cases hcopy : s.1.copies dir with
  | none =>
      simp only [TaskFiles.perform, hcopy] at hperform
      obtain ⟨rfl, hfiles⟩ := Prod.mk.inj (Option.some.inj hperform)
      refine hlands s.1 (Prod.ext hfiles.symm haccount) (SameFiles.refl _) rfl rfl rfl ?_ ?_
      · rintro rfl
        rw [hinv.newest.copy] at hcopy
        cases hcopy
      · exact fun _ => hinv.pos
  | some file =>
      simp only [TaskFiles.perform, hcopy, hfails, Bool.false_eq_true, if_false] at hperform
      obtain ⟨rfl, hfiles⟩ := Prod.mk.inj (Option.some.inj hperform)
      refine hlands (s.1.noteTime index dir) (Prod.ext hfiles.symm haccount)
        (sameFiles_noteTime _ _ _) rfl rfl rfl ?_ ?_
      · rintro rfl
        obtain rfl := Option.some.inj (hinv.newest.copy.symm.trans hcopy)
        rfl
      · exact fun hdir => hinv.newest.newer dir file hdir hcopy

theorem accounting_rm (hafter : (accounting calls document).Stable index after)
    (hheld : held → ∀ s, after s → Holding index s)
    (hreads : ∀ s t, Reads index s t → after s → after t) (winner : Option TaskObject)
    (stale : Match) (others : List Match) :
    (accounting calls document).Triple index (Choosing index held after winner (stale :: others))
      (TaskProgram.rm stale.task.path) (fun _ => Choosing index held after winner others)
      fun _ => False := by
  apply Triple.perform (stable_choosing_call hafter hheld _ _)
    fun _ => stable_choosing_call hafter hheld _ _
  rintro s answer reply t hinv ⟨hs, hviewed, hplaced⟩ hguard hperform
  obtain ⟨hperform, haccount⟩ := accounting_perform.mp hperform
  obtain ⟨-, hfiles⟩ := Prod.mk.inj (Option.some.inj hperform)
  rw [hguard.1, if_neg Bool.false_ne_true] at hfiles
  obtain rfl : t = (s.1.remove stale.task.path, s.2) := Prod.ext hfiles.symm haccount
  have hread : Reads index s (s.1.remove stale.task.path, s.2) := by
    refine ⟨rfl, rfl, rfl, rfl, rfl, fun dir file hcopy => ?_⟩
    simp only [TaskFiles.remove, Function.update_apply] at hcopy
    split at hcopy
    · cases hcopy
    · exact hcopy
  refine ⟨?_, hreads _ _ hread hs, hread.viewed_mono ?_ hviewed, hplaced⟩
  · cases hcopy : s.1.copies stale.task.path with
    | none =>
        have hgone : s.1.remove stale.task.path = s.1 := by
          rw [TaskFiles.remove, ← hcopy, Function.update_eq_self]
        rw [hgone]
        exact hinv.keeps_same (SameFiles.refl _) rfl (fun _ _ => rfl) rfl
    | some file => exact hinv.keeps_remove (hinv.ne_place hcopy (hguard.2 file hcopy))
  · intro s t hsame h
    rw [hsame.place, hsame.newest]
    exact h

theorem head?_of_seenIn (hseen : SeenIn [] found s) :
    (newestFirst found).head? = some s.2.mark := by
  have hmem : s.2.mark ∈ found := hseen.1.resolve_left List.not_mem_nil
  cases hsorted : newestFirst found with
  | nil =>
      have := mem_newestFirst.mpr hmem
      rw [hsorted] at this
      cases this
  | cons first stale =>
      have hfirst : first ∈ found := by
        rw [← mem_newestFirst, hsorted]
        exact List.mem_cons_self
      have hle := le_head_newestFirst hsorted hmem
      rcases hseen.2 first hfirst with rfl | hlt
      · rfl
      · exact absurd hle (not_le.mpr hlt)

theorem choosing_of_searching {stale : List Match}
    (hsearching : Searching index held before after [] found s) :
    Choosing index held after ((newestFirst found).head?.map Match.task) stale s := by
  rcases hsearching with ⟨hdirs, -⟩ | ⟨-, hs, ⟨writes, hviewed, hle, hseen⟩, hplaced⟩
  · cases hdirs
  · refine ⟨hs, ⟨writes, hviewed, hle, fun hsame => ?_⟩, fun hholds => ?_⟩
    · rw [head?_of_seenIn (hseen hsame)]
      rfl
    · have hne : found ≠ [] := (hplaced hholds).1.resolve_left List.not_mem_nil
      obtain ⟨first, others, hsorted⟩ : ∃ first others, newestFirst found = first :: others := by
        apply List.exists_cons_of_ne_nil
        rintro hnil
        obtain ⟨copy, hcopy⟩ := List.exists_mem_of_ne_nil _ hne
        rw [← mem_newestFirst, hnil] at hcopy
        cases hcopy
      refine ⟨first.task, by rw [hsorted]; rfl, (hplaced hholds).2 first ?_⟩
      rw [← mem_newestFirst, hsorted]
      exact List.mem_cons_self

/-- A get returns the newest copy, if nobody has written since it began, and a copy in the task's
place, if its call holds the lock. -/
theorem accounting_get (hbefore : (accounting calls document).Stable index before)
    (hafter : (accounting calls document).Stable index after)
    (hheld : held → ∀ s, after s → Holding index s)
    (hreads : ∀ s t, Reads index s t → after s → after t)
    (hbegin : StartsGet calls document index before after) :
    (accounting calls document).Triple index before Aof.get
      (fun winner => Choosing index held after winner []) fun _ => False := by
  have hget : (accounting calls document).Triple index
      (Searching index held before after STATUS_DIRS []) Aof.get
      (fun winner => Choosing index held after winner []) fun _ => False := by
    apply triple_get (stable_searching_call hbefore hafter hheld)
      (accounting_readFile hbefore hafter hheld hbegin)
      (accounting_stat hafter hbefore hheld hreads) (stable_choosing_call hafter hheld)
    · intro found s _ hfew hsearching
      rw [← newestFirst_of_few hfew]
      exact choosing_of_searching hsearching
    · exact fun found s _ _ hsearching => choosing_of_searching hsearching
    · exact accounting_rm hafter hheld hreads
  exact hget.weaken fun s _ hs => .inl ⟨rfl, rfl, hs⟩

end Get

end Aof
