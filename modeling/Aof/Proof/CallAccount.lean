import Aof.Proof.CallEffects

/-!
# The account of a run

While the calls of the store interleave, an account is kept of those that have taken effect, in
their order, and of the document that they leave one after the other.
-/

namespace Aof

open Interference

def effects (calls : List StoreCall) (order : List Nat) (document : Document) : Option Document :=
  order.foldlM (fun document index => calls[index]?.bind fun call => call.effect document) document

def serially (calls : List StoreCall) (order : List Nat) (files : TaskFiles) : Option TaskFiles :=
  order.foldlM (fun files index => calls[index]?.bind fun call =>
    (call.program.alone TaskFiles.quietly files).map Prod.snd) files

variable {calls : List StoreCall} {order : List Nat} {index : Nat} {call : StoreCall}
  {document settled : Document}

theorem effects_snoc {next : Document} (heffects : effects calls order document = some settled)
    (hcall : calls[index]? = some call) (heffect : call.effect settled = some next) :
    effects calls (order ++ [index]) document = some next := by
  unfold effects at heffects ⊢
  rw [List.foldlM_append, heffects]
  simp [hcall, heffect]

theorem lt_of_mem_effects (heffects : effects calls order document = some settled) :
    ∀ index ∈ order, index < calls.length := by
  induction order generalizing document with
  | nil => exact fun index hindex => nomatch hindex
  | cons first order ih =>
      unfold effects at heffects
      rw [List.foldlM_cons, Option.bind_eq_bind, Option.bind_eq_some_iff] at heffects
      obtain ⟨next, hfirst, hrest⟩ := heffects
      obtain ⟨call, hcall, -⟩ := Option.bind_eq_some_iff.mp hfirst
      intro index hindex
      cases hindex with
      | head => exact (List.getElem?_eq_some_iff.mp hcall).1
      | tail _ hindex => exact ih hrest index hindex

theorem serially_of_effects {files : TaskFiles} (hstored : Stored document files)
    (hfree : files.holder = none) (heffects : effects calls order document = some settled) :
    ∃ after, serially calls order files = some after ∧ Stored settled after := by
  induction order generalizing document files with
  | nil => exact ⟨files, rfl, Option.some.inj heffects ▸ hstored⟩
  | cons first order ih =>
      unfold effects at heffects
      rw [List.foldlM_cons, Option.bind_eq_bind, Option.bind_eq_some_iff] at heffects
      obtain ⟨next, hfirst, hrest⟩ := heffects
      obtain ⟨call, hcall, heffect⟩ := Option.bind_eq_some_iff.mp hfirst
      obtain ⟨middle, halone, hmiddle, hheld⟩ := yields_program heffect files hstored hfree
      obtain ⟨after, hserial, hafter⟩ := ih hmiddle hheld hrest
      refine ⟨after, ?_, hafter⟩
      unfold serially at hserial ⊢
      simp [hcall, halone, hserial]

/-- The calls that have taken effect, in their order, the document that they leave, the newest copy
and its directory, and the call that has written and is still to make its transition. -/
structure Account where
  order : List Nat := []
  settled : Document
  place : TaskStatus
  newest : TaskFile
  half : Option Nat := none

abbrev Accounted := TaskFiles × Account

/-- A first write that a transition of the same call follows. -/
def StoreCall.halfway (status : TaskStatus) : StoreCall → Bool
  | .block .. | .unblock _ => true
  | .acquireLease .. => status = .ready
  | _ => false

def StoreCall.idle (document : Document) : StoreCall → Bool
  | .transition newStatus _ _ => document.status = newStatus
  | .addDep blocker _ =>
      !blocker.isTask && blocker.found &&
        !(document.status = .done ∨ document.status = .cancelled) &&
        document.dependsOn.contains blocker.id
  | .removeDep blockerId _ =>
      !(document.status = .done ∨ document.status = .cancelled) &&
        !document.dependsOn.contains blockerId
  | .releaseLease agentId _ =>
      (document.lease.any fun lease => lease.agent = agentId) && document.status = .ready
  | _ => false

def StoreCall.releases : StoreCall → Bool
  | .releaseLease .. => true
  | _ => false

theorem StoreCall.effect_of_idle (hidle : call.idle document = true) :
    call.effect document = some document := by
  cases call with
  | transition newStatus metadataPatch now =>
      simp only [StoreCall.idle, decide_eq_true_eq] at hidle
      simp [StoreCall.effect, Document.afterTransition, hidle]
  | addDep blocker now =>
      simp only [StoreCall.idle, Bool.and_eq_true, Bool.not_eq_true', decide_eq_false_iff_not,
        not_or] at hidle
      obtain ⟨⟨⟨hother, hfound⟩, hdone, hcancelled⟩, hlisted⟩ := hidle
      simp only [StoreCall.effect, hother, hfound, hdone, hcancelled, hlisted, Bool.not_true,
        Bool.false_eq_true, or_self, ↓reduceIte]
  | removeDep blockerId now =>
      simp only [StoreCall.idle, Bool.and_eq_true, Bool.not_eq_true', decide_eq_false_iff_not,
        not_or] at hidle
      obtain ⟨⟨hdone, hcancelled⟩, hlisted⟩ := hidle
      simp only [StoreCall.effect, hdone, hcancelled, hlisted, Bool.false_eq_true, or_self,
        ↓reduceIte]
  | releaseLease agentId now =>
      simp only [StoreCall.idle, Bool.and_eq_true, decide_eq_true_eq] at hidle
      simp [StoreCall.effect, Document.afterTransition, hidle.1, hidle.2]
  | _ => cases hidle

/-- An operation of a call is entered in the account: a write takes effect, unless a transition is
to follow, and a call that has nothing to write takes effect when it begins to read under the
lock. -/
def Account.update (calls : List StoreCall) (index : Nat) (answer : OsAnswer) (op : TaskOp)
    (files : TaskFiles) (account : Account) : Account :=
  match op with
  | .writeFile dir document ahead =>
      if ahead ∧ (calls[index]?.any fun call => call.halfway document.status) then
        { account with
          place := dir
          newest := ⟨document, files.clock + answer.elapsed⟩
          half := some index }
      else
        { order := account.order ++ [index]
          settled := document
          place := dir
          newest := ⟨document, files.clock + answer.elapsed⟩
          half := none }
  | .rename _ target => { account with place := target }
  | .readFile dir =>
      if dir = .backlog ∧ files.holder = some index ∧
          (calls[index]?.any fun call => call.idle account.settled) then
        { account with order := account.order ++ [index] }
      else account
  | _ => account

/-- No call has written since this one last began to read, or wrote itself. -/
def Current (index : Nat) (files : TaskFiles) : Prop :=
  files.record.viewed index = some files.record.writes

/-- No other call is between its first write and its return. -/
def Undisturbed (index : Nat) (files : TaskFiles) : Prop :=
  ∀ other, other ≠ index → files.record.ahead other = false

/-- Nothing fails and modification times increase.  A call writes on a current read only and while
no other call is under way after a first write; a release begins its transition under the same
condition; and a get removes no newest copy. -/
def Uncrossed (calls : List StoreCall) (index : Nat) (answer : OsAnswer) (op : TaskOp)
    (files : TaskFiles) : Prop :=
  answer.fails = false ∧
    match op with
    | .writeFile .. => 0 < answer.elapsed ∧ Current index files ∧ Undisturbed index files
    | .rename .. => Undisturbed index files
    | .readFile dir =>
        dir = .backlog → files.holder = some index →
          (calls[index]?.any StoreCall.releases) = true →
            Current index files ∧ Undisturbed index files
    | .rm dir => ∀ file, files.copies dir = some file →
        ∃ other newer, files.copies other = some newer ∧ file.mtimeMs < newer.mtimeMs
    | _ => True

structure Accounts (calls : List StoreCall) (document : Document) (s : Accounted) : Prop where
  newest : Newest s.1 s.2.place s.2.newest
  pos : 0 < s.2.newest.mtimeMs
  clock : s.2.newest.mtimeMs ≤ s.1.clock
  serial : effects calls s.2.order document = some s.2.settled
  nodup : s.2.order.Nodup
  whole : s.2.half = none → s.2.newest.document = s.2.settled
  ahead : ∀ index, s.2.half = some index → s.1.record.ahead index = true
  status : s.2.newest.document.status = s.2.settled.status
  dependsOn : s.2.newest.document.dependsOn = s.2.settled.dependsOn
  rest : s.1.holder = none →
    s.2.place = s.2.newest.document.status ∧ ∀ dir, dir ≠ s.2.place → s.1.copies dir = none
  held : ∀ index, s.1.holder = some index → index < calls.length
  prepared : ∀ index, s.2.half = some index → ∃ call next, calls[index]? = some call ∧
    call.halfway s.2.newest.document.status = true ∧
    s.2.newest.document = call.prepared s.2.settled ∧ call.effect s.2.settled = some next
  uncounted : ∀ index, s.2.half = some index → index ∉ s.2.order

structure Unwritten (s t : Accounted) : Prop where
  settled : t.2.settled = s.2.settled
  place : t.2.place = s.2.place
  newest : t.2.newest = s.2.newest
  half : t.2.half = s.2.half
  copies : ∀ dir file, t.1.copies dir = some file → s.1.copies dir = some file

/-- What the turns of the others leave to a call: what it has read and where it stands, as long as
it is ahead or nobody writes also the newest copy, and while it holds the lock the place of the
task. -/
structure CallRelies (index : Nat) (s t : Accounted) : Prop where
  viewed : t.1.record.viewed index = s.1.record.viewed index
  ahead : t.1.record.ahead index = s.1.record.ahead index
  holder : t.1.holder = some index ↔ s.1.holder = some index
  counted : index ∈ t.2.order ↔ index ∈ s.2.order
  half : t.2.half = some index ↔ s.2.half = some index
  writes : s.1.record.writes ≤ t.1.record.writes
  same : t.1.record.writes = s.1.record.writes → Unwritten s t
  undisturbed : s.1.record.ahead index = true → t.1.record.writes = s.1.record.writes
  place : s.1.holder = some index → t.2.place = s.2.place
  status : s.1.holder = some index → t.2.newest.document.status = s.2.newest.document.status
  dependsOn : s.1.holder = some index →
    t.2.newest.document.dependsOn = s.2.newest.document.dependsOn
  alone : s.1.holder = some index → ∀ dir, dir ≠ s.2.place → s.1.copies dir = none →
    t.1.copies dir = none

theorem Unwritten.refl (s : Accounted) : Unwritten s s := ⟨rfl, rfl, rfl, rfl, fun _ _ h => h⟩

variable {s t u : Accounted}

theorem Unwritten.trans (hst : Unwritten s t) (htu : Unwritten t u) : Unwritten s u :=
  ⟨htu.settled.trans hst.settled, htu.place.trans hst.place, htu.newest.trans hst.newest,
    htu.half.trans hst.half, fun dir file hcopy => hst.copies dir file (htu.copies dir file hcopy)⟩

theorem CallRelies.refl (index : Nat) (s : Accounted) : CallRelies index s s :=
  ⟨rfl, rfl, Iff.rfl, Iff.rfl, Iff.rfl, le_refl _, fun _ => Unwritten.refl s, fun _ => rfl,
    fun _ => rfl, fun _ => rfl, fun _ => rfl, fun _ _ _ h => h⟩

theorem CallRelies.trans (hst : CallRelies index s t) (htu : CallRelies index t u) :
    CallRelies index s u where
  viewed := htu.viewed.trans hst.viewed
  ahead := htu.ahead.trans hst.ahead
  holder := htu.holder.trans hst.holder
  counted := htu.counted.trans hst.counted
  half := htu.half.trans hst.half
  writes := hst.writes.trans htu.writes
  same := by
    intro hsame
    have hst' := hst.writes
    have htu' := htu.writes
    exact (hst.same (by omega)).trans (htu.same (by omega))
  undisturbed := by
    intro hahead
    rw [htu.undisturbed (hst.ahead.trans hahead), hst.undisturbed hahead]
  place hheld := (htu.place (hst.holder.mpr hheld)).trans (hst.place hheld)
  status hheld := (htu.status (hst.holder.mpr hheld)).trans (hst.status hheld)
  dependsOn hheld := (htu.dependsOn (hst.holder.mpr hheld)).trans (hst.dependsOn hheld)
  alone hheld dir hdir hnone := by
    apply htu.alone (hst.holder.mpr hheld) dir
    · rwa [hst.place hheld]
    · exact hst.alone hheld dir hdir hnone

def accounting (calls : List StoreCall) (document : Document) : TaskEnvOn Accounted where
  perform := Async.withGhost TaskFiles.perform (Account.update calls)
  allowed index answer op s := Uncrossed calls index answer op s.1
  inv := Accounts calls document
  rely := CallRelies
  rely_refl := CallRelies.refl
  rely_trans _ _ _ _ := CallRelies.trans

section Operations

variable {calls : List StoreCall} {document : Document} {index : Nat} {s : Accounted}

variable {files : TaskFiles} {order : List Nat} {dir : TaskStatus}

variable (hs : Accounts calls document s)
include hs

section

variable (hsame : SameFiles s.1 files) (hwrites : files.record.writes = s.1.record.writes)
  (hviewed : ∀ other, other ≠ index → files.record.viewed other = s.1.record.viewed other)
include hsame hwrites hviewed

theorem Accounts.keeps_record
    (hahead : ∀ other, other ≠ index → files.record.ahead other = s.1.record.ahead other)
    (hown : s.2.half = some index → files.record.ahead index = true)
    (hserial : effects calls order document = some s.2.settled) (hnodup : order.Nodup)
    (hcounted : ∀ other, other ≠ index → (other ∈ order ↔ other ∈ s.2.order))
    (hhalf : s.2.half = some index → index ∉ order) :
    (accounting calls document).Keeps index s (files, { s.2 with order := order }) := by
  constructor
  · refine ⟨?_, hs.pos, ?_, hserial, hnodup, hs.whole, ?_, hs.status, hs.dependsOn, ?_, ?_,
      hs.prepared, ?_⟩
    · exact ⟨by rw [hsame.copies]; exact hs.newest.copy, by
        rw [hsame.copies]
        exact hs.newest.newer⟩
    · rw [hsame.clock]
      exact hs.clock
    · intro other hhalf
      by_cases hother : other = index
      · exact hother ▸ hown (hother ▸ hhalf)
      · rw [hahead other hother]
        exact hs.ahead other hhalf
    · rw [hsame.holder, hsame.copies]
      exact hs.rest
    · rw [hsame.holder]
      exact hs.held
    · intro other hother
      by_cases hindex : other = index
      · exact hindex ▸ hhalf (hindex ▸ hother)
      · exact fun hmem => hs.uncounted other hother ((hcounted other hindex).mp hmem)
  · intro other hother
    refine ⟨hviewed other hother, hahead other hother, by rw [hsame.holder], hcounted other hother,
      Iff.rfl, hwrites.ge, fun _ => ?_, fun _ => hwrites, fun _ => rfl, fun _ => rfl, fun _ => rfl,
      fun _ dir _ hnone => ?_⟩
    · exact ⟨rfl, rfl, rfl, rfl, by rw [hsame.copies]; exact fun _ _ h => h⟩
    · rw [hsame.copies]
      exact hnone

theorem Accounts.keeps_same (hahead : files.record.ahead = s.1.record.ahead) :
    (accounting calls document).Keeps index s (files, s.2) :=
  hs.keeps_record hsame hwrites hviewed (fun other _ => by rw [hahead])
    (fun hhalf => by rw [hahead]; exact hs.ahead index hhalf) hs.serial hs.nodup
    (fun _ _ => Iff.rfl) (hs.uncounted index)

end

theorem Accounts.keeps_remove (hdir : dir ≠ s.2.place) :
    (accounting calls document).Keeps index s (s.1.remove dir, s.2) := by
  have hsub : ∀ other file, (s.1.remove dir).copies other = some file →
      s.1.copies other = some file := by
    intro other file hcopy
    simp only [TaskFiles.remove, Function.update_apply] at hcopy
    split at hcopy
    · cases hcopy
    · exact hcopy
  have hnone : ∀ other, s.1.copies other = none → (s.1.remove dir).copies other = none := by
    intro other hnone
    simp only [TaskFiles.remove, Function.update_apply, hnone, ite_self]
  constructor
  · refine ⟨⟨?_, ?_⟩, hs.pos, hs.clock, hs.serial, hs.nodup, hs.whole, hs.ahead, hs.status,
      hs.dependsOn, ?_, hs.held, hs.prepared, hs.uncounted⟩
    · exact (Function.update_of_ne hdir.symm _ _).trans hs.newest.copy
    · exact fun other copy hother hcopy => hs.newest.newer other copy hother (hsub other copy hcopy)
    · intro hfree
      exact ⟨(hs.rest hfree).1, fun other hother => hnone other ((hs.rest hfree).2 other hother)⟩
  · intro other _
    exact ⟨rfl, rfl, Iff.rfl, Iff.rfl, Iff.rfl, le_refl _, fun _ => ⟨rfl, rfl, rfl, rfl, hsub⟩,
      fun _ => rfl, fun _ => rfl, fun _ => rfl, fun _ => rfl, fun _ dir _ h => hnone dir h⟩

theorem Accounts.ne_place {file : TaskFile} (hcopy : s.1.copies dir = some file)
    (holder : ∃ other newer, s.1.copies other = some newer ∧ file.mtimeMs < newer.mtimeMs) :
    dir ≠ s.2.place := by
  rintro rfl
  obtain ⟨other, newer, hnewer, hlt⟩ := holder
  obtain rfl := Option.some.inj (hs.newest.copy.symm.trans hcopy)
  by_cases hother : other = s.2.place
  · subst hother
    obtain rfl := Option.some.inj (hcopy.symm.trans hnewer)
    exact lt_irrefl _ hlt
  · have hless := hs.newest.newer other newer hother hnewer
    omega

theorem Accounts.half_of_undisturbed (hundisturbed : Undisturbed index s.1) :
    s.2.half = none ∨ s.2.half = some index := by
  cases hhalf : s.2.half with
  | none => exact .inl rfl
  | some other =>
      right
      by_contra hother
      have htrue := hs.ahead other hhalf
      rw [hundisturbed other fun h => hother (congrArg some h)] at htrue
      cases htrue

theorem Accounts.keeps_write {dir : TaskStatus} {written : Document} {elapsed : Nat}
    {ahead : Bool} {order : List Nat} {settled : Document} {half : Option Nat}
    (hticking : 0 < elapsed) (hundisturbed : Undisturbed index s.1)
    (hwhere : s.1.holder = some index ∨ dir = s.2.place ∧ written.status =
      s.2.newest.document.status ∧ written.dependsOn = s.2.newest.document.dependsOn)
    (hserial : effects calls order document = some settled) (hnodup : order.Nodup)
    (hcounted : ∀ other, other ≠ index → (other ∈ order ↔ other ∈ s.2.order))
    (hstatus : written.status = settled.status) (hdependsOn : written.dependsOn = settled.dependsOn)
    (hhalf : half = none ∧ written = settled ∨ half = some index ∧ ahead = true ∧ ∃ call next,
      calls[index]? = some call ∧ call.halfway written.status = true ∧ written = call.prepared
      settled ∧ call.effect settled = some next ∧ index ∉ order) :
    (accounting calls document).Keeps index s
      ((s.1.write dir written elapsed).noteWrite index ahead,
        ⟨order, settled, dir, ⟨written, s.1.clock + elapsed⟩, half⟩) := by
  have hclock := hs.clock
  have hcopies : ∀ other, ((s.1.write dir written elapsed).noteWrite index ahead).copies other =
      if other = dir then some ⟨written, s.1.clock + elapsed⟩ else s.1.copies other := by
    intro other
    simp only [TaskFiles.noteWrite, TaskFiles.write, Function.update_apply]
  have hnewest := hs.newest
  constructor
  · refine ⟨⟨?_, ?_⟩, ?_, le_refl _, hserial, hnodup, ?_, ?_, hstatus, hdependsOn, ?_, hs.held, ?_,
      ?_⟩
    · rw [hcopies, if_pos rfl]
    · intro other copy hother hcopy
      rw [hcopies, if_neg hother] at hcopy
      by_cases hplace : other = s.2.place
      · rw [hplace, hnewest.copy, Option.some.injEq] at hcopy
        rw [← hcopy]
        exact lt_of_le_of_lt hclock (Nat.lt_add_of_pos_right hticking)
      · have hless := hnewest.newer other copy hplace hcopy
        show copy.mtimeMs < s.1.clock + elapsed
        omega
    · exact Nat.lt_add_left _ hticking
    · rcases hhalf with ⟨-, rfl⟩ | ⟨rfl, -⟩
      · exact fun _ => rfl
      · exact fun h => by cases h
    · rintro other hother
      rcases hhalf with ⟨rfl, -⟩ | ⟨rfl, rfl, -⟩
      · cases hother
      · obtain rfl := Option.some.inj hother
        simp [TaskFiles.noteWrite]
    · intro hfree
      have hfree : s.1.holder = none := hfree
      rcases hwhere with hheld | ⟨rfl, hsame, -⟩
      · rw [hheld] at hfree
        cases hfree
      · refine ⟨(hs.rest hfree).1.trans hsame.symm, fun other hother => ?_⟩
        rw [hcopies, if_neg hother]
        exact (hs.rest hfree).2 other hother
    · rintro other hother
      rcases hhalf with ⟨rfl, -⟩ | ⟨rfl, -, call, next, hcall, hhalfway, hprepared, heffect, -⟩
      · cases hother
      · exact ⟨call, next, Option.some.inj hother ▸ hcall, hhalfway, hprepared, heffect⟩
    · rintro other hother
      rcases hhalf with ⟨rfl, -⟩ | ⟨rfl, -, -, -, -, -, -, -, hnew⟩
      · cases hother
      · exact Option.some.inj hother ▸ hnew
  · intro other hother
    have hsingle : ∀ {held : Option Nat}, held = some index → held = some other → False := by
      rintro held rfl heq
      exact hother (Option.some.inj heq).symm
    have hplaced : s.1.holder = some other → dir = s.2.place ∧
        written.status = s.2.newest.document.status ∧
        written.dependsOn = s.2.newest.document.dependsOn :=
      fun hheld => hwhere.resolve_left fun h => hsingle h hheld
    have hfalse := hundisturbed other hother
    refine ⟨Function.update_of_ne hother _ _, Function.update_of_ne hother _ _, Iff.rfl,
      hcounted other hother, ?_, Nat.le_succ _, fun hsame => ?_, fun htrue => ?_, ?_, ?_, ?_, ?_⟩
    · constructor
      · intro hnow
        rcases hhalf with ⟨rfl, -⟩ | ⟨rfl, -⟩
        · cases hnow
        · exact absurd hnow fun h => hsingle rfl h
      · intro hbefore
        have htrue := hs.ahead other hbefore
        rw [hfalse] at htrue
        cases htrue
    · exact absurd hsame (Nat.succ_ne_self _)
    · rw [hfalse] at htrue
      cases htrue
    · exact fun hheld => (hplaced hheld).1
    · exact fun hheld => (hplaced hheld).2.1
    · exact fun hheld => (hplaced hheld).2.2
    · intro hheld place hplace hnone
      rw [hcopies, if_neg ((hplaced hheld).1 ▸ hplace)]
      exact hnone

theorem Accounts.keeps_rename {target : TaskStatus} (hheld : s.1.holder = some index)
    (hundisturbed : Undisturbed index s.1)
    (halone : ∀ dir, dir ≠ s.2.place → s.1.copies dir = none) :
    (accounting calls document).Keeps index s
      ((s.1.move s.2.place target).noteWrite index false, { s.2 with place := target }) := by
  have hcopies : ∀ other, ((s.1.move s.2.place target).noteWrite index false).copies other =
      if other = target then some s.2.newest else none := by
    intro other
    simp only [TaskFiles.noteWrite, TaskFiles.move, Function.update_apply, hs.newest.copy]
    split
    · rfl
    · split
      · rfl
      · rename_i hother
        exact halone other hother
  constructor
  · refine ⟨⟨?_, ?_⟩, hs.pos, hs.clock, hs.serial, hs.nodup, hs.whole, ?_, hs.status, hs.dependsOn,
      ?_, hs.held, hs.prepared, hs.uncounted⟩
    · rw [hcopies, if_pos rfl]
    · intro other copy hother hcopy
      rw [hcopies, if_neg hother] at hcopy
      cases hcopy
    · intro other hhalf
      have htrue := hs.ahead other hhalf
      simp only [TaskFiles.noteWrite, TaskFiles.move, Function.update_apply, Bool.or_false]
      split
      · rename_i heq
        exact heq ▸ htrue
      · exact htrue
    · intro hfree
      rw [show ((s.1.move s.2.place target).noteWrite index false).holder = s.1.holder from rfl,
        hheld] at hfree
      cases hfree
  · intro other hother
    have hsingle : s.1.holder ≠ some other := by
      rw [hheld]
      exact fun h => hother (Option.some.inj h).symm
    have hfalse := hundisturbed other hother
    refine ⟨Function.update_of_ne hother _ _, Function.update_of_ne hother _ _, Iff.rfl, Iff.rfl,
      Iff.rfl, Nat.le_succ _, fun hsame => absurd hsame (Nat.succ_ne_self _), fun htrue => ?_,
      fun h => absurd h hsingle, fun h => absurd h hsingle, fun h => absurd h hsingle,
      fun h => absurd h hsingle⟩
    rw [hfalse] at htrue
    cases htrue

theorem Accounts.keeps_lock (hindex : index < calls.length) (hfree : s.1.holder = none) :
    (accounting calls document).Keeps index s ({ s.1 with holder := index }, s.2) := by
  constructor
  · refine ⟨⟨hs.newest.copy, hs.newest.newer⟩, hs.pos, hs.clock, hs.serial, hs.nodup, hs.whole,
      hs.ahead, hs.status, hs.dependsOn, fun h => (nomatch h), fun other hother => ?_,
      hs.prepared, hs.uncounted⟩
    exact Option.some.inj hother ▸ hindex
  · intro other hother
    have hnone : s.1.holder ≠ some other := by
      rw [hfree]
      exact fun h => nomatch h
    refine ⟨rfl, rfl, ?_, Iff.rfl, Iff.rfl, le_refl _,
      fun _ => ⟨rfl, rfl, rfl, rfl, fun _ _ h => h⟩, fun _ => rfl,
      fun h => absurd h hnone, fun h => absurd h hnone, fun h => absurd h hnone,
      fun h => absurd h hnone⟩
    exact ⟨fun h => absurd (Option.some.inj h).symm hother, fun h => absurd h hnone⟩

theorem Accounts.keeps_unlock (hheld : s.1.holder = some index)
    (hplace : s.2.place = s.2.newest.document.status)
    (halone : ∀ dir, dir ≠ s.2.place → s.1.copies dir = none) :
    (accounting calls document).Keeps index s ({ s.1 with holder := none }, s.2) := by
  constructor
  · exact ⟨⟨hs.newest.copy, hs.newest.newer⟩, hs.pos, hs.clock, hs.serial, hs.nodup, hs.whole,
      hs.ahead, hs.status, hs.dependsOn, fun _ => ⟨hplace, halone⟩,
      fun other hother => (nomatch hother), hs.prepared, hs.uncounted⟩
  · intro other hother
    have hsingle : s.1.holder ≠ some other := by
      rw [hheld]
      exact fun h => hother (Option.some.inj h).symm
    refine ⟨rfl, rfl, ?_, Iff.rfl, Iff.rfl, le_refl _,
      fun _ => ⟨rfl, rfl, rfl, rfl, fun _ _ h => h⟩, fun _ => rfl,
      fun h => absurd h hsingle, fun h => absurd h hsingle, fun h => absurd h hsingle,
      fun h => absurd h hsingle⟩
    exact ⟨fun h => (nomatch h), fun h => absurd h hsingle⟩

end Operations

end Aof
