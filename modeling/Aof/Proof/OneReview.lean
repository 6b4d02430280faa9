import Aof.Murmur.MurmurState
import Mathlib.Data.List.Permutation

/-!
# One live review per team

A review that is open and younger than the timeout holds the marker of its team, as long as a review
task only completes while the marker is it or absent.  A review is then started only when no such
review is left.
-/

/-!
## Updates of a murmur state

The calls of one instance are serializable.  Those of several instances are, if no other call writes
the file between the load and the save of a call.
-/

namespace Aof

open StepSystem ReadModifyWrite

variable {teamId : String} {file : MurmurFile} {events : List (Event ManagerCall)}
  {finish : Session MurmurFile ManagerCall}

/-- If every save finds the file that was loaded, the file is what the calls leave in some serial
order. -/
theorem murmur_updates_serial
    (hrun : Run (managerStep teamId) (fun session event => unchanged session event = true)
      { file } events finish) (hsettled : finish.pending = []) :
    ∃ order : List ManagerCall, order.Perm (issued events) ∧
      finish.file = replay (ManagerCall.edit teamId) file order :=
  ⟨finish.order, serial_of_unchanged hrun hsettled⟩

def hookCall : ManagerCall where
  manager := 0
  update := .incrementCompletions

def evaluationCall : ManagerCall where
  manager := 1
  update := .startReview "R" "interval" 7

def inTurn : List (Event ManagerCall) :=
  [.read evaluationCall, .write 0, .read hookCall, .write 0]

def overlapping : List (Event ManagerCall) :=
  [.read hookCall, .read evaluationCall, .write 1, .write 0]

theorem updates_in_turn : ∃ finish : Session MurmurFile ManagerCall,
    finish.file.map (fun state => (state.currentReviewTaskId, state.completionsSinceLastReview)) =
      some (some "R", 1) ∧ ∃ order : List ManagerCall, order.Perm (issued inTurn) ∧
      finish.file = replay (ManagerCall.edit "dev") none order := by
  have hexec : (exec (checked (managerStep "dev") unchanged) { file := none } inTurn).any
      (fun finish => finish.pending.isEmpty ∧ finish.file.map (fun state =>
        (state.currentReviewTaskId, state.completionsSinceLastReview)) = some (some "R", 1)) =
      true := by
    decide +kernel
  obtain ⟨finish, hfinish, hresult⟩ := (Option.any_eq_true _ _).mp hexec
  obtain ⟨hsettled, hfile⟩ := of_decide_eq_true hresult
  have hrun := Run.of_exec (fun _ _ h => h) hfinish
  exact ⟨finish, hfile, murmur_updates_serial hrun (List.isEmpty_iff.mp hsettled)⟩

/-- The start of the review is lost. -/
theorem review_start_lost :
    ¬ ∀ (events : List (Event ManagerCall)) (finish : Session MurmurFile ManagerCall),
      FreeRun (managerStep "dev") { file := none } events finish → finish.pending = [] →
        ∃ order : List ManagerCall, order.Perm (issued events) ∧
          finish.file = replay (ManagerCall.edit "dev") none order := by
  intro hclaim
  have hexec : (exec (managerStep "dev") { file := none } overlapping).any (fun finish =>
      finish.pending.isEmpty ∧ finish.file.any (fun state => state.currentReviewTaskId = none)) =
      true := by
    decide +kernel
  obtain ⟨finish, hfinish, hresult⟩ := (Option.any_eq_true _ _).mp hexec
  obtain ⟨hsettled, hlost⟩ := of_decide_eq_true hresult
  obtain ⟨order, hperm, hfile⟩ := hclaim overlapping finish (freeRun_iff_exec.mpr hfinish)
    (List.isEmpty_iff.mp hsettled)
  have hkept : ∀ order ∈ (issued overlapping).permutations',
      (replay (ManagerCall.edit "dev") none order).any
        (fun state => state.currentReviewTaskId = none) = false := by
    decide +kernel
  rw [hfile, hkept order (List.mem_permutations'.mpr hperm)] at hlost
  cases hlost

end Aof

namespace Aof

open StepSystem

def MurmurState.review (state : MurmurState) : Option String × Option Nat :=
  (state.currentReviewTaskId, state.reviewStartedAt)

/-- A review task completes only while the marker of its team is it or absent. -/
def MurmurEvent.endsOwn (cycle : ReviewCycle) : MurmurEvent → Bool
  | .transition taskId .done => (cycle.tasks.get? taskId).all fun task =>
      !task.isReview || (cycle.marker task.team).all fun marker => marker = taskId
  | _ => true

/-- No review was started while another one of the team was alive, and no completion of a review
task has cleared the marker of another. -/
structure OneReview (cycle : ReviewCycle) : Prop where
  starts : ∀ start ∈ cycle.starts, start.alive = []
  clears : ∀ clear ∈ cycle.clears, clear.marker = clear.taskId

namespace ReviewCycle

variable {cycle next : ReviewCycle} {reviewTimeoutMs : Nat}

theorem load_edit (cycle : ReviewCycle) (team other : String)
    (change : MurmurState → MurmurState) : (cycle.edit team change).load other =
      if other = team then change (cycle.load team) else cycle.load other := by
  simp only [load, edit, Dict.get?_set]
  by_cases hteam : other = team
  · rw [if_pos hteam.symm, if_pos hteam]
    rfl
  · rw [if_neg (Ne.symm hteam), if_neg hteam]

variable {team taskId other : String} {change : MurmurState → MurmurState} {task : MurmurTask}
  {newStatus : TaskStatus}

theorem review_edit_of_same (hsame : ∀ state, (change state).review = state.review)
    (other : String) :
    ((cycle.edit team change).load other).review = (cycle.load other).review := by
  rw [load_edit]
  split
  · rename_i hteam
    rw [hsame, hteam]
  · rfl

/-- The task of the review is open, and the review is younger than the timeout. -/
structure Live (reviewTimeoutMs : Nat) (cycle : ReviewCycle) (start : ReviewStart) : Prop where
  isOpen : cycle.isOpen start.taskId = true
  young : cycle.now - start.startedAt < reviewTimeoutMs

def Tracked (reviewTimeoutMs : Nat) (cycle : ReviewCycle) : Prop :=
  ∀ start ∈ cycle.starts, cycle.Live reviewTimeoutMs start →
    (cycle.load start.team).review = (some start.taskId, some start.startedAt)

theorem Tracked.alive_eq_nil (htracked : cycle.Tracked reviewTimeoutMs)
    (hmarker : cycle.marker team = none) : cycle.alive reviewTimeoutMs team = [] := by
  rw [alive, List.map_eq_nil_iff, List.filter_eq_nil_iff]
  intro start hmem hlive
  obtain ⟨hteam, hyoung, hopen⟩ := of_decide_eq_true hlive
  have hreview := htracked start hmem ⟨hopen, hyoung⟩
  rw [hteam] at hreview
  have hsome : cycle.marker team = some start.taskId := congrArg Prod.fst hreview
  rw [hmarker] at hsome
  cases hsome

theorem Tracked.of_live (htracked : cycle.Tracked reviewTimeoutMs)
    (hstarts : next.starts = cycle.starts)
    (hlive : ∀ start ∈ cycle.starts, next.Live reviewTimeoutMs start →
      cycle.Live reviewTimeoutMs start ∧
        (next.load start.team).review = (cycle.load start.team).review) :
    next.Tracked reviewTimeoutMs := by
  intro start hmem hnext
  rw [hstarts] at hmem
  obtain ⟨hbefore, hreview⟩ := hlive start hmem hnext
  rw [hreview]
  exact htracked start hmem hbefore

theorem isOpen_iff : cycle.isOpen taskId = true ↔
    ∃ task, cycle.tasks.get? taskId = some task ∧ task.status.terminal = false := by
  simp only [isOpen, Option.any_eq_true, Bool.not_eq_true']

theorem isOpen_set_of_ne {tasks : Dict String MurmurTask} (task : MurmurTask)
    (hother : other ≠ taskId) :
    ({ cycle with tasks := tasks.set taskId task } : ReviewCycle).isOpen other =
      ({ cycle with tasks := tasks } : ReviewCycle).isOpen other := by
  simp only [isOpen, Dict.get?_set_of_ne tasks task (Ne.symm hother)]

theorem ne_of_unused (hunused : cycle.used taskId = false) :
    ∀ start ∈ cycle.starts, start.taskId ≠ taskId := by
  intro start hmem heq
  rw [used, Bool.or_eq_false_iff] at hunused
  have hnot := List.any_eq_false.mp hunused.2 start hmem
  exact hnot (decide_eq_true heq)

section

variable (htracked : cycle.Tracked reviewTimeoutMs)
include htracked

theorem Tracked.elapse (ms : Nat) :
    ({ cycle with now := cycle.now + ms } : ReviewCycle).Tracked reviewTimeoutMs := by
  refine htracked.of_live (by rfl) ?_
  intro start _ hnext
  have hyoung : cycle.now + ms - start.startedAt < reviewTimeoutMs := hnext.young
  exact ⟨⟨hnext.isOpen, by omega⟩, rfl⟩

theorem Tracked.create (hunused : cycle.used taskId = false) (task : MurmurTask) :
    ({ cycle with tasks := cycle.tasks.set taskId task } : ReviewCycle).Tracked
      reviewTimeoutMs := by
  refine htracked.of_live (by rfl) ?_
  intro start hmem hnext
  have hopen := hnext.isOpen
  rw [isOpen_set_of_ne task (ne_of_unused hunused start hmem)] at hopen
  exact ⟨⟨hopen, hnext.young⟩, rfl⟩

theorem Tracked.delete (taskId : String) :
    ({ cycle with tasks := cycle.tasks.erase taskId } : ReviewCycle).Tracked reviewTimeoutMs := by
  refine htracked.of_live (by rfl) ?_
  intro start _ hnext
  obtain ⟨task, hget, hstatus⟩ := isOpen_iff.mp hnext.isOpen
  have hbefore : cycle.tasks.get? start.taskId = some task := by
    rw [Dict.get?_erase] at hget
    split at hget
    · cases hget
    · exact hget
  exact ⟨⟨isOpen_iff.mpr ⟨task, hbefore, hstatus⟩, hnext.young⟩, rfl⟩

end

theorem cleanupReason_of_live {start : ReviewStart} {state : MurmurState}
    (hlive : cycle.Live reviewTimeoutMs start)
    (hstarted : state.reviewStartedAt = some start.startedAt) :
    cycle.cleanupReason reviewTimeoutMs state start.taskId = none := by
  obtain ⟨task, hget, hstatus⟩ := isOpen_iff.mp hlive.isOpen
  have hyoung := hlive.young
  have hnot : ¬ reviewTimeoutMs ≤ cycle.now - start.startedAt := by omega
  simp only [cleanupReason, hget, hstarted, if_neg hnot]
  obtain ⟨team, isReview, status⟩ := task
  cases status with
  | done | cancelled | deadletter => cases hstatus
  | _ => rfl

theorem Tracked.cleanup (htracked : cycle.Tracked reviewTimeoutMs) (team : String)
    (dryRun : Bool) : (cycle.cleanupStaleReview reviewTimeoutMs team (cycle.load team)
      dryRun).Tracked reviewTimeoutMs := by
  unfold cleanupStaleReview
  split
  · exact htracked
  · rename_i reviewTaskId hmarker
    split
    · exact htracked
    · rename_i hstale
      refine htracked.of_live (by rfl) ?_
      intro start hmem hnext
      have hlive : cycle.Live reviewTimeoutMs start := ⟨hnext.isOpen, hnext.young⟩
      refine ⟨hlive, ?_⟩
      rw [load_edit]
      split
      · rename_i hteam
        exfalso
        have hreview := htracked start hmem hlive
        rw [hteam] at hreview
        obtain ⟨hcurrent, hstarted⟩ := Prod.mk.inj hreview
        obtain rfl := Option.some.inj (hmarker.symm.trans hcurrent)
        apply hstale
        left
        rw [cleanupReason_of_live hlive hstarted]
        rfl
      · rfl

theorem isOpen_setStatus {status : TaskStatus} (hget : cycle.tasks.get? taskId = some task)
    (hopen : task.status.terminal = false)
    (hother : (cycle.setStatus taskId task status).isOpen other = true) :
    cycle.isOpen other = true ∧ (other = taskId → status.terminal = false) := by
  by_cases heq : other = taskId
  · subst heq
    obtain ⟨after, hafter, hstatus⟩ := isOpen_iff.mp hother
    rw [setStatus, Dict.get?_set_self] at hafter
    obtain rfl := Option.some.inj hafter
    exact ⟨isOpen_iff.mpr ⟨task, hget, hopen⟩, fun _ => hstatus⟩
  · rw [setStatus, isOpen_set_of_ne _ heq] at hother
    exact ⟨hother, fun h => absurd h heq⟩

section

variable (htracked : cycle.Tracked reviewTimeoutMs)
include htracked

theorem Tracked.setStatus (hget : cycle.tasks.get? taskId = some task)
    (hopen : task.status.terminal = false) (status : TaskStatus) :
    (cycle.setStatus taskId task status).Tracked reviewTimeoutMs := by
  refine htracked.of_live (by rfl) ?_
  intro start _ hnext
  have hlive := isOpen_setStatus hget hopen hnext.isOpen
  exact ⟨⟨hlive.1, hnext.young⟩, rfl⟩

theorem Tracked.edit_of_same (team : String)
    (hsame : ∀ state, (change state).review = state.review) :
    (cycle.edit team change).Tracked reviewTimeoutMs := by
  refine htracked.of_live (by rfl) ?_
  intro start _ hnext
  exact ⟨⟨hnext.isOpen, hnext.young⟩, review_edit_of_same hsame start.team⟩

theorem Tracked.completeReview (hown : ∀ marker, cycle.marker team = some marker → marker = taskId)
    (hclosed : cycle.isOpen taskId = false) :
    (cycle.completeReview taskId team).Tracked reviewTimeoutMs := by
  refine htracked.of_live (by rfl) ?_
  intro start hmem hnext
  have hlive : cycle.Live reviewTimeoutMs start := ⟨hnext.isOpen, hnext.young⟩
  refine ⟨hlive, ?_⟩
  show ((cycle.edit team MurmurState.endReview).load start.team).review = _
  rw [load_edit]
  split
  · rename_i hteam
    exfalso
    have hreview := htracked start hmem hlive
    rw [hteam] at hreview
    have hmine := hown start.taskId (congrArg Prod.fst hreview)
    rw [← hmine, hlive.isOpen] at hclosed
    cases hclosed
  · rfl

theorem Tracked.startReview (hmarker : cycle.marker team = none)
    (hunused : cycle.used taskId = false) (triggeredBy : String) :
    (cycle.startReview reviewTimeoutMs team taskId triggeredBy).Tracked reviewTimeoutMs := by
  have hcreated : (cycle.createReview team taskId).Tracked reviewTimeoutMs :=
    htracked.create hunused _
  intro start hmem hnext
  show (((cycle.createReview team taskId).edit team fun state =>
    state.startReview taskId triggeredBy cycle.now).load start.team).review = _
  rw [load_edit]
  rcases List.mem_cons.mp hmem with rfl | hmem
  · rw [if_pos rfl]
    rfl
  · have hreview := hcreated start hmem ⟨hnext.isOpen, hnext.young⟩
    split
    · rename_i hteam
      rw [hteam] at hreview
      have hsome : cycle.marker team = some start.taskId := congrArg Prod.fst hreview
      rw [hmarker] at hsome
      cases hsome
    · exact hreview

end

theorem terminal_of_transition
    (hvalid : ¬(task.status.terminal = true ∨ ¬isValidTransition task.status newStatus = true)) :
    task.status.terminal = false := by
  rw [not_or, Bool.not_eq_true] at hvalid
  exact hvalid.1

theorem transition_eq_some (hstep : cycle.transition taskId newStatus = some next) :
    ∃ task, cycle.tasks.get? taskId = some task ∧ task.status.terminal = false ∧
      next = (cycle.setStatus taskId task newStatus).murmurHook taskId
        { task with status := newStatus } := by
  obtain ⟨task, hget, hstep⟩ := Option.bind_eq_some_iff.mp hstep
  rw [Option.ite_none_left_eq_some] at hstep
  exact ⟨task, hget, terminal_of_transition hstep.1, (Option.some.inj hstep.2).symm⟩

end ReviewCycle

open ReviewCycle

structure ReviewInvariant (reviewTimeoutMs : Nat) (cycle : ReviewCycle) : Prop where
  tracked : cycle.Tracked reviewTimeoutMs
  one : OneReview cycle

section Steps

variable {cycle next : ReviewCycle} {reviewTimeoutMs : Nat}

section

variable (hinv : ReviewInvariant reviewTimeoutMs cycle)
include hinv

theorem ReviewInvariant.of_tracked (htracked : next.Tracked reviewTimeoutMs)
    (hstarts : next.starts = cycle.starts) (hclears : next.clears = cycle.clears) :
    ReviewInvariant reviewTimeoutMs next :=
  ⟨htracked, by rw [hstarts]; exact hinv.one.starts, by rw [hclears]; exact hinv.one.clears⟩

theorem ReviewInvariant.completeReview {taskId team : String}
    (hown : ∀ marker, cycle.marker team = some marker → marker = taskId)
    (hclosed : cycle.isOpen taskId = false) :
    ReviewInvariant reviewTimeoutMs (cycle.completeReview taskId team) where
  tracked := hinv.tracked.completeReview hown hclosed
  one :=
    { starts := hinv.one.starts
      clears := by
        intro clear hmem
        rcases List.mem_append.mp hmem with hnew | hold
        · obtain ⟨marker, hmarker, rfl⟩ := List.mem_map.mp hnew
          exact hown marker (Option.mem_toList.mp hmarker)
        · exact hinv.one.clears clear hold }

theorem ReviewInvariant.transition {taskId : String} {newStatus : TaskStatus}
    (hends : (MurmurEvent.transition taskId newStatus).endsOwn cycle = true)
    (hstep : cycle.transition taskId newStatus = some next) :
    ReviewInvariant reviewTimeoutMs next := by
  obtain ⟨task, hget, hopen, rfl⟩ := transition_eq_some hstep
  have hset : ReviewInvariant reviewTimeoutMs (cycle.setStatus taskId task newStatus) :=
    hinv.of_tracked (hinv.tracked.setStatus hget hopen newStatus) rfl rfl
  unfold murmurHook
  split
  · exact hset
  · split
    · rename_i hdone
      obtain rfl : newStatus = .done := hdone
      split
      · rename_i hreview
        apply hset.completeReview
        · intro marker hmarker
          rw [MurmurEvent.endsOwn, hget, Option.all_some,
            show task.isReview = true from hreview, Bool.not_true, Bool.false_or] at hends
          have hmine : cycle.marker task.team = some marker := hmarker
          rw [hmine, Option.all_some] at hends
          exact of_decide_eq_true hends
        · by_contra hother
          rw [Bool.not_eq_false] at hother
          have hstatus := (isOpen_setStatus hget hopen hother).2 rfl
          cases hstatus
      · exact hset.of_tracked (hset.tracked.edit_of_same _ fun _ => rfl) rfl rfl
    · split
      · exact hset.of_tracked (hset.tracked.edit_of_same _ fun _ => rfl) rfl rfl
      · exact hset

end

theorem starts_cleanupStaleReview (cycle : ReviewCycle) (reviewTimeoutMs : Nat) (team : String)
    (state : MurmurState) (dryRun : Bool) :
    (cycle.cleanupStaleReview reviewTimeoutMs team state dryRun).starts = cycle.starts ∧
      (cycle.cleanupStaleReview reviewTimeoutMs team state dryRun).clears = cycle.clears := by
  unfold cleanupStaleReview
  split
  · exact ⟨rfl, rfl⟩
  · split
    · exact ⟨rfl, rfl⟩
    · exact ⟨rfl, rfl⟩

theorem ReviewInvariant.cleanup (hinv : ReviewInvariant reviewTimeoutMs cycle) (team : String)
    (dryRun : Bool) : ReviewInvariant reviewTimeoutMs
      (cycle.cleanupStaleReview reviewTimeoutMs team (cycle.load team) dryRun) := by
  obtain ⟨hstarts, hclears⟩ :=
    starts_cleanupStaleReview cycle reviewTimeoutMs team (cycle.load team) dryRun
  exact hinv.of_tracked (hinv.tracked.cleanup team dryRun) hstarts hclears

theorem marker_of_evaluateTriggers {triggers : List MurmurTrigger} {state : MurmurState}
    {taskStats : TaskStats} {now : Nat} {trigger : TriggerResult}
    (hfires : evaluateTriggers triggers state taskStats now = some trigger) :
    state.currentReviewTaskId = none := by
  rw [evaluateTriggers, Option.ite_none_left_eq_some] at hfires
  simpa using hfires.1

theorem ReviewInvariant.evaluate (hinv : ReviewInvariant reviewTimeoutMs cycle)
    {team taskId : String} {options : MurmurOptions}
    (hstep : cycle.evaluateTeam reviewTimeoutMs team taskId options = some next) :
    ReviewInvariant reviewTimeoutMs next := by
  have hcleaned := hinv.cleanup team options.dryRun
  unfold ReviewCycle.evaluateTeam at hstep
  dsimp only at hstep
  split at hstep
  · obtain rfl := Option.some.inj hstep
    exact hcleaned
  · rename_i trigger hfires
    have hmarker : cycle.marker team = none := marker_of_evaluateTriggers hfires
    have hclean : cycle.cleanupStaleReview reviewTimeoutMs team (cycle.load team) options.dryRun =
        cycle := by
      unfold cleanupStaleReview
      rw [show (cycle.load team).currentReviewTaskId = none from hmarker]
    rw [hclean] at hstep
    split at hstep
    · obtain rfl := Option.some.inj hstep
      exact hinv
    · split at hstep
      · cases hstep
      · rename_i hunused
        obtain rfl := Option.some.inj hstep
        refine ⟨hinv.tracked.startReview hmarker (Bool.eq_false_iff.mpr hunused) _, ?_,
          hinv.one.clears⟩
        intro start hmem
        rcases List.mem_cons.mp hmem with rfl | hmem
        · exact hinv.tracked.alive_eq_nil hmarker
        · exact hinv.one.starts start hmem

theorem ReviewInvariant.step (hinv : ReviewInvariant reviewTimeoutMs cycle) {event : MurmurEvent}
    (hends : event.endsOwn cycle = true)
    (hstep : murmurStep reviewTimeoutMs cycle event = some next) :
    ReviewInvariant reviewTimeoutMs next := by
  cases event with
  | elapse ms =>
      obtain rfl := Option.some.inj hstep
      exact hinv.of_tracked (hinv.tracked.elapse ms) rfl rfl
  | create taskId task =>
      rw [murmurStep, Option.ite_none_left_eq_some] at hstep
      obtain ⟨hunused, hstep⟩ := hstep
      obtain rfl := Option.some.inj hstep
      exact hinv.of_tracked (hinv.tracked.create (Bool.eq_false_iff.mpr hunused) task) rfl rfl
  | delete taskId =>
      obtain rfl := Option.some.inj hstep
      exact hinv.of_tracked (hinv.tracked.delete taskId) rfl rfl
  | transition taskId newStatus => exact hinv.transition hends hstep
  | cleanup team =>
      obtain rfl := Option.some.inj hstep
      exact hinv.cleanup team false
  | evaluate team taskId options => exact hinv.evaluate hstep

end Steps

structure ReviewCycle.Fresh (cycle : ReviewCycle) : Prop where
  starts : cycle.starts = []
  clears : cycle.clears = []

/-- If a review task completes only while the marker of its team is it or absent, at most one review
of a team is live, and only its own completion clears the marker. -/
theorem one_live_review {reviewTimeoutMs : Nat} {cycle finish : ReviewCycle}
    {events : List MurmurEvent} (hfresh : cycle.Fresh)
    (hrun : Run (murmurStep reviewTimeoutMs) (fun cycle event => event.endsOwn cycle = true) cycle
      events finish) : OneReview finish := by
  have hinv : ReviewInvariant reviewTimeoutMs finish := by
    apply hrun.invariant (ReviewInvariant reviewTimeoutMs)
    · intro cycle event next hinv hends hstep
      exact hinv.step hends hstep
    · constructor
      · intro start hmem
        rw [hfresh.starts] at hmem
        cases hmem
      · constructor
        · intro start hmem
          rw [hfresh.starts] at hmem
          cases hmem
        · intro clear hmem
          rw [hfresh.clears] at hmem
          cases hmem
  exact hinv.one

def everyFifty : MurmurOptions where
  triggers := [{ kind := .interval, intervalMs := some 50 }]

def twoReviews : List MurmurEvent :=
  [.evaluate "dev" "T1" everyFifty, .elapse 100, .evaluate "dev" "T2" everyFifty,
    .evaluate "dev" "T2" everyFifty]

def thirdReview (taskId : String) : List MurmurEvent :=
  twoReviews ++ [.transition taskId .inProgress, .transition taskId .review,
    .transition taskId .done, .elapse 50, .evaluate "dev" "T3" everyFifty]

theorem fresh_empty : ReviewCycle.Fresh {} := ⟨rfl, rfl⟩

theorem reviews_in_order : ∃ finish,
    Run (murmurStep 100) (fun cycle event => event.endsOwn cycle = true) {} (thirdReview "T2")
      finish ∧ finish.starts.length = 3 ∧ OneReview finish := by
  have hexec : (exec (checked (murmurStep 100) fun cycle event => event.endsOwn cycle) {}
      (thirdReview "T2")).any (fun finish => finish.starts.length = 3) = true := by decide +kernel
  obtain ⟨finish, hfinish, hlength⟩ := (Option.any_eq_true _ _).mp hexec
  have hrun := Run.of_exec (fun _ _ h => h) hfinish
  exact ⟨finish, hrun, of_decide_eq_true hlength, one_live_review fresh_empty hrun⟩

/-- The late completion of a review clears the marker of the next one, and a third one starts
beside it. -/
theorem late_review_clears : (¬ ∀ events finish, FreeRun (murmurStep 100) {} events finish →
      ∀ start ∈ finish.starts, start.alive = []) ∧
    (¬ ∀ events finish, FreeRun (murmurStep 100) {} events finish →
      ∀ clear ∈ finish.clears, clear.marker = clear.taskId) := by
  have hexec : (exec (murmurStep 100) {} (thirdReview "T1")).any (fun finish =>
      (⟨"T3", "dev", 150, ["T2"]⟩ : ReviewStart) ∈ finish.starts ∧
        (⟨"T1", "T2"⟩ : MarkerClear) ∈ finish.clears) = true := by decide +kernel
  obtain ⟨finish, hfinish, hboth⟩ := (Option.any_eq_true _ _).mp hexec
  obtain ⟨hstart, hclear⟩ := of_decide_eq_true hboth
  have hrun := freeRun_iff_exec.mpr hfinish
  constructor
  · intro hclaim
    cases hclaim (thirdReview "T1") finish hrun _ hstart
  · intro hclaim
    have hmarker := hclaim (thirdReview "T1") finish hrun _ hclear
    revert hmarker
    decide

end Aof
