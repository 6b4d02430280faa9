import Mathlib.Logic.Function.Basic
import Mathlib.Data.List.Basic

/-!
# Locks made of a chain of calls

The calls on a key run their bodies one after the other: a call waits for the one before it, and an
entry for the key names the last call.  Calls are numbered in the order in which they are made.
What each call has come to is kept as a view; the rules below say which changes of one view keep
the chain in order, whatever a lock does to make them.
-/

namespace LockChain

variable {Key Outcome : Type}

inductive Event (Outcome : Type) where
  | started (call : Nat)
  | finished (call : Nat) (outcome : Outcome)
  | received (call : Nat) (outcome : Outcome)

/-- A body starts when the bodies of all earlier calls on its key have finished, and a caller
receives what its own body finished with; each happens once.  The latest event comes first. -/
def Fair (keys : List Key) : List (Event Outcome) → Prop
  | [] => True
  | .started call :: earlier =>
      call < keys.length ∧ .started call ∉ earlier ∧
        (∀ first < call, keys[first]? = keys[call]? →
          ∃ outcome, .finished first outcome ∈ earlier) ∧
        Fair keys earlier
  | .finished call _ :: earlier =>
      .started call ∈ earlier ∧ (∀ outcome, .finished call outcome ∉ earlier) ∧ Fair keys earlier
  | .received call outcome :: earlier =>
      .finished call outcome ∈ earlier ∧ (∀ other, .received call other ∉ earlier) ∧
        Fair keys earlier

def Running (trace : List (Event Outcome)) (call : Nat) : Prop :=
  .started call ∈ trace ∧ ∀ outcome, .finished call outcome ∉ trace

section Fairness

variable {keys : List Key} {trace : List (Event Outcome)} {call : Nat}

theorem Fair.snoc (hfair : Fair keys trace) (key : Key) : Fair (keys ++ [key]) trace := by
  induction trace with
  | nil => trivial
  | cons event earlier ih =>
      cases event with
      | started other =>
          obtain ⟨hlt, hnew, hbefore, hrest⟩ := hfair
          refine ⟨by rw [List.length_append]; omega, hnew, ?_, ih hrest⟩
          intro first hfirst hkey
          rw [List.getElem?_append_left (by omega), List.getElem?_append_left hlt] at hkey
          exact hbefore first hfirst hkey
      | finished other outcome => exact ⟨hfair.1, hfair.2.1, ih hfair.2.2⟩
      | received other outcome => exact ⟨hfair.1, hfair.2.1, ih hfair.2.2⟩

theorem Fair.finished_of_started (hfair : Fair keys trace) (hstarted : .started call ∈ trace)
    {first : Nat} (hfirst : first < call) (hkey : keys[first]? = keys[call]?) :
    ∃ outcome, .finished first outcome ∈ trace := by
  induction trace with
  | nil => cases hstarted
  | cons event earlier ih =>
      have hlater : (∃ outcome, .finished first outcome ∈ earlier) →
          ∃ outcome, .finished first outcome ∈ event :: earlier := by
        intro hfinished
        obtain ⟨outcome, hmem⟩ := hfinished
        exact ⟨outcome, .tail _ hmem⟩
      apply hlater
      cases event with
      | started other =>
          obtain ⟨-, -, hbefore, hrest⟩ := hfair
          cases hstarted with
          | head => exact hbefore first hfirst hkey
          | tail _ hmem => exact ih hrest hmem
      | finished other outcome =>
          cases hstarted with
          | tail _ hmem => exact ih hfair.2.2 hmem
      | received other outcome =>
          cases hstarted with
          | tail _ hmem => exact ih hfair.2.2 hmem

theorem Fair.alone (hfair : Fair keys trace) {other : Nat} (hcall : Running trace call)
    (hother : Running trace other) (hkey : keys[call]? = keys[other]?) : call = other := by
  apply Nat.le_antisymm
  · apply Nat.le_of_not_lt
    intro hlt
    obtain ⟨outcome, hmem⟩ := hfair.finished_of_started hcall.1 hlt hkey.symm
    exact hother.2 outcome hmem
  · apply Nat.le_of_not_lt
    intro hlt
    obtain ⟨outcome, hmem⟩ := hfair.finished_of_started hother.1 hlt hkey
    exact hcall.2 outcome hmem

end Fairness

variable {key sought : Key} {call first : Nat} {Field : Type}

theorem getElem?_snoc_of_some {keys : List Key} (hkey : keys[call]? = some sought) :
    (keys ++ [key])[call]? = some sought := by
  rw [List.getElem?_append_left (List.getElem?_eq_some_iff.mp hkey).1, hkey]

theorem getElem?_snoc_cases {keys : List Key} (hkey : (keys ++ [key])[call]? = some sought) :
    keys[call]? = some sought ∨ (call = keys.length ∧ sought = key) := by
  by_cases hlt : call < keys.length
  · rw [List.getElem?_append_left hlt] at hkey
    exact .inl hkey
  · obtain ⟨hbound, hget⟩ := List.getElem?_eq_some_iff.mp hkey
    rw [List.length_append, List.length_singleton] at hbound
    obtain rfl : call = keys.length := by omega
    simp only [List.getElem_concat_length] at hget
    exact .inr ⟨rfl, hget.symm⟩

/-- What a call has come to: the call that it waits for and the one that waits for it, what its
body finished with, and whether it has let the next call go, cleaned up and told its caller. -/
structure View (Outcome : Type) where
  prior : Option Nat := none
  link : Option Nat := none
  started : Bool := false
  outcome : Option Outcome := none
  settled : Bool := false
  cleaned : Bool := false
  told : Bool := false

structure View.Sound (view : View Outcome) : Prop where
  started : view.started = true → view.prior = none
  ended : view.outcome ≠ none → view.started = true
  settled : view.settled = true → view.outcome ≠ none
  unlinked : view.settled = true → view.link = none
  cleaned : view.cleaned = true → view.outcome ≠ none
  told : view.told = true → view.cleaned = true

variable {keys : List Key} {entries : Key → Option Nat} {views views' : Nat → View Outcome}
  {trace : List (Event Outcome)}

variable {view : View Outcome}

theorem update_same (field : View Outcome → Field) (hview : field view = field (views call))
    (other : Nat) : field (Function.update views call view other) = field (views other) := by
  by_cases hother : other = call
  · rw [hother, Function.update_self, hview]
  · rw [Function.update_of_ne hother]

theorem update_update_same (field : View Outcome → Field) {view' : View Outcome}
    (hfirst : field view = field (views first)) (hcall : field view' = field (views call))
    (other : Nat) : field (Function.update (Function.update views first view) call view' other) =
      field (views other) := by
  by_cases hother : other = call
  · rw [hother, Function.update_self, hcall]
  · rw [Function.update_of_ne hother, update_same field hfirst]

theorem same_of_others (field : View Outcome → Field)
    (hfirst : field (views' first) = field (views first))
    (hcall : field (views' call) = field (views call))
    (hothers : ∀ other, other ≠ first → other ≠ call → views' other = views other) (other : Nat) :
    field (views' other) = field (views other) := by
  by_cases heq : other = first
  · rw [heq, hfirst]
  · by_cases heq' : other = call
    · rw [heq', hcall]
    · rw [hothers other heq heq']

structure Recorded (keys : List Key) (views : Nat → View Outcome) (trace : List (Event Outcome)) :
    Prop where
  started : ∀ call, .started call ∈ trace ↔ (views call).started = true
  finished : ∀ call outcome, .finished call outcome ∈ trace ↔ (views call).outcome = some outcome
  received : ∀ call outcome, .received call outcome ∈ trace ↔
    (views call).told = true ∧ (views call).outcome = some outcome
  fair : Fair keys trace

namespace Recorded

theorem congr (hrecorded : Recorded keys views trace)
    (hstarted : ∀ call, (views' call).started = (views call).started)
    (houtcome : ∀ call, (views' call).outcome = (views call).outcome)
    (htold : ∀ call, (views' call).told = (views call).told) : Recorded keys views' trace where
  started call := by rw [hstarted, hrecorded.started]
  finished call outcome := by rw [houtcome, hrecorded.finished]
  received call outcome := by rw [houtcome, htold, hrecorded.received]
  fair := hrecorded.fair

theorem snoc (hrecorded : Recorded keys views trace) (key : Key) :
    Recorded (keys ++ [key]) views trace :=
  { hrecorded with fair := hrecorded.fair.snoc key }

theorem mem_cons_iff_update (event : Nat → Event Outcome) (Holds : View Outcome → Prop)
    {new : Event Outcome} {call : Nat} {view : View Outcome}
    (hevent : ∀ other, event other ∈ trace ↔ Holds (views other))
    (hothers : ∀ other, event other = new → other = call)
    (hcall : event call = new ∨ Holds (views call) ↔ Holds view) (other : Nat) :
    event other ∈ new :: trace ↔ Holds (Function.update views call view other) := by
  rw [List.mem_cons, hevent]
  by_cases heq : other = call
  · rw [heq, Function.update_self]
    exact hcall
  · rw [Function.update_of_ne heq]
    exact or_iff_right fun hnew => heq (hothers other hnew)

variable (hrecorded : Recorded keys views trace)
include hrecorded

theorem start {call : Nat} (hlt : call < keys.length) (hnew : (views call).started = false)
    (hbefore : ∀ first < call, keys[first]? = keys[call]? → (views first).outcome ≠ none) :
    Recorded keys (Function.update views call { views call with started := true })
      (.started call :: trace) where
  started := by
    apply mem_cons_iff_update Event.started (·.started = true) hrecorded.started
    · simp
    · simp
  finished other outcome := by
    apply mem_cons_iff_update (.finished · outcome) (·.outcome = some outcome)
    · exact (hrecorded.finished · outcome)
    · simp
    · simp
  received other outcome := by
    apply mem_cons_iff_update (.received · outcome)
      (fun view => view.told ∧ view.outcome = some outcome)
    · exact (hrecorded.received · outcome)
    · simp
    · simp
  fair := by
    refine ⟨hlt, ?_, ?_, hrecorded.fair⟩
    · rw [hrecorded.started, hnew]
      exact Bool.false_ne_true
    · intro first hfirst hkey
      obtain ⟨outcome, houtcome⟩ := Option.ne_none_iff_exists'.mp (hbefore first hfirst hkey)
      exact ⟨outcome, (hrecorded.finished first outcome).mpr houtcome⟩

theorem finish {call : Nat} (outcome : Outcome) (hstarted : (views call).started = true)
    (hnone : (views call).outcome = none) (htold : (views call).told = false) :
    Recorded keys (Function.update views call { views call with outcome := some outcome })
      (.finished call outcome :: trace) where
  started := by
    apply mem_cons_iff_update Event.started (·.started = true) hrecorded.started
    · simp
    · simp
  finished other result := by
    apply mem_cons_iff_update (.finished · result) (·.outcome = some result)
    · exact (hrecorded.finished · result)
    · simp
    · simp [hnone, eq_comm]
  received other result := by
    apply mem_cons_iff_update (.received · result)
      (fun view => view.told ∧ view.outcome = some result)
    · exact (hrecorded.received · result)
    · simp
    · simp [htold]
  fair := by
    refine ⟨(hrecorded.started call).mpr hstarted, ?_, hrecorded.fair⟩
    intro other hmem
    rw [hrecorded.finished, hnone] at hmem
    cases hmem

theorem tell {call : Nat} {outcome : Outcome} (houtcome : (views call).outcome = some outcome)
    (hnew : (views call).told = false) :
    Recorded keys (Function.update views call { views call with told := true })
      (.received call outcome :: trace) where
  started := by
    apply mem_cons_iff_update Event.started (·.started = true) hrecorded.started
    · simp
    · simp
  finished other result := by
    apply mem_cons_iff_update (.finished · result) (·.outcome = some result)
    · exact (hrecorded.finished · result)
    · simp
    · simp
  received other result := by
    apply mem_cons_iff_update (.received · result)
      (fun view => view.told ∧ view.outcome = some result)
    · exact (hrecorded.received · result)
    · simp
    · simp [houtcome, hnew, eq_comm]
  fair := by
    refine ⟨(hrecorded.finished call outcome).mpr houtcome, ?_, hrecorded.fair⟩
    intro other hmem
    rw [hrecorded.received, hnew] at hmem
    cases hmem.1

end Recorded

/-- The entry of a key is its last call, as long as this has not cleaned up; a call that does not
wait has only finished bodies before it on its key. -/
structure Chained (keys : List Key) (entries : Key → Option Nat) (views : Nat → View Outcome) :
    Prop where
  fresh : ∀ call, keys.length ≤ call → views call = {}
  latest : ∀ key call, entries key = some call → keys[call]? = some key ∧
    (views call).cleaned = false ∧ ∀ other : Nat, keys[other]? = some key → other ≤ call
  free : ∀ key (call : Nat), entries key = none → keys[call]? = some key →
    (views call).outcome ≠ none
  behind : ∀ call first, (views call).prior = some first → first < call ∧
    keys[first]? = keys[call]? ∧ (views first).settled = false ∧
    ∀ other < call, keys[other]? = keys[call]? → other ≤ first
  linked : ∀ first call, (views first).link = some call ↔ (views call).prior = some first
  ordered : ∀ call < keys.length, (views call).prior = none →
    ∀ first < call, keys[first]? = keys[call]? → (views first).outcome ≠ none
  sound : ∀ call, (views call).Sound

namespace Chained

variable {call first last : Nat} {key : Key}

variable (hchained : Chained keys entries views)
include hchained

theorem lt_of_started (hstarted : (views call).started = true) : call < keys.length := by
  apply Nat.lt_of_not_le
  intro hle
  rw [hchained.fresh call hle] at hstarted
  cases hstarted

theorem lt_of_linked (hlink : (views first).link = some call) : call < keys.length := by
  apply Nat.lt_of_not_le
  intro hle
  rw [hchained.linked, hchained.fresh call hle] at hlink
  cases hlink

theorem advance {view : View Outcome} (hlt : call < keys.length) (hsound : view.Sound)
    (hprior : view.prior = (views call).prior) (hlink : view.link = (views call).link)
    (hcleaned : view.cleaned = (views call).cleaned)
    (hsettled : view.settled = (views call).settled ∨ (views call).link = none)
    (hended : (views call).outcome ≠ none → view.outcome ≠ none) :
    Chained keys entries (Function.update views call view) := by
  have hpriors := update_same View.prior hprior
  have hlinks := update_same View.link hlink
  have hcleans := update_same View.cleaned hcleaned
  have hends : ∀ other, (views other).outcome ≠ none →
      (Function.update views call view other).outcome ≠ none := by
    intro other
    by_cases heq : other = call
    · rw [heq, Function.update_self]
      exact hended
    · rw [Function.update_of_ne heq]
      exact id
  refine ⟨?_, ?_, ?_, ?_, ?_, ?_, ?_⟩
  · intro other hle
    rw [Function.update_of_ne (by omega)]
    exact hchained.fresh other hle
  · intro key entry hentry
    rw [hcleans]
    exact hchained.latest key entry hentry
  · intro key other hentry hkey
    exact hends other (hchained.free key other hentry hkey)
  · intro other first hfirst
    rw [hpriors] at hfirst
    obtain ⟨hbefore, hkey, hopen, hnearest⟩ := hchained.behind other first hfirst
    refine ⟨hbefore, hkey, ?_, hnearest⟩
    by_cases heq : first = call
    · rw [heq, Function.update_self]
      rw [heq] at hopen hfirst
      apply hsettled.elim
      · intro hsame
        rw [hsame, hopen]
      · intro hunlinked
        rw [(hchained.linked call other).mpr hfirst] at hunlinked
        cases hunlinked
    · rw [Function.update_of_ne heq]
      exact hopen
  · intro first other
    rw [hlinks, hpriors]
    exact hchained.linked first other
  · intro other hother hfree first hfirst hkey
    rw [hpriors] at hfree
    exact hends first (hchained.ordered other hother hfree first hfirst hkey)
  · intro other
    by_cases heq : other = call
    · rw [heq, Function.update_self]
      exact hsound
    · rw [Function.update_of_ne heq]
      exact hchained.sound other

theorem grow [DecidableEq Key] {key : Key}
    (hpriors : ∀ call < keys.length, (views' call).prior = (views call).prior)
    (houtcomes : ∀ call, (views' call).outcome = (views call).outcome)
    (hsettled : ∀ call, (views' call).settled = (views call).settled)
    (hcleaned : ∀ call, (views' call).cleaned = (views call).cleaned)
    (hfresh : ∀ call, keys.length < call → views' call = {})
    (hlinked : ∀ first call, (views' first).link = some call ↔ (views' call).prior = some first)
    (hsound : ∀ call, (views' call).Sound)
    (hbehind : ∀ first, (views' keys.length).prior = some first → keys[first]? = some key ∧ (views
      first).settled = false ∧ ∀ other : Nat, keys[other]? = some key → other ≤ first)
    (hordered : (views' keys.length).prior = none → ∀ first : Nat, keys[first]? = some key →
      (views first).outcome ≠ none) :
    Chained (keys ++ [key]) (Function.update entries key (some keys.length)) views' := by
  have hlast : (keys ++ [key])[keys.length]? = some key := by simp
  refine ⟨?_, ?_, ?_, ?_, hlinked, ?_, hsound⟩
  · intro call hle
    rw [List.length_append, List.length_singleton] at hle
    exact hfresh call (by omega)
  · intro sought call hentry
    rw [hcleaned]
    by_cases heq : sought = key
    · rw [heq, Function.update_self] at hentry
      obtain rfl := Option.some.inj hentry
      rw [heq, hchained.fresh _ (Nat.le_refl _)]
      refine ⟨hlast, rfl, fun other hother => ?_⟩
      obtain ⟨hbound, -⟩ := List.getElem?_eq_some_iff.mp hother
      rw [List.length_append, List.length_singleton] at hbound
      omega
    · rw [Function.update_of_ne heq] at hentry
      obtain ⟨hkey, hopen, hnewest⟩ := hchained.latest sought call hentry
      refine ⟨getElem?_snoc_of_some hkey, hopen, fun other hother => ?_⟩
      apply (getElem?_snoc_cases hother).elim
      · exact hnewest other
      · exact fun hsame => absurd hsame.2 heq
  · intro sought other hentry hother
    rw [houtcomes]
    by_cases heq : sought = key
    · rw [heq, Function.update_self] at hentry
      cases hentry
    · rw [Function.update_of_ne heq] at hentry
      apply (getElem?_snoc_cases hother).elim
      · exact hchained.free sought other hentry
      · exact fun hsame => absurd hsame.2 heq
  · intro call first hprior
    rw [hsettled]
    by_cases hlt : call < keys.length
    · rw [hpriors call hlt] at hprior
      obtain ⟨hbefore, hkey, hopen, hnearest⟩ := hchained.behind call first hprior
      rw [List.getElem?_append_left hlt, List.getElem?_append_left (by omega)]
      refine ⟨hbefore, hkey, hopen, fun other hother => ?_⟩
      rw [List.getElem?_append_left (by omega)]
      exact hnearest other hother
    · by_cases heq : call = keys.length
      · rw [heq] at hprior ⊢
        obtain ⟨hkey, hopen, hnearest⟩ := hbehind first hprior
        rw [hlast, getElem?_snoc_of_some hkey]
        refine ⟨(List.getElem?_eq_some_iff.mp hkey).1, rfl, hopen, fun other hother => ?_⟩
        rw [List.getElem?_append_left hother]
        exact hnearest other
      · rw [hfresh call (by omega)] at hprior
        cases hprior
  · intro call hcall hprior first hfirst hkey
    rw [houtcomes]
    rw [List.length_append, List.length_singleton] at hcall
    rw [List.getElem?_append_left (by omega)] at hkey
    by_cases hlt : call < keys.length
    · rw [List.getElem?_append_left hlt] at hkey
      rw [hpriors call hlt] at hprior
      exact hchained.ordered call hlt hprior first hfirst hkey
    · obtain rfl : call = keys.length := by omega
      rw [hlast] at hkey
      exact hordered hprior first hkey

theorem latest_unlinked (hentry : entries key = some last) : (views last).link = none := by
  obtain ⟨hkey, -, hnewest⟩ := hchained.latest key last hentry
  apply Option.eq_none_iff_forall_ne_some.mpr
  intro call hlink
  have hprior := (hchained.linked last call).mp hlink
  obtain ⟨hbefore, hsame, -⟩ := hchained.behind call last hprior
  have hle := hnewest call (by rw [← hsame, hkey])
  omega

theorem lt_of_latest (hentry : entries key = some last) : last < keys.length :=
  (List.getElem?_eq_some_iff.mp (hchained.latest key last hentry).1).1

theorem grow_behind [DecidableEq Key] (hentry : entries key = some first)
    (hopen : (views first).settled = false)
    (hfirst : views' first = { views first with link := some keys.length })
    (hlast : views' keys.length = { prior := some first })
    (hothers : ∀ other, other ≠ first → other ≠ keys.length → views' other = views other) :
    Chained (keys ++ [key]) (Function.update entries key (some keys.length)) views' := by
  obtain ⟨hkey, -, hnewest⟩ := hchained.latest key first hentry
  have hlt : first < keys.length := hchained.lt_of_latest hentry
  have hunlinked := hchained.latest_unlinked hentry
  have hnew : views keys.length = {} := hchained.fresh _ (Nat.le_refl _)
  have hprior : ∀ call, (views' call).prior =
      if call = keys.length then some first else (views call).prior := by
    intro call
    by_cases hcall : call = keys.length
    · rw [hcall, hlast, if_pos rfl]
    · rw [if_neg hcall]
      by_cases heq : call = first
      · rw [heq, hfirst]
      · rw [hothers call heq hcall]
  have hlink : ∀ other, (views' other).link =
      if other = first then some keys.length else (views other).link := by
    intro other
    by_cases hother : other = first
    · rw [hother, hfirst, if_pos rfl]
    · rw [if_neg hother]
      by_cases heq : other = keys.length
      · rw [heq, hlast, hnew]
      · rw [hothers other hother heq]
  apply hchained.grow
  · intro call hcall
    rw [hprior, if_neg (by omega)]
  · exact same_of_others View.outcome (by rw [hfirst]) (by rw [hlast, hnew]) hothers
  · exact same_of_others View.settled (by rw [hfirst]) (by rw [hlast, hnew]) hothers
  · exact same_of_others View.cleaned (by rw [hfirst]) (by rw [hlast, hnew]) hothers
  · intro call hcall
    rw [hothers call (by omega) (by omega)]
    exact hchained.fresh call (by omega)
  · intro other call
    rw [hlink, hprior]
    by_cases hother : other = first <;> by_cases hcall : call = keys.length
    · rw [if_pos hother, if_pos hcall, hother, hcall]
      exact iff_of_true rfl rfl
    · rw [if_pos hother, if_neg hcall, hother, ← hchained.linked, hunlinked]
      exact iff_of_false (fun heq => hcall (Option.some.inj heq).symm) nofun
    · rw [if_neg hother, if_pos hcall, hcall, hchained.linked, hnew]
      exact iff_of_false nofun fun heq => hother (Option.some.inj heq).symm
    · rw [if_neg hother, if_neg hcall]
      exact hchained.linked other call
  · intro call
    by_cases heq : call = first
    · obtain ⟨hstarted, hended, hsettled, -, hcleaned, htold⟩ := hchained.sound first
      rw [heq, hfirst]
      exact ⟨hstarted, hended, hsettled, fun hdone => absurd (hopen.symm.trans hdone) nofun,
        hcleaned, htold⟩
    · by_cases hcall : call = keys.length
      · rw [hcall, hlast]
        exact ⟨nofun, fun hended => absurd rfl hended, nofun, nofun, nofun, nofun⟩
      · rw [hothers call heq hcall]
        exact hchained.sound call
  · intro other hother
    rw [hprior, if_pos rfl] at hother
    obtain rfl := Option.some.inj hother
    exact ⟨hkey, hopen, hnewest⟩
  · intro hnone
    rw [hprior, if_pos rfl] at hnone
    cases hnone

theorem ne_of_linked (hlinked : (views first).link = some call) : first ≠ call := by
  have hbefore := (hchained.behind call first ((hchained.linked first call).mp hlinked)).1
  omega

theorem release (hlinked : (views first).link = some call) (hended : (views first).outcome ≠ none)
    (hfirst : views' first = { views first with settled := true, link := none })
    (hnext : views' call = { views call with prior := none })
    (hothers : ∀ other, other ≠ first → other ≠ call → views' other = views other) :
    Chained keys entries views' := by
  have hwaits := (hchained.linked first call).mp hlinked
  obtain ⟨hbefore, hkey, hopen, hnearest⟩ := hchained.behind call first hwaits
  have hcall : call < keys.length := hchained.lt_of_linked hlinked
  have hunchanged : ∀ other, other ≠ first → (views' other).link = (views other).link ∧
      (views' other).settled = (views other).settled := by
    intro other hother
    by_cases heq : other = call
    · rw [heq, hnext]
      exact ⟨rfl, rfl⟩
    · rw [hothers other hother heq]
      exact ⟨rfl, rfl⟩
  have hprior : ∀ other, (views' other).prior =
      if other = call then none else (views other).prior := by
    intro other
    by_cases hother : other = call
    · rw [hother, hnext, if_pos rfl]
    · rw [if_neg hother]
      by_cases heq : other = first
      · rw [heq, hfirst]
      · rw [hothers other heq hother]
  refine ⟨?_, ?_, ?_, ?_, ?_, ?_, ?_⟩
  · intro other hle
    rw [hothers other (by omega) (by omega)]
    exact hchained.fresh other hle
  · intro key entry hentry
    rw [same_of_others View.cleaned (by rw [hfirst]) (by rw [hnext]) hothers]
    exact hchained.latest key entry hentry
  · intro key other hentry hother
    rw [same_of_others View.outcome (by rw [hfirst]) (by rw [hnext]) hothers]
    exact hchained.free key other hentry hother
  · intro other earlier hother
    rw [hprior] at hother
    split at hother
    · cases hother
    · rename_i hne
      obtain ⟨hlt, hsamekey, hsettled, hnext⟩ := hchained.behind other earlier hother
      refine ⟨hlt, hsamekey, ?_, hnext⟩
      -- a call lets only one other go
      have hearlier : earlier ≠ first := by
        intro heq
        rw [heq, ← hchained.linked, hlinked] at hother
        exact hne (Option.some.inj hother).symm
      rw [(hunchanged earlier hearlier).2, hsettled]
  · intro earlier other
    rw [hprior]
    by_cases hearlier : earlier = first
    · rw [hearlier, hfirst]
      apply iff_of_false nofun
      intro hother
      split at hother
      · cases hother
      · rename_i hne
        rw [← hchained.linked, hlinked] at hother
        exact hne (Option.some.inj hother).symm
    · rw [(hunchanged earlier hearlier).1, hchained.linked]
      split
      · rename_i heq
        rw [heq, hwaits]
        exact iff_of_false (fun hsame => hearlier (Option.some.inj hsame).symm) nofun
      · rfl
  · intro other hother hfree earlier hearlier hsamekey
    rw [same_of_others View.outcome (by rw [hfirst]) (by rw [hnext]) hothers]
    rw [hprior] at hfree
    split at hfree
    · rename_i heq
      rw [heq] at hearlier hsamekey
      apply (Nat.lt_or_eq_of_le (hnearest earlier hearlier hsamekey)).elim
      · intro hlt
        have hstarted := (hchained.sound first).ended hended
        have hunblocked := (hchained.sound first).started hstarted
        exact hchained.ordered first (by omega) hunblocked earlier hlt
          (hsamekey.trans hkey.symm)
      · intro heq
        rwa [heq]
    · exact hchained.ordered other hother hfree earlier hearlier hsamekey
  · intro other
    by_cases heq : other = first
    · obtain ⟨hstarted, hdone, -, -, hcleaned, htold⟩ := hchained.sound first
      rw [heq, hfirst]
      exact ⟨hstarted, hdone, fun _ => hended, fun _ => rfl, hcleaned, htold⟩
    · by_cases hother : other = call
      · obtain ⟨-, hdone, hsettled, hunlinked, hcleaned, htold⟩ := hchained.sound call
        rw [hother, hnext]
        exact ⟨fun _ => rfl, hdone, hsettled, hunlinked, hcleaned, htold⟩
      · rw [hothers other heq hother]
        exact hchained.sound other

theorem clean [DecidableEq Key] (hkey : keys[call]? = some key)
    (hended : (views call).outcome ≠ none) : Chained keys
      (if entries key = some call then Function.update entries key none else entries)
      (Function.update views call { views call with cleaned := true }) := by
  have houtcomes : ∀ other,
      (Function.update views call { views call with cleaned := true } other).outcome =
        (views other).outcome := update_same View.outcome rfl
  have hpriors : ∀ other,
      (Function.update views call { views call with cleaned := true } other).prior =
        (views other).prior := update_same View.prior rfl
  have hsettleds : ∀ other,
      (Function.update views call { views call with cleaned := true } other).settled =
        (views other).settled := update_same View.settled rfl
  have hlinks : ∀ other,
      (Function.update views call { views call with cleaned := true } other).link =
        (views other).link := update_same View.link rfl
  have hentries : ∀ {sought : Key} {entry : Nat},
      (if entries key = some call then Function.update entries key none else entries) sought =
        some entry → entries sought = some entry ∧ entry ≠ call := by
    intro sought entry hentry
    have hcall : entries sought = some call → sought = key := by
      intro hsought
      have hfound := (hchained.latest sought call hsought).1
      rw [hkey] at hfound
      exact (Option.some.inj hfound).symm
    split at hentry
    · rename_i hlast
      by_cases heq : sought = key
      · rw [heq, Function.update_self] at hentry
        cases hentry
      · rw [Function.update_of_ne heq] at hentry
        refine ⟨hentry, fun hsought => heq (hcall ?_)⟩
        rw [hentry, hsought]
    · rename_i hlast
      refine ⟨hentry, fun hsought => hlast ?_⟩
      rw [hsought] at hentry
      rw [← hcall hentry, hentry]
  refine ⟨?_, ?_, ?_, ?_, ?_, ?_, ?_⟩
  · intro other hle
    have hlt := (List.getElem?_eq_some_iff.mp hkey).1
    rw [Function.update_of_ne (by omega)]
    exact hchained.fresh other hle
  · intro sought entry hentry
    obtain ⟨hold, hne⟩ := hentries hentry
    rw [Function.update_of_ne hne]
    exact hchained.latest sought entry hold
  · intro sought other hentry hother
    rw [houtcomes]
    split at hentry
    · rename_i hlast
      by_cases heq : sought = key
      · -- the entry of the last call is gone, and all calls before it have finished
        rw [heq] at hother
        obtain ⟨-, -, hnewest⟩ := hchained.latest key call hlast
        have hlt := (List.getElem?_eq_some_iff.mp hkey).1
        apply (Nat.lt_or_eq_of_le (hnewest other hother)).elim
        · intro hbefore
          have hstarted := (hchained.sound call).ended hended
          exact hchained.ordered call hlt ((hchained.sound call).started hstarted) other hbefore
            (hother.trans hkey.symm)
        · intro heq
          rwa [heq]
      · rw [Function.update_of_ne heq] at hentry
        exact hchained.free sought other hentry hother
    · exact hchained.free sought other hentry hother
  · intro other first hprior
    rw [hpriors] at hprior
    rw [hsettleds]
    exact hchained.behind other first hprior
  · intro first other
    rw [hlinks, hpriors]
    exact hchained.linked first other
  · intro other hother hfree first hfirst hsamekey
    rw [hpriors] at hfree
    rw [houtcomes]
    exact hchained.ordered other hother hfree first hfirst hsamekey
  · intro other
    by_cases hother : other = call
    · obtain ⟨hstarted, hdone, hsettled, hunlinked, -, -⟩ := hchained.sound call
      rw [hother, Function.update_self]
      exact ⟨hstarted, hdone, hsettled, hunlinked, fun _ => hended, fun _ => rfl⟩
    · rw [Function.update_of_ne hother]
      exact hchained.sound other

end Chained

structure Orderly (keys : List Key) (entries : Key → Option Nat) (views : Nat → View Outcome)
    (trace : List (Event Outcome)) : Prop where
  chained : Chained keys entries views
  recorded : Recorded keys views trace

namespace Orderly

theorem empty : Orderly ([] : List Key) (fun _ => none) (fun _ => ({} : View Outcome)) [] where
  chained := by
    refine ⟨fun _ _ => rfl, nofun, nofun, nofun, fun _ _ => iff_of_false nofun nofun, nofun, ?_⟩
    exact fun _ => ⟨nofun, fun hended => absurd rfl hended, nofun, nofun, nofun, nofun⟩
  recorded := by
    refine ⟨fun _ => iff_of_false nofun nofun, fun _ _ => iff_of_false nofun nofun, ?_, trivial⟩
    exact fun _ _ => iff_of_false nofun fun hboth => nomatch hboth.1

section

variable (horderly : Orderly keys entries views trace)
include horderly

theorem enter [DecidableEq Key] {key : Key}
    (hended : ∀ first : Nat, keys[first]? = some key → (views first).outcome ≠ none) :
    Orderly (keys ++ [key]) (Function.update entries key (some keys.length)) views trace where
  chained := by
    have hnew := horderly.chained.fresh keys.length (Nat.le_refl _)
    apply horderly.chained.grow (fun _ _ => rfl) (fun _ => rfl) (fun _ => rfl) (fun _ => rfl)
    · exact fun call hcall => horderly.chained.fresh call (by omega)
    · exact horderly.chained.linked
    · exact horderly.chained.sound
    · intro first hprior
      rw [hnew] at hprior
      cases hprior
    · exact fun _ => hended
  recorded := horderly.recorded.snoc key

theorem ended_of_settled {key : Key} {last : Nat} (hentry : entries key = some last)
    (hsettled : (views last).settled = true) :
    ∀ first : Nat, keys[first]? = some key → (views first).outcome ≠ none := by
  intro first hfirst
  obtain ⟨hkey, -, hnewest⟩ := horderly.chained.latest key last hentry
  have hsound := horderly.chained.sound last
  have hended := hsound.settled hsettled
  apply (Nat.lt_or_eq_of_le (hnewest first hfirst)).elim
  · intro hlt
    have hlast : last < keys.length := (List.getElem?_eq_some_iff.mp hkey).1
    exact horderly.chained.ordered last hlast (hsound.started (hsound.ended hended)) first hlt
      (hfirst.trans hkey.symm)
  · intro heq
    rwa [heq]

theorem enter_behind [DecidableEq Key] {key : Key} {first : Nat}
    (hentry : entries key = some first) (hopen : (views first).settled = false) :
    Orderly (keys ++ [key]) (Function.update entries key (some keys.length))
      (Function.update
        (Function.update views first { views first with link := some keys.length })
        keys.length { prior := some first }) trace where
  chained := by
    have hlt := horderly.chained.lt_of_latest hentry
    apply horderly.chained.grow_behind hentry hopen
    · rw [Function.update_of_ne (by omega), Function.update_self]
    · rw [Function.update_self]
    · intro other hne hnew
      rw [Function.update_of_ne hnew, Function.update_of_ne hne]
  recorded := by
    have hnew := horderly.chained.fresh keys.length (Nat.le_refl _)
    apply (horderly.recorded.snoc key).congr
    · exact update_update_same View.started rfl (by rw [hnew])
    · exact update_update_same View.outcome rfl (by rw [hnew])
    · exact update_update_same View.told rfl (by rw [hnew])

end

section Stages

variable {call : Nat} {view : View Outcome}

variable (horderly : Orderly keys entries views trace)
include horderly

section

variable (hview : views call = view)
include hview

theorem start (hlt : call < keys.length) (hprior : view.prior = none)
    (hnew : view.started = false) :
    Orderly keys entries (Function.update views call { view with started := true })
      (.started call :: trace) := by
  obtain rfl := hview
  constructor
  · obtain ⟨-, -, hsettled, hunlinked, hcleaned, htold⟩ := horderly.chained.sound call
    apply horderly.chained.advance hlt
    · exact ⟨fun _ => hprior, fun _ => rfl, hsettled, hunlinked, hcleaned, htold⟩
    · rfl
    · rfl
    · rfl
    · exact .inl rfl
    · exact id
  · exact horderly.recorded.start hlt hnew (horderly.chained.ordered call hlt hprior)

theorem finish (outcome : Outcome) (hstarted : view.started = true) (hnone : view.outcome = none) :
    Orderly keys entries (Function.update views call { view with outcome := some outcome })
      (.finished call outcome :: trace) := by
  obtain rfl := hview
  obtain ⟨hfree, -, -, hunlinked, hcleaned, htold⟩ := horderly.chained.sound call
  constructor
  · apply horderly.chained.advance (horderly.chained.lt_of_started hstarted)
    · exact ⟨hfree, fun _ => hstarted, fun _ => Option.some_ne_none _, hunlinked,
        fun _ => Option.some_ne_none _, htold⟩
    · rfl
    · rfl
    · rfl
    · exact .inl rfl
    · exact fun _ => Option.some_ne_none _
  · apply horderly.recorded.finish outcome hstarted hnone
    rw [← Bool.not_eq_true]
    exact fun hdone => hcleaned (htold hdone) hnone

theorem fail (hlt : call < keys.length) (hprior : view.prior = none) (hnew : view.started = false)
    (hnone : view.outcome = none) (outcome : Outcome) : Orderly keys entries
      (Function.update views call { view with started := true, outcome := some outcome })
      (.finished call outcome :: .started call :: trace) := by
  have hstarted := horderly.start hview hlt hprior hnew
  have hfinished := hstarted.finish (Function.update_self _ _ _) outcome rfl hnone
  rwa [Function.update_idem] at hfinished

theorem settle (hended : view.outcome ≠ none) (hunlinked : view.link = none) :
    Orderly keys entries (Function.update views call { view with settled := true }) trace := by
  obtain rfl := hview
  constructor
  · obtain ⟨hfree, hstarted, -, -, hcleaned, htold⟩ := horderly.chained.sound call
    apply horderly.chained.advance (horderly.chained.lt_of_started (hstarted hended))
    · exact ⟨hfree, hstarted, fun _ => hended, fun _ => hunlinked, hcleaned, htold⟩
    · rfl
    · rfl
    · rfl
    · exact .inr hunlinked
    · exact id
  · exact horderly.recorded.congr (update_same View.started rfl)
      (update_same View.outcome rfl) (update_same View.told rfl)

end

theorem release {first : Nat} {earlier : View Outcome} (hfirst : views first = earlier)
    (hview : views call = view) (hlinked : earlier.link = some call)
    (hended : earlier.outcome ≠ none) : Orderly keys entries (Function.update
        (Function.update views first { earlier with settled := true, link := none }) call
        { view with prior := none }) trace := by
  obtain rfl := hfirst
  obtain rfl := hview
  constructor
  · apply horderly.chained.release hlinked hended
    · rw [Function.update_of_ne (horderly.chained.ne_of_linked hlinked), Function.update_self]
    · rw [Function.update_self]
    · intro other hne hne'
      rw [Function.update_of_ne hne', Function.update_of_ne hne]
  · exact horderly.recorded.congr (update_update_same View.started rfl rfl)
      (update_update_same View.outcome rfl rfl) (update_update_same View.told rfl rfl)

theorem clean [DecidableEq Key] (hview : views call = view) {key : Key}
    (hkey : keys[call]? = some key) (hended : view.outcome ≠ none) : Orderly keys
      (if entries key = some call then Function.update entries key none else entries)
      (Function.update views call { view with cleaned := true }) trace := by
  obtain rfl := hview
  constructor
  · exact horderly.chained.clean hkey hended
  · exact horderly.recorded.congr (update_same View.started rfl)
      (update_same View.outcome rfl) (update_same View.told rfl)

theorem tell (hview : views call = view) {outcome : Outcome}
    (houtcome : view.outcome = some outcome) (hcleaned : view.cleaned = true)
    (hnew : view.told = false) :
    Orderly keys entries (Function.update views call { view with told := true })
      (.received call outcome :: trace) := by
  obtain rfl := hview
  constructor
  · obtain ⟨hfree, hstarted, hsettled, hunlinked, hended, -⟩ := horderly.chained.sound call
    apply horderly.chained.advance (horderly.chained.lt_of_started (hstarted (hended hcleaned)))
    · exact ⟨hfree, hstarted, hsettled, hunlinked, hended, fun _ => hcleaned⟩
    · rfl
    · rfl
    · rfl
    · exact .inl rfl
    · exact id
  · exact horderly.recorded.tell houtcome hnew

end Stages

end Orderly

end LockChain
