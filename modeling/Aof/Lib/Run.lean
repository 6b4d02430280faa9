import Mathlib.Data.List.Induction

/-!
# Guarded runs of a partial step function

A run records the labels of its steps, oldest first.  Every step is taken inside a guard, so that
one notion serves both the unrestricted runs and the runs that stay clear of a named defect.
-/

namespace StepSystem

universe u v

variable {State : Type u} {Label : Type v}
variable {step : State → Label → Option State} {ok : State → Label → Prop}

/-- `Run step ok s ls t`: the labels `ls` lead from `s` to `t`, each step allowed by `ok`. -/
inductive Run (step : State → Label → Option State) (ok : State → Label → Prop) :
    State → List Label → State → Prop
  | refl (s : State) : Run step ok s [] s
  | snoc {s t u : State} {ls : List Label} {l : Label} :
      Run step ok s ls t → ok t l → step t l = some u → Run step ok s (ls ++ [l]) u

abbrev FreeRun (step : State → Label → Option State) : State → List Label → State → Prop :=
  Run step (fun _ _ => True)

def exec (step : State → Label → Option State) (s : State) (ls : List Label) : Option State :=
  ls.foldlM step s

@[simp]
theorem exec_nil (s : State) : exec step s [] = some s := rfl

@[simp]
theorem exec_cons (s : State) (l : Label) (ls : List Label) :
    exec step s (l :: ls) = (step s l).bind fun t => exec step t ls := rfl

theorem exec_append (s : State) (ls ms : List Label) :
    exec step s (ls ++ ms) = (exec step s ls).bind fun t => exec step t ms := by
  simp [exec]

theorem exec_snoc (s : State) (ls : List Label) (l : Label) :
    exec step s (ls ++ [l]) = (exec step s ls).bind fun t => step t l := by
  rw [exec_append]
  congr 1
  funext t
  simp

/-- A run is mapped to a run if each of its steps is mapped to a step. -/
theorem exec_map {State' : Type*} {Label' : Type*} {step' : State' → Label' → Option State'}
    {f : State → State'} {g : Label' → Label}
    (hstep : ∀ s l, (step s (g l)).map f = step' (f s) l) (s : State) (ls : List Label') :
    (exec step s (ls.map g)).map f = exec step' (f s) ls := by
  induction ls generalizing s with
  | nil => rfl
  | cons l ls ih =>
      rw [List.map_cons, exec_cons, exec_cons, ← hstep]
      cases step s (g l) with
      | none => rfl
      | some t => exact ih t

variable {s t u : State} {ls ms : List Label} {l : Label}

theorem Run.invariant (Inv : State → Prop)
    (hstep : ∀ s l t, Inv s → ok s l → step s l = some t → Inv t) (hrun : Run step ok s ls t)
    (hinit : Inv s) : Inv t := by
  induction hrun with
  | refl => exact hinit
  | snoc _ hok hlast ih => exact hstep _ _ _ ih hok hlast

theorem Run.invariant_trace (Inv : List Label → State → Prop)
    (hstep : ∀ ls s l t, Inv ls s → ok s l → step s l = some t → Inv (ls ++ [l]) t)
    (hrun : Run step ok s ls t) (hinit : Inv [] s) : Inv ls t := by
  induction hrun with
  | refl => exact hinit
  | snoc _ hok hlast ih => exact hstep _ _ _ _ ih hok hlast

theorem Run.mono {ok' : State → Label → Prop} (hok : ∀ s l, ok s l → ok' s l)
    (hrun : Run step ok s ls t) : Run step ok' s ls t := by
  induction hrun with
  | refl => exact .refl _
  | snoc _ hguard hlast ih => exact .snoc ih (hok _ _ hguard) hlast

theorem Run.restrict {allowed : Label → Prop} (hrun : Run step ok s ls t)
    (hall : ∀ l ∈ ls, allowed l) :
    Run step (fun s l => ok s l ∧ allowed l) s ls t := by
  induction hrun with
  | refl => exact .refl _
  | snoc _ hguard hlast ih =>
      rw [List.forall_mem_append, List.forall_mem_singleton] at hall
      exact .snoc (ih hall.1) ⟨hguard, hall.2⟩ hlast

theorem Run.free (hrun : Run step ok s ls t) : FreeRun step s ls t :=
  hrun.mono fun _ _ _ => trivial

theorem Run.exec_eq (hrun : Run step ok s ls t) : exec step s ls = some t := by
  induction hrun with
  | refl => rfl
  | snoc _ _ hlast ih => rw [exec_snoc, ih, Option.bind_some, hlast]

theorem freeRun_iff_exec : FreeRun step s ls t ↔ exec step s ls = some t := by
  constructor
  · exact Run.exec_eq
  · intro hexec
    induction ls using List.reverseRecOn generalizing t with
    | nil =>
        obtain rfl : s = t := by simpa using hexec
        exact .refl s
    | append_singleton ls l ih =>
        rw [exec_snoc, Option.bind_eq_some_iff] at hexec
        obtain ⟨u, hprefix, hlast⟩ := hexec
        exact .snoc (ih hprefix) trivial hlast

def checked (step : State → Label → Option State) (test : State → Label → Bool) (s : State)
    (l : Label) : Option State :=
  if test s l then step s l else none

/-- A run can be executed, if the guard is tested on the way; the test may assume what every step
preserves. -/
theorem Run.of_exec_of_invariant {test : State → Label → Bool} (Inv : State → Prop)
    (hstep : ∀ s l t, Inv s → step s l = some t → Inv t)
    (htest : ∀ s l, Inv s → test s l = true → ok s l) (hinit : Inv s)
    (hexec : exec (checked step test) s ls = some t) :
    Run step ok s ls t ∧ Inv t := by
  induction ls using List.reverseRecOn generalizing t with
  | nil =>
      obtain rfl : s = t := by simpa using hexec
      exact ⟨.refl s, hinit⟩
  | append_singleton ls l ih =>
      rw [exec_snoc, Option.bind_eq_some_iff] at hexec
      obtain ⟨u, hprefix, hlast⟩ := hexec
      rw [checked, Option.ite_none_right_eq_some] at hlast
      obtain ⟨hrun, hu⟩ := ih hprefix
      exact ⟨.snoc hrun (htest u l hu hlast.1) hlast.2, hstep u l t hu hlast.2⟩

theorem Run.of_exec {test : State → Label → Bool} (htest : ∀ s l, test s l = true → ok s l)
    {s t : State} {ls : List Label} (hexec : exec (checked step test) s ls = some t) :
    Run step ok s ls t :=
  (Run.of_exec_of_invariant (fun _ => True) (fun _ _ _ _ _ => trivial)
    (fun s l _ h => htest s l h) trivial hexec).1

theorem Run.head (hok : ok s l) (hfirst : step s l = some t) (hrun : Run step ok t ls u) :
    Run step ok s (l :: ls) u := by
  induction hrun with
  | refl => exact .snoc (.refl s) hok hfirst
  | snoc _ hguard hlast ih => exact .snoc ih hguard hlast

theorem Run.unsnoc (hrun : Run step ok s (ls ++ [l]) u) :
    ∃ t, Run step ok s ls t ∧ ok t l ∧ step t l = some u := by
  generalize hall : ls ++ [l] = all at hrun
  cases hrun with
  | refl => simp at hall
  | snoc hprefix hguard hlast =>
      obtain ⟨rfl, hl⟩ := List.append_inj' hall rfl
      obtain rfl : l = _ := by simpa using hl
      exact ⟨_, hprefix, hguard, hlast⟩

theorem Run.split (hrun : Run step ok s (ls ++ ms) t) :
    ∃ u, Run step ok s ls u ∧ Run step ok u ms t := by
  induction ms using List.reverseRecOn generalizing t with
  | nil => exact ⟨t, by simpa using hrun, .refl t⟩
  | append_singleton ms l ih =>
      rw [← List.append_assoc] at hrun
      obtain ⟨t', hprefix, hguard, hlast⟩ := hrun.unsnoc
      obtain ⟨u, hleft, hright⟩ := ih hprefix
      exact ⟨u, hleft, .snoc hright hguard hlast⟩

theorem Run.step_at (hrun : Run step ok s (ls ++ l :: ms) u) :
    ∃ t t', Run step ok s ls t ∧ ok t l ∧ step t l = some t' := by
  have hall : ls ++ l :: ms = (ls ++ [l]) ++ ms := by simp
  obtain ⟨t', hleft, -⟩ := (hall ▸ hrun).split
  obtain ⟨t, hprefix, hguard, hlast⟩ := hleft.unsnoc
  exact ⟨t, t', hprefix, hguard, hlast⟩

/-- If a step keeps an invariant just when its guard holds, the guarded runs are the runs that keep
the invariant. -/
theorem run_iff_invariant {Inv : State → Prop}
    (hstep : ∀ s l t, Inv s → step s l = some t → (Inv t ↔ ok s l)) (hinit : Inv s) :
    Run step ok s ls t ↔ FreeRun step s ls t ∧
      ∀ before after u, ls = before ++ after → FreeRun step s before u → Inv u := by
  have hguarded : ∀ s l t, Inv s → ok s l → step s l = some t → Inv t :=
    fun s l t hs hok hlast => (hstep s l t hs hlast).mpr hok
  constructor
  · intro hrun
    refine ⟨hrun.free, ?_⟩
    rintro before after u rfl hbefore
    obtain ⟨u', hprefix, -⟩ := hrun.split
    obtain rfl : u = u' := Option.some.inj (hbefore.exec_eq.symm.trans hprefix.free.exec_eq)
    exact hprefix.invariant Inv hguarded hinit
  · rintro ⟨hfree, hall⟩
    induction hfree with
    | refl => exact .refl _
    | @snoc middle last ls l hprefix _ hlast ih =>
        have hrun := ih fun before after u hls => hall before (after ++ [l]) u (by simp [hls])
        refine .snoc hrun ?_ hlast
        apply (hstep middle l last _ hlast).mp
        · exact hall (ls ++ [l]) [] last (by simp) (.snoc hprefix trivial hlast)
        · exact hrun.invariant Inv hguarded hinit

end StepSystem
