import Aof.Proof.Evaluator
import Mathlib.Order.Bounds.Defs

/-!
# The skip cascade is a least closure

The hops that `cascadeSkips` turns from pending to skipped are the least set that is closed under
the rule of the cascade, each is recorded once, and the order of the dependents does not matter.
-/

namespace Aof

variable {definition : WorkflowDefinition} {index : Dict String (List String)}
variable {source timestamp : String}

/-- The sets that the cascade from `source` cannot leave. -/
def ClosedUnderSkips (definition : WorkflowDefinition) (statuses : Statuses) (source : String)
    (s : Set String) : Prop :=
  ∀ hop ∈ definition.hops, statuses hop.id = some .pending →
    (∃ dep ∈ hop.dependsOn, dep = source ∨ dep ∈ s) →
    (∀ dep ∈ hop.dependsOn, IsNonSuccess (statuses dep) ∨ dep ∈ s) → hop.id ∈ s

def turnedSkipped (before after : Dict String HopState) : Set String :=
  {id | statusOf before id = some .pending ∧ statusOf after id = some .skipped}

theorem isLeast_falls (definition : WorkflowDefinition) (statuses : Statuses) (source : String) :
    IsLeast {s | ClosedUnderSkips definition statuses source s}
      {id | Falls definition statuses source id} := by
  constructor
  · intro hop hhop hpending hbehind hall
    obtain ⟨dep, hdep, htouch⟩ := hbehind
    refine .intro hhop hpending hdep (fun hne => htouch.resolve_left hne) ?_
    intro other hother hnot
    exact (hall other hother).resolve_left hnot
  · intro s hclosed id hfalls
    induction hfalls with
    | @intro hop dep hhop hpending hdep _ _ ihthrough ihall =>
        apply hclosed hop hhop hpending
        · exact ⟨dep, hdep, or_iff_not_imp_left.mpr ihthrough⟩
        · intro other hother
          exact or_iff_not_imp_left.mpr (ihall other hother)

variable {fuel : Nat} {start : String} {copy result : WorkingCopy}

theorem cascadeSkipsAux_invariant (hids : DistinctIds definition)
    (hindex : ListsDependents definition index) {P : WorkingCopy → Prop} {Q : String → Prop}
    (hskip : ∀ copy start hop hopState, P copy → Q start → hop ∈ definition.hops →
      start ∈ hop.dependsOn → copy.hops.get? hop.id = some hopState →
      hopState.status = .pending → Blocked hop (statusOf copy.hops) →
      P (copy.skip hop.id hopState timestamp "cascade") ∧ Q hop.id)
    (hcopy : P copy) (hstart : Q start) :
    P (cascadeSkipsAux definition index timestamp fuel start copy) := by
  induction fuel generalizing start copy with
  | zero => exact hcopy
  | succ fuel ih =>
      unfold cascadeSkipsAux
      apply List.foldlRecOn _ _ hcopy
      intro copy hcopy id hid
      unfold cascadeVisit
      split
      · rename_i hopState hop hget hfind
        split
        · rename_i hpending
          obtain ⟨other, hother, hsame, hdep⟩ := (hindex start id).mp hid
          obtain ⟨hhop, rfl⟩ := mem_of_findHop hfind
          obtain rfl := hids.eq_of_id_eq hother hhop hsame
          obtain ⟨hnext, hbehind⟩ :=
            hskip copy start other hopState hcopy hstart hhop hdep hget hpending.1 hpending.2
          exact ih hnext hbehind
        · exact hcopy
      · exact hcopy

def cascaded (hopId : String) : HopTransition :=
  { hopId, fromStatus := some .pending, toStatus := .skipped, reason := some "cascade" }

/-- The skips so far, seen from the copy that the cascade started with. -/
structure Closing (definition : WorkflowDefinition) (source timestamp : String)
    (before copy : WorkingCopy) : Prop where
  keys : copy.hops.keys = before.hops.keys
  each : ∀ id, copy.hops.get? id = before.hops.get? id ∨
    ∃ hopState, before.hops.get? id = some hopState ∧
      Falls definition (statusOf before.hops) source id ∧
      copy.hops.get? id =
        some { hopState with status := .skipped, completedAt := some timestamp }
  recorded : ∃ ids : List String, ids.Nodup ∧
    (∀ id, id ∈ ids ↔ statusOf copy.hops id ≠ statusOf before.hops id) ∧
    copy.changes = before.changes ++ ids.map cascaded

namespace Closing

variable {before copy : WorkingCopy}

theorem refl (before : WorkingCopy) : Closing definition source timestamp before before :=
  ⟨rfl, fun _ => .inl rfl, [], List.nodup_nil, by simp, by simp⟩

variable (hclosing : Closing definition source timestamp before copy)
include hclosing

variable {id : String} {hopState : HopState}

theorem falls_of_changed (hchanged : statusOf copy.hops id ≠ statusOf before.hops id) :
    Falls definition (statusOf before.hops) source id := by
  rcases hclosing.each id with hsame | ⟨_, _, hfalls, _⟩
  · exact absurd (congrArg (Option.map HopState.status) hsame) hchanged
  · exact hfalls

theorem get?_of_pending (hget : copy.hops.get? id = some hopState)
    (hpending : hopState.status = .pending) :
    before.hops.get? id = some hopState := by
  rcases hclosing.each id with hsame | ⟨_, _, _, hskipped⟩
  · rw [← hsame, hget]
  · rw [hget] at hskipped
    obtain rfl := Option.some.inj hskipped
    cases hpending

theorem skip {start : String} {hop : Hop}
    (hstart : start = source ∨ Falls definition (statusOf before.hops) source start)
    (hhop : hop ∈ definition.hops) (hdep : start ∈ hop.dependsOn)
    (hget : copy.hops.get? hop.id = some hopState) (hpending : hopState.status = .pending)
    (hblocked : Blocked hop (statusOf copy.hops)) : Closing definition source timestamp before
        (copy.skip hop.id hopState timestamp "cascade") ∧
      Falls definition (statusOf before.hops) source hop.id := by
  have hbefore : before.hops.get? hop.id = some hopState := hclosing.get?_of_pending hget hpending
  have hstatus : statusOf before.hops hop.id = some .pending :=
    statusOf_eq_some_iff.mpr ⟨hopState, hbefore, hpending⟩
  have hfalls : Falls definition (statusOf before.hops) source hop.id := by
    refine .intro hhop hstatus hdep (fun hne => hstart.resolve_left hne) ?_
    intro other hother hnot
    apply hclosing.falls_of_changed
    intro hsame
    exact hnot (hsame ▸ hblocked other hother)
  refine ⟨⟨?_, ?_, ?_⟩, hfalls⟩
  · exact (Dict.keys_set_of_get? hget _).trans hclosing.keys
  · intro id
    by_cases hid : hop.id = id
    · subst hid
      exact .inr ⟨hopState, hbefore, hfalls, Dict.get?_set_self _ _ _⟩
    · have hother : (copy.skip hop.id hopState timestamp "cascade").hops.get? id =
          copy.hops.get? id := Dict.get?_set_of_ne _ _ hid
      rw [hother]
      exact hclosing.each id
  · obtain ⟨ids, hnodup, hmem, hchanges⟩ := hclosing.recorded
    have hfresh : hop.id ∉ ids := by
      rw [hmem, not_not]
      simp [statusOf, hget, hbefore]
    refine ⟨ids ++ [hop.id], ?_, ?_, ?_⟩
    · exact List.nodup_append'.mpr
        ⟨hnodup, List.nodup_singleton _, List.disjoint_singleton.mpr hfresh⟩
    · intro id
      rw [List.mem_append, List.mem_singleton, hmem]
      by_cases hid : hop.id = id
      · subst hid
        have hskipped : statusOf (copy.skip hop.id hopState timestamp "cascade").hops hop.id =
            some .skipped := statusOf_set_self _ _ _
        simp [hskipped, hstatus]
      · have hother : statusOf (copy.skip hop.id hopState timestamp "cascade").hops id =
            statusOf copy.hops id := statusOf_set_of_ne _ _ hid
        simp [hother, Ne.symm hid]
    · rw [List.map_append, ← List.append_assoc, ← hchanges]
      rfl

end Closing

theorem closing_cascadeSkips (hids : DistinctIds definition)
    (hindex : ListsDependents definition index) (copy : WorkingCopy) :
    Closing definition source timestamp copy
      (cascadeSkips definition copy index source timestamp) := by
  apply cascadeSkipsAux_invariant hids hindex (P := Closing definition source timestamp copy)
    (Q := fun start => start = source ∨ Falls definition (statusOf copy.hops) source start)
  · intro current start hop hopState hclosing hstart hhop hdep hget hpending hblocked
    obtain ⟨hnext, hfalls⟩ := hclosing.skip hstart hhop hdep hget hpending hblocked
    exact ⟨hnext, .inr hfalls⟩
  · exact .refl copy
  · exact .inl rfl

theorem cascadeVisit_congr {recurse recurse' : String → WorkingCopy → WorkingCopy} {hopId : String}
    (hrecurse : ∀ id next, pendingCount definition next.hops < fuel →
      recurse' id next = recurse id next) (hfuel : pendingCount definition copy.hops < fuel + 1) :
    cascadeVisit definition timestamp recurse' copy hopId =
      cascadeVisit definition timestamp recurse copy hopId := by
  unfold cascadeVisit
  split
  · rename_i hopState hop hget hfind
    split
    · rename_i hpending
      obtain ⟨hhop, rfl⟩ := mem_of_findHop hfind
      have hcount := pendingCount_skip_lt timestamp "cascade" hhop hget hpending.1
      apply hrecurse
      omega
    · rfl
  · rfl

theorem cascadeSkipsAux_eq_of_le {more : Nat} (hfuel : pendingCount definition copy.hops < fuel)
    (hle : fuel ≤ more) : cascadeSkipsAux definition index timestamp more start copy =
      cascadeSkipsAux definition index timestamp fuel start copy := by
  induction fuel generalizing more start copy with
  | zero => omega
  | succ fuel ih =>
      obtain ⟨more, rfl⟩ : ∃ rest, more = rest + 1 := ⟨more - 1, by omega⟩
      unfold cascadeSkipsAux
      generalize (index.get? start).getD [] = downstream
      induction downstream generalizing copy with
      | nil => rfl
      | cons hopId rest ihrest =>
          have hvisit : cascadeVisit definition timestamp
              (cascadeSkipsAux definition index timestamp more) copy hopId =
                cascadeVisit definition timestamp
                  (cascadeSkipsAux definition index timestamp fuel) copy hopId := by
            apply cascadeVisit_congr (fun id next hnext => ?_) hfuel
            exact ih hnext (by omega)
          have hskips : SkipsOnly copy.hops (cascadeVisit definition timestamp
              (cascadeSkipsAux definition index timestamp fuel) copy hopId).hops :=
            cascadeVisit_skips (cascadeSkipsAux_skips index fuel) copy hopId
          have hcount := pendingCount_le_of_skips definition hskips
          rw [List.foldl_cons, List.foldl_cons, hvisit]
          apply ihrest
          omega

theorem turnedSkipped_cascadeSkips (hids : DistinctIds definition)
    (hindex : ListsDependents definition index) (copy : WorkingCopy) :
    turnedSkipped copy.hops (cascadeSkips definition copy index source timestamp).hops =
      {id | Falls definition (statusOf copy.hops) source id} := by
  obtain ⟨hcascade, hsettled⟩ := cascadeSkips_spec hids hindex copy source timestamp
  have hclosing : Closing definition source timestamp copy _ :=
    closing_cascadeSkips hids hindex copy
  ext id
  constructor
  · intro hturned
    apply hclosing.falls_of_changed
    rw [hturned.1, hturned.2]
    decide
  · intro hfalls
    exact ⟨hfalls.pending, hcascade.skipped_of_falls hsettled hfalls⟩

theorem Closing.mem_turnedSkipped (hclosing : Closing definition source timestamp copy result)
    (hturned : turnedSkipped copy.hops result.hops =
      {id | Falls definition (statusOf copy.hops) source id}) {id : String} :
    id ∈ turnedSkipped copy.hops result.hops ↔ statusOf result.hops id ≠ statusOf copy.hops id := by
  constructor
  · intro hid
    rw [hid.1, hid.2]
    decide
  · intro hchanged
    rw [hturned]
    exact hclosing.falls_of_changed hchanged

theorem Closing.agree {copy result other : WorkingCopy}
    (hresult : Closing definition source timestamp copy result)
    (hother : Closing definition source timestamp copy other)
    (hsame : ∀ id, statusOf result.hops id ≠ statusOf copy.hops id ↔
      statusOf other.hops id ≠ statusOf copy.hops id) :
    other.hops = result.hops ∧ other.changes.Perm result.changes := by
  constructor
  · apply Dict.eq_of_get? (hother.keys.trans hresult.keys.symm)
    intro id
    have hstatus : ∀ {next : WorkingCopy}, next.hops.get? id = copy.hops.get? id →
        statusOf next.hops id = statusOf copy.hops id :=
      fun hget => congrArg (Option.map HopState.status) hget
    have hskipped : ∀ {next : WorkingCopy} {hopState : HopState},
        Falls definition (statusOf copy.hops) source id →
        next.hops.get? id =
          some { hopState with status := .skipped, completedAt := some timestamp } →
        statusOf next.hops id ≠ statusOf copy.hops id := by
      intro next hopState hfalls hget
      rw [hfalls.pending, statusOf_eq_some_iff.mpr ⟨_, hget, rfl⟩]
      simp
    rcases hresult.each id with hget | ⟨hopState, hcopy, hfalls, hget⟩ <;>
      rcases hother.each id with hget' | ⟨hopState', hcopy', hfalls', hget'⟩
    · rw [hget, hget']
    · exact absurd (hstatus hget) ((hsame id).mpr (hskipped hfalls' hget'))
    · exact absurd (hstatus hget') ((hsame id).mp (hskipped hfalls hget))
    · obtain rfl := Option.some.inj (hcopy.symm.trans hcopy')
      rw [hget, hget']
  · obtain ⟨ids, hnodup, hmem, hchanges⟩ := hresult.recorded
    obtain ⟨ids', hnodup', hmem', hchanges'⟩ := hother.recorded
    rw [hchanges, hchanges']
    apply List.Perm.append_left
    apply List.Perm.map
    apply (List.perm_ext_iff_of_nodup hnodup' hnodup).mpr
    intro id
    rw [hmem, hmem', hsame]

/-- In a definition whose ids are distinct, the hops that `cascadeSkips` skips are the least set
closed under its rule, whatever fuel more it is given; each of them is recorded once, nothing else
changes, and the order in which the dependents are listed does not matter. -/
theorem cascadeSkips_least (hids : DistinctIds definition) (copy : WorkingCopy)
    (start timestamp : String) :
    let result := cascadeSkips definition copy (buildDownstreamIndex definition) start timestamp
    IsLeast {s | ClosedUnderSkips definition (statusOf copy.hops) start s}
      (turnedSkipped copy.hops result.hops) ∧
    (∃ ids : List String, ids.Nodup ∧
      (∀ id, id ∈ ids ↔ id ∈ turnedSkipped copy.hops result.hops) ∧
      result.changes = copy.changes ++ ids.map cascaded) ∧
    (∀ id, id ∉ turnedSkipped copy.hops result.hops →
      result.hops.get? id = copy.hops.get? id) ∧
    (∀ fuel, definition.hops.length < fuel →
      cascadeSkipsAux definition (buildDownstreamIndex definition) timestamp fuel start copy =
        result) ∧
    ∀ index, ListsDependents definition index →
      let other := cascadeSkips definition copy index start timestamp
      other.hops = result.hops ∧ other.changes.Perm result.changes := by
  have hbuilt : ListsDependents definition (buildDownstreamIndex definition) :=
    listsDependents_buildDownstreamIndex
  have hturned : turnedSkipped copy.hops
      (cascadeSkips definition copy (buildDownstreamIndex definition) start timestamp).hops = _ :=
    turnedSkipped_cascadeSkips hids hbuilt copy
  have hclosing : Closing definition start timestamp copy
      (cascadeSkips definition copy (buildDownstreamIndex definition) start timestamp) :=
    closing_cascadeSkips hids hbuilt copy
  refine ⟨?_, ?_, ?_, ?_, ?_⟩
  · rw [hturned]
    exact isLeast_falls definition (statusOf copy.hops) start
  · obtain ⟨ids, hnodup, hmem, hchanges⟩ := hclosing.recorded
    refine ⟨ids, hnodup, ?_, hchanges⟩
    intro id
    exact (hmem id).trans (hclosing.mem_turnedSkipped hturned).symm
  · intro id hid
    rcases hclosing.each id with hsame | ⟨_, _, hfalls, _⟩
    · exact hsame
    · rw [hturned] at hid
      exact absurd hfalls hid
  · intro fuel hfuel
    apply cascadeSkipsAux_eq_of_le
    · exact Nat.lt_succ_of_le List.countP_le_length
    · omega
  · intro index hindex
    have hother : Closing definition start timestamp copy _ :=
      closing_cascadeSkips hids hindex copy
    apply hclosing.agree hother
    intro id
    rw [← hclosing.mem_turnedSkipped hturned,
      ← hother.mem_turnedSkipped (turnedSkipped_cascadeSkips hids hindex copy),
      hturned, turnedSkipped_cascadeSkips hids hindex copy]

def diamond : WorkflowDefinition :=
  { name := "diamond"
    hops := [{ id := "plan", role := "lead" },
      { id := "front", role := "swe", dependsOn := ["plan"] },
      { id := "back", role := "swe", dependsOn := ["plan"] },
      { id := "join", role := "qa", dependsOn := ["front", "back"] }] }

def planFailed : WorkingCopy :=
  { hops := (initializeWorkflowState diamond).hops.set "plan" { status := .failed }
    changes := [] }

/-- The dependent of both branches is first seen while one of them is still pending. -/
theorem cascadeSkips_least_diamond :
    let result := cascadeSkips diamond planFailed (buildDownstreamIndex diamond) "plan" "t"
    IsLeast {s | ClosedUnderSkips diamond (statusOf planFailed.hops) "plan" s}
        (turnedSkipped planFailed.hops result.hops) ∧
      result.changes = ["front", "back", "join"].map cascaded := by
  have hids : DistinctIds diamond := by decide
  exact ⟨(cascadeSkips_least hids planFailed "plan" "t").1, by decide +kernel⟩

end Aof
