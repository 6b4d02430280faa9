import Aof.Dispatch.DagEvaluator
import Aof.Proof.Accepted

/-!
# The skip cascade

What `cascadeSkips` does, free of the order in which it visits the hops: it only turns pending
hops into skipped ones, it skips a hop only when all its predecessors failed or were skipped, and
it leaves no such hop pending behind the ones it touched.
-/

namespace Aof

variable {id : String} {definition : WorkflowDefinition} {index : Dict String (List String)}

theorem statusOf_eq_some_iff {hops : Dict String HopState} {status : HopStatus} :
    statusOf hops id = some status ↔
      ∃ hopState, hops.get? id = some hopState ∧ hopState.status = status := by
  simp [statusOf]

theorem statusOf_set (hops : Dict String HopState) (id other : String) (hopState : HopState) :
    statusOf (hops.set id hopState) other =
      if id = other then some hopState.status else statusOf hops other := by
  unfold statusOf
  rw [Dict.get?_set]
  split <;> rfl

@[simp]
theorem statusOf_set_self (hops : Dict String HopState) (id : String) (hopState : HopState) :
    statusOf (hops.set id hopState) id = some hopState.status := by
  simp [statusOf_set]

theorem statusOf_set_of_ne (hops : Dict String HopState) {other : String} (hopState : HopState)
    (hne : id ≠ other) : statusOf (hops.set id hopState) other = statusOf hops other := by
  simp [statusOf_set, hne]

/-- Every hop is as before, or was pending and is now skipped. -/
structure SkipsOnly (before after : Dict String HopState) : Prop where
  keys : after.keys = before.keys
  each : ∀ id, after.get? id = before.get? id ∨
    ∃ hopState timestamp, before.get? id = some hopState ∧ hopState.status = .pending ∧
      after.get? id =
        some { hopState with status := .skipped, completedAt := some timestamp }

namespace SkipsOnly

variable {before middle after : Dict String HopState}

theorem refl (hops : Dict String HopState) : SkipsOnly hops hops := ⟨rfl, fun _ => .inl rfl⟩

theorem trans (hfirst : SkipsOnly before middle) (hsecond : SkipsOnly middle after) :
    SkipsOnly before after := by
  refine ⟨hsecond.keys.trans hfirst.keys, fun id => ?_⟩
  rcases hsecond.each id with hsame | ⟨hopState, timestamp, hmiddle, hpending, hafter⟩
  · rw [hsame]
    exact hfirst.each id
  · rcases hfirst.each id with hsame | ⟨earlier, _, _, _, hskipped⟩
    · exact .inr ⟨hopState, timestamp, hsame ▸ hmiddle, hpending, hafter⟩
    · rw [hskipped] at hmiddle
      cases hmiddle
      cases hpending

theorem skip {copy : WorkingCopy} {hopId timestamp reason : String} {hopState : HopState}
    (hget : copy.hops.get? hopId = some hopState) (hpending : hopState.status = .pending) :
    SkipsOnly copy.hops (copy.skip hopId hopState timestamp reason).hops := by
  refine ⟨Dict.keys_set_of_get? hget _, fun id => ?_⟩
  by_cases heq : hopId = id
  · subst heq
    exact .inr ⟨hopState, timestamp, hget, hpending, Dict.get?_set_self _ _ _⟩
  · exact .inl (Dict.get?_set_of_ne _ _ heq)

variable (hskips : SkipsOnly before after)
include hskips

theorem statusOf (id : String) : statusOf after id = statusOf before id ∨
      statusOf before id = some .pending ∧ statusOf after id = some .skipped := by
  unfold Aof.statusOf
  rcases hskips.each id with hsame | ⟨hopState, timestamp, hbefore, hpending, hafter⟩
  · exact .inl (by rw [hsame])
  · exact .inr (by simp [hbefore, hafter, hpending])

theorem pending_of_pending {id : String} (hpending : Aof.statusOf after id = some .pending) :
    Aof.statusOf before id = some .pending := by
  rcases hskips.statusOf id with hsame | ⟨hbefore, -⟩
  · rw [← hsame, hpending]
  · exact hbefore

theorem nonSuccess {id : String} (hnon : IsNonSuccess (Aof.statusOf before id)) :
    IsNonSuccess (Aof.statusOf after id) := by
  rcases hskips.statusOf id with hsame | ⟨-, hskipped⟩
  · rwa [hsame]
  · exact .inl hskipped

theorem changed_nonSuccess {id : String}
    (hchanged : Aof.statusOf after id ≠ Aof.statusOf before id) :
    Aof.statusOf before id = some .pending ∧ Aof.statusOf after id = some .skipped := by
  rcases hskips.statusOf id with hsame | hskipped
  · exact absurd hsame hchanged
  · exact hskipped

theorem frame {β : Type} (field : HopState → β)
    (hfield : ∀ hopState timestamp, field { hopState with status := .skipped, completedAt :=
      timestamp } = field hopState) (id : String) :
    (after.get? id).map field = (before.get? id).map field := by
  rcases hskips.each id with hsame | ⟨hopState, timestamp, hbefore, -, hafter⟩
  · rw [hsame]
  · simp [hbefore, hafter, hfield]

theorem eq_of_statusOf (hsame : Aof.statusOf after = Aof.statusOf before) : after = before := by
  refine Dict.eq_of_get? hskips.keys fun id => ?_
  rcases hskips.each id with hget | ⟨hopState, timestamp, hbefore, hpending, hafter⟩
  · exact hget
  · have hid := congrFun hsame id
    simp [Aof.statusOf, hbefore, hafter, hpending] at hid

end SkipsOnly

section DownstreamIndex

variable {definition : WorkflowDefinition}

variable {start other : String} {index : Dict String (List String)}

theorem mem_foldl_dependents {deps : List String} {hopId : String} : other ∈ ((deps.foldl
        (fun index dep => index.set dep ((index.get? dep).getD [] ++ [hopId])) index).get?
        start).getD [] ↔ other ∈ (index.get? start).getD [] ∨ start ∈ deps ∧ other = hopId := by
  induction deps generalizing index with
  | nil => simp
  | cons dep deps ih =>
      rw [List.foldl_cons, ih, Dict.get?_set]
      by_cases heq : dep = start
      · subst heq
        simp
        grind
      · simp [heq, Ne.symm heq]

theorem mem_foldl_downstream {hops : List Hop} : other ∈ ((hops.foldl
        (fun index hop => hop.dependsOn.foldl
          (fun index dep => index.set dep ((index.get? dep).getD [] ++ [hop.id]))
          (if index.has hop.id then index else index.set hop.id [])) index).get? start).getD [] ↔
      other ∈ (index.get? start).getD [] ∨
        ∃ hop ∈ hops, hop.id = other ∧ start ∈ hop.dependsOn := by
  induction hops generalizing index with
  | nil => simp
  | cons hop hops ih =>
      have hinit : ((if index.has hop.id then index else index.set hop.id []).get? start).getD [] =
          (index.get? start).getD [] := by
        split
        · rfl
        · rename_i hnew
          by_cases heq : hop.id = start
          · subst heq
            have hnone : index.get? hop.id = none := by simpa [Dict.has] using hnew
            simp [hnone]
          · rw [Dict.get?_set_of_ne _ _ heq]
      rw [List.foldl_cons, ih, mem_foldl_dependents, hinit]
      simp only [List.mem_cons, exists_eq_or_imp]
      grind

def ListsDependents (definition : WorkflowDefinition) (index : Dict String (List String)) : Prop :=
  ∀ start other, other ∈ (index.get? start).getD [] ↔
    ∃ hop ∈ definition.hops, hop.id = other ∧ start ∈ hop.dependsOn

theorem mem_buildDownstreamIndex : other ∈ ((buildDownstreamIndex definition).get? start).getD [] ↔
      ∃ hop ∈ definition.hops, hop.id = other ∧ start ∈ hop.dependsOn := by
  rw [buildDownstreamIndex, mem_foldl_downstream]
  simp

theorem listsDependents_buildDownstreamIndex :
    ListsDependents definition (buildDownstreamIndex definition) :=
  fun _ _ => mem_buildDownstreamIndex

end DownstreamIndex

def Settled (definition : WorkflowDefinition) (hops : Dict String HopState) (id : String) : Prop :=
  ∀ hop ∈ definition.hops, id ∈ hop.dependsOn → statusOf hops hop.id = some .pending →
    ¬Blocked hop (statusOf hops)

/-- The states that skips started at the hops of `source` can lead to. -/
structure Cascade (definition : WorkflowDefinition) (source : String → Prop)
    (before after : Dict String HopState) : Prop where
  skips : SkipsOnly before after
  blocked : ∀ id, statusOf after id ≠ statusOf before id →
    ∃ hop ∈ definition.hops, hop.id = id ∧ Blocked hop (statusOf after) ∧
      ∃ dep ∈ hop.dependsOn, source dep ∨ statusOf after dep ≠ statusOf before dep
  settled : ∀ id, statusOf after id ≠ statusOf before id → Settled definition after id

namespace Cascade

variable {definition : WorkflowDefinition} {source source' : String → Prop}
variable {before middle after : Dict String HopState}

theorem refl (definition : WorkflowDefinition) (source : String → Prop)
    (hops : Dict String HopState) : Cascade definition source hops hops :=
  ⟨.refl hops, fun _ h => absurd rfl h, fun _ h => absurd rfl h⟩

variable {hop : Hop}

theorem blocked_mono (hskips : SkipsOnly before after) (hblocked : Blocked hop (statusOf before)) :
    Blocked hop (statusOf after) := fun dep hdep => hskips.nonSuccess (hblocked dep hdep)

theorem not_blocked (hcascade : Cascade definition source before after)
    (hhop : hop ∈ definition.hops) (hpending : statusOf after hop.id = some .pending)
    (hnot : ¬Blocked hop (statusOf before)) : ¬Blocked hop (statusOf after) := by
  intro hblocked
  apply hnot
  intro dep hdep
  by_cases hsame : statusOf after dep = statusOf before dep
  · exact hsame ▸ hblocked dep hdep
  · exact absurd hblocked (hcascade.settled dep hsame hop hhop hdep hpending)

theorem settled_mono (hcascade : Cascade definition source before after) {id : String}
    (hsettled : Settled definition before id) : Settled definition after id :=
  fun hop hhop hdep hpending => hcascade.not_blocked hhop hpending
    (hsettled hop hhop hdep (hcascade.skips.pending_of_pending hpending))

theorem changed_trans (hfirst : SkipsOnly before middle) (hsecond : SkipsOnly middle after)
    (id : String) : statusOf after id ≠ statusOf before id ↔
      statusOf middle id ≠ statusOf before id ∨ statusOf after id ≠ statusOf middle id := by
  rcases hfirst.statusOf id with h | ⟨h, h'⟩ <;> rcases hsecond.statusOf id with k | ⟨k, k'⟩ <;>
    simp_all

theorem trans (hfirst : Cascade definition source before middle)
    (hsecond : Cascade definition source' middle after)
    (hsource : ∀ id, source' id → source id ∨ statusOf middle id ≠ statusOf before id) :
    Cascade definition source before after := by
  have hchanged := changed_trans hfirst.skips hsecond.skips
  refine ⟨hfirst.skips.trans hsecond.skips, ?_, ?_⟩
  · intro id hid
    rcases (hchanged id).1 hid with hid | hid
    · obtain ⟨hop, hhop, heq, hblocked, dep, hdep, htouch⟩ := hfirst.blocked id hid
      refine ⟨hop, hhop, heq, blocked_mono hsecond.skips hblocked, dep, hdep, ?_⟩
      exact htouch.imp_right fun h => (hchanged dep).2 (.inl h)
    · obtain ⟨hop, hhop, heq, hblocked, dep, hdep, htouch⟩ := hsecond.blocked id hid
      refine ⟨hop, hhop, heq, hblocked, dep, hdep, ?_⟩
      rcases htouch with htouch | htouch
      · exact (hsource dep htouch).imp_right fun h => (hchanged dep).2 (.inl h)
      · exact .inr ((hchanged dep).2 (.inr htouch))
  · intro id hid
    rcases (hchanged id).1 hid with hid | hid
    · exact hsecond.settled_mono (hfirst.settled id hid)
    · exact hsecond.settled id hid

theorem skip_trans {copy : WorkingCopy} {hopState : HopState} {timestamp reason : String}
    (hhop : hop ∈ definition.hops) (hget : copy.hops.get? hop.id = some hopState)
    (hpending : hopState.status = .pending) (hblocked : Blocked hop (statusOf copy.hops))
    {dep : String} (hdep : dep ∈ hop.dependsOn) (hsource : source dep)
    (hrest : Cascade definition (· = hop.id) (copy.skip hop.id hopState timestamp reason).hops
      after) (hsettled : Settled definition after hop.id) :
    Cascade definition source copy.hops after := by
  have hskip : SkipsOnly copy.hops (copy.skip hop.id hopState timestamp reason).hops :=
    .skip hget hpending
  have hskipped : statusOf (copy.skip hop.id hopState timestamp reason).hops hop.id =
      some .skipped := statusOf_set_self _ _ _
  have hbefore : statusOf copy.hops hop.id = some .pending :=
    statusOf_eq_some_iff.2 ⟨hopState, hget, hpending⟩
  have hother : ∀ id, id ≠ hop.id →
      statusOf (copy.skip hop.id hopState timestamp reason).hops id = statusOf copy.hops id :=
    fun id hne => statusOf_set_of_ne _ _ (Ne.symm hne)
  have hchanged := changed_trans hskip hrest.skips
  have hself : statusOf after hop.id ≠ statusOf copy.hops hop.id :=
    (hchanged hop.id).2 (.inl (by rw [hskipped, hbefore]; simp))
  refine ⟨hskip.trans hrest.skips, ?_, ?_⟩
  · intro id hid
    by_cases heq : id = hop.id
    · subst heq
      exact ⟨hop, hhop, rfl, blocked_mono (hskip.trans hrest.skips) hblocked, dep, hdep,
        .inl hsource⟩
    · rw [← hother id heq] at hid
      obtain ⟨other, hmem, hid', hblocked', dep', hdep', htouch⟩ := hrest.blocked id hid
      refine ⟨other, hmem, hid', hblocked', dep', hdep', .inr ?_⟩
      rcases htouch with rfl | htouch
      · exact hself
      · exact (hchanged dep').2 (.inr htouch)
  · intro id hid
    by_cases heq : id = hop.id
    · exact heq ▸ hsettled
    · rw [← hother id heq] at hid
      exact hrest.settled id hid

end Cascade

section Skips

variable {definition : WorkflowDefinition} {timestamp : String}

variable {recurse : String → WorkingCopy → WorkingCopy}

theorem cascadeVisit_skips
    (hrecurse : ∀ hopId copy, SkipsOnly copy.hops (recurse hopId copy).hops) (copy : WorkingCopy)
    (hopId : String) :
    SkipsOnly copy.hops (cascadeVisit definition timestamp recurse copy hopId).hops := by
  unfold cascadeVisit
  split
  · rename_i hopState hop hget hfind
    split
    · rename_i hskip
      exact (SkipsOnly.skip hget hskip.1).trans (hrecurse hopId _)
    · exact .refl _
  · exact .refl _

theorem foldl_cascadeVisit_skips
    (hrecurse : ∀ hopId copy, SkipsOnly copy.hops (recurse hopId copy).hops) (ids : List String)
    (copy : WorkingCopy) : SkipsOnly copy.hops
      (ids.foldl (cascadeVisit definition timestamp recurse) copy).hops := by
  induction ids generalizing copy with
  | nil => exact .refl _
  | cons id rest ih => exact (cascadeVisit_skips hrecurse copy id).trans (ih _)

theorem cascadeSkipsAux_skips (index : Dict String (List String)) (fuel : Nat) (start : String)
    (copy : WorkingCopy) : SkipsOnly copy.hops
      (cascadeSkipsAux definition index timestamp fuel start copy).hops := by
  induction fuel generalizing start copy with
  | zero => exact .refl _
  | succ fuel ih => exact foldl_cascadeVisit_skips ih _ copy

theorem cascadeSkips_skips (definition : WorkflowDefinition) (copy : WorkingCopy)
    (index : Dict String (List String)) (start timestamp : String) :
    SkipsOnly copy.hops (cascadeSkips definition copy index start timestamp).hops :=
  cascadeSkipsAux_skips index _ start copy

end Skips

def pendingCount (definition : WorkflowDefinition) (hops : Dict String HopState) : Nat :=
  definition.hops.countP fun hop => statusOf hops hop.id = some .pending

theorem pendingCount_le_of_skips (definition : WorkflowDefinition)
    {before after : Dict String HopState} (hskips : SkipsOnly before after) :
    pendingCount definition after ≤ pendingCount definition before :=
  List.countP_mono_left fun hop _ h => by
    simpa using hskips.pending_of_pending (by simpa using h)

theorem pendingCount_skip_lt {copy : WorkingCopy} {hop : Hop} {hopState : HopState}
    (timestamp reason : String) (hhop : hop ∈ definition.hops)
    (hget : copy.hops.get? hop.id = some hopState) (hpending : hopState.status = .pending) :
    pendingCount definition (copy.skip hop.id hopState timestamp reason).hops <
      pendingCount definition copy.hops := by
  have hskip : SkipsOnly copy.hops (copy.skip hop.id hopState timestamp reason).hops :=
    .skip hget hpending
  have hmono : ∀ hops : List Hop,
      hops.countP (fun other =>
        statusOf (copy.skip hop.id hopState timestamp reason).hops other.id = some .pending) ≤
      hops.countP fun other => statusOf copy.hops other.id = some .pending := fun hops =>
    List.countP_mono_left fun other _ h => by
      simpa using hskip.pending_of_pending (by simpa using h)
  have hbefore : statusOf copy.hops hop.id = some .pending :=
    statusOf_eq_some_iff.2 ⟨hopState, hget, hpending⟩
  have hafter : statusOf (copy.skip hop.id hopState timestamp reason).hops hop.id =
      some .skipped := statusOf_set_self _ _ _
  obtain ⟨front, back, hsplit⟩ := List.append_of_mem hhop
  have hfront := hmono front
  have hback := hmono back
  simp only [pendingCount, hsplit, List.countP_append, List.countP_cons, hbefore, hafter,
    decide_true, Option.some.injEq, reduceCtorEq, decide_false, Bool.false_eq_true, ↓reduceIte]
  omega

section Loop

variable {definition : WorkflowDefinition} {start : String} {fuel : Nat}

/-- What the recursive call has to satisfy on a copy with few enough pending hops. -/
def CascadesWithin (definition : WorkflowDefinition) (fuel : Nat)
    (recurse : String → WorkingCopy → WorkingCopy) : Prop :=
  ∀ hopId copy, pendingCount definition copy.hops < fuel →
    Cascade definition (· = hopId) copy.hops (recurse hopId copy).hops ∧
      Settled definition (recurse hopId copy).hops hopId

variable {recurse : String → WorkingCopy → WorkingCopy}

variable (hids : DistinctIds definition) (timestamp : String)
  (hrecurse : CascadesWithin definition fuel recurse)
include hids timestamp hrecurse

theorem cascadeVisit_spec {hop : Hop} (hhop : hop ∈ definition.hops)
    (hdep : start ∈ hop.dependsOn) (copy : WorkingCopy)
    (hfuel : pendingCount definition copy.hops < fuel + 1) :
    let visited := cascadeVisit definition timestamp recurse copy hop.id
    Cascade definition (· = start) copy.hops visited.hops ∧
      (statusOf visited.hops hop.id = some .pending → ¬Blocked hop (statusOf visited.hops)) := by
  simp only [cascadeVisit, hids.findHop hhop]
  cases hget : copy.hops.get? hop.id with
  | none => exact ⟨.refl _ _ _, by simp [statusOf, hget]⟩
  | some hopState =>
      simp only
      split
      · rename_i hskip
        obtain ⟨hpending, hblocked⟩ := hskip
        have hcount := pendingCount_skip_lt timestamp "cascade" hhop hget hpending
        obtain ⟨hcascade, hsettled⟩ :=
          hrecurse hop.id (copy.skip hop.id hopState timestamp "cascade") (by omega)
        refine ⟨hcascade.skip_trans hhop hget hpending hblocked hdep rfl hsettled, ?_⟩
        intro hstill
        have hskipped := hcascade.skips.pending_of_pending hstill
        simp [WorkingCopy.skip] at hskipped
      · rename_i hskip
        refine ⟨.refl _ _ _, fun hpending hblocked => hskip ⟨?_, hblocked⟩⟩
        simpa [statusOf, hget] using hpending

theorem foldl_cascadeVisit_spec (downstream : List String)
    (hdownstream : ∀ id ∈ downstream, ∃ hop ∈ definition.hops, hop.id = id ∧ start ∈ hop.dependsOn)
    (copy : WorkingCopy) (hfuel : pendingCount definition copy.hops < fuel + 1) :
    let result := downstream.foldl (cascadeVisit definition timestamp recurse) copy
    Cascade definition (· = start) copy.hops result.hops ∧
      ∀ hop ∈ definition.hops, hop.id ∈ downstream →
        statusOf result.hops hop.id = some .pending → ¬Blocked hop (statusOf result.hops) := by
  induction downstream generalizing copy with
  | nil => exact ⟨.refl _ _ _, by simp⟩
  | cons id rest ih =>
      obtain ⟨hop, hhop, rfl, hdep⟩ := hdownstream id List.mem_cons_self
      obtain ⟨hvisit, hnot⟩ :=
        cascadeVisit_spec hids timestamp hrecurse hhop hdep copy hfuel
      have hcount := pendingCount_le_of_skips definition hvisit.skips
      obtain ⟨hrest, hdone⟩ := ih (fun id hid => hdownstream id (List.mem_cons_of_mem _ hid))
        (cascadeVisit definition timestamp recurse copy hop.id) (by omega)
      rw [List.foldl_cons]
      refine ⟨hvisit.trans hrest fun _ h => .inl h, fun other hother hmem hpending => ?_⟩
      rcases List.mem_cons.1 hmem with hid | hmem
      · obtain rfl := hids.eq_of_id_eq hother hhop hid
        exact hrest.not_blocked hother hpending
          (hnot (hrest.skips.pending_of_pending hpending))
      · exact hdone other hother hmem hpending

end Loop

variable (hids : DistinctIds definition) (hindex : ListsDependents definition index)
include hids hindex

theorem cascadeSkipsAux_spec (timestamp : String) (fuel : Nat) :
    CascadesWithin definition fuel (cascadeSkipsAux definition index timestamp fuel) := by
  induction fuel with
  | zero => exact fun _ _ hfuel => absurd hfuel (Nat.not_lt_zero _)
  | succ fuel ih =>
      intro start copy hfuel
      obtain ⟨hcascade, hdone⟩ := foldl_cascadeVisit_spec hids timestamp ih
        ((index.get? start).getD []) (fun id hid => (hindex start id).1 hid) copy hfuel
      refine ⟨hcascade, fun hop hhop hdep => hdone hop hhop ?_⟩
      exact (hindex start hop.id).2 ⟨hop, hhop, rfl, hdep⟩

/-- `cascadeSkips` is the cascade from its start, run to the end. -/
theorem cascadeSkips_spec (copy : WorkingCopy) (start timestamp : String) :
    let result := cascadeSkips definition copy index start timestamp
    Cascade definition (· = start) copy.hops result.hops ∧
      Settled definition result.hops start :=
  cascadeSkipsAux_spec hids hindex timestamp (definition.hops.length + 1) start copy
    (Nat.lt_succ_of_le List.countP_le_length)

end Aof
