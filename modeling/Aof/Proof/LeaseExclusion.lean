import Aof.Proof.Serializable

/-!
# One lease at a time

Calls on the lease of a task that never write on an outdated read grant it to one agent after the
other, each only after the lease of the one before has been released or has expired.
-/

namespace Aof

open TaskFiles (quietly)

def StoreCall.grants : StoreCall → Option String
  | .acquireLease agentId _ _ => some agentId
  | _ => none

/-- The agent whose lease a call grants or prolongs, and the time until when. -/
def StoreCall.leases : StoreCall → Option (String × Nat)
  | .acquireLease agentId opts times => some (agentId, times.granted + opts.ttlMs)
  | .renewLease agentId opts now => some (agentId, now + opts.ttlMs)
  | _ => none

def StoreCall.onLease : StoreCall → Bool
  | .acquireLease .. | .renewLease .. | .releaseLease .. => true
  | _ => false

def lastLease (calls : List StoreCall) (order : List Nat) : Option (String × Nat) :=
  (order.filterMap fun index => calls[index]?.bind StoreCall.leases).getLast?

def Released (calls : List StoreCall) (agent : String) (order : List Nat) : Prop :=
  ∃ index ∈ order, ∃ now, calls[index]? = some (.releaseLease agent now)

/-- An acquisition among the later calls found that the lease of the agent, as the earlier calls had
granted or renewed it, was over. -/
def Expired (calls : List StoreCall) (agent : String) (earlier later : List Nat) : Prop :=
  ∃ before index after other opts times expiresAt, later = before ++ index :: after ∧
    calls[index]? = some (.acquireLease other opts times) ∧
    lastLease calls (earlier ++ before) = some (agent, expiresAt) ∧ expiresAt ≤ times.checked

/-- Between two grants to different agents the lease of the first is released or found expired. -/
def GrantedApart (calls : List StoreCall) (order : List Nat) : Prop :=
  ∀ earlier first between second later call other agent otherAgent,
    order = earlier ++ first :: between ++ second :: later →
    calls[first]? = some call → call.grants = some agent →
    calls[second]? = some other → other.grants = some otherAgent → agent ≠ otherAgent →
      Released calls agent between ∨ Expired calls agent [first] (between ++ [second])

/-- The lease names the agent of the last grant, unless it has been released since. -/
def NamesLast (calls : List StoreCall) (order : List Nat) (lease : Option Lease) : Prop :=
  ∀ earlier first later call agent, order = earlier ++ first :: later →
    calls[first]? = some call → call.grants = some agent →
    (∀ index ∈ later, ∀ other, calls[index]? = some other → other.grants = none) →
      Released calls agent later ∨ ∃ held, lease = some held ∧ held.agent = agent

variable {calls : List StoreCall} {order earlier later : List Nat} {index now : Nat}
  {call : StoreCall} {agent agentId : String} {document next last : Document} {opts : LeaseOptions}

theorem lastLease_snoc (hcall : calls[index]? = some call) :
    lastLease calls (order ++ [index]) = (call.leases <|> lastLease calls order) := by
  unfold lastLease
  rw [List.filterMap_append, List.getLast?_append]
  cases hleases : call.leases <;> simp [hcall, hleases]

theorem Expired.cons (hexpired : Expired calls agent (earlier ++ [index]) later) :
    Expired calls agent earlier (index :: later) := by
  obtain ⟨before, grant, after, other, opts, times, expiresAt, rfl, hgrant, hlast, hle⟩ := hexpired
  refine ⟨index :: before, grant, after, other, opts, times, expiresAt, rfl, hgrant, ?_, hle⟩
  rw [← hlast, List.append_assoc]
  rfl

theorem expired_singleton (hexpired : Expired calls agent earlier [index]) :
    ∃ other opts times expiresAt, calls[index]? = some (.acquireLease other opts times) ∧
      lastLease calls earlier = some (agent, expiresAt) ∧ expiresAt ≤ times.checked := by
  obtain ⟨before, grant, after, other, opts, times, expiresAt, hlater, hgrant, hlast, hle⟩ :=
    hexpired
  cases before with
  | nil =>
      obtain ⟨rfl, -⟩ := List.cons_eq_cons.mp hlater
      rw [List.append_nil] at hlast
      exact ⟨other, opts, times, expiresAt, hgrant, hlast, hle⟩
  | cons first before => simp at hlater

/-- The document's lease is the agent's, as the earlier calls have left it. -/
def Leased (calls : List StoreCall) (agent : String) (earlier : List Nat) (document : Document) :
    Prop :=
  ∃ lease, document.lease = some lease ∧ lease.agent = agent ∧
    lastLease calls earlier = some (agent, lease.expiresAt)

theorem lease_of_afterTransition
    (heffect : document.afterTransition .inProgress .empty now = some next) :
    next.lease = document.lease := by
  unfold Document.afterTransition at heffect
  split at heffect
  · rw [Option.some.inj heffect]
  · split at heffect
    · rw [← Option.some.inj heffect]
      rfl
    · cases heffect

theorem acquire_effect {times : LeaseTimes}
    (heffect : (StoreCall.acquireLease agentId opts times).effect document = some next) :
    document.leasedToOther agentId times.checked = false ∧ ∃ lease, next.lease = some lease ∧
      lease.agent = agentId ∧ lease.expiresAt = times.granted + opts.ttlMs := by
  simp only [StoreCall.effect, Option.ite_none_left_eq_some, Bool.not_eq_true] at heffect
  obtain ⟨-, hfree, heffect⟩ := heffect
  exact ⟨hfree, _, lease_of_afterTransition heffect, rfl, rfl⟩

theorem renew_effect
    (heffect : (StoreCall.renewLease agentId opts now).effect document = some next) :
    ∃ lease renewed, document.lease = some lease ∧ lease.agent = agentId ∧
      next.lease = some renewed ∧ renewed.agent = agentId ∧
      renewed.expiresAt = now + opts.ttlMs := by
  simp only [StoreCall.effect] at heffect
  cases hlease : document.lease with
  | none =>
      rw [hlease] at heffect
      cases heffect
  | some lease =>
      simp only [hlease, Option.ite_none_left_eq_some, not_not] at heffect
      obtain ⟨hagent, -, heffect⟩ := heffect
      obtain rfl := Option.some.inj heffect
      exact ⟨lease, _, rfl, hagent, rfl, hagent, rfl⟩

theorem release_effect
    (heffect : (StoreCall.releaseLease agentId now).effect document = some next) :
    ∃ lease, document.lease = some lease ∧ lease.agent = agentId := by
  simp only [StoreCall.effect, Option.ite_none_right_eq_some] at heffect
  obtain ⟨lease, hlease, hagent⟩ := (Option.any_eq_true _ _).mp heffect.1
  exact ⟨lease, hlease, of_decide_eq_true hagent⟩

theorem leased_step (hleased : Leased calls agent earlier document)
    (hcall : calls[index]? = some call) (honLease : call.onLease = true)
    (heffect : call.effect document = some next) :
    Leased calls agent (earlier ++ [index]) next ∧ (∀ other ∈ call.grants, other = agent) ∨
      (∃ now, call = .releaseLease agent now) ∨
      ∃ other opts times expiresAt, call = .acquireLease other opts times ∧
        lastLease calls earlier = some (agent, expiresAt) ∧ expiresAt ≤ times.checked := by
  obtain ⟨lease, hlease, rfl, hlast⟩ := hleased
  cases call with
  | acquireLease other opts times =>
      obtain ⟨hfree, granted, hgranted, hagent, hexpires⟩ := acquire_effect heffect
      by_cases hother : other = lease.agent
      · refine .inl ⟨⟨granted, hgranted, hagent.trans hother, ?_⟩, ?_⟩
        · rw [lastLease_snoc hcall, hexpires, ← hother]
          rfl
        · rintro _ ⟨⟩
          exact hother
      · refine .inr (.inr ⟨other, opts, times, _, rfl, hlast, ?_⟩)
        simp only [Document.leasedToOther, hlease, Option.any_some, decide_eq_false_iff_not,
          not_and, not_not] at hfree
        by_contra hlt
        exact hother (hfree (not_le.mp hlt)).symm
  | renewLease other opts now =>
      obtain ⟨old, renewed, hold, hagent, hrenewed, hsame, hexpires⟩ := renew_effect heffect
      obtain rfl := Option.some.inj (hold.symm.trans hlease)
      refine .inl ⟨⟨renewed, hrenewed, hsame.trans hagent.symm, ?_⟩, ?_⟩
      · rw [lastLease_snoc hcall, hexpires, hagent]
        rfl
      · rintro _ ⟨⟩
  | releaseLease other now =>
      obtain ⟨old, hold, hagent⟩ := release_effect heffect
      obtain rfl := Option.some.inj (hold.symm.trans hlease)
      exact .inr (.inl ⟨now, by rw [hagent]⟩)
  | _ => cases honLease

theorem effects_cons : effects calls (index :: order) document = some last ↔ ∃ call next,
      calls[index]? = some call ∧ call.effect document = some next ∧
        effects calls order next = some last := by
  unfold effects
  simp only [List.foldlM_cons, Option.bind_eq_bind, Option.bind_eq_some_iff]
  constructor
  · rintro ⟨next, ⟨call, hcall, heffect⟩, hrest⟩
    exact ⟨call, next, hcall, heffect, hrest⟩
  · rintro ⟨call, next, hcall, heffect, hrest⟩
    exact ⟨next, ⟨call, hcall, heffect⟩, hrest⟩

theorem effects_append : effects calls (earlier ++ later) document = some last ↔ ∃ middle,
      effects calls earlier document = some middle ∧ effects calls later middle = some last := by
  unfold effects
  rw [List.foldlM_append, Option.bind_eq_bind, Option.bind_eq_some_iff]

theorem leased_run (hcalls : ∀ call ∈ calls, call.onLease = true)
    (hleased : Leased calls agent earlier document)
    (heffects : effects calls later document = some last) :
    Released calls agent later ∨ Expired calls agent earlier later ∨
      Leased calls agent (earlier ++ later) last ∧ ∀ index ∈ later, ∀ call,
        calls[index]? = some call → ∀ other ∈ call.grants, other = agent := by
  induction later generalizing earlier document with
  | nil =>
      obtain rfl := Option.some.inj heffects
      refine .inr (.inr ⟨by rwa [List.append_nil], fun index hindex => nomatch hindex⟩)
  | cons index later ih =>
      obtain ⟨call, next, hcall, heffect, hrest⟩ := effects_cons.mp heffects
      have honLease := hcalls call (List.mem_of_getElem? hcall)
      rcases leased_step hleased hcall honLease heffect with
        ⟨hnext, hsame⟩ | ⟨now, rfl⟩ | ⟨other, opts, times, expiresAt, rfl, hlast, hle⟩
      · rcases ih hnext hrest with ⟨release, hrelease, hreleased⟩ | hexpired | ⟨hlast, hothers⟩
        · exact .inl ⟨release, List.mem_cons_of_mem _ hrelease, hreleased⟩
        · exact .inr (.inl hexpired.cons)
        · refine .inr (.inr ⟨by rwa [List.append_assoc] at hlast, ?_⟩)
          intro later hlater other hother
          cases hlater with
          | head => exact Option.some.inj (hcall.symm.trans hother) ▸ hsame
          | tail _ hlater => exact hothers later hlater other hother
      · exact .inl ⟨index, List.mem_cons_self, now, hcall⟩
      · refine .inr (.inl ⟨[], index, later, other, opts, times, expiresAt, rfl, hcall, ?_, hle⟩)
        rwa [List.append_nil]

theorem leased_of_grant (hcall : calls[index]? = some call) (hgrants : call.grants = some agent)
    (heffect : call.effect document = some next) : Leased calls agent [index] next := by
  cases call with
  | acquireLease other opts times =>
      obtain rfl := Option.some.inj hgrants
      obtain ⟨-, lease, hlease, hagent, hexpires⟩ := acquire_effect heffect
      refine ⟨lease, hlease, hagent, ?_⟩
      rw [← List.nil_append [index], lastLease_snoc hcall, hexpires]
      rfl
  | _ => cases hgrants

theorem Accounts.entered (hcalls : ∀ call ∈ calls, call.onLease = true) {s : Accounted}
    (hs : Accounts calls document s) :
    ∃ order last, effects calls order document = some last ∧ order.Nodup ∧
      (∀ index ∈ s.2.order, index ∈ order) ∧ last.lease = s.2.newest.document.lease := by
  cases hhalf : s.2.half with
  | none => exact ⟨_, _, hs.serial, hs.nodup, fun _ h => h, by rw [hs.whole hhalf]⟩
  | some index =>
      obtain ⟨call, next, hcall, hhalfway, hprepared, heffect⟩ := hs.prepared index hhalf
      have hnew := hs.uncounted index hhalf
      refine ⟨s.2.order ++ [index], next, effects_snoc hs.serial hcall heffect,
        hs.nodup.append (List.nodup_singleton index) (by simpa using hnew),
        fun _ h => List.mem_append_left _ h, ?_⟩
      rw [hprepared]
      have honLease := hcalls call (List.mem_of_getElem? hcall)
      cases call with
      | acquireLease agentId opts times =>
          simp only [StoreCall.effect, Option.ite_none_left_eq_some] at heffect
          exact lease_of_afterTransition heffect.2.2
      | renewLease => cases hhalfway
      | releaseLease => cases hhalfway
      | _ => cases honLease

def returned : Option (TaskProgram Unit) → Bool
  | some (.ret _) => true
  | _ => false

theorem eq_ret_of_returned {program : Option (TaskProgram Unit)} (h : returned program = true) :
    program = some (.ret ()) := by
  match program with
  | some (.ret ()) => rfl
  | some .throw => cases h
  | some (.await _ _) => cases h
  | none => cases h

def grantAt (agentId : String) (now : Nat) : StoreCall :=
  .acquireLease agentId {} { checked := now, granted := now, moved := now }

end Aof
