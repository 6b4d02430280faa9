import Mathlib.Data.Finset.Card
import Mathlib.Data.Finset.Dedup
import Mathlib.Data.List.Nodup

/-!
# Caches of bounded size

A cache lists its keys in the order in which they came in, and drops the first ones when there are
too many.  A key that is captured again keeps its place, so the first key is not always the one that
was captured longest ago.
-/

namespace Recency

inductive CacheEvent (Key : Type*) where
  | captured (key : Key)
  | cleared (key : Key)
  deriving DecidableEq, Repr

variable {Key : Type*}

def lastKeys (limit : Nat) (keys : List Key) : List Key :=
  keys.drop (keys.length - limit)

variable [DecidableEq Key]

def CacheEvent.keysAfter (limit : Nat) (keys : List Key) : CacheEvent Key → List Key
  | .captured key => lastKeys limit (if key ∈ keys then keys else keys ++ [key])
  | .cleared key => keys.filter fun other => other ≠ key

/-- The keys captured after the latest capture of `key`; none, if it was cleared since. The history
lists the newest event first. -/
def since (key : Key) : List (CacheEvent Key) → Option (List Key)
  | [] => none
  | .captured other :: history =>
      if other = key then some [] else (since key history).map (other :: ·)
  | .cleared other :: history => if other = key then none else since key history

/-- Every other key of the cache was captured after the latest capture of `key`. -/
def LeastRecent (history : List (CacheEvent Key)) (keys : List Key) (key : Key) : Prop :=
  ∃ others, since key history = some others ∧ ∀ other ∈ keys, other ≠ key → other ∈ others

/-- If the event drops a key, it drops the one that was captured longest ago. -/
def DropsLeastRecent (limit : Nat) (history : List (CacheEvent Key)) (keys : List Key) :
    CacheEvent Key → Prop
  | .captured key =>
      key ∉ keys → limit ≤ keys.length →
        ∀ first, keys.head? = some first → LeastRecent history keys first
  | .cleared _ => True

instance (history : List (CacheEvent Key)) (keys : List Key) (key : Key) :
    Decidable (LeastRecent history keys key) :=
  match hsince : since key history with
  | none => .isFalse fun ⟨_, hsome, _⟩ => Option.some_ne_none _ (hsome.symm.trans hsince)
  | some others =>
      decidable_of_iff (∀ other ∈ keys, other ≠ key → other ∈ others)
        ⟨fun hall => ⟨others, hsince, hall⟩, fun ⟨_, hsome, hall⟩ =>
          Option.some.inj (hsome.symm.trans hsince) ▸ hall⟩

instance (limit : Nat) (history : List (CacheEvent Key)) (keys : List Key) :
    (event : CacheEvent Key) → Decidable (DropsLeastRecent limit history keys event)
  | .captured key =>
      inferInstanceAs (Decidable (key ∉ keys → limit ≤ keys.length →
        ∀ first ∈ keys.head?, LeastRecent history keys first))
  | .cleared _ => .isTrue trivial

/-- A cache within its bound, of keys that were captured and not cleared since. -/
structure Bounded (limit : Nat) (history : List (CacheEvent Key)) (keys : List Key) : Prop where
  nodup : keys.Nodup
  bounded : keys.length ≤ limit
  captured : ∀ key ∈ keys, (since key history).isSome

structure KeepsRecent (limit : Nat) (history : List (CacheEvent Key)) (keys : List Key) : Prop
    extends Bounded limit history keys where
  missing : ∀ key others, since key history = some others → key ∉ keys →
    limit ≤ others.toFinset.card

variable {limit : Nat} {history : List (CacheEvent Key)} {keys : List Key}

theorem bounded_nil : Bounded limit ([] : List (CacheEvent Key)) [] where
  nodup := List.nodup_nil
  bounded := Nat.zero_le limit
  captured := fun _ hkey => absurd hkey List.not_mem_nil

theorem keepsRecent_nil : KeepsRecent limit ([] : List (CacheEvent Key)) [] where
  toBounded := bounded_nil
  missing := fun _ _ hsince => by cases hsince

omit [DecidableEq Key] in
theorem lastKeys_of_le (hle : keys.length ≤ limit) : lastKeys limit keys = keys := by
  rw [lastKeys, Nat.sub_eq_zero_of_le hle, List.drop_zero]

@[simp]
theorem since_captured_self (key : Key) : since key (.captured key :: history) = some [] :=
  if_pos rfl

variable {key other : Key} {others : List Key}

theorem since_captured_of_ne (hne : other ≠ key) :
    since key (.captured other :: history) = (since key history).map (other :: ·) :=
  if_neg hne

@[simp]
theorem since_cleared_self (key : Key) : since key (.cleared key :: history) = none :=
  if_pos rfl

theorem since_cleared_of_ne (hne : other ≠ key) :
    since key (.cleared other :: history) = since key history :=
  if_neg hne

theorem isSome_since_captured (other : Key) (hsome : (since key history).isSome) :
    (since key (.captured other :: history)).isSome := by
  by_cases heq : other = key
  · rw [heq, since_captured_self, Option.isSome_some]
  · rw [since_captured_of_ne heq, Option.isSome_map]
    exact hsome

theorem card_le_of_since_captured (hne : other ≠ key)
    (hbefore : ∀ before, since key history = some before → limit ≤ before.toFinset.card)
    (hsince : since key (.captured other :: history) = some others) :
    limit ≤ others.toFinset.card := by
  rw [since_captured_of_ne hne, Option.map_eq_some_iff] at hsince
  obtain ⟨before, hget, rfl⟩ := hsince
  calc
    limit ≤ before.toFinset.card := hbefore before hget
    _ ≤ (other :: before).toFinset.card := by
      apply Finset.card_le_card
      rw [List.toFinset_cons]
      exact Finset.subset_insert other before.toFinset

theorem Bounded.after_captured (hbounded : Bounded limit history keys) (key : Key) :
    Bounded limit (.captured key :: history) ((CacheEvent.captured key).keysAfter limit keys) where
  nodup := by
    apply List.Nodup.sublist (List.drop_sublist _ _)
    split
    · exact hbounded.nodup
    · rename_i hkey
      exact hbounded.nodup.append (List.nodup_singleton key) (by simpa using hkey)
  bounded := by
    rw [CacheEvent.keysAfter, lastKeys, List.length_drop]
    omega
  captured := by
    intro other hother
    have hmem := List.mem_of_mem_drop hother
    by_cases heq : key = other
    · rw [heq, since_captured_self, Option.isSome_some]
    · apply isSome_since_captured
      apply hbounded.captured
      split at hmem
      · exact hmem
      · simpa [Ne.symm heq] using hmem

theorem Bounded.after_cleared (hbounded : Bounded limit history keys) (key : Key) :
    Bounded limit (.cleared key :: history) ((CacheEvent.cleared key).keysAfter limit keys) where
  nodup := hbounded.nodup.filter _
  bounded := (List.length_filter_le _ keys).trans hbounded.bounded
  captured := by
    intro other hother
    obtain ⟨hmem, hne⟩ := List.mem_filter.1 hother
    rw [since_cleared_of_ne (Ne.symm (of_decide_eq_true hne))]
    exact hbounded.captured other hmem

theorem Bounded.after (hbounded : Bounded limit history keys) (event : CacheEvent Key) :
    Bounded limit (event :: history) (event.keysAfter limit keys) := by
  cases event with
  | captured key => exact hbounded.after_captured key
  | cleared key => exact hbounded.after_cleared key

theorem card_of_dropped {first : Key} {rest : List Key} (hnodup : (first :: rest).Nodup)
    (hkey : key ∉ first :: rest) (hleast : LeastRecent history (first :: rest) first)
    (hsince : since first (.captured key :: history) = some others) :
    (first :: rest).length ≤ others.toFinset.card := by
  obtain ⟨before, hbefore, hall⟩ := hleast
  rw [List.nodup_cons] at hnodup
  rw [List.mem_cons, not_or] at hkey
  rw [since_captured_of_ne hkey.1, hbefore, Option.map_some, Option.some_inj] at hsince
  have hsubset : (key :: rest).toFinset ⊆ others.toFinset := by
    intro other hother
    rw [← hsince, List.toFinset_cons, Finset.mem_insert, List.mem_toFinset]
    rw [List.toFinset_cons, Finset.mem_insert, List.mem_toFinset] at hother
    apply hother.imp_right
    intro hrest
    exact hall other (List.mem_cons_of_mem first hrest) fun heq => hnodup.1 (heq ▸ hrest)
  calc
    (first :: rest).length = (key :: rest).length := by simp
    _ = (key :: rest).toFinset.card :=
      (List.toFinset_card_of_nodup (List.nodup_cons.2 ⟨hkey.2, hnodup.2⟩)).symm
    _ ≤ others.toFinset.card := Finset.card_le_card hsubset

theorem KeepsRecent.missing_after_captured (hkeeps : KeepsRecent limit history keys)
    (hdrops : DropsLeastRecent limit history keys (.captured key))
    (hsince : since other (.captured key :: history) = some others)
    (hother : other ∉ (CacheEvent.captured key).keysAfter limit keys) :
    limit ≤ others.toFinset.card := by
  have hbounded := hkeeps.bounded
  -- whatever else happens, a key that was missing before stays missing
  have hmissed : key ≠ other → other ∉ keys → limit ≤ others.toFinset.card := by
    intro hne hbefore
    apply card_le_of_since_captured hne ?_ hsince
    exact fun before hget => hkeeps.missing other before hget hbefore
  rw [CacheEvent.keysAfter] at hother
  by_cases hkey : key ∈ keys
  · rw [if_pos hkey, lastKeys_of_le hbounded] at hother
    exact hmissed (fun heq => hother (heq ▸ hkey)) hother
  · rw [if_neg hkey] at hother
    have hlength : (keys ++ [key]).length = keys.length + 1 := by simp
    by_cases hroom : keys.length < limit
    · rw [lastKeys_of_le (by omega), List.mem_append, not_or, List.mem_singleton] at hother
      exact hmissed (Ne.symm hother.2) hother.1
    · have hone : (keys ++ [key]).length - limit = 1 := by omega
      rw [lastKeys, hone] at hother
      cases keys with
      | nil =>
          obtain rfl : limit = 0 := by simpa using hroom
          exact Nat.zero_le _
      | cons first rest =>
          have hfull := Nat.le_of_not_lt hroom
          rw [List.cons_append, List.drop_one, List.tail_cons, List.mem_append, not_or,
            List.mem_singleton] at hother
          by_cases heq : other = first
          · rw [heq] at hsince
            have hleast := hdrops hkey hfull first rfl
            exact hfull.trans (card_of_dropped hkeeps.nodup hkey hleast hsince)
          · apply hmissed (Ne.symm hother.2)
            rw [List.mem_cons, not_or]
            exact ⟨heq, hother.1⟩

theorem KeepsRecent.after {event : CacheEvent Key} (hkeeps : KeepsRecent limit history keys)
    (hdrops : DropsLeastRecent limit history keys event) :
    KeepsRecent limit (event :: history) (event.keysAfter limit keys) := by
  refine ⟨hkeeps.toBounded.after event, ?_⟩
  cases event with
  | captured key => exact fun _ _ => hkeeps.missing_after_captured hdrops
  | cleared key =>
      intro other others hsince hother
      by_cases heq : key = other
      · rw [heq, since_cleared_self] at hsince
        cases hsince
      · rw [since_cleared_of_ne heq] at hsince
        apply hkeeps.missing other others hsince
        exact fun hmem => hother (List.mem_filter.2 ⟨hmem, decide_eq_true (Ne.symm heq)⟩)

end Recency
