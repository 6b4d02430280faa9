import Mathlib.Data.List.Induction

/-!
# Deliveries to the slot that was opened last

Slots are opened under keys, and a value that is delivered to a key goes into the slot opened last
under it.  A slot ends up with the last value that is delivered before its key is opened again.
-/

namespace LatestSlot

/-- A slot may have no key, and a delivery no value. -/
inductive Event (Key Value : Type*) where
  | opens (key : Option Key)
  | delivers (key : Key) (value : Option Value)

structure Slots (Key Value : Type*) where
  values : List (Option Value) := []
  owners : List (Key × Nat) := []

section

variable {Key Value : Type*} (same : Key → Key → Bool)

def Slots.owner (slots : Slots Key Value) (key : Key) : Option Nat :=
  (slots.owners.find? fun entry => same entry.1 key).map Prod.snd

def Slots.step (slots : Slots Key Value) : Event Key Value → Slots Key Value
  | .opens key =>
      { values := slots.values ++ [none]
        owners := (key.map fun key => (key, slots.values.length)).toList ++ slots.owners }
  | .delivers key value =>
      match slots.owner same key, value with
      | some index, some value => { slots with values := slots.values.set index (some value) }
      | _, _ => slots

def run (events : List (Event Key Value)) : Slots Key Value := events.foldl (Slots.step same) {}

/-- The last value that reaches a key before it is opened again. -/
def received (key : Key) : List (Event Key Value) → Option Value
  | [] => none
  | .opens other :: events => if other.any (same · key) then none else received key events
  | .delivers other value :: events =>
      (received key events).or (if same key other then value else none)

def valuesOf : List (Event Key Value) → List (Option Value)
  | [] => []
  | .opens key :: events => key.bind (received same · events) :: valuesOf events
  | .delivers _ _ :: events => valuesOf events

def latest (key : Key) : List (Event Key Value) → Option Nat
  | [] => none
  | .opens other :: events =>
      ((latest key events).map (· + 1)).or (if other.any (same · key) then some 0 else none)
  | .delivers _ _ :: events => latest key events

def lastDelivered (key : Key) (events : List (Event Key Value)) : Option Value :=
  (events.filterMap fun event =>
    match event with
    | .delivers other value => if same key other then some value else none
    | .opens _ => none).getLast?.join

def keysOf : List (Event Key Value) → List (Option Key)
  | [] => []
  | .opens key :: events => key :: keysOf events
  | .delivers _ _ :: events => keysOf events

variable {same}

theorem run_append_singleton (events : List (Event Key Value)) (event : Event Key Value) :
    run same (events ++ [event]) = (run same events).step same event := by
  rw [run, List.foldl_append]
  rfl

variable (same) in
theorem length_valuesOf (events : List (Event Key Value)) :
    (valuesOf same events).length = (keysOf events).length := by
  induction events with
  | nil => rfl
  | cons event events ih =>
      cases event with
      | opens key => exact congrArg (· + 1) ih
      | delivers key value => exact ih

variable {key : Key} {slots : Slots Key Value}

theorem latest_isSome_iff {events : List (Event Key Value)} :
    (latest same key events).isSome = true ↔
      ∃ other, some other ∈ keysOf events ∧ same other key = true := by
  induction events with
  | nil => simp [latest, keysOf]
  | cons event events ih =>
      cases event with
      | opens other =>
          rw [latest, Option.isSome_or, Bool.or_eq_true, Option.isSome_map, ih, keysOf]
          cases other with
          | none => simp
          | some other =>
              by_cases hsame : same other key = true
              · simp [hsame]
              · simp [hsame]
      | delivers other value => exact ih

theorem keysOf_append (events later : List (Event Key Value)) :
    keysOf (events ++ later) = keysOf events ++ keysOf later := by
  induction events with
  | nil => rfl
  | cons event events ih =>
      cases event with
      | opens key => exact congrArg (key :: ·) ih
      | delivers key value => exact ih

theorem latest_append_opens (key : Key) (events : List (Event Key Value)) (other : Option Key) :
    latest same key (events ++ [.opens other]) =
      if other.any (same · key) then some (keysOf events).length else latest same key events := by
  induction events with
  | nil => rfl
  | cons event events ih =>
      cases event with
      | opens first =>
          rw [List.cons_append, latest, ih, latest, keysOf]
          by_cases hsame : other.any (same · key) = true
          · rw [if_pos hsame, if_pos hsame]
            rfl
          · rw [if_neg hsame, if_neg hsame]
      | delivers first value => exact ih

theorem latest_append_delivers (key other : Key) (events : List (Event Key Value))
    (value : Option Value) :
    latest same key (events ++ [.delivers other value]) = latest same key events := by
  induction events with
  | nil => rfl
  | cons event events ih =>
      cases event with
      | opens first => rw [List.cons_append, latest, ih, latest]
      | delivers first value => exact ih

theorem received_append_opens (key : Key) (events : List (Event Key Value)) (other : Option Key) :
    received same key (events ++ [.opens other]) = received same key events := by
  induction events with
  | nil => exact ite_self none
  | cons event events ih =>
      cases event with
      | opens first => rw [List.cons_append, received, ih, received]
      | delivers first value => rw [List.cons_append, received, ih, received]

theorem valuesOf_append_opens (events : List (Event Key Value)) (other : Option Key) :
    valuesOf same (events ++ [.opens other]) = valuesOf same events ++ [none] := by
  induction events with
  | nil =>
      cases other with
      | none => rfl
      | some other => rfl
  | cons event events ih =>
      cases event with
      | opens key =>
          rw [List.cons_append, valuesOf, ih, valuesOf, List.cons_append]
          simp only [received_append_opens]
      | delivers key value => exact ih

theorem received_append_empty (key other : Key) (events : List (Event Key Value)) :
    received same key (events ++ [.delivers other none]) = received same key events := by
  induction events with
  | nil => simp [received]
  | cons event events ih =>
      cases event with
      | opens first => rw [List.cons_append, received, ih, received]
      | delivers first value => rw [List.cons_append, received, ih, received]

theorem valuesOf_append_empty (other : Key) (events : List (Event Key Value)) :
    valuesOf same (events ++ [.delivers other none]) = valuesOf same events := by
  induction events with
  | nil => rfl
  | cons event events ih =>
      cases event with
      | opens key =>
          rw [List.cons_append, valuesOf, ih, valuesOf]
          simp only [received_append_empty]
      | delivers key value => exact ih

theorem step_delivers_none (slots : Slots Key Value) (key : Key) :
    slots.step same (.delivers key none) = slots := by
  cases howner : slots.owner same key <;> simp only [Slots.step, howner]

theorem step_delivers_unknown (howner : slots.owner same key = none) (value : Option Value) :
    slots.step same (.delivers key value) = slots := by
  simp only [Slots.step, howner]

theorem step_delivers_some {index : Nat} (howner : slots.owner same key = some index)
    (value : Value) : slots.step same (.delivers key (some value)) =
      { slots with values := slots.values.set index (some value) } := by
  simp only [Slots.step, howner]

theorem owner_step_delivers (slots : Slots Key Value) (other : Key) (value : Option Value)
    (key : Key) :
    (slots.step same (.delivers other value)).owner same key = slots.owner same key := by
  cases value with
  | none => rw [step_delivers_none]
  | some value =>
      cases howner : slots.owner same other with
      | none => rw [step_delivers_unknown howner]
      | some index =>
          rw [step_delivers_some howner]
          rfl

variable (hsame : ∀ {a b : Key}, same a b = true → a = b)

include hsame

theorem received_append_delivers (key other : Key) (events : List (Event Key Value))
    (value : Option Value) :
    received same key (events ++ [.delivers other value]) =
      if latest same other events = none ∧ same key other = true then
        value.or (received same key events)
      else received same key events := by
  induction events with
  | nil => simp [received, latest]
  | cons event events ih =>
      cases event with
      | opens first =>
          rw [List.cons_append, received, ih, received, latest]
          by_cases hkey : same key other = true
          · obtain rfl := hsame hkey
            by_cases hfirst : first.any (same · key) = true
            · simp [hfirst]
            · simp [hfirst]
          · simp [hkey]
      | delivers first earlier =>
          rw [List.cons_append, received, ih, received, latest]
          by_cases hcond : latest same other events = none ∧ same key other = true
          · rw [if_pos hcond, if_pos hcond, Option.or_assoc]
          · rw [if_neg hcond, if_neg hcond]

theorem valuesOf_append_delivers (other : Key) (events : List (Event Key Value)) (value : Value) :
    valuesOf same (events ++ [.delivers other (some value)]) =
      match latest same other events with
      | some index => (valuesOf same events).set index (some value)
      | none => valuesOf same events := by
  induction events with
  | nil => rfl
  | cons event events ih =>
      cases event with
      | opens key =>
          rw [List.cons_append, valuesOf, ih, valuesOf, latest]
          simp only [received_append_delivers hsame]
          cases hlatest : latest same other events with
          | some index => simp
          | none =>
              cases key with
              | none => simp
              | some key => by_cases hkey : same key other = true <;> simp [hkey]
      | delivers key earlier => exact ih

theorem run_eq (events : List (Event Key Value)) : (run same events).values = valuesOf same events ∧
      ∀ key, (run same events).owner same key = latest same key events := by
  induction events using List.reverseRecOn with
  | nil => exact ⟨rfl, fun _ => rfl⟩
  | append_singleton events event ih =>
      obtain ⟨hvalues, howner⟩ := ih
      rw [run_append_singleton]
      cases event with
      | opens other =>
          constructor
          · rw [valuesOf_append_opens, ← hvalues]
            rfl
          · intro key
            rw [latest_append_opens, ← howner, ← length_valuesOf same, ← hvalues]
            cases other with
            | none => rfl
            | some other =>
                by_cases hother : same other key = true
                · simp [Slots.step, Slots.owner, hother]
                · simp [Slots.step, Slots.owner, hother]
      | delivers other value =>
          refine ⟨?_, fun key => ?_⟩
          · cases value with
            | none => rw [valuesOf_append_empty, ← hvalues, step_delivers_none]
            | some value =>
                rw [valuesOf_append_delivers hsame, ← howner, ← hvalues]
                cases hlatest : (run same events).owner same other with
                | none => rw [step_delivers_unknown hlatest]
                | some index => rw [step_delivers_some hlatest]
          · rw [owner_step_delivers, latest_append_delivers, howner]

omit hsame in
theorem valuesOf_eq_iff {expected : Option Key → Option Value} (events : List (Event Key Value)) :
    valuesOf same events = (keysOf events).map expected ↔
      ∀ before key after, events = before ++ .opens key :: after →
        key.bind (received same · after) = expected key := by
  induction events with
  | nil => simp [valuesOf, keysOf]
  | cons event events ih =>
      cases event with
      | opens first =>
          rw [valuesOf, keysOf, List.map_cons, List.cons.injEq, ih]
          constructor
          · rintro ⟨hfirst, hrest⟩ before key after hsplit
            cases before with
            | nil =>
                obtain ⟨hkey, rfl⟩ := List.cons.inj hsplit
                obtain rfl := Event.opens.inj hkey
                exact hfirst
            | cons head before => exact hrest before key after (List.cons.inj hsplit).2
          · intro hall
            exact ⟨hall [] first events rfl, fun before key after hsplit =>
              hall (.opens first :: before) key after (congrArg (.opens first :: ·) hsplit)⟩
      | delivers first value =>
          rw [valuesOf, keysOf, ih]
          constructor
          · intro hrest before key after hsplit
            cases before with
            | nil => cases (List.cons.inj hsplit).1
            | cons head before => exact hrest before key after (List.cons.inj hsplit).2
          · exact fun hall before key after hsplit =>
              hall (.delivers first value :: before) key after
                (congrArg (.delivers first value :: ·) hsplit)

end

end LatestSlot
