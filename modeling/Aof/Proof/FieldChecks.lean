import Mathlib.Data.List.TakeWhile
import Aof.Schemas.DefinitionRules

/-!
# The checks of single hops

The checks of `validateDAG` on the timeout, the escalation role and the condition of a hop find what
their rules forbid and nothing else.
-/

namespace Aof

mutual

theorem measureConditionComplexity_eq : ∀ (condition : ConditionExpr) (depth : Nat),
    measureConditionComplexity condition depth = ⟨depth + condition.depth, condition.nodes⟩
  | .and conditions, depth => by
      simp only [measureConditionComplexity, ConditionExpr.depth, ConditionExpr.nodes]
      rw [measureChildren_eq conditions depth _ le_rfl, max_eq_right (Nat.le_add_right _ _),
        Nat.add_comm 1]
  | .or conditions, depth => by
      simp only [measureConditionComplexity, ConditionExpr.depth, ConditionExpr.nodes]
      rw [measureChildren_eq conditions depth _ le_rfl, max_eq_right (Nat.le_add_right _ _),
        Nat.add_comm 1]
  | .not condition, depth => by
      simp only [measureConditionComplexity, ConditionExpr.depth, ConditionExpr.nodes]
      rw [measureConditionComplexity_eq condition (depth + 1), ConditionComplexity.mk.injEq]
      simp only
      omega
  | .eq _ _, _ | .neq _ _, _ | .gt _ _, _ | .gte _ _, _ | .lt _ _, _ | .lte _ _, _
  | .isIn _ _, _ | .hasTag _, _ | .hopStatus _ _, _ | .true, _ | .false, _ => rfl

theorem measureChildren_eq : ∀ (conditions : List ConditionExpr) (depth : Nat)
    (acc : ConditionComplexity), depth ≤ acc.maxDepth →
    measureChildren conditions depth acc =
      ⟨max acc.maxDepth (depth + ConditionExpr.depthOf conditions),
        acc.totalNodes + ConditionExpr.nodesOf conditions⟩
  | [], depth, acc, hacc => by
      simp [measureChildren, ConditionExpr.depthOf, ConditionExpr.nodesOf, hacc]
  | child :: rest, depth, acc, hacc => by
      simp only [measureChildren, ConditionExpr.depthOf, ConditionExpr.nodesOf,
        measureConditionComplexity_eq child (depth + 1)]
      rw [measureChildren_eq rest depth _ (by simp only; split <;> omega),
        ConditionComplexity.mk.injEq]
      constructor
      · simp only
        split <;> omega
      · simp only
        omega

end

theorem conditionErrors_eq_nil {hop : Hop} :
    conditionErrors hop = [] ↔ ∀ condition, hop.condition = some condition →
      condition.depth ≤ MAX_CONDITION_DEPTH ∧ condition.nodes ≤ MAX_CONDITION_NODES := by
  unfold conditionErrors
  cases hop.condition with
  | none => simp
  | some condition => simp [measureConditionComplexity_eq]

theorem hopsFieldMatch_eq_some {field id : String} :
    hopsFieldMatch field = some id ↔ ConditionExpr.FieldNames field id := by
  constructor
  · intro hmatch
    unfold hopsFieldMatch at hmatch
    split at hmatch
    · rename_i rest hfield
      simp only at hmatch
      split at hmatch
      · cases hmatch
      · rename_i hsegment
        obtain rfl := Option.some.inj hmatch
        refine ⟨rest.dropWhile (· ≠ '.'), ?_, ?_, ?_, ?_⟩
        · rw [hfield, List.append_assoc, String.toList_ofList, String.toList_ofList,
            List.takeWhile_append_dropWhile]
          rfl
        · rwa [String.toList_ofList]
        · rw [String.toList_ofList]
          intro hdot
          simpa using List.mem_takeWhile_imp hdot
        · intro c hc
          have hhead := List.head?_dropWhile_not (· ≠ '.') rest
          rw [Option.mem_def.mp hc] at hhead
          simpa using hhead
    · cases hmatch
  · rintro ⟨rest, hfield, hid, hdot, hrest⟩
    have hsegment : (id.toList ++ rest).takeWhile (· ≠ '.') = id.toList := by
      rw [List.takeWhile_append_of_pos]
      · cases rest with
        | nil => simp
        | cons c tail =>
            obtain rfl := hrest c rfl
            simp
      · intro c hc
        rw [decide_eq_true_eq]
        rintro rfl
        exact hdot hc
    have hchars : field.toList = 'h' :: 'o' :: 'p' :: 's' :: '.' :: (id.toList ++ rest) := by
      rw [hfield, List.append_assoc]
      rfl
    unfold hopsFieldMatch
    rw [hchars]
    simp only [hsegment, hid, if_false, String.ofList_toList]

mutual

theorem mem_collectHopReferences {id : String} : ∀ condition : ConditionExpr,
    id ∈ collectHopReferences condition ↔ condition.Mentions id
  | .and conditions => by
      rw [collectHopReferences, mem_collectChildren conditions]
      constructor
      · rintro ⟨child, hchild, hmentions⟩
        exact .and hchild hmentions
      · rintro (_ | _ | _ | _ | _ | _ | _ | _ | ⟨hchild, hmentions⟩)
        exact ⟨_, hchild, hmentions⟩
  | .or conditions => by
      rw [collectHopReferences, mem_collectChildren conditions]
      constructor
      · rintro ⟨child, hchild, hmentions⟩
        exact .or hchild hmentions
      · intro hmentions
        cases hmentions with
        | or hchild hmentions => exact ⟨_, hchild, hmentions⟩
  | .not condition => by
      rw [collectHopReferences, mem_collectHopReferences condition]
      constructor
      · exact .not
      · intro hmentions
        cases hmentions with
        | not hinner => exact hinner
  | .hopStatus hop status => by
      rw [collectHopReferences, List.mem_singleton]
      constructor
      · rintro rfl
        exact .hopStatus
      · intro hmentions
        cases hmentions
        rfl
  | .eq field value | .neq field value | .gt field value | .gte field value | .lt field value
  | .lte field value | .isIn field value => by
      rw [collectHopReferences, Option.mem_toList, hopsFieldMatch_eq_some]
      constructor
      · intro hnames
        constructor
        exact hnames
      · intro hmentions
        cases hmentions
        assumption
  | .hasTag _ | .true | .false => by
      rw [collectHopReferences]
      constructor
      · intro hmem
        cases hmem
      · intro hmentions
        cases hmentions

theorem mem_collectChildren {id : String} : ∀ conditions : List ConditionExpr,
    id ∈ collectChildren conditions ↔ ∃ child ∈ conditions, child.Mentions id
  | [] => by simp [collectChildren]
  | child :: rest => by
      rw [collectChildren, List.mem_append, mem_collectHopReferences child,
        mem_collectChildren rest]
      simp

end

theorem referenceErrors_eq_nil {hops : List Hop} {hop : Hop} :
    referenceErrors (hops.map Hop.id) hop = [] ↔ ∀ condition, hop.condition = some condition →
      ∀ id, condition.Mentions id → ∃ other ∈ hops, other.id = id := by
  unfold referenceErrors
  cases hop.condition with
  | none => simp
  | some condition => simp [List.filter_eq_nil_iff, mem_collectHopReferences]

theorem timeoutRegex_iff {timeout : String} :
    timeoutRegex timeout = true ↔ ∃ digits unit, IsTimeout timeout digits unit := by
  have hsplit : ∀ {c : Char} {digits : List Char},
      timeout.toList.reverse = c :: digits ↔ timeout.toList = digits.reverse ++ [c] := by
    intro c digits
    rw [List.reverse_eq_iff, List.reverse_cons]
  have hunit : ∀ c : Char, (c = 'm' ∨ c = 'h') ∨ c = 'd' ↔ ∃ unit : TimeUnit, unit.letter = c := by
    intro c
    constructor
    · rintro ((rfl | rfl) | rfl)
      · exact ⟨.minutes, rfl⟩
      · exact ⟨.hours, rfl⟩
      · exact ⟨.days, rfl⟩
    · rintro ⟨unit, rfl⟩
      cases unit <;> simp [TimeUnit.letter]
  unfold timeoutRegex
  split
  · rename_i hempty
    rw [List.reverse_eq_nil_iff] at hempty
    simp [IsTimeout, hempty]
  · rename_i c digits hreverse
    have hdigits : (digits.all fun c => '0' ≤ c && c ≤ '9') = true ↔ ∀ c ∈ digits, c.isDigit := by
      simp [List.all_eq_true, Char.isDigit, Char.le_def]
    rw [Bool.and_eq_true, Bool.and_eq_true, Bool.or_eq_true, Bool.or_eq_true, beq_iff_eq,
      beq_iff_eq, beq_iff_eq, hunit, decide_eq_true_eq, hdigits]
    constructor
    · rintro ⟨⟨⟨unit, rfl⟩, hne⟩, hall⟩
      refine ⟨digits.reverse, unit, hsplit.mp hreverse, ?_, ?_⟩
      · simpa using hne
      · simpa using hall
    · rintro ⟨numeral, unit, htimeout, hne, hall⟩
      rw [hsplit.mp hreverse] at htimeout
      obtain ⟨hnumeral, hletter⟩ := List.append_inj' htimeout rfl
      obtain rfl := List.singleton_inj.mp hletter
      subst hnumeral
      exact ⟨⟨⟨unit, rfl⟩, by simpa using hne⟩, by simpa using hall⟩

theorem timeoutErrors_eq_nil {hop : Hop} :
    timeoutErrors hop = [] ↔ ∀ timeout, hop.timeout = some timeout →
      ∃ digits unit, IsTimeout timeout digits unit := by
  unfold timeoutErrors
  cases hop.timeout with
  | none => simp
  | some timeout => simp [← timeoutRegex_iff]

theorem trim_eq_nil {cs : List Char} :
    JsString.trim cs = [] ↔ ∀ c ∈ cs, JsString.isWhitespace c = true := by
  unfold JsString.trim
  rw [List.reverse_eq_nil_iff, List.dropWhile_eq_nil_iff]
  constructor
  · intro hall
    rw [← List.dropWhile_eq_nil_iff]
    cases hrest : cs.dropWhile JsString.isWhitespace with
    | nil => rfl
    | cons c rest =>
        have hhead := List.head?_dropWhile_not JsString.isWhitespace cs
        rw [hrest, List.head?_cons] at hhead
        have hblank := hall c (by simp [hrest])
        exact absurd hblank (by simp [hhead])
  · intro hall c hc
    exact hall c ((List.dropWhile_sublist _).subset (List.mem_reverse.mp hc))

theorem escalateToErrors_eq_nil {hop : Hop} :
    escalateToErrors hop = [] ↔ ∀ role, hop.escalateTo = some role →
      ∃ c ∈ role.toList, JsString.isWhitespace c = false := by
  unfold escalateToErrors
  cases hop.escalateTo with
  | none => simp
  | some role => simp [trim_eq_nil]

end Aof
