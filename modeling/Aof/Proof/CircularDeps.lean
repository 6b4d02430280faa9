import Aof.Dispatch.Scheduler
import Aof.Lib.FirstPath

/-!
# The circular dependencies of a scan

The search marks a task for good when it first comes to it, so a cycle is only found along the first
paths to its tasks: a cycle that closes over a task which is done, but no longer on the stack, goes
unreported.
-/

namespace Aof

open FirstPath Relation

variable {allTasks : List Task}

def taskIds (allTasks : List Task) : List String := allTasks.map Task.id

/-- What the search goes on to from a task; ids that no task has lead nowhere. -/
def dependenciesIn (allTasks : List Task) (taskId : String) : List String :=
  ((taskMap allTasks taskId).map Task.dependsOn).getD []

abbrev taskChoices (allTasks : List Task) : List String → List String :=
  choices (taskIds allTasks) (dependenciesIn allTasks)

variable {taskId : String} {found : String → Prop} {path tried : List String} {scan : CycleScan}

theorem mem_taskIds_of_mem_dependenciesIn {dep : String}
    (hdep : dep ∈ dependenciesIn allTasks taskId) : taskId ∈ taskIds allTasks := by
  unfold dependenciesIn at hdep
  cases hfound : taskMap allTasks taskId with
  | none =>
      rw [hfound] at hdep
      cases hdep
  | some task =>
      unfold taskMap findTask at hfound
      have hmem := List.mem_reverse.mp (List.mem_of_find?_eq_some hfound)
      have hid : task.id = taskId := by simpa using List.find?_some hfound
      exact hid ▸ List.mem_map_of_mem hmem

/-- The scan has visited what the stack and the choices done at its end account for, and has
collected the cycles closed beyond them. -/
structure Searched (allTasks : List Task) (found : String → Prop) (path tried : List String)
    (scan : CycleScan) : Prop where
  visited : ∀ id, id ∈ scan.visited ↔
    Explored (taskIds allTasks) (dependenciesIn allTasks) path tried id
  circular : ∀ id, id ∈ scan.circular ↔
    found id ∨ Reported (taskIds allTasks) (dependenciesIn allTasks) path tried id

theorem Searched.foldl {visit : CycleScan → String → CycleScan}
    (hvisit : ∀ taskId tried scan, taskId ∈ taskChoices allTasks path →
      taskId ∈ tried ∨ (taskChoices allTasks path).takeWhile (· ≠ taskId) = tried →
      Searched allTasks found path tried scan →
      Searched allTasks found path (tried ++ [taskId]) (visit scan taskId))
    {rest : List String} (hsplit : taskChoices allTasks path = tried ++ rest)
    (hscan : Searched allTasks found path tried scan) :
    Searched allTasks found path (taskChoices allTasks path) (rest.foldl visit scan) := by
  induction rest generalizing tried scan with
  | nil =>
      rw [hsplit, List.append_nil]
      exact hscan
  | cons taskId rest ih =>
      have hdone : taskId ∈ tried ∨
          (taskChoices allTasks path).takeWhile (· ≠ taskId) = tried := by
        by_cases hmem : taskId ∈ tried
        · exact .inl hmem
        · refine .inr ?_
          have hbefore : ∀ id ∈ tried, decide (id ≠ taskId) = true := by
            intro id hid
            have hne : id ≠ taskId := fun heq => hmem (heq ▸ hid)
            simpa using hne
          rw [hsplit, List.takeWhile_append_of_pos hbefore]
          simp
      have hturn := hvisit taskId tried scan (by simp [hsplit]) hdone hscan
      exact ih (by simp [hsplit]) hturn

theorem searched_detectCircularDeps {fuel : Nat}
    (hfirst : IsFirst (taskIds allTasks) (dependenciesIn allTasks) path)
    (hlisted : path ⊆ taskIds allTasks) (hfuel : allTasks.length < fuel + path.length)
    (hchoice : taskId ∈ taskChoices allTasks path)
    (htried : taskId ∈ tried ∨ (taskChoices allTasks path).takeWhile (· ≠ taskId) = tried)
    (hscan : Searched allTasks found path tried scan) :
    Searched allTasks found path (tried ++ [taskId])
      (detectCircularDeps allTasks fuel path scan taskId) := by
  induction fuel generalizing found path tried scan taskId with
  | zero =>
      have hlength : path.length ≤ allTasks.length := by
        have hle := (hfirst.1.nodup.subperm hlisted).length_le
        rwa [taskIds, List.length_map] at hle
      omega
  | succ fuel ih =>
      unfold detectCircularDeps
      split
      · rename_i hmem
        refine ⟨fun id => ?_, fun id => ?_⟩
        · rw [explored_seen (.inl hmem)]
          exact hscan.visited id
        · rw [List.mem_append, hscan.circular id, reported_append,
            reported_of_mem hfirst hchoice hmem, or_assoc]
      · rename_i hfresh
        split
        · rename_i hvisited
          have hseen := (hscan.visited taskId).mp hvisited
          refine ⟨fun id => ?_, fun id => ?_⟩
          · rw [explored_seen hseen]
            exact hscan.visited id
          · rw [hscan.circular id, reported_append]
            cases htried with
            | inl hagain =>
                have hold : Reported (taskIds allTasks) (dependenciesIn allTasks) path [taskId] id →
                    Reported (taskIds allTasks) (dependenciesIn allTasks) path tried id := by
                  intro hreported
                  obtain ⟨a, ha, hbeyond⟩ := hreported
                  exact ⟨a, List.mem_singleton.mp ha ▸ hagain, hbeyond⟩
                rw [or_iff_left_of_imp hold]
            | inr hbefore =>
                rw [or_iff_left (not_reported_of_seen hbefore hseen hfresh)]
        · rename_i hnew
          have hnew : ¬Explored (taskIds allTasks) (dependenciesIn allTasks) path tried taskId :=
            fun hseen => hnew ((hscan.visited taskId).mpr hseen)
          have hpath := hfirst.1.concat hchoice hfresh
          have htried := htried.resolve_left fun hagain => hnew (.inr
            ⟨path, taskId, path ++ [taskId], .inr ⟨rfl, hagain⟩, hpath, List.prefix_rfl,
              List.getLast?_concat⟩)
          have hlonger := isFirst_concat hfirst.1 hchoice htried hnew
          have hnext : taskChoices allTasks (path ++ [taskId]) = dependenciesIn allTasks taskId :=
            choices_concat path taskId
          have hstart : Searched allTasks
              (fun id => found id ∨
                Reported (taskIds allTasks) (dependenciesIn allTasks) path tried id)
              (path ++ [taskId]) [] { scan with visited := taskId :: scan.visited } := by
            refine ⟨fun id => ?_, fun id => ?_⟩
            · rw [explored_concat htried, ← hscan.visited id, List.mem_cons, or_comm]
            · have hnone : ¬Reported (taskIds allTasks) (dependenciesIn allTasks)
                  (path ++ [taskId]) [] id := by
                intro hreported
                obtain ⟨a, ha, -⟩ := hreported
                cases ha
              exact (hscan.circular id).trans (or_iff_left hnone).symm
          have hturn : ∀ earlier dep done after, dep ∈ taskChoices allTasks (path ++ [taskId]) →
              dep ∈ done ∨
                (taskChoices allTasks (path ++ [taskId])).takeWhile (· ≠ dep) = done →
              Searched allTasks earlier (path ++ [taskId]) done after →
              Searched allTasks earlier (path ++ [taskId]) (done ++ [dep])
                (detectCircularDeps allTasks fuel (path ++ [taskId]) after dep) := by
            intro earlier dep done after hdep hdone hafter
            have hlisting : taskId ∈ taskIds allTasks :=
              mem_taskIds_of_mem_dependenciesIn (hnext ▸ hdep)
            have hlonglist : path ++ [taskId] ⊆ taskIds allTasks := by
              apply List.append_subset.mpr
              exact ⟨hlisted, List.cons_subset.mpr ⟨hlisting, List.nil_subset _⟩⟩
            have hless : allTasks.length < fuel + (path ++ [taskId]).length := by
              rw [List.length_append, List.length_singleton]
              omega
            exact ih hlonger hlonglist hless hdep hdone hafter
          have hloop := hstart.foldl (hturn _) hnext
          rw [hnext] at hloop
          refine ⟨fun id => ?_, fun id => ?_⟩
          · rw [← explored_done hpath htried]
            exact hloop.visited id
          · rw [reported_append, reported_concat hfresh, ← or_assoc]
            exact hloop.circular id

theorem mem_circularDeps : taskId ∈ circularDeps allTasks ↔
      ∃ path dep, Closes (taskIds allTasks) (dependenciesIn allTasks) path dep taskId := by
  have hfirst : IsFirst (taskIds allTasks) (dependenciesIn allTasks) [] := by
    refine ⟨.nil, ?_⟩
    intro stem a q hturns
    cases hturns with
    | inl hearlier =>
        obtain ⟨b, rest, hsplit, -⟩ := hearlier
        simp at hsplit
    | inr hwhole => cases hwhole.2
  have hstart : Searched allTasks (fun _ => False) [] [] {} := by
    refine ⟨fun id => ?_, fun id => ?_⟩
    · refine iff_of_false List.not_mem_nil fun hexplored => ?_
      obtain ⟨stem, a, q, hturns, -⟩ := hexplored.resolve_left List.not_mem_nil
      cases hturns with
      | inl hearlier =>
          obtain ⟨b, rest, hsplit, -⟩ := hearlier
          simp at hsplit
      | inr hwhole => cases hwhole.2
    · refine iff_of_false List.not_mem_nil fun hfound => ?_
      obtain ⟨a, ha, -⟩ := hfound.resolve_left not_false
      cases ha
  have hturn : ∀ id tried scan, id ∈ taskChoices allTasks [] →
      id ∈ tried ∨ (taskChoices allTasks []).takeWhile (· ≠ id) = tried →
      Searched allTasks (fun _ => False) [] tried scan →
      Searched allTasks (fun _ => False) [] (tried ++ [id])
        (detectCircularDeps allTasks (allTasks.length + 2) [] scan id) := by
    intro id tried scan hid htried hscan
    exact searched_detectCircularDeps hfirst (List.nil_subset _) (by simp) hid htried hscan
  have hsplit : taskChoices allTasks [] = [] ++ taskIds allTasks := rfl
  have hloop := (hstart.foldl hturn hsplit).circular taskId
  -- a task that was visited is passed over by the loop and by the search alike
  have hpassed : (fun scan (task : Task) => if task.id ∈ scan.visited then scan
      else detectCircularDeps allTasks (allTasks.length + 2) [] scan task.id) =
      fun scan task => detectCircularDeps allTasks (allTasks.length + 2) [] scan task.id := by
    funext scan task
    split
    · rename_i hvisited
      unfold detectCircularDeps
      rw [if_neg List.not_mem_nil, if_pos hvisited]
    · rfl
  have hcircular : circularDeps allTasks = ((taskIds allTasks).foldl
      (detectCircularDeps allTasks (allTasks.length + 2) []) {}).circular := by
    unfold circularDeps taskIds
    rw [hpassed, List.foldl_map]
  rw [hcircular, hloop, false_or]
  exact reported_nil

/-- The task with the one id waits for the other id, which need not be a task's. -/
def DependsIn (allTasks : List Task) (taskId dep : String) : Prop :=
  dep ∈ dependenciesIn allTasks taskId

instance (allTasks : List Task) : DecidableRel (DependsIn allTasks) :=
  fun _ _ => inferInstanceAs (Decidable (_ ∈ _))

def OnCycle (allTasks : List Task) (taskId : String) : Prop :=
  TransGen (DependsIn allTasks) taskId taskId

/-- Exactly the tasks on cycles are reported if and only if each of them lies where a first path
closes a cycle. -/
theorem circularDeps_exact_iff (allTasks : List Task) :
    (∀ taskId, taskId ∈ circularDeps allTasks ↔ OnCycle allTasks taskId) ↔
      ∀ taskId, OnCycle allTasks taskId →
        ∃ path dep, Closes (taskIds allTasks) (dependenciesIn allTasks) path dep taskId := by
  constructor
  · intro hexact taskId hcycle
    exact mem_circularDeps.mp ((hexact taskId).mpr hcycle)
  · intro hcovered taskId
    constructor
    · intro hreported
      obtain ⟨path, dep, hcloses⟩ := mem_circularDeps.mp hreported
      exact hcloses.cyclic
    · intro hcycle
      exact mem_circularDeps.mpr (hcovered taskId hcycle)

def crossing : List Task :=
  [{ id := "A", status := .ready, dependsOn := ["B", "C"] },
    { id := "B", status := .ready, dependsOn := ["A"] },
    { id := "C", status := .ready, dependsOn := ["B"] }]

/-- The third task depends on the second one, which is done when the search comes to the third. -/
theorem crossing_unreported : ¬∀ (allTasks : List Task) (taskId : String),
    taskId ∈ circularDeps allTasks ↔ OnCycle allTasks taskId := by
  intro hall
  have hcycle : OnCycle crossing "C" := by
    have hfirst : DependsIn crossing "C" "B" := by decide
    have hsecond : DependsIn crossing "B" "A" := by decide
    have hthird : DependsIn crossing "A" "C" := by decide
    exact .tail (.tail (.single hfirst) hsecond) hthird
  have hreported := (hall crossing "C").mpr hcycle
  exact absurd hreported (by decide +kernel)

example : "C" ∈ circularDeps crossing.reverse := by decide +kernel

end Aof
