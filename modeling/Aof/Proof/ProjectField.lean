import Aof.Packaging.Migrations
import Aof.Projects.Migration
import Aof.Proof.TaskFileRoundTrip

/-!
# The migrations of the project field

A task file that is given a project, or whose bogus project is removed, is still the file of the
same task: the body is found again if the closing fence stays a line of its own, and the frontmatter
if its last string is read as it was.
-/

namespace Aof

open JsValue (property deleteProperty)
open ProjectMigration (updateTaskFrontmatter hasProjectField)

section Frontmatter

variable {isDatetime : String → Bool} {properties others : JsObject} {project : JsValue}

def ProjectReplaced (project : JsValue) (properties others : JsObject) : Prop :=
  ∀ key, property key others = if key = "project" then project else property key properties

section

variable (hreplaced : ProjectReplaced project properties others)
include hreplaced

theorem ProjectReplaced.of_ne (key : String) (hne : key ≠ "project") :
    property key others = property key properties :=
  (hreplaced key).trans (if_neg hne)

theorem ProjectReplaced.renameRunbook :
    ∃ renamed renamed', Schemas.renameRunbook (.obj properties) = .obj renamed ∧
      Schemas.renameRunbook (.obj others) = .obj renamed' ∧
      ProjectReplaced project renamed renamed' := by
  have hnew := hreplaced.of_ne "requiredRunbook" (by decide)
  have hold := hreplaced.of_ne "required_runbook" (by decide)
  rw [Schemas.renameRunbook, Schemas.renameRunbook, hnew, hold]
  split
  · refine ⟨_, _, rfl, rfl, fun key => ?_⟩
    rw [JsValue.property_setEntries, JsValue.property_setEntries, hreplaced key]
    by_cases hkey : key = "requiredRunbook"
    · rw [if_pos hkey, if_pos hkey, if_neg (by rw [hkey]; decide)]
    · rw [if_neg hkey, if_neg hkey]
  · exact ⟨_, _, rfl, rfl, hreplaced⟩

theorem oneWorkflow_replaced :
    Schemas.oneWorkflow (.obj others) = Schemas.oneWorkflow (.obj properties) := by
  rw [Schemas.oneWorkflow, Schemas.oneWorkflow, hreplaced.of_ne "gate" (by decide),
    hreplaced.of_ne "workflow" (by decide)]

end

theorem mem_frontmatterFields_project :
    ("project", Schema.optional (Schema.string Schemas.nonempty)) ∈
      Schemas.frontmatterFields isDatetime :=
  .tail _ (.tail _ (.head _))

variable {results : JsObject}

theorem taskFrontmatter_replaced (hreplaced : ProjectReplaced project properties others)
    (hproject : Schema.optional (Schema.string Schemas.nonempty) project = some project)
    (hread : Schemas.TaskFrontmatter isDatetime (.obj properties) = some (.obj results)) :
    ∃ replaced, Schemas.TaskFrontmatter isDatetime (.obj others) = some (.obj replaced) ∧
      ProjectReplaced project results replaced := by
  obtain ⟨hfields, hone⟩ := (Schemas.taskFrontmatter_eq_some_iff isDatetime).mp hread
  obtain ⟨renamed, renamed', hrenamed, hrenamed', hagree⟩ := hreplaced.renameRunbook
  rw [hrenamed] at hfields
  obtain ⟨replaced, hothers, hresults⟩ := Schema.object_replace
    (Schemas.nodup_frontmatterFields isDatetime) hfields hagree mem_frontmatterFields_project
    hproject
  refine ⟨replaced, (Schemas.taskFrontmatter_eq_some_iff isDatetime).mpr ⟨?_, ?_⟩, hresults⟩
  · rw [hrenamed']
    exact hothers
  · rw [oneWorkflow_replaced hresults]
    exact hone

theorem taskFrontmatter_obj {value result : JsValue}
    (hread : Schemas.TaskFrontmatter isDatetime value = some result) :
    (∃ properties, value = .obj properties) ∧ ∃ results, result = .obj results := by
  have hfields := ((Schemas.taskFrontmatter_eq_some_iff isDatetime).mp hread).1
  obtain ⟨renamed, results, hrenamed, -, rfl⟩ := Schema.object_eq_some_iff.mp hfields
  refine ⟨?_, results, rfl⟩
  cases value with
  | obj properties => exact ⟨properties, rfl⟩
  | _ => cases hrenamed

theorem taskFrontmatter_ext {value other : JsValue} {results' : JsObject}
    (hvalue : Schemas.TaskFrontmatter isDatetime value = some (.obj results))
    (hother : Schemas.TaskFrontmatter isDatetime other = some (.obj results'))
    (hsame : ∀ key, property key results = property key results') : results = results' :=
  Schema.object_ext (Schemas.nodup_frontmatterFields isDatetime)
    (Schemas.lawful_frontmatterFields isDatetime)
    ((Schemas.taskFrontmatter_eq_some_iff isDatetime).mp hvalue).1
    ((Schemas.taskFrontmatter_eq_some_iff isDatetime).mp hother).1 hsame

theorem project_read
    (hread : Schemas.TaskFrontmatter isDatetime (.obj properties) = some (.obj results)) :
    Schema.optional (Schema.string Schemas.nonempty) (property "project" properties) =
      some (property "project" results) := by
  have hfields := ((Schemas.taskFrontmatter_eq_some_iff isDatetime).mp hread).1
  have hreplaced : ProjectReplaced (property "project" properties) properties properties :=
    fun key => by split <;> simp_all
  obtain ⟨renamed, renamed', hrenamed, hrenamed', hagree⟩ := hreplaced.renameRunbook
  rw [hrenamed'] at hfields
  have hproject := Schema.property_object (Schemas.nodup_frontmatterFields isDatetime) hfields
    mem_frontmatterFields_project
  rwa [hagree "project", if_pos rfl] at hproject

end Frontmatter

section Body

def solid (lines : List (List Char)) : List Char :=
  lines.flatMap fun line => line.filter fun c => !JsString.isWhitespace c

theorem filter_joinLines (lines : List (List Char)) :
    (joinLines lines).toList.filter (fun c => !JsString.isWhitespace c) = solid lines := by
  rw [joinLines, String.toList_ofList]
  induction lines with
  | nil => rfl
  | cons line lines ih =>
      cases lines with
      | nil => rw [List.intercalate_singleton, solid, List.flatMap_singleton]
      | cons next lines =>
          have hbreak : (['\n'].filter fun c => !JsString.isWhitespace c) = [] := by decide
          rw [List.intercalate_cons_cons, List.filter_append, List.filter_append, ih, hbreak,
            List.append_nil]
          exact List.flatMap_cons.symm

theorem solid_of_trimText_eq {lines others : List (List Char)}
    (hsame : trimText (joinLines lines) = trimText (joinLines others)) :
    solid lines = solid others := by
  have hfilter := congrArg (fun text => text.toList.filter fun c => !JsString.isWhitespace c) hsame
  simp only [toList_trimText, Trim.filter_trim, filter_joinLines] at hfilter
  exact hfilter

theorem trimText_ne_of_fence (before rest : List (List Char)) :
    trimText (joinLines (before ++ FENCE :: rest)) ≠ trimText (joinLines rest) := by
  intro hsame
  have hlength := congrArg List.length (solid_of_trimText_eq hsame)
  have hfence : (FENCE.filter fun c => !JsString.isWhitespace c).length = 3 := by decide
  rw [solid, solid, List.flatMap_append, List.flatMap_cons, List.length_append, List.length_append,
    hfence] at hlength
  omega

variable {body : List (List Char)}

theorem splitOn_fence_body (hhead : ∀ line ∈ body.head?, line = []) :
    ∃ lines, (FENCE ++ (joinLines body).toList).splitOn '\n' = FENCE :: lines ∧
      trimText (joinLines lines) = trimText (joinLines body) := by
  cases body with
  | nil => exact ⟨[], by decide, rfl⟩
  | cons line body =>
      obtain rfl := hhead line rfl
      cases body with
      | nil => exact ⟨[], by decide, by decide⟩
      | cons next body =>
          rw [joinLines, String.toList_ofList, List.intercalate_cons_cons, List.nil_append,
            List.singleton_append]
          refine ⟨_, splitOn_fence _, ?_⟩
          rw [joinLines_splitOn, trimText_cons_lineBreak]

theorem splitOn_fence_cons {line : List Char} (hbody : ∀ other ∈ line :: body, '\n' ∉ other) :
    (FENCE ++ (joinLines (line :: body)).toList).splitOn '\n' = (FENCE ++ line) :: body := by
  have hjoin : FENCE ++ (joinLines (line :: body)).toList =
      ['\n'].intercalate ((FENCE ++ line) :: body) := by
    rw [joinLines, String.toList_ofList]
    cases body with
    | nil => rw [List.intercalate_singleton, List.intercalate_singleton]
    | cons next body =>
        rw [List.intercalate_cons_cons, List.intercalate_cons_cons, List.append_assoc,
          List.append_assoc, List.append_assoc]
  rw [hjoin]
  apply List.splitOn_intercalate
  · rw [List.forall_mem_cons] at hbody ⊢
    refine ⟨fun hmem => ?_, hbody.2⟩
    cases List.mem_append.mp hmem with
    | inl hfence => exact absurd hfence (by decide)
    | inr hline => exact hbody.1 hline
  · exact List.cons_ne_nil _ _

end Body

section Written

variable (yaml : Yaml) (isDatetime : String → Bool)

structure FileParts (content : String) (text : FencedText) (properties : JsObject)
    (task : ParsedTask) : Prop where
  split : splitFrontmatter content = some text
  parse : yaml.parse (joinLines text.yamlBlock) = some (.obj properties)
  schema : Schemas.TaskFrontmatter isDatetime (.obj properties) = some task.frontmatter
  body : task.body = trimText (joinLines text.body)

/-- The file is accepted with the same body, and with the same frontmatter but for the project. -/
def KeepsTask (project : JsValue) (task : ParsedTask) (written : String) : Prop :=
  ∃ rewritten results replaced, parseTaskFile yaml isDatetime written = some rewritten ∧
    rewritten.body = task.body ∧ task.frontmatter = .obj results ∧
    rewritten.frontmatter = .obj replaced ∧ ProjectReplaced project results replaced

def ReadsAlike (value : JsValue) : Prop :=
  endsInEmptyLine (yaml.stringify value) = false ∨
    Schemas.TaskFrontmatter isDatetime (dropLastBreak value) =
      Schemas.TaskFrontmatter isDatetime value

variable {yaml isDatetime} {content written : String} {text : FencedText}
  {properties others : JsObject} {task : ParsedTask} {project : JsValue}

theorem fileParts_of_parse (htask : parseTaskFile yaml isDatetime content = some task) :
    ∃ text properties, FileParts yaml isDatetime content text properties task := by
  obtain ⟨text, raw, hsplit, hparse, hschema, hbody⟩ := parseTaskFile_eq_some_iff.mp htask
  obtain ⟨⟨properties, rfl⟩, -⟩ := taskFrontmatter_obj hschema
  exact ⟨text, properties, hsplit, hparse, hschema, hbody⟩

theorem readsAlike_iff {value : JsValue} :
    ReadsAlike yaml isDatetime value ↔ Schemas.TaskFrontmatter isDatetime (reread yaml value) =
      Schemas.TaskFrontmatter isDatetime value := by
  rw [ReadsAlike, reread]
  cases endsInEmptyLine (yaml.stringify value) with
  | false => exact iff_of_true (.inl rfl) rfl
  | true =>
      apply or_iff_right
      decide

theorem keepsTask_iff (hparts : FileParts yaml isDatetime content text properties task)
    (hyaml : yaml.Lawful (.obj others)) (hreplaced : ProjectReplaced project properties others)
    (hproject : Schema.optional (Schema.string Schemas.nonempty) project = some project)
    {rest : List Char} {body : List (List Char)}
    (hwritten : written.toList = FENCE ++ '\n' :: ((yaml.stringify (.obj others)).toList ++ rest))
    (hrest : rest.splitOn '\n' = FENCE :: body)
    (hbody : trimText (joinLines body) = trimText (joinLines text.body)) :
    KeepsTask yaml isDatetime project task written ↔ ReadsAlike yaml isDatetime (.obj others) := by
  obtain ⟨-, results, hresults⟩ := taskFrontmatter_obj hparts.schema
  obtain ⟨replaced, hothers, hproperties⟩ :=
    taskFrontmatter_replaced hreplaced hproject (hresults ▸ hparts.schema)
  rw [readsAlike_iff, hothers]
  constructor
  · rintro ⟨rewritten, results', replaced', hparse, -, htask, hrewritten, hagree⟩
    obtain ⟨hschema, -⟩ := (hyaml.parseTaskFile_iff hwritten hrest).mp hparse
    rw [hrewritten] at hschema
    obtain rfl : results = results' := JsValue.obj.inj (hresults.symm.trans htask)
    obtain rfl : replaced' = replaced := by
      apply taskFrontmatter_ext hschema hothers
      exact fun key => (hagree key).trans (hproperties key).symm
    exact hschema
  · intro hschema
    refine ⟨⟨.obj replaced, task.body⟩, results, replaced, ?_, rfl, hresults, rfl, hproperties⟩
    apply (hyaml.parseTaskFile_iff hwritten hrest).mpr
    exact ⟨hschema, hparts.body.trans hbody.symm⟩

theorem eq_of_optional_string {value result : JsValue}
    (hread : Schema.optional (Schema.string Schemas.nonempty) value = some result) :
    value = result := by
  rw [Schema.optional] at hread
  split at hread
  · rename_i hundefined
    rw [Schema.isUndefined_eq_true_iff.mp hundefined]
    exact Option.some.inj hread
  · exact (Schema.check_eq_some_iff.mp hread).2

theorem KeepsTask.project_eq (hkeeps : KeepsTask yaml isDatetime project task written) :
    ∃ text raw, splitFrontmatter written = some text ∧
      yaml.parse (joinLines text.yamlBlock) = some (.obj raw) ∧
      property "project" raw = project := by
  obtain ⟨rewritten, results, replaced, hparse, -, -, hrewritten, hagree⟩ := hkeeps
  obtain ⟨text, raw, hparts⟩ := fileParts_of_parse hparse
  refine ⟨text, raw, hparts.split, hparts.parse, ?_⟩
  rw [eq_of_optional_string (project_read (hrewritten ▸ hparts.schema)), hagree, if_pos rfl]

end Written

section Adding

variable (yaml : Yaml) (isDatetime : String → Bool)

/-- The file keeps its task, has the project, and is skipped the next time. -/
def AddsProject (projectId content : String) (task : ParsedTask) : Prop :=
  ∃ written, updateTaskFrontmatter yaml content projectId = some written ∧
    KeepsTask yaml isDatetime (.str projectId) task written ∧
    hasProjectField yaml written projectId = true

variable {yaml isDatetime} {content projectId : String} {text : FencedText}
  {properties : JsObject} {task : ParsedTask}

theorem updateTaskFrontmatter_eq (hparts : FileParts yaml isDatetime content text properties task)
    (projectId : String) : ∃ written, updateTaskFrontmatter yaml content projectId = some written ∧
      written.toList = FENCE ++ '\n' ::
        ((yaml.stringify (.obj (Dict.setEntries "project" (.str projectId) properties))).toList ++
          (FENCE ++ (joinLines text.body).toList)) := by
  refine ⟨"---\n" ++
    yaml.stringify (.obj (Dict.setEntries "project" (.str projectId) properties)) ++ "---" ++
    joinLines text.body, ?_, ?_⟩
  · rw [updateTaskFrontmatter, hparts.split, Option.bind_eq_bind, Option.bind_some, hparts.parse,
      Option.bind_eq_bind, Option.bind_some]
    rfl
  · exact toList_fenced _ _

theorem hasProjectField_of_keepsTask {written : String}
    (hkeeps : KeepsTask yaml isDatetime (.str projectId) task written) :
    hasProjectField yaml written projectId = true := by
  obtain ⟨text, raw, hsplit, hparse, hproject⟩ := hkeeps.project_eq
  have hread : JsValue.readProperty "project" (.obj raw) = some (.str projectId) :=
    congrArg some hproject
  rw [hasProjectField, hsplit]
  simp only [Option.bind_eq_bind, Option.bind_some, hparse, hread, Option.any_some]
  exact beq_self_eq_true projectId

variable (hparts : FileParts yaml isDatetime content text properties task)
include hparts

theorem head_of_keepsTask {value project : JsValue} (hyaml : yaml.Lawful value) {written : String}
    (hwritten : written.toList = FENCE ++ '\n' :: ((yaml.stringify value).toList ++ (FENCE ++
      (joinLines text.body).toList))) (hkeeps : KeepsTask yaml isDatetime project task written) :
    ∀ line ∈ text.body.head?, line = [] := by
  intro line hline
  by_contra hne
  obtain ⟨body, htext⟩ : ∃ body, text.body = line :: body := List.head?_eq_some_iff.mp hline
  obtain ⟨first, hcontent, -⟩ := splitFrontmatter_eq_some hparts.split
  have hbreaks : ∀ other ∈ line :: body, '\n' ∉ other := by
    intro other hother
    apply @LineText.not_mem_of_mem_splitOn Char _ _ _ content.toList
    rw [hcontent, htext]
    exact List.mem_cons_of_mem _ (List.mem_append_right _ (List.mem_cons_of_mem _ hother))
  have hlines := hyaml.splitOn_content hwritten
  rw [htext, splitOn_fence_cons hbreaks] at hlines
  obtain ⟨rewritten, results, replaced, hparse, hbody, -⟩ := hkeeps
  obtain ⟨text', raw, hparts'⟩ := fileParts_of_parse hparse
  obtain ⟨first', hlines', hblock⟩ := splitFrontmatter_eq_some hparts'.split
  rw [hlines, List.cons.injEq] at hlines'
  -- The closing fence that the parser finds is one of the body.
  obtain ⟨before, hafter⟩ : ∃ before, body = before ++ FENCE :: text'.body := by
    have hfence : FENCE ++ line ≠ FENCE := fun h => hne (List.append_right_eq_self.mp h)
    rcases List.append_eq_append_iff.mp hlines'.2 with
      ⟨middle, hmiddle, hrest⟩ | ⟨middle, hmiddle, hrest⟩
    · cases middle with
      | nil => exact absurd (List.cons.inj hrest).1 hfence
      | cons other middle => exact ⟨middle, (List.cons.inj hrest).2⟩
    · cases middle with
      | nil => exact absurd (List.cons.inj hrest).1.symm hfence
      | cons other middle =>
          obtain rfl := (List.cons.inj hrest).1
          refine absurd ?_ hyaml.not_mem_yamlLines
          rw [hmiddle]
          exact List.mem_append_right _ List.mem_cons_self
  apply trimText_ne_of_fence (line :: before) text'.body
  rw [List.cons_append, ← hafter, ← htext, ← hparts.body, ← hparts'.body, hbody]

theorem addsProject_iff
    (hyaml : yaml.Lawful (.obj (Dict.setEntries "project" (.str projectId) properties))) :
    AddsProject yaml isDatetime projectId content task ↔
      (∀ line ∈ text.body.head?, line = []) ∧ projectId ≠ "" ∧ ReadsAlike yaml isDatetime
          (.obj (Dict.setEntries "project" (.str projectId) properties)) := by
  obtain ⟨written, hupdate, hwritten⟩ := updateTaskFrontmatter_eq hparts projectId
  have hreplaced : ProjectReplaced (.str projectId) properties
      (Dict.setEntries "project" (.str projectId) properties) :=
    fun key => JsValue.property_setEntries "project" key (.str projectId) properties
  have hvalid : projectId ≠ "" → Schema.optional (Schema.string Schemas.nonempty) (.str projectId) =
      some (.str projectId) := fun hne => if_pos (decide_eq_true hne)
  constructor
  · rintro ⟨written', hupdate', hkeeps, -⟩
    obtain rfl : written = written' := Option.some.inj (hupdate.symm.trans hupdate')
    have hhead := head_of_keepsTask hparts hyaml hwritten hkeeps
    have hne : projectId ≠ "" := by
      obtain ⟨rewritten, results, replaced, hparse, -, -, hrewritten, hagree⟩ := hkeeps
      obtain ⟨text', raw, hparts'⟩ := fileParts_of_parse hparse
      have hread := project_read (hrewritten ▸ hparts'.schema)
      obtain heq := eq_of_optional_string hread
      rw [hagree, if_pos rfl] at heq hread
      rw [heq] at hread
      have hstring : Schema.string Schemas.nonempty (.str projectId) = some (.str projectId) :=
        hread
      exact of_decide_eq_true (Schema.check_eq_some_iff.mp hstring).1
    obtain ⟨lines, hrest, hbody⟩ := splitOn_fence_body hhead
    exact ⟨hhead, hne, (keepsTask_iff hparts hyaml hreplaced (hvalid hne) hwritten hrest hbody).mp
      hkeeps⟩
  · rintro ⟨hhead, hne, halike⟩
    obtain ⟨lines, hrest, hbody⟩ := splitOn_fence_body hhead
    have hkeeps := (keepsTask_iff hparts hyaml hreplaced (hvalid hne) hwritten hrest hbody).mpr
      halike
    exact ⟨written, hupdate, hkeeps, hasProjectField_of_keepsTask hkeeps⟩

end Adding

section Stripping

variable (yaml : Yaml) (isDatetime : String → Bool)

/-- A file that is modified keeps its task, has no project, and is not modified the next time. -/
def StripsProject (content : String) (task : ParsedTask) : Prop :=
  ∀ written, stripBogusProjectFromFile yaml content = some written →
    KeepsTask yaml isDatetime .undefined task written ∧
      stripBogusProjectFromFile yaml written = none

variable {yaml isDatetime} {content : String} {text : FencedText} {properties : JsObject}
  {task : ParsedTask}

theorem stripBogusProjectFromFile_eq
    (hparts : FileParts yaml isDatetime content text properties task) :
    stripBogusProjectFromFile yaml content =
      if (property "project" properties).strictEq (.str BOGUS_PROJECT_ID) then
        some ("---\n" ++ yaml.stringify (.obj (deleteProperty "project" properties)) ++ "---\n" ++
          joinLines text.body)
      else none := by
  rw [stripBogusProjectFromFile, hparts.split, Option.bind_eq_bind, Option.bind_some, hparts.parse,
    Option.bind_eq_bind, Option.bind_some]
  rfl

theorem not_stripped_of_keepsTask {written : String}
    (hkeeps : KeepsTask yaml isDatetime .undefined task written) :
    stripBogusProjectFromFile yaml written = none := by
  obtain ⟨text, raw, hsplit, hparse, hproject⟩ := hkeeps.project_eq
  rw [stripBogusProjectFromFile, hsplit, Option.bind_eq_bind, Option.bind_some, hparse,
    Option.bind_eq_bind, Option.bind_some]
  exact if_neg (by rw [hproject]; exact Bool.false_ne_true)

theorem strictEq_bogus_iff {value : JsValue} :
    value.strictEq (.str BOGUS_PROJECT_ID) = true ↔ value = .str BOGUS_PROJECT_ID := by
  cases value with
  | str text =>
      rw [JsValue.str.injEq]
      exact beq_iff_eq
  | _ => exact iff_of_false Bool.false_ne_true fun h => by cases h

theorem stripsProject_iff (hparts : FileParts yaml isDatetime content text properties task)
    (hyaml : yaml.Lawful (.obj (deleteProperty "project" properties))) :
    StripsProject yaml isDatetime content task ↔
      (property "project" properties = .str BOGUS_PROJECT_ID →
        ReadsAlike yaml isDatetime (.obj (deleteProperty "project" properties))) := by
  rw [StripsProject, stripBogusProjectFromFile_eq hparts]
  by_cases hbogus : property "project" properties = .str BOGUS_PROJECT_ID
  · have hwritten :=
      toList_fenced_line (yaml.stringify (.obj (deleteProperty "project" properties)))
        (joinLines text.body)
    have hbody : trimText (joinLines ((joinLines text.body).toList.splitOn '\n')) =
        trimText (joinLines text.body) := by
      rw [joinLines_splitOn, String.ofList_toList]
    have hkeeps := keepsTask_iff hparts hyaml
      (fun key => JsValue.property_deleteProperty "project" key properties) rfl hwritten
      (splitOn_fence _) hbody
    rw [if_pos (strictEq_bogus_iff.mpr hbogus)]
    constructor
    · exact fun hstrips _ => hkeeps.mp (hstrips _ rfl).1
    · intro halike written hstripped
      obtain rfl := Option.some.inj hstripped
      have htask := hkeeps.mpr (halike hbogus)
      exact ⟨htask, not_stripped_of_keepsTask htask⟩
  · rw [if_neg fun h => hbogus (strictEq_bogus_iff.mp h)]
    exact iff_of_true (fun _ h => by cases h) fun h => absurd h hbogus

end Stripping

/-- The two migrations keep a task file that the parser accepts, exactly if the body does not begin
right after the fence (when a project is added, which is not the empty one) and the frontmatter is
read alike without the last line break of its text. -/
theorem project_migrations_iff {yaml : Yaml} {isDatetime : String → Bool} {content : String}
    {task : ParsedTask} (htask : parseTaskFile yaml isDatetime content = some task)
    {text : FencedText} (hsplit : splitFrontmatter content = some text) {properties : JsObject}
    (hparse : yaml.parse (joinLines text.yamlBlock) = some (.obj properties)) (projectId : String)
    (hadded : yaml.Lawful (.obj (Dict.setEntries "project" (.str projectId) properties)))
    (hstripped : yaml.Lawful (.obj (deleteProperty "project" properties))) :
    (AddsProject yaml isDatetime projectId content task ↔
      (∀ line ∈ text.body.head?, line = []) ∧ projectId ≠ "" ∧ ReadsAlike yaml isDatetime
          (.obj (Dict.setEntries "project" (.str projectId) properties))) ∧
    (StripsProject yaml isDatetime content task ↔
      (property "project" properties = .str BOGUS_PROJECT_ID →
        ReadsAlike yaml isDatetime (.obj (deleteProperty "project" properties)))) := by
  obtain ⟨text', properties', hparts⟩ := fileParts_of_parse htask
  obtain rfl : text = text' := Option.some.inj (hsplit.symm.trans hparts.split)
  obtain rfl : properties = properties' :=
    JsValue.obj.inj (Option.some.inj (hparse.symm.trans hparts.parse))
  exact ⟨addsProject_iff hparts hadded, stripsProject_iff hparts hstripped⟩

def reportIn (project : String) : JsObject := reportFields "x" ++ [("project", .str project)]

def endingIn (project : String) : String := "testsFile: x\nproject: " ++ project ++ "\n"

def projectYaml : Yaml where
  stringify
    | .obj properties =>
        match property "project" properties with
        | .str project => reportText (endingIn project)
        | _ => reportText "testsFile: x\n"
    | _ => ""
  parse text :=
    if text = reportText "testsFile: x\n" ∨ text = reportText "testsFile: x" then
      some (reportFrontmatter "x")
    else if text = reportText (endingIn "data") ∨ text = reportText (chopped (endingIn "data")) then
      some (.obj (reportIn "data"))
    else if text = reportText (endingIn "_inbox") ∨
        text = reportText (chopped (endingIn "_inbox")) then some (.obj (reportIn "_inbox"))
    else none

theorem parse_reportIn (ending : String) :
    projectYaml.parse (reportText ending) =
      if ending = "testsFile: x\n" ∨ ending = "testsFile: x" then some (reportFrontmatter "x")
      else if ending = endingIn "data" ∨ ending = chopped (endingIn "data") then
        some (.obj (reportIn "data"))
      else if ending = endingIn "_inbox" ∨ ending = chopped (endingIn "_inbox") then
        some (.obj (reportIn "_inbox"))
      else none := by
  simp only [projectYaml, reportText_inj]

theorem stringify_strippedReport :
    projectYaml.stringify (reportFrontmatter "x") = reportText "testsFile: x\n" := by
  have hproject : property "project" (reportFields "x") = .undefined := rfl
  simp only [projectYaml, reportFrontmatter, hproject]

theorem stringify_reportIn (project : String) :
    projectYaml.stringify (.obj (reportIn project)) = reportText (endingIn project) := by
  have hproject : property "project" (reportIn project) = .str project := rfl
  simp only [projectYaml, hproject]

theorem lawful_strippedReport : projectYaml.Lawful (reportFrontmatter "x") := by
  apply @lawful_reportText _ _ (reportFrontmatter "x") "testsFile: x\n" stringify_strippedReport
  · decide +kernel
  · decide +kernel
  · decide +kernel
  · exact parse_reportIn _
  · exact parse_reportIn _
  · rfl
  · exact fun h => by cases h

theorem lawful_reportIn {project : String} (hproject : project = "data" ∨ project = "_inbox") :
    projectYaml.Lawful (.obj (reportIn project)) := by
  rcases hproject with rfl | rfl <;>
    apply @lawful_reportText _ _ (.obj (reportIn _)) _ (stringify_reportIn _)
  any_goals decide +kernel
  · exact parse_reportIn _
  · exact parse_reportIn _
  · rfl
  · exact parse_reportIn _
  · exact parse_reportIn _
  · rfl

def reportFile (body : String) : String :=
  "---\n" ++ projectYaml.stringify (.obj (reportIn "data")) ++ "---\n" ++ body

theorem reread_reportIn : reread projectYaml (.obj (reportIn "data")) = .obj (reportIn "data") := by
  rw [reread, stringify_reportIn, endsInEmptyLine_reportText (by decide +kernel)]
  exact if_neg (by decide +kernel)

theorem fileParts_reportFile (body : String) : ∃ task,
    FileParts projectYaml (· == reportTime) (reportFile body)
      ⟨yamlLines projectYaml (.obj (reportIn "data")), body.toList.splitOn '\n'⟩
      (reportIn "data") task := by
  have hyaml := lawful_reportIn (.inl rfl)
  have hcontent := toList_fenced_line (projectYaml.stringify (.obj (reportIn "data"))) body
  have hreplaced : ProjectReplaced (.str "data") (reportFields "x") (reportIn "data") :=
    fun key => JsValue.property_setEntries "project" key (.str "data") (reportFields "x")
  obtain ⟨results, hschema, -⟩ := taskFrontmatter_replaced hreplaced rfl
    (valid_reportFrontmatter "x")
  refine ⟨⟨.obj results, trimText (joinLines (body.toList.splitOn '\n'))⟩,
    hyaml.splitFrontmatter_eq hcontent (splitOn_fence _), ?_, hschema, rfl⟩
  rw [hyaml.parse_yamlLines, reread_reportIn]

theorem readsAlike_reportIn {project : String} (hproject : project = "data" ∨ project = "_inbox") :
    ReadsAlike projectYaml (· == reportTime) (.obj (reportIn project)) := by
  left
  rw [stringify_reportIn]
  rcases hproject with rfl | rfl <;> rw [endsInEmptyLine_reportText (by decide +kernel)] <;>
    decide +kernel

/-- With an empty line after the fence, both migrations keep the report. -/
theorem report_migrated : ∃ task,
    parseTaskFile projectYaml (· == reportTime) (reportFile "\ntext\n") = some task ∧
      AddsProject projectYaml (· == reportTime) "_inbox" (reportFile "\ntext\n") task ∧
      StripsProject projectYaml (· == reportTime) (reportFile "\ntext\n") task := by
  obtain ⟨task, hparts⟩ := fileParts_reportFile "\ntext\n"
  have htask : parseTaskFile projectYaml (· == reportTime) (reportFile "\ntext\n") = some task :=
    parseTaskFile_eq_some_iff.mpr ⟨_, _, hparts.split, hparts.parse, hparts.schema, hparts.body⟩
  obtain ⟨hadds, hstrips⟩ := project_migrations_iff htask hparts.split hparts.parse "_inbox"
    (lawful_reportIn (.inr rfl)) lawful_strippedReport
  refine ⟨task, htask, hadds.mpr ⟨?_, ?_, readsAlike_reportIn (.inr rfl)⟩, hstrips.mpr ?_⟩
  · decide +kernel
  · decide
  · intro _
    left
    exact (congrArg endsInEmptyLine stringify_strippedReport).trans
      (endsInEmptyLine_reportText (by decide +kernel))

/-- A body that begins on the line after the fence is not found again. -/
theorem report_body_lost : ∃ task,
    parseTaskFile projectYaml (· == reportTime) (reportFile "text\n") = some task ∧
      projectYaml.Lawful (.obj (reportIn "_inbox")) ∧
      ¬AddsProject projectYaml (· == reportTime) "_inbox" (reportFile "text\n") task := by
  obtain ⟨task, hparts⟩ := fileParts_reportFile "text\n"
  have htask : parseTaskFile projectYaml (· == reportTime) (reportFile "text\n") = some task :=
    parseTaskFile_eq_some_iff.mpr ⟨_, _, hparts.split, hparts.parse, hparts.schema, hparts.body⟩
  refine ⟨task, htask, lawful_reportIn (.inr rfl), fun hadds => ?_⟩
  have hhead := ((addsProject_iff hparts (lawful_reportIn (.inr rfl))).mp hadds).1
  exact absurd hhead (by decide +kernel)

end Aof
