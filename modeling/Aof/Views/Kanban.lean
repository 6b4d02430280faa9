import Aof.Dispatch.TaskDispatcher
import Aof.Store.Frontmatter

/-!
# Kanban view

`views/kanban.ts`: a directory of pointers to the task files, by lanes and columns.  Nothing but the
view itself is in its directory, and the counts that a call returns are left out.
-/

namespace Aof

/-- A task as the store lists it, with the names on the way to its file. -/
structure ListedTask where
  id : String
  document : Document
  path : List String

inductive KanbanSwimlane where
  | priority
  | project
  | phase

def KanbanSwimlane.toString : KanbanSwimlane → String
  | priority => "priority"
  | project => "project"
  | phase => "phase"

/-- `numberText` is `String` of a number. -/
structure KanbanViewOptions where
  yaml : Yaml
  numberText : JsNumber → String
  baseDir : List String
  swimlaneBy : KanbanSwimlane

def KANBAN_COLUMNS : List TaskStatus := [.backlog, .ready, .inProgress, .blocked, .review, .done]

def resolveAssignedAgent (document : Document) : Option String :=
  (truthy (document.lease.map Lease.agent)).or <| (truthy document.routing.agent).or <|
    match document.metadata.get? "assignee" with
    | some (.str assignee) => some assignee
    | _ => none

def KanbanViewOptions.resolveSwimlane (options : KanbanViewOptions) (document : Document) :
    String :=
  match options.swimlaneBy with
  | .priority => document.priority.toString
  | .phase =>
      match document.metadata.get? "phase" with
      | some (.str phase) => if jsTrim phase = "" then "unassigned" else jsTrim phase
      | some (.num phase) => options.numberText phase
      | _ => "unassigned"
  | .project =>
      match document.metadata.get? "project" with
      | some (.str project) => if jsTrim project = "" then "unassigned" else jsTrim project
      | _ => "unassigned"

def dashEach (p : Char → Bool) (cs : List Char) : List Char :=
  cs.map fun c => if p c then '-' else c

/-- One dash for each run. -/
def dashRuns (p : Char → Bool) : List Char → List Char
  | [] => []
  | c :: cs =>
      if p c then if cs.head?.any p then dashRuns p cs else '-' :: dashRuns p cs
      else c :: dashRuns p cs

def isLaneChar (c : Char) : Bool := c.isAlphanum || c = '-' || c = '_'

/-- A character of two code units makes two dashes, which the last step joins. -/
def normalizeSwimlane (name : String) : String :=
  if jsTrim name = "" then "unassigned"
  else
    let plain := dashRuns isJsSpace
      (dashEach (fun c => c = '\\' || c = '/') (jsTrim name).toList)
    String.ofList (dashRuns (· = '-') (dashEach (fun c => !isLaneChar c) plain))

def relative : List String → List String → List String
  | a :: p, b :: q => if a = b then relative p q else (a :: p).map (fun _ => "..") ++ b :: q
  | p, q => p.map (fun _ => "..") ++ q

def pointerName (task : ListedTask) : String := task.id ++ ".md"

/-- The directories of the lanes, and the files in the columns. -/
structure KanbanRoot where
  lanes : List String := []
  files : String × TaskStatus → Dict String String := fun _ => .empty

namespace KanbanViewOptions

variable (options : KanbanViewOptions)

def renderPointer (task : ListedTask) (lane canonicalPath : String) : String :=
  let frontmatter : JsValue := .obj
    [("id", .str task.id), ("title", .str task.document.title),
      ("status", .str task.document.status.toString),
      ("priority", .str task.document.priority.toString),
      ("agent", ((resolveAssignedAgent task.document).map .str).getD .undefined),
      ("swimlane", .str lane)]
  "---\n" ++ String.ofList ((options.yaml.stringify frontmatter).toList.rdropWhile isJsSpace) ++
    "\n---\n\n# " ++ task.document.title ++ "\nCanonical: " ++ canonicalPath ++ "\n"

def pointerText (cell : String × TaskStatus) (task : ListedTask) : String :=
  let dir := options.baseDir ++ [options.swimlaneBy.toString, cell.1, cell.2.toString]
  options.renderPointer task cell.1 (String.intercalate "/" (relative dir task.path))

def laneOf (task : ListedTask) : String := normalizeSwimlane (options.resolveSwimlane task.document)

/-- `desired`: the tasks of each lane, by their statuses. -/
def addDesired (desired : Dict String (Dict TaskStatus (List ListedTask))) (task : ListedTask) :
    Dict String (Dict TaskStatus (List ListedTask)) :=
  let byStatus := (desired.get? (options.laneOf task)).getD .empty
  let bucket := (byStatus.get? task.document.status).getD []
  desired.set (options.laneOf task) (byStatus.set task.document.status (bucket ++ [task]))

/-- A file that has the text already is left alone, which makes no difference here. -/
def writePointers (cell : String × TaskStatus) (tasks : List ListedTask)
    (files : Dict String String) : Dict String String :=
  tasks.foldl (fun files task => files.set (pointerName task) (options.pointerText cell task)) files

end KanbanViewOptions

def isPointerName (entry : String) : Bool := ".md".toList.isSuffixOf entry.toList

def pruneDir (keep : List String) (files : Dict String String) : Dict String String :=
  (files.keys.filter fun entry => isPointerName entry && !keep.contains entry).foldl
    (fun files entry => files.erase entry) files

/-- The lanes that exist are visited first, then those that tasks are in. -/
def KanbanViewOptions.syncKanbanView (options : KanbanViewOptions) (tasks : List ListedTask)
    (root : KanbanRoot) : KanbanRoot :=
  let desired := tasks.foldl options.addDesired .empty
  let lanesToProcess := root.lanes ++ desired.keys.filter fun lane => !root.lanes.contains lane
  lanesToProcess.foldl (fun root lane =>
    let byStatus := (desired.get? lane).getD .empty
    KANBAN_COLUMNS.foldl (fun root status =>
      let tasksForColumn := (byStatus.get? status).getD []
      let written := options.writePointers (lane, status) tasksForColumn (root.files (lane, status))
      { lanes := if lane ∈ root.lanes then root.lanes else root.lanes ++ [lane]
        files := Function.update root.files (lane, status)
          (pruneDir (tasksForColumn.map pointerName) written) }) root) root

end Aof
