import Aof.Projects.Migration

/-!
# The context of a task

`assembleContext` of `context/assembler.ts`.  Texts are lists of code units, as lengths and cuts are
counted in them.
-/

namespace Aof

abbrev CodeUnits := List Nat

open ProjectMigration (codeUnits)

structure ContextLayers where
  seed : List String := []
  optional : List String := []
  deep : List String := []

structure ContextManifest where
  taskId : String
  layers : ContextLayers

structure AssembleOptions where
  maxChars : Option JsNumber := none
  includeDeep : Bool := false

structure ContextBundle where
  summary : CodeUnits
  manifest : ContextManifest
  totalChars : Nat
  sources : List String

/-- What the assembler reads of a task; `frontmatterYaml` is what the yaml library writes for its
frontmatter. -/
structure ContextTask where
  path : Option String := none
  status : String
  title : CodeUnits
  frontmatterYaml : CodeUnits
  body : CodeUnits

inductive ContextLayer where
  | seed
  | optional
  | deep
  deriving DecidableEq, Repr

def ContextLayer.title : ContextLayer → String
  | .seed => "Input"
  | .optional => "Optional"
  | .deep => "Deep"

/-- A reference with what the resolvers answer; none, if they throw. -/
structure Reference where
  ref : String
  content : Option CodeUnits

namespace ContextAssembler

def generateDefaultManifest (taskId : String) (inputFiles : List String) : ContextManifest where
  taskId := taskId
  layers := {
    seed := s!"tasks/backlog/{taskId}.md" ::
      inputFiles.map fun filename => s!"{taskId}/inputs/{filename}" }

def truncationNotice : CodeUnits :=
  codeUnits "\n\n[Content truncated due to character budget]\n"

/-- `maxChars`, if a condition takes it for true. -/
def budget (maxChars : Option JsNumber) : Option JsNumber :=
  maxChars.filter fun limit => !(limit = .finite 0 ∨ limit = .nan)

/-- `limit - length`, which is exact where the limit is the larger one; below zero only the sign is
used. -/
def remaining (limit : JsNumber) (length : Nat) : JsNumber :=
  match limit with
  | .finite value => .finite (value - length)
  | other => other

def substringTo (text : CodeUnits) (stop : JsNumber) : CodeUnits :=
  match stop with
  | .posInf => text
  | .finite value => text.take ⌊value⌋.toNat
  | .negInf | .nan => []

def label (ref : String) : String :=
  String.ofList ((ref.toList.splitOn '/').getLast?.getD [])

def contentSection (layer : ContextLayer) (ref : String) (content : CodeUnits) : CodeUnits :=
  codeUnits s!"## {layer.title}: {label ref}\n\n" ++ content ++ codeUnits "\n\n"

structure Assembly where
  summary : CodeUnits
  sources : List String

/-- The second component says whether to go on with the layer. -/
def addContent (maxChars : Option JsNumber) (text : CodeUnits) (ref : String)
    (assembly : Assembly) : Assembly × Bool :=
  let whole : Assembly := ⟨assembly.summary ++ text, assembly.sources ++ [ref]⟩
  match budget maxChars with
  | none => (whole, true)
  | some limit =>
      if limit.less (.finite (assembly.summary.length + text.length : Nat)) then
        let left := remaining limit assembly.summary.length
        if (JsNumber.finite 100).less left then
          ({ assembly with
              summary := assembly.summary ++ substringTo text left ++ truncationNotice }, false)
        else (assembly, false)
      else (whole, true)

def resolveLayer (maxChars : Option JsNumber) (layer : ContextLayer) :
    List Reference → Assembly → Assembly
  | [], assembly => assembly
  | reference :: rest, assembly =>
      match reference.content with
      | none => resolveLayer maxChars layer rest assembly
      | some content =>
          let (next, more) := addContent maxChars
            (contentSection layer reference.ref content) reference.ref assembly
          if more then resolveLayer maxChars layer rest next else next

def taskCardPath (taskId : String) (task : ContextTask) : String :=
  task.path.getD s!"tasks/{task.status}/{taskId}.md"

def taskSection (task : ContextTask) : CodeUnits :=
  codeUnits "# Task: " ++ task.title ++ codeUnits "\n\n## Metadata\n```yaml\n" ++
    task.frontmatterYaml ++ codeUnits "```\n\n## Description\n" ++ task.body ++ codeUnits "\n\n"

/-- A reference that ends in the file name of the task stands for its card, whose directory depends
on the status. -/
def isTaskCard (taskId : String) (task : ContextTask) (ref : String) : Bool :=
  ref = taskCardPath taskId task || (taskId ++ ".md").toList.isSuffixOf ref.toList

def references (resolve : ContextLayer → Nat → String → Option CodeUnits) (layer : ContextLayer)
    (refs : List String) : List Reference :=
  refs.zipIdx.map fun entry => ⟨entry.1, resolve layer entry.2 entry.1⟩

/-- `summary.length < (maxChars ?? Infinity)` -/
def hasRoom (maxChars : Option JsNumber) (assembly : Assembly) : Bool :=
  (JsNumber.finite assembly.summary.length).less (maxChars.getD .posInf)

def enforceBudget (maxChars : Option JsNumber) (summary : CodeUnits) : CodeUnits :=
  match budget maxChars with
  | none => summary
  | some limit =>
      if limit.less (.finite summary.length) then
        substringTo summary (remaining limit truncationNotice.length) ++ truncationNotice
      else summary

end ContextAssembler

open ContextAssembler

def assembleContext (taskId : String) (task : ContextTask) (loaded : Option ContextManifest)
    (inputFiles : List String) (resolve : ContextLayer → Nat → String → Option CodeUnits)
    (opts : AssembleOptions) : ContextBundle :=
  let manifest := loaded.getD (generateDefaultManifest taskId inputFiles)
  let card := taskCardPath taskId task
  let start : Assembly := ⟨taskSection task, [card]⟩
  let seeded := resolveLayer opts.maxChars .seed
    ((references resolve .seed manifest.layers.seed).filter
      fun reference => !isTaskCard taskId task reference.ref) start
  let withOptional :=
    if hasRoom opts.maxChars seeded then
      resolveLayer opts.maxChars .optional
        (references resolve .optional manifest.layers.optional) seeded
    else seeded
  let assembly :=
    if opts.includeDeep && hasRoom opts.maxChars withOptional then
      resolveLayer opts.maxChars .deep (references resolve .deep manifest.layers.deep) withOptional
    else withOptional
  let summary := enforceBudget opts.maxChars assembly.summary
  { summary, manifest, totalChars := summary.length, sources := assembly.sources }

end Aof
