import Aof.Lib.Command
import Aof.Store.Frontmatter
import Mathlib.Data.List.Lex
import Mathlib.Data.String.Basic
import Mathlib.Data.Sum.Order
import Mathlib.Data.Prod.Lex
import Mathlib.Order.WithBot

/-!
# The migration framework

The runs of migrations from `packaging/migrations.ts`, with the versions that they compare as texts.
The effects of a migration are left open; only that it is called, and whether it throws, is kept.
-/

namespace Aof

/-- A semantic version; the identifiers of a prerelease are numbers or texts. -/
structure SemVer where
  major : Nat
  minor : Nat
  patch : Nat
  prerelease : List (Nat ⊕ String) := []
  deriving DecidableEq

namespace SemVer

def identifierText : Nat ⊕ String → String
  | .inl number => toString number
  | .inr text => text

def text (version : SemVer) : String :=
  ".".intercalate ([version.major, version.minor, version.patch].map toString) ++
    if version.prerelease = [] then ""
    else "-" ++ ".".intercalate (version.prerelease.map identifierText)

/-- The precedence of semantic versions: the numbers, a prerelease before the release, the
identifiers one by one, a number before a text. -/
def precedence (version : SemVer) : List Nat ×ₗ WithTop (List (Nat ⊕ₗ String)) :=
  toLex ([version.major, version.minor, version.patch],
    if version.prerelease = [] then ⊤
    else (version.prerelease.map toLex : List (Nat ⊕ₗ String)))

end SemVer

/-- The parts between the dots are compared one by one, as numbers; a part that is not a number is
neither less nor greater than another. -/
def compareVersions (a b : String) : Int :=
  let aParts := (JsString.splitDots a).map JsString.toNumber
  let bParts := (JsString.splitDots b).map JsString.toNumber
  let compared := (List.range (max aParts.length bParts.length)).findSome? fun i =>
    let aPart := aParts[i]?.getD (.finite 0)
    let bPart := bParts[i]?.getD (.finite 0)
    if aPart.less bPart then some (-1)
    else if bPart.less aPart then some 1
    else none
  compared.getD 0

structure Migration where
  id : String
  version : SemVer
  reversible : Bool := true
  deriving DecidableEq

inductive MigrationCall where
  | up (id : String)
  | down (id : String)
  deriving DecidableEq, Repr

structure MigrationState where
  history : List String
  calls : List MigrationCall := []
  deriving DecidableEq

namespace MigrationState

def recordMigration (migrationId : String) : Command MigrationState Unit :=
  Command.modify fun state => { state with history := state.history ++ [migrationId] }

def removeMigration (migrationId : String) : Command MigrationState Unit :=
  Command.modify fun state =>
    { state with history := state.history.filter fun id => id ≠ migrationId }

def call (throws : MigrationCall → Bool) (migrationCall : MigrationCall) :
    Command MigrationState Unit := do
  Command.modify fun state => { state with calls := state.calls ++ [migrationCall] }
  if throws migrationCall then .throw else pure ()

def applyUp (throws : MigrationCall → Bool) (migration : Migration) :
    Command MigrationState Unit := do
  call throws (.up migration.id)
  recordMigration migration.id

def applyDown (throws : MigrationCall → Bool) (migration : Migration) :
    Command MigrationState Unit :=
  if !migration.reversible then .throw
  else do
    call throws (.down migration.id)
    removeMigration migration.id

end MigrationState

def pendingUp (migrations : List Migration) (history : List String) (targetVersion : SemVer) :
    List Migration :=
  migrations.filter fun m =>
    m.id ∉ history ∧ compareVersions m.version.text targetVersion.text ≤ 0

/-- The migrations that a downward run is going to take back, in the order of the array. -/
def pendingDown (migrations : List Migration) (history : List String) (targetVersion : SemVer) :
    List Migration :=
  migrations.filter fun m =>
    m.id ∈ history ∧ 0 < compareVersions m.version.text targetVersion.text

/-- `sort((a, b) => compareVersions(a.version, b.version))`, which is stable. -/
def sortByVersion (migrations : List Migration) : List Migration :=
  migrations.insertionSort fun a b => compareVersions a.version.text b.version.text ≤ 0

def runUp (throws : MigrationCall → Bool) (migrations : List Migration) (targetVersion : SemVer) :
    Command MigrationState Unit := do
  let state ← Command.read
  (sortByVersion (pendingUp migrations state.history targetVersion)).forM
    (MigrationState.applyUp throws)

def runDown (throws : MigrationCall → Bool) (migrations : List Migration)
    (targetVersion : SemVer) : Command MigrationState Unit := do
  let state ← Command.read
  (pendingDown migrations state.history targetVersion).reverse.forM
    (MigrationState.applyDown throws)

end Aof

/-!
## The project field of tasks without a project

Migration 008 (`packaging/migrations/008-strip-bogus-project-data.ts`): a project that is exactly
`data` is removed from the frontmatter.
-/

namespace Aof

def BOGUS_PROJECT_ID : String := "data"

def stripBogusProjectFromFile (yaml : Yaml) (raw : String) : Option String := do
  let text ← splitFrontmatter raw
  match ← yaml.parse (joinLines text.yamlBlock) with
  | .obj parsed =>
      if (JsValue.property "project" parsed).strictEq (.str BOGUS_PROJECT_ID) then
        let newYaml := yaml.stringify (.obj (JsValue.deleteProperty "project" parsed))
        some s!"---\n{newYaml}---\n{joinLines text.body}"
      else none
  | _ => none

end Aof
