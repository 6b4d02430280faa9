import Mathlib.Data.List.Lex
import Aof.Lib.DiskProgram
import Aof.Store.Frontmatter

/-!
# The migration of a vault to projects

The directories of a legacy vault are moved into a backup and copied from there into the project
`_inbox`; the rollback moves them back (`projects/migration.ts`, `projects/bootstrap.ts`,
`projects/manifest.ts`).  Paths are relative to the root of the vault.
-/

namespace Aof

open DiskProgram

namespace ProjectMigration

def LEGACY_DIRS : List String := ["tasks", "events", "views", "state"]

def INBOX : DiskPath := ["Projects", "_inbox"]

structure MigrationOptions where
  dryRun : Bool := false
  backupDir : Option String := none
  timestamp : Option String := none

structure RollbackOptions where
  dryRun : Bool := false
  backupDir : Option String := none

structure MigrationResult where
  success : Bool
  backupPath : Option DiskPath := none
  migratedDirs : List String := []
  updatedTaskCount : Nat := 0
  skippedTaskCount : Nat := 0
  warnings : List String := []
  deriving DecidableEq

structure RollbackResult where
  success : Bool
  restoredDirs : List String
  warnings : List String
  deriving DecidableEq

def checkLegacyDirsExist : DiskProgram (List String) :=
  filter (fun dir => isDirectory [dir]) LEGACY_DIRS

def REQUIRED_DIRS : List String := ["tasks", "artifacts", "state", "views", "cold"]

def ARTIFACT_TIERS : List String := ["bronze", "silver", "gold"]

def bootstrapProject (projectRoot : DiskPath) : DiskProgram Unit := do
  forEach (fun dir => mkdir (projectRoot ++ [dir])) REQUIRED_DIRS
  forEach (fun tier => mkdir (projectRoot ++ ["artifacts"] ++ [tier])) ARTIFACT_TIERS

def inboxManifest : JsValue :=
  let strings (texts : List String) : JsValue := .arr (texts.map .str)
  .obj [
    ("id", .str "_inbox"),
    ("title", .str "_Inbox"),
    ("status", .str "active"),
    ("type", .str "admin"),
    ("owner", .obj [("team", .str "system"), ("lead", .str "system")]),
    ("routing", .obj [
      ("intake", .obj [("default", .str "Tasks/Backlog")]),
      ("mailboxes", .obj [("enabled", .bool true)])]),
    ("memory", .obj [
      ("tiers", .obj [("bronze", .str "cold"), ("silver", .str "warm"), ("gold", .str "warm")]),
      ("allowIndex", .obj [("warmPaths", strings ["Artifacts/Silver", "Artifacts/Gold"])]),
      ("denyIndex", strings ["Cold", "Artifacts/Bronze", "State", "Tasks"])]),
    ("links", .obj [("dashboards", strings []), ("docs", strings [])])]

def writeProjectManifest (yaml : Yaml) (projectRoot : DiskPath) (manifest : JsValue) :
    DiskProgram Unit :=
  writeFile (projectRoot ++ ["project.yaml"]) (yaml.stringify manifest)

def setUpInbox (yaml : Yaml) (withEvents : Bool) : DiskProgram Unit := do
  mkdir ["Projects"]
  bootstrapProject INBOX
  onlyIf withEvents (mkdir (INBOX ++ ["events"]))
  writeProjectManifest yaml INBOX inboxManifest

/-- `frontmatter[key] = value`, which throws on what is no object and is lost on an array. -/
def assignProperty (key : String) (value : JsValue) : JsValue → Option JsValue
  | .obj properties => some (.obj (Dict.setEntries key value properties))
  | .arr items => some (.arr items)
  | _ => none

/-- The closing fence and the body are joined without a line break. -/
def updateTaskFrontmatter (yaml : Yaml) (content projectId : String) : Option String := do
  let text ← splitFrontmatter content
  let frontmatter ← yaml.parse (joinLines text.yamlBlock)
  let frontmatter ← assignProperty "project" (.str projectId) frontmatter
  pure s!"---\n{yaml.stringify frontmatter}---{joinLines text.body}"

def hasProjectField (yaml : Yaml) (content expectedProjectId : String) : Bool :=
  let project := do
    let text ← splitFrontmatter content
    let frontmatter ← yaml.parse (joinLines text.yamlBlock)
    frontmatter.readProperty "project"
  project.any (JsValue.strictEq (.str expectedProjectId))

structure UpdateStats where
  updated : Nat := 0
  skipped : Nat := 0

def isTaskCard (name : String) (entry : Entry) : Bool :=
  (entry matches .file _) && ".md".toList.isSuffixOf name.toList

def updateTaskCard (yaml : Yaml) (projectId : String) (dryRun : Bool) (taskPath : DiskPath)
    (stats : UpdateStats) : DiskProgram UpdateStats := do
  let content ← readFile taskPath
  if hasProjectField yaml content projectId then
    pure { stats with skipped := stats.skipped + 1 }
  else do
    onlyIf (!dryRun) do
      match updateTaskFrontmatter yaml content projectId with
      | some updatedContent => writeFile taskPath updatedContent
      | none => .throw
    pure { stats with updated := stats.updated + 1 }

def updateStatusDir (yaml : Yaml) (tasksDir : DiskPath) (projectId : String) (dryRun : Bool)
    (stats : UpdateStats) (statusEntry : String × Entry) : DiskProgram UpdateStats :=
  if statusEntry.2 = .dir then do
    let statusPath := tasksDir ++ [statusEntry.1]
    let taskFiles ← readdir statusPath
    foldEach (fun stats taskEntry =>
      if isTaskCard taskEntry.1 taskEntry.2 then
        updateTaskCard yaml projectId dryRun (statusPath ++ [taskEntry.1]) stats
      else pure stats) stats taskFiles
  else pure stats

/-- That the directory does not exist is no error. -/
def updateTaskCardFrontmatter (yaml : Yaml) (tasksDir : DiskPath) (projectId : String)
    (dryRun : Bool) : DiskProgram UpdateStats := do
  if ← pathExists tasksDir then do
    let statusDirs ← readdir tasksDir
    foldEach (updateStatusDir yaml tasksDir projectId dryRun) {} statusDirs
  else pure {}

def copyDirectory (source dest : DiskPath) : DiskProgram Unit := do
  let bound ← depth source
  copyTree bound source dest

def copyLegacyDir (yaml : Yaml) (dryRun : Bool) (backupPath : DiskPath) (stats : UpdateStats)
    (dir : String) : DiskProgram UpdateStats := do
  let sourceDir := backupPath ++ [dir]
  let destDir := INBOX ++ [dir]
  onlyIf (!dryRun) (copyDirectory sourceDir destDir)
  if dir = "tasks" then do
    let more ← updateTaskCardFrontmatter yaml destDir "_inbox" dryRun
    pure ⟨stats.updated + more.updated, stats.skipped + more.skipped⟩
  else pure stats

def backupPathOf (opts : MigrationOptions) (now : String) : DiskPath :=
  [opts.backupDir.getD s!"tasks.backup-{opts.timestamp.getD now}"]

/-- The directories go into the backup first, and what the backup has of them into the inbox. -/
def migrateLegacyDirs (yaml : Yaml) (opts : MigrationOptions) (now : String)
    (legacyDirsPresent : List String) (inboxExists : Bool) : DiskProgram MigrationResult := do
  let backupPath := backupPathOf opts now
  onlyIf (!opts.dryRun) (mkdir backupPath)
  forEach (fun dir => onlyIf (!opts.dryRun) (rename [dir] (backupPath ++ [dir]))) legacyDirsPresent
  onlyIf (!opts.dryRun) (setUpInbox yaml (legacyDirsPresent.contains "events"))
  let stats ← foldEach (copyLegacyDir yaml opts.dryRun backupPath) {} legacyDirsPresent
  pure {
    success := true
    backupPath := some backupPath
    migratedDirs := legacyDirsPresent
    updatedTaskCount := stats.updated
    skippedTaskCount := stats.skipped
    warnings := if inboxExists then
      ["Projects/_inbox already exists; migration may have been partially completed"] else [] }

def migrateToProjects (yaml : Yaml) (opts : MigrationOptions) (now : String) :
    DiskProgram MigrationResult := do
  let legacyDirsPresent ← checkLegacyDirsExist
  let inboxExists ← isDirectory INBOX
  if legacyDirsPresent = [] then
    if inboxExists then
      pure {
        success := true
        warnings := ["Already migrated: no legacy dirs and _inbox exists"] }
    else do
      onlyIf (!opts.dryRun) (setUpInbox yaml false)
      pure { success := true, warnings := ["Fresh install: creating _inbox project"] }
  else migrateLegacyDirs yaml opts now legacyDirsPresent inboxExists

def codeUnits (text : String) : List Nat :=
  text.toList.flatMap fun c =>
    if c.toNat < 0x10000 then [c.toNat]
    else [0xD800 + (c.toNat - 0x10000) / 0x400, 0xDC00 + (c.toNat - 0x10000) % 0x400]

def isBackupName (name : String) : Bool := "tasks.backup-".toList.isPrefixOf name.toList

/-- The backup whose name is the last in order. -/
def latestBackup (names : List String) : Option String :=
  ((names.filter isBackupName).insertionSort fun a b => codeUnits a ≤ codeUnits b).reverse.head?

def findLatestBackup : DiskProgram (Option String) := do
  let entries ← readdir []
  pure (latestBackup (entries.map Prod.fst))

def chooseBackup (opts : RollbackOptions) : DiskProgram (Option String) :=
  match opts.backupDir with
  | some name => if name = "" then findLatestBackup else pure (some name)
  | none => findLatestBackup

def renamedInboxOf (now : String) : String := s!"_inbox.rollback-{now}"

/-- Only directories are moved back. -/
def restoreItem (dryRun : Bool) (backup : String) (restoredDirs : List String) (item : String) :
    DiskProgram (List String) := do
  let entry ← found (stat [backup, item])
  if entry = .dir then do
    onlyIf (!dryRun) (rename [backup, item] [item])
    pure (restoredDirs ++ [item])
  else pure restoredDirs

def restoreBackup (opts : RollbackOptions) (now backup : String) : DiskProgram RollbackResult := do
  let inboxExists ← isDirectory INBOX
  let renames := inboxExists && !opts.dryRun
  onlyIf renames (rename INBOX [renamedInboxOf now])
  let backupContents ← readdir [backup]
  let restoredDirs ← foldEach (restoreItem opts.dryRun backup) [] (backupContents.map Prod.fst)
  pure {
    success := true
    restoredDirs
    warnings := if renames then [s!"Renamed _inbox to {renamedInboxOf now}"] else [] }

def rollbackMigration (opts : RollbackOptions) (now : String) : DiskProgram RollbackResult := do
  match ← chooseBackup opts with
  | none => .throw
  | some backup =>
      let backupExists ← isDirectory [backup]
      if backupExists then restoreBackup opts now backup else .throw

end ProjectMigration

end Aof
