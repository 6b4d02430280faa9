import Aof.Lib.DiskProgram

/-!
# The self-update

A new version is downloaded, checked and copied over the old one; some paths are kept.  If anything
throws, those paths are copied back from a backup (`packaging/updater.ts`).  Paths are relative to
the directory that is updated or, for the release and the preserved paths, to their places in the
temporary directory.  At most one operation fails on its own account; the hooks and the health check
do not touch the directory.
-/

/-!
## Snapshots

A snapshot is a copy of the data directory below `.aof/snapshots`, made before migrations are run
and copied back if they fail (`packaging/snapshot.ts`).  Paths are relative to the data directory.  A
call of the file system that throws has no result.
-/

namespace Aof

open Disk

def SNAPSHOT_DIR : DiskPath := [".aof", "snapshots"]

def isCopyable : Entry → Bool
  | .special => false
  | _ => true

def snapshotPathOf (now : Nat) : DiskPath := SNAPSHOT_DIR ++ [s!"snapshot-{now}"]

/-- `if (!(await isCopyable(src))) continue; await cp(src, dest, { recursive: true, filter })` -/
def copyIfCopyable (disk : Disk) (src dest : DiskPath) : Option Disk :=
  if (disk.get? src).any isCopyable then disk.cp isCopyable src dest else some disk

/-- The entries of `.aof` are copied one by one, but not `snapshots`. -/
def copyAofEntries (disk : Disk) (src dest : DiskPath) : Option Disk :=
  (disk.names src).foldlM
    (fun (disk : Disk) ae =>
      if ae = "snapshots" then some disk
      else copyIfCopyable disk (src ++ [ae]) (dest ++ [ae])) disk

def createEntry (snapshotPath : DiskPath) (disk : Disk) (name : String) : Option Disk :=
  if name = ".aof" then
    if (disk.get? [name]).any isCopyable then do
      let disk ← disk.mkdirs (snapshotPath ++ [name])
      copyAofEntries disk [name] (snapshotPath ++ [name])
    else some disk
  else copyIfCopyable disk [name] (snapshotPath ++ [name])

def createSnapshot (disk : Disk) (now : Nat) : Option (DiskPath × Disk) := do
  let snapshotPath := snapshotPathOf now
  let disk ← disk.mkdirs snapshotPath
  let disk ← (disk.names []).foldlM (createEntry snapshotPath) disk
  some (snapshotPath, disk)

/-- Everything is removed but `.aof/snapshots`. -/
def removeCurrent (disk : Disk) : Disk :=
  (disk.names []).foldl
    (fun disk name =>
      if name = ".aof" then
        (disk.names [".aof"]).foldl
          (fun disk ae => if ae = "snapshots" then disk else disk.removeAll [".aof", ae]) disk
      else disk.removeAll [name]) disk

def restoreEntry (snapshotPath : DiskPath) (disk : Disk) (name : String) : Option Disk :=
  if name = ".aof" then copyAofEntries disk (snapshotPath ++ [name]) [name]
  else copyIfCopyable disk (snapshotPath ++ [name]) [name]

def restoreSnapshot (disk : Disk) (snapshotPath : DiskPath) : Option Disk :=
  let disk := removeCurrent disk
  if disk.isDir snapshotPath then
    (disk.names snapshotPath).foldlM (restoreEntry snapshotPath) disk
  else none

end Aof

namespace Aof.Updater

open Command Disk DiskPath

def BACKUP_DIR_NAME : String := ".aof-backup"

def configPath : DiskPath := [".aof", "channel.json"]

def versionFilePath : DiskPath := [".version"]

inductive UpdateStep where
  | preUpdate
  | makeBackupDir
  | backUp (path : DiskPath)
  | makeTempDir
  | download
  | extract
  | healthCheck
  | makePreserveDir
  | preserve (path : DiskPath)
  | listRoot
  | remove (entry : String)
  | install
  | clear (path : DiskPath)
  | restore (path : DiskPath)
  | makeConfigDir
  | writeConfig
  | writeVersionFile
  | postUpdate
  | removeTempDir
  | removeBackup
  deriving DecidableEq

/-- The operation that fails, and the paths that it had already copied or removed. -/
structure UpdateFailure where
  step : UpdateStep
  done : DiskPath → Bool

structure UpdateOptions where
  targetVersion : String
  preservePaths : List DiskPath :=
    [["config"], ["data"], ["bin"], ["node_modules"], [".aof"]]

/-- What the update meets: the clock, the tree in the tarball, the names that `readdir` answers, the
version in a text (`JSON.parse(text).version ?? "unknown"`, or `"unknown"`), and the text with
another version in it. -/
structure UpdateEnv where
  now : Nat
  release : Disk
  entries : List String
  versionOf : String → String
  withVersion : Option String → String → String

structure UpdateState where
  root : Disk
  extracted : Disk := .empty
  preserved : Disk := .empty

abbrev UpdateCommand := Command UpdateState

structure UpdateResult where
  success : Bool
  version : String
  backupCreated : Bool
  backupPath : DiskPath
  deriving DecidableEq

structure RollbackResult where
  success : Bool
  restoredVersion : String
  deriving DecidableEq

/-- One entry is copied; `cp` refuses sockets and devices. -/
def copyOver (dest : DiskPath) (entry : DiskPath × Entry) (disk : Disk) : Option Disk :=
  if entry.2 = .special then none else copyEntry disk (dest ++ entry.1) entry.2

/-- `cp(source, dest, { recursive: true })` of a tree on another disk. -/
def cpFrom (tree : List (DiskPath × Entry)) (dest : DiskPath) : Command Disk Unit := do
  change (mkdirs · dest.dropLast)
  tree.forM fun entry => change (copyOver dest entry)

def cp (source dest : DiskPath) : Command Disk Unit := do
  let disk ← Command.read
  if (below source dest).isSome then throw else cpFrom (disk.subtree source) dest

def cpPart (done : DiskPath → Bool) (tree : List (DiskPath × Entry)) (dest : DiskPath)
    (disk : Disk) : Disk :=
  ((disk.mkdirs dest.dropLast).getD disk).putAll dest
    (tree.filter fun entry => done (dest ++ entry.1))

def rmPart (done : DiskPath → Bool) (p : DiskPath) (disk : Disk) : Disk :=
  ⟨disk.entries.filter fun entry => !((below p entry.1).isSome && done entry.1),
    (List.filter_sublist.map _).nodup disk.nodup⟩

def onRoot {α : Type} (command : Command Disk α) : UpdateCommand α :=
  onPart UpdateState.root (fun root s => { s with root := root }) command

def onPreserved {α : Type} (command : Command Disk α) : UpdateCommand α :=
  onPart UpdateState.preserved (fun preserved s => { s with preserved := preserved }) command

/-- An operation, with what it leaves if it is the one that fails. -/
def operation (failure : Option UpdateFailure) (label : UpdateStep) (action : UpdateCommand Unit)
    (part : (DiskPath → Bool) → UpdateState → UpdateState) : UpdateCommand Unit :=
  match failure with
  | none => action
  | some failure => fun s =>
      if failure.step = label then (none, part failure.done s) else action s

def simple (failure : Option UpdateFailure) (label : UpdateStep) (action : UpdateCommand Unit) :
    UpdateCommand Unit :=
  operation failure label action fun _ s => s

def access (p : DiskPath) : UpdateCommand Unit := do
  let s ← Command.read
  if (s.root.stat p).isSome then pure () else throw

def rmFromRoot (failure : Option UpdateFailure) (label : UpdateStep) (p : DiskPath) :
    UpdateCommand Unit :=
  operation failure label (onRoot (Command.modify (removeAll · p)))
    fun done s => { s with root := rmPart done p s.root }

def cpInRoot (failure : Option UpdateFailure) (label : UpdateStep) (source dest : DiskPath) :
    UpdateCommand Unit :=
  operation failure label (onRoot (cp source dest))
    fun done s => { s with root := cpPart done (s.root.subtree source) dest s.root }

def cpToRoot (failure : Option UpdateFailure) (label : UpdateStep) (tree : List (DiskPath × Entry))
    (dest : DiskPath) : UpdateCommand Unit :=
  operation failure label (onRoot (cpFrom tree dest))
    fun done s => { s with root := cpPart done tree dest s.root }

variable (opts : UpdateOptions) (env : UpdateEnv) (failure : Option UpdateFailure)

def backupPathOf : DiskPath := [BACKUP_DIR_NAME, s!"backup-{env.now}"]

def createBackup : UpdateCommand DiskPath := do
  let backupPath := backupPathOf env
  simple failure .makeBackupDir (onRoot (change (mkdirs · backupPath)))
  opts.preservePaths.forM fun path => attempt do
    access path
    cpInRoot failure (.backUp path) path (backupPath ++ path)
  pure backupPath

def updateVersionConfig (version : String) : UpdateCommand Unit := do
  let s ← Command.read
  simple failure .makeConfigDir (onRoot (change (mkdirs · [".aof"])))
  let text := env.withVersion (s.root.readFile configPath) version
  simple failure .writeConfig (onRoot (change (writeFile · configPath text)))
  simple failure .writeVersionFile (onRoot (change (writeFile · versionFilePath version)))

/-- `preservedPaths`, in the order of the map. -/
def preservePath (kept : List DiskPath) (path : DiskPath) : UpdateCommand (List DiskPath) := do
  let copied ← succeeds do
    access path
    let s ← Command.read
    operation failure (.preserve path) (onPreserved (cpFrom (s.root.subtree path) path))
      fun done s => { s with preserved := cpPart done (s.root.subtree path) path s.preserved }
  pure (if copied && !kept.contains path then kept ++ [path] else kept)

def removeOld : UpdateCommand Unit := do
  simple failure .listRoot (pure ())
  env.entries.forM fun entry =>
    if entry = BACKUP_DIR_NAME then pure () else rmFromRoot failure (.remove entry) [entry]

def restorePath (path : DiskPath) : UpdateCommand Unit := do
  rmFromRoot failure (.clear path) path
  let s ← Command.read
  cpToRoot failure (.restore path) (s.preserved.subtree path) path

def swap : UpdateCommand Unit := do
  simple failure .makeTempDir
    (Command.modify fun s => { s with extracted := .empty, preserved := .empty })
  simple failure .download (pure ())
  simple failure .extract (Command.modify fun s => { s with extracted := env.release })
  simple failure .healthCheck (pure ())
  simple failure .makePreserveDir (pure ())
  let preservedPaths ← opts.preservePaths.foldlM (preservePath failure) []
  removeOld env failure
  let s ← Command.read
  cpToRoot failure .install (s.extracted.subtree []) []
  preservedPaths.forM (restorePath failure)
  updateVersionConfig env failure opts.targetVersion
  simple failure .postUpdate (pure ())
  simple failure .removeTempDir
    (Command.modify fun s => { s with extracted := .empty, preserved := .empty })

def getVersionFromBackup (backupPath : DiskPath) : UpdateCommand String := do
  let s ← Command.read
  pure (((s.root.readFile (backupPath ++ configPath)).map env.versionOf).getD "unknown")

/-- `if (restoredVersion !== "unknown") await updateVersionConfig(aofRoot, restoredVersion);` -/
def recordRestored (restoredVersion : String) : UpdateCommand Unit :=
  if restoredVersion = "unknown" then pure () else updateVersionConfig env failure restoredVersion

def rollbackUpdate (backupPath : DiskPath) : UpdateCommand RollbackResult := do
  access backupPath
  let restoredVersion ← getVersionFromBackup env backupPath
  opts.preservePaths.forM fun path => attempt do
    access (backupPath ++ path)
    rmFromRoot failure (.clear path) path
    cpInRoot failure (.restore path) (backupPath ++ path) path
  rmFromRoot failure .removeBackup backupPath
  recordRestored env failure restoredVersion
  pure { success := true, restoredVersion }

/-- The `catch` block, in which nothing fails that can be done. -/
def undo (backupPath : DiskPath) : UpdateCommand Unit := do
  let _ ← rollbackUpdate opts env none backupPath
  attempt (Command.modify fun s => { s with extracted := .empty, preserved := .empty })

def selfUpdate : UpdateCommand UpdateResult := do
  simple failure .preUpdate (pure ())
  let backupPath ← createBackup opts env failure
  onThrow (swap opts env failure) (undo opts env backupPath)
  pure { success := true, version := opts.targetVersion, backupCreated := true, backupPath }

end Aof.Updater
