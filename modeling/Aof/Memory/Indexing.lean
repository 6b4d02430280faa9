import Aof.Lib.Async
import Aof.Lib.Command
import Aof.Memory.Chunker
import Aof.Memory.HybridSearch

/-!
# Indexing

The tools that write memory files and the synchronisation with the disk, over the vector store and
the table of the files that are indexed (`memory/tools/indexing.ts`, `memory/tools/store.ts`,
`memory/tools/update.ts`, `memory/chunking/hash.ts`).  A call waits for the disk and for the
embeddings; in between it runs without interruption, and each such stretch that touches the database
is one operation.
-/

namespace Aof

structure FileRow where
  hash : String
  chunkCount : Nat
  tier : Option String
  pool : Option String
  indexedAt : Nat

structure MemoryIndex where
  store : VectorStore := {}
  files : Dict String FileRow := .empty

namespace MemoryIndex

def hasFileChanged (index : MemoryIndex) (filePath currentHash : String) : Bool :=
  match index.files.get? filePath with
  | none => true
  | some row => row.hash ≠ currentHash

def updateFileRecord (index : MemoryIndex) (filePath hash : String) (chunkCount : Nat)
    (metadata : MemoryIndexMetadata) (indexedAt : Nat) : MemoryIndex :=
  let row : FileRow :=
    { hash := hash, chunkCount := chunkCount, tier := metadata.tier, pool := metadata.pool
      indexedAt := indexedAt }
  { index with files := index.files.set filePath row }

def deleteChunksByFile (index : MemoryIndex) (filePath : String) : MemoryIndex :=
  { index with store := index.store.deleteChunksByFile filePath }

/-- One chunk of a file; an insertion that throws leaves the store as it is. -/
def insertChunk (filePath : String) (metadata : MemoryIndexMetadata) (now : Nat)
    (input : (Chunk × Embedding) × Nat) : Command MemoryIndex Unit := fun index =>
  let row : VectorChunkInput :=
    { filePath := filePath, chunkIndex := input.2, content := String.ofList input.1.1.content
      embedding := input.1.2, tier := metadata.tier, pool := metadata.pool
      importance := metadata.importance, tags := metadata.tags }
  match index.store.insertChunk row now with
  | some (_, store) => (some (), { index with store := store })
  | none => (none, index)

/-- What `indexMemoryChunks` does once it has an embedding for each chunk. -/
def insertChunks (filePath : String) (chunks : List (Chunk × Embedding))
    (metadata : MemoryIndexMetadata) (hash : String) (now : Nat) : Command MemoryIndex Unit := do
  chunks.zipIdx.forM (insertChunk filePath metadata now)
  Command.modify fun index => index.updateFileRecord filePath hash chunks.length metadata now

end MemoryIndex

inductive MemoryOp where
  | walk (dir : String)
  | readFile (path : String)
  | writeFile (path : String) (content : List Char)
  | embed (texts : List (List Char))
  | hasFileChanged (filePath hash : String)
  | deleteChunksByFile (filePath : String)
  | insertChunks (filePath : String) (chunks : List (Chunk × Embedding))
      (metadata : MemoryIndexMetadata) (hash : String)

/-- A call that throws has no result, or says that it has not succeeded. -/
@[reducible]
def MemoryOp.Reply : MemoryOp → Type
  | .walk _ => List String
  | .readFile _ => Option (List Char)
  | .writeFile _ _ => Bool
  | .embed _ => Option (List Embedding)
  | .hasFileChanged _ _ => Bool
  | .deleteChunksByFile _ => Unit
  | .insertChunks .. => Bool

structure MemoryAnswer where
  found : List String := []
  content : Option (List Char) := none
  written : Bool := true
  embeddings : Option (List Embedding) := none
  now : Nat := 0

def MemoryOp.perform (answer : MemoryAnswer) : (op : MemoryOp) → MemoryIndex →
    op.Reply × MemoryIndex
  | .walk _, index => (answer.found, index)
  | .readFile _, index => (answer.content, index)
  | .writeFile _ _, index => (answer.written, index)
  | .embed _, index => (answer.embeddings, index)
  | .hasFileChanged filePath hash, index => (index.hasFileChanged filePath hash, index)
  | .deleteChunksByFile filePath, index => ((), index.deleteChunksByFile filePath)
  | .insertChunks filePath chunks metadata hash, index =>
      let result := (MemoryIndex.insertChunks filePath chunks metadata hash answer.now).run index
      (result.1.isSome, result.2)

def underDir (dir path : String) : Bool :=
  let opened := if "/".toList.isSuffixOf dir.toList then dir else dir ++ "/"
  opened.toList.isPrefixOf path.toList

def isMarkdown (path : String) : Bool := ".md".toList.isSuffixOf path.toList

/-- The regular files below a directory, in the order of the disk. -/
def collectMarkdownFiles (disk : Dict String (List Char)) (dir : String) : List String :=
  disk.keys.filter fun path => underDir dir path && isMarkdown path

def MemoryOp.answerFrom (disk : Dict String (List Char))
    (embed : List (List Char) → Option (List Embedding)) (now : Nat) : MemoryOp → MemoryAnswer
  | .walk dir => { found := collectMarkdownFiles disk dir }
  | .readFile path => { content := disk.get? path }
  | .embed texts => { embeddings := embed texts }
  | _ => { now := now }

abbrev MemoryProgram := Async MemoryOp MemoryOp.Reply

namespace MemoryProgram

open Metadata

def perform (op : MemoryOp) : MemoryProgram op.Reply := Async.perform op

def indexMemoryChunks (filePath : String) (chunks : List Chunk) (metadata : MemoryIndexMetadata)
    (hash : String) : MemoryProgram Unit := do
  perform (.deleteChunksByFile filePath)
  match ← perform (.embed (chunks.map Chunk.content)) with
  | none => .throw
  | some embeddings =>
      if embeddings.length ≠ chunks.length then .throw
      else
        match ← perform (.insertChunks filePath (chunks.zip embeddings) metadata hash) with
        | true => pure ()
        | false => .throw

variable (computeFileHash : List Char → String) (matter : GrayMatter)

structure SyncResult where
  scanned : Nat := 0
  indexed : Nat := 0
  skipped : Nat := 0
  errors : Nat := 0
  deriving DecidableEq

def syncFile (filePath : String) : MemoryProgram Bool := do
  match ← perform (.readFile filePath) with
  | none => .throw
  | some content =>
      let hash := computeFileHash content
      match ← perform (.hasFileChanged filePath hash) with
      | false => pure false
      | true =>
          let chunks := chunkMarkdown content
          if chunks = [] then pure false
          else do
            indexMemoryChunks filePath chunks (extractFrontmatterMetadata content) hash
            pure true

def syncCounted (result : SyncResult) (filePath : String) : MemoryProgram SyncResult := do
  match ← (syncFile computeFileHash filePath).attempt with
  | some true => pure { result with scanned := result.scanned + 1, indexed := result.indexed + 1 }
  | some false => pure { result with scanned := result.scanned + 1, skipped := result.skipped + 1 }
  | none => pure { result with scanned := result.scanned + 1, errors := result.errors + 1 }

def syncDir (result : SyncResult) (dir : String) : MemoryProgram SyncResult := do
  let files ← perform (.walk dir)
  files.foldlM (syncCounted computeFileHash) result

def runOnce (indexPaths : List String) : MemoryProgram SyncResult :=
  indexPaths.foldlM (syncDir computeFileHash) {}

structure MemoryOutput where
  body : List Char
  output : List Char
  metadata : MemoryIndexMetadata

def updateOutput (params : MemoryParams) (existingContent : List Char) : Option MemoryOutput := do
  let (data, content) ← matter.parse existingContent
  let body := (normalizeContent params.content).getD content
  let metadata := resolveMetadata params data none none
  let output ← buildOutputContent matter body data metadata
  some { body := body, output := output, metadata := metadata }

/-- `memory_update`; an empty file counts as missing. -/
def memoryUpdate (params : MemoryParams) : MemoryProgram Unit :=
  match normalizeString params.path with
  | none => pure ()
  | some filePath => do
      match ← perform (.readFile filePath) with
      | none | some [] => pure ()
      | some existingContent =>
          match updateOutput matter params existingContent with
          | none => .throw
          | some update =>
              let chunks := chunkMarkdown update.body
              let hash := computeFileHash update.output
              match ← perform (.hasFileChanged filePath hash) with
              | false => pure ()
              | true =>
                  match ← perform (.writeFile filePath update.output) with
                  | false => .throw
                  | true => indexMemoryChunks filePath chunks update.metadata hash

structure MemoryStoreOptions where
  poolPaths : Dict String String := .empty
  defaultPool : Option String := none
  defaultTier : Option String := none

def storeOutput (options : MemoryStoreOptions) (params : MemoryParams) : Option MemoryOutput := do
  let content ← normalizeContent params.content
  let (data, body) ← matter.parse content
  let metadata := resolveMetadata params data options.defaultTier options.defaultPool
  let output ← buildOutputContent matter body data metadata
  some { body := body, output := output, metadata := metadata }

def resolveFilePath (options : MemoryStoreOptions) (params : MemoryParams) (pool : Option String)
    (generated : String) : Option String :=
  let poolPath := (pool.filter (· ≠ "")).bind options.poolPaths.get?
  match normalizeString params.path with
  | some requested =>
      if "/".toList.isPrefixOf requested.toList then some requested
      else poolPath.map fun dir => dir ++ "/" ++ requested
  | none => poolPath.map fun dir => dir ++ "/" ++ generated

def memoryStore (options : MemoryStoreOptions) (params : MemoryParams) (generated : String) :
    MemoryProgram Unit :=
  match (normalizeContent params.content).filter fun content => !Chunker.isBlank content with
  | none => pure ()
  | some _ =>
      match storeOutput matter options params with
      | none => .throw
      | some stored =>
          match resolveFilePath options params stored.metadata.pool generated with
          | none => pure ()
          | some filePath => do
              match ← perform (.writeFile filePath stored.output) with
              | false => .throw
              | true =>
                  indexMemoryChunks filePath (chunkMarkdown stored.body) stored.metadata
                    (computeFileHash stored.output)

end MemoryProgram

end Aof
