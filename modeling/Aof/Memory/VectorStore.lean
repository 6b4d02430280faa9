import Aof.Lib.JsValue
import Aof.Lib.Run

/-!
# The vector store

The chunks of memory files in SQLite next to an HNSW index of their embeddings
(`memory/store/vector-store.ts`, `memory/store/hnsw-index.ts`, and the rebuild of the index from the
table in `memory/project-memory.ts`).  A statement or a call of the index that throws has no result.
-/

namespace Aof

abbrev Embedding := List JsNumber

/-- `hnswlib`: the labels with their vectors, and the labels that are marked deleted.  Both take up
capacity. -/
structure HierarchicalNSW where
  points : Dict Nat Embedding := .empty
  deleted : List Nat := []
  maxElements : Nat

namespace HierarchicalNSW

def getCurrentCount (index : HierarchicalNSW) : Nat :=
  index.points.entries.length + index.deleted.length

def setPoint (index : HierarchicalNSW) (vector : Embedding) (label : Nat) : HierarchicalNSW :=
  { index with points := index.points.set label vector }

/-- A new label takes the place of a deleted one, if that is asked for and there is one.  A deleted
label is not updated. -/
def addPoint (index : HierarchicalNSW) (vector : Embedding) (label : Nat) (replaceDeleted : Bool) :
    Option HierarchicalNSW :=
  if index.points.has label then some (index.setPoint vector label)
  else if label ∈ index.deleted then
    if replaceDeleted then
      some { index.setPoint vector label with deleted := index.deleted.erase label }
    else none
  else
    match replaceDeleted, index.deleted with
    | true, _ :: deleted => some { index.setPoint vector label with deleted := deleted }
    | _, _ =>
        if index.maxElements ≤ index.getCurrentCount then none
        else some (index.setPoint vector label)

def markDelete (index : HierarchicalNSW) (label : Nat) : Option HierarchicalNSW :=
  if index.points.has label then
    some { index with points := index.points.erase label, deleted := label :: index.deleted }
  else none

def resizeIndex (index : HierarchicalNSW) (newCapacity : Nat) : HierarchicalNSW :=
  { index with maxElements := newCapacity }

end HierarchicalNSW

def INITIAL_CAPACITY : Nat := 10000

def GROWTH_FACTOR : Nat := 2

abbrev HnswIndex := HierarchicalNSW

namespace HnswIndex

def createIndex (capacity : Nat) : HnswIndex := { maxElements := capacity }

def ensureCapacity (index : HnswIndex) : HnswIndex :=
  if index.maxElements ≤ index.getCurrentCount then
    index.resizeIndex (index.maxElements * GROWTH_FACTOR)
  else index

def add (index : HnswIndex) (id : Nat) (vector : Embedding) : Option HnswIndex :=
  (ensureCapacity index).addPoint vector id false

/-- A label that cannot be deleted is inserted all the same. -/
def update (index : HnswIndex) (id : Nat) (vector : Embedding) : Option HnswIndex :=
  (ensureCapacity ((index.markDelete id).getD index)).addPoint vector id true

/-- A label that is not present is ignored. -/
def remove (index : HnswIndex) (id : Nat) : HnswIndex :=
  (index.markDelete id).getD index

def rebuild (chunks : List (Nat × Embedding)) : Option HnswIndex :=
  chunks.foldlM (fun index chunk => index.addPoint chunk.2 chunk.1 false)
    (createIndex (max ((chunks.length * 3 + 1) / 2) INITIAL_CAPACITY))

end HnswIndex

structure VectorChunkInput where
  filePath : String
  chunkIndex : Nat
  content : String
  embedding : Embedding
  tier : Option String := none
  pool : Option String := none
  importance : Option JsNumber := none
  tags : Option (List String) := none
  createdAt : Option Nat := none
  updatedAt : Option Nat := none
  accessedAt : Option Nat := none

structure ChunkRow where
  filePath : String
  chunkIndex : Nat
  content : String
  tier : Option String
  pool : Option String
  importance : Option JsNumber
  tags : Option (List String)
  createdAt : Option Nat
  updatedAt : Option Nat
  accessedAt : Option Nat
  deriving DecidableEq

/-- The fields that an update leaves out keep their value; a field may be set to null. -/
structure VectorChunkUpdate where
  content : Option String := none
  embedding : Option Embedding := none
  tier : Option (Option String) := none
  pool : Option (Option String) := none
  importance : Option (Option JsNumber) := none
  tags : Option (Option (List String)) := none
  updatedAt : Option (Option Nat) := none
  accessedAt : Option (Option Nat) := none

/-- An empty list of tags is stored as null. -/
def serializeTags (tags : Option (List String)) : Option (List String) := tags.filter (· ≠ [])

/-- SQLite has no `NaN` and stores null. -/
def bindNumber (number : Option JsNumber) : Option JsNumber := number.filter (· ≠ .nan)

/-- The two tables, the largest id that has been given out, and the index. -/
structure VectorStore where
  chunks : Dict Nat ChunkRow := .empty
  vecChunks : Dict Nat Embedding := .empty
  sequence : Nat := 0
  hnsw : HnswIndex := HnswIndex.createIndex INITIAL_CAPACITY

namespace VectorStore

def VectorChunkInput.row (input : VectorChunkInput) (now : Nat) : ChunkRow where
  filePath := input.filePath
  chunkIndex := input.chunkIndex
  content := input.content
  tier := input.tier
  pool := input.pool
  importance := bindNumber input.importance
  tags := serializeTags input.tags
  createdAt := some (input.createdAt.getD now)
  updatedAt := some (input.updatedAt.getD now)
  accessedAt := some (input.accessedAt.getD now)

/-- The constraint of the table: no other chunk of the file has the index. -/
def occupied (store : VectorStore) (filePath : String) (chunkIndex : Nat) : Bool :=
  store.chunks.values.any fun row => row.filePath = filePath ∧ row.chunkIndex = chunkIndex

/-- The id is the next of the sequence; both rows are inserted in one transaction. -/
def insertChunk (store : VectorStore) (input : VectorChunkInput) (now : Nat) :
    Option (Nat × VectorStore) :=
  let chunkId := store.sequence + 1
  if store.occupied input.filePath input.chunkIndex ∨ store.vecChunks.has chunkId then none
  else do
    let hnsw ← store.hnsw.add chunkId input.embedding
    some (chunkId,
      { chunks := store.chunks.set chunkId (VectorChunkInput.row input now)
        vecChunks := store.vecChunks.set chunkId input.embedding
        sequence := chunkId
        hnsw := hnsw })

def VectorChunkUpdate.apply (update : VectorChunkUpdate) (row : ChunkRow) : ChunkRow :=
  { row with
    content := update.content.getD row.content
    tier := update.tier.getD row.tier
    pool := update.pool.getD row.pool
    importance := (update.importance.map bindNumber).getD row.importance
    tags := (update.tags.map serializeTags).getD row.tags
    updatedAt := update.updatedAt.getD row.updatedAt
    accessedAt := update.accessedAt.getD row.accessedAt }

/-- `UPDATE … WHERE`: a row that is not there is not updated. -/
def updateRow {Row : Type} (table : Dict Nat Row) (id : Nat) (change : Row → Row) : Dict Nat Row :=
  match table.get? id with
  | some row => table.set id (change row)
  | none => table

def updateChunk (store : VectorStore) (id : Nat) (update : VectorChunkUpdate) :
    Option VectorStore :=
  let updated := { store with
    chunks := updateRow store.chunks id (VectorChunkUpdate.apply update) }
  match update.embedding with
  | none => some updated
  | some embedding => do
      let hnsw ← store.hnsw.update id embedding
      some { updated with
        vecChunks := updateRow store.vecChunks id fun _ => embedding
        hnsw := hnsw }

def deleteChunk (store : VectorStore) (id : Nat) : VectorStore :=
  { store with
    chunks := store.chunks.erase id
    vecChunks := store.vecChunks.erase id
    hnsw := store.hnsw.remove id }

def chunkIdsOf (store : VectorStore) (filePath : String) : List Nat :=
  (store.chunks.entries.filter fun entry => entry.2.filePath = filePath).map Prod.fst

def eraseAll {Row : Type} (table : Dict Nat Row) (ids : List Nat) : Dict Nat Row :=
  ids.foldl Dict.erase table

def deleteChunksByFile (store : VectorStore) (filePath : String) : VectorStore :=
  let chunkIds := store.chunkIdsOf filePath
  { store with
    chunks := eraseAll store.chunks chunkIds
    vecChunks := eraseAll store.vecChunks chunkIds
    hnsw := chunkIds.foldl HnswIndex.remove store.hnsw }

def rebuildHnswFromDb (store : VectorStore) : Option VectorStore := do
  let hnsw ← HnswIndex.rebuild store.vecChunks.entries
  some { store with hnsw := hnsw }

end VectorStore

inductive VectorStoreOp where
  | insertChunk (input : VectorChunkInput) (now : Nat)
  | updateChunk (id : Nat) (update : VectorChunkUpdate)
  | deleteChunk (id : Nat)
  | deleteChunksByFile (filePath : String)
  | rebuild

def VectorStore.step (store : VectorStore) : VectorStoreOp → Option VectorStore
  | .insertChunk input now => (store.insertChunk input now).map Prod.snd
  | .updateChunk id update => store.updateChunk id update
  | .deleteChunk id => some (store.deleteChunk id)
  | .deleteChunksByFile filePath => some (store.deleteChunksByFile filePath)
  | .rebuild => store.rebuildHnswFromDb

end Aof
