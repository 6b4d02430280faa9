import Aof.Proof.IndexedRows

/-!
# The record of a file and its chunks

Old chunks are deleted before the embeddings of the new ones are awaited, and the record is written
last.  In between, and for good if the embeddings fail, the record speaks of chunks that are gone.
-/

namespace Aof

open StepSystem MemoryIndex
open Async (Runs Pool Turn)

variable {computeFileHash : List Char → String} {matter : GrayMatter}

inductive MemoryCall where
  | runOnce (indexPaths : List String)
  | update (params : MemoryParams)
  | store (options : MemoryProgram.MemoryStoreOptions) (params : MemoryParams) (generated : String)

def MemoryCall.program (computeFileHash : List Char → String) (matter : GrayMatter) :
    MemoryCall → MemoryProgram Unit
  | .runOnce indexPaths => do
      let _ ← MemoryProgram.runOnce computeFileHash indexPaths
      pure ()
  | .update params => MemoryProgram.memoryUpdate computeFileHash matter params
  | .store options params generated =>
      MemoryProgram.memoryStore computeFileHash matter options params generated

abbrev MemoryPool := Pool MemoryOp MemoryOp.Reply MemoryIndex

def memoryPool (computeFileHash : List Char → String) (matter : GrayMatter) (index : MemoryIndex)
    (calls : List MemoryCall) : MemoryPool :=
  ⟨index, calls.map (MemoryCall.program computeFileHash matter)⟩

def performMemory (_ : Nat) (answer : MemoryAnswer) (op : MemoryOp) (index : MemoryIndex) :
    Option (op.Reply × MemoryIndex) :=
  some (op.perform answer index)

/-- The chunks of a path are those of a text that has the recorded hash. -/
def RecordsMatch (computeFileHash : List Char → String) (index : MemoryIndex) : Prop :=
  ∀ path record, index.files.get? path = some record →
    ∃ content, computeFileHash content = record.hash ∧ index.Indexes path (chunkMarkdown content)

/-- Besides, every chunk belongs to a file with a record. -/
structure RowsRecorded (computeFileHash : List Char → String) (index : MemoryIndex) : Prop where
  ready : index.store.Ready
  records : RecordsMatch computeFileHash index
  rows : ∀ path, index.indexedChunks path ≠ [] → (index.files.get? path).isSome

/-- Chunks are only deleted for a path without a record, or with the record of a text that has none.
They are only inserted, where that is possible at all, together with the hash of a text whose chunks
they are. -/
def RecordSafe (computeFileHash : List Char → String) (index : MemoryIndex) : MemoryOp → Prop
  | .deleteChunksByFile path =>
      ∀ record, index.files.get? path = some record →
        ∃ content, computeFileHash content = record.hash ∧ chunkMarkdown content = []
  | .insertChunks path chunks _ hash =>
      (chunks ≠ [] ∧ index.indexedChunks path ≠ []) ∨
        ∃ content, computeFileHash content = hash ∧
          (index.indexedChunks path ++ chunkEntries (chunks.map Prod.fst)).Perm
            (chunkEntries (chunkMarkdown content))
  | _ => True

variable {index : MemoryIndex}

theorem recorded_empty : RowsRecorded computeFileHash {} := by
  refine ⟨VectorStore.ready_empty, ?_, ?_⟩
  · intro path record hrecord
    cases hrecord
  · intro path hrows
    exact absurd rfl hrows

section

variable (hrecorded : RowsRecorded computeFileHash index)
include hrecorded

theorem RowsRecorded.delete_iff (path : String) :
    RowsRecorded computeFileHash (index.deleteChunksByFile path) ↔
      RecordSafe computeFileHash index (.deleteChunksByFile path) := by
  have hchunks := indexedChunks_deleteChunksByFile index path
  constructor
  · intro hafter record hrecord
    obtain ⟨content, hhash, hindexes⟩ := hafter.records path record hrecord
    refine ⟨content, hhash, ?_⟩
    rw [Indexes, hchunks, if_pos rfl] at hindexes
    exact chunkEntries_eq_nil.mp hindexes.symm.eq_nil
  · intro hsafe
    refine ⟨hrecorded.ready.deleteChunksByFile path, ?_, ?_⟩
    · intro other record hrecord
      by_cases heq : other = path
      · subst heq
        obtain ⟨content, hhash, hnone⟩ := hsafe record hrecord
        refine ⟨content, hhash, ?_⟩
        rw [hnone, indexes_nil, hchunks, if_pos rfl]
      · obtain ⟨content, hhash, hindexes⟩ := hrecorded.records other record hrecord
        refine ⟨content, hhash, ?_⟩
        rwa [Indexes, hchunks, if_neg heq]
    · intro other hrows
      rw [hchunks] at hrows
      split at hrows
      · exact absurd rfl hrows
      · exact hrecorded.rows other hrows

theorem RowsRecorded.inserted_iff {path : String} {next : MemoryIndex} {record : FileRow}
    (hready : next.store.Ready) (hfiles : next.files = index.files.set path record)
    (chunks : List (Nat × String))
    (hchunks : ∀ other, next.indexedChunks other = if other = path then chunks else
      index.indexedChunks other) :
    RowsRecorded computeFileHash next ↔
      ∃ content, computeFileHash content = record.hash ∧
        chunks.Perm (chunkEntries (chunkMarkdown content)) := by
  constructor
  · intro hafter
    obtain ⟨content, hhash, hindexes⟩ := hafter.records path record (by simp [hfiles])
    refine ⟨content, hhash, ?_⟩
    rwa [Indexes, hchunks, if_pos rfl] at hindexes
  · rintro ⟨content, hhash, hperm⟩
    refine ⟨hready, ?_, ?_⟩
    · intro other found hfound
      rw [hfiles, Dict.get?_set] at hfound
      split at hfound
      · rename_i heq
        subst heq
        obtain rfl := Option.some.inj hfound
        refine ⟨content, hhash, ?_⟩
        rwa [Indexes, hchunks, if_pos rfl]
      · rename_i hne
        obtain ⟨content, hhash, hindexes⟩ := hrecorded.records other found hfound
        refine ⟨content, hhash, ?_⟩
        rwa [Indexes, hchunks, if_neg (Ne.symm hne)]
    · intro other hrows
      rw [hfiles, Dict.get?_set]
      split
      · rfl
      · rename_i hne
        rw [hchunks, if_neg (Ne.symm hne)] at hrows
        exact hrecorded.rows other hrows

theorem RowsRecorded.insert_iff (path : String) (chunks : List (Chunk × Embedding))
    (metadata : MemoryIndexMetadata) (hash : String) (now : Nat) :
    RowsRecorded computeFileHash ((insertChunks path chunks metadata hash now).run index).2 ↔
      RecordSafe computeFileHash index (.insertChunks path chunks metadata hash) := by
  by_cases hrows : index.indexedChunks path = []
  · obtain ⟨store, hrun, hready, hstore⟩ := run_insertChunks_of_free chunks metadata hash
      now hrecorded.ready hrows
    rw [hrun]
    have hchunks : ∀ other, ({ store := store
                               files := index.files.set path
                                 (recordOf hash chunks.length metadata now) } :
          MemoryIndex).indexedChunks other =
        if other = path then chunkEntries (chunks.map Prod.fst) else index.indexedChunks other := by
      intro other
      rw [indexedChunks_of_rowsOf, hstore]
      split
      · exact map_insertedRow ..
      · rfl
    rw [hrecorded.inserted_iff hready rfl _ hchunks]
    simp [RecordSafe, hrows, recordOf]
  by_cases hnil : chunks = []
  · subst hnil
    have hready : ({ index with files := index.files.set path (recordOf hash 0 metadata now) } :
      MemoryIndex).store.Ready := hrecorded.ready
    rw [run_insertChunks_nil, hrecorded.inserted_iff hready rfl (index.indexedChunks path)]
    · simp [RecordSafe, recordOf, chunkEntries]
    · intro other
      split
      · rename_i heq
        rw [heq]
        rfl
      · rfl
  · obtain ⟨record, hrecord⟩ := Option.isSome_iff_exists.mp (hrecorded.rows path hrows)
    obtain ⟨content, -, hindexes⟩ := hrecorded.records path record hrecord
    rw [run_insertChunks_of_occupied hnil (hindexes.first hrows)]
    exact iff_of_true hrecorded (Or.inl ⟨hnil, hrows⟩)

theorem RowsRecorded.perform_iff (answer : MemoryAnswer) (op : MemoryOp) :
    RowsRecorded computeFileHash (op.perform answer index).2 ↔
      RecordSafe computeFileHash index op := by
  cases op with
  | deleteChunksByFile path => exact hrecorded.delete_iff path
  | insertChunks path chunks metadata hash =>
      exact hrecorded.insert_iff path chunks metadata hash answer.now
  | walk _ => exact iff_of_true hrecorded trivial
  | readFile _ => exact iff_of_true hrecorded trivial
  | writeFile _ _ => exact iff_of_true hrecorded trivial
  | embed _ => exact iff_of_true hrecorded trivial
  | hasFileChanged _ _ => exact iff_of_true hrecorded trivial

end

def plainMatter : GrayMatter where
  parse text := some (.empty, text)
  stringify text _ := some text

def safeTest (op : MemoryOp) (index : MemoryIndex) : Bool :=
  match op with
  | .deleteChunksByFile path => (index.files.get? path).isNone
  | .insertChunks path chunks _ hash =>
      index.indexedChunks path = [] &&
        chunkEntries (chunks.map Prod.fst) = chunkEntries (chunkMarkdown hash.toList)
  | _ => true

theorem safe_of_test {op : MemoryOp} {index : MemoryIndex} (htest : safeTest op index = true) :
    RecordSafe String.ofList index op := by
  cases op with
  | deleteChunksByFile path =>
      intro record hrecord
      rw [safeTest, hrecord] at htest
      cases htest
  | insertChunks path chunks metadata hash =>
      rw [safeTest, Bool.and_eq_true, decide_eq_true_eq, decide_eq_true_eq] at htest
      refine Or.inr ⟨hash.toList, String.ofList_toList, ?_⟩
      rw [htest.1, htest.2, List.nil_append]
  | _ => trivial

def syncTurns (program : Nat) (content : String) (embeddings : Option (List Embedding)) :
    List (Turn MemoryAnswer) :=
  [{ found := ["a.md"] }, { content := some content.toList }, {}, {},
    { embeddings := embeddings }].map fun answer => ⟨program, answer⟩

def recordedChunks (pool : MemoryPool) (path : String) : Option String × List (Nat × String) :=
  ((pool.shared.files.get? path).map FileRow.hash, pool.shared.indexedChunks path)

end Aof
