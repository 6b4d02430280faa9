import Aof.Memory.VectorStore

/-!
# The id sets of the vector store

The chunks table, the vector table and the live labels of the index hold the same ids, as long as no
embedding is written for an id that does not exist: the statements change no row for it, but the
index inserts the label.
-/

namespace Aof

open StepSystem

namespace HierarchicalNSW

variable {index next : HierarchicalNSW} {vector : Embedding} {label : Nat}

theorem has_setPoint (index : HierarchicalNSW) (vector : Embedding) (label id : Nat) :
    (index.setPoint vector label).points.has id = (decide (label = id) || index.points.has id) :=
  Dict.has_set ..

theorem has_addPoint {replaceDeleted : Bool}
    (hadd : index.addPoint vector label replaceDeleted = some next) (id : Nat) :
    next.points.has id = (decide (label = id) || index.points.has id) := by
  have hset := has_setPoint index vector label id
  unfold addPoint at hadd
  split at hadd
  · obtain rfl := Option.some.inj hadd
    exact hset
  split at hadd
  · split at hadd
    · obtain rfl := Option.some.inj hadd
      exact hset
    · cases hadd
  split at hadd
  · obtain rfl := Option.some.inj hadd
    exact hset
  · split at hadd
    · cases hadd
    · obtain rfl := Option.some.inj hadd
      exact hset

end HierarchicalNSW

namespace HnswIndex

variable {index next : HnswIndex}

@[simp]
theorem points_ensureCapacity (index : HnswIndex) :
    (ensureCapacity index).points = index.points := by
  unfold ensureCapacity
  split <;> rfl

theorem has_remove (index : HnswIndex) (label id : Nat) :
    (remove index label).points.has id = (index.points.has id && decide (id ≠ label)) := by
  by_cases hlabel : index.points.has label = true
  · simp only [remove, HierarchicalNSW.markDelete, hlabel, ↓reduceIte, Option.getD_some]
    exact Dict.has_erase ..
  · have hkept : remove index label = index := by
      simp [remove, HierarchicalNSW.markDelete, hlabel]
    rw [hkept]
    by_cases heq : id = label
    · simp [heq, hlabel]
    · simp [heq]

theorem has_add {id : Nat} {vector : Embedding} (hadd : add index id vector = some next)
    (other : Nat) : next.points.has other = (decide (id = other) || index.points.has other) := by
  rw [HierarchicalNSW.has_addPoint hadd, points_ensureCapacity]

theorem has_update {id : Nat} {vector : Embedding} (hupdate : update index id vector = some next)
    (other : Nat) : next.points.has other = (decide (id = other) || index.points.has other) := by
  rw [HierarchicalNSW.has_addPoint hupdate, points_ensureCapacity]
  show (decide (id = other) || (remove index id).points.has other) = _
  rw [has_remove]
  by_cases heq : id = other
  · simp [heq]
  · simp [heq, Ne.symm heq]

theorem has_foldl_remove (labels : List Nat) (index : HnswIndex) (id : Nat) :
    (labels.foldl remove index).points.has id = (index.points.has id && decide (id ∉ labels)) := by
  induction labels generalizing index with
  | nil => simp
  | cons label labels ih =>
      rw [List.foldl_cons, ih, has_remove, Bool.and_assoc]
      by_cases heq : id = label <;> simp [heq]

theorem has_foldlM_addPoint {chunks : List (Nat × Embedding)} {start : HnswIndex}
    (hadd : chunks.foldlM (fun index chunk => index.addPoint chunk.2 chunk.1 false) start =
      some next) (id : Nat) :
    next.points.has id = (decide (id ∈ chunks.map Prod.fst) || start.points.has id) := by
  induction chunks generalizing start with
  | nil =>
      obtain rfl : start = next := by simpa using hadd
      simp
  | cons chunk chunks ih =>
      rw [List.foldlM_cons] at hadd
      obtain ⟨middle, hfirst, hrest⟩ := Option.bind_eq_some_iff.mp hadd
      rw [ih hrest, HierarchicalNSW.has_addPoint hfirst, ← Bool.or_assoc, List.map_cons]
      congr 1
      rw [← Bool.decide_or]
      apply decide_eq_decide.mpr
      rw [List.mem_cons, or_comm, eq_comm (a := id)]

theorem has_rebuild {table : Dict Nat Embedding} (hrebuild : rebuild table.entries = some next)
    (id : Nat) : next.points.has id = table.has id := by
  have hstart : ∀ capacity, (createIndex capacity).points.has id = false := fun _ => rfl
  rw [has_foldlM_addPoint hrebuild, hstart, Bool.or_false, Bool.eq_iff_iff, decide_eq_true_eq,
    Dict.has_iff]
  rfl

end HnswIndex

namespace VectorStore

variable {store next : VectorStore}

/-- The ids of the two tables and the live labels are the same. -/
structure InSync (store : VectorStore) : Prop where
  vectors : ∀ id, store.vecChunks.has id = store.chunks.has id
  labels : ∀ id, store.hnsw.points.has id = store.chunks.has id

/-- An embedding is only written for a chunk that exists. -/
def Existing (store : VectorStore) : VectorStoreOp → Prop
  | .updateChunk id update => update.embedding.isSome = true → store.chunks.has id = true
  | _ => True

theorem has_updateRow {Row : Type} (table : Dict Nat Row) (id : Nat) (change : Row → Row)
    (other : Nat) : (updateRow table id change).has other = table.has other := by
  unfold updateRow
  split
  · rename_i row hrow
    by_cases heq : id = other
    · subst heq
      simp [Dict.has, hrow]
    · simp [Dict.has_set, heq]
  · rfl

theorem has_eraseAll {Row : Type} (table : Dict Nat Row) (ids : List Nat) (id : Nat) :
    (eraseAll table ids).has id = (table.has id && decide (id ∉ ids)) := by
  induction ids generalizing table with
  | nil => simp [eraseAll]
  | cons first rest ih =>
      show (eraseAll (table.erase first) rest).has id = _
      rw [ih, Dict.has_erase, Bool.and_assoc]
      by_cases heq : id = first <;> simp [heq]

section

variable (hsync : store.InSync)
include hsync

theorem InSync.insertChunk {input : VectorChunkInput} {now chunkId : Nat}
    (hinsert : store.insertChunk input now = some (chunkId, next)) : next.InSync := by
  simp only [VectorStore.insertChunk] at hinsert
  split at hinsert
  · cases hinsert
  · obtain ⟨hnsw, hadd, hnext⟩ := Option.bind_eq_some_iff.mp hinsert
    obtain ⟨rfl, rfl⟩ := Prod.mk.inj (Option.some.inj hnext)
    constructor
    · intro id
      simp only [Dict.has_set, hsync.vectors]
    · intro id
      simp only [HnswIndex.has_add hadd, Dict.has_set, hsync.labels]

theorem InSync.of_chunks {chunks : Dict Nat ChunkRow}
    (hchunks : ∀ id, chunks.has id = store.chunks.has id) :
    InSync { store with chunks := chunks } :=
  ⟨fun id => (hsync.vectors id).trans (hchunks id).symm,
    fun id => (hsync.labels id).trans (hchunks id).symm⟩

theorem InSync.updateChunk_iff {id : Nat} {update : VectorChunkUpdate}
    (hupdate : store.updateChunk id update = some next) :
    next.InSync ↔ (update.embedding.isSome = true → store.chunks.has id = true) := by
  have hchunks : ∀ other, (updateRow store.chunks id (VectorChunkUpdate.apply update)).has other =
      store.chunks.has other := has_updateRow store.chunks id _
  cases hembedding : update.embedding with
  | none =>
      simp only [VectorStore.updateChunk, hembedding, Option.some.injEq] at hupdate
      subst hupdate
      simpa using hsync.of_chunks hchunks
  | some embedding =>
      simp only [VectorStore.updateChunk, hembedding, Option.bind_eq_bind,
        Option.bind_eq_some_iff, Option.some.injEq] at hupdate
      obtain ⟨hnsw, hlabel, rfl⟩ := hupdate
      have hlabels : ∀ other, hnsw.points.has other =
          (decide (id = other) || store.chunks.has other) := by
        intro other
        rw [HnswIndex.has_update hlabel, hsync.labels]
      constructor
      · intro hnext _
        rw [← hchunks id, ← hnext.labels id, hlabels id, decide_eq_true rfl, Bool.true_or]
      · intro hexists
        constructor
        · intro other
          rw [has_updateRow, hchunks, hsync.vectors]
        · intro other
          rw [hlabels, hchunks]
          by_cases heq : id = other
          · simp [← heq, hexists]
          · simp [heq]

theorem InSync.deleteChunk (id : Nat) : (store.deleteChunk id).InSync := by
  constructor
  · intro other
    simp only [VectorStore.deleteChunk, Dict.has_erase, hsync.vectors]
  · intro other
    simp only [VectorStore.deleteChunk, HnswIndex.has_remove, Dict.has_erase, hsync.labels]

theorem InSync.deleteChunksByFile (filePath : String) :
    (store.deleteChunksByFile filePath).InSync := by
  constructor
  · intro other
    simp only [VectorStore.deleteChunksByFile, has_eraseAll, hsync.vectors]
  · intro other
    simp only [VectorStore.deleteChunksByFile, HnswIndex.has_foldl_remove, has_eraseAll,
      hsync.labels]

theorem InSync.rebuildHnswFromDb (hrebuild : store.rebuildHnswFromDb = some next) :
    next.InSync := by
  obtain ⟨hnsw, hindex, hnext⟩ := Option.bind_eq_some_iff.mp hrebuild
  obtain rfl := Option.some.inj hnext
  constructor
  · exact hsync.vectors
  · intro id
    rw [HnswIndex.has_rebuild hindex, hsync.vectors]

theorem InSync.step_iff {op : VectorStoreOp} (hstep : store.step op = some next) :
    next.InSync ↔ store.Existing op := by
  cases op with
  | insertChunk input now =>
      obtain ⟨result, hinsert, rfl⟩ := Option.map_eq_some_iff.mp hstep
      exact iff_of_true (hsync.insertChunk hinsert) trivial
  | updateChunk id update => exact hsync.updateChunk_iff hstep
  | deleteChunk id =>
      obtain rfl := Option.some.inj hstep
      exact iff_of_true (hsync.deleteChunk id) trivial
  | deleteChunksByFile filePath =>
      obtain rfl := Option.some.inj hstep
      exact iff_of_true (hsync.deleteChunksByFile filePath) trivial
  | rebuild => exact iff_of_true (hsync.rebuildHnswFromDb hstep) trivial

end

end VectorStore

end Aof
