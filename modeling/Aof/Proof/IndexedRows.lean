import Aof.Memory.Indexing
import Aof.Proof.IdSets

/-!
# The rows of a file

What the operations of the index do to the chunks that are stored for a path.
-/

namespace Aof

namespace VectorStore

variable {store next : VectorStore} {path other : String}

/-- Every id in use has been given out by the sequence. -/
structure Ready (store : VectorStore) : Prop where
  chunks : ∀ id, store.sequence < id → store.chunks.has id = false
  vectors : ∀ id, store.sequence < id → store.vecChunks.has id = false
  labels : ∀ id, store.sequence < id → store.hnsw.points.has id = false
  deleted : ∀ id, store.sequence < id → id ∉ store.hnsw.deleted
  capacity : 0 < store.hnsw.maxElements
  count : store.hnsw.getCurrentCount ≤ store.hnsw.maxElements

theorem ready_empty : ({} : VectorStore).Ready :=
  ⟨fun _ _ => rfl, fun _ _ => rfl, fun _ _ => rfl, fun _ _ => List.not_mem_nil, by decide,
    by decide⟩

def rowsOf (store : VectorStore) (path : String) : List ChunkRow :=
  store.chunks.values.filter fun row => row.filePath = path

theorem occupied_iff {chunkIndex : Nat} : store.occupied path chunkIndex = true ↔
      ∃ row ∈ store.rowsOf path, row.chunkIndex = chunkIndex := by
  simp [occupied, rowsOf, and_assoc]

theorem entries_eraseAll {Row : Type} (table : Dict Nat Row) (ids : List Nat) :
    (eraseAll table ids).entries = table.entries.filter fun entry => entry.1 ∉ ids := by
  induction ids generalizing table with
  | nil => simp [eraseAll]
  | cons first rest ih =>
      show (eraseAll (table.erase first) rest).entries = _
      rw [ih, Dict.erase, List.filter_filter]
      congr 1
      funext entry
      rw [Bool.and_comm]
      simp

theorem rowsOf_deleteChunksByFile (store : VectorStore) (path other : String) :
    (store.deleteChunksByFile path).rowsOf other =
      if other = path then [] else store.rowsOf other := by
  have hkept : (store.deleteChunksByFile path).chunks.entries =
      store.chunks.entries.filter fun entry => entry.2.filePath ≠ path := by
    rw [deleteChunksByFile, entries_eraseAll]
    apply List.filter_congr
    intro entry hentry
    apply decide_eq_decide.mpr
    rw [ne_eq, not_iff_not]
    simp only [chunkIdsOf, List.mem_map, List.mem_filter, decide_eq_true_eq]
    constructor
    · rintro ⟨found, ⟨hfound, hpath⟩, hid⟩
      have hsame : found = entry := by
        apply Prod.ext hid
        have hget := Dict.get?_eq_some_iff.mpr hfound
        rw [hid, Dict.get?_eq_some_iff.mpr hentry] at hget
        exact (Option.some.inj hget).symm
      rwa [hsame] at hpath
    · intro hpath
      exact ⟨entry, ⟨hentry, hpath⟩, rfl⟩
  rw [rowsOf, rowsOf, Dict.values, hkept, Dict.values, List.filter_map, List.filter_map,
    List.filter_filter]
  split
  · rename_i heq
    rw [List.map_eq_nil_iff, List.filter_eq_nil_iff]
    simp [heq]
  · rename_i hne
    congr 1
    apply List.filter_congr
    intro entry _
    by_cases hentry : entry.2.filePath = other
    · simp [hentry, hne]
    · simp [hentry]

theorem mem_deleted_foldl_remove {labels : List Nat} {index : HnswIndex} {id : Nat}
    (hmem : id ∈ (labels.foldl HnswIndex.remove index).deleted) :
    id ∈ index.deleted ∨ index.points.has id = true := by
  induction labels generalizing index with
  | nil => exact Or.inl hmem
  | cons label labels ih =>
      rw [List.foldl_cons] at hmem
      rcases ih hmem with hdeleted | hpoint
      · simp only [HnswIndex.remove, HierarchicalNSW.markDelete] at hdeleted
        split at hdeleted
        · rename_i hlabel
          rcases List.mem_cons.mp hdeleted with rfl | hdeleted
          · exact Or.inr hlabel
          · exact Or.inl hdeleted
        · exact Or.inl hdeleted
      · rw [HnswIndex.has_remove, Bool.and_eq_true] at hpoint
        exact Or.inr hpoint.1

theorem count_remove (index : HnswIndex) (label : Nat) :
    (index.remove label).getCurrentCount = index.getCurrentCount ∧
      (index.remove label).maxElements = index.maxElements := by
  simp only [HnswIndex.remove, HierarchicalNSW.markDelete]
  split
  · rename_i hlabel
    refine ⟨?_, rfl⟩
    have hmem : label ∈ index.points.keys := Dict.has_iff.mp hlabel
    have hlength : ∀ points : Dict Nat Embedding, points.entries.length = points.keys.length :=
      fun points => by simp [Dict.keys]
    have hpos := List.length_pos_of_mem hmem
    have hfilter : (index.points.keys.filter fun other => other ≠ label).length =
        index.points.keys.length - 1 := by
      have herase := List.Nodup.erase_eq_filter (l := index.points.keys) index.points.nodup label
      rw [← List.length_erase_of_mem hmem, herase]
      congr 1
      apply List.filter_congr
      intro other _
      by_cases heq : other = label <;> simp [heq]
    simp only [Option.getD_some, HierarchicalNSW.getCurrentCount, List.length_cons, hlength,
      Dict.keys_erase, hfilter]
    omega
  · exact ⟨rfl, rfl⟩

theorem count_foldl_remove (labels : List Nat) (index : HnswIndex) :
    (labels.foldl HnswIndex.remove index).getCurrentCount = index.getCurrentCount ∧
      (labels.foldl HnswIndex.remove index).maxElements = index.maxElements := by
  induction labels generalizing index with
  | nil => exact ⟨rfl, rfl⟩
  | cons label labels ih =>
      rw [List.foldl_cons, (ih _).1, (ih _).2]
      exact count_remove index label

theorem Ready.deleteChunksByFile (hready : store.Ready) (path : String) :
    (store.deleteChunksByFile path).Ready := by
  have hcount := count_foldl_remove (store.chunkIdsOf path) store.hnsw
  constructor
  · intro id hid
    simp [VectorStore.deleteChunksByFile, has_eraseAll, hready.chunks id hid]
  · intro id hid
    simp [VectorStore.deleteChunksByFile, has_eraseAll, hready.vectors id hid]
  · intro id hid
    simp [VectorStore.deleteChunksByFile, HnswIndex.has_foldl_remove, hready.labels id hid]
  · intro id hid hmem
    rcases mem_deleted_foldl_remove hmem with hdeleted | hpoint
    · exact hready.deleted id hid hdeleted
    · rw [hready.labels id hid] at hpoint
      cases hpoint
  · exact hcount.2.symm ▸ hready.capacity
  · exact (hcount.1.trans_le hready.count).trans_eq hcount.2.symm

theorem add_of_unused {index : HnswIndex} {id : Nat} (vector : Embedding)
    (hcapacity : 0 < index.maxElements) (hcount : index.getCurrentCount ≤ index.maxElements)
    (hpoint : index.points.has id = false) (hdeleted : id ∉ index.deleted) :
    ∃ next, HnswIndex.add index id vector = some next ∧ next.deleted = index.deleted ∧
      0 < next.maxElements ∧ next.getCurrentCount ≤ next.maxElements := by
  have hroom : (HnswIndex.ensureCapacity index).deleted = index.deleted ∧
      (HnswIndex.ensureCapacity index).points = index.points ∧
      index.getCurrentCount < (HnswIndex.ensureCapacity index).maxElements := by
    refine ⟨?_, HnswIndex.points_ensureCapacity index, ?_⟩ <;> unfold HnswIndex.ensureCapacity
    · split <;> rfl
    · split
      · show _ < index.maxElements * GROWTH_FACTOR
        rw [GROWTH_FACTOR]
        omega
      · omega
  obtain ⟨hsame, hpoints, hlt⟩ := hroom
  have hcurrent : (HnswIndex.ensureCapacity index).getCurrentCount = index.getCurrentCount := by
    rw [HierarchicalNSW.getCurrentCount, hsame, hpoints]
    rfl
  have hnew : id ∉ index.points.keys := by
    rw [← Dict.has_iff, hpoint]
    exact Bool.false_ne_true
  have hlength : ∀ points : Dict Nat Embedding, points.entries.length = points.keys.length :=
    fun points => by simp [Dict.keys]
  have hnext : ((HnswIndex.ensureCapacity index).setPoint vector id).getCurrentCount =
      index.getCurrentCount + 1 := by
    simp only [HierarchicalNSW.getCurrentCount, HierarchicalNSW.setPoint, hlength, hpoints, hsame,
      Dict.keys_set, if_neg hnew, List.length_append, List.length_singleton]
    omega
  refine ⟨(HnswIndex.ensureCapacity index).setPoint vector id, ?_, hsame, ?_⟩
  · unfold HnswIndex.add HierarchicalNSW.addPoint
    rw [hpoints, hpoint, hsame, if_neg (by simp), if_neg hdeleted]
    simp only
    rw [if_neg (by omega)]
  · rw [hnext]
    exact ⟨Nat.zero_lt_of_lt hlt, hlt⟩

theorem Ready.insertChunk_of_free (hready : store.Ready) (input : VectorChunkInput) (now : Nat)
    (hfree : store.occupied input.filePath input.chunkIndex = false) :
    ∃ next, store.insertChunk input now = some (store.sequence + 1, next) ∧ next.Ready ∧
      ∀ other, next.rowsOf other =
        if other = input.filePath then store.rowsOf other ++ [VectorChunkInput.row input now]
        else store.rowsOf other := by
  have hnew := hready.vectors (store.sequence + 1) (by omega)
  obtain ⟨hnsw, hadd, hdeleted, hcapacity, hcount⟩ := add_of_unused input.embedding
    hready.capacity hready.count (hready.labels (store.sequence + 1) (by omega))
    (hready.deleted _ (by omega))
  have hkeys : store.sequence + 1 ∉ store.chunks.keys := by
    rw [← Dict.has_iff, hready.chunks _ (by omega)]
    exact Bool.false_ne_true
  refine ⟨⟨store.chunks.set (store.sequence + 1) (VectorChunkInput.row input now),
    store.vecChunks.set (store.sequence + 1) input.embedding, store.sequence + 1, hnsw⟩, ?_, ?_, ?_⟩
  · unfold insertChunk
    simp only [hfree, hnew, Bool.false_eq_true, or_self, ↓reduceIte, hadd, Option.bind_eq_bind,
      Option.bind_some]
  · have hnext : ∀ id, store.sequence + 1 < id → store.sequence < id ∧ store.sequence + 1 ≠ id :=
      fun id hid => by omega
    refine ⟨fun id hid => ?_, fun id hid => ?_, fun id hid => ?_, fun id hid => ?_, hcapacity,
      hcount⟩
    · rw [Dict.has_set, hready.chunks id (hnext id hid).1, decide_eq_false (hnext id hid).2]
      rfl
    · rw [Dict.has_set, hready.vectors id (hnext id hid).1, decide_eq_false (hnext id hid).2]
      rfl
    · rw [HnswIndex.has_add hadd, hready.labels id (hnext id hid).1,
        decide_eq_false (hnext id hid).2]
      rfl
    · rw [hdeleted]
      exact hready.deleted id (hnext id hid).1
  · intro other
    rw [rowsOf, Dict.values, Dict.entries_set_of_not_mem hkeys, List.map_append,
      List.filter_append]
    split
    · rename_i heq
      simp [rowsOf, Dict.values, heq, VectorChunkInput.row]
    · rename_i hne
      simp [rowsOf, Dict.values, Ne.symm hne, VectorChunkInput.row]

end VectorStore

namespace MemoryIndex

variable {index : MemoryIndex} {path other : String}

def indexedChunks (index : MemoryIndex) (path : String) : List (Nat × String) :=
  (index.store.rowsOf path).map fun row => (row.chunkIndex, row.content)

def chunkEntries (chunks : List Chunk) : List (Nat × String) :=
  chunks.zipIdx.map fun chunk => (chunk.2, String.ofList chunk.1.content)

def Indexes (index : MemoryIndex) (path : String) (chunks : List Chunk) : Prop :=
  (index.indexedChunks path).Perm (chunkEntries chunks)

theorem indexes_nil : index.Indexes path [] ↔ index.indexedChunks path = [] := List.perm_nil

theorem indexedChunks_deleteChunksByFile (index : MemoryIndex) (path other : String) :
    (index.deleteChunksByFile path).indexedChunks other =
      if other = path then [] else index.indexedChunks other := by
  show ((index.store.deleteChunksByFile path).rowsOf other).map _ = _
  rw [VectorStore.rowsOf_deleteChunksByFile]
  split <;> rfl

def insertedRow (path : String) (metadata : MemoryIndexMetadata) (now : Nat)
    (input : (Chunk × Embedding) × Nat) : ChunkRow :=
  VectorStore.VectorChunkInput.row
    { filePath := path, chunkIndex := input.2, content := String.ofList input.1.1.content
      embedding := input.1.2, tier := metadata.tier, pool := metadata.pool
      importance := metadata.importance, tags := metadata.tags } now

theorem run_forM_insertChunk (path : String) (metadata : MemoryIndexMetadata) (now : Nat)
    (inputs : List ((Chunk × Embedding) × Nat)) (hready : index.store.Ready)
    (hnodup : (inputs.map Prod.snd).Nodup)
    (hfree : ∀ input ∈ inputs, ∀ row ∈ index.store.rowsOf path, row.chunkIndex ≠ input.2) :
    ∃ store, (inputs.forM (insertChunk path metadata now)).run index =
        (some (), { index with store := store }) ∧ store.Ready ∧
      ∀ other, store.rowsOf other =
        if other = path then
          index.store.rowsOf other ++ inputs.map (insertedRow path metadata now)
        else index.store.rowsOf other := by
  induction inputs generalizing index with
  | nil => exact ⟨index.store, rfl, hready, fun other => by simp⟩
  | cons input inputs ih =>
      have hoccupied : index.store.occupied path input.2 = false := by
        rw [← Bool.not_eq_true, VectorStore.occupied_iff]
        rintro ⟨row, hrow, hindex⟩
        exact hfree input List.mem_cons_self row hrow hindex
      obtain ⟨next, hinsert, hnready, hnrows⟩ := hready.insertChunk_of_free
        { filePath := path, chunkIndex := input.2, content := String.ofList input.1.1.content
          embedding := input.1.2, tier := metadata.tier, pool := metadata.pool
          importance := metadata.importance, tags := metadata.tags } now hoccupied
      have hfirst : (insertChunk path metadata now input).run index =
          (some (), { index with store := next }) := by
        simp only [Command.run, insertChunk, hinsert]
      rw [List.map_cons, List.nodup_cons] at hnodup
      obtain ⟨store, hrun, hsready, hsrows⟩ := @ih { index with store := next } hnready
        hnodup.2 (by
          intro other hother row hrow
          rw [hnrows, if_pos rfl, List.mem_append, List.mem_singleton] at hrow
          rcases hrow with hrow | rfl
          · exact hfree other (List.mem_cons_of_mem _ hother) row hrow
          · intro heq
            apply hnodup.1
            rw [show input.2 = other.2 from heq]
            exact List.mem_map_of_mem hother)
      refine ⟨store, ?_, hsready, fun other => ?_⟩
      · exact (Command.run_bind_of_some hfirst).trans hrun
      · rw [hsrows, hnrows]
        split
        · rw [List.map_cons, List.append_assoc]
          rfl
        · rfl

theorem indexedChunks_of_rowsOf (files : Dict String FileRow) (store : VectorStore)
    (path : String) : ({ store := store, files := files } : MemoryIndex).indexedChunks path =
      (store.rowsOf path).map fun row => (row.chunkIndex, row.content) := rfl

theorem map_insertedRow (path : String) (metadata : MemoryIndexMetadata) (now : Nat)
    (inputs : List (Chunk × Embedding)) : (inputs.zipIdx.map (insertedRow path metadata now)).map
      (fun row => (row.chunkIndex, row.content)) = chunkEntries (inputs.map Prod.fst) := by
  rw [chunkEntries, List.zipIdx_map, List.map_map, List.map_map]
  rfl

def recordOf (hash : String) (chunkCount : Nat) (metadata : MemoryIndexMetadata) (now : Nat) :
    FileRow where
  hash := hash
  chunkCount := chunkCount
  tier := metadata.tier
  pool := metadata.pool
  indexedAt := now

variable {inputs : List (Chunk × Embedding)} {metadata : MemoryIndexMetadata} {hash : String}
variable {now : Nat}

theorem run_insertChunks_of_free (inputs : List (Chunk × Embedding))
    (metadata : MemoryIndexMetadata) (hash : String) (now : Nat) (hready : index.store.Ready)
    (hnone : index.indexedChunks path = []) :
    ∃ store, (insertChunks path inputs metadata hash now).run index =
        (some (), { store := store
                    files := index.files.set path (recordOf hash inputs.length metadata now) }) ∧
      store.Ready ∧
      ∀ other, store.rowsOf other =
        if other = path then inputs.zipIdx.map (insertedRow path metadata now)
        else index.store.rowsOf other := by
  have hrows : index.store.rowsOf path = [] := List.map_eq_nil_iff.mp hnone
  obtain ⟨store, hrun, hsready, hsrows⟩ := run_forM_insertChunk path metadata now
    inputs.zipIdx hready
    (by simpa using List.nodup_range' (s := 0) (n := inputs.length) 1)
    (by simp [hrows])
  refine ⟨store, ?_, hsready, fun other => ?_⟩
  · rw [insertChunks, Command.run_bind_of_some hrun]
    rfl
  · rw [hsrows]
    split
    · rename_i heq
      rw [heq, hrows, List.nil_append]
    · rfl

/-- The constraint of the table stops a call whose path has been indexed since it has deleted its
chunks, before anything has changed. -/
theorem run_insertChunks_of_occupied (hinputs : inputs ≠ [])
    (hfirst : ∃ content, (0, content) ∈ index.indexedChunks path) :
    (insertChunks path inputs metadata hash now).run index = (none, index) := by
  obtain ⟨first, rest, rfl⟩ := List.exists_cons_of_ne_nil hinputs
  have hoccupied : index.store.occupied path 0 = true := by
    obtain ⟨content, hmem⟩ := hfirst
    obtain ⟨row, hrow, heq⟩ := List.mem_map.mp hmem
    rw [VectorStore.occupied_iff]
    exact ⟨row, hrow, (Prod.mk.inj heq).1⟩
  have hnone : (insertChunk path metadata now (first, 0)).run index = (none, index) := by
    simp [Command.run, insertChunk, VectorStore.insertChunk, hoccupied]
  rw [insertChunks]
  apply Command.run_bind_of_none
  exact Command.run_bind_of_none hnone

theorem run_insertChunks_nil (index : MemoryIndex) (path : String) (metadata : MemoryIndexMetadata)
    (hash : String) (now : Nat) : (insertChunks path [] metadata hash now).run index =
      (some (), { index with files := index.files.set path (recordOf hash 0 metadata now) }) := rfl

theorem Indexes.first {chunks : List Chunk} (hindexes : index.Indexes path chunks)
    (hne : index.indexedChunks path ≠ []) : ∃ content, (0, content) ∈ index.indexedChunks path := by
  cases chunks with
  | nil => exact absurd (indexes_nil.mp hindexes) hne
  | cons chunk chunks =>
      refine ⟨String.ofList chunk.content, hindexes.mem_iff.mpr ?_⟩
      simp [chunkEntries]

theorem chunkEntries_eq_nil {chunks : List Chunk} : chunkEntries chunks = [] ↔ chunks = [] := by
  simp [chunkEntries]

end MemoryIndex

end Aof
