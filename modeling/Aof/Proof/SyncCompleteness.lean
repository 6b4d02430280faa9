import Aof.Proof.IndexedRows

/-!
# A synchronisation and the disk

A synchronisation indexes the files that have changed and have chunks.  It leaves the other paths as
they are: those of files that are unchanged by their hash, that have become empty or that are gone.
-/

namespace Aof

open MemoryIndex MemoryProgram

variable {computeFileHash : List Char → String} {disk : Dict String (List Char)}
variable {embed : List (List Char) → Option (List Embedding)} {now : Nat}
variable {start index next after : MemoryIndex} {path : String} {content : List Char}

def performFrom (disk : Dict String (List Char))
    (embed : List (List Char) → Option (List Embedding)) (now : Nat) (op : MemoryOp)
    (index : MemoryIndex) : Option (op.Reply × MemoryIndex) :=
  some (op.perform (op.answerFrom disk embed now) index)

variable {metadata : MemoryIndexMetadata} {indexed : Bool} {result counted : SyncResult}
  {dir : String}

theorem alone_indexMemoryChunks {chunks : List Chunk} {metadata : MemoryIndexMetadata}
    {hash : String} {value : Unit}
    (hrun : (indexMemoryChunks path chunks metadata hash).alone (performFrom disk embed now) index =
      some (value, next)) : ∃ inputs : List (Chunk × Embedding), inputs.map Prod.fst = chunks ∧
      (insertChunks path inputs metadata hash now).run (index.deleteChunksByFile path) =
        (some (), next) := by
  simp only [indexMemoryChunks, MemoryProgram.perform, Async.alone_bind, Async.alone_perform,
    performFrom, MemoryOp.perform, MemoryOp.answerFrom, Option.bind_some] at hrun
  split at hrun
  · cases hrun
  · rename_i embeddings hembeddings
    split at hrun
    · cases hrun
    · rename_i hlength
      simp only [ne_eq, not_not, Async.alone_bind, Async.alone_perform, performFrom,
        MemoryOp.perform, MemoryOp.answerFrom, Option.bind_some] at hlength hrun
      refine ⟨chunks.zip embeddings, ?_, ?_⟩
      · rw [List.map_fst_zip]
        omega
      · split at hrun
        · rename_i hsome
          obtain ⟨-, hnext⟩ := Prod.mk.inj (Option.some.inj hrun)
          obtain ⟨done, hdone⟩ := Option.isSome_iff_exists.mp hsome
          exact Prod.ext hdone hnext
        · cases hrun

def Synced (computeFileHash : List Char → String) (index : MemoryIndex) (path : String)
    (content : List Char) : Prop :=
  index.hasFileChanged path (computeFileHash content) = false ∧
    index.Indexes path (chunkMarkdown content)

def Untouched (start index : MemoryIndex) (path : String) : Prop :=
  index.files.get? path = start.files.get? path ∧
    index.indexedChunks path = start.indexedChunks path

theorem hasFileChanged_congr (hfiles : index.files.get? path = start.files.get? path)
    (hash : String) : index.hasFileChanged path hash = start.hasFileChanged path hash := by
  rw [MemoryIndex.hasFileChanged, MemoryIndex.hasFileChanged, hfiles]

def NeedsIndexing (computeFileHash : List Char → String) (index : MemoryIndex) (path : String)
    (content : List Char) : Prop :=
  index.hasFileChanged path (computeFileHash content) = true ∧ chunkMarkdown content ≠ []

theorem untouched_self (index : MemoryIndex) (path : String) : Untouched index index path :=
  ⟨rfl, rfl⟩

theorem synced_of_insertChunks {inputs : List (Chunk × Embedding)} {metadata : MemoryIndexMetadata}
    (hready : index.store.Ready) (hinputs : inputs.map Prod.fst = chunkMarkdown content)
    (hrun : (insertChunks path inputs metadata (computeFileHash content) now).run
      (index.deleteChunksByFile path) = (some (), next)) :
    next.store.Ready ∧ (∀ other, other ≠ path → Untouched index next other) ∧
      Synced computeFileHash next path content := by
  have hnone : (index.deleteChunksByFile path).indexedChunks path = [] := by
    rw [indexedChunks_deleteChunksByFile, if_pos rfl]
  obtain ⟨store, hstore, hsready, hrows⟩ := run_insertChunks_of_free inputs metadata
    (computeFileHash content) now (hready.deleteChunksByFile path) hnone
  obtain rfl := (Prod.mk.inj (hrun.symm.trans hstore)).2
  refine ⟨hsready, fun other hne => ⟨?_, ?_⟩, ?_, ?_⟩
  · exact Dict.get?_set_of_ne _ _ (Ne.symm hne)
  · have hother := indexedChunks_deleteChunksByFile index path other
    rw [if_neg hne] at hother
    rw [indexedChunks_of_rowsOf, hrows, if_neg hne, ← hother]
    rfl
  · simp [MemoryIndex.hasFileChanged, recordOf]
  · rw [Indexes, indexedChunks_of_rowsOf, hrows, if_pos rfl, map_insertedRow, hinputs]

theorem alone_syncFile {indexed : Bool} (hready : index.store.Ready)
    (hcontent : disk.get? path = some content)
    (hrun : (syncFile computeFileHash path).alone (performFrom disk embed now) index =
      some (indexed, next)) :
    next.store.Ready ∧ (∀ other, other ≠ path → Untouched index next other) ∧
      (¬ NeedsIndexing computeFileHash index path content → Untouched index next path) ∧
      (NeedsIndexing computeFileHash index path content →
        Synced computeFileHash next path content) := by
  simp only [syncFile, MemoryProgram.perform, Async.alone_bind, Async.alone_perform, performFrom,
    MemoryOp.perform, MemoryOp.answerFrom, Option.bind_some, hcontent] at hrun
  have hkept : index = next → ¬ NeedsIndexing computeFileHash index path content →
      next.store.Ready ∧ (∀ other, other ≠ path → Untouched index next other) ∧
        (¬ NeedsIndexing computeFileHash index path content → Untouched index next path) ∧
        (NeedsIndexing computeFileHash index path content →
          Synced computeFileHash next path content) := by
    rintro rfl hneeds
    exact ⟨hready, fun other _ => untouched_self index other, fun _ => untouched_self index path,
      fun h => absurd h hneeds⟩
  split at hrun
  · rename_i hchanged
    apply hkept (Prod.mk.inj (Option.some.inj hrun)).2
    rintro ⟨hneeds, -⟩
    rw [hneeds] at hchanged
    cases hchanged
  · rename_i hchanged
    split at hrun
    · rename_i hnil
      apply hkept (Prod.mk.inj (Option.some.inj hrun)).2
      exact fun hneeds => hneeds.2 hnil
    · rename_i hchunks
      rw [Async.alone_bind] at hrun
      obtain ⟨⟨value, middle⟩, hindex, hlast⟩ := Option.bind_eq_some_iff.mp hrun
      obtain rfl : middle = next := (Prod.mk.inj (Option.some.inj hlast)).2
      obtain ⟨inputs, hinputs, hinsert⟩ := alone_indexMemoryChunks hindex
      obtain ⟨hnready, hothers, hsynced⟩ := synced_of_insertChunks hready hinputs hinsert
      exact ⟨hnready, hothers, fun hneeds => absurd ⟨hchanged, hchunks⟩ hneeds, fun _ => hsynced⟩

/-- Each path is as it was at the start, or it had to be indexed and is in the index as it is on the
disk. -/
structure Syncing (computeFileHash : List Char → String) (disk : Dict String (List Char))
    (start index : MemoryIndex) : Prop where
  ready : index.store.Ready
  paths : ∀ path, Untouched start index path ∨ isMarkdown path = true ∧
    ∃ content, disk.get? path = some content ∧
      NeedsIndexing computeFileHash start path content ∧ Synced computeFileHash index path content

def Caught (computeFileHash : List Char → String) (disk : Dict String (List Char))
    (start index : MemoryIndex) (path : String) : Prop :=
  ∀ content, disk.get? path = some content → NeedsIndexing computeFileHash start path content →
    Synced computeFileHash index path content

theorem Syncing.syncFile {indexed : Bool} (hsyncing : Syncing computeFileHash disk start index)
    (hpath : (disk.get? path).isSome) (hmarkdown : isMarkdown path = true)
    (hrun : (syncFile computeFileHash path).alone (performFrom disk embed now) index =
      some (indexed, next)) :
    Syncing computeFileHash disk start next ∧ Caught computeFileHash disk start next path ∧
      ∀ other, Caught computeFileHash disk start index other →
        Caught computeFileHash disk start next other := by
  obtain ⟨content, hcontent⟩ := Option.isSome_iff_exists.mp hpath
  obtain ⟨hready, hothers, hskipped, hindexed⟩ := alone_syncFile hsyncing.ready hcontent hrun
  have hsynced : ∀ {other found}, other ≠ path → Synced computeFileHash index other found →
      Synced computeFileHash next other found := by
    intro other found hne hfound
    obtain ⟨hfiles, hchunks⟩ := hothers other hne
    refine ⟨(hasFileChanged_congr hfiles _).trans hfound.1, ?_⟩
    rw [Indexes, hchunks]
    exact hfound.2
  have hneeds : Untouched start index path →
      (NeedsIndexing computeFileHash index path content ↔
        NeedsIndexing computeFileHash start path content) := by
    intro huntouched
    rw [NeedsIndexing, NeedsIndexing, hasFileChanged_congr huntouched.1]
  have hdone : Synced computeFileHash index path content → Untouched index next path := by
    intro hdone
    apply hskipped
    rintro ⟨hchanged, -⟩
    rw [hdone.1] at hchanged
    cases hchanged
  have hhere : Untouched start next path ∧ ¬ NeedsIndexing computeFileHash start path content ∨
      NeedsIndexing computeFileHash start path content ∧
        Synced computeFileHash next path content := by
    rcases hsyncing.paths path with huntouched | ⟨-, found, hfound, hneeded, hfresh⟩
    · by_cases hneed : NeedsIndexing computeFileHash start path content
      · exact Or.inr ⟨hneed, hindexed ((hneeds huntouched).mpr hneed)⟩
      · obtain ⟨hfiles, hchunks⟩ := hskipped fun h => hneed ((hneeds huntouched).mp h)
        exact Or.inl ⟨⟨hfiles.trans huntouched.1, hchunks.trans huntouched.2⟩, hneed⟩
    · obtain rfl := Option.some.inj (hcontent.symm.trans hfound)
      obtain ⟨hfiles, hchunks⟩ := hdone hfresh
      refine Or.inr ⟨hneeded, (hasFileChanged_congr hfiles _).trans hfresh.1, ?_⟩
      rw [Indexes, hchunks]
      exact hfresh.2
  refine ⟨⟨hready, fun other => ?_⟩, ?_, ?_⟩
  · by_cases heq : other = path
    · subst heq
      exact hhere.imp And.left fun h => ⟨hmarkdown, content, hcontent, h.1, h.2⟩
    · rcases hsyncing.paths other with huntouched | ⟨hfile, found, hfound, hneeded, hfresh⟩
      · obtain ⟨hfiles, hchunks⟩ := hothers other heq
        exact Or.inl ⟨hfiles.trans huntouched.1, hchunks.trans huntouched.2⟩
      · exact Or.inr ⟨hfile, found, hfound, hneeded, hsynced heq hfresh⟩
  · intro found hfound hneeded
    obtain rfl := Option.some.inj (hcontent.symm.trans hfound)
    exact (hhere.resolve_left fun h => h.2 hneeded).2
  · intro other hcaught found hfound hneeded
    by_cases heq : other = path
    · subst heq
      obtain rfl := Option.some.inj (hcontent.symm.trans hfound)
      exact (hhere.resolve_left fun h => h.2 hneeded).2
    · exact hsynced heq (hcaught found hfound hneeded)

theorem alone_syncCounted
    (hrun : (syncCounted computeFileHash result path).alone (performFrom disk embed now) index =
      some (counted, next)) (herrors : counted.errors = 0) : result.errors = 0 ∧ ∃ indexed,
      (syncFile computeFileHash path).alone (performFrom disk embed now) index =
        some (indexed, next) := by
  rw [syncCounted, Async.alone_bind] at hrun
  obtain ⟨⟨outcome, middle⟩, hattempt, hlast⟩ := Option.bind_eq_some_iff.mp hrun
  cases outcome with
  | none =>
      obtain ⟨rfl, -⟩ := Prod.mk.inj (Option.some.inj hlast)
      cases herrors
  | some indexed =>
      have hfile : (syncFile computeFileHash path).alone (performFrom disk embed now) index =
          some (indexed, middle) := by
        cases halone : (syncFile computeFileHash path).alone (performFrom disk embed now) index with
        | none => exact absurd hattempt (Async.alone_attempt_ne halone)
        | some result =>
            have hsame := (Async.alone_attempt halone).symm.trans hattempt
            obtain ⟨hvalue, hstate⟩ := Prod.mk.inj (Option.some.inj hsame)
            exact congrArg some (Prod.ext (Option.some.inj hvalue) hstate)
      cases indexed <;>
      · obtain ⟨rfl, rfl⟩ := Prod.mk.inj (Option.some.inj hlast)
        exact ⟨herrors, _, hfile⟩

theorem errors_of_files {files : List String}
    (hrun : (files.foldlM (syncCounted computeFileHash) result).alone (performFrom disk embed
      now) index = some (counted, next)) (herrors : counted.errors = 0) : result.errors = 0 := by
  induction files generalizing result index with
  | nil =>
      obtain ⟨rfl, -⟩ := Prod.mk.inj (Option.some.inj hrun)
      exact herrors
  | cons file files ih =>
      rw [List.foldlM_cons, Async.alone_bind] at hrun
      obtain ⟨⟨first, middle⟩, hfirst, hrest⟩ := Option.bind_eq_some_iff.mp hrun
      exact (alone_syncCounted hfirst (ih hrest)).1

theorem Syncing.files {files : List String} (hsyncing : Syncing computeFileHash disk start index)
    (hfiles : ∀ path ∈ files, (disk.get? path).isSome ∧ isMarkdown path = true)
    (hrun : (files.foldlM (syncCounted computeFileHash) result).alone (performFrom disk embed
      now) index = some (counted, next)) (herrors : counted.errors = 0) :
    Syncing computeFileHash disk start next ∧
      (∀ path ∈ files, Caught computeFileHash disk start next path) ∧
      ∀ other, Caught computeFileHash disk start index other →
        Caught computeFileHash disk start next other := by
  induction files generalizing result index with
  | nil =>
      obtain ⟨-, rfl⟩ := Prod.mk.inj (Option.some.inj hrun)
      exact ⟨hsyncing, by simp, fun _ h => h⟩
  | cons file files ih =>
      rw [List.foldlM_cons, Async.alone_bind] at hrun
      obtain ⟨⟨first, middle⟩, hfirst, hrest⟩ := Option.bind_eq_some_iff.mp hrun
      obtain ⟨-, indexed, hfile⟩ := alone_syncCounted hfirst (errors_of_files hrest herrors)
      obtain ⟨hmiddle, hcaught, hkept⟩ := hsyncing.syncFile (hfiles file List.mem_cons_self).1
        (hfiles file List.mem_cons_self).2 hfile
      obtain ⟨hnext, hall, hstill⟩ := ih hmiddle
        (fun path hpath => hfiles path (List.mem_cons_of_mem _ hpath)) hrest
      refine ⟨hnext, fun path hpath => ?_, fun other h => hstill other (hkept other h)⟩
      rcases List.mem_cons.mp hpath with rfl | hpath
      · exact hstill _ hcaught
      · exact hall path hpath

theorem alone_syncDir {dir : String} {result counted : SyncResult}
    (hrun : (syncDir computeFileHash result dir).alone (performFrom disk embed now) index =
      some (counted, next)) :
    ((collectMarkdownFiles disk dir).foldlM (syncCounted computeFileHash) result).alone
      (performFrom disk embed now) index = some (counted, next) := by
  simpa only [syncDir, MemoryProgram.perform, Async.alone_bind, Async.alone_perform, performFrom,
    MemoryOp.perform, MemoryOp.answerFrom, Option.bind_some] using hrun

theorem mem_collectMarkdownFiles : path ∈ collectMarkdownFiles disk dir ↔
      (disk.get? path).isSome ∧ underDir dir path = true ∧ isMarkdown path = true := by
  rw [collectMarkdownFiles, List.mem_filter, Dict.mem_keys_iff, ← Option.isSome_iff_exists,
    Bool.and_eq_true]

theorem errors_of_dirs {dirs : List String}
    (hrun : (dirs.foldlM (syncDir computeFileHash) result).alone (performFrom disk embed now)
      index = some (counted, next)) (herrors : counted.errors = 0) : result.errors = 0 := by
  induction dirs generalizing result index with
  | nil =>
      obtain ⟨rfl, -⟩ := Prod.mk.inj (Option.some.inj hrun)
      exact herrors
  | cons dir dirs ih =>
      rw [List.foldlM_cons, Async.alone_bind] at hrun
      obtain ⟨⟨first, middle⟩, hfirst, hrest⟩ := Option.bind_eq_some_iff.mp hrun
      exact errors_of_files (alone_syncDir hfirst) (ih hrest)

theorem Syncing.dirs {dirs : List String} (hsyncing : Syncing computeFileHash disk start index)
    (hrun : (dirs.foldlM (syncDir computeFileHash) result).alone (performFrom disk embed now)
      index = some (counted, next)) (herrors : counted.errors = 0) :
    Syncing computeFileHash disk start next ∧ (∀ dir ∈ dirs, ∀ path ∈ collectMarkdownFiles disk dir,
        Caught computeFileHash disk start next path) ∧
      ∀ other, Caught computeFileHash disk start index other →
        Caught computeFileHash disk start next other := by
  induction dirs generalizing result index with
  | nil =>
      obtain ⟨-, rfl⟩ := Prod.mk.inj (Option.some.inj hrun)
      exact ⟨hsyncing, by simp, fun _ h => h⟩
  | cons dir dirs ih =>
      rw [List.foldlM_cons, Async.alone_bind] at hrun
      obtain ⟨⟨first, middle⟩, hfirst, hrest⟩ := Option.bind_eq_some_iff.mp hrun
      obtain ⟨hmiddle, hcaught, hkept⟩ := hsyncing.files
        (fun path hpath => (mem_collectMarkdownFiles.mp hpath).imp_right And.right)
        (alone_syncDir hfirst)
        (errors_of_dirs hrest herrors)
      obtain ⟨hnext, hall, hstill⟩ := ih hmiddle hrest
      refine ⟨hnext, fun dir' hdir' path hpath => ?_, fun other h => hstill other (hkept other h)⟩
      rcases List.mem_cons.mp hdir' with rfl | hdir'
      · exact hstill _ (hcaught path hpath)
      · exact hall dir' hdir' path hpath

def Under (indexPaths : List String) (path : String) : Prop :=
  ∃ dir ∈ indexPaths, underDir dir path = true

/-- The chunks under the index paths are those of the markdown files on the disk. -/
structure Complete (disk : Dict String (List Char)) (indexPaths : List String)
    (index : MemoryIndex) : Prop where
  present : ∀ path content, Under indexPaths path → isMarkdown path = true →
    disk.get? path = some content → index.Indexes path (chunkMarkdown content)
  absent : ∀ path, Under indexPaths path → (isMarkdown path = true → disk.get? path = none) →
    index.indexedChunks path = []

/-- What the synchronisation leaves alone is in the index as it is to be: the files whose hash is
the recorded one, the files without chunks and the files that are gone. -/
structure NothingStale (computeFileHash : List Char → String) (disk : Dict String (List Char))
    (indexPaths : List String) (index : MemoryIndex) : Prop where
  unchanged : ∀ path content, Under indexPaths path → isMarkdown path = true →
    disk.get? path = some content → index.hasFileChanged path (computeFileHash content) = false →
    index.Indexes path (chunkMarkdown content)
  emptied : ∀ path content, Under indexPaths path → isMarkdown path = true →
    disk.get? path = some content → chunkMarkdown content = [] → index.indexedChunks path = []
  gone : ∀ path, Under indexPaths path → (isMarkdown path = true → disk.get? path = none) →
    index.indexedChunks path = []

theorem syncing_start (hready : index.store.Ready) : Syncing computeFileHash disk index index :=
  ⟨hready, fun path => Or.inl (untouched_self index path)⟩

/-- A synchronisation without an error is complete exactly if nothing that it leaves alone is
stale. -/
theorem sync_complete_iff {indexPaths : List String} {result : SyncResult}
    (hready : index.store.Ready)
    (hrun : (runOnce computeFileHash indexPaths).alone (performFrom disk embed now) index =
      some (result, after)) (herrors : result.errors = 0) :
    Complete disk indexPaths after ↔ NothingStale computeFileHash disk indexPaths index := by
  obtain ⟨hsyncing, hcaught, -⟩ := (syncing_start hready).dirs hrun herrors
  have hkept : ∀ path content, disk.get? path = some content →
      ¬ NeedsIndexing computeFileHash index path content →
      after.indexedChunks path = index.indexedChunks path := by
    intro path content hcontent hneeds
    rcases hsyncing.paths path with huntouched | ⟨-, found, hfound, hneeded, -⟩
    · exact huntouched.2
    · obtain rfl := Option.some.inj (hcontent.symm.trans hfound)
      exact absurd hneeded hneeds
  have hgone : ∀ path, (isMarkdown path = true → disk.get? path = none) →
      after.indexedChunks path = index.indexedChunks path := by
    intro path hnone
    rcases hsyncing.paths path with huntouched | ⟨hmarkdown, found, hfound, -⟩
    · exact huntouched.2
    · rw [hnone hmarkdown] at hfound
      cases hfound
  constructor
  · rintro ⟨hpresent, habsent⟩
    refine ⟨?_, ?_, ?_⟩
    · intro path content hunder hmarkdown hcontent hsame
      have hafter := hpresent path content hunder hmarkdown hcontent
      rw [Indexes, hkept path content hcontent] at hafter
      · exact hafter
      · rintro ⟨hchanged, -⟩
        rw [hsame] at hchanged
        cases hchanged
    · intro path content hunder hmarkdown hcontent hnil
      have hafter := hpresent path content hunder hmarkdown hcontent
      rw [hnil, indexes_nil, hkept path content hcontent fun hneeds => hneeds.2 hnil] at hafter
      exact hafter
    · intro path hunder hnone
      rw [← hgone path hnone]
      exact habsent path hunder hnone
  · rintro ⟨hunchanged, hemptied, hdeleted⟩
    constructor
    · intro path content hunder hmarkdown hcontent
      by_cases hneeds : NeedsIndexing computeFileHash index path content
      · obtain ⟨dir, hdir, hin⟩ := hunder
        apply (hcaught dir hdir path (mem_collectMarkdownFiles.mpr ⟨_, hin, hmarkdown⟩) content
          hcontent hneeds).2
        rw [hcontent]
        rfl
      · rw [Indexes, hkept path content hcontent hneeds]
        by_cases hnil : chunkMarkdown content = []
        · rw [hnil]
          exact (hemptied path content hunder hmarkdown hcontent hnil) ▸ List.Perm.refl _
        · apply hunchanged path content hunder hmarkdown hcontent
          by_contra hchanged
          exact hneeds ⟨by simpa using hchanged, hnil⟩
    · intro path hunder hnone
      rw [hgone path hnone]
      exact hdeleted path hunder hnone

def oneVector (texts : List (List Char)) : Option (List Embedding) := some (texts.map fun _ => [])

def syncOn (disk : Dict String (List Char)) (index : MemoryIndex) :
    Option (SyncResult × MemoryIndex) :=
  (runOnce String.ofList ["/memory"]).alone (performFrom disk oneVector 0) index

def noteOnDisk (content : String) : Dict String (List Char) :=
  Dict.empty.set "/memory/note.md" content.toList

theorem sync_complete_example : ∃ result after,
    syncOn (noteOnDisk "text") {} = some (result, after) ∧
      (Complete (noteOnDisk "text") ["/memory"] after ↔
        NothingStale String.ofList (noteOnDisk "text") ["/memory"] {}) := by
  have hrun : (syncOn (noteOnDisk "text") {}).any (fun run => run.1.errors = 0) = true := by
    decide +kernel
  obtain ⟨⟨result, after⟩, hsome, herrors⟩ := (Option.any_eq_true _ _).mp hrun
  exact ⟨result, after, hsome,
    sync_complete_iff VectorStore.ready_empty hsome (of_decide_eq_true herrors)⟩

/-- The chunks of a file stay when it becomes empty. -/
theorem emptied_file_stays : ¬ ∀ (computeFileHash : List Char → String)
    (embed : List (List Char) → Option (List Embedding)) (now : Nat)
    (disk : Dict String (List Char)) (indexPaths : List String) (index after : MemoryIndex)
    (result : SyncResult), index.store.Ready →
    (runOnce computeFileHash indexPaths).alone (performFrom disk embed now) index =
      some (result, after) → result.errors = 0 → Complete disk indexPaths after := by
  intro hall
  have hrun : (syncOn (noteOnDisk "text") {}).any (fun first => first.1.errors = 0 &&
      (syncOn (noteOnDisk "") first.2).any fun second => second.1.errors = 0 &&
        second.2.indexedChunks "/memory/note.md" = [(0, "text")]) = true := by
    decide +kernel
  obtain ⟨⟨first, index⟩, hfirst, hrest⟩ := (Option.any_eq_true _ _).mp hrun
  rw [Bool.and_eq_true, decide_eq_true_eq] at hrest
  obtain ⟨⟨second, after⟩, hsecond, hlast⟩ := (Option.any_eq_true _ _).mp hrest.2
  rw [Bool.and_eq_true, decide_eq_true_eq, decide_eq_true_eq] at hlast
  have hstart : Syncing String.ofList (noteOnDisk "text") {} {} :=
    syncing_start VectorStore.ready_empty
  have hready : index.store.Ready := (hstart.dirs hfirst hrest.1).1.ready
  have hcomplete := hall String.ofList oneVector 0 (noteOnDisk "") ["/memory"] index after second
    hready hsecond hlast.1
  have hempty := hcomplete.present "/memory/note.md" [] ⟨"/memory", by decide, by decide +kernel⟩
    (by decide +kernel) (by decide +kernel)
  rw [Indexes, hlast.2] at hempty
  exact absurd hempty.symm.nil_eq (by decide +kernel)

end Aof
