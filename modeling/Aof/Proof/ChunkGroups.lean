import Aof.Lib.Packing
import Aof.Memory.Chunker

/-!
# The paragraphs of the chunks

The loop of the chunker packs the paragraphs into groups, where a heading opens a section.  So no
paragraph is lost, none is repeated but as an overlap, and no overlap crosses a heading.
-/

namespace Aof

namespace Chunker

def packing (opts : ChunkOptions) : Packing Paragraph where
  opens paragraph := paragraph.isHeading
  fits paragraphs :=
    !exceeds (opts.maxChunkSize.getD DEFAULT_MAX_CHUNK_SIZE) (chunkSize paragraphs)
  overlap := overlapLimit (opts.overlap.getD DEFAULT_OVERLAP)

structure Underway (chunks : List Chunk) (group : PackedGroup Paragraph) (state : ChunkState) :
    Prop where
  chunks : state.chunks = chunks
  current : state.current = group.items
  size : state.currentSize = chunkSize group.items

end Chunker

open Chunker

structure Chunk.Holds (chunk : Chunk) (paragraphs : List Paragraph) : Prop where
  content : chunk.content = joinParagraphs paragraphs
  starts : ∃ first ∈ paragraphs.head?, chunk.startLine = first.startLine ∧
    chunk.headings = first.headings
  ends : ∃ last ∈ paragraphs.getLast?, chunk.endLine = last.endLine

section Sizes

variable {paragraphs : List Paragraph} {paragraph : Paragraph}

@[simp]
theorem chunkSize_cons (paragraph : Paragraph) (paragraphs : List Paragraph) :
    chunkSize (paragraph :: paragraphs) =
      textLength paragraph.content + if paragraphs = [] then 0 else 2 + chunkSize paragraphs := by
  cases paragraphs with
  | nil => rfl
  | cons next rest =>
      rw [chunkSize, if_neg (List.cons_ne_nil _ _), Nat.add_assoc]
      exact List.cons_ne_nil next rest

theorem chunkSize_concat (paragraphs : List Paragraph) (paragraph : Paragraph) :
    chunkSize (paragraphs ++ [paragraph]) =
      chunkSize paragraphs + (if paragraphs = [] then 0 else 2) + textLength paragraph.content := by
  induction paragraphs with
  | nil => simp [chunkSize]
  | cons first rest ih =>
      rw [List.cons_append, chunkSize_cons, ih, chunkSize_cons, if_neg (by simp)]
      by_cases hrest : rest = []
      · simp [hrest, chunkSize]
        omega
      · simp only [hrest, List.cons_ne_nil, ↓reduceIte]
        omega

end Sizes

section Loop

variable {opts : ChunkOptions} {group : PackedGroup Paragraph} {chunks : List Chunk}
  {state : ChunkState}

theorem flush_current (hcurrent : state.current ≠ []) (overlapCount : JsNumber)
    (shouldOverlap : Bool) : flush overlapCount state shouldOverlap =
      { chunks := state.chunks ++ [buildChunk state.current]
        current := []
        currentSize := 0
        overlapBuffer := if shouldOverlap then overlapOf overlapCount state.current else [] } := by
  rw [flush, if_neg hcurrent]

/-- What the loop does with a paragraph once it knows the chunk that it goes to. -/
def append (state : ChunkState) (paragraph : Paragraph) : ChunkState :=
  { state with
    current := state.current ++ [paragraph]
    currentSize := state.currentSize + (if state.current = [] then 0 else 2) +
      textLength paragraph.content }

theorem underway_append {next : PackedGroup Paragraph} {paragraph : Paragraph}
    {kept : List Paragraph} (hchunks : state.chunks = chunks) (hcurrent : state.current = kept)
    (hsize : state.currentSize = chunkSize kept) (hnext : next.items = kept ++ [paragraph]) :
    Underway chunks next (append state paragraph) where
  chunks := hchunks
  current := by rw [append, hnext, hcurrent]
  size := by rw [append, hnext, chunkSize_concat, hcurrent, hsize]

theorem openChunk_heading {paragraph : Paragraph} (hcurrent : state.current ≠ [])
    (hheading : paragraph.isHeading = true) (overlapCount : JsNumber) :
    openChunk overlapCount state paragraph =
      { chunks := state.chunks ++ [buildChunk state.current]
        current := []
        currentSize := 0
        overlapBuffer := [] } := by
  simp only [openChunk, hheading, hcurrent, ne_eq, not_false_eq_true, and_self, ↓reduceIte,
    flush_current hcurrent]
  rfl

theorem openChunk_plain {paragraph : Paragraph} (hcurrent : state.current ≠ [])
    (hheading : paragraph.isHeading = false) (overlapCount : JsNumber) :
    openChunk overlapCount state paragraph = state := by
  simp only [openChunk, hheading, Bool.false_eq_true, false_and, ↓reduceIte, hcurrent]

/-- The chunk that a paragraph goes to: the overlap of a full one, or the current one. -/
def makeRoom (maxChunkSize overlapCount : JsNumber) (state : ChunkState) (paragraph : Paragraph) :
    ChunkState :=
  if exceeds maxChunkSize (state.currentSize + (if state.current = [] then 0 else 2) +
      textLength paragraph.content) ∧ state.current ≠ [] then
    seedFromOverlap (flush overlapCount state true)
  else state

theorem addParagraph_eq (maxChunkSize overlapCount : JsNumber) (state : ChunkState)
    (paragraph : Paragraph) :
    addParagraph maxChunkSize overlapCount state paragraph =
      append (makeRoom maxChunkSize overlapCount (openChunk overlapCount state paragraph)
        paragraph) paragraph := rfl

theorem makeRoom_empty (hcurrent : state.current = []) (maxChunkSize overlapCount : JsNumber)
    (paragraph : Paragraph) : makeRoom maxChunkSize overlapCount state paragraph = state := by
  rw [makeRoom, if_neg (fun h => h.2 hcurrent)]

theorem seedFromOverlap_flush (hcurrent : state.current ≠ []) (overlapCount : JsNumber) :
    (seedFromOverlap (flush overlapCount state true)).chunks =
        state.chunks ++ [buildChunk state.current] ∧
      (seedFromOverlap (flush overlapCount state true)).current =
        overlapOf overlapCount state.current ∧
      (seedFromOverlap (flush overlapCount state true)).currentSize =
        chunkSize (overlapOf overlapCount state.current) := by
  rw [flush_current hcurrent, if_pos rfl, seedFromOverlap]
  split
  · rename_i hnone
    obtain hnone : overlapOf overlapCount state.current = [] := hnone
    exact ⟨rfl, hnone.symm, by rw [hnone]; rfl⟩
  · exact ⟨rfl, rfl, rfl⟩

theorem underway_first (paragraph : Paragraph) :
    Underway [] ⟨[], [paragraph]⟩ (addParagraph (opts.maxChunkSize.getD DEFAULT_MAX_CHUNK_SIZE)
      (opts.overlap.getD DEFAULT_OVERLAP) {} paragraph) := by
  have hopen : openChunk (opts.overlap.getD DEFAULT_OVERLAP) {} paragraph = {} := by
    simp only [openChunk, ne_eq, not_true_eq_false, and_false, ↓reduceIte]
    rfl
  rw [addParagraph_eq, hopen, makeRoom_empty rfl]
  exact underway_append rfl rfl rfl rfl

theorem chunks_of_underway (hunderway : Underway chunks group state) (hown : group.own ≠ [])
    (rest : List Paragraph) : (flush (opts.overlap.getD DEFAULT_OVERLAP)
      (rest.foldl (addParagraph (opts.maxChunkSize.getD DEFAULT_MAX_CHUNK_SIZE)
        (opts.overlap.getD DEFAULT_OVERLAP)) state) false).chunks =
      chunks ++ ((packing opts).packFrom group rest).map fun packed => buildChunk packed.items := by
  have hitems : ∀ {group : PackedGroup Paragraph}, group.own ≠ [] → group.items ≠ [] :=
    fun hown => List.append_ne_nil_of_right_ne_nil _ hown
  induction rest generalizing group chunks state with
  | nil =>
      have hcurrent : state.current ≠ [] := hunderway.current ▸ hitems hown
      rw [List.foldl_nil, flush_current hcurrent, hunderway.chunks, hunderway.current]
      rfl
  | cons paragraph rest ih =>
      have hcurrent : state.current ≠ [] := hunderway.current ▸ hitems hown
      rw [List.foldl_cons, addParagraph_eq]
      cases hheading : paragraph.isHeading with
      | true =>
          have hnext : Underway (chunks ++ [buildChunk group.items]) ⟨[], [paragraph]⟩
              (append (makeRoom (opts.maxChunkSize.getD DEFAULT_MAX_CHUNK_SIZE)
                (opts.overlap.getD DEFAULT_OVERLAP)
                (openChunk (opts.overlap.getD DEFAULT_OVERLAP) state paragraph) paragraph)
                paragraph) := by
            rw [openChunk_heading hcurrent hheading, makeRoom_empty rfl]
            apply underway_append _ rfl rfl rfl
            rw [hunderway.chunks, hunderway.current]
          rw [ih hnext (List.cons_ne_nil _ _), Packing.packFrom_opens hheading, List.append_assoc]
          rfl
      | false =>
          have hsize : state.currentSize + (if state.current = [] then 0 else 2) +
              textLength paragraph.content = chunkSize (group.items ++ [paragraph]) := by
            rw [hunderway.size, hunderway.current, chunkSize_concat]
          rw [openChunk_plain hcurrent hheading, makeRoom, hsize]
          cases hfits : (packing opts).fits (group.items ++ [paragraph]) with
          | true =>
              have hroom : exceeds (opts.maxChunkSize.getD DEFAULT_MAX_CHUNK_SIZE)
                  (chunkSize (group.items ++ [paragraph])) = false := by
                simpa [packing] using hfits
              rw [hroom, if_neg (fun h => by cases h.1), Packing.packFrom_fits hheading hfits]
              apply ih _ (List.append_ne_nil_of_right_ne_nil _ (List.cons_ne_nil _ _))
              exact underway_append hunderway.chunks hunderway.current hunderway.size
                Packing.items_concat
          | false =>
              have hfull : exceeds (opts.maxChunkSize.getD DEFAULT_MAX_CHUNK_SIZE)
                  (chunkSize (group.items ++ [paragraph])) = true := by
                simpa [packing] using hfits
              obtain ⟨hchunks, hkept, hkeptSize⟩ :=
                seedFromOverlap_flush hcurrent (opts.overlap.getD DEFAULT_OVERLAP)
              rw [hunderway.current] at hkept hkeptSize
              rw [hunderway.chunks, hunderway.current] at hchunks
              rw [if_pos ⟨hfull, hcurrent⟩, Packing.packFrom_overflows hheading hfits, List.map_cons,
                List.append_cons]
              apply ih _ (List.cons_ne_nil _ _)
              exact underway_append hchunks hkept hkeptSize rfl

theorem chunkMarkdown_eq (content : List Char) (opts : ChunkOptions) : chunkMarkdown content opts =
      ((packing opts).pack (parseParagraphs content)).map fun group => buildChunk group.items := by
  rw [chunkMarkdown, chunkParagraphs]
  cases parseParagraphs content with
  | nil => rfl
  | cons paragraph rest =>
      rw [List.foldl_cons, chunks_of_underway (underway_first paragraph) (List.cons_ne_nil _ _),
        List.nil_append, Packing.pack]

end Loop

theorem holds_buildChunk {paragraphs : List Paragraph} (hne : paragraphs ≠ []) :
    (buildChunk paragraphs).Holds paragraphs where
  content := rfl
  starts := by
    obtain ⟨first, rest, rfl⟩ := List.exists_cons_of_ne_nil hne
    exact ⟨first, rfl, rfl, rfl⟩
  ends := by
    have hlast := List.getLast?_eq_some_getLast hne
    exact ⟨_, hlast, by simp [buildChunk, hlast]⟩

theorem forall₂_chunkMarkdown {content : List Char} {opts : ChunkOptions}
    {property : Chunk → PackedGroup Paragraph → Prop}
    (hproperty : ∀ group ∈ (packing opts).pack (parseParagraphs content),
      property (buildChunk group.items) group) : List.Forall₂ property (chunkMarkdown content opts)
      ((packing opts).pack (parseParagraphs content)) := by
  rw [chunkMarkdown_eq, List.forall₂_map_left_iff, List.forall₂_same]
  exact hproperty

theorem holds_of_mem_pack {paragraphs : List Paragraph} {opts : ChunkOptions}
    {group : PackedGroup Paragraph} (hgroup : group ∈ (packing opts).pack paragraphs) :
    (buildChunk group.items).Holds group.items := by
  apply holds_buildChunk
  apply List.append_ne_nil_of_right_ne_nil
  exact ((packing opts).packed_pack paragraphs).nonempty group hgroup

/-- The chunks are made of groups of paragraphs.  Without what each repeats of the one before, the
groups are the paragraphs in their order, and a heading only comes first in a group. -/
theorem chunks_hold_paragraphs (content : List Char) (opts : ChunkOptions) :
    ∃ groups, (packing opts).Packed (parseParagraphs content) groups ∧
      List.Forall₂ (fun chunk group => chunk.Holds (PackedGroup.items group))
        (chunkMarkdown content opts) groups :=
  ⟨_, (packing opts).packed_pack _, forall₂_chunkMarkdown fun _ => holds_of_mem_pack⟩

end Aof
