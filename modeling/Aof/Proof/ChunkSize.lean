import Aof.Proof.ChunkGroups

/-!
# The size of the chunks

A paragraph that does not fit goes behind the overlap of the closed chunk without another look at
the size.  So the bound holds exactly when every paragraph fits behind what may be repeated before
it.
-/

namespace Aof

open Chunker

/-- A chunk is within the bound, or is one paragraph that alone is not. -/
def Chunk.Bounded (content : List Char) (opts : ChunkOptions) (chunk : Chunk) : Prop :=
  let tooLong := exceeds (opts.maxChunkSize.getD DEFAULT_MAX_CHUNK_SIZE)
  tooLong (textLength chunk.content) = false ∨
    ∃ paragraph ∈ parseParagraphs content, chunk = buildChunk [paragraph] ∧
      tooLong (textLength paragraph.content) = true

instance (content : List Char) (opts : ChunkOptions) (chunk : Chunk) :
    Decidable (chunk.Bounded content opts) :=
  inferInstanceAs (Decidable (_ ∨ ∃ paragraph ∈ parseParagraphs content, _ ∧ _))

structure LinesOrdered (paragraphs : List Paragraph) : Prop where
  each : ∀ paragraph ∈ paragraphs, paragraph.startLine ≤ paragraph.endLine
  apart : paragraphs.Pairwise fun earlier later => earlier.endLine < later.startLine

structure LinesBefore (lineNumber : Nat) (state : ParagraphState) : Prop where
  ordered : LinesOrdered state.paragraphs
  behind : ∀ paragraph ∈ state.paragraphs, paragraph.endLine <
    if state.buffer = [] then lineNumber else state.paragraphStart
  buffered : state.buffer ≠ [] → state.paragraphStart ≤ state.paragraphEnd ∧
    state.paragraphEnd < lineNumber

variable {paragraphs short long : List Paragraph} {paragraph : Paragraph}

theorem LinesOrdered.concat (hordered : LinesOrdered paragraphs)
    (hlines : paragraph.startLine ≤ paragraph.endLine)
    (hbehind : ∀ other ∈ paragraphs, other.endLine < paragraph.startLine) :
    LinesOrdered (paragraphs ++ [paragraph]) where
  each := by
    intro other hother
    rcases List.mem_append.mp hother with hother | hother
    · exact hordered.each other hother
    · rwa [List.mem_singleton.mp hother]
  apart := by
    apply List.pairwise_append.mpr ⟨hordered.apart, List.pairwise_singleton _ _, _⟩
    intro other hother last hlast
    rw [List.mem_singleton.mp hlast]
    exact hbehind other hother

section Lines

variable {state : ParagraphState} {lineNumber : Nat}

variable (hstate : LinesBefore lineNumber state)
include hstate

theorem LinesBefore.finalize :
    LinesBefore lineNumber (finalizeParagraph state) ∧ (finalizeParagraph state).buffer = [] := by
  unfold finalizeParagraph
  split
  · rename_i hnone
    exact ⟨hstate, hnone⟩
  · rename_i hsome
    obtain ⟨hlines, hend⟩ := hstate.buffered hsome
    have hbehind := hstate.behind
    simp only [if_neg hsome] at hbehind
    refine ⟨⟨hstate.ordered.concat hlines hbehind, ?_, fun h => absurd rfl h⟩, rfl⟩
    intro paragraph hparagraph
    rw [if_pos rfl]
    rcases List.mem_append.mp hparagraph with hparagraph | hparagraph
    · have hlt := hbehind paragraph hparagraph
      omega
    · rw [List.mem_singleton.mp hparagraph]
      exact hend

theorem LinesBefore.next (hbuffer : state.buffer = []) :
    LinesBefore (lineNumber + 1) state where
  ordered := hstate.ordered
  behind := by
    intro paragraph hparagraph
    have hlt := hstate.behind paragraph hparagraph
    rw [if_pos hbuffer] at hlt ⊢
    omega
  buffered hsome := absurd hbuffer hsome

theorem LinesBefore.parseLine (line : List Char) :
    LinesBefore (lineNumber + 1) (Chunker.parseLine state line lineNumber) := by
  obtain ⟨hfinal, hbuffer⟩ := hstate.finalize
  unfold Chunker.parseLine
  split
  · have hbehind := hfinal.behind
    simp only [if_pos hbuffer] at hbehind
    refine ⟨hfinal.ordered.concat (le_refl _) hbehind, ?_, fun h => absurd hbuffer h⟩
    intro paragraph hparagraph
    rw [if_pos hbuffer]
    rcases List.mem_append.mp hparagraph with hparagraph | hparagraph
    · have hlt := hbehind paragraph hparagraph
      omega
    · rw [List.mem_singleton.mp hparagraph]
      exact Nat.lt_succ_self lineNumber
  · split
    · exact hfinal.next hbuffer
    · refine ⟨hstate.ordered, ?_, ?_⟩
      · intro paragraph hparagraph
        have hlt := hstate.behind paragraph hparagraph
        rw [if_neg (by simp)]
        exact hlt
      · intro _
        by_cases hnone : state.buffer = []
        · rw [if_pos hnone]
          exact ⟨le_refl lineNumber, Nat.lt_succ_self lineNumber⟩
        · obtain ⟨hlines, hend⟩ := hstate.buffered hnone
          rw [if_neg hnone]
          exact ⟨hlines.trans hend.le, Nat.lt_succ_self lineNumber⟩

theorem LinesBefore.parseLines (lines : List (List Char)) :
    ∃ finish, LinesBefore finish (Chunker.parseLines state lines lineNumber) := by
  induction lines generalizing state lineNumber with
  | nil => exact ⟨lineNumber, hstate⟩
  | cons line lines ih => exact ih (hstate.parseLine line)

end Lines

theorem linesOrdered_parseParagraphs (content : List Char) :
    LinesOrdered (parseParagraphs content) := by
  have hinitial : LinesBefore 1 {} := ⟨⟨by simp, .nil⟩, by simp, by simp⟩
  obtain ⟨finish, hfinish⟩ := hinitial.parseLines (splitLines content)
  exact hfinish.finalize.1.ordered

theorem LinesOrdered.eq_of_startLine (hordered : LinesOrdered paragraphs) {one other : Paragraph}
    (hone : one ∈ paragraphs) (hother : other ∈ paragraphs)
    (hstart : one.startLine = other.startLine) : one = other := by
  obtain ⟨i, hi, rfl⟩ := List.getElem_of_mem hone
  obtain ⟨j, hj, rfl⟩ := List.getElem_of_mem hother
  have hapart := List.pairwise_iff_getElem.mp hordered.apart
  have hi' := hordered.each _ hone
  have hj' := hordered.each _ hother
  rcases Nat.lt_trichotomy i j with hlt | rfl | hlt
  · have hbehind := hapart i j hi hj hlt
    omega
  · rfl
  · have hbehind := hapart j i hj hi hlt
    omega

theorem LinesOrdered.not_single {items : List Paragraph} (hordered : LinesOrdered paragraphs)
    (hitems : items <:+: paragraphs) (htwo : 2 ≤ items.length)
    (hparagraph : paragraph ∈ paragraphs) : buildChunk items ≠ buildChunk [paragraph] := by
  obtain ⟨first, middle, last, rfl⟩ := Packing.exists_ends htwo
  intro hsame
  have hfirst : first ∈ paragraphs := hitems.subset (by simp)
  have hlast : last ∈ paragraphs := hitems.subset (by simp)
  have hstart : first.startLine = paragraph.startLine := congrArg Chunk.startLine hsame
  have hend : last.endLine = paragraph.endLine := by
    have hends := congrArg Chunk.endLine hsame
    rwa [buildChunk, List.getLast?_concat] at hends
  obtain rfl := hordered.eq_of_startLine hfirst hparagraph hstart
  have hbehind : first.endLine < last.startLine := by
    have hpairs := hordered.apart.sublist hitems.sublist
    rw [List.cons_append] at hpairs
    exact List.rel_of_pairwise_cons hpairs (by simp)
  have hlines := hordered.each last hlast
  omega

theorem textLength_append (front back : List Char) :
    textLength (front ++ back) = textLength front + textLength back := by
  rw [textLength, List.map_append, List.sum_append]
  rfl

theorem textLength_joinParagraphs (paragraphs : List Paragraph) :
    textLength (joinParagraphs paragraphs) = chunkSize paragraphs := by
  induction paragraphs with
  | nil => rfl
  | cons paragraph rest ih =>
      cases rest with
      | nil => simp [joinParagraphs, chunkSize, List.intercalate]
      | cons next rest =>
          have hjoin : joinParagraphs (paragraph :: next :: rest) =
              paragraph.content ++ (['\n', '\n'] ++ joinParagraphs (next :: rest)) := by
            simp [joinParagraphs, List.intercalate]
          rw [hjoin, textLength_append, textLength_append, ih, chunkSize_cons paragraph,
            if_neg (List.cons_ne_nil next rest)]
          rfl

theorem chunkSize_append_le (front back : List Paragraph) :
    chunkSize front ≤ chunkSize (front ++ back) ∧ chunkSize back ≤ chunkSize (front ++ back) := by
  induction front with
  | nil => simp [chunkSize]
  | cons paragraph front ih =>
      rw [List.cons_append, chunkSize_cons, chunkSize_cons]
      by_cases hfront : front = []
      · by_cases hback : back = []
        · simp [hfront, hback, chunkSize]
        · simp [hfront, hback]
          omega
      · simp only [hfront, List.append_eq_nil_iff, false_and, ↓reduceIte]
        omega

theorem chunkSize_le_of_within (hwithin : short <:+: long) : chunkSize short ≤ chunkSize long := by
  obtain ⟨before, after, rfl⟩ := hwithin
  exact (chunkSize_append_le before short).2.trans (chunkSize_append_le (before ++ short) after).1

theorem exceeds_mono {maxChunkSize : JsNumber} {small large : Nat} (hle : small ≤ large)
    (hsmall : exceeds maxChunkSize small = true) : exceeds maxChunkSize large = true := by
  cases maxChunkSize with
  | finite value =>
      have hlt : value < (small : Rat) := of_decide_eq_true hsmall
      apply decide_eq_true
      exact hlt.trans_le (by exact_mod_cast hle)
  | posInf => cases hsmall
  | negInf => rfl
  | nan => cases hsmall

theorem fits_iff (opts : ChunkOptions) (paragraphs : List Paragraph) :
    (packing opts).fits paragraphs = true ↔
      exceeds (opts.maxChunkSize.getD DEFAULT_MAX_CHUNK_SIZE) (chunkSize paragraphs) = false := by
  simp [packing]

theorem packing_fits_of_within (opts : ChunkOptions) (hwithin : short <:+: long)
    (hlong : (packing opts).fits long = true) : (packing opts).fits short = true := by
  rw [fits_iff, ← Bool.not_eq_true] at hlong ⊢
  exact fun hshort => hlong (exceeds_mono (chunkSize_le_of_within hwithin) hshort)

theorem bounded_buildChunk_iff {content : List Char} {opts : ChunkOptions}
    {group : PackedGroup Paragraph}
    (hgroup : group ∈ (packing opts).pack (parseParagraphs content)) :
    (buildChunk group.items).Bounded content opts ↔ (packing opts).Bounded group := by
  have hpacked := (packing opts).packed_pack (parseParagraphs content)
  have hitems := Packing.consecutive_of_mem_pack hgroup
  have hsize : textLength (buildChunk group.items).content = chunkSize group.items :=
    textLength_joinParagraphs group.items
  rw [Chunk.Bounded, Packing.Bounded, hsize, fits_iff]
  constructor
  · rintro (hfit | ⟨paragraph, hparagraph, hsame, -⟩)
    · exact .inl hfit
    · apply Or.inr
      have hpos : 0 < group.items.length := by
        apply List.length_pos_iff.mpr
        exact List.append_ne_nil_of_right_ne_nil _ (hpacked.nonempty group hgroup)
      by_contra hone
      have htwo : 2 ≤ group.items.length := by omega
      exact (linesOrdered_parseParagraphs content).not_single hitems htwo hparagraph hsame
  · intro hbounded
    cases hlarge : exceeds (opts.maxChunkSize.getD DEFAULT_MAX_CHUNK_SIZE)
        (chunkSize group.items) with
    | false => exact .inl rfl
    | true =>
        have hone : group.items.length = 1 := by simpa [hlarge] using hbounded
        obtain ⟨paragraph, hparagraph⟩ := List.length_eq_one_iff.mp hone
        rw [hparagraph] at hitems hlarge ⊢
        exact .inr ⟨paragraph, hitems.subset (List.mem_singleton_self _), rfl, hlarge⟩

/-- A chunk of several paragraphs besides its overlap is within the bound.  All the others are,
or are one long paragraph, exactly if every paragraph that may follow an overlap fits behind it. -/
theorem chunks_bounded (content : List Char) (opts : ChunkOptions) :
    (∃ groups, (packing opts).Packed (parseParagraphs content) groups ∧
      List.Forall₂ (fun chunk group => chunk.Holds (PackedGroup.items group) ∧
        (exceeds (opts.maxChunkSize.getD DEFAULT_MAX_CHUNK_SIZE) (textLength chunk.content) = false ∨
          group.own.length = 1)) (chunkMarkdown content opts) groups) ∧
    ((∀ chunk ∈ chunkMarkdown content opts, chunk.Bounded content opts) ↔
      ∀ run, (packing opts).Window (parseParagraphs content) run →
        exceeds (opts.maxChunkSize.getD DEFAULT_MAX_CHUNK_SIZE) (chunkSize run) = false) := by
  constructor
  · refine ⟨_, (packing opts).packed_pack _, forall₂_chunkMarkdown ?_⟩
    intro group hgroup
    refine ⟨holds_of_mem_pack hgroup, (Packing.fits_or_single_of_mem_pack hgroup).imp_left ?_⟩
    rw [fits_iff, buildChunk, textLength_joinParagraphs]
    exact id
  · have hiff := Packing.bounded_pack_iff (packing_fits_of_within opts) (parseParagraphs content)
    simp only [fits_iff] at hiff
    rw [← hiff, chunkMarkdown_eq, List.forall_mem_map]
    exact forall₂_congr fun group hgroup => bounded_buildChunk_iff hgroup

/-- With a bound of ten characters, a paragraph of six follows another that is repeated. -/
theorem overlap_beyond_bound :
    ¬ ∀ (content : List Char) (opts : ChunkOptions), ∀ chunk ∈ chunkMarkdown content opts,
      chunk.Bounded content opts := by
  intro hclaim
  have hbounded := hclaim "first.\n\nsecond".toList { maxChunkSize := some (.finite 10) }
  revert hbounded
  decide +kernel

end Aof
