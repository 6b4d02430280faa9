import Mathlib.Algebra.GroupWithZero.Nat
import Aof.Lib.JsValue

/-!
# The chunker

Markdown is cut into paragraphs and headings, and these are packed into chunks of a bounded size; a
chunk that is closed for its size hands its last paragraphs on to the next
(`memory/chunking/chunker.ts`).
-/

namespace Aof

structure Chunk where
  content : List Char
  startLine : Nat
  endLine : Nat
  headings : List (List Char)
  deriving DecidableEq

structure ChunkOptions where
  maxChunkSize : Option JsNumber := none
  overlap : Option JsNumber := none

structure Paragraph where
  content : List Char
  startLine : Nat
  endLine : Nat
  headings : List (List Char)
  isHeading : Bool
  deriving DecidableEq

def DEFAULT_MAX_CHUNK_SIZE : JsNumber := .finite 2048

def DEFAULT_OVERLAP : JsNumber := .finite 1

namespace Chunker

/-- `content.split(/\r?\n/)` -/
def splitLines : List Char → List (List Char)
  | [] => [[]]
  | '\r' :: '\n' :: cs => [] :: splitLines cs
  | '\n' :: cs => [] :: splitLines cs
  | c :: cs =>
      match splitLines cs with
      | line :: lines => (c :: line) :: lines
      | [] => [[c]]

/-- The characters that `.` does not match. -/
def isLineTerminator (c : Char) : Bool := c.toNat ∈ [0x0A, 0x0D, 0x2028, 0x2029]

/-- What `\s+(.*)$` matches: the text behind a run of whitespace that is not empty. -/
def headingText (cs : List Char) : Option (List Char) :=
  let text := cs.dropWhile JsString.isWhitespace
  if (cs.head?.any JsString.isWhitespace) ∧ text.all (fun c => !isLineTerminator c) then some text
  else none

/-- `line.match(headingRegex)` with the length of the first group and the second group. -/
def matchHeading : List Char → Option (Nat × List Char)
  | '#' :: '#' :: '#' :: cs => (headingText cs).map fun text => (3, text)
  | '#' :: '#' :: cs => (headingText cs).map fun text => (2, text)
  | _ => none

/-- `line.trim() === ""` -/
def isBlank (line : List Char) : Bool := line.all JsString.isWhitespace

def updateHeadings (current : List (List Char)) (level : Nat) (text : List Char) :
    List (List Char) :=
  if level = 2 then [text]
  else
    match current with
    | [] => [text]
    | first :: _ => [first, text]

structure ParagraphState where
  paragraphs : List Paragraph := []
  buffer : List (List Char) := []
  currentHeadings : List (List Char) := []
  paragraphStart : Nat := 1
  paragraphEnd : Nat := 1

def joinLines (lines : List (List Char)) : List Char := ['\n'].intercalate lines

def finalizeParagraph (state : ParagraphState) : ParagraphState :=
  if state.buffer = [] then state
  else { state with
    paragraphs := state.paragraphs ++
      [{ content := joinLines state.buffer
         startLine := state.paragraphStart
         endLine := state.paragraphEnd
         headings := state.currentHeadings
         isHeading := false }]
    buffer := [] }

def parseLine (state : ParagraphState) (line : List Char) (lineNumber : Nat) : ParagraphState :=
  match matchHeading line with
  | some (level, text) =>
      let state := finalizeParagraph state
      let currentHeadings := updateHeadings state.currentHeadings level (JsString.trim text)
      { state with
        currentHeadings := currentHeadings
        paragraphs := state.paragraphs ++
          [{ content := line
             startLine := lineNumber
             endLine := lineNumber
             headings := currentHeadings
             isHeading := true }] }
  | none =>
      if isBlank line then finalizeParagraph state
      else
        { state with
          paragraphStart := if state.buffer = [] then lineNumber else state.paragraphStart
          buffer := state.buffer ++ [line]
          paragraphEnd := lineNumber }

def parseLines : ParagraphState → List (List Char) → Nat → ParagraphState
  | state, [], _ => state
  | state, line :: lines, lineNumber =>
      parseLines (parseLine state line lineNumber) lines (lineNumber + 1)

def parseParagraphs (content : List Char) : List Paragraph :=
  (finalizeParagraph (parseLines {} (splitLines content) 1)).paragraphs

/-- `text.length`, in code units. -/
def textLength (text : List Char) : Nat :=
  (text.map fun c => if c.toNat < 0x10000 then 1 else 2).sum

/-- The lengths of the paragraphs with two characters in between. -/
def chunkSize : List Paragraph → Nat
  | [] => 0
  | [paragraph] => textLength paragraph.content
  | paragraph :: rest => textLength paragraph.content + 2 + chunkSize rest

def joinParagraphs (paragraphs : List Paragraph) : List Char :=
  ['\n', '\n'].intercalate (paragraphs.map Paragraph.content)

def buildChunk (paragraphs : List Paragraph) : Chunk where
  content := joinParagraphs paragraphs
  startLine := (paragraphs.head?.map Paragraph.startLine).getD 0
  endLine := (paragraphs.getLast?.map Paragraph.endLine).getD 0
  headings := (paragraphs.head?.map Paragraph.headings).getD []

structure ChunkState where
  chunks : List Chunk := []
  current : List Paragraph := []
  currentSize : Nat := 0
  overlapBuffer : List Paragraph := []

def exceeds (maxChunkSize : JsNumber) (size : Nat) : Bool := maxChunkSize.less (.finite size)

/-- How many paragraphs `slice(-overlapCount)` keeps, at most, for a positive count: the count is
truncated to an integer first, and `slice(-0)` keeps them all. -/
def sliceCount : JsNumber → Option Nat
  | .finite count => if count.floor.toNat = 0 then none else some count.floor.toNat
  | _ => none

def overlapLimit (overlapCount : JsNumber) : Option Nat :=
  if JsNumber.less (.finite 0) overlapCount then sliceCount overlapCount else some 0

def overlapOf (overlapCount : JsNumber) (paragraphs : List Paragraph) : List Paragraph :=
  match overlapLimit overlapCount with
  | some limit => paragraphs.drop (paragraphs.length - limit)
  | none => paragraphs

def flush (overlapCount : JsNumber) (state : ChunkState) (shouldOverlap : Bool) : ChunkState :=
  if state.current = [] then state
  else
    { chunks := state.chunks ++ [buildChunk state.current]
      current := []
      currentSize := 0
      overlapBuffer := if shouldOverlap then overlapOf overlapCount state.current else [] }

def seedFromOverlap (state : ChunkState) : ChunkState :=
  if state.overlapBuffer = [] then state
  else
    { state with
      current := state.overlapBuffer
      currentSize := chunkSize state.overlapBuffer }

/-- A heading starts a chunk of its own, without an overlap. -/
def openChunk (overlapCount : JsNumber) (state : ChunkState) (paragraph : Paragraph) : ChunkState :=
  let state :=
    if paragraph.isHeading ∧ state.current ≠ [] then
      { flush overlapCount state false with overlapBuffer := [] }
    else state
  if state.current = [] then seedFromOverlap state else state

def addParagraph (maxChunkSize overlapCount : JsNumber) (state : ChunkState)
    (paragraph : Paragraph) : ChunkState :=
  let state := openChunk overlapCount state paragraph
  let separator := if state.current = [] then 0 else 2
  let nextSize := state.currentSize + separator + textLength paragraph.content
  let state :=
    if exceeds maxChunkSize nextSize ∧ state.current ≠ [] then
      seedFromOverlap (flush overlapCount state true)
    else state
  let separator := if state.current = [] then 0 else 2
  { state with
    current := state.current ++ [paragraph]
    currentSize := state.currentSize + separator + textLength paragraph.content }

def chunkParagraphs (maxChunkSize overlapCount : JsNumber) (paragraphs : List Paragraph) :
    List Chunk :=
  (flush overlapCount (paragraphs.foldl (addParagraph maxChunkSize overlapCount) {}) false).chunks

end Chunker

def chunkMarkdown (content : List Char) (opts : ChunkOptions := {}) : List Chunk :=
  Chunker.chunkParagraphs (opts.maxChunkSize.getD DEFAULT_MAX_CHUNK_SIZE)
    (opts.overlap.getD DEFAULT_OVERLAP) (Chunker.parseParagraphs content)

end Aof
