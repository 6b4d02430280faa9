import Aof.Memory.VectorStore

/-!
# Hybrid search

The hits of the vector index and of the full-text index are combined into one ranking
(`memory/store/hybrid-search.ts`, `memory/store/fts-store.ts`).  What the two indexes and the table
of chunks answer is given; a field that is null is absent.
-/

/-!
## Metadata of memory files

Two readers of the same data: the tools take it from the parameters of the call and the frontmatter
that gray-matter has parsed (`memory/tools/metadata.ts`), the synchronisation looks for it in the
text of the frontmatter (`memory/tools/indexing.ts`).
-/

namespace Aof

abbrev Frontmatter := Dict String JsValue

/-- gray-matter: the data and the content of a text, and the text of a content under a frontmatter.
Both may throw. -/
structure GrayMatter where
  parse : List Char → Option (Frontmatter × List Char)
  stringify : List Char → Frontmatter → Option (List Char)

structure MemoryIndexMetadata where
  pool : Option String := none
  tier : Option String := none
  tags : Option (List String) := none
  importance : Option JsNumber := none

structure MemoryParams where
  content : JsValue := .undefined
  path : JsValue := .undefined
  pool : JsValue := .undefined
  tier : JsValue := .undefined
  tags : JsValue := .undefined
  importance : JsValue := .undefined

namespace Metadata

def trimText (text : String) : String := String.ofList (JsString.trim text.toList)

def normalizeString : JsValue → Option String
  | .str value => if trimText value = "" then none else some (trimText value)
  | _ => none

def normalizeContent : JsValue → Option (List Char)
  | .str value => some value.toList
  | _ => none

def normalizeTags : JsValue → Option (List String)
  | .arr items =>
      let tags := items.filterMap normalizeString
      if tags = [] then none else some tags
  | .str value => (normalizeString (.str value)).map fun tag => [tag]
  | _ => none

def normalizeNumber : JsValue → Option JsNumber
  | .num (.finite value) => some (.finite value)
  | _ => none

/-- `frontmatter[key]` -/
def field (frontmatter : Frontmatter) (key : String) : JsValue :=
  (frontmatter.get? key).getD .undefined

def resolveMetadata (params : MemoryParams) (frontmatter : Frontmatter)
    (defaultTier defaultPool : Option String) : MemoryIndexMetadata where
  tier := ((normalizeString params.tier).or (normalizeString (field frontmatter "tier"))).or
    defaultTier
  pool := ((normalizeString params.pool).or (normalizeString (field frontmatter "pool"))).or
    defaultPool
  tags := (normalizeTags params.tags).or (normalizeTags (field frontmatter "tags"))
  importance := (normalizeNumber params.importance).or
    (normalizeNumber (field frontmatter "importance"))

/-- `if (value) merged[key] = value` for a string, which is not empty then. -/
def setString (frontmatter : Frontmatter) (key : String) (value : Option String) : Frontmatter :=
  match value.filter (· ≠ "") with
  | some value => frontmatter.set key (.str value)
  | none => frontmatter

def mergeFrontmatter (frontmatter : Frontmatter) (metadata : MemoryIndexMetadata) : Frontmatter :=
  let merged := setString (setString frontmatter "tier" metadata.tier) "pool" metadata.pool
  let merged :=
    match metadata.tags with
    | some tags => merged.set "tags" (.arr (tags.map JsValue.str))
    | none => merged
  match metadata.importance with
  | some importance => merged.set "importance" (.num importance)
  | none => merged

def buildOutputContent (matter : GrayMatter) (bodyContent : List Char) (frontmatter : Frontmatter)
    (metadata : MemoryIndexMetadata) : Option (List Char) :=
  matter.stringify bodyContent (mergeFrontmatter frontmatter metadata)

def textBefore (needle : List Char) : List Char → Option (List Char)
  | [] => if needle = [] then some [] else none
  | c :: cs =>
      if needle.isPrefixOf (c :: cs) then some []
      else (textBefore needle cs).map (c :: ·)

/-- `\s*\n([\s\S]*?)\n---`: of the newlines in the whitespace at the front the last that leaves a
closing fence. -/
def fencedText : List Char → Option (List Char)
  | [] => none
  | c :: cs =>
      if JsString.isWhitespace c then
        match fencedText cs with
        | some text => some text
        | none => if c = '\n' then textBefore "\n---".toList cs else none
      else none

/-- The first group of `^---\s*\n([\s\S]*?)\n---`, matched at the start of the content. -/
def frontmatterText : List Char → Option (List Char)
  | '-' :: '-' :: '-' :: cs => fencedText cs
  | _ => none

def isTerminator (c : Char) : Bool := c.toNat ∈ [0x0A, 0x0D, 0x2028, 0x2029]

/-- `\s*(.+)$`: the rest of the line behind the whitespace, or the last of the whitespace that is in
a line if nothing else is left. -/
def fieldValue (cs : List Char) : Option (List Char) :=
  match cs.dropWhile JsString.isWhitespace with
  | [] => ((cs.filter fun c => !isTerminator c).getLast?).map fun c => [c]
  | rest => some (rest.takeWhile fun c => !isTerminator c)

/-- `fm.match(new RegExp("^" + key + ":\\s*(.+)$", "m"))`, where the flag says whether a line
starts here. -/
def findField (key : List Char) : Bool → List Char → Option (List Char)
  | _, [] => none
  | lineStart, c :: cs =>
      let here :=
        if lineStart ∧ (key ++ [':']).isPrefixOf (c :: cs) then
          fieldValue ((c :: cs).drop (key.length + 1))
        else none
      here.or (findField key (isTerminator c) cs)

def getField (fm : List Char) (key : String) : Option String :=
  (findField key.toList true fm).map fun value => String.ofList (JsString.trim value)

def extractFrontmatterMetadata (content : List Char) : MemoryIndexMetadata :=
  match frontmatterText content with
  | none => {}
  | some fm =>
      { tier := getField fm "tier"
        pool := getField fm "pool"
        importance := (getField fm "importance").map JsString.toNumber }

end Metadata

end Aof

namespace Aof

structure VectorChunkRecord where
  id : Nat
  filePath : String
  chunkIndex : Nat
  content : String
  tier : Option String := none
  pool : Option String := none
  importance : Option JsNumber := none
  tags : Option (List String) := none
  deriving DecidableEq

structure VectorSearchResult extends VectorChunkRecord where
  distance : JsNumber
  deriving DecidableEq

structure FtsSearchResult where
  chunkId : Nat
  content : String
  filePath : String
  tags : Option (List String) := none
  bm25 : JsNumber
  deriving DecidableEq

structure HybridSearchConfig where
  vectorWeight : Option JsNumber := none
  bm25Weight : Option JsNumber := none
  tierBoosts : Option (Dict String JsNumber) := none
  vectorLimitMultiplier : Option JsNumber := none
  bm25LimitMultiplier : Option JsNumber := none

structure HybridSearchQuery where
  query : String
  embedding : List JsNumber
  limit : JsNumber

structure HybridSearchResult where
  chunkId : Nat
  filePath : String
  chunkIndex : Option Nat
  content : String
  tier : Option String
  pool : Option String
  importance : Option JsNumber
  tags : Option (List String)
  score : JsNumber
  vectorScore : JsNumber
  bm25Score : JsNumber
  distance : Option JsNumber
  bm25 : Option JsNumber
  deriving DecidableEq

structure CombinedEntry where
  chunkId : Nat
  filePath : Option String
  chunkIndex : Option Nat
  content : Option String
  tier : Option String
  pool : Option String
  importance : Option JsNumber
  tags : Option (List String)
  vectorScore : JsNumber
  bm25Score : JsNumber
  distance : Option JsNumber := none
  bm25 : Option JsNumber := none

structure SearchStores where
  vectorSearch : List JsNumber → JsNumber → List VectorSearchResult
  ftsSearch : String → JsNumber → List FtsSearchResult
  getChunk : Nat → Option VectorChunkRecord

namespace HybridSearch

def DEFAULT_TIER_BOOSTS : Dict String JsNumber :=
  ((Dict.empty.set "hot" (.ofRat 1)).set "warm" (.ofRat (8 / 10))).set "cold" (.ofRat (5 / 10))

structure Weights where
  vector : JsNumber
  bm25 : JsNumber

def DEFAULT_WEIGHTS : Weights := ⟨.ofRat (7 / 10), .ofRat (3 / 10)⟩

def normalizeWeights (vectorWeight bm25Weight : Option JsNumber) : Weights :=
  let vector := vectorWeight.getD DEFAULT_WEIGHTS.vector
  let bm25 := bm25Weight.getD DEFAULT_WEIGHTS.bm25
  let sum := vector.add bm25
  if !sum.isFinite || sum.lessEq (.finite 0) then DEFAULT_WEIGHTS
  else ⟨vector.div sum, bm25.div sum⟩

def resolveLimit (limit : JsNumber) (multiplier : Option JsNumber) : JsNumber :=
  let factor := multiplier.getD (.finite 2)
  if !factor.isFinite || factor.lessEq (.finite 1) then limit
  else limit.max (limit.mul factor).ceil

def scoreVector (distance : JsNumber) : JsNumber :=
  (JsNumber.finite 1).div (.add (.finite 1) (.max (.finite 0) distance))

def scoreBm25 (bm25 : JsNumber) : JsNumber :=
  (JsNumber.finite 1).div (.add (.finite 1) (.max (.finite 0) bm25))

abbrev Combined := Dict Nat CombinedEntry

def addVectorResult (combined : Combined) (result : VectorSearchResult) : Combined :=
  combined.set result.id
    { chunkId := result.id
      filePath := some result.filePath
      chunkIndex := some result.chunkIndex
      content := some result.content
      tier := result.tier
      pool := result.pool
      importance := result.importance
      tags := result.tags
      vectorScore := scoreVector result.distance
      bm25Score := .finite 0
      distance := some result.distance }

def addFtsResult (combined : Combined) (result : FtsSearchResult) : Combined :=
  match combined.get? result.chunkId with
  | some existing =>
      combined.set result.chunkId { existing with
        bm25Score := scoreBm25 result.bm25
        bm25 := some result.bm25
        filePath := existing.filePath <|> some result.filePath
        content := existing.content <|> some result.content
        tags := existing.tags <|> result.tags }
  | none =>
      combined.set result.chunkId
        { chunkId := result.chunkId
          filePath := some result.filePath
          chunkIndex := none
          content := some result.content
          tier := none
          pool := none
          importance := none
          tags := result.tags
          vectorScore := .finite 0
          bm25Score := scoreBm25 result.bm25
          bm25 := some result.bm25 }

/-- What an entry lacks is taken from the table, unless it has an index and a tier. -/
def hydrate (getChunk : Nat → Option VectorChunkRecord) (entry : CombinedEntry) : CombinedEntry :=
  if entry.chunkIndex.isSome ∧ entry.tier.isSome then entry
  else
    match getChunk entry.chunkId with
    | none => entry
    | some chunk =>
        { entry with
          filePath := entry.filePath <|> some chunk.filePath
          chunkIndex := entry.chunkIndex <|> some chunk.chunkIndex
          content := entry.content <|> some chunk.content
          tier := entry.tier <|> chunk.tier
          pool := entry.pool <|> chunk.pool
          importance := entry.importance <|> chunk.importance
          tags := entry.tags <|> chunk.tags }

def hydrateMissingChunkData (getChunk : Nat → Option VectorChunkRecord) (combined : Combined) :
    List CombinedEntry :=
  combined.values.map (hydrate getChunk)

/-- A tier without a boost counts as it is. -/
def boostOf (tierBoosts : Dict String JsNumber) (tier : Option String) : JsNumber :=
  (tier.bind tierBoosts.get?).getD (.finite 1)

def scored (weights : Weights) (tierBoosts : Dict String JsNumber) (entry : CombinedEntry) :
    HybridSearchResult :=
  let baseScore := (weights.vector.mul entry.vectorScore).add (weights.bm25.mul entry.bm25Score)
  { chunkId := entry.chunkId
    filePath := entry.filePath.getD ""
    chunkIndex := entry.chunkIndex
    content := entry.content.getD ""
    tier := entry.tier
    pool := entry.pool
    importance := entry.importance
    tags := entry.tags
    score := baseScore.mul (boostOf tierBoosts entry.tier)
    vectorScore := entry.vectorScore
    bm25Score := entry.bm25Score
    distance := entry.distance
    bm25 := entry.bm25 }

def ranked (config : HybridSearchConfig) (stores : SearchStores) (query : HybridSearchQuery) :
    List HybridSearchResult :=
  let weights := normalizeWeights config.vectorWeight config.bm25Weight
  let tierBoosts := DEFAULT_TIER_BOOSTS.merge (config.tierBoosts.getD .empty)
  let vectorResults := stores.vectorSearch query.embedding
    (resolveLimit query.limit config.vectorLimitMultiplier)
  let ftsResults := stores.ftsSearch query.query
    (resolveLimit query.limit config.bm25LimitMultiplier)
  let combined := ftsResults.foldl addFtsResult (vectorResults.foldl addVectorResult .empty)
  (hydrateMissingChunkData stores.getChunk combined).map (scored weights tierBoosts)

def sliceTo (limit : JsNumber) (results : List HybridSearchResult) : List HybridSearchResult :=
  match limit with
  | .finite count => results.take count.floor.toNat
  | .posInf => results
  | _ => []

def search (config : HybridSearchConfig) (stores : SearchStores) (query : HybridSearchQuery) :
    List HybridSearchResult :=
  if query.limit.lessEq (.finite 0) then []
  else
    sliceTo query.limit ((ranked config stores query).insertionSort fun left right =>
      ¬left.score.less right.score)

end HybridSearch

end Aof
