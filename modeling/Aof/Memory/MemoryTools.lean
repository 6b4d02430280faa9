import Aof.Memory.HybridSearch
import Mathlib.Data.List.Dedup
import Mathlib.Data.Rat.Floor

/-!
# The tools that list and search memories

`memory_list` (`memory/tools/list.ts`, with `memory/store/tag-serialization.ts`) asks the table of
chunks, `memory_search` (`memory/tools/search.ts`) the search engine and the reranker, if there is
one.  The lines that are made of the entries are left out.
-/

namespace Aof

inductive MemoryReply (Entry : Type) where
  | message (text : String)
  | entries (shown : List Entry)

namespace MemoryTools

/-- `value > 0` for a finite number, rounded down; else the fallback. -/
def resolveLimit (value : JsValue) (fallback : JsNumber) : JsNumber :=
  match value with
  | .num (.finite limit) => if limit ≤ 0 then fallback else .finite ⌊limit⌋
  | _ => fallback

def sliceTo {Item : Type} (limit : JsNumber) (items : List Item) : List Item :=
  match limit with
  | .finite count =>
      if 0 ≤ count then items.take ⌊count⌋.toNat
      else items.take (items.length - ⌊-count⌋.toNat)
  | .posInf => items
  | .negInf | .nan => []

def normalizeString : JsValue → Option String
  | .str value =>
      let trimmed := JsString.trim value.toList
      if trimmed = [] then none else some (String.ofList trimmed)
  | _ => none

structure ListedChunk where
  filePath : String
  tier : Option String := none
  pool : Option String := none
  importance : Option JsNumber := none
  tags : Option String := none
  createdAt : Option Int := none
  updatedAt : Option Int := none

structure MemoryListRow where
  filePath : String
  tier : Option String
  pool : Option String
  importance : Option JsNumber
  tags : Option String
  updatedAt : Option Int
  createdAt : Option Int
  deriving DecidableEq

structure MemoryListParams where
  pool : JsValue := .undefined
  tier : JsValue := .undefined
  tags : JsValue := .undefined
  limit : JsValue := .undefined

def normalizeTags : JsValue → List String
  | .arr items => items.filterMap fun item =>
      match item with
      | .str tag => if JsString.trim tag.toList = [] then none else some tag
      | _ => none
  | .str value => (normalizeString (.str value)).toList
  | _ => []

/-- `parseTags`, where `json` is `JSON.parse`, which may throw. -/
def parseTags (json : String → Option JsValue) (tags : Option String) : Option (List String) :=
  match tags.filter (· ≠ "") with
  | none => none
  | some tags =>
      match json tags with
      | some (.arr items) =>
          let texts := items.filterMap fun item =>
            match item with
            | .str tag => some tag
            | _ => none
          if texts.length = items.length then some texts else some [tags]
      | _ => some [tags]

def matchesTags (rowTags : Option (List String)) (tags : List String) : Bool :=
  if tags = [] then true
  else tags.all (rowTags.getD []).contains

/-- `MAX(column)`: null counts only if there is nothing else. -/
def greatest {Value : Type} (less : Value → Value → Bool) (column : List (Option Value)) :
    Option Value :=
  column.reduceOption.foldl
    (fun best value => best.elim (some value) fun best =>
      some (if less best value then value else best)) none

/-- `WHERE pool = ? AND tier = ?`, each only if it is given. -/
def selected (pool tier : Option String) (chunk : ListedChunk) : Bool :=
  pool.all (chunk.pool = some ·) && tier.all (chunk.tier = some ·)

def fileRow (chunks : List ListedChunk) (filePath : String) : MemoryListRow :=
  let rows := chunks.filter (·.filePath = filePath)
  { filePath := filePath
    tier := greatest (fun a b => a < b) (rows.map (·.tier))
    pool := greatest (fun a b => a < b) (rows.map (·.pool))
    importance := greatest JsNumber.less (rows.map (·.importance))
    tags := greatest (fun a b => a < b) (rows.map (·.tags))
    updatedAt := greatest (fun a b => a < b) (rows.map (·.updatedAt))
    createdAt := greatest (fun a b => b < a) (rows.map (·.createdAt)) }

/-- `GROUP BY file_path` -/
def filesOf (chunks : List ListedChunk) (pool tier : Option String) : List MemoryListRow :=
  let rows := chunks.filter (selected pool tier)
  (rows.map (·.filePath)).dedup.map (fileRow rows)

/-- `ORDER BY updatedAt DESC`, in which null comes last. -/
def RecentFirst (a b : MemoryListRow) : Prop :=
  ∀ second ∈ b.updatedAt, ∃ first ∈ a.updatedAt, second ≤ first

instance : DecidableRel RecentFirst := fun a b =>
  inferInstanceAs (Decidable (∀ second ∈ b.updatedAt, ∃ first ∈ a.updatedAt, second ≤ first))

/-- How SQLite sorts the files.  In which order it has files of the same time is left open. -/
structure RowOrder where
  arrange : List MemoryListRow → List MemoryListRow
  perm : ∀ rows, (arrange rows).Perm rows
  sorted : ∀ rows, (arrange rows).Pairwise RecentFirst

/-- `LIMIT ?`: a negative number is no limit, and one that is not an integer of 64 bits is
refused. -/
def limitTo {Row : Type} (limit : JsNumber) (rows : List Row) : Option (List Row) :=
  match limit with
  | .finite count =>
      if (⌊count⌋ : Rat) = count ∧ -2 ^ 63 ≤ count ∧ count < 2 ^ 63 then
        some (if count < 0 then rows else rows.take ⌊count⌋.toNat)
      else none
  | _ => none

structure ListEnvironment where
  chunks : List ListedChunk
  order : RowOrder
  json : String → Option JsValue
  defaultLimit : Option JsNumber := none

namespace ListEnvironment

variable (env : ListEnvironment) (params : MemoryListParams)

def limit : JsNumber := resolveLimit params.limit (env.defaultLimit.getD (.finite 50))

def rows : List MemoryListRow :=
  env.order.arrange (filesOf env.chunks (normalizeString params.pool) (normalizeString params.tier))

def tagged (row : MemoryListRow) : Bool :=
  matchesTags (parseTags env.json row.tags) (normalizeTags params.tags)

def filtered : Option (List MemoryListRow) := do
  let rows ← limitTo (env.limit params) (env.rows params)
  some (rows.filter (env.tagged params))

def memoryList : Option (MemoryReply MemoryListRow) := do
  let filtered ← env.filtered params
  some (if filtered = [] then .message "No memories found." else .entries filtered)

end ListEnvironment

/-- All hits of the two indexes, the best first, and the table of chunks. -/
structure HitIndex where
  vectorHits : List JsNumber → List VectorSearchResult
  textHits : String → List FtsSearchResult
  getChunk : Nat → Option VectorChunkRecord

def HitIndex.stores (index : HitIndex) : SearchStores where
  vectorSearch embedding limit := sliceTo limit (index.vectorHits embedding)
  ftsSearch query limit := sliceTo limit (index.textHits query)
  getChunk := index.getChunk

structure MemorySearchParams where
  query : String
  maxResults : JsValue := .undefined
  minScore : JsValue := .undefined
  tiers : JsValue := .undefined
  poolIds : JsValue := .undefined

/-- `MemorySearchToolOptions`; the provider gives one vector for one text, or none. -/
structure MemorySearchToolOptions where
  embed : String → Option (List JsNumber)
  config : HybridSearchConfig := {}
  index : HitIndex
  defaultMaxResults : Option JsNumber := none
  defaultMinScore : Option JsNumber := none
  reranker : Option (String → List HybridSearchResult → List HybridSearchResult) := none
  topKBeforeRerank : Option JsNumber := none

def DEFAULT_MAX_RESULTS : JsNumber := .finite 5

def DEFAULT_TOP_K_BEFORE_RERANK : JsNumber := .finite 20

def normalizeStringArray : JsValue → List String
  | .arr items => items.filterMap fun item =>
      match item with
      | .str text => some text
      | _ => none
  | _ => []

def resolveMinScore (value : JsValue) (fallback : Option JsNumber) : Option JsNumber :=
  match value with
  | .num (.finite score) => some (.finite score)
  | _ => fallback

def keepsResult (tiers pools : List String) (minScore : Option JsNumber)
    (result : HybridSearchResult) : Bool :=
  (tiers = [] || (result.tier.filter (· ≠ "")).any tiers.contains) &&
    (pools = [] || (result.pool.filter (· ≠ "")).any pools.contains) &&
    !minScore.any result.score.less

namespace MemorySearchToolOptions

variable (options : MemorySearchToolOptions) (params : MemorySearchParams)
  (embedding : List JsNumber)

def limit : JsNumber :=
  resolveLimit params.maxResults (options.defaultMaxResults.getD DEFAULT_MAX_RESULTS)

def keeps (result : HybridSearchResult) : Bool :=
  keepsResult (normalizeStringArray params.tiers) (normalizeStringArray params.poolIds)
    (resolveMinScore params.minScore options.defaultMinScore) result

/-- With a reranker, more candidates are fetched than are shown. -/
def candidateLimit : JsNumber :=
  match options.reranker with
  | some _ =>
      (options.limit params).max (options.topKBeforeRerank.getD DEFAULT_TOP_K_BEFORE_RERANK)
  | none => options.limit params

def results (limit : JsNumber) : List HybridSearchResult :=
  let hybridResults := HybridSearch.search options.config options.index.stores
    { query := params.query, embedding := embedding, limit := limit }
  match options.reranker with
  | some rerank => rerank params.query hybridResults
  | none => hybridResults

def filtered : List HybridSearchResult :=
  sliceTo (options.limit params)
    ((options.results params embedding (options.candidateLimit params)).filter
      (options.keeps params))

def memorySearch : MemoryReply HybridSearchResult :=
  let query := JsString.trim params.query.toList
  if query = [] then .message "Query is required."
  else
    match (options.embed (String.ofList query)).filter (· ≠ []) with
    | none => .message "Embedding provider returned no vectors."
    | some embedding =>
        let filtered := options.filtered params embedding
        if filtered = [] then .message "No results found." else .entries filtered

end MemorySearchToolOptions

end MemoryTools

end Aof
