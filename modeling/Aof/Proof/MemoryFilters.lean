import Aof.Lib.FirstMatching
import Aof.Memory.MemoryTools

/-!
# Filters behind limits

`memory_list` compares tags, and `memory_search` everything it filters by, only after a limit has
been applied.  Entries that do not match take the place of others that do.
-/

namespace Aof

open FirstMatching

namespace MemoryTools

theorem limitTo_natCast {Row : Type} (limit : Nat) (rows : List Row) :
    limitTo (.finite limit) rows = if limit < 2 ^ 63 then some (rows.take limit) else none := by
  have hfloor : ⌊(limit : Rat)⌋ = limit := Int.floor_natCast limit
  have hneg : ¬(limit : Rat) < 0 := not_lt.mpr (Nat.cast_nonneg limit)
  have hlow : (-2 ^ 63 : Rat) ≤ limit :=
    (neg_nonpos.mpr (by positivity)).trans (Nat.cast_nonneg limit)
  have hhigh : (limit : Rat) < 2 ^ 63 ↔ limit < 2 ^ 63 := by exact_mod_cast Iff.rfl
  simp only [limitTo, hfloor, Int.cast_natCast, hlow, hhigh, hneg, true_and, if_false,
    Int.toNat_natCast]

namespace ListEnvironment

variable (env : ListEnvironment) (params : MemoryListParams)

def matchingFiles : List MemoryListRow :=
  (filesOf env.chunks (normalizeString params.pool) (normalizeString params.tier)).filter
    (env.tagged params)

/-- The list shows the most recently updated of the files that match. -/
def ShowsFirst : Prop :=
  ∃ limit : Nat, env.limit params = .finite limit ∧
    ∃ shown, env.filtered params = some shown ∧
      IsFirst limit RecentFirst (env.matchingFiles params) shown

/-- The limit is one that SQLite takes, and no file with the tags is crowded out. -/
def HasRoom : Prop :=
  ∃ limit : Nat, env.limit params = .finite limit ∧ limit < 2 ^ 63 ∧
    Uncrowded (env.tagged params) limit (env.rows params)

variable {env params}

theorem filtered_eq {limit : Nat} (hlimit : env.limit params = .finite limit) :
    env.filtered params =
      if limit < 2 ^ 63 then some (((env.rows params).take limit).filter (env.tagged params))
      else none := by
  rw [filtered, hlimit, limitTo_natCast]
  split <;> rfl

theorem showsFirst_iff : env.ShowsFirst params ↔ env.HasRoom params := by
  apply exists_congr
  intro limit
  apply and_congr_right
  intro hlimit
  have hfirst : IsFirst limit RecentFirst (env.matchingFiles params)
        (((env.rows params).take limit).filter (env.tagged params)) ↔
      Uncrowded (env.tagged params) limit (env.rows params) :=
    isFirst_filter_take_iff (env.order.perm _) (env.order.sorted _)
  rw [filtered_eq hlimit, ← hfirst]
  by_cases hsmall : limit < 2 ^ 63
  · rw [if_pos hsmall]
    constructor
    · rintro ⟨shown, hshown, hisFirst⟩
      rw [← Option.some.inj hshown] at hisFirst
      exact ⟨hsmall, hisFirst⟩
    · rintro ⟨-, hisFirst⟩
      exact ⟨_, rfl, hisFirst⟩
  · rw [if_neg hsmall]
    constructor
    · rintro ⟨shown, hshown, -⟩
      cases hshown
    · rintro ⟨hlt, -⟩
      exact absurd hlt hsmall

end ListEnvironment

theorem sliceTo_natCast {Item : Type} (limit : Nat) (items : List Item) :
    sliceTo (.finite limit) items = items.take limit := by
  have hnonneg : (0 : Rat) ≤ limit := Nat.cast_nonneg limit
  have hfloor : ⌊(limit : Rat)⌋ = limit := Int.floor_natCast limit
  rw [sliceTo, if_pos hnonneg, hfloor, Int.toNat_natCast]

theorem sliceTo_posInf {Item : Type} (items : List Item) : sliceTo .posInf items = items := rfl

theorem le_floor_of_lessEq {length : Nat} {value : Rat}
    (hle : (JsNumber.finite length).lessEq (.finite value) = true) :
    (length : Rat) ≤ value ∧ length ≤ ⌊value⌋.toNat := by
  have hvalue : (length : Rat) ≤ value := by simpa [JsNumber.lessEq, JsNumber.less] using hle
  have hfloor : (length : Int) ≤ ⌊value⌋ := Int.le_floor.mpr (by exact_mod_cast hvalue)
  exact ⟨hvalue, by omega⟩

theorem lessEq_negInf (length : Nat) : (JsNumber.finite length).lessEq .negInf = false := by
  simp [JsNumber.lessEq, JsNumber.less]

theorem lessEq_nan (length : Nat) : (JsNumber.finite length).lessEq .nan = false := by
  simp [JsNumber.lessEq]

theorem sliceTo_of_lessEq {Item : Type} {limit : JsNumber} {items : List Item}
    (hle : (JsNumber.finite items.length).lessEq limit = true) : sliceTo limit items = items := by
  cases limit with
  | finite value =>
      obtain ⟨hvalue, hfloor⟩ := le_floor_of_lessEq hle
      rw [sliceTo, if_pos ((Nat.cast_nonneg _).trans hvalue), List.take_of_length_le hfloor]
  | posInf => rfl
  | negInf => rw [lessEq_negInf] at hle; cases hle
  | nan => rw [lessEq_nan] at hle; cases hle

theorem resolveLimit_posInf (multiplier : Option JsNumber) :
    HybridSearch.resolveLimit .posInf multiplier = .posInf := by
  unfold HybridSearch.resolveLimit
  generalize multiplier.getD (.finite 2) = factor
  dsimp only
  split
  · rfl
  · rename_i hfactor
    cases factor with
    | finite value =>
        have hvalue : 1 < value := by
          simpa [JsNumber.isFinite, JsNumber.lessEq, JsNumber.less] using hfactor
        have hzero : ¬value = 0 := by linarith
        have hneg : ¬value < 0 := by linarith
        rw [JsNumber.mul, JsNumber.signedInf, if_neg hzero, if_neg hneg]
        rfl
    | posInf => simp [JsNumber.isFinite] at hfactor
    | negInf => simp [JsNumber.isFinite] at hfactor
    | nan => simp [JsNumber.isFinite] at hfactor

section Engine

variable {config : HybridSearchConfig} {stores : SearchStores} {query : HybridSearchQuery}

def sortedHits (config : HybridSearchConfig) (stores : SearchStores) (query : HybridSearchQuery) :
    List HybridSearchResult :=
  (HybridSearch.ranked config stores query).insertionSort fun left right =>
    ¬left.score.less right.score

theorem search_posInf (text : String) (embedding : List JsNumber) :
    HybridSearch.search config stores ⟨text, embedding, .posInf⟩ =
      sortedHits config stores ⟨text, embedding, .posInf⟩ :=
  rfl

theorem search_natCast (text : String) (embedding : List JsNumber) (limit : Nat) :
    HybridSearch.search config stores ⟨text, embedding, .finite limit⟩ =
      (sortedHits config stores ⟨text, embedding, .finite limit⟩).take limit := by
  unfold HybridSearch.search
  split
  · rename_i hzero
    have hlimit : limit = 0 := by simpa [JsNumber.lessEq, JsNumber.less] using hzero
    rw [hlimit, List.take_zero]
  · have hfloor : (limit : Rat).floor = limit := Rat.floor_intCast limit
    rw [HybridSearch.sliceTo, hfloor, Int.toNat_natCast]
    rfl

theorem search_of_lessEq
    (hle : (JsNumber.finite (sortedHits config stores query).length).lessEq query.limit = true) :
    HybridSearch.search config stores query = sortedHits config stores query := by
  unfold HybridSearch.search
  cases hlimit : query.limit with
  | finite value =>
      rw [hlimit] at hle
      obtain ⟨hvalue, hfloor⟩ := le_floor_of_lessEq hle
      split
      · rename_i hzero
        have hnonpos : value ≤ 0 := by simpa [JsNumber.lessEq, JsNumber.less] using hzero
        have hlength : ((sortedHits config stores query).length : Rat) ≤ 0 := hvalue.trans hnonpos
        have hzero : (sortedHits config stores query).length = 0 := by
          exact_mod_cast hlength.antisymm (Nat.cast_nonneg _)
        exact (List.eq_nil_of_length_eq_zero hzero).symm
      · exact List.take_of_length_le hfloor
  | posInf => rfl
  | negInf => rw [hlimit, lessEq_negInf] at hle; cases hle
  | nan => rw [hlimit, lessEq_nan] at hle; cases hle

end Engine

namespace MemorySearchToolOptions

variable (options : MemorySearchToolOptions) (params : MemorySearchParams)
  (embedding : List JsNumber)

def hits : List HybridSearchResult :=
  HybridSearch.search options.config options.index.stores
    { query := params.query, embedding := embedding, limit := .posInf }

def ranking : List HybridSearchResult := options.results params embedding .posInf

/-- The search shows the first of the hits that match. -/
def ShowsFirst : Prop :=
  ∃ limit : Nat, options.limit params = .finite limit ∧
    options.filtered params embedding =
      ((options.ranking params embedding).filter (options.keeps params)).take limit

def HasRoom : Prop :=
  ∃ limit : Nat, options.limit params = .finite limit ∧
    Uncrowded (options.keeps params) limit (options.ranking params embedding)

/-- The indexes have no more hits than the engine takes from them. -/
structure Retrieved : Prop where
  vector : (JsNumber.finite (options.index.vectorHits embedding).length).lessEq
    (HybridSearch.resolveLimit (options.candidateLimit params)
      options.config.vectorLimitMultiplier) = true
  text : (JsNumber.finite (options.index.textHits params.query).length).lessEq
    (HybridSearch.resolveLimit (options.candidateLimit params)
      options.config.bm25LimitMultiplier) = true

def AllCandidates : Prop :=
  (JsNumber.finite (options.hits params embedding).length).lessEq
    (options.candidateLimit params) = true

variable {options params embedding}

variable (hretrieved : options.Retrieved params embedding)
include hretrieved

theorem sortedHits_eq : sortedHits options.config options.index.stores
        ⟨params.query, embedding, options.candidateLimit params⟩ =
      options.hits params embedding := by
  have hvector := sliceTo_of_lessEq hretrieved.vector
  have htext := sliceTo_of_lessEq hretrieved.text
  rw [hits, search_posInf, sortedHits, sortedHits]
  simp only [HybridSearch.ranked, HitIndex.stores, hvector, htext, resolveLimit_posInf,
    sliceTo_posInf]

theorem showsFirst_iff (hplain : options.reranker = none) :
    options.ShowsFirst params embedding ↔ options.HasRoom params embedding := by
  apply exists_congr
  intro limit
  apply and_congr_right
  intro hlimit
  have hcandidates : options.candidateLimit params = .finite limit := by
    rw [candidateLimit, hplain]
    exact hlimit
  have hhits := sortedHits_eq hretrieved
  rw [hcandidates] at hhits
  have hresults : options.results params embedding (.finite limit) =
      (options.ranking params embedding).take limit := by
    rw [ranking, results, results, hplain]
    dsimp only
    rw [search_natCast, hhits]
    rfl
  rw [filtered, hlimit, hcandidates, hresults, sliceTo_natCast,
    List.take_of_length_le length_filter_take_le]
  exact filter_take_eq_iff

theorem showsFirst_of_allCandidates (hall : options.AllCandidates params embedding) {limit : Nat}
    (hlimit : options.limit params = .finite limit) : options.ShowsFirst params embedding := by
  have hhits := sortedHits_eq hretrieved
  have hsearch : HybridSearch.search options.config options.index.stores
        ⟨params.query, embedding, options.candidateLimit params⟩ = _ :=
    search_of_lessEq (by rw [hhits]; exact hall)
  have hresults : options.results params embedding (options.candidateLimit params) =
      options.ranking params embedding := by
    rw [ranking, results, results, hsearch, hhits]
    rfl
  refine ⟨limit, hlimit, ?_⟩
  rw [filtered, hresults, hlimit, sliceTo_natCast]

end MemorySearchToolOptions

theorem RecentFirst.trans {a b c : MemoryListRow} (hab : RecentFirst a b)
    (hbc : RecentFirst b c) : RecentFirst a c := by
  intro third hthird
  obtain ⟨second, hsecond, hle⟩ := hbc third hthird
  obtain ⟨first, hfirst, hle'⟩ := hab second hsecond
  exact ⟨first, hfirst, hle.trans hle'⟩

theorem RecentFirst.total (a b : MemoryListRow) : RecentFirst a b ∨ RecentFirst b a := by
  unfold RecentFirst
  cases a.updatedAt with
  | none => right; intro second hsecond; cases hsecond
  | some first =>
      cases b.updatedAt with
      | none => left; intro second hsecond; cases hsecond
      | some second => simpa using le_total second first

instance : IsTrans MemoryListRow RecentFirst := ⟨fun _ _ _ => RecentFirst.trans⟩

instance : Std.Total RecentFirst := ⟨RecentFirst.total⟩

def stableOrder : RowOrder where
  arrange := List.insertionSort RecentFirst
  perm := List.perm_insertionSort RecentFirst
  sorted := List.pairwise_insertionSort RecentFirst

def taggedFiles : ListEnvironment where
  chunks :=
    [{ filePath := "new.md", updatedAt := some 2 },
      { filePath := "old.md", updatedAt := some 1, tags := some "adr" }]
  order := stableOrder
  json _ := none

def taggedParams (limit : Rat) : MemoryListParams where
  tags := .arr [.str "adr"]
  limit := .num (.finite limit)

def tieredHits : MemorySearchToolOptions where
  embed _ := some [.finite 1]
  index :=
    { vectorHits := fun _ =>
        [{ id := 1, filePath := "cold.md", chunkIndex := 0, content := "alpha", tier := some "cold",
            distance := .finite 0 },
          { id := 2, filePath := "hot.md", chunkIndex := 0, content := "alpha", tier := some "hot",
            distance := .finite 9 }]
      textHits := fun _ => []
      getChunk := fun _ => none }

def hotParams (limit : Rat) : MemorySearchParams where
  query := "alpha"
  tiers := .arr [.str "hot"]
  maxResults := .num (.finite limit)

theorem limit_tagged : taggedFiles.limit (taggedParams 1) = .finite (1 : Nat) := by
  decide +kernel

theorem limit_hot : tieredHits.limit (hotParams 1) = .finite (1 : Nat) := by decide +kernel

theorem retrieved_hot : tieredHits.Retrieved (hotParams 2) [.finite 1] where
  vector := by decide +kernel
  text := by decide +kernel

end MemoryTools

end Aof
