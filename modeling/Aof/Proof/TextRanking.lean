import Aof.Memory.HybridSearch

/-!
# The scores of full-text hits

A rank of FTS5 is never positive, and smaller for a better match.  The score cuts ranks off at zero,
so that every hit of the text alone has the same text score, and hits of one tier the same score.
-/

namespace Aof

namespace HybridSearch

/-- Two hits of the text alone that differ in their ranks only, the first of them the better one. -/
structure BetterMatch (better worse : HybridSearchResult) : Prop where
  tier : better.tier = worse.tier
  importance : better.importance = worse.importance
  textOnly : better.distance = none ∧ worse.distance = none
  rank : ∃ rank ∈ better.bm25, ∃ other ∈ worse.bm25, rank.less other = true

/-- The ranks of a full-text search, as SQLite documents them. -/
def RanksNotPositive (stores : SearchStores) : Prop :=
  ∀ query limit, ∀ hit ∈ stores.ftsSearch query limit, hit.bm25.lessEq (.finite 0) = true

structure TextEntry (entry : CombinedEntry) : Prop where
  vectorScore : entry.vectorScore = .finite 0
  bm25Score : entry.bm25Score = scoreBm25 (.finite 0)

def Sound (combined : Combined) : Prop :=
  ∀ entry ∈ combined.values, entry.distance = none → TextEntry entry

theorem scoreBm25_of_lessEq {rank : JsNumber} (hrank : rank.lessEq (.finite 0) = true) :
    scoreBm25 rank = scoreBm25 (.finite 0) := by
  rw [scoreBm25, scoreBm25, JsNumber.max_zero_of_lessEq hrank]
  rfl

variable {combined : Combined} {config : HybridSearchConfig} {stores : SearchStores}
  {query : HybridSearchQuery} {result : HybridSearchResult}

theorem sound_set (hsound : Sound combined) {id : Nat} {entry : CombinedEntry}
    (hentry : entry.distance = none → TextEntry entry) : Sound (combined.set id entry) := by
  intro other hother
  obtain ⟨key, hget⟩ := Dict.mem_values_iff_get?.mp hother
  rw [Dict.get?_set] at hget
  split at hget
  · rw [← Option.some.inj hget]
    exact hentry
  · exact hsound other (Dict.mem_values_iff_get?.mpr ⟨key, hget⟩)

theorem sound_addVectorResult (hsound : Sound combined) (result : VectorSearchResult) :
    Sound (addVectorResult combined result) := by
  apply sound_set hsound
  intro hnone
  cases hnone

theorem sound_addFtsResult (hsound : Sound combined) {result : FtsSearchResult}
    (hrank : result.bm25.lessEq (.finite 0) = true) : Sound (addFtsResult combined result) := by
  unfold addFtsResult
  split
  · rename_i existing hget
    apply sound_set hsound
    intro hnone
    have hexisting := hsound existing (Dict.mem_values_iff_get?.mpr ⟨_, hget⟩) hnone
    exact ⟨hexisting.vectorScore, scoreBm25_of_lessEq hrank⟩
  · apply sound_set hsound
    intro _
    exact ⟨rfl, scoreBm25_of_lessEq hrank⟩

theorem sound_combined (vectorResults : List VectorSearchResult) {ftsResults : List FtsSearchResult}
    (hranks : ∀ hit ∈ ftsResults, hit.bm25.lessEq (.finite 0) = true) :
    Sound (ftsResults.foldl addFtsResult (vectorResults.foldl addVectorResult .empty)) := by
  apply List.foldlRecOn (motive := Sound)
  · apply List.foldlRecOn (motive := Sound)
    · intro entry hentry
      cases hentry
    · exact fun combined hsound result _ => sound_addVectorResult hsound result
  · exact fun combined hsound result hresult => sound_addFtsResult hsound (hranks result hresult)

theorem hydrate_scores (getChunk : Nat → Option VectorChunkRecord) (entry : CombinedEntry) :
    (hydrate getChunk entry).vectorScore = entry.vectorScore ∧
      (hydrate getChunk entry).bm25Score = entry.bm25Score ∧
      (hydrate getChunk entry).distance = entry.distance := by
  unfold hydrate
  split
  · exact ⟨rfl, rfl, rfl⟩
  · split <;> exact ⟨rfl, rfl, rfl⟩

theorem scores_of_textOnly (hranks : RanksNotPositive stores)
    (hresult : result ∈ ranked config stores query) (htext : result.distance = none) :
    result.bm25Score = scoreBm25 (.finite 0) ∧ result.score =
        (((normalizeWeights config.vectorWeight config.bm25Weight).vector.mul (.finite 0)).add
          ((normalizeWeights config.vectorWeight config.bm25Weight).bm25.mul
            (scoreBm25 (.finite 0)))).mul
          (boostOf (DEFAULT_TIER_BOOSTS.merge (config.tierBoosts.getD .empty)) result.tier) := by
  obtain ⟨hydrated, hhydrated, rfl⟩ := List.mem_map.mp hresult
  obtain ⟨entry, hentry, rfl⟩ := List.mem_map.mp hhydrated
  obtain ⟨hvector, hbm25, hdistance⟩ := hydrate_scores stores.getChunk entry
  have hnone : entry.distance = none := hdistance.symm.trans htext
  have htextEntry := sound_combined _ (hranks _ _) entry hentry hnone
  refine ⟨hbm25.trans htextEntry.bm25Score, ?_⟩
  rw [scored, hvector, hbm25, htextEntry.vectorScore, htextEntry.bm25Score]

end HybridSearch

open HybridSearch

/-- However much better one hit of the text matches than another, it is not scored higher. -/
theorem better_match_not_preferred {config : HybridSearchConfig} {stores : SearchStores}
    (hranks : RanksNotPositive stores) {query : HybridSearchQuery}
    {better worse : HybridSearchResult} (hbetter : better ∈ ranked config stores query)
    (hworse : worse ∈ ranked config stores query) (hmatch : BetterMatch better worse) :
    worse.bm25Score.less better.bm25Score = false ∧ worse.score.less better.score = false := by
  obtain ⟨hscore, htotal⟩ := scores_of_textOnly hranks hbetter hmatch.textOnly.1
  obtain ⟨hscore', htotal'⟩ := scores_of_textOnly hranks hworse hmatch.textOnly.2
  rw [hscore, hscore', htotal, htotal', hmatch.tier]
  exact ⟨JsNumber.less_self _, JsNumber.less_self _⟩

def twoHits : SearchStores where
  vectorSearch _ _ := []
  ftsSearch _ _ :=
    [{ chunkId := 1, content := "lock the lock", filePath := "a.md", bm25 := .finite (-2) },
      { chunkId := 2, content := "a lock", filePath := "b.md", bm25 := .finite (-1) }]
  getChunk _ := none

def lockQuery : HybridSearchQuery := { query := "lock", embedding := [], limit := .finite 5 }

def textHit (chunkId : Nat) (filePath content : String) (rank : JsNumber) : HybridSearchResult where
  chunkId := chunkId
  filePath := filePath
  chunkIndex := none
  content := content
  tier := none
  pool := none
  importance := none
  tags := none
  score := .ofRat (3 / 10)
  vectorScore := .finite 0
  bm25Score := .finite 1
  distance := none
  bm25 := some rank

def lockHit : HybridSearchResult := textHit 1 "a.md" "lock the lock" (.finite (-2))

def otherHit : HybridSearchResult := textHit 2 "b.md" "a lock" (.finite (-1))

theorem ranked_twoHits : ranked {} twoHits lockQuery = [lockHit, otherHit] := by
  decide +kernel

theorem ranksNotPositive_twoHits : RanksNotPositive twoHits := by
  have hhits : ∀ hit ∈ twoHits.ftsSearch "lock" (.finite 10),
      hit.bm25.lessEq (.finite 0) = true := by
    decide +kernel
  exact fun _ _ => hhits

theorem lockHit_mem : lockHit ∈ ranked {} twoHits lockQuery := by
  rw [ranked_twoHits]
  exact List.mem_cons_self

theorem otherHit_mem : otherHit ∈ ranked {} twoHits lockQuery := by
  rw [ranked_twoHits]
  exact List.mem_cons_of_mem _ List.mem_cons_self

theorem betterMatch_twoHits : BetterMatch lockHit otherHit where
  tier := rfl
  importance := rfl
  textOnly := ⟨rfl, rfl⟩
  rank := ⟨_, rfl, _, rfl, by decide +kernel⟩

theorem lock_not_preferred : RanksNotPositive twoHits ∧ BetterMatch lockHit otherHit ∧
    otherHit.bm25Score.less lockHit.bm25Score = false ∧
    otherHit.score.less lockHit.score = false := by
  refine ⟨ranksNotPositive_twoHits, betterMatch_twoHits, ?_⟩
  exact better_match_not_preferred ranksNotPositive_twoHits lockHit_mem otherHit_mem
    betterMatch_twoHits

theorem ranking_not_monotone :
    ¬ ∀ (config : HybridSearchConfig) (stores : SearchStores) (query : HybridSearchQuery),
      RanksNotPositive stores → ∀ better ∈ ranked config stores query,
        ∀ worse ∈ ranked config stores query, BetterMatch better worse →
          worse.bm25Score.less better.bm25Score = true ∧ worse.score.less better.score = true := by
  intro hclaim
  have hpreferred := hclaim {} twoHits lockQuery ranksNotPositive_twoHits lockHit lockHit_mem
    otherHit otherHit_mem betterMatch_twoHits
  have hsame : otherHit.bm25Score.less lockHit.bm25Score = false := JsNumber.less_self _
  rw [hsame] at hpreferred
  cases hpreferred.1

end Aof
