import Aof.Context.Assembler
import Aof.Lib.LayeredBudget

/-!
# The budget of a context

The assembled context keeps to its budget and to the order of the layers, unless the budget is too
small for the notice alone, or a later layer fills the gap that an earlier one left.
-/

namespace Aof

open ContextAssembler LayeredBudget
open ProjectMigration (codeUnits)

structure Piece where
  ref : String
  text : CodeUnits
  deriving DecidableEq

def piecesOf (layer : ContextLayer) (references : List Reference) : List Piece :=
  references.filterMap fun reference =>
    reference.content.map fun content =>
      ⟨reference.ref, contentSection layer reference.ref content⟩

def texts (pieces : List Piece) : CodeUnits := pieces.flatMap Piece.text

/-- So much is left that the beginning of a section is taken. -/
def isWide (limit : JsNumber) (total : Nat) : Bool :=
  (JsNumber.finite 100).less (remaining limit total)

theorem exceeds_of_le {limit : JsNumber} {a b : Nat} (hle : a ≤ b)
    (hless : limit.less (.finite a) = true) : limit.less (.finite b) = true := by
  cases limit with
  | finite value =>
      rw [JsNumber.less, decide_eq_true_iff] at hless ⊢
      exact hless.trans_le (Nat.cast_le.2 hle)
  | posInf => cases hless
  | negInf => rfl
  | nan => cases hless

theorem isWide_of_le {limit : JsNumber} {a b : Nat} (hle : a ≤ b)
    (hwide : isWide limit b = true) : isWide limit a = true := by
  unfold isWide remaining at *
  cases limit with
  | finite value =>
      rw [JsNumber.less, decide_eq_true_iff] at hwide ⊢
      exact hwide.trans_le (sub_le_sub_left (Nat.cast_le.2 hle) value)
  | _ => exact hwide

def charBudget (limit : JsNumber) : LayeredBudget Piece where
  size := fun piece => piece.text.length
  fits := fun total => !limit.less (.finite total)
  wide := isWide limit
  fits_of_le := by
    intro a b hle hfits
    rw [Bool.not_eq_true'] at hfits ⊢
    exact Bool.eq_false_iff.2 fun hless =>
      Bool.eq_false_iff.1 hfits (exceeds_of_le hle hless)
  wide_of_le := isWide_of_le

theorem fits_eq (limit : JsNumber) (total : Nat) :
    (charBudget limit).fits total = !limit.less (.finite total) := rfl

/-- A limit is a whole number of characters, as far as the assembler can tell. -/
structure CutsAt (limit : JsNumber) (most : Nat) : Prop where
  exceeds : ∀ total : Nat, limit.less (.finite total) = true ↔ most < total
  substring : ∀ (text : CodeUnits) (length : Nat),
    substringTo text (remaining limit length) = text.take (most - length)
  wide : ∀ total : Nat, isWide limit total = true → total + 100 ≤ most
  full : ∀ total : Nat, (JsNumber.finite total).less limit = false → most ≤ total
  beyond : ∀ total : Nat, most < total → (JsNumber.finite total).less limit = false

theorem cutsAt_floor {value : ℚ} (hpos : 0 ≤ value) : CutsAt (.finite value) ⌊value⌋₊ where
  exceeds := by
    intro total
    rw [JsNumber.less, decide_eq_true_iff]
    exact (Nat.floor_lt hpos).symm
  substring := by
    intro text length
    have hfloor : ⌊value - (length : ℚ)⌋.toNat = ⌊value⌋₊ - length := by
      rw [Int.floor_toNat, Nat.floor_sub_natCast]
    rw [remaining, substringTo, hfloor]
  wide := by
    intro total hwide
    rw [isWide, remaining, JsNumber.less, decide_eq_true_iff] at hwide
    apply Nat.le_floor
    push_cast
    linarith
  full := by
    intro total hfull
    rw [JsNumber.less, decide_eq_false_iff_not, not_lt] at hfull
    exact Nat.floor_le_of_le hfull
  beyond := by
    intro total hover
    rw [JsNumber.less, decide_eq_false_iff_not, not_lt]
    exact ((Nat.floor_lt hpos).1 hover).le

section Limit

variable {limit : JsNumber} (hpos : (JsNumber.finite 0).less limit = true)

include hpos

theorem budget_of_pos : budget (some limit) = some limit := by
  rw [budget, Option.filter_eq_some_iff]
  refine ⟨rfl, ?_⟩
  rw [Bool.not_eq_true', decide_eq_false_iff_not]
  rintro (rfl | rfl) <;> cases hpos

theorem exists_cutsAt {total : Nat} (hless : limit.less (.finite total) = true) :
    ∃ most, CutsAt limit most := by
  cases limit with
  | finite value =>
      rw [JsNumber.less, decide_eq_true_iff] at hpos
      exact ⟨_, cutsAt_floor hpos.le⟩
  | posInf => cases hless
  | negInf => cases hpos
  | nan => cases hless

theorem exists_cutsAt_of_full {total : Nat} (hfull : (JsNumber.finite total).less limit = false) :
    ∃ most, CutsAt limit most := by
  cases limit with
  | finite value =>
      rw [JsNumber.less, decide_eq_true_iff] at hpos
      exact ⟨_, cutsAt_floor hpos.le⟩
  | posInf => cases hfull
  | negInf => cases hpos
  | nan => cases hpos

end Limit

theorem length_truncationNotice : truncationNotice.length = 46 := by decide +kernel

/-- The beginning of a section that does not fit, with the notice. -/
def partOf (limit : JsNumber) (used : Nat) : Option Piece → CodeUnits
  | some piece => if isWide limit used then
      substringTo piece.text (remaining limit used) ++ truncationNotice
    else []
  | none => []

def ContextAssembler.Assembly.add (assembly : Assembly) (pieces : List Piece)
    (part : CodeUnits) : Assembly where
  summary := assembly.summary ++ texts pieces ++ part
  sources := assembly.sources ++ pieces.map Piece.ref

theorem length_texts (limit : JsNumber) (pieces : List Piece) :
    (texts pieces).length = (charBudget limit).total pieces := by
  rw [texts, List.length_flatMap]
  rfl

theorem add_add (assembly : Assembly) (pieces more : List Piece) (part : CodeUnits) :
    (assembly.add pieces []).add more part = assembly.add (pieces ++ more) part := by
  simp [Assembly.add, texts]

theorem add_nil (assembly : Assembly) : assembly.add [] [] = assembly := by
  simp [Assembly.add, texts]

theorem length_add (limit : JsNumber) (assembly : Assembly) (pieces : List Piece) :
    (assembly.add pieces []).summary.length =
      assembly.summary.length + (charBudget limit).total pieces := by
  rw [Assembly.add, List.append_nil, List.length_append, length_texts limit]

theorem length_contentSection_pos (layer : ContextLayer) (ref : String) (content : CodeUnits) :
    0 < (contentSection layer ref content).length := by
  have hends : 0 < (codeUnits "\n\n").length := by decide
  rw [contentSection, List.length_append]
  omega

theorem length_piece_pos {layer : ContextLayer} {references : List Reference} {piece : Piece}
    (hpiece : piece ∈ piecesOf layer references) : 0 < piece.text.length := by
  obtain ⟨reference, -, hsome⟩ := List.mem_filterMap.1 hpiece
  obtain ⟨content, -, rfl⟩ := Option.map_eq_some_iff.1 hsome
  exact length_contentSection_pos layer reference.ref content

section Resolve

variable {limit : JsNumber} (hpos : (JsNumber.finite 0).less limit = true)

include hpos

variable {assembly : Assembly} {text : CodeUnits} {ref : String}

theorem addContent_fits
    (hfits : limit.less (.finite (assembly.summary.length + text.length : Nat)) = false) :
    addContent (some limit) text ref assembly = (assembly.add [⟨ref, text⟩] [], true) := by
  simp only [addContent, budget_of_pos hpos, hfits, Bool.false_eq_true, ↓reduceIte,
    Assembly.add, texts, List.flatMap_cons, List.flatMap_nil, List.append_nil, List.map_cons,
    List.map_nil]

theorem addContent_stops
    (hstops : limit.less (.finite (assembly.summary.length + text.length : Nat)) = true) :
    addContent (some limit) text ref assembly =
      (assembly.add [] (partOf limit assembly.summary.length (some ⟨ref, text⟩)), false) := by
  simp only [addContent, budget_of_pos hpos, hstops, ↓reduceIte, Assembly.add, texts,
    List.flatMap_nil, List.append_nil, List.map_nil, partOf, isWide]
  split <;> simp [*]

theorem resolveLayer_eq (layer : ContextLayer) (references : List Reference) (assembly : Assembly) :
    resolveLayer (some limit) layer references assembly = assembly.add
        ((charBudget limit).fill assembly.summary.length (piecesOf layer references)).1
        (partOf limit (assembly.summary.length + (charBudget limit).total
          ((charBudget limit).fill assembly.summary.length (piecesOf layer references)).1)
          ((charBudget limit).fill assembly.summary.length (piecesOf layer references)).2) := by
  induction references generalizing assembly with
  | nil => simp [resolveLayer, piecesOf, fill, Assembly.add, texts, partOf]
  | cons reference rest ih =>
      rw [resolveLayer]
      cases hcontent : reference.content with
      | none =>
          have hpieces : piecesOf layer (reference :: rest) = piecesOf layer rest := by
            simp [piecesOf, hcontent]
          rw [hpieces]
          exact ih assembly
      | some content =>
          let piece : Piece := ⟨reference.ref, contentSection layer reference.ref content⟩
          have hpieces : piecesOf layer (reference :: rest) = piece :: piecesOf layer rest := by
            simp [piecesOf, hcontent, piece]
          have hsize : (charBudget limit).total [piece] = piece.text.length := Nat.add_zero _
          rw [hpieces, fill]
          dsimp only
          by_cases hstops : limit.less
              (.finite (assembly.summary.length + piece.text.length : Nat)) = true
          · have hfits : (charBudget limit).fits
                (assembly.summary.length + (charBudget limit).size piece) = false :=
              (fits_eq limit _).trans (congrArg not hstops)
            rw [addContent_stops hpos hstops, if_neg Bool.false_ne_true,
              if_neg (ne_true_of_eq_false hfits), total_nil, Nat.add_zero]
          · have hless := Bool.eq_false_iff.2 hstops
            have hfits : (charBudget limit).fits
                (assembly.summary.length + (charBudget limit).size piece) = true :=
              (fits_eq limit _).trans (congrArg not hless)
            have hnext := length_add limit assembly [piece]
            rw [hsize] at hnext
            rw [addContent_fits hpos hless, if_pos rfl, if_pos hfits, ih, add_add, hnext,
              total_cons, ← Nat.add_assoc]
            rfl

theorem resolveLayer_full (layer : ContextLayer) (references : List Reference)
    (hfull : hasRoom (some limit) assembly = false) :
    resolveLayer (some limit) layer references assembly = assembly := by
  obtain ⟨most, hmost⟩ := exists_cutsAt_of_full hpos hfull
  have hlength := hmost.full _ hfull
  have hfill : ((charBudget limit).fill assembly.summary.length
      (piecesOf layer references)).1 = [] := by
    by_contra hne
    obtain ⟨piece, hpiece, hfits⟩ := fill_ne_nil_iff.1 hne
    have hsize : 0 < (charBudget limit).size piece :=
      length_piece_pos (List.mem_of_mem_head? hpiece)
    rw [fits_eq, Bool.not_eq_true'] at hfits
    refine Bool.eq_false_iff.1 hfits ((hmost.exceeds _).2 ?_)
    omega
  have hwide : isWide limit assembly.summary.length = false := by
    apply Bool.eq_false_iff.2
    intro hwide
    have hroom := hmost.wide _ hwide
    omega
  have hpart : ∀ stopped, partOf limit assembly.summary.length stopped = [] := by
    intro stopped
    cases stopped with
    | none => rfl
    | some piece => rw [partOf, if_neg (ne_true_of_eq_false hwide)]
  rw [resolveLayer_eq hpos, hfill, total_nil, Nat.add_zero, hpart, add_nil]

end Resolve

def resolveLayers (maxChars : Option JsNumber) (layers : List (ContextLayer × List Reference))
    (assembly : Assembly) : Assembly :=
  layers.foldl (fun assembly layer => resolveLayer maxChars layer.1 layer.2 assembly) assembly

def pieceLayers (layers : List (ContextLayer × List Reference)) : List (List Piece) :=
  layers.map fun layer => piecesOf layer.1 layer.2

section Layers

variable {limit : JsNumber} (hpos : (JsNumber.finite 0).less limit = true)

include hpos

theorem resolveLayers_full (layers : List (ContextLayer × List Reference)) {assembly : Assembly}
    (hfull : hasRoom (some limit) assembly = false) :
    resolveLayers (some limit) layers assembly = assembly := by
  induction layers with
  | nil => rfl
  | cons layer later ih =>
      rw [resolveLayers, List.foldl_cons, resolveLayer_full hpos layer.1 layer.2 hfull]
      exact ih

variable {used : Nat} {pieces : List Piece}

theorem length_part {piece : Piece}
    (hstopped : (charBudget limit).fits (used + (charBudget limit).size piece) = false)
    (hwide : isWide limit used = true) :
    ∃ most, CutsAt limit most ∧ used + 100 ≤ most ∧ most < used + piece.text.length ∧
      partOf limit used (some piece) = piece.text.take (most - used) ++ truncationNotice := by
  have hless : limit.less (.finite (used + piece.text.length : Nat)) = true := by
    rw [fits_eq, Bool.not_eq_false'] at hstopped
    exact hstopped
  obtain ⟨most, hmost⟩ := exists_cutsAt hpos hless
  refine ⟨most, hmost, hmost.wide used hwide, (hmost.exceeds _).1 hless, ?_⟩
  rw [partOf, if_pos hwide, hmost.substring]

theorem hasRoom_cut {assembly : Assembly} {stopped : Piece}
    (hstopped : ((charBudget limit).fill assembly.summary.length pieces).2 = some stopped)
    (hwide : isWide limit (assembly.summary.length + (charBudget limit).total ((charBudget
      limit).fill assembly.summary.length pieces).1) = true) :
    hasRoom (some limit) (assembly.add ((charBudget limit).fill assembly.summary.length pieces).1
      (partOf limit (assembly.summary.length + (charBudget limit).total
        ((charBudget limit).fill assembly.summary.length pieces).1)
        ((charBudget limit).fill assembly.summary.length pieces).2)) = false := by
  rcases (charBudget limit).fill_cases assembly.summary.length pieces with
    hall | ⟨before, piece, after, -, hfill, hnot⟩
  · rw [hall] at hstopped
    cases hstopped
  · rw [hfill] at hwide ⊢
    obtain ⟨most, hmost, hroom, hless, hpart⟩ := length_part hpos hnot hwide
    apply hmost.beyond
    have hlength := length_texts limit before
    rw [Assembly.add, hpart, List.length_append, List.length_append, List.length_append,
      List.length_take, length_truncationNotice]
    dsimp only at hroom hless ⊢
    omega

omit hpos in
theorem partOf_fill (hnot : (charBudget limit).cutsShort used pieces = false) :
    partOf limit (used + (charBudget limit).total ((charBudget limit).fill used pieces).1)
      ((charBudget limit).fill used pieces).2 = [] := by
  rw [cutsShort, Bool.and_eq_false_iff] at hnot
  cases hstopped : ((charBudget limit).fill used pieces).2 with
  | none => rfl
  | some piece =>
      rw [hstopped] at hnot
      rcases hnot with hsome | hwide
      · cases hsome
      · exact if_neg (ne_true_of_eq_false hwide)

theorem resolveLayers_eq (layers : List (ContextLayer × List Reference)) (assembly : Assembly) :
    resolveLayers (some limit) layers assembly = assembly.add
        ((charBudget limit).fillLayers assembly.summary.length (pieceLayers layers)).1
        (partOf limit (assembly.summary.length + (charBudget limit).total
          ((charBudget limit).fillLayers assembly.summary.length (pieceLayers layers)).1)
          ((charBudget limit).fillLayers assembly.summary.length (pieceLayers layers)).2) := by
  induction layers generalizing assembly with
  | nil => simp [resolveLayers, pieceLayers, fillLayers, partOf, add_nil]
  | cons layer later ih =>
      rw [resolveLayers, List.foldl_cons, resolveLayer_eq hpos, pieceLayers, List.map_cons]
      by_cases hcut : (charBudget limit).cutsShort assembly.summary.length
          (piecesOf layer.1 layer.2) = true
      · rw [fillLayers_cons_cut hcut]
        apply resolveLayers_full hpos
        obtain ⟨stopped, hstopped⟩ := Option.isSome_iff_exists.1 (Bool.and_eq_true_iff.1 hcut).1
        exact hasRoom_cut hpos hstopped (Bool.and_eq_true_iff.1 hcut).2
      · have hnot := Bool.eq_false_iff.2 hcut
        rw [fillLayers_cons hnot, partOf_fill hnot]
        refine (ih _).trans ?_
        rw [length_add limit, add_add, total_append, ← Nat.add_assoc, pieceLayers]

end Layers

structure ContextInput where
  taskId : String
  task : ContextTask
  loaded : Option ContextManifest := none
  inputFiles : List String := []
  resolve : ContextLayer → Nat → String → Option CodeUnits
  includeDeep : Bool := false

namespace ContextInput

variable (input : ContextInput)

def bundle (limit : JsNumber) : ContextBundle :=
  assembleContext input.taskId input.task input.loaded input.inputFiles input.resolve
    { maxChars := some limit, includeDeep := input.includeDeep }

def manifest : ContextManifest :=
  input.loaded.getD (generateDefaultManifest input.taskId input.inputFiles)

def card : String := taskCardPath input.taskId input.task

/-- The references in the order of their layers, without those that stand for the task card. -/
def layers : List (ContextLayer × List Reference) :=
  [(.seed, (references input.resolve .seed input.manifest.layers.seed).filter
      fun reference => !isTaskCard input.taskId input.task reference.ref),
    (.optional, references input.resolve .optional input.manifest.layers.optional),
    (.deep, if input.includeDeep then references input.resolve .deep input.manifest.layers.deep
      else [])]

def pieces : List (List Piece) := pieceLayers input.layers

def start : Assembly := ⟨taskSection input.task, [input.card]⟩

/-- The sections that the budget takes, and the one of which it takes a part. -/
def filled (limit : JsNumber) : List Piece × Option Piece :=
  (charBudget limit).fillLayers (taskSection input.task).length input.pieces

end ContextInput

/-- The text consists of the task card and of whole sections, the first ones; the next section, or
else the card itself, may be cut, which the notice tells. -/
inductive Assembled (task : CodeUnits) (pieces wholes : List Piece) (summary : CodeUnits) : Prop
  | whole (hfront : wholes <+: pieces) (hsummary : summary = task ++ texts wholes)
  | cut (next : Piece) (length : Nat) (hfront : wholes ++ [next] <+: pieces)
      (hlength : length + 2 < next.text.length)
      (hsummary : summary = task ++ texts wholes ++ next.text.take length ++ truncationNotice)
  | card (length : Nat) (hnone : wholes = []) (hlength : length < task.length)
      (hsummary : summary = task.take length ++ truncationNotice)

/-- The bundle keeps to its limit, and what it includes comes in order; its sources are the card and
the references that are included whole. -/
structure WithinBudget (input : ContextInput) (limit : JsNumber) : Prop where
  total : (input.bundle limit).totalChars = (input.bundle limit).summary.length
  bounded : limit.less (.finite (input.bundle limit).totalChars) = false
  ordered : ∃ wholes, (input.bundle limit).sources = input.card :: wholes.map Piece.ref ∧
    Assembled (taskSection input.task) input.pieces.flatten wholes (input.bundle limit).summary

section Bundle

variable {input : ContextInput} {limit : JsNumber}
  (hpos : (JsNumber.finite 0).less limit = true)

include hpos

theorem resolveLayer_gated (layer : ContextLayer) (references : List Reference)
    (assembly : Assembly) :
    (if hasRoom (some limit) assembly then resolveLayer (some limit) layer references assembly
      else assembly) = resolveLayer (some limit) layer references assembly := by
  split
  · rfl
  · rename_i hfull
    exact (resolveLayer_full hpos layer references (Bool.eq_false_iff.2 hfull)).symm

theorem bundle_eq : (input.bundle limit).summary = enforceBudget (some limit)
        (resolveLayers (some limit) input.layers input.start).summary ∧
      (input.bundle limit).sources =
        (resolveLayers (some limit) input.layers input.start).sources := by
  have hdeep : ∀ assembly, (if input.includeDeep && hasRoom (some limit) assembly then
      resolveLayer (some limit) .deep
        (references input.resolve .deep input.manifest.layers.deep) assembly else assembly) =
      resolveLayer (some limit) .deep (if input.includeDeep then
        references input.resolve .deep input.manifest.layers.deep else []) assembly := by
    intro assembly
    cases input.includeDeep with
    | false => rfl
    | true => exact resolveLayer_gated hpos .deep _ assembly
  have hall : ∀ assembly : Assembly,
      assembly = resolveLayers (some limit) input.layers input.start →
        (enforceBudget (some limit) assembly.summary, assembly.sources) =
          ((input.bundle limit).summary, (input.bundle limit).sources) := by
    rintro assembly rfl
    simp only [resolveLayers, ContextInput.layers, List.foldl_cons, List.foldl_nil]
    rw [← hdeep, ← resolveLayer_gated hpos .optional]
    rfl
  have hboth := Prod.mk.inj (hall _ rfl)
  exact ⟨hboth.1.symm, hboth.2.symm⟩

theorem bundle_filled :
    (input.bundle limit).summary = enforceBudget (some limit) (taskSection input.task ++
        texts (input.filled limit).1 ++ partOf limit ((taskSection input.task).length +
          (charBudget limit).total (input.filled limit).1) (input.filled limit).2) ∧
      (input.bundle limit).sources = input.card :: (input.filled limit).1.map Piece.ref := by
  obtain ⟨hsummary, hsources⟩ := bundle_eq hpos
  rw [hsummary, hsources, resolveLayers_eq hpos]
  exact ⟨rfl, rfl⟩

variable {summary : CodeUnits} {most : Nat}

theorem enforceBudget_fits (hfits : limit.less (.finite summary.length) = false) :
    enforceBudget (some limit) summary = summary := by
  simp only [enforceBudget, budget_of_pos hpos, hfits, Bool.false_eq_true, ↓reduceIte]

theorem enforceBudget_exceeds (hmost : CutsAt limit most) (hexceeds : most < summary.length) :
    enforceBudget (some limit) summary = summary.take (most - 46) ++ truncationNotice := by
  have hless := (hmost.exceeds summary.length).2 hexceeds
  simp only [enforceBudget, budget_of_pos hpos, hless, ↓reduceIte, hmost.substring,
    length_truncationNotice]

theorem bounded_enforceBudget (hlong : 46 ≤ summary.length) :
    limit.less (.finite (enforceBudget (some limit) summary).length) = false ↔
      limit.less (.finite truncationNotice.length) = false := by
  rw [length_truncationNotice]
  by_cases hless : limit.less (.finite summary.length) = true
  · obtain ⟨most, hmost⟩ := exists_cutsAt hpos hless
    have hexceeds := (hmost.exceeds _).1 hless
    rw [enforceBudget_exceeds hpos hmost hexceeds, ← Bool.not_eq_true, ← Bool.not_eq_true,
      hmost.exceeds, hmost.exceeds, List.length_append, List.length_take,
      length_truncationNotice]
    omega
  · have hfits := Bool.eq_false_iff.2 hless
    rw [enforceBudget_fits hpos hfits]
    apply iff_of_true hfits
    exact Bool.eq_false_iff.2 fun hnotice => hless (exceeds_of_le hlong hnotice)

omit hpos in
theorem length_taskSection (task : ContextTask) : 46 < (taskSection task).length := by
  have hfence : (codeUnits "\n\n## Metadata\n```yaml\n").length = 22 := by decide +kernel
  have hhead : (codeUnits "```\n\n## Description\n").length = 20 := by decide +kernel
  have htask : (codeUnits "# Task: ").length = 8 := by decide +kernel
  rw [taskSection]
  simp only [List.length_append, hfence, hhead, htask]
  omega

omit hpos in
theorem fits_filled (hne : (input.filled limit).1 ≠ []) :
    limit.less (.finite (taskSection input.task ++ texts (input.filled limit).1).length) =
      false := by
  have hfits := fits_fillLayers hne
  rw [fits_eq, Bool.not_eq_true'] at hfits
  rw [List.length_append, length_texts limit]
  exact hfits

omit hpos in
theorem take_append_part (front part notice : CodeUnits) (hroom : front.length + 100 ≤ most)
    (hpart : most < front.length + part.length) :
    (front ++ (part.take (most - front.length) ++ notice)).take (most - 46) =
      front ++ part.take (most - 46 - front.length) := by
  rw [List.take_append, List.take_of_length_le (by omega), List.take_append_of_le_length,
    List.take_take, Nat.min_eq_left (by omega)]
  rw [List.length_take]
  omega

theorem holds_of_ordered
    (hordered : (input.filled limit).1 ++ (input.filled limit).2.toList <+: input.pieces.flatten) :
    Assembled (taskSection input.task) input.pieces.flatten (input.filled limit).1
      (input.bundle limit).summary := by
  rw [(bundle_filled hpos).1]
  have hlength := length_texts limit (input.filled limit).1
  cases hcut : (input.filled limit).2 with
  | none =>
      rw [hcut, Option.toList_none, List.append_nil] at hordered
      rw [partOf, List.append_nil]
      by_cases hless : limit.less (.finite (taskSection input.task ++
          texts (input.filled limit).1).length) = true
      · obtain ⟨most, hmost⟩ := exists_cutsAt hpos hless
        have hexceeds := (hmost.exceeds _).1 hless
        have hnone : (input.filled limit).1 = [] := by
          by_contra hne
          exact Bool.eq_false_iff.1 (fits_filled hne) hless
        rw [hnone, texts, List.flatMap_nil, List.append_nil] at hexceeds ⊢
        rw [enforceBudget_exceeds hpos hmost hexceeds]
        exact .card _ rfl (by omega) rfl
      · rw [enforceBudget_fits hpos (Bool.eq_false_iff.2 hless)]
        exact .whole hordered rfl
  | some piece =>
      rw [hcut, Option.toList_some] at hordered
      obtain ⟨hstopped, hwide⟩ := fillLayers_cut hcut
      obtain ⟨most, hmost, hroom, hless, hpart⟩ := length_part hpos hstopped hwide
      obtain ⟨front, hdef⟩ : ∃ front, front = taskSection input.task ++
          texts (input.filled limit).1 := ⟨_, rfl⟩
      have hfront : front.length = (taskSection input.task).length +
          (charBudget limit).total (input.filled limit).1 := by
        rw [hdef, List.length_append, hlength]
      rw [← ContextInput.filled, ← hfront] at hroom hless hpart
      have hexceeds :
          most < (front ++ (piece.text.take (most - front.length) ++ truncationNotice)).length := by
        rw [List.length_append, List.length_append, List.length_take, length_truncationNotice]
        omega
      rw [← hdef, ← hfront, hpart, enforceBudget_exceeds hpos hmost hexceeds,
        take_append_part _ _ _ hroom hless]
      exact .cut piece (most - 46 - front.length) hordered (by omega) (by rw [hdef])

theorem not_holds_of_gapFilled
    (hgap : (charBudget limit).GapFilled (taskSection input.task).length input.pieces)
    {wholes : List Piece}
    (hsources : (input.bundle limit).sources = input.card :: wholes.map Piece.ref)
    (hholds : Assembled (taskSection input.task) input.pieces.flatten wholes
      (input.bundle limit).summary) : False := by
  obtain ⟨before, stopped, after, more, hflatten, hfilled, hmore, hstopped⟩ := hgap.skips
  have hfilled : input.filled limit = (before ++ more, none) := hfilled
  have hne : (input.filled limit).1 ≠ [] := by
    rw [hfilled]
    simp [hmore]
  have hfits := fits_filled hne
  obtain ⟨hsummary, htaken⟩ := bundle_filled hpos
  rw [hfilled] at hsummary htaken hfits
  rw [partOf, List.append_nil, enforceBudget_fits hpos hfits] at hsummary
  have hcount : wholes.length = before.length + more.length := by
    have hrefs := (List.cons.inj (hsources.symm.trans htaken)).2
    simpa using congrArg List.length hrefs
  have hlater : 0 < more.length := List.length_pos_iff.2 hmore
  -- whatever is included whole contains the section that did not fit
  have hlong : wholes <+: input.pieces.flatten → (taskSection input.task).length +
      (charBudget limit).total before + (charBudget limit).size stopped ≤
        (taskSection input.task ++ texts wholes).length := by
    intro hfront
    have hstop : before ++ [stopped] <+: input.pieces.flatten := by
      rw [hflatten]
      exact ⟨after, by simp⟩
    have hlength : (before ++ [stopped]).length ≤ wholes.length := by
      rw [List.length_append, List.length_singleton]
      omega
    obtain ⟨rest, hrest⟩ := List.prefix_of_prefix_length_le hstop hfront hlength
    rw [List.length_append, length_texts limit, ← hrest, total_append, total_append, total_cons,
      total_nil]
    omega
  have hover : ∀ total, (taskSection input.task).length +
      (charBudget limit).total before + (charBudget limit).size stopped ≤ total →
        limit.less (.finite total) = true := by
    intro total hle
    rw [fits_eq, Bool.not_eq_false'] at hstopped
    exact exceeds_of_le hle hstopped
  rw [← hsummary] at hfits
  cases hholds with
  | whole hfront htext =>
      rw [htext, hover _ (hlong hfront)] at hfits
      cases hfits
  | cut next length hfront _ htext =>
      have hle := hlong ((List.prefix_append wholes [next]).trans hfront)
      rw [htext, hover] at hfits
      · cases hfits
      · rw [List.append_assoc, List.length_append]
        omega
  | card _ hnone _ _ =>
      rw [hnone, List.length_nil] at hcount
      omega

end Bundle

/-- The assembler keeps to its budget and to the order of the layers, if the notice is within the
budget and no layer fills the gap that an earlier one left. -/
theorem withinBudget_iff (input : ContextInput) (limit : JsNumber)
    (hpos : (JsNumber.finite 0).less limit = true) : WithinBudget input limit ↔
      limit.less (.finite truncationNotice.length) = false ∧
        ¬(charBudget limit).GapFilled (taskSection input.task).length input.pieces := by
  have hlong : 46 ≤ (taskSection input.task ++ texts (input.filled limit).1 ++
      partOf limit ((taskSection input.task).length +
        (charBudget limit).total (input.filled limit).1) (input.filled limit).2).length := by
    have htask := length_taskSection input.task
    rw [List.append_assoc, List.length_append]
    omega
  have hbounded : limit.less (.finite (input.bundle limit).totalChars) = false ↔
      limit.less (.finite truncationNotice.length) = false := by
    have htotal : (input.bundle limit).totalChars = (input.bundle limit).summary.length := rfl
    rw [htotal, (bundle_filled hpos).1]
    exact bounded_enforceBudget hpos hlong
  constructor
  · rintro ⟨-, hwithin, wholes, hsources, hholds⟩
    exact ⟨hbounded.1 hwithin, fun hgap => not_holds_of_gapFilled hpos hgap hsources hholds⟩
  · rintro ⟨hnotice, hgap⟩
    exact ⟨rfl, hbounded.2 hnotice, _, (bundle_filled hpos).2,
      holds_of_ordered hpos (prefix_of_not_gapFilled hgap)⟩

def longInput : ContextInput where
  taskId := "TASK-2026-01-01-001"
  task := { status := "ready", title := [], frontmatterYaml := [], body := [] }
  loaded := some {
    taskId := "TASK-2026-01-01-001"
    layers := { seed := ["brief"], optional := ["hint"] } }
  resolve := fun layer _ _ =>
    match layer with
    | .seed => some (List.replicate 200 65)
    | _ => some [66]

theorem withinBudget_of_room : WithinBudget longInput (.finite 1000) := by
  apply (withinBudget_iff longInput (.finite 1000) (by decide +kernel)).2
  exact ⟨by decide +kernel, not_gapFilled_of_fits (by decide +kernel)⟩

/-- The hint is included without the brief. -/
theorem gap_filled : ¬∀ input limit, (JsNumber.finite 0).less limit = true →
    WithinBudget input limit := by
  intro hall
  obtain ⟨-, -, wholes, hsources, hholds⟩ := hall longInput (.finite 100) (by decide +kernel)
  have hpieces : longInput.pieces = [([] : List Piece) ++
      ⟨"brief", contentSection .seed "brief" (List.replicate 200 65)⟩ :: [],
      [⟨"hint", contentSection .optional "hint" [66]⟩], []] := by
    decide +kernel
  apply not_holds_of_gapFilled (by decide +kernel) ?_ hsources hholds
  rw [hpieces]
  exact .here (by decide +kernel) (by decide +kernel) List.mem_cons_self rfl (by decide +kernel)

end Aof
