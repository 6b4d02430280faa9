import Aof.Lib.LatestSlot
import Aof.Trace.SessionParser

/-!
# What a session file yields

The calls of a session file and the results that name them, read off the lines one by one, against
what the parser makes of the whole file.  The parser gets through a file without the `null`s that it
would look into, and gives a call the last result with a text that comes before its id is used
again.
-/

namespace Aof

open JsValue (property isTruthy strictEq sameValueZero)
open LatestSlot (Event Slots)

namespace SessionParser

def entryOf (json : JsonLibrary) (line : String) : Option JsValue :=
  if trimmed line = "" then none else json.parse (trimmed line)

def messageOf (role : String) (entry : JsValue) : Option JsValue :=
  let message := field "message" entry
  if strictEq (field "type" entry) (.str "message") ∧ isTruthy message ∧
      strictEq (field "role" message) (.str role) then
    some message
  else none

def contentOf (message : JsValue) : List JsValue :=
  match field "content" message with
  | .arr content => content
  | _ => []

def usable (toolCallId : JsValue) : Option JsValue :=
  if isTruthy toolCallId then some toolCallId else none

/-- The call that an item stands for, if it is a named `toolCall` or `tool_use`. -/
def namedCall (json : JsonLibrary) (opts : ParseSessionOpts) (item : JsValue) :
    Option ToolCallTrace :=
  let contentType := field "type" item
  if strictEq contentType (.str "toolCall") ∨ strictEq contentType (.str "tool_use") then
    (extractToolCall json item contentType opts).join
  else none

def outputOf (message : JsValue) : Option String :=
  let outputParts := (contentOf message).flatMap fun item => (outputPart item).getD []
  if outputParts = [] then none else some ("\n".intercalate outputParts)

section

variable (json : JsonLibrary) (opts : ParseSessionOpts)

def callsOn (line : String) : List ToolCallTrace :=
  match (entryOf json line).bind (messageOf "assistant") with
  | some message => (contentOf message).filterMap (namedCall json opts)
  | none => []

def resultOn (line : String) : Option (JsValue × Option String) :=
  match (entryOf json line).bind (messageOf "toolResult") with
  | some message =>
      (usable (field "toolCallId" message)).map fun toolCallId => (toolCallId, outputOf message)
  | none => none

/-- The calls and the results on a line as events of the slots of the calls. -/
def eventsOn (line : String) : List (Event JsValue String) :=
  (callsOn json opts line).map (fun call => .opens (usable call.toolCallId)) ++
    (resultOn json line).toList.map fun result => .delivers result.1 result.2

/-- No `null` is looked into: not on the line, not in the content of an assistant message, and in
debug mode not in the content of a result whose call is on an earlier line. -/
structure Readable (earlier : List String) (line : String) : Prop where
  entry : ∀ entry, entryOf json line = some entry → isNullish entry = false
  assistant : ∀ entry ∈ entryOf json line, ∀ message ∈ messageOf "assistant" entry,
    ∀ item ∈ contentOf message, isNullish item = false
  toolResult : opts.debug = true → ∀ entry ∈ entryOf json line,
    ∀ message ∈ messageOf "toolResult" entry, ∀ toolCallId ∈ usable (field "toolCallId" message),
      (∃ call ∈ earlier.flatMap (callsOn json opts),
        ∃ id ∈ usable call.toolCallId, sameValueZero id toolCallId = true) →
      ∀ item ∈ contentOf message, isNullish item = false

def lastResult (lines : List String) (call : ToolCallTrace) : Option String :=
  (usable call.toolCallId).bind fun toolCallId =>
    LatestSlot.lastDelivered sameValueZero toolCallId (lines.flatMap (eventsOn json opts))

structure Faithful (lines : List String) (result : ParsedSession) : Prop where
  counted : result.totalEntriesParsed + result.parseErrors =
    (lines.filter fun line => trimmed line ≠ "").length
  listed : result.toolCalls.map (fun call => { call with output := none }) =
    lines.flatMap (callsOn json opts)
  answered : opts.debug = true → result.toolCalls.map (·.output) =
    (lines.flatMap (callsOn json opts)).map (lastResult json opts lines)

end

namespace ParserState

def slots (state : ParserState) : Slots JsValue String where
  values := state.result.toolCalls.map (·.output)
  owners := state.toolCallIndex

def counted (state : ParserState) : Nat :=
  state.result.totalEntriesParsed + state.result.parseErrors

theorem owner_slots (state : ParserState) (toolCallId : JsValue) :
    state.slots.owner sameValueZero toolCallId = state.indexOf toolCallId := rfl

structure Adds (state : ParserState) (calls : List ToolCallTrace) (state' : ParserState) :
    Prop where
  toolCalls : state'.result.toolCalls = state.result.toolCalls ++ calls
  slots : state'.slots =
    (calls.map fun call => Event.opens (usable call.toolCallId)).foldl
      (Slots.step sameValueZero) state.slots
  counted : state'.counted = state.counted

theorem Adds.refl (state : ParserState) : state.Adds [] state :=
  ⟨(List.append_nil _).symm, rfl, rfl⟩

theorem Adds.trans {state state' state'' : ParserState} {calls calls' : List ToolCallTrace}
    (hfirst : state.Adds calls state') (hlater : state'.Adds calls' state'') :
    state.Adds (calls ++ calls') state'' := by
  refine ⟨?_, ?_, hlater.counted.trans hfirst.counted⟩
  · rw [hlater.toolCalls, hfirst.toolCalls, List.append_assoc]
  · rw [hlater.slots, hfirst.slots, List.map_append, List.foldl_append]

theorem adds_addToolCall (state : ParserState) {call : ToolCallTrace}
    (houtput : call.output = none) : state.Adds [call] (state.addToolCall call) := by
  refine ⟨rfl, ?_, rfl⟩
  unfold addToolCall slots usable
  by_cases hid : isTruthy call.toolCallId = true
  · simp [Slots.step, hid, houtput]
  · simp [Slots.step, hid, houtput]

theorem adds_addReasoning (state : ParserState) (thinkingText : JsValue) :
    state.Adds [] (state.addReasoning thinkingText) :=
  ⟨(List.append_nil _).symm, rfl, rfl⟩

end ParserState

section

variable {json : JsonLibrary} {opts : ParseSessionOpts}

variable {value item entry message toolCallId : JsValue} {role line : String} {state : ParserState}
  {lines : List String}

theorem read_eq (hvalue : isNullish value = false) (key : String) :
    read key value = some (field key value) := by
  rw [read, hvalue]
  rfl

theorem read_nullish (hvalue : isNullish value = true) (key : String) : read key value = none := by
  rw [read, hvalue]
  rfl

theorem isNullish_of_isTruthy (hvalue : isTruthy value = true) : isNullish value = false := by
  cases value with
  | undefined => cases hvalue
  | null => cases hvalue
  | _ => rfl

variable (json opts) in
theorem extractToolCall_spec (hitem : isNullish item = false) (contentType : JsValue) :
    ∃ toolCall, extractToolCall json item contentType opts = some toolCall ∧
      ∀ call ∈ toolCall, call.output = none := by
  unfold extractToolCall
  simp only [read_eq hitem, Option.bind_eq_bind, Option.bind_some]
  split
  · exact ⟨none, rfl, by simp⟩
  · split <;> exact ⟨_, rfl, by simp⟩

theorem processItem_nullish (hitem : isNullish item = true) (state : ParserState) :
    processItem json opts state item = none := by
  rw [processItem, read_nullish hitem]
  rfl

variable (json opts) in
theorem processItem_spec (hitem : isNullish item = false) (state : ParserState) :
    ∃ state', processItem json opts state item = some state' ∧
      state.Adds (namedCall json opts item).toList state' := by
  obtain ⟨toolCall, hextract, houtput⟩ :=
    extractToolCall_spec json opts hitem (field "type" item)
  unfold processItem namedCall
  simp only [read_eq hitem, Option.bind_eq_bind, Option.bind_some, hextract]
  split
  · refine ⟨_, rfl, ?_⟩
    cases toolCall with
    | none => exact .refl state
    | some call => exact state.adds_addToolCall (houtput call rfl)
  · split
    · refine ⟨_, rfl, ?_⟩
      split
      · exact state.adds_addReasoning _
      · exact .refl state
    · exact ⟨state, rfl, .refl state⟩

variable (json opts) in
theorem processItems_spec (content : List JsValue) (state : ParserState) :
    ((∀ item ∈ content, isNullish item = false) →
      ∃ state', content.foldlM (processItem json opts) state = some state' ∧
        state.Adds (content.filterMap (namedCall json opts)) state') ∧
    (¬(∀ item ∈ content, isNullish item = false) →
      content.foldlM (processItem json opts) state = none) := by
  induction content generalizing state with
  | nil => exact ⟨fun _ => ⟨state, rfl, .refl state⟩, fun hnot => absurd (by simp) hnot⟩
  | cons item content ih =>
      rw [List.foldlM_cons, List.forall_mem_cons]
      cases hitem : isNullish item with
      | true =>
          refine ⟨fun hall => absurd hall.1 (by decide), fun _ => ?_⟩
          rw [processItem_nullish hitem]
          rfl
      | false =>
          obtain ⟨state₁, hprocess, hadds⟩ :=
            processItem_spec json opts hitem state
          rw [hprocess]
          constructor
          · rintro ⟨-, hall⟩
            obtain ⟨state', hrest, hadds'⟩ := (ih state₁).1 hall
            refine ⟨state', hrest, ?_⟩
            have htotal := hadds.trans hadds'
            cases hcall : namedCall json opts item with
            | none => rw [hcall] at htotal; rwa [List.filterMap_cons_none hcall]
            | some call => rw [hcall] at htotal; rwa [List.filterMap_cons_some hcall]
          · intro hnot
            exact (ih state₁).2 fun hall => hnot ⟨rfl, hall⟩

theorem strictEq_str_iff {text : String} :
    strictEq value (.str text) = true ↔ value = .str text := by
  cases value <;> simp [strictEq]

theorem messageOf_eq_some_iff : messageOf role entry = some message ↔
      field "type" entry = .str "message" ∧ field "message" entry = message ∧
        isTruthy message = true ∧ field "role" message = .str role := by
  unfold messageOf
  simp only [strictEq_str_iff, Option.ite_none_right_eq_some, Option.some.injEq]
  constructor
  · rintro ⟨⟨htype, htruthy, hrole⟩, rfl⟩
    exact ⟨htype, rfl, htruthy, hrole⟩
  · rintro ⟨htype, rfl, htruthy, hrole⟩
    exact ⟨⟨htype, htruthy, hrole⟩, rfl⟩

theorem messageOf_ne {other : String} (hne : role ≠ other)
    (hmessage : messageOf role entry = some message) : messageOf other entry = none := by
  rw [Option.eq_none_iff_forall_ne_some]
  intro result hresult
  obtain ⟨-, rfl, -, hrole⟩ := messageOf_eq_some_iff.mp hmessage
  obtain ⟨-, rfl, -, hrole'⟩ := messageOf_eq_some_iff.mp hresult
  rw [hrole] at hrole'
  exact hne (JsValue.str.inj hrole')

section

variable {entry message : JsValue} (hentry : isNullish entry = false) (state : ParserState)

include hentry

theorem processEntry_assistant (hmessage : messageOf "assistant" entry = some message) :
    processEntry json opts state entry =
      (contentOf message).foldlM (processItem json opts) state := by
  obtain ⟨htype, hfield, htruthy, hrole⟩ := messageOf_eq_some_iff.mp hmessage
  have hnullish := isNullish_of_isTruthy htruthy
  simp only [processEntry, processMessage, processAssistantMessage, read_eq hentry, htype, hfield,
    read_eq hnullish, hrole, htruthy, Option.bind_eq_bind, Option.bind_some, strictEq, contentOf]
  cases field "content" message <;> rfl

theorem processEntry_toolResult (hmessage : messageOf "toolResult" entry = some message) :
    processEntry json opts state entry = processToolResult opts state message := by
  obtain ⟨htype, hfield, htruthy, hrole⟩ := messageOf_eq_some_iff.mp hmessage
  have hnullish := isNullish_of_isTruthy htruthy
  simp only [processEntry, processMessage, read_eq hentry, htype, hfield,
    read_eq hnullish, hrole, htruthy, Option.bind_eq_bind, Option.bind_some, strictEq]
  rfl

variable (json opts) in
theorem processEntry_other (hassistant : messageOf "assistant" entry = none)
    (hresult : messageOf "toolResult" entry = none) :
    ∃ state', processEntry json opts state entry = some state' ∧ state.Adds [] state' := by
  unfold processEntry
  simp only [read_eq hentry, Option.bind_eq_bind, Option.bind_some]
  split
  · exact ⟨state, rfl, .refl state⟩
  · exact ⟨state, rfl, .refl state⟩
  · exact ⟨_, rfl, (List.append_nil _).symm, rfl, rfl⟩
  · exact ⟨_, rfl, (List.append_nil _).symm, rfl, rfl⟩
  · rename_i htype
    simp only [processMessage, read_eq hentry, Option.bind_eq_bind, Option.bind_some]
    split
    · exact ⟨state, rfl, .refl state⟩
    · rename_i hmessage
      have htruthy : isTruthy (field "message" entry) = true := by simpa using hmessage
      simp only [read_eq (isNullish_of_isTruthy htruthy), Option.bind_some]
      split
      · rename_i hrole
        rw [strictEq_str_iff] at hrole
        rw [messageOf_eq_some_iff.mpr ⟨htype, rfl, htruthy, hrole⟩] at hassistant
        cases hassistant
      · split
        · rename_i hrole
          rw [strictEq_str_iff] at hrole
          rw [messageOf_eq_some_iff.mpr ⟨htype, rfl, htruthy, hrole⟩] at hresult
          cases hresult
        · exact ⟨state, rfl, .refl state⟩
  · exact ⟨_, rfl, (List.append_nil _).symm, rfl, rfl⟩

end

theorem outputPart_nullish (hitem : isNullish item = true) : outputPart item = none := by
  rw [outputPart, read_nullish hitem]
  rfl

theorem outputPart_isSome (hitem : isNullish item = false) :
    outputPart item = some ((outputPart item).getD []) := by
  have hsome : ∃ parts, outputPart item = some parts := by
    unfold outputPart
    simp only [read_eq hitem, Option.bind_eq_bind, Option.bind_some]
    split
    · split <;> exact ⟨_, rfl⟩
    · exact ⟨_, rfl⟩
  obtain ⟨parts, hparts⟩ := hsome
  rw [hparts]
  rfl

theorem outputParts_spec (content : List JsValue) : ((∀ item ∈ content, isNullish item = false) →
      content.mapM outputPart = some (content.map fun item => (outputPart item).getD [])) ∧
    (¬(∀ item ∈ content, isNullish item = false) → content.mapM outputPart = none) := by
  induction content with
  | nil => exact ⟨fun _ => rfl, fun hnot => absurd (by simp) hnot⟩
  | cons item content ih =>
      rw [List.forall_mem_cons, List.mapM_cons]
      cases hitem : isNullish item with
      | true =>
          refine ⟨fun hall => absurd hall.1 (by decide), fun _ => ?_⟩
          rw [outputPart_nullish hitem]
          rfl
      | false =>
          rw [outputPart_isSome hitem]
          constructor
          · rintro ⟨-, hall⟩
            rw [ih.1 hall]
            simp
          · intro hnot
            rw [ih.2 fun hall => hnot ⟨rfl, hall⟩]
            rfl

theorem setOutput_spec (state : ParserState) (idx : Nat) (output : String) :
    (state.setOutput idx output).result.toolCalls.map (fun call => { call with output := none }) =
        state.result.toolCalls.map (fun call => { call with output := none }) ∧
      (state.setOutput idx output).result.toolCalls.map (·.output) =
        (state.result.toolCalls.map (·.output)).set idx (some output) := by
  unfold ParserState.setOutput
  dsimp only
  generalize state.result.toolCalls = toolCalls
  induction toolCalls generalizing idx with
  | nil => simp
  | cons call toolCalls ih =>
      cases idx with
      | zero => exact ⟨rfl, rfl⟩
      | succ idx => exact ⟨congrArg (_ :: ·) (ih idx).1, congrArg (_ :: ·) (ih idx).2⟩

theorem contentOf_eq (message : JsValue) : field "content" message = .arr (contentOf message) ∨
      contentOf message = [] ∧ ∀ content, field "content" message ≠ .arr content := by
  unfold contentOf
  cases field "content" message <;> simp

/-- What happens to the calls and the counts when a result is delivered. -/
structure Delivers (toolCallId : JsValue) (output : Option String) (state state' : ParserState) :
    Prop where
  toolCalls : state'.result.toolCalls.map (fun call => { call with output := none }) =
    state.result.toolCalls.map (fun call => { call with output := none })
  slots : state'.slots = state.slots.step sameValueZero (.delivers toolCallId output)
  counted : state'.counted = state.counted

theorem delivers_unknown (hindex : state.indexOf toolCallId = none) (output : Option String) :
    Delivers toolCallId output state state :=
  ⟨rfl, (LatestSlot.step_delivers_unknown (state.owner_slots _ ▸ hindex) output).symm, rfl⟩

theorem delivers_none (toolCallId : JsValue) (state : ParserState) :
    Delivers toolCallId none state state :=
  ⟨rfl, (LatestSlot.step_delivers_none _ _).symm, rfl⟩

theorem delivers_setOutput {idx : Nat} (hindex : state.indexOf toolCallId = some idx)
    (output : String) : Delivers toolCallId (some output) state (state.setOutput idx output) := by
  obtain ⟨htoolCalls, hvalues⟩ := setOutput_spec state idx output
  refine ⟨htoolCalls, ?_, rfl⟩
  have hslots : (state.setOutput idx output).slots =
      { state.slots with values := state.slots.values.set idx (some output) } :=
    congrArg (Slots.mk · state.toolCallIndex) hvalues
  rw [hslots, LatestSlot.step_delivers_some (state.owner_slots _ ▸ hindex)]

theorem processToolResult_spec (hmessage : isNullish message = false) (hdebug : opts.debug = true)
    (state : ParserState) (hid : usable (field "toolCallId" message) = some toolCallId) :
    ((state.indexOf toolCallId ≠ none → ∀ item ∈ contentOf message, isNullish item = false) →
      ∃ state', processToolResult opts state message = some state' ∧
        Delivers toolCallId (outputOf message) state state') ∧
    (¬(state.indexOf toolCallId ≠ none → ∀ item ∈ contentOf message, isNullish item = false) →
      processToolResult opts state message = none) := by
  have hfield : field "toolCallId" message = toolCallId ∧
      isTruthy (field "toolCallId" message) = true := by
    unfold usable at hid
    split at hid
    · exact ⟨Option.some.inj hid, ‹_›⟩
    · cases hid
  obtain ⟨rfl, htruthy⟩ := hfield
  unfold processToolResult
  simp only [hdebug, read_eq hmessage, htruthy, Option.bind_eq_bind, Option.bind_some,
    Bool.not_true, Bool.false_eq_true, if_false]
  cases hindex : state.indexOf (field "toolCallId" message) with
  | none =>
      refine ⟨fun _ => ⟨state, rfl, delivers_unknown hindex _⟩, fun hnot => ?_⟩
      exact absurd (fun hne => absurd rfl hne) hnot
  | some idx =>
      obtain ⟨hparts, hthrows⟩ := outputParts_spec (contentOf message)
      rcases contentOf_eq message with harr | ⟨hnil, hnot⟩
      · simp only [harr]
        constructor
        · intro hall
          have houtput : outputOf message = if ((contentOf message).map fun item =>
                (outputPart item).getD []).flatten = [] then none
              else some ("\n".intercalate ((contentOf message).map fun item =>
                (outputPart item).getD []).flatten) := by
            rw [outputOf, List.flatMap_def]
          rw [hparts (hall (by simp)), houtput]
          simp only [Option.bind_some]
          split
          · exact ⟨state, rfl, delivers_none _ state⟩
          · exact ⟨_, rfl, delivers_setOutput hindex _⟩
        · intro hnot
          have hnull : ¬∀ item ∈ contentOf message, isNullish item = false := by
            intro hall
            exact hnot fun _ => hall
          rw [hthrows hnull]
          rfl
      · have houtput : outputOf message = none := by
          rw [outputOf, hnil]
          rfl
        rw [houtput, hnil]
        refine ⟨fun _ => ⟨state, ?_, delivers_none _ state⟩, fun hall => ?_⟩
        · cases hcontent : field "content" message with
          | arr content => exact absurd hcontent (hnot content)
          | _ => rfl
        · exact absurd (fun _ => by simp) hall

structure Reached (json : JsonLibrary) (opts : ParseSessionOpts) (lines : List String)
    (state : ParserState) : Prop where
  toolCalls : state.result.toolCalls.map (fun call => { call with output := none }) =
    lines.flatMap (callsOn json opts)
  slots : opts.debug = true →
    state.slots = LatestSlot.run sameValueZero (lines.flatMap (eventsOn json opts))
  counted : state.counted = (lines.filter fun line => trimmed line ≠ "").length

theorem namedCall_output {call : ToolCallTrace} (hcall : namedCall json opts item = some call) :
    { call with output := none } = call := by
  have houtput : call.output = none := by
    unfold namedCall at hcall
    dsimp only at hcall
    split at hcall
    · cases hitem : isNullish item with
      | true =>
          rw [extractToolCall, read_nullish hitem] at hcall
          cases hcall
      | false =>
          obtain ⟨toolCall, hextract, houtput⟩ :=
            extractToolCall_spec json opts hitem (field "type" item)
          rw [hextract] at hcall
          exact houtput call hcall
    · cases hcall
  rw [← houtput]

theorem callsOn_output (line : String) :
    (callsOn json opts line).map (fun call => { call with output := none }) =
      callsOn json opts line := by
  unfold callsOn
  split
  · conv_rhs => rw [← List.map_id (List.filterMap _ _)]
    apply List.map_congr_left
    intro call hcall
    obtain ⟨item, -, hnamed⟩ := List.mem_filterMap.mp hcall
    exact namedCall_output hnamed
  · rfl

theorem keysOf_events (lines : List String) :
    LatestSlot.keysOf (lines.flatMap (eventsOn json opts)) =
      (lines.flatMap (callsOn json opts)).map fun call => usable call.toolCallId := by
  have hopens : ∀ calls : List ToolCallTrace, @LatestSlot.keysOf _ String
      (calls.map fun call => .opens (usable call.toolCallId)) =
        calls.map fun call => usable call.toolCallId := by
    intro calls
    induction calls with
    | nil => rfl
    | cons call calls ih => exact congrArg (usable call.toolCallId :: ·) ih
  induction lines with
  | nil => rfl
  | cons line lines ih =>
      rw [List.flatMap_cons, LatestSlot.keysOf_append, ih, List.flatMap_cons, List.map_append,
        eventsOn, LatestSlot.keysOf_append, hopens]
      cases resultOn json line with
      | none => simp [LatestSlot.keysOf]
      | some result => simp [LatestSlot.keysOf]

theorem eq_of_sameValueZero {a b : JsValue} (hsame : sameValueZero a b = true) : a = b := by
  cases a <;> cases b <;> simp_all [sameValueZero, strictEq]

theorem indexOf_ne_none_iff (hreached : Reached json opts lines state)
    (hdebug : opts.debug = true) (toolCallId : JsValue) : state.indexOf toolCallId ≠ none ↔
      ∃ call ∈ lines.flatMap (callsOn json opts),
        ∃ id ∈ usable call.toolCallId, sameValueZero id toolCallId = true := by
  have hrun := (LatestSlot.run_eq eq_of_sameValueZero (lines.flatMap (eventsOn json opts))).2
  rw [← state.owner_slots, hreached.slots hdebug, hrun, ← Option.isSome_iff_ne_none,
    LatestSlot.latest_isSome_iff, keysOf_events]
  constructor
  · rintro ⟨id, hid, hsame⟩
    obtain ⟨call, hcall, hkey⟩ := List.mem_map.mp hid
    exact ⟨call, hcall, id, hkey, hsame⟩
  · rintro ⟨call, hcall, id, hkey, hsame⟩
    exact ⟨id, List.mem_map.mpr ⟨call, hcall, hkey⟩, hsame⟩

theorem Reached.snoc {state' : ParserState} (hreached : Reached json opts lines state)
    (htoolCalls : state'.result.toolCalls.map (fun call => { call with output := none }) =
      state.result.toolCalls.map (fun call => { call with output := none }) ++ callsOn json opts line)
    (hslots : opts.debug = true → state'.slots =
      (eventsOn json opts line).foldl (Slots.step sameValueZero) state.slots)
    (hcounted : state'.counted = state.counted + if trimmed line = "" then 0 else 1) :
    Reached json opts (lines ++ [line]) state' := by
  refine ⟨?_, fun hdebug => ?_, ?_⟩
  · rw [htoolCalls, hreached.toolCalls, List.flatMap_append, List.flatMap_singleton]
  · rw [hslots hdebug, hreached.slots hdebug, List.flatMap_append, List.flatMap_singleton,
      LatestSlot.run, LatestSlot.run, List.foldl_append]
  · rw [hcounted, hreached.counted, List.filter_append, List.length_append]
    by_cases hblank : trimmed line = "" <;> simp [hblank]

section

variable {lines : List String} {state : ParserState} (hreached : Reached json opts lines state)
  {line : String}

def counting (state : ParserState) : ParserState :=
  { state with result := { state.result with
      totalEntriesParsed := state.result.totalEntriesParsed + 1 } }

theorem counted_counting (state : ParserState) : (counting state).counted = state.counted + 1 := by
  exact Nat.add_right_comm _ 1 _

variable {entry message : JsValue}

variable (opts state) in
theorem onLine_entry (hline : entryOf json line = some entry) : trimmed line ≠ "" ∧
      onLine json opts state line = processEntry json opts (counting state) entry := by
  unfold entryOf at hline
  split at hline
  · cases hline
  · rename_i hblank
    refine ⟨hblank, ?_⟩
    rw [onLine, if_neg hblank, hline]
    rfl

include hreached

theorem onLine_none (hline : entryOf json line = none) :
    ∃ state', onLine json opts state line = some state' ∧
      Reached json opts (lines ++ [line]) state' := by
  have hcalls : callsOn json opts line = [] := by rw [callsOn, hline]; rfl
  have hevents : eventsOn json opts line = [] := by rw [eventsOn, hcalls, resultOn, hline]; rfl
  unfold onLine
  by_cases hblank : trimmed line = ""
  · rw [if_pos hblank]
    refine ⟨state, rfl, hreached.snoc ?_ (fun _ => ?_) ?_⟩
    · rw [hcalls, List.append_nil]
    · rw [hevents]
      rfl
    · rw [if_pos hblank]
      rfl
  · rw [entryOf, if_neg hblank] at hline
    rw [if_neg hblank, hline]
    refine ⟨_, rfl, hreached.snoc ?_ (fun _ => ?_) ?_⟩
    · rw [hcalls, List.append_nil]
    · rw [hevents]
      rfl
    · rw [if_neg hblank]
      rfl

theorem reached_adds (hblank : trimmed line ≠ "") {state' : ParserState}
    (hresult : resultOn json line = none)
    (hadds : (counting state).Adds (callsOn json opts line) state') :
    Reached json opts (lines ++ [line]) state' := by
  refine hreached.snoc ?_ (fun _ => ?_) ?_
  · rw [hadds.toolCalls, List.map_append, callsOn_output]
    rfl
  · rw [hadds.slots, eventsOn, hresult]
    exact congrArg (List.foldl _ _) (List.append_nil _).symm
  · rw [hadds.counted, counted_counting, if_neg hblank]

theorem onLine_assistant (hline : entryOf json line = some entry)
    (hentry : isNullish entry = false) (hmessage : messageOf "assistant" entry = some message) :
    ((∀ item ∈ contentOf message, isNullish item = false) →
      ∃ state', onLine json opts state line = some state' ∧
        Reached json opts (lines ++ [line]) state') ∧
    (¬(∀ item ∈ contentOf message, isNullish item = false) →
      onLine json opts state line = none) := by
  obtain ⟨hblank, honLine⟩ := onLine_entry opts state hline
  have hcalls : callsOn json opts line =
      (contentOf message).filterMap (namedCall json opts) := by
    rw [callsOn, hline, Option.bind_some, hmessage]
  have hother : messageOf "toolResult" entry = none := messageOf_ne (by decide) hmessage
  have hresult : resultOn json line = none := by
    rw [resultOn, hline, Option.bind_some, hother]
  rw [honLine, processEntry_assistant hentry _ hmessage]
  obtain ⟨hgood, hbad⟩ :=
    processItems_spec json opts (contentOf message) (counting state)
  refine ⟨fun hall => ?_, hbad⟩
  obtain ⟨state', hprocess, hadds⟩ := hgood hall
  rw [← hcalls] at hadds
  exact ⟨state', hprocess, reached_adds hreached hblank hresult hadds⟩

theorem onLine_toolResult (hline : entryOf json line = some entry)
    (hentry : isNullish entry = false) (hmessage : messageOf "toolResult" entry = some message)
    (hother : messageOf "assistant" entry = none) :
    ((opts.debug = true → ∀ toolCallId ∈ usable (field "toolCallId" message),
        state.indexOf toolCallId ≠ none → ∀ item ∈ contentOf message, isNullish item = false) →
      ∃ state', onLine json opts state line = some state' ∧
        Reached json opts (lines ++ [line]) state') ∧
    (¬(opts.debug = true → ∀ toolCallId ∈ usable (field "toolCallId" message),
        state.indexOf toolCallId ≠ none → ∀ item ∈ contentOf message, isNullish item = false) →
      onLine json opts state line = none) := by
  obtain ⟨hblank, honLine⟩ := onLine_entry opts state hline
  have hnullish := isNullish_of_isTruthy (messageOf_eq_some_iff.mp hmessage).2.2.1
  have hcalls : callsOn json opts line = [] := by
    rw [callsOn, hline, Option.bind_some, hother]
  have hresult : resultOn json line = (usable (field "toolCallId" message)).map
      fun toolCallId => (toolCallId, outputOf message) := by
    rw [resultOn, hline, Option.bind_some, hmessage]
  rw [honLine, processEntry_toolResult hentry _ hmessage]
  by_cases hdebug : opts.debug = true
  · cases hid : usable (field "toolCallId" message) with
    | none =>
        rw [hid] at hresult
        have hfalsy : isTruthy (field "toolCallId" message) = false := by
          simpa [usable] using hid
        have hprocess : processToolResult opts (counting state) message =
            some (counting state) := by
          simp [processToolResult, hdebug, read_eq hnullish, hfalsy]
        refine ⟨fun _ => ⟨_, hprocess, ?_⟩, fun hnot => ?_⟩
        · apply reached_adds hreached hblank hresult
          rw [hcalls]
          exact .refl _
        · exact absurd (fun _ toolCallId htoolCallId => by cases htoolCallId) hnot
    | some toolCallId =>
        rw [hid] at hresult
        obtain ⟨hgood, hbad⟩ := processToolResult_spec hnullish hdebug (counting state) hid
        constructor
        · intro hall
          obtain ⟨state', hprocess, hdelivers⟩ := hgood (hall hdebug toolCallId rfl)
          refine ⟨state', hprocess, hreached.snoc ?_ (fun _ => ?_) ?_⟩
          · rw [hdelivers.toolCalls, hcalls, List.append_nil]
            rfl
          · rw [hdelivers.slots, eventsOn, hcalls, hresult]
            rfl
          · rw [hdelivers.counted, counted_counting, if_neg hblank]
        · intro hnot
          apply hbad
          intro hall
          apply hnot
          intro _ other hother
          rw [← Option.some.inj hother]
          exact hall
  · have hprocess : processToolResult opts (counting state) message = some (counting state) := by
      simp [processToolResult, hdebug]
    refine ⟨fun _ => ⟨_, hprocess, hreached.snoc ?_ (fun hdebug' => ?_) ?_⟩, fun hnot => ?_⟩
    · rw [hcalls, List.append_nil]
      rfl
    · exact absurd hdebug' hdebug
    · rw [counted_counting, if_neg hblank]
    · exact absurd (fun hdebug' => absurd hdebug' hdebug) hnot

omit hreached in
theorem readable_of_none (hline : entryOf json line = none) : Readable json opts lines line := by
  refine ⟨?_, ?_, ?_⟩
  · intro entry hentry
    rw [hline] at hentry
    cases hentry
  · intro entry hentry
    rw [hline] at hentry
    cases hentry
  · intro _ entry hentry
    rw [hline] at hentry
    cases hentry

theorem readable_iff (hline : entryOf json line = some entry) :
    Readable json opts lines line ↔ isNullish entry = false ∧
      (∀ message ∈ messageOf "assistant" entry, ∀ item ∈ contentOf message,
        isNullish item = false) ∧ ∀ message ∈ messageOf "toolResult" entry, opts.debug = true →
        ∀ toolCallId ∈ usable (field "toolCallId" message),
          state.indexOf toolCallId ≠ none → ∀ item ∈ contentOf message, isNullish item = false := by
  constructor
  · intro hreadable
    refine ⟨hreadable.entry entry hline, hreadable.assistant entry hline, ?_⟩
    intro message hmessage hdebug toolCallId hid hindex
    apply hreadable.toolResult hdebug entry hline message hmessage toolCallId hid
    exact (indexOf_ne_none_iff hreached hdebug toolCallId).mp hindex
  · rintro ⟨hentry, hassistant, hresult⟩
    refine ⟨fun other hother => ?_, fun other hother => ?_, fun hdebug other hother => ?_⟩
    · obtain rfl := Option.some.inj (hline.symm.trans hother)
      exact hentry
    · obtain rfl := Option.some.inj (hline.symm.trans hother)
      exact hassistant
    · obtain rfl := Option.some.inj (hline.symm.trans hother)
      intro message hmessage toolCallId hid hknown
      apply hresult message hmessage hdebug toolCallId hid
      exact (indexOf_ne_none_iff hreached hdebug toolCallId).mpr hknown

variable (line) in
theorem onLine_spec : (Readable json opts lines line →
      ∃ state', onLine json opts state line = some state' ∧
        Reached json opts (lines ++ [line]) state') ∧
    (¬Readable json opts lines line → onLine json opts state line = none) := by
  cases hline : entryOf json line with
  | none =>
      exact ⟨fun _ => onLine_none hreached hline, fun hnot => absurd (readable_of_none hline) hnot⟩
  | some entry =>
      rw [readable_iff hreached hline]
      cases hentry : isNullish entry with
      | true =>
          refine ⟨fun hreadable => absurd hreadable.1 (by decide), fun _ => ?_⟩
          rw [(onLine_entry _ _ hline).2, processEntry, read_nullish hentry]
          rfl
      | false =>
          cases hassistant : messageOf "assistant" entry with
          | some message =>
              have hline' := onLine_assistant hreached hline hentry hassistant
              have hnone : messageOf "toolResult" entry = none :=
                messageOf_ne (by decide) hassistant
              simpa only [hnone, Option.mem_some_iff, forall_eq', Option.not_mem_none,
                false_imp_iff, implies_true, and_true, true_and] using hline'
          | none =>
              cases hresult : messageOf "toolResult" entry with
              | some message =>
                  have hline' := onLine_toolResult hreached hline hentry hresult hassistant
                  simpa only [Option.mem_some_iff, forall_eq', Option.not_mem_none,
                    false_imp_iff, implies_true, true_and] using hline'
              | none =>
                  refine ⟨fun _ => ?_, fun hnot => absurd (by simp) hnot⟩
                  obtain ⟨hblank, honLine⟩ :=
                    onLine_entry opts state hline
                  obtain ⟨state', hprocess, hadds⟩ := processEntry_other json opts
                    hentry (counting state) hassistant hresult
                  have hcalls : callsOn json opts line = [] := by
                    rw [callsOn, hline, Option.bind_some, hassistant]
                  have hnone : resultOn json line = none := by
                    rw [resultOn, hline, Option.bind_some, hresult]
                  rw [← hcalls] at hadds
                  exact ⟨state', honLine.trans hprocess,
                    reached_adds hreached hblank hnone hadds⟩

end

variable (json opts) in
def AllReadable (lines : List String) : Prop :=
  ∀ before line after, lines = before ++ line :: after → Readable json opts before line

theorem allReadable_append_singleton : AllReadable json opts (lines ++ [line]) ↔
      AllReadable json opts lines ∧ Readable json opts lines line := by
  constructor
  · intro hall
    refine ⟨fun before other after hsplit => ?_, hall lines line [] rfl⟩
    apply hall before other (after ++ [line])
    rw [hsplit, List.append_assoc, List.cons_append]
  · rintro ⟨hall, hline⟩ before other after hsplit
    cases after using List.reverseRecOn with
    | nil =>
        obtain ⟨rfl, hlast⟩ := List.append_inj' hsplit rfl
        obtain rfl := List.singleton_inj.mp hlast
        exact hline
    | append_singleton after last =>
        rw [← List.cons_append, ← List.append_assoc] at hsplit
        exact hall before other after (List.append_inj' hsplit rfl).1

variable (json opts) in
theorem onLines_spec (lines : List String) : (AllReadable json opts lines →
      ∃ state, lines.foldlM (onLine json opts) {} = some state ∧ Reached json opts lines state) ∧
    (¬AllReadable json opts lines → lines.foldlM (onLine json opts) {} = none) := by
  induction lines using List.reverseRecOn with
  | nil =>
      refine ⟨fun _ => ⟨{}, rfl, rfl, fun _ => rfl, rfl⟩, fun hnot => ?_⟩
      exact absurd (fun before line after hsplit => absurd hsplit (by simp)) hnot
  | append_singleton lines line ih =>
      rw [allReadable_append_singleton, List.foldlM_append]
      by_cases hall : AllReadable json opts lines
      · obtain ⟨state, hrun, hreached⟩ := ih.1 hall
        obtain ⟨hgood, hbad⟩ := onLine_spec hreached line
        rw [hrun, Option.bind_eq_bind, Option.bind_some, List.foldlM_cons]
        constructor
        · rintro ⟨-, hline⟩
          obtain ⟨state', hstep, hreached'⟩ := hgood hline
          refine ⟨state', ?_, hreached'⟩
          rw [hstep]
          rfl
        · intro hnot
          rw [hbad fun hline => hnot ⟨hall, hline⟩]
          rfl
      · rw [ih.2 hall]
        exact ⟨fun hboth => absurd hboth.1 hall, fun _ => rfl⟩

variable (json opts) in
/-- Each call with an id gets, before the id is used again, the text of the last result that names
the id. -/
def InPlace (lines : List String) : Prop :=
  ∀ before toolCallId after,
    lines.flatMap (eventsOn json opts) = before ++ .opens (some toolCallId) :: after →
      LatestSlot.received sameValueZero toolCallId after =
        LatestSlot.lastDelivered sameValueZero toolCallId (lines.flatMap (eventsOn json opts))

theorem answered_iff (hreached : Reached json opts lines state) (hdebug : opts.debug = true) :
    state.result.toolCalls.map (·.output) =
        (lines.flatMap (callsOn json opts)).map (lastResult json opts lines) ↔
      InPlace json opts lines := by
  have hvalues : state.result.toolCalls.map (·.output) =
      LatestSlot.valuesOf sameValueZero (lines.flatMap (eventsOn json opts)) := by
    have hslots := congrArg Slots.values (hreached.slots hdebug)
    rwa [(LatestSlot.run_eq eq_of_sameValueZero _).1] at hslots
  have hexpected : (lines.flatMap (callsOn json opts)).map (lastResult json opts lines) =
      (LatestSlot.keysOf (lines.flatMap (eventsOn json opts))).map fun key => key.bind fun id =>
        LatestSlot.lastDelivered sameValueZero id (lines.flatMap (eventsOn json opts)) := by
    rw [keysOf_events, List.map_map]
    rfl
  rw [hvalues, hexpected, LatestSlot.valuesOf_eq_iff]
  constructor
  · intro hall before toolCallId after hsplit
    exact hall before (some toolCallId) after hsplit
  · intro hall before key after hsplit
    cases key with
    | none => rfl
    | some toolCallId => exact hall before toolCallId after hsplit

end

/-- The parser is total and its result is what is on the lines exactly if nothing that it looks into
is `null`, and in debug mode the results stand where they belong. -/
theorem parseSession_iff (json : JsonLibrary) (opts : ParseSessionOpts) (lines : List String) :
    (∃ result, parseSession json opts (some lines) = some result ∧
        Faithful json opts lines result) ↔
      AllReadable json opts lines ∧ (opts.debug = true → InPlace json opts lines) := by
  obtain ⟨hgood, hbad⟩ := onLines_spec json opts lines
  by_cases hall : AllReadable json opts lines
  · obtain ⟨state, hrun, hreached⟩ := hgood hall
    have hparse : parseSession json opts (some lines) =
        some { state.result with toolCallCount := state.result.toolCalls.length } := by
      rw [parseSession, hrun]
      rfl
    rw [hparse]
    constructor
    · rintro ⟨result, hresult, hfaithful⟩
      obtain rfl := Option.some.inj hresult
      exact ⟨hall, fun hdebug => (answered_iff hreached hdebug).mp (hfaithful.answered hdebug)⟩
    · rintro ⟨-, hplace⟩
      exact ⟨_, rfl, hreached.counted, hreached.toolCalls,
        fun hdebug => (answered_iff hreached hdebug).mpr (hplace hdebug)⟩
  · have hparse : parseSession json opts (some lines) = none := by
      rw [parseSession, hbad hall]
      rfl
    rw [hparse]
    constructor
    · rintro ⟨result, hresult, -⟩
      cases hresult
    · exact fun hboth => absurd hboth.1 hall

def nullJson : JsonLibrary where
  parse text := if text = "null" then some .null else none
  stringify _ := ""

/-- A line that is `null` lets an exception escape. -/
theorem null_line_throws : ¬∃ result,
    parseSession nullJson { debug := false } (some ["null"]) = some result ∧
      Faithful nullJson { debug := false } ["null"] result := by
  rintro ⟨result, hresult, -⟩
  have hthrows : (parseSession nullJson { debug := false } (some ["null"])).isNone = true := by
    decide +kernel
  rw [hresult] at hthrows
  cases hthrows

end SessionParser

end Aof
