import Aof.Projects.Migration

/-!
# The session parser

The tool calls of a session file (`trace/session-parser.ts`).  The values on the lines are cast, so
a property that is read from `null` throws: a step that throws has no result, and the exception
escapes, since the lines arrive in an event handler.
-/

namespace Aof

open JsValue (property isTruthy strictEq sameValueZero)
open ProjectMigration (codeUnits)

namespace SessionParser

structure ParseSessionOpts where
  debug : Bool

/-- `JSON.parse`, which may throw, and `JSON.stringify`. -/
structure JsonLibrary where
  parse : String → Option JsValue
  stringify : JsValue → String

/-- A name or an id is whatever the line has there; the input is in code units. -/
structure ToolCallTrace where
  name : JsValue
  input : List Nat
  output : Option String := none
  toolCallId : JsValue

structure ParsedSession where
  toolCalls : List ToolCallTrace := []
  toolCallCount : Nat := 0
  model : JsValue := .undefined
  provider : JsValue := .undefined
  thinkingLevel : JsValue := .undefined
  reasoning : List JsValue := []
  unknownEntries : Nat := 0
  parseErrors : Nat := 0
  totalEntriesParsed : Nat := 0

/-- The result so far, and the map from ids to calls with its latest entries in front. -/
structure ParserState where
  result : ParsedSession := {}
  toolCallIndex : List (JsValue × Nat) := []

def SUMMARY_INPUT_LIMIT : Nat := 200

/-- Whether a property access throws. -/
def isNullish : JsValue → Bool
  | .undefined | .null => true
  | _ => false

/-- What a property access gives if it does not throw; none of the keys is one of a prototype. -/
def field (key : String) : JsValue → JsValue
  | .obj properties => property key properties
  | _ => .undefined

/-- `value.key` -/
def read (key : String) (value : JsValue) : Option JsValue :=
  if isNullish value then none else some (field key value)

/-- `typeof value === "string"`, or an object as JSON, or nothing. -/
def inputText (json : JsonLibrary) : JsValue → String
  | .str text => text
  | .arr items => json.stringify (.arr items)
  | .obj properties => json.stringify (.obj properties)
  | _ => ""

/-- A call without a name is none; the outer option is empty if the access throws. -/
def extractToolCall (json : JsonLibrary) (item contentType : JsValue) (opts : ParseSessionOpts) :
    Option (Option ToolCallTrace) := do
  let name ← read "name" item
  if !isTruthy name then some none
  else
    let toolCallId ← read "id" item
    let rawInput ← if strictEq contentType (.str "toolCall") then read "arguments" item
      else read "input" item
    let inputStr := codeUnits (inputText json rawInput)
    let inputStr := if !opts.debug then inputStr.take SUMMARY_INPUT_LIMIT else inputStr
    some (some { name := name, input := inputStr, toolCallId := toolCallId })

namespace ParserState

def addToolCall (state : ParserState) (toolCall : ToolCallTrace) : ParserState :=
  let idx := state.result.toolCalls.length
  { result := { state.result with toolCalls := state.result.toolCalls ++ [toolCall] }
    toolCallIndex :=
      if isTruthy toolCall.toolCallId then (toolCall.toolCallId, idx) :: state.toolCallIndex
      else state.toolCallIndex }

def addReasoning (state : ParserState) (thinkingText : JsValue) : ParserState :=
  { state with
    result := { state.result with reasoning := state.result.reasoning ++ [thinkingText] } }

/-- `toolCallIndex.get(toolCallId)` -/
def indexOf (state : ParserState) (toolCallId : JsValue) : Option Nat :=
  (state.toolCallIndex.find? fun entry => sameValueZero entry.1 toolCallId).map Prod.snd

def setOutput (state : ParserState) (idx : Nat) (output : String) : ParserState :=
  { state with
    result := { state.result with
      toolCalls := state.result.toolCalls.modify idx fun call =>
        { call with output := some output } } }

end ParserState

section

variable (json : JsonLibrary) (opts : ParseSessionOpts)

/-- One turn of the loop over the content of an assistant message. -/
def processItem (state : ParserState) (item : JsValue) : Option ParserState := do
  let contentType ← read "type" item
  if strictEq contentType (.str "toolCall") ∨ strictEq contentType (.str "tool_use") then
    let toolCall ← extractToolCall json item contentType opts
    some (toolCall.elim state state.addToolCall)
  else if strictEq contentType (.str "thinking") ∧ opts.debug then
    let thinkingText ← read "thinking" item
    some (if isTruthy thinkingText then state.addReasoning thinkingText else state)
  else some state

def processAssistantMessage (state : ParserState) (message : JsValue) : Option ParserState := do
  match ← read "content" message with
  | .arr content => content.foldlM (processItem json opts) state
  | _ => some state

/-- What an item contributes to the output. -/
def outputPart (item : JsValue) : Option (List String) := do
  let itemType ← read "type" item
  if strictEq itemType (.str "text") then
    match ← read "text" item with
    | .str text => some [text]
    | _ => some []
  else some []

def processToolResult (state : ParserState) (message : JsValue) : Option ParserState := do
  if !opts.debug then some state
  else
    let toolCallId ← read "toolCallId" message
    if !isTruthy toolCallId then some state
    else
      match state.indexOf toolCallId with
      | none => some state
      | some idx =>
          match ← read "content" message with
          | .arr content =>
              let outputParts := (← content.mapM outputPart).flatten
              some (if outputParts = [] then state
                else state.setOutput idx ("\n".intercalate outputParts))
          | _ => some state

def processMessage (state : ParserState) (entry : JsValue) : Option ParserState := do
  let message ← read "message" entry
  if !isTruthy message then some state
  else
    let role ← read "role" message
    if strictEq role (.str "assistant") then processAssistantMessage json opts state message
    else if strictEq role (.str "toolResult") then processToolResult opts state message
    else some state

/-- What the handler does with an entry that has been counted.  A type that it does not know is only
counted. -/
def processEntry (state : ParserState) (entry : JsValue) : Option ParserState := do
  match ← read "type" entry with
  | .str "session" | .str "custom" => some state
  | .str "model_change" =>
      let modelId ← read "modelId" entry
      let provider ← read "provider" entry
      some { state with result := { state.result with model := modelId, provider := provider } }
  | .str "thinking_level_change" =>
      let thinkingLevel ← read "thinkingLevel" entry
      some { state with result := { state.result with thinkingLevel := thinkingLevel } }
  | .str "message" => processMessage json opts state entry
  | _ =>
      some { state with
        result := { state.result with unknownEntries := state.result.unknownEntries + 1 } }

def trimmed (line : String) : String := String.ofList (JsString.trim line.toList)

/-- `rl.on("line", ...)` -/
def onLine (state : ParserState) (line : String) : Option ParserState :=
  if trimmed line = "" then some state
  else
    match json.parse (trimmed line) with
    | none =>
        some { state with
          result := { state.result with parseErrors := state.result.parseErrors + 1 } }
    | some entry =>
        processEntry json opts
          { state with result := { state.result with
              totalEntriesParsed := state.result.totalEntriesParsed + 1 } } entry

/-- The file is its lines, or absent if it is not readable. -/
def parseSession (file : Option (List String)) : Option ParsedSession :=
  match file with
  | none => some {}
  | some lines => do
      let state ← lines.foldlM (onLine json opts) {}
      some { state.result with toolCallCount := state.result.toolCalls.length }

end

end SessionParser

end Aof
