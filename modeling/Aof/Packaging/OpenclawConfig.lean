import Aof.Lib.JsonText

/-!
# The plugin in the OpenClaw configuration

`integrateWithOpenClaw` of `packaging/integration.ts` and `ejectFromOpenClaw` of
`packaging/ejector.ts`.  A file is what `JSON.parse` makes of it; the backup, which is a copy, is
named only.
-/

namespace Aof

open JsValue (property isUndefined isTruthy)

inductive ConfigFile where
  | missing
  | invalid (message : String)
  | json (value : JsValue)

structure InstallEnvironment where
  join : List String → String
  accessible : String → Bool
  timestamp : String

structure IntegrationOptions where
  aofRoot : String
  openclawConfigPath : String
  healthCheck : Bool := false

/-- `threw` is an exception, whose text the engine chooses. -/
inductive IntegrationResult where
  | failed (error : String)
  | threw
  | alreadyIntegrated (warnings : List String)
  | integrated (backupPath : String) (healthCheckPassed : Option Bool) (warnings : List String)

inductive EjectionResult where
  | failed (error : String)
  | threw
  | alreadyEjected (warnings : List String)
  | ejected (backupPath : String) (warnings : List String)

namespace OpenclawConfig

/-- `plugin.name === "aof"`, which throws on `null` and on `undefined`. -/
def isAof (plugin : JsValue) : Option Bool :=
  match plugin with
  | .undefined | .null => none
  | _ => some (((plugin.readProperty "name").getD .undefined).strictEq (.str "aof"))

/-- `findIndex`; the outer option is empty if the test throws. -/
def findAof : List JsValue → Option (Option Nat)
  | [] => some none
  | plugin :: plugins => do
      if ← isAof plugin then return some 0
      else return (← findAof plugins).map (· + 1)

/-- The array under `plugins`; anything else is replaced by an empty one. -/
def pluginList (config : JsObject) : List JsValue :=
  match property "plugins" config with
  | .arr plugins => plugins
  | _ => []

def withPlugins (config : JsObject) (plugins : List JsValue) : JsObject :=
  Dict.setEntries "plugins" (.arr plugins) config

def aofPlugin (env : InstallEnvironment) (aofRoot : String) : JsValue :=
  .obj [("name", .str "aof"),
    ("path", .str (env.join [aofRoot, "dist", "openclaw", "adapter.js"])),
    ("enabled", .bool true), ("config", .obj [("dataDir", .str aofRoot)])]

def backupPath (env : InstallEnvironment) (openclawConfigPath : String) : String :=
  openclawConfigPath ++ ".backup-" ++
    env.timestamp.map fun c => if c = ':' ∨ c = '.' then '-' else c

def notFound (openclawConfigPath : String) : String :=
  s!"OpenClaw config not found at {openclawConfigPath}"

def invalidJson (message : String) : String := s!"Invalid JSON in OpenClaw config: {message}"

def validationFailed : String := "Config validation failed after modification"

def written (config : JsObject) : ConfigFile := .json (JsValue.obj config).stringified

def performHealthCheck (env : InstallEnvironment) (aofRoot : String)
    (plugins : List JsValue) : Bool :=
  env.accessible aofRoot &&
    env.accessible (env.join [aofRoot, "dist", "openclaw", "adapter.js"]) &&
      match findAof plugins with
      | some (some index) =>
          isTruthy (((plugins[index]?.bind (·.readProperty "config")).bind
            (·.readProperty "dataDir")).getD .undefined)
      | _ => false

def integrateObject (env : InstallEnvironment) (opts : IntegrationOptions)
    (config : JsObject) : ConfigFile × IntegrationResult :=
  let file := .json (.obj config)
  match findAof (pluginList config) with
  | none => (file, .threw)
  | some (some _) =>
      (file, .alreadyIntegrated ["AOF plugin already registered. No changes made."])
  | some none =>
      let plugins := pluginList config ++ [aofPlugin env opts.aofRoot]
      if isTruthy (property "version" config) then
        let passed := if opts.healthCheck then some (performHealthCheck env opts.aofRoot plugins)
          else none
        let warnings := if passed = some false then ["Health check did not pass"] else []
        (written (withPlugins config plugins),
          .integrated (backupPath env opts.openclawConfigPath) passed
            (warnings ++ ["OpenClaw Gateway restart recommended to activate plugin"]))
      else (file, .failed validationFailed)

def ejectObject (env : InstallEnvironment) (openclawConfigPath : String) (config : JsObject) :
    ConfigFile × EjectionResult :=
  let file := .json (.obj config)
  match findAof (pluginList config) with
  | none => (file, .threw)
  | some none => (file, .alreadyEjected ["AOF plugin is not registered. No changes made."])
  | some (some index) =>
      if isTruthy (property "version" config) then
        (written (withPlugins config ((pluginList config).eraseIdx index)),
          .ejected (backupPath env openclawConfigPath)
            ["OpenClaw Gateway restart recommended to deactivate plugin"])
      else (file, .failed validationFailed)

end OpenclawConfig

open OpenclawConfig

/-- The assignment to `plugins` throws on what is not an object; an array takes it, and has no
version. -/
def integrateWithOpenClaw (env : InstallEnvironment) (opts : IntegrationOptions)
    (file : ConfigFile) : ConfigFile × IntegrationResult :=
  match file with
  | .missing => (file, .failed (notFound opts.openclawConfigPath))
  | .invalid message => (file, .failed (invalidJson message))
  | .json (.obj config) => integrateObject env opts config
  | .json (.arr _) => (file, .failed validationFailed)
  | .json _ => (file, .threw)

def ejectFromOpenClaw (env : InstallEnvironment) (openclawConfigPath : String)
    (file : ConfigFile) : ConfigFile × EjectionResult :=
  match file with
  | .missing => (file, .failed (notFound openclawConfigPath))
  | .invalid message => (file, .failed (invalidJson message))
  | .json (.obj config) => ejectObject env openclawConfigPath config
  | .json (.arr _) => (file, .alreadyEjected ["AOF plugin is not registered. No changes made."])
  | .json _ => (file, .threw)

end Aof
