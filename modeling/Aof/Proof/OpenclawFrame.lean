import Aof.Packaging.OpenclawConfig

/-!
# The configuration of another program

Integration and ejection rewrite a file that OpenClaw owns.  They keep what is not theirs, unless
the plugins are no array, or a number is lost when the file is written.
-/

namespace Aof

open JsValue OpenclawConfig

def others (plugins : List JsValue) : List JsValue :=
  plugins.filter fun plugin => isAof plugin ≠ some true

/-- The plugins that are not this one: those of an array, and those under the names of
`plugins.entries`. -/
def otherRegistrations : JsValue → List (Option String × JsValue)
  | .arr plugins => (others plugins).map fun plugin => (none, plugin)
  | .obj properties =>
      match property "entries" properties with
      | .obj entries =>
          (entries.filter fun entry => entry.1 ≠ "aof").map fun entry => (some entry.1, entry.2)
      | _ => []
  | _ => []

structure KeepsOthers (config next : JsObject) : Prop where
  keys : ∀ key, key ≠ "plugins" → property key next = property key config
  plugins : otherRegistrations (property "plugins" next) =
    otherRegistrations (property "plugins" config)

/-- A call that changes the file keeps the others, and any other call leaves the file alone. -/
def Frames (config : JsObject) (changes : Bool) (file : ConfigFile) : Prop :=
  if changes then ∃ next, file = .json (.obj next) ∧ KeepsOthers config next
  else file = .json (.obj config)

def listed : JsValue → JsValue
  | .undefined => .arr []
  | plugins => plugins

structure SameConfig (config next : JsObject) : Prop where
  keys : ∀ key, key ≠ "plugins" → property key next = property key config
  plugins : listed (property "plugins" next) = listed (property "plugins" config)

def IntegrationResult.changes : IntegrationResult → Bool
  | .integrated .. => true
  | _ => false

def EjectionResult.changes : EjectionResult → Bool
  | .ejected .. => true
  | _ => false

section

variable (env : InstallEnvironment) (opts : IntegrationOptions) (config : JsObject)

def afterIntegration : ConfigFile × IntegrationResult :=
  integrateWithOpenClaw env opts (.json (.obj config))

def afterEjection : ConfigFile × EjectionResult :=
  ejectFromOpenClaw env opts.openclawConfigPath (.json (.obj config))

/-- Only this plugin is touched, and an ejection undoes an integration. -/
structure ConfigKept : Prop where
  integrates : Frames config (afterIntegration env opts config).2.changes
    (afterIntegration env opts config).1
  ejects : Frames config (afterEjection env opts config).2.changes
    (afterEjection env opts config).1
  restores : (afterIntegration env opts config).2.changes = true →
    ∃ next, (ejectFromOpenClaw env opts.openclawConfigPath
      (afterIntegration env opts config).1).1 = .json (.obj next) ∧ SameConfig config next

end

def PluginsListed (config : JsObject) : Prop :=
  property "plugins" config = .undefined ∨ ∃ plugins, property "plugins" config = .arr plugins

/-- No number outside the plugin itself is too large for a double. -/
structure OthersFinite (config : JsObject) : Prop where
  keys : ∀ key, key ≠ "plugins" → (property key config).isFinite = true
  plugins : ∀ plugin ∈ others (pluginList config), plugin.isFinite = true

variable {plugin : JsValue} {plugins : List JsValue}

theorem others_cons_of_aof (hplugin : isAof plugin = some true) (plugins : List JsValue) :
    others (plugin :: plugins) = others plugins := by
  simp [others, hplugin]

theorem others_cons_of_other (hplugin : isAof plugin ≠ some true) (plugins : List JsValue) :
    others (plugin :: plugins) = plugin :: others plugins := by
  simp [others, hplugin]

theorem findAof_cons (plugin : JsValue) (plugins : List JsValue) :
    findAof (plugin :: plugins) = (isAof plugin).bind fun found =>
      if found then some (some 0) else (findAof plugins).map (·.map (· + 1)) := by
  rw [findAof]
  cases isAof plugin with
  | none => rfl
  | some found =>
      cases found with
      | true => rfl
      | false => cases findAof plugins <;> rfl

theorem isAof_aofPlugin (env : InstallEnvironment) (aofRoot : String) :
    isAof (aofPlugin env aofRoot) = some true := by
  rfl

theorem isAof_iff : isAof plugin = some true ↔
      ∃ properties, plugin = .obj properties ∧ property "name" properties = .str "aof" := by
  constructor
  · intro hplugin
    cases plugin with
    | obj properties =>
        refine ⟨properties, rfl, ?_⟩
        have hname : (property "name" properties).strictEq (.str "aof") = true :=
          Option.some.inj hplugin
        generalize property "name" properties = name at hname
        cases name with
        | str text => rw [eq_of_beq hname]
        | _ => cases hname
    | arr items =>
        have hname : (((JsString.arrayIndex? "name").bind (items[·]?)).getD .undefined).strictEq
            (.str "aof") = true := Option.some.inj hplugin
        have hindex : JsString.arrayIndex? "name" = none := by decide +kernel
        rw [hindex] at hname
        cases hname
    | _ => cases hplugin
  · rintro ⟨properties, rfl, hname⟩
    rw [isAof, readProperty, Option.getD_some]
    · rw [property] at hname
      rw [hname]
      rfl
    · exact JsValue.noConfusion
    · exact JsValue.noConfusion

theorem isAof_stringified (hplugin : plugin.isJson = true) :
    isAof plugin.stringified = some true ↔ isAof plugin = some true := by
  rw [isAof_iff, isAof_iff]
  constructor
  · rintro ⟨properties, hobj, hname⟩
    cases plugin with
    | obj before =>
        rw [stringified, JsValue.obj.injEq] at hobj
        refine ⟨before, rfl, ?_⟩
        rw [← hobj, property_stringifiedProperties hplugin] at hname
        generalize property "name" before = name at hname
        cases name with
        | str text => exact hname
        | num value => cases value <;> cases hname
        | _ => cases hname
    | num value => cases value <;> cases hobj
    | _ => cases hobj
  · rintro ⟨properties, rfl, hname⟩
    refine ⟨stringifiedProperties properties, rfl, ?_⟩
    rw [property_stringifiedProperties hplugin, hname, stringified]
    all_goals simp

theorem others_of_findAof_none (hfind : findAof plugins = some none) :
    others plugins = plugins := by
  induction plugins with
  | nil => rfl
  | cons plugin plugins ih =>
      rw [findAof_cons, Option.bind_eq_some_iff] at hfind
      obtain ⟨found, hplugin, hrest⟩ := hfind
      cases found with
      | true => cases hrest
      | false =>
          have hnone : findAof plugins = some none := by simpa using hrest
          have hother : isAof plugin ≠ some true := by simp [hplugin]
          rw [others_cons_of_other hother, ih hnone]

theorem findAof_append (hfind : findAof plugins = some none) (hplugin : isAof plugin = some true) :
    findAof (plugins ++ [plugin]) = some (some plugins.length) := by
  induction plugins with
  | nil => simp [findAof_cons, hplugin]
  | cons first plugins ih =>
      rw [findAof_cons, Option.bind_eq_some_iff] at hfind
      obtain ⟨found, hfirst, hrest⟩ := hfind
      cases found with
      | true => cases hrest
      | false =>
          have hnone : findAof plugins = some none := by simpa using hrest
          rw [List.cons_append, findAof_cons, hfirst, Option.bind_some, ih hnone]
          rfl

theorem others_append_aof (plugins : List JsValue) (hplugin : isAof plugin = some true) :
    others (plugins ++ [plugin]) = others plugins := by
  have hnone : others [plugin] = [] := others_cons_of_aof hplugin []
  rw [others, List.filter_append]
  exact (congrArg (others plugins ++ ·) hnone).trans (List.append_nil _)

theorem others_eraseIdx {index : Nat} (hfind : findAof plugins = some (some index)) :
    others (plugins.eraseIdx index) = others plugins := by
  induction plugins generalizing index with
  | nil => cases hfind
  | cons plugin plugins ih =>
      rw [findAof_cons, Option.bind_eq_some_iff] at hfind
      obtain ⟨found, hplugin, hrest⟩ := hfind
      cases found with
      | true =>
          obtain rfl : 0 = index := by simpa using hrest
          rw [List.eraseIdx_cons_zero, others_cons_of_aof hplugin]
      | false =>
          obtain ⟨before, hbefore, rfl⟩ : ∃ before, findAof plugins = some (some before) ∧
              before + 1 = index := by
            simpa using hrest
          have hother : isAof plugin ≠ some true := by simp [hplugin]
          rw [List.eraseIdx_cons_succ, others_cons_of_other hother, others_cons_of_other hother,
            ih hbefore]

theorem others_map_stringified (hplugins : areJson plugins = true) :
    others (plugins.map stringified) = (others plugins).map stringified := by
  rw [others, others, List.filter_map]
  congr 1
  apply List.filter_congr
  intro plugin hplugin
  have hjson := areJson_iff.1 hplugins plugin hplugin
  simp only [Function.comp_apply, ne_eq, isAof_stringified hjson]

section Written

variable {config : JsObject} {plugins : List JsValue}

theorem property_withPlugins_of_ne {key : String} (hkey : key ≠ "plugins") :
    property key (withPlugins config plugins) = property key config := by
  rw [withPlugins, property_setEntries, if_neg hkey]

theorem property_withPlugins_self :
    property "plugins" (withPlugins config plugins) = .arr plugins := by
  rw [withPlugins, property_setEntries, if_pos rfl]

variable (hconfig : propertiesAreJson config = true) (hplugins : areJson plugins = true)

include hconfig hplugins

theorem isJson_withPlugins : propertiesAreJson (withPlugins config plugins) = true :=
  propertiesAreJson_setEntries hconfig hplugins

theorem property_written_of_ne {key : String} (hkey : key ≠ "plugins") :
    property key (stringifiedProperties (withPlugins config plugins)) =
      (property key config).stringified := by
  rw [property_stringifiedProperties (isJson_withPlugins hconfig hplugins),
    property_withPlugins_of_ne hkey]

theorem property_written_self :
    property "plugins" (stringifiedProperties (withPlugins config plugins)) =
      .arr (plugins.map stringified) := by
  rw [property_stringifiedProperties (isJson_withPlugins hconfig hplugins),
    property_withPlugins_self, stringified, stringifiedItems_eq_map hplugins]

end Written

section Config

variable {config : JsObject} (hconfig : propertiesAreJson config = true)

include hconfig in
theorem areJson_pluginList : areJson (pluginList config) = true := by
  unfold pluginList
  split
  · rename_i plugins hplugins
    cases isJson_property hconfig "plugins" with
    | inl habsent =>
        rw [hplugins] at habsent
        cases habsent
    | inr hjson =>
        rw [hplugins] at hjson
        exact hjson
  · rfl

theorem PluginsListed.listed_eq (hlisted : PluginsListed config) :
    listed (property "plugins" config) = .arr (pluginList config) := by
  rcases hlisted with habsent | ⟨plugins, hplugins⟩
  · rw [pluginList, habsent]
    rfl
  · rw [pluginList, hplugins]
    rfl

theorem pluginsListed_of_listed {plugins : List JsValue}
    (hlisted : listed (property "plugins" config) = .arr plugins) : PluginsListed config := by
  unfold PluginsListed
  generalize property "plugins" config = value at hlisted
  cases value with
  | undefined => exact .inl rfl
  | arr items => exact .inr ⟨items, rfl⟩
  | _ => cases hlisted

theorem PluginsListed.otherRegistrations_eq (hlisted : PluginsListed config) :
    otherRegistrations (property "plugins" config) =
      (others (pluginList config)).map fun plugin => (none, plugin) := by
  rcases hlisted with habsent | ⟨plugins, hplugins⟩
  · rw [pluginList, habsent]
    rfl
  · rw [pluginList, hplugins]
    rfl

variable {plugins : List JsValue} (hplugins : areJson plugins = true)
  (hothers : others plugins = others (pluginList config))

include hconfig hplugins hothers

theorem otherRegistrations_written :
    otherRegistrations (property "plugins" (stringifiedProperties (withPlugins config plugins))) =
      ((others (pluginList config)).map stringified).map fun plugin => (none, plugin) := by
  rw [property_written_self hconfig hplugins, otherRegistrations,
    others_map_stringified hplugins, hothers]

theorem keepsOthers_written_iff (hlisted : PluginsListed config) :
    KeepsOthers config (stringifiedProperties (withPlugins config plugins)) ↔
      OthersFinite config := by
  have hregistrations := otherRegistrations_written hconfig hplugins hothers
  have hjson : ∀ plugin ∈ others (pluginList config), plugin.isJson = true := fun plugin hplugin =>
    areJson_iff.1 (areJson_pluginList hconfig) plugin (List.mem_of_mem_filter hplugin)
  constructor
  · rintro ⟨hkeys, hsame⟩
    refine ⟨fun key hkey => ?_, ?_⟩
    · have hkept := hkeys key hkey
      rw [property_written_of_ne hconfig hplugins hkey] at hkept
      exact (stringified_property_eq_self_iff hconfig key).1 hkept
    · rw [hregistrations, hlisted.otherRegistrations_eq] at hsame
      have hmap : (others (pluginList config)).map stringified = others (pluginList config) :=
        List.map_injective_iff.2 (fun _ _ heq => (Prod.mk.inj heq).2) hsame
      exact (map_stringified_eq_self_iff hjson).1 hmap
  · rintro ⟨hkeys, hfinite⟩
    refine ⟨fun key hkey => ?_, ?_⟩
    · rw [property_written_of_ne hconfig hplugins hkey]
      exact (stringified_property_eq_self_iff hconfig key).2 (hkeys key hkey)
    · rw [hregistrations, hlisted.otherRegistrations_eq]
      rw [(map_stringified_eq_self_iff hjson).2 hfinite]

end Config

section Calls

variable (env : InstallEnvironment) (opts : IntegrationOptions) (config : JsObject)

theorem afterIntegration_cases :
    (isTruthy (property "version" config) = true ∧ findAof (pluginList config) = some none ∧
      (afterIntegration env opts config).2.changes = true ∧ (afterIntegration env opts config).1 =
        written (withPlugins config (pluginList config ++ [aofPlugin env opts.aofRoot]))) ∨
    (¬(isTruthy (property "version" config) = true ∧ findAof (pluginList config) = some none) ∧
      (afterIntegration env opts config).2.changes = false ∧
      (afterIntegration env opts config).1 = .json (.obj config)) := by
  have heq : afterIntegration env opts config = integrateObject env opts config := rfl
  rw [heq, integrateObject]
  cases hfind : findAof (pluginList config) with
  | none => exact .inr ⟨by simp, rfl, rfl⟩
  | some found =>
      cases found with
      | some index => exact .inr ⟨by simp, rfl, rfl⟩
      | none =>
          by_cases hversion : isTruthy (property "version" config) = true
          · dsimp only
            rw [if_pos hversion]
            exact .inl ⟨hversion, rfl, rfl, rfl⟩
          · dsimp only
            rw [if_neg hversion]
            exact .inr ⟨fun hboth => hversion hboth.1, rfl, rfl⟩

theorem afterEjection_cases : (∃ index, isTruthy (property "version" config) = true ∧
      findAof (pluginList config) = some (some index) ∧
      (afterEjection env opts config).2.changes = true ∧ (afterEjection env opts config).1 =
        written (withPlugins config ((pluginList config).eraseIdx index))) ∨
    (¬(isTruthy (property "version" config) = true ∧
        ∃ index, findAof (pluginList config) = some (some index)) ∧
      (afterEjection env opts config).2.changes = false ∧
      (afterEjection env opts config).1 = .json (.obj config)) := by
  have heq : afterEjection env opts config = ejectObject env opts.openclawConfigPath config := rfl
  rw [heq, ejectObject]
  cases hfind : findAof (pluginList config) with
  | none => exact .inr ⟨by simp, rfl, rfl⟩
  | some found =>
      cases found with
      | none => exact .inr ⟨by simp, rfl, rfl⟩
      | some index =>
          by_cases hversion : isTruthy (property "version" config) = true
          · dsimp only
            rw [if_pos hversion]
            exact .inl ⟨index, hversion, rfl, rfl, rfl⟩
          · dsimp only
            rw [if_neg hversion]
            exact .inr ⟨fun hboth => hversion hboth.1, rfl, rfl⟩

theorem isJson_aofPlugin (aofRoot : String) : (aofPlugin env aofRoot).isJson = true := by
  rfl

theorem stringified_aofPlugin (aofRoot : String) :
    (aofPlugin env aofRoot).stringified = aofPlugin env aofRoot := by
  rfl

end Calls

section Kept

variable (env : InstallEnvironment) (opts : IntegrationOptions) {config : JsObject}
  (hconfig : propertiesAreJson config = true)

theorem pluginsListed_of_find (hfind : findAof (pluginList config) ≠ some none) :
    PluginsListed config := by
  unfold pluginList at hfind
  split at hfind
  · rename_i plugins hplugins
    exact .inr ⟨plugins, hplugins⟩
  · exact absurd rfl hfind

include hconfig in
theorem areJson_integrated :
    areJson (pluginList config ++ [aofPlugin env opts.aofRoot]) = true := by
  rw [areJson_iff]
  intro plugin hplugin
  rcases List.mem_append.1 hplugin with hold | hnew
  · exact areJson_iff.1 (areJson_pluginList hconfig) plugin hold
  · obtain rfl := List.mem_singleton.1 hnew
    exact isJson_aofPlugin env opts.aofRoot

include hconfig in
theorem areJson_ejected (index : Nat) : areJson ((pluginList config).eraseIdx index) = true := by
  rw [areJson_iff]
  intro plugin hplugin
  exact areJson_iff.1 (areJson_pluginList hconfig) plugin (List.mem_of_mem_eraseIdx hplugin)

variable {env opts}

theorem ejected_plugins_array {plugins : List JsValue} {next : JsObject}
    (hconfig : propertiesAreJson config = true)
    (hplugins : property "plugins" config = .arr plugins)
    (hnext : (afterEjection env opts config).1 = .json (.obj next)) :
    ∃ left, property "plugins" next = .arr left := by
  rcases afterEjection_cases env opts config with
    ⟨index, -, -, -, hwritten⟩ | ⟨-, -, hsame⟩
  · rw [hwritten, written, stringified] at hnext
    obtain rfl := JsValue.obj.inj (ConfigFile.json.inj hnext)
    exact ⟨_, property_written_self hconfig (areJson_ejected hconfig index)⟩
  · rw [hsame] at hnext
    obtain rfl := JsValue.obj.inj (ConfigFile.json.inj hnext)
    exact ⟨plugins, hplugins⟩

section

variable (hkept : ConfigKept env opts config) (hconfig : propertiesAreJson config = true)
  (hversion : isTruthy (property "version" config) = true)
include hkept hconfig hversion

/-- An ejection after an integration restores no plugins that were not an array. -/
theorem ConfigKept.pluginsListed : PluginsListed config := by
  by_cases hfind : findAof (pluginList config) = some none
  · rcases afterIntegration_cases env opts config with
      ⟨-, -, hchanges, hwritten⟩ | ⟨hnot, -, -⟩
    · obtain ⟨next, hnext, hsame⟩ := hkept.restores hchanges
      have hjson := areJson_integrated env opts hconfig
      rw [hwritten, written, stringified] at hnext
      have hstored := propertiesAreJson_stringified _ (isJson_withPlugins hconfig hjson)
      obtain ⟨left, hleft⟩ :=
        ejected_plugins_array hstored (property_written_self hconfig hjson) hnext
      apply pluginsListed_of_listed
      rw [← hsame.plugins, hleft]
      rfl
    · exact absurd ⟨hversion, hfind⟩ hnot
  · exact pluginsListed_of_find hfind

theorem ConfigKept.othersFinite (hfind : findAof (pluginList config) ≠ none) :
    OthersFinite config := by
  have hlisted := hkept.pluginsListed hconfig hversion
  rcases afterIntegration_cases env opts config with ⟨-, -, hchanges, hwritten⟩ | ⟨hnot, -, -⟩
  · have hframes := hkept.integrates
    rw [Frames, if_pos hchanges, hwritten, written, stringified] at hframes
    obtain ⟨next, hnext, hothers⟩ := hframes
    obtain rfl := JsValue.obj.inj (ConfigFile.json.inj hnext)
    exact (keepsOthers_written_iff hconfig (areJson_integrated env opts hconfig)
      (others_append_aof _ (isAof_aofPlugin env opts.aofRoot)) hlisted).1 hothers
  · rcases afterEjection_cases env opts config with
      ⟨index, -, hindex, hchanges, hwritten⟩ | ⟨hneither, -, -⟩
    · have hframes := hkept.ejects
      rw [Frames, if_pos hchanges, hwritten, written, stringified] at hframes
      obtain ⟨next, hnext, hothers⟩ := hframes
      obtain rfl := JsValue.obj.inj (ConfigFile.json.inj hnext)
      exact (keepsOthers_written_iff hconfig (areJson_ejected hconfig index)
        (others_eraseIdx hindex) hlisted).1 hothers
    · obtain ⟨found, hfound⟩ := Option.ne_none_iff_exists'.1 hfind
      cases found with
      | none => exact absurd ⟨hversion, hfound⟩ hnot
      | some index => exact absurd ⟨hversion, index, hfound⟩ hneither

end

section

variable (hfinite : OthersFinite config) (hconfig : propertiesAreJson config = true)
  (hfind : findAof (pluginList config) = some none)
include hfinite hconfig hfind

theorem OthersFinite.map_pluginList : (pluginList config).map stringified = pluginList config := by
  rw [map_stringified_eq_self_iff (areJson_iff.1 (areJson_pluginList hconfig)),
    ← others_of_findAof_none hfind]
  exact hfinite.plugins

theorem OthersFinite.pluginList_integrated : property "plugins" (stringifiedProperties
        (withPlugins config (pluginList config ++ [aofPlugin env opts.aofRoot]))) =
      .arr (pluginList config ++ [aofPlugin env opts.aofRoot]) := by
  rw [property_written_self hconfig (areJson_integrated env opts hconfig), List.map_append,
    hfinite.map_pluginList hconfig hfind, List.map_singleton, stringified_aofPlugin]

end

theorem pluginList_of_arr {plugins : List JsValue}
    (hplugins : property "plugins" config = .arr plugins) : pluginList config = plugins := by
  rw [pluginList, hplugins]

theorem restored (hconfig : propertiesAreJson config = true) (hlisted : PluginsListed config)
    (hfinite : OthersFinite config) (hversion : isTruthy (property "version" config) = true)
    (hfind : findAof (pluginList config) = some none) :
    ∃ next, (ejectFromOpenClaw env opts.openclawConfigPath
      (written (withPlugins config (pluginList config ++ [aofPlugin env opts.aofRoot])))).1 =
        .json (.obj next) ∧ SameConfig config next := by
  have hjson := areJson_integrated env opts hconfig
  have hplugins : pluginList (stringifiedProperties
      (withPlugins config (pluginList config ++ [aofPlugin env opts.aofRoot]))) =
        pluginList config ++ [aofPlugin env opts.aofRoot] :=
    pluginList_of_arr (hfinite.pluginList_integrated hconfig hfind)
  have hkeys : ∀ key, key ≠ "plugins" → property key (stringifiedProperties
      (withPlugins config (pluginList config ++ [aofPlugin env opts.aofRoot]))) =
        property key config := by
    intro key hkey
    rw [property_written_of_ne hconfig hjson hkey]
    exact (stringified_property_eq_self_iff hconfig key).2 (hfinite.keys key hkey)
  have hstored := propertiesAreJson_stringified _ (isJson_withPlugins hconfig hjson)
  rw [written, stringified]
  generalize stringifiedProperties
    (withPlugins config (pluginList config ++ [aofPlugin env opts.aofRoot])) = stored at *
  have hfound : findAof (pluginList stored) = some (some (pluginList config).length) := by
    rw [hplugins]
    exact findAof_append hfind (isAof_aofPlugin env opts.aofRoot)
  have hleft : (pluginList stored).eraseIdx (pluginList config).length = pluginList config := by
    rw [hplugins, List.eraseIdx_append_of_length_le le_rfl, Nat.sub_self, List.eraseIdx_cons_zero,
      List.append_nil]
  rcases afterEjection_cases env opts stored with ⟨index, -, hindex, -, hwritten⟩ | ⟨hnot, -, -⟩
  · obtain rfl : (pluginList config).length = index := by
      rw [hfound] at hindex
      exact Option.some.inj (Option.some.inj hindex)
    rw [hleft, written, stringified] at hwritten
    refine ⟨_, hwritten, fun key hkey => ?_, ?_⟩
    · rw [property_written_of_ne hstored (areJson_pluginList hconfig) hkey, hkeys key hkey]
      exact (stringified_property_eq_self_iff hconfig key).2 (hfinite.keys key hkey)
    · rw [property_written_self hstored (areJson_pluginList hconfig),
        hfinite.map_pluginList hconfig hfind, hlisted.listed_eq]
      rfl
  · rw [hkeys "version" (by decide)] at hnot
    exact absurd ⟨hversion, _, hfound⟩ hnot

end Kept

/-- The two functions keep what is not theirs, unless they rewrite a file whose plugins are no
array or in which a number is too large. -/
theorem configKept_iff (env : InstallEnvironment) (opts : IntegrationOptions) (config : JsObject)
    (hconfig : propertiesAreJson config = true) : ConfigKept env opts config ↔
      (isTruthy (property "version" config) = true →
        PluginsListed config ∧ (findAof (pluginList config) ≠ none → OthersFinite config)) := by
  constructor
  · intro hkept hversion
    exact ⟨hkept.pluginsListed hconfig hversion, hkept.othersFinite hconfig hversion⟩
  · intro hsafe
    have hframes : ∀ plugins, areJson plugins = true →
        others plugins = others (pluginList config) →
        isTruthy (property "version" config) = true → findAof (pluginList config) ≠ none →
          Frames config true (written (withPlugins config plugins)) := by
      intro plugins hplugins hothers hversion hfind
      obtain ⟨hlisted, hfinite⟩ := hsafe hversion
      rw [Frames, if_pos rfl, written, stringified]
      exact ⟨_, rfl, (keepsOthers_written_iff hconfig hplugins hothers hlisted).2 (hfinite hfind)⟩
    refine ⟨?_, ?_, ?_⟩
    · rcases afterIntegration_cases env opts config with
        ⟨hversion, hfind, hchanges, hwritten⟩ | ⟨-, hchanges, hsame⟩
      · rw [hchanges, hwritten]
        exact hframes _ (areJson_integrated env opts hconfig)
          (others_append_aof _ (isAof_aofPlugin env opts.aofRoot)) hversion (by simp [hfind])
      · rw [hchanges, hsame, Frames, if_neg Bool.false_ne_true]
    · rcases afterEjection_cases env opts config with
        ⟨index, hversion, hindex, hchanges, hwritten⟩ | ⟨-, hchanges, hsame⟩
      · rw [hchanges, hwritten]
        exact hframes _ (areJson_ejected hconfig index) (others_eraseIdx hindex) hversion
          (by simp [hindex])
      · rw [hchanges, hsame, Frames, if_neg Bool.false_ne_true]
    · intro hchanged
      rcases afterIntegration_cases env opts config with
        ⟨hversion, hfind, -, hwritten⟩ | ⟨-, hchanges, -⟩
      · obtain ⟨hlisted, hfinite⟩ := hsafe hversion
        rw [hwritten]
        exact restored hconfig hlisted (hfinite (by simp [hfind])) hversion hfind
      · rw [hchanges] at hchanged
        cases hchanged

def homeEnvironment : InstallEnvironment where
  join := fun parts => "/".intercalate parts
  accessible := fun _ => true
  timestamp := "2026-01-01T00:00:00.000Z"

def homeOptions : IntegrationOptions where
  aofRoot := "/home/user/.aof"
  openclawConfigPath := "/home/user/.openclaw/openclaw.json"

def entriesConfig : JsObject :=
  [("version", .str "1.0"),
    ("plugins", .obj [("entries", .obj [("memory", .obj [("enabled", .bool true)])])])]

def listedConfig : JsObject :=
  [("version", .str "1.0"), ("plugins", .arr [.obj [("name", .str "memory")]])]

theorem configKept_listed : ConfigKept homeEnvironment homeOptions listedConfig := by
  apply (configKept_iff homeEnvironment homeOptions listedConfig rfl).2
  intro _
  refine ⟨.inr ⟨[.obj [("name", .str "memory")]], rfl⟩, fun _ => ⟨fun key hkey => ?_, ?_⟩⟩
  · simp only [listedConfig, property, Dict.getEntries, Ne.symm hkey, ↓reduceIte]
    split <;> rfl
  · exact fun plugin hplugin => List.mem_singleton.1 hplugin ▸ rfl

/-- The registration of another plugin is gone. -/
theorem entries_dropped : ¬ConfigKept homeEnvironment homeOptions entriesConfig := by
  intro hkept
  obtain ⟨next, hnext, hothers⟩ := hkept.integrates
  obtain rfl := JsValue.obj.inj (ConfigFile.json.inj hnext)
  have hlost := congrArg List.length hothers.plugins
  revert hlost
  decide +kernel

end Aof
