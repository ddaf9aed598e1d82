import HandOfMidas.Lib.Fueled
import HandOfMidas.Scenario.Runner
import Mathlib.Data.List.Perm.Lattice

/-! The scenario loader (`scenario/loader.rs`): it reads a document, splices the files that the
    document includes into its events, and validates the result. The files and the YAML library are
    parameters.

    A file that was met once is not read again. That keeps the loader from running in a circle, and it
    also refuses a file that is included on two ways. -/

namespace Midas.Dsl

/-- `ScenarioError`. -/
inductive ScenarioError where
  | io (err : String)
  | yamlParse (err : String)
  | versionTooNew (got max : ℕ)
  | unsupportedVersion (version : ℕ)
  | unknownVerb (name : String)
  | badTiming (message : String)
  | danglingReference (anchor : String)
  | circularInclude (message : String)
  | invalid (message : String)
  deriving DecidableEq

/-- The verbs that go beyond the runner: `Include`, and those of the engine. -/
inductive Command (κ : Type) where
  | includeFile (path : String)
  | engine (verb : κ)
  deriving DecidableEq

/-- The file system, with paths `π` and contents `β`. -/
structure Disk (π β : Type) where
  read : π → Except String β
  canonicalize : π → Option π
  ofStr : String → π
  isAbsolute : π → Bool
  parent : π → Option π
  join : π → π → π
  display : π → String

/-- The path by which the loader knows a file. -/
def Disk.canonical {π β : Type} (D : Disk π β) (path : π) : π := (D.canonicalize path).getD path

/-- `serde_yaml` with its values `υ`, and `from_utf8`. `orInsert` sets the field of a mapping that has
    none of that name. -/
structure Yaml (β υ κ : Type) where
  fromUtf8 : β → Except String String
  fromStr : String → Except String υ
  get : υ → String → Option υ
  asU64 : υ → Option ℕ
  asStr : υ → Option String
  asSequence : υ → Option (List υ)
  orInsert : υ → String → ℕ → υ
  fromValue : υ → Except String (Scenario (Command κ))

namespace Loader

variable {π β υ κ : Type} (D : Disk π β) (Y : Yaml β υ κ)

/-- `CURRENT_VERSION`. -/
def currentVersion : ℕ := 1

/-- `KNOWN_VERBS`. -/
def knownVerbs : List String :=
  ["subscribe_market_data", "unsubscribe_market_data", "accept_order", "cancel_order",
    "inject_disconnect", "inject_farm_outage", "inject_farm_restore", "inject_pacing_violation",
    "inject_lag", "inject_bad_frame", "inject_price_jump", "inject_gap", "inject_halt", "inject_burst",
    "inject_duplicate_order_status", "inject_slow_commission_report", "inject_out_of_order_events",
    "inject_daily_restart", "sleep", "set_clock_mode", "include", "assert", "assert_client_received",
    "assert_client_event_order"]

/-- `detect_version`, which takes the number `as u32`. -/
def detectVersion (raw : υ) : ℕ :=
  match (Y.get raw "version").bind Y.asU64 with
  | some v => v % 4294967296
  | none => 1

/-- `check_known_verbs`. -/
def checkKnownVerbs (raw : υ) : Except ScenarioError Unit :=
  match (Y.get raw "events").bind Y.asSequence with
  | none => .ok ()
  | some events =>
    match (events.filterMap fun event => (Y.get event "do").bind Y.asStr).find?
        fun name => name ∉ knownVerbs with
    | some name => .error (.unknownVerb name)
    | none => .ok ()

/-- `migrate_to_current`: version 1 is the current one. -/
def migrateToCurrent (_version : ℕ) (raw : υ) : Except ScenarioError υ := .ok raw

/-- `parse_and_validate`, up to the resolution of the includes. -/
def parseDocument (yaml : String) : Except ScenarioError (Scenario (Command κ)) :=
  match Y.fromStr yaml with
  | .error err => .error (.yamlParse err)
  | .ok raw =>
    match checkKnownVerbs Y raw with
    | .error err => .error err
    | .ok () =>
      let version := detectVersion Y raw
      if version > currentVersion then .error (.versionTooNew version currentVersion)
      else if version = 0 then .error (.unsupportedVersion version)
      else
        match migrateToCurrent version (Y.orInsert raw "version" version) with
        | .error err => .error err
        | .ok migrated => (Y.fromValue migrated).mapError .yamlParse

/-- `resolve_include_path`. -/
def resolveIncludePath (source : Option π) (rel : String) : Except ScenarioError π :=
  let relPath := D.ofStr rel
  if D.isAbsolute relPath then .ok relPath
  else
    match source.bind D.parent with
    | some base => .ok (D.join base relPath)
    | none => .error (.invalid ("cannot resolve relative include `" ++ rel ++
        "` — scenario was loaded from a string, not a file"))

/-! ### Validation -/

/-- How many of `at:`, `after:` and `when:` an event declares. -/
def timingCount (event : ScenarioEvent (Command κ)) : ℕ :=
  [event.atTime.isSome, event.after.isSome, event.whenCond.isSome].countP id

/-- The first pass of `validate`. It collects the names of the events. -/
def checkTimings : List (ScenarioEvent (Command κ)) → List String → Except ScenarioError (List String)
  | [], anchors => .ok anchors
  | event :: events, anchors =>
    if timingCount event ≠ 1 then
      .error (.badTiming ("event must declare exactly one of `at:`, `after:`, `when:` (got " ++
        toString (timingCount event) ++ ")"))
    else if event.after.isSome ∧ event.delay.isNone then
      .error (.badTiming "`after:` event missing `delay:`")
    else checkTimings events (event.named.toList ++ anchors)

/-- The second pass, so that an event may wait for one that is declared later. -/
def checkAnchors (anchors : List String) : List (ScenarioEvent (Command κ)) → Except ScenarioError Unit
  | [] => .ok ()
  | event :: events =>
    match event.after with
    | some anchor =>
      if anchor ∈ anchors then checkAnchors anchors events else .error (.danglingReference anchor)
    | none => checkAnchors anchors events

def validate (scenario : Scenario (Command κ)) : Except ScenarioError Unit :=
  match checkTimings scenario.events [] with
  | .error err => .error err
  | .ok anchors => checkAnchors anchors scenario.events

/-! ### Includes -/

/-- What loads a file that is included: its path, its contents and the files that were met so far. -/
abbrev Sub (π β κ : Type) :=
  π → β → List π → Fueled ScenarioError (Scenario (Command κ) × List π)

/-- The loop of `resolve_includes`: the events and the asserts that come of these events. -/
def splice (sub : Sub π β κ) (source : Option π) : List (ScenarioEvent (Command κ)) → List π →
    Fueled ScenarioError ((List (ScenarioEvent (Command κ)) × List ScenarioAssert) × List π)
  | [], visited => pure (([], []), visited)
  | event :: events, visited =>
    match event.verb with
    | .other (.includeFile rel) => do
      let includePath ← Fueled.lift id (resolveIncludePath D source rel)
      let bytes ← Fueled.lift .io (D.read includePath)
      let loaded ← sub includePath bytes visited
      let rest ← splice sub source events loaded.2
      pure ((loaded.1.events ++ rest.1.1, loaded.1.asserts ++ rest.1.2), rest.2)
    | _ => do
      let rest ← splice sub source events visited
      pure ((event :: rest.1.1, rest.1.2), rest.2)

/-- `resolve_includes`. -/
def resolveIncludes (sub : Sub π β κ) (scenario : Scenario (Command κ)) (source : Option π)
    (visited : List π) : Fueled ScenarioError (Scenario (Command κ) × List π) := do
  let resolved ← splice D sub source scenario.events visited
  pure ({ scenario with
    events := resolved.1.1
    asserts := scenario.asserts ++ resolved.1.2 }, resolved.2)

/-- `parse_and_validate`. -/
def parseAndValidate (sub : Sub π β κ) (yaml : String) (source : Option π) (visited : List π) :
    Fueled ScenarioError (Scenario (Command κ) × List π) := do
  let scenario ← Fueled.lift id (parseDocument Y yaml)
  let resolved ← resolveIncludes D sub scenario source visited
  let _ ← Fueled.lift id (validate resolved.1)
  pure resolved

/-- A file that has a name by now: decode it and go on with the text. -/
def loadBytes (sub : Sub π β κ) (canonical : π) (bytes : β) (visited : List π) :
    Fueled ScenarioError (Scenario (Command κ) × List π) := do
  let yaml ← Fueled.lift (fun err => .invalid ("scenario is not valid UTF-8: " ++ err))
    (Y.fromUtf8 bytes)
  parseAndValidate D Y sub yaml (some canonical) visited

/-- The error for a file that was met before. -/
def alreadyIncluded (path : π) : ScenarioError :=
  .circularInclude (D.display path ++ " already on the include stack")

/-- `load_with_visited`. The fuel bounds how deep includes are nested. -/
def loadWithVisited [DecidableEq π] : ℕ → Sub π β κ
  | 0, _, _, _ => ExceptT.mk none
  | fuel + 1, path, bytes, visited =>
    if D.canonical path ∈ visited then throw (alreadyIncluded D (D.canonical path))
    else loadBytes D Y (loadWithVisited fuel) (D.canonical path) bytes (visited ++ [D.canonical path])

def load [DecidableEq π] (fuel : ℕ) (path : π) : Fueled ScenarioError (Scenario (Command κ)) := do
  let bytes ← Fueled.lift .io (D.read path)
  let loaded ← loadWithVisited D Y fuel path bytes []
  pure loaded.1

/-- `load_from_str`. -/
def loadFromStr [DecidableEq π] (fuel : ℕ) (yaml : String) :
    Fueled ScenarioError (Scenario (Command κ)) := do
  let loaded ← parseAndValidate D Y (loadWithVisited D Y fuel) yaml none []
  pure loaded.1

end Loader

end Midas.Dsl
