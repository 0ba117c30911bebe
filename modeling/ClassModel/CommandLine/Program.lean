import ClassModel.CommandLine.Files
import ClassModel.CommandLine.Report
import ClassModel.CommandLine.Request
import ClassModel.Config
import ClassModel.Document.Load
import ClassModel.Document.Reader

/-! Carrying out what a command line asks for.

The arguments are understood first, then the settings are read, then the command is carried out.
The first failure ends it, and nothing is shown then.
-/

set_option autoImplicit false

namespace ClassModel.CommandLine

inductive Failure where
  | unreadableConfig (path : String)
  | malformedConfig (path : String)
  | unreadableModel (path : String)
  | malformedModel (path : String)
  | unsoundModel (error : DocumentError)
  | missingEntity (name : String)
  | unwritableTable (path : String)

def Failure.message : Failure → String
  | .unreadableConfig path => "Failed to read config file: " ++ path
  | .malformedConfig path => "Failed to parse config file: " ++ path
  | .unreadableModel path => "Failed to read model file: " ++ path
  | .malformedModel path => "Invalid model file: " ++ path
  | .unsoundModel error => error.message
  | .missingEntity name => "Entity '" ++ name ++ "' not found in model"
  | .unwritableTable path => "Failed to create CSV file: " ++ path

inductive Outcome where
  | refused
  | failed (failure : Failure)
  | finished (output : String)

/-- What a command finds around it. -/
structure Environment where
  color : Bool
  /-- The directory of all settings, if there is one. -/
  configDirectory : Option String

/-- Where the settings are unless another file is named. -/
def Environment.configPath? (environment : Environment) : Option String :=
  environment.configDirectory.map (· ++ "/modelmatch/config.toml")

abbrev Task (m : Type → Type) := ExceptT Failure m

variable {m : Type → Type} [Monad m] [Files m]

/-! ## Input -/

def readConfig (path : String) : Task m Config := do
  match ← (Files.readText path : m (Option String)) with
  | none => throw (.unreadableConfig path)
  | some text =>
    match Config.ofText? text with
    | none => throw (.malformedConfig path)
    | some config => return config

/-- The settings from the named file, or from the usual place if there is a file there. -/
def findConfig (environment : Environment) (named : Option String) : Task m Config := do
  match named, environment.configPath? with
  | some path, _ => readConfig path
  | none, some path =>
    if ← (Files.isPresent path : m Bool) then readConfig path else return {}
  | none, none => return {}

/-- A model, the entities a file put into it, and the log. -/
structure Loaded where
  model : Model := .empty
  entities : List EntityId := []
  log : Diagnostics := .empty

def Loaded.load (before : Loaded) (path : String) (provenance : Provenance) : Task m Loaded := do
  match ← (Files.readText path : m (Option String)) with
  | none => throw (.unreadableModel path)
  | some text =>
    match Document.ofText text with
    | .error _ => throw (.malformedModel path)
    | .ok document =>
      let loading := before.model.load document provenance
      match loading.result with
      | .error error => throw (.unsoundModel error)
      | .ok entities =>
        return ⟨loading.model, entities, before.log.absorb loading.notes⟩

/-- The first loaded entity of this name. -/
def Loaded.find (loaded : Loaded) (name : String) : Task m EntityId :=
  match loaded.entities.find? fun id => loaded.model.name id == name with
  | some id => return id
  | none => throw (.missingEntity name)

/-! ## Commands -/

def showFeatures (config : Config) (color : Bool) (path entity : String)
    (request : PathRequest) : Task m String := do
  let loaded ← Loaded.load {} path .shared
  let id ← loaded.find entity
  let depth := config.effectiveDepth request.depth
  let policy := config.pathPolicy request.allPaths
  let report := FeatureReport.of loaded.model id policy depth
  let log := loaded.log.absorb report.notes
  if request.json then return (report.value.toJson log).pretty ++ "\n"
  else return renderLines color (report.value.lines policy depth ++ diagnosticLines log)

def showSubclasses (color : Bool) (path entity : String) (leavesOnly : Bool) : Task m String := do
  let loaded ← Loaded.load {} path .shared
  let id ← loaded.find entity
  let walk := if leavesOnly then loaded.model.leafSubclasses id else loaded.model.allSubclasses id
  let log := loaded.log.absorb (notesOf walk.findings)
  return renderLines color (subclassLines walk entity leavesOnly ++ diagnosticLines log)

def showFlattened (config : Config) (color : Bool) (path : String) (entity : Option String)
    (request : PathRequest) : Task m String := do
  let loaded ← Loaded.load {} path .shared
  let selected ← match entity with
    | some name => do pure [← loaded.find name]
    | none => pure loaded.entities
  let copying := loaded.model.flattenModel selected (config.pathPolicy request.allPaths)
    (config.effectiveDepth request.depth)
  let log := loaded.log.absorb copying.notes
  let flattened := FlatEntity.ofCopying copying.value selected
  if request.json then return (Json.array (flattened.map FlatEntity.toJson)).pretty ++ "\n"
  else return renderLines color (flattened.flatMap FlatEntity.lines ++ diagnosticLines log)

/-- Match two models. The table is written before anything is shown. -/
def showMatching (config : Config) (color : Bool) (source target : String) (strict : Option Bool)
    (csv : Option String) (json : Bool) : Task m String := do
  let sources ← Loaded.load {} source .source
  let targets ← sources.load target .target
  let options := { config.matchOptions with strict := strict.getD config.strict }
  let engine : Engine :=
    { model := targets.model, thesaurus := config.thesaurusTable,
      known := sources.entities ++ targets.entities, options }
  let matching := engine.matchModels .empty sources.entities targets.entities
  let log := targets.log.absorb matching.notes
  let rows := matching.value.mapping.rows targets.model
  if let some path := csv then
    unless ← (Files.writeText path (MappingRow.csv rows) : m Bool) do
      throw (.unwritableTable path)
  if json then return (Json.array (rows.map MappingRow.toJson)).pretty ++ "\n"
  else
    let lines := matchingLines targets.model options.strict sources.entities matching.value
    return renderLines color (lines ++ writtenLines csv ++ diagnosticLines log)

/-- The place of the settings, and the settings as text. -/
def showConfig (environment : Environment) (config : Config) (color : Bool) : String :=
  let place := environment.configPath?.toList.map fun path =>
    [Span.dimmed ("# default location: " ++ path)]
  renderLines color place ++ config.toText

def Request.perform (request : Request) (environment : Environment) : Task m String := do
  let config ← findConfig environment request.config
  let color := environment.color && !request.plain
  match request.command with
  | .features model entity asked => showFeatures config color model entity asked
  | .subclasses model entity leavesOnly => showSubclasses color model entity leavesOnly
  | .flatten model entity asked => showFlattened config color model entity asked
  | .matchModels source target strict csv json =>
    showMatching config color source target strict csv json
  | .config => return showConfig environment config color

def run (environment : Environment) (arguments : List String) : m Outcome := do
  match Request.ofArguments? arguments with
  | none => return .refused
  | some request =>
    match ← (request.perform environment : Task m String).run with
    | .ok output => return .finished output
    | .error failure => return .failed failure

end ClassModel.CommandLine
