import ClassModel.Matching.Engine
import ClassModel.Toml.Printer

/-! Settings of the analyses and where they are read from.

Every setting has a default, so any part of a text of settings may be left out. Settings that are
not known are passed over. A section is a table of its settings or a list of them in their order.
-/

set_option autoImplicit false

namespace ClassModel

structure PathSettings where
  /-- The depth when none is asked for. -/
  depth : Nat := 2
  /-- No request goes deeper than this. -/
  maxDepth : Nat := 16
  allPaths : Bool := false
  deriving BEq

structure Config where
  paths : PathSettings := {}
  strict : Bool := true
  weights : Weights := {}
  logLevel : String := "warn"
  thesaurus : List Naming.ThesaurusEntry := []
  deriving BEq

namespace Config

/-- Respect the hierarchy, and visit no entity twice on a path. -/
def strictPreset : Config := {}

/-- Disregard the hierarchy, and follow every path. -/
def lenientPreset : Config := { paths := { allPaths := true }, strict := false }

/-- The depth asked for, or else the usual one, within the limit. -/
def effectiveDepth (config : Config) (requested : Option Nat) : Nat :=
  min (requested.getD config.paths.depth) config.paths.maxDepth

def pathPolicy (config : Config) (allPaths : Bool) : PathPolicy :=
  .ofAllPaths (allPaths || config.paths.allPaths)

def thesaurusTable (config : Config) : Naming.Thesaurus := .ofEntries config.thesaurus

def matchOptions (config : Config) : MatchOptions :=
  { strict := config.strict, weights := config.weights }

/-! ## Reading -/

open Toml (Value Statement)

def readText : Value → Option String
  | .text text => some text
  | _ => none

def readFlag : Value → Option Bool
  | .boolean flag => some flag
  | _ => none

def readCount : Value → Option Nat
  | .integer n => if 0 ≤ n && n < Int.pow 2 64 then some n.toNat else none
  | _ => none

def readNumber : Value → Option Float
  | .real x => some x
  | .integer n => if -(Int.pow 2 63) ≤ n && n < Int.pow 2 64 then some (Float.ofInt n) else none
  | _ => none

def readListOf {α : Type} (read : Value → Option α) : Value → Option (List α)
  | .list items => items.mapM read
  | _ => none

structure Setting (Section : Type) where
  name : String
  read : Value → Section → Option Section

def Setting.of {Section α : Type} (name : String) (read : Value → Option α)
    (store : Section → α → Section) : Setting Section :=
  ⟨name, fun value state => (read value).map (store state)⟩

/-- Read what a section sets. Any date or time is a section that sets nothing. -/
def readSection {Section : Type} (settings : List (Setting Section)) (value : Value)
    (start : Section) : Option Section :=
  match value with
  | .table members => members.foldlM (fun state member =>
      match settings.find? (·.name == member.1) with
      | some setting => setting.read member.2 state
      | none => some state) start
  | .list items => (settings.zip items).foldlM (fun state item => item.1.read item.2 state) start
  | .moment _ => some start
  | _ => none

def engineSettings : List (Setting Config) := [
  .of "depth" readCount fun config depth =>
    { config with paths := { config.paths with depth } },
  .of "max_depth" readCount fun config maxDepth =>
    { config with paths := { config.paths with maxDepth } },
  .of "use_all_paths" readFlag fun config allPaths =>
    { config with paths := { config.paths with allPaths } },
  .of "strict" readFlag fun config strict => { config with strict }]

def matchingSettings : List (Setting Config) := [
  .of "name_weight" readNumber fun config name =>
    { config with weights := { config.weights with name } },
  .of "esim_weight" readNumber fun config features =>
    { config with weights := { config.weights with features } },
  .of "cotopy_weight" readNumber fun config superclasses =>
    { config with weights := { config.weights with superclasses } }]

def loggingSettings : List (Setting Config) := [
  .of "level" readText fun config logLevel => { config with logLevel }]

/-- An entry of the thesaurus whose words have to be given. -/
structure EntryDraft where
  words : Option (List String) := none
  score : Float := 1.0

def readEntry (value : Value) : Option Naming.ThesaurusEntry := do
  let draft ← readSection [
    .of "words" (readListOf readText) fun (draft : EntryDraft) words =>
      { draft with words := some words },
    .of "score" readNumber fun draft score => { draft with score }] value {}
  return { words := ← draft.words, score := draft.score }

def sections : List (Setting Config) := [
  ⟨"engine", readSection engineSettings⟩,
  ⟨"matching", readSection matchingSettings⟩,
  ⟨"logging", readSection loggingSettings⟩,
  .of "thesaurus" (readListOf readEntry) fun config thesaurus => { config with thesaurus }]

/-- The settings a text makes, unless it is no TOML or sets something to a value of another kind. -/
def ofText? (text : String) : Option Config := do
  readSection sections (← Toml.ofText? text) {}

/-! ## Writing -/

def entryStatements (entry : Naming.ThesaurusEntry) : List Statement := [
  .nextHeader ["thesaurus"],
  .assignment ["words"] (.list (entry.words.map .text)),
  .assignment ["score"] (.real entry.score)]

/-- All settings as statements. An empty thesaurus is an empty list before the first section; any
other follows the last one. -/
def statements (config : Config) : List Statement :=
  (if config.thesaurus.isEmpty then [.assignment ["thesaurus"] (.list [])] else []) ++ [
    .header ["engine"],
    .assignment ["depth"] (.integer config.paths.depth),
    .assignment ["max_depth"] (.integer config.paths.maxDepth),
    .assignment ["use_all_paths"] (.boolean config.paths.allPaths),
    .assignment ["strict"] (.boolean config.strict),
    .header ["matching"],
    .assignment ["name_weight"] (.real config.weights.name),
    .assignment ["esim_weight"] (.real config.weights.features),
    .assignment ["cotopy_weight"] (.real config.weights.superclasses),
    .header ["logging"],
    .assignment ["level"] (.text config.logLevel)] ++
  config.thesaurus.flatMap entryStatements

def toText (config : Config) : String := Toml.write config.statements

/-- Whether the written settings read back as they were. A weight or score that is no number never
does. -/
def readsBack (config : Config) : Bool :=
  match ofText? config.toText with
  | some read => read == config
  | none => false

end Config

end ClassModel
