import ClassModel.Matching.Comparison
import ClassModel.Note

/-! Pairing the features of two entities, pass by pass.

A pass goes through the sources in order and gives each one that is free the partner it chooses
among the free targets. What is paired once is free for no later pass.
-/

set_option autoImplicit false

namespace ClassModel

inductive Pass where
  /-- The first target of the same name, up to case, and the same type. -/
  | exactName
  /-- Of the targets whose types compare as wanted, the one with the most similar name. -/
  | byType (wanted : TypeMatch) (kind : MatchKind)
  deriving DecidableEq, Repr

def Pass.kind : Pass → MatchKind
  | .exactName => .exactNameType
  | .byType _ kind => kind

structure Pairing where
  found : List FeatureMatch := []

namespace Pairing

def sourceFree (pairing : Pairing) (feature : Feature) : Bool :=
  !pairing.found.any fun pair => pair.source.path == feature.path

def targetFree (pairing : Pairing) (feature : Feature) : Bool :=
  !pairing.found.any fun pair => pair.target.path == feature.path

def add (pairing : Pairing) (pair : FeatureMatch) : Pairing := ⟨pairing.found ++ [pair]⟩

def consume (pairing : Pairing) (pair : FeatureMatch) : Noted Pairing := do
  Noted.say (.pairedFeatures pair.kind.label pair.source.name pair.target.name pair.score)
  return pairing.add pair

@[simp] theorem value_consume (pairing : Pairing) (pair : FeatureMatch) :
    (pairing.consume pair).value = pairing.add pair := rfl

def score (pairing : Pairing) : Float := Fuzzy.sum (pairing.found.map FeatureMatch.score)

end Pairing

structure Candidate where
  target : Feature
  score : Float

/-- The candidate with the greatest score, the first of several. -/
def Candidate.best? : List Candidate → Option Candidate
  | [] => none
  | first :: rest => some (rest.foldl (fun best next =>
      if best.score < next.score then next else best) first)

namespace Comparison

/-- Whether a target is one that an exact-name pass looks at. -/
def isNamesake (pairing : Pairing) (source target : Feature) : Bool :=
  pairing.targetFree target && Text.sameIgnoringAsciiCase source.name target.name

def isExactPartner (comparison : Comparison) (pairing : Pairing) (source target : Feature) : Bool :=
  isNamesake pairing source target && comparison.typeMatch source.type target.type == .exact

/-- The similarity of names counts in full for equal types and by half for related ones. -/
def typeFactor (wanted : TypeMatch) : Float := if wanted = .related then 0.5 else 1.0

def candidates (comparison : Comparison) (wanted : TypeMatch) (pairing : Pairing)
    (source : Feature) (targets : List Feature) : List Candidate :=
  (targets.filter fun target =>
    pairing.targetFree target && comparison.typeMatch source.type target.type == wanted).map
    fun target => ⟨target, comparison.nameSimilarity source target * typeFactor wanted⟩

def choose (comparison : Comparison) (pass : Pass) (pairing : Pairing) (targets : List Feature)
    (source : Feature) : Option Candidate :=
  match pass with
  | .exactName =>
    (targets.find? (comparison.isExactPartner pairing source)).map fun target => ⟨target, 1.0⟩
  | .byType wanted _ => Candidate.best? (comparison.candidates wanted pairing source targets)

/-- What is found while a pass looks for a partner. An exact-name pass stops at its partner. -/
def choiceFindings (comparison : Comparison) (pass : Pass) (pairing : Pairing)
    (targets : List Feature) (source : Feature) : List Diagnostic :=
  let compared := match pass with
    | .exactName =>
      (targets.takeWhile fun target => !comparison.isExactPartner pairing source target).filter
        (isNamesake pairing source)
    | .byType _ _ => targets.filter pairing.targetFree
  compared.flatMap (comparison.featureFindings source)

/-- Give one source a partner if it is free. -/
def pairSource (comparison : Comparison) (pass : Pass) (targets : List Feature)
    (pairing : Pairing) (source : Feature) : Noted Pairing :=
  if pairing.sourceFree source then do
    let choice ← Noted.of (comparison.choose pass pairing targets source)
      (comparison.choiceFindings pass pairing targets source)
    match choice with
    | some candidate =>
      pairing.consume ⟨source, candidate.target, pass.kind, candidate.score⟩
    | none => pure pairing
  else pure pairing

def runPass (comparison : Comparison) (pass : Pass) (sources targets : List Feature)
    (pairing : Pairing) : Noted Pairing :=
  sources.foldlM (comparison.pairSource pass targets) pairing

end Comparison

end ClassModel
