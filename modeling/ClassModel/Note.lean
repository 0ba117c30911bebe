import ClassModel.Diagnostic

/-! What an analysis has to say while it runs.

A note is a diagnostic, which counts when the log does not have it yet, or a message, which always
counts. Analyses return their notes in order beside their result, so a result never depends on a
log.
-/

set_option autoImplicit false

namespace ClassModel

inductive Level where
  | warn
  | info
  | debug
  deriving DecidableEq, Repr

namespace Level

def rank : Level → Nat
  | .warn => 0
  | .info => 1
  | .debug => 2

def label : Level → String
  | .warn => "WARN"
  | .info => "INFO"
  | .debug => "DEBUG"

end Level

inductive Message where
  | untypedStereotype (entity stereotype : String)
  | unreadableCardinality (entity text : String)
  | ignoredFlag (context : String) (element : String) (flag : String)
  | loaded (entities associations : Nat)
  | flattenedEntity (entity policy : String) (depth attributes : Nat)
  | flattenedModel (entities : Nat)
  | targetSchema (entities associations : Nat)
  | scoring (source target : String)
  | noCommonAncestor (source target : String)
  | pairedFeatures (kind source target : String) (score : Float)
  | scoredPair (source target : String) (matched : Nat) (score : Float)
  | noCandidate (source : String)
  | matchedEntity (source target : String) (composite : Float)
  | matchedModels (matched sources targets : Nat)

namespace Message

def level : Message → Level
  | .unreadableCardinality .. => .warn
  | .ignoredFlag .. => .warn
  | .loaded .. => .info
  | .flattenedModel .. => .info
  | .targetSchema .. => .info
  | .matchedModels .. => .info
  | _ => .debug

def text : Message → String
  | .untypedStereotype entity stereotype =>
    "Entity " ++ entity ++ " keeps untyped stereotype '" ++ stereotype ++ "'"
  | .unreadableCardinality entity text =>
    "Entity " ++ entity ++ " has unreadable cardinality '" ++ text ++ "'"
  | .ignoredFlag context element flag =>
    context ++ ": ignoring " ++ element ++ " flag '" ++ flag ++ "'"
  | .loaded entities associations =>
    "Loaded " ++ toString entities ++ " entities and " ++ toString associations ++ " associations"
  | .flattenedEntity entity policy depth attributes =>
    "Flattened " ++ entity ++ " (" ++ policy ++ " policy, depth " ++ toString depth ++ "): " ++
      toString attributes ++ " attributes"
  | .flattenedModel entities => "Flattened " ++ toString entities ++ " entities"
  | .targetSchema entities associations =>
    "Target schema: " ++ toString entities ++ " entities, " ++ toString associations ++
      " associations"
  | .scoring source target => "Scoring " ++ source ++ " -> " ++ target
  | .noCommonAncestor source target =>
    target ++ " is not a common ancestor of the images of " ++ source ++ "'s subclasses"
  | .pairedFeatures kind source target score =>
    "  " ++ kind ++ " " ++ source ++ " -> " ++ target ++ " (" ++ Decimal.fixed score 3 ++ ")"
  | .scoredPair source target matched score =>
    source ++ " -> " ++ target ++ ": " ++ toString matched ++ " attribute matches, score " ++
      Decimal.fixed score 3
  | .noCandidate source => "No candidate for " ++ source
  | .matchedEntity source target composite =>
    "Matched " ++ source ++ " -> " ++ target ++ " (composite " ++ Decimal.fixed composite 3 ++ ")"
  | .matchedModels matched sources targets =>
    "Matched " ++ toString matched ++ " of " ++ toString sources ++
      " source entities against " ++ toString targets ++ " targets"

end Message

inductive Note where
  | diagnostic (diagnostic : Diagnostic)
  | message (message : Message)

namespace Note

def diagnostic? : Note → Option Diagnostic
  | .diagnostic found => some found
  | .message _ => none

/-- An unresolved reference is a detail; every other diagnostic is a warning. -/
def level : Note → Level
  | .diagnostic (.unresolved ..) => .debug
  | .diagnostic _ => .warn
  | .message said => said.level

def text : Note → String
  | .diagnostic found => found.text
  | .message said => said.text

def line (note : Note) : String := note.level.label ++ " " ++ note.text

end Note

def notesOf (diagnostics : List Diagnostic) : List Note := diagnostics.map .diagnostic

namespace Diagnostics

def absorb (log : Diagnostics) (notes : List Note) : Diagnostics :=
  log.pushAll (notes.filterMap Note.diagnostic?)

/-- The notes that count: every message, and each diagnostic that is new to the log. -/
def news (log : Diagnostics) : List Note → List Note
  | [] => []
  | .message message :: rest => .message message :: log.news rest
  | .diagnostic diagnostic :: rest =>
    if diagnostic ∈ log.entries then log.news rest
    else .diagnostic diagnostic :: (log.push diagnostic).news rest

end Diagnostics

/-- A result and the notes made on the way to it. -/
structure Noted (α : Type) where
  value : α
  notes : List Note := []

namespace Noted

def of {α : Type} (value : α) (diagnostics : List Diagnostic) : Noted α :=
  ⟨value, notesOf diagnostics⟩

instance : Monad Noted where
  pure value := ⟨value, []⟩
  bind first next :=
    let second := next first.value
    ⟨second.value, first.notes ++ second.notes⟩

def say (message : Message) : Noted Unit := ⟨(), [.message message]⟩

variable {α β : Type}

@[simp] theorem value_pure (value : α) : (pure value : Noted α).value = value := rfl

@[simp] theorem value_bind (first : Noted α) (next : α → Noted β) :
    (first >>= next).value = (next first.value).value := rfl

@[simp] theorem notes_bind (first : Noted α) (next : α → Noted β) :
    (first >>= next).notes = first.notes ++ (next first.value).notes := rfl

@[simp] theorem value_map (change : α → β) (first : Noted α) :
    (change <$> first).value = change first.value := rfl

instance : LawfulMonad Noted := LawfulMonad.mk' Noted
  (fun first => by
    show (⟨first.value, first.notes ++ []⟩ : Noted _) = first
    simp)
  (fun _ _ => rfl)
  (fun first second third => by
    show (⟨_, (_ ++ _) ++ _⟩ : Noted _) = ⟨_, _ ++ (_ ++ _)⟩
    rw [List.append_assoc]
    rfl)

theorem value_foldlM (step : β → α → Noted β) (start : β) (items : List α) :
    (items.foldlM step start).value =
      items.foldl (fun state item => (step state item).value) start := by
  induction items generalizing start with
  | nil => rfl
  | cons item rest ih => simp [ih]

end Noted

end ClassModel
