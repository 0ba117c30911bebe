import ClassModel.Document.Basic
import ClassModel.Json.Outline

/-! Reading a model document from JSON text.

A record is an object of its fields or a list of them in their order. Fields that are not known are
passed over; a known field may occur once. The first fault in the order of the text is the result.
-/

set_option autoImplicit false

namespace ClassModel.Document

open Json (Fault Quoted Ending Outline)

def readText : Outline → Except Fault String
  | .string (.text value) => .ok value
  | other => .error other.mismatch

def readFlag : Outline → Except Fault Bool
  | .bool value => .ok value
  | other => .error other.mismatch

def readOptional {α : Type} (read : Outline → Except Fault α) : Outline → Except Fault (Option α)
  | .null => .ok none
  | other => (read other).map some

def requireClosed (ending : Ending) : Except Fault Unit :=
  match ending.fault? with
  | some fault => .error fault
  | none => .ok ()

def readList {α : Type} (read : Outline → Except Fault α) : Outline → Except Fault (List α)
  | .array items ending => do
    let values ← items.mapM read
    requireClosed ending
    return values
  | other => .error other.mismatch

structure Field (Record : Type) where
  name : String
  read : Outline → Record → Except Fault Record

/-- What a record is made of. Fields that are not required keep the value of the blank record. -/
structure Layout (Record : Type) where
  blank : Record
  fields : List (Field Record)
  required : List String

def Field.of {Record α : Type} (name : String) (read : Outline → Except Fault α)
    (store : Record → α → Record) : Field Record :=
  ⟨name, fun value record => (read value).map (store record)⟩

namespace Layout

variable {Record : Type}

structure Draft (Record : Type) where
  record : Record
  seen : List String

def finish (layout : Layout Record) (draft : Draft Record) : Except Fault Record :=
  if layout.required.all draft.seen.contains then .ok draft.record else .error .misshapen

def readMember (layout : Layout Record) (draft : Draft Record) (member : Quoted × Outline) :
    Except Fault (Draft Record) :=
  match member.1 with
  | .unreadable fault => .error fault
  | .text name =>
    match layout.fields.find? (·.name == name) with
    | none =>
      match member.2.passedFault? with
      | some fault => .error fault
      | none => .ok draft
    | some field =>
      if name ∈ draft.seen then .error .misshapen
      else (field.read member.2 draft.record).map fun record => ⟨record, name :: draft.seen⟩

def readItem (draft : Draft Record) (item : Field Record × Outline) :
    Except Fault (Draft Record) :=
  (item.1.read item.2 draft.record).map fun record => ⟨record, item.1.name :: draft.seen⟩

/-- Behind the last field of a record written as a list only the bracket may follow. -/
def requireNoMore (fieldCount : Nat) (items : List Outline) (ending : Ending) :
    Except Fault Unit :=
  if fieldCount < items.length then .error .malformed
  else match ending with
    | .dangling _ => .error .malformed
    | _ => requireClosed ending

def read (layout : Layout Record) : Outline → Except Fault Record
  | .object members ending => do
    let draft ← members.foldlM layout.readMember ⟨layout.blank, []⟩
    requireClosed ending
    layout.finish draft
  | .array items ending => do
    let draft ← (layout.fields.zip items).foldlM readItem ⟨layout.blank, []⟩
    if items.length < layout.fields.length then
      requireClosed ending
      layout.finish draft
    else
      let record ← layout.finish draft
      requireNoMore layout.fields.length items ending
      return record
  | other => .error other.mismatch

end Layout

def ParameterDecl.layout : Layout ParameterDecl where
  blank := ⟨"", ""⟩
  fields := [
    .of "name" readText fun decl name => { decl with name },
    .of "type" readText fun decl type => { decl with type }]
  required := ["name", "type"]

def AttributeDecl.layout : Layout AttributeDecl where
  blank := { name := "", type := "" }
  fields := [
    .of "name" readText fun decl name => { decl with name },
    .of "type" readText fun decl type => { decl with type },
    .of "flags" (readList readText) fun decl flags => { decl with flags }]
  required := ["name", "type"]

def OperationDecl.layout : Layout OperationDecl where
  blank := { name := "" }
  fields := [
    .of "name" readText fun decl name => { decl with name },
    .of "params" (readList ParameterDecl.layout.read) fun decl params => { decl with params },
    .of "result" (readOptional readText) fun decl result => { decl with result },
    .of "flags" (readList readText) fun decl flags => { decl with flags }]
  required := ["name"]

def InvariantDecl.layout : Layout InvariantDecl where
  blank := { consequent := "" }
  fields := [
    .of "antecedent" readText fun decl antecedent => { decl with antecedent },
    .of "consequent" readText fun decl consequent => { decl with consequent },
    .of "local" readFlag fun decl isLocal => { decl with isLocal }]
  required := ["consequent"]

def EntityDecl.layout : Layout EntityDecl where
  blank := { name := "" }
  fields := [
    .of "name" readText fun decl name => { decl with name },
    .of "superclass" (readOptional readText) fun decl superclass => { decl with superclass },
    .of "parents" (readList readText) fun decl parents => { decl with parents },
    .of "stereotypes" (readList readText) fun decl stereotypes => { decl with stereotypes },
    .of "cardinality" (readOptional readText) fun decl cardinality => { decl with cardinality },
    .of "attributes" (readList AttributeDecl.layout.read)
      fun decl attributes => { decl with attributes },
    .of "operations" (readList OperationDecl.layout.read)
      fun decl operations => { decl with operations },
    .of "invariants" (readList InvariantDecl.layout.read)
      fun decl invariants => { decl with invariants }]
  required := ["name"]

def AssociationDecl.layout : Layout AssociationDecl where
  blank := { entity1 := "", entity2 := "", role2 := "" }
  fields := [
    .of "entity1" readText fun decl entity1 => { decl with entity1 },
    .of "entity2" readText fun decl entity2 => { decl with entity2 },
    .of "role1" (readOptional readText) fun decl role1 => { decl with role1 },
    .of "role2" readText fun decl role2 => { decl with role2 },
    .of "card1" readText fun decl card1 => { decl with card1 },
    .of "card2" readText fun decl card2 => { decl with card2 },
    .of "flags" (readList readText) fun decl flags => { decl with flags },
    .of "inverse" (readOptional readText) fun decl inverse => { decl with inverse }]
  required := ["entity1", "entity2", "role2"]

def layout : Layout Document where
  blank := {}
  fields := [
    .of "entities" (readList EntityDecl.layout.read) fun document entities =>
      { document with entities },
    .of "associations" (readList AssociationDecl.layout.read) fun document associations =>
      { document with associations }]
  required := []

/-- Read a whole text; only blanks may follow the document. -/
def ofText (text : String) : Except Fault Document := do
  let read := Json.Text.read text
  let document ← layout.read read.outline
  if read.complete then return document else throw .malformed

end ClassModel.Document
