import ClassModel.Id
import ClassModel.Text.Blank

/-! Types of attributes, parameters and features.

A type is a primitive label, a reference to an entity, or a collection of another type. In text a
name that belongs to an entity refers to it, and any other name is primitive.
-/

set_option autoImplicit false

namespace ClassModel

inductive CollectionKind where
  | set
  | sequence
  deriving DecidableEq, Repr

def CollectionKind.label : CollectionKind → String
  | .set => "Set"
  | .sequence => "Sequence"

inductive TypeExpr where
  | primitive (name : String)
  | entity (id : EntityId)
  | collection (kind : CollectionKind) (element : TypeExpr)
  deriving DecidableEq, Repr, Inhabited

namespace TypeExpr

def setOf (element : TypeExpr) : TypeExpr := .collection .set element

def sequenceOf (element : TypeExpr) : TypeExpr := .collection .sequence element

/-- The elements' type of a collection, and any other type itself. -/
def elementType : TypeExpr → TypeExpr
  | .collection _ element => element
  | type => type

def isCollection : TypeExpr → Bool
  | .collection _ _ => true
  | _ => false

def isEntityType : TypeExpr → Bool
  | .entity _ => true
  | _ => false

/-- A collection whose elements are references to an entity. -/
def isEntityCollection : TypeExpr → Bool
  | .collection _ element => element.isEntityType
  | _ => false

/-- The entity referred to directly or as an element. -/
def referencedEntity? (type : TypeExpr) : Option EntityId :=
  match type.elementType with
  | .entity id => some id
  | _ => none

/-- The same type with its entity reference replaced. -/
def mapEntities (replace : EntityId → EntityId) : TypeExpr → TypeExpr
  | .primitive name => .primitive name
  | .entity id => .entity (replace id)
  | .collection kind element => .collection kind (element.mapEntities replace)

/-- The type as text, with a name for every entity. -/
def render (nameOf : EntityId → String) : TypeExpr → String
  | .primitive name => name
  | .entity id => nameOf id
  | .collection kind element => kind.label ++ "(" ++ element.render nameOf ++ ")"

def collectionKind? (word : List Char) : Option CollectionKind :=
  if word = ['S', 'e', 't'] then some .set
  else if word = ['S', 'e', 'q', 'u', 'e', 'n', 'c', 'e'] then some .sequence
  else none

theorem length_trimChars_le (cs : List Char) : (Text.trimChars cs).length ≤ cs.length := by
  simp only [Text.trimChars, Text.dropLeadingBlanks, List.length_reverse]
  have outer := (List.dropWhile_sublist Text.isBlank (l := (cs.dropWhile Text.isBlank).reverse)).length_le
  have inner := (List.dropWhile_sublist Text.isBlank (l := cs)).length_le
  simp only [List.length_reverse] at outer
  omega

/-- The text between an opening parenthesis and the closing one that ends the text. -/
def insideParentheses? (afterOpening : List Char) : Option (List Char) :=
  if afterOpening.getLast? = some ')' then some afterOpening.dropLast else none

theorem length_insideParentheses? {afterOpening inner : List Char}
    (found : insideParentheses? afterOpening = some inner) :
    inner.length ≤ afterOpening.length := by
  unfold insideParentheses? at found
  split at found
  · simp only [Option.some.injEq] at found
    subst found
    simp
  · simp at found

/-- The outermost form of a text without surrounding blanks. -/
inductive Form where
  | name (word : List Char)
  | applied (word argument : List Char)
  | neither
  deriving DecidableEq, Repr

def formOf (text : List Char) : Form :=
  match text.dropWhile (· != '(') with
  | _ :: afterOpening =>
    match insideParentheses? afterOpening with
    | some argument => .applied (text.takeWhile (· != '(')) argument
    | none => .neither
  | [] => if text.isEmpty || text.contains ')' then .neither else .name text

theorem length_argument_lt {text word argument : List Char}
    (form : formOf text = .applied word argument) : argument.length < text.length := by
  unfold formOf at form
  split at form
  · rename_i opened
    have shorter := (List.dropWhile_sublist (· != '(') (l := text)).length_le
    rw [opened] at shorter
    split at form
    · rename_i enclosed
      have inside := length_insideParentheses? enclosed
      simp only [Form.applied.injEq] at form
      rw [form.2] at inside
      simp only [List.length_cons] at shorter
      omega
    · simp at form
  · split at form <;> simp at form

/-- Read a type; the text that is no type, without surrounding blanks, is the error. A name that
resolves to an entity refers to it. -/
def parseChars (resolve : String → Option EntityId) (text : List Char) :
    Except (List Char) TypeExpr :=
  match _form : formOf (Text.trimChars text) with
  | .neither => .error (Text.trimChars text)
  | .name word =>
    match resolve (String.ofList word) with
    | some id => .ok (.entity id)
    | none => .ok (.primitive (String.ofList word))
  | .applied word argument =>
    match parseChars resolve argument with
    | .error wrong => .error wrong
    | .ok element =>
      match collectionKind? word with
      | some kind => .ok (.collection kind element)
      | none => .error (Text.trimChars text)
termination_by text.length
decreasing_by
  have argumentShorter := length_argument_lt _form
  have trimmedShorter := length_trimChars_le text
  omega

def parse (resolve : String → Option EntityId) (text : String) : Except String TypeExpr :=
  (parseChars resolve text.toList).mapError String.ofList

end TypeExpr

end ClassModel
