import ClassModel.Proofs.Model.Names
import ClassModel.Proofs.Text.Blanks

/-! The texts that are types.

A text is a type when it is a name, or a collection around a text that is a type again; blanks may
surround every part. What is read is the name inside the collections. A type whose names can be told
apart is read back from its own text.
-/

set_option autoImplicit false

namespace ClassModel

namespace Text

theorem trim_eq_iff (text word : String) :
    trim text = word ↔ trimChars text.toList = word.toList := by
  rw [← String.toList_inj, toList_trim]

end Text

namespace TypeExpr

/-! ## The form of a text -/

theorem collectionKind?_eq_some_iff (word : List Char) (kind : CollectionKind) :
    collectionKind? word = some kind ↔ word = kind.label.toList := by
  unfold collectionKind?
  constructor
  · intro found
    split at found
    case isTrue same =>
      cases found
      exact same
    case isFalse =>
      split at found
      case isTrue same =>
        cases found
        exact same
      case isFalse => cases found
  · rintro rfl
    cases kind <;> rfl

theorem insideParentheses?_eq_some_iff (afterOpening inner : List Char) :
    insideParentheses? afterOpening = some inner ↔ afterOpening = inner ++ [')'] := by
  unfold insideParentheses?
  constructor
  · intro found
    split at found
    case isTrue closed =>
      obtain ⟨before, rfl⟩ := List.getLast?_eq_some_iff.mp closed
      rw [List.dropLast_concat] at found
      rw [Option.some.inj found]
    case isFalse => cases found
  · rintro rfl
    simp

-- A text is cut at its first opening parenthesis.
theorem formOf_of_opening {before after : List Char} (apart : '(' ∉ before) :
    formOf (before ++ '(' :: after) =
      (insideParentheses? after).elim .neither (.applied before) := by
  have passed : ∀ c ∈ before, (c != '(') = true := by
    intro c member
    rw [bne_iff_ne]
    rintro rfl
    exact apart member
  unfold formOf
  rw [List.takeWhile_append_of_pos passed, List.dropWhile_append_of_pos passed,
    List.takeWhile_cons_of_neg (by simp), List.dropWhile_cons_of_neg (by simp), List.append_nil]
  cases inner : insideParentheses? after <;> simp only [inner, Option.elim]

theorem formOf_of_no_opening {text : List Char} (missing : '(' ∉ text) :
    formOf text = if text = [] ∨ ')' ∈ text then .neither else .name text := by
  have nothing : text.dropWhile (· != '(') = [] := by
    rw [List.dropWhile_eq_nil_iff]
    intro c member
    rw [bne_iff_ne]
    rintro rfl
    exact missing member
  simp [formOf, nothing]

theorem formOf_eq_applied_iff (text word argument : List Char) :
    formOf text = .applied word argument ↔
      text = word ++ '(' :: (argument ++ [')']) ∧ '(' ∉ word := by
  constructor
  · intro form
    by_cases opened : '(' ∈ text
    · obtain ⟨before, after, rfl, apart⟩ := List.eq_append_cons_of_mem opened
      rw [formOf_of_opening apart] at form
      cases closed : insideParentheses? after with
      | none =>
        rw [closed] at form
        cases form
      | some inner =>
        rw [closed] at form
        obtain ⟨rfl, rfl⟩ := Form.applied.inj form
        rw [(insideParentheses?_eq_some_iff _ _).mp closed]
        exact ⟨rfl, apart⟩
    · rw [formOf_of_no_opening opened] at form
      split at form <;> cases form
  · rintro ⟨rfl, apart⟩
    rw [formOf_of_opening apart, (insideParentheses?_eq_some_iff _ _).mpr rfl, Option.elim_some]

theorem formOf_eq_name_iff (text word : List Char) :
    formOf text = .name word ↔ word = text ∧ text ≠ [] ∧ '(' ∉ text ∧ ')' ∉ text := by
  constructor
  · intro form
    by_cases opened : '(' ∈ text
    · obtain ⟨before, after, rfl, apart⟩ := List.eq_append_cons_of_mem opened
      rw [formOf_of_opening apart] at form
      cases closed : insideParentheses? after <;> rw [closed] at form <;> cases form
    · rw [formOf_of_no_opening opened] at form
      split at form
      case isTrue => cases form
      case isFalse plain =>
        rw [not_or] at plain
        exact ⟨(Form.name.inj form).symm, plain.1, opened, plain.2⟩
  · rintro ⟨rfl, some, opened, closed⟩
    rw [formOf_of_no_opening opened, if_neg (not_or.mpr ⟨some, closed⟩)]

/-! ## What a text spells -/

/-- A word that can be the name of a type. -/
structure IsName (word : String) : Prop where
  nonempty : word ≠ ""
  noOpening : '(' ∉ word.toList
  noClosing : ')' ∉ word.toList

/-- A text spells a name inside collections, the outermost of them first. -/
inductive Spells : String → List CollectionKind → String → Prop where
  | name {text : String} (isName : IsName (Text.trim text)) : Spells text [] (Text.trim text)
  | collection {text inner : String} {kinds : List CollectionKind} {name : String}
      (kind : CollectionKind) (form : Text.trim text = kind.label ++ "(" ++ inner ++ ")")
      (element : Spells inner kinds name) : Spells text (kind :: kinds) name

variable (resolve : String → Option EntityId)

/-- The entity of a name, or else the primitive of that name. -/
def named (name : String) : TypeExpr :=
  match resolve name with
  | some id => .entity id
  | none => .primitive name

def inside (kinds : List CollectionKind) (type : TypeExpr) : TypeExpr :=
  kinds.foldr .collection type

theorem parse_eq_ok_iff_parseChars (text : String) (type : TypeExpr) :
    parse resolve text = .ok type ↔ parseChars resolve text.toList = .ok type := by
  unfold parse
  cases parseChars resolve text.toList <;> simp [Except.mapError]

theorem parseChars_of_name {text word : List Char}
    (form : formOf (Text.trimChars text) = .name word) :
    parseChars resolve text = .ok (named resolve (String.ofList word)) := by
  unfold parseChars named
  split
  case h_1 neither => simp [form] at neither
  case h_2 other spelled =>
    rw [form] at spelled
    obtain rfl := Form.name.inj spelled
    cases resolve (String.ofList word) <;> rfl
  case h_3 applied => simp [form] at applied

theorem parseChars_of_collection {text argument : List Char} {kind : CollectionKind}
    (form : formOf (Text.trimChars text) = .applied kind.label.toList argument)
    {element : TypeExpr} (read : parseChars resolve argument = .ok element) :
    parseChars resolve text = .ok (.collection kind element) := by
  unfold parseChars
  split
  case h_1 neither => simp [form] at neither
  case h_2 spelled => simp [form] at spelled
  case h_3 word inner applied =>
    rw [form] at applied
    obtain ⟨rfl, rfl⟩ := Form.applied.inj applied
    simp only [read, (collectionKind?_eq_some_iff _ kind).mpr rfl]

theorem opening_not_mem_label (kind : CollectionKind) : '(' ∉ kind.label.toList := by
  cases kind <;> decide

theorem Spells.parse {text : String} {kinds : List CollectionKind} {name : String}
    (spells : Spells text kinds name) :
    TypeExpr.parse resolve text = .ok (inside kinds (named resolve name)) := by
  rw [parse_eq_ok_iff_parseChars]
  induction spells with
  | @name text isName =>
    have form : formOf (Text.trimChars text.toList) = .name (Text.trimChars text.toList) := by
      refine (formOf_eq_name_iff _ _).mpr ⟨rfl, fun none => isName.nonempty ?_, ?_, ?_⟩
      · rw [Text.trim_eq_iff, none]
        rfl
      · simpa using isName.noOpening
      · simpa using isName.noClosing
    exact parseChars_of_name resolve form
  | @collection text inner kinds name kind spelled element read =>
    have form : formOf (Text.trimChars text.toList) = .applied kind.label.toList inner.toList := by
      rw [formOf_eq_applied_iff, (Text.trim_eq_iff _ _).mp spelled]
      exact ⟨by simp, opening_not_mem_label kind⟩
    exact parseChars_of_collection resolve form read

theorem spells_of_name {text word : List Char} (form : formOf (Text.trimChars text) = .name word) :
    Spells (String.ofList text) [] (String.ofList word) := by
  obtain ⟨rfl, some, opened, closed⟩ := (formOf_eq_name_iff _ _).mp form
  have trimmed : Text.trim (String.ofList text) = String.ofList (Text.trimChars text) := by
    rw [Text.trim_eq_iff, String.toList_ofList, String.toList_ofList]
  rw [← trimmed]
  refine .name ⟨fun empty => some ?_, ?_, ?_⟩
  · rw [Text.trim_eq_iff, String.toList_ofList] at empty
    exact empty
  · rwa [trimmed, String.toList_ofList]
  · rwa [trimmed, String.toList_ofList]

theorem spells_of_collection {text word argument : List Char} {kind : CollectionKind}
    (form : formOf (Text.trimChars text) = .applied word argument)
    (known : collectionKind? word = some kind) {kinds : List CollectionKind} {name : String}
    (element : Spells (String.ofList argument) kinds name) :
    Spells (String.ofList text) (kind :: kinds) name := by
  refine .collection kind ?_ element
  rw [Text.trim_eq_iff, String.toList_ofList, ((formOf_eq_applied_iff _ _ _).mp form).1,
    (collectionKind?_eq_some_iff _ _).mp known]
  simp

-- The induction follows the reader into the argument of each collection.
theorem spells_of_parseChars {text : List Char} {type : TypeExpr}
    (read : parseChars resolve text = .ok type) :
    ∃ kinds name, Spells (String.ofList text) kinds name ∧
      type = inside kinds (named resolve name) := by
  fun_induction parseChars resolve text generalizing type with
  | case1 | case4 | case6 => cases read
  | case2 text word form id found =>
    cases read
    exact ⟨[], String.ofList word, spells_of_name form, by simp [inside, named, found]⟩
  | case3 text word form unknown =>
    cases read
    exact ⟨[], String.ofList word, spells_of_name form, by simp [inside, named, unknown]⟩
  | case5 text word argument form element inner kind known ih =>
    cases read
    obtain ⟨kinds, name, spells, rfl⟩ := ih inner
    exact ⟨kind :: kinds, name, spells_of_collection form known spells, rfl⟩

theorem parse_eq_ok_iff_spells (text : String) (type : TypeExpr) :
    parse resolve text = .ok type ↔
      ∃ kinds name, Spells text kinds name ∧ type = inside kinds (named resolve name) := by
  constructor
  · intro read
    simpa using spells_of_parseChars resolve ((parse_eq_ok_iff_parseChars resolve _ _).mp read)
  · rintro ⟨kinds, name, spells, rfl⟩
    exact spells.parse resolve

/-! ## Types as texts -/

/-- A type whose name can be read, and is read as what it is the name of. -/
def Legible (nameOf : EntityId → String) : TypeExpr → Prop
  | .primitive name => IsName name ∧ Text.trim name = name ∧ resolve name = none
  | .entity id =>
    IsName (nameOf id) ∧ Text.trim (nameOf id) = nameOf id ∧ ∃ name, resolve name = some id
  | .collection _ element => element.Legible nameOf

-- A label starts with a letter, and a parenthesis ends the text.
theorem trim_collection (kind : CollectionKind) (inner : String) :
    Text.trim (kind.label ++ "(" ++ inner ++ ")") = kind.label ++ "(" ++ inner ++ ")" := by
  rw [Text.trim_eq_iff]
  refine Text.Trimmed.trimChars ⟨?_, ?_⟩
  · intro c first
    obtain rfl : 'S' = c := by cases kind <;> simpa [CollectionKind.label] using first
    rfl
  · intro c last
    have parenthesis : ")".toList = [')'] := rfl
    rw [String.toList_append, parenthesis, List.getLast?_concat] at last
    obtain rfl := Option.some.inj last
    rfl

theorem Legible.spells {nameOf : EntityId → String}
    (listed : ∀ name id, resolve name = some id → nameOf id = name) {type : TypeExpr}
    (legible : type.Legible resolve nameOf) :
    ∃ kinds name, Spells (type.render nameOf) kinds name ∧
      type = inside kinds (named resolve name) := by
  induction type with
  | primitive name =>
    obtain ⟨isName, trimmed, unknown⟩ := legible
    refine ⟨[], name, ?_, by simp [inside, named, unknown]⟩
    have spells : Spells name [] (Text.trim name) := .name (trimmed.symm ▸ isName)
    rwa [trimmed] at spells
  | entity id =>
    obtain ⟨isName, trimmed, name, known⟩ := legible
    obtain rfl := listed name id known
    refine ⟨[], nameOf id, ?_, by simp [inside, named, known]⟩
    have spells : Spells (nameOf id) [] (Text.trim (nameOf id)) := .name (trimmed.symm ▸ isName)
    rwa [trimmed] at spells
  | collection kind element ih =>
    obtain ⟨kinds, name, spells, same⟩ := ih legible
    exact ⟨kind :: kinds, name, .collection kind (trim_collection kind _) spells,
      congrArg (collection kind) same⟩

end TypeExpr

/-- With names that belong to the entities they stand for, a legible type is read back from its own
text; and a text is read exactly when it spells a name inside collections, as what it spells. -/
theorem Model.typeTexts_exact (model : Model) {resolve : String → Option EntityId}
    (listed : ∀ name id, resolve name = some id → model.name id = name) :
    (∀ type : TypeExpr, type.Legible resolve model.name →
      TypeExpr.parse resolve (model.typeName type) = .ok type) ∧
    ∀ (text : String) (type : TypeExpr), TypeExpr.parse resolve text = .ok type ↔
      ∃ kinds name, TypeExpr.Spells text kinds name ∧
        type = .inside kinds (.named resolve name) := by
  have exact := TypeExpr.parse_eq_ok_iff_spells resolve
  refine ⟨fun type legible => ?_, exact⟩
  exact (exact _ type).mpr (legible.spells resolve listed)

/-- Customers and orders, and a second entity of the name of the first one. -/
def catalogue : Model :=
  [Edit.insertEntity (.named "Customer"), .insertEntity (.named "Order"),
    .insertEntity (.named "Customer")].foldl Edit.apply .empty

/-- Sets of sequences of orders are read back from their text, and so are orders from a text with
blanks around every part. -/
theorem typeTexts_catalogue :
    (∀ name id, catalogue.entityNamed? name = some id → catalogue.name id = name) ∧
      (TypeExpr.setOf (.sequenceOf (.entity ⟨1⟩))).Legible catalogue.entityNamed? catalogue.name ∧
      TypeExpr.parse catalogue.entityNamed?
        (catalogue.typeName (.setOf (.sequenceOf (.entity ⟨1⟩)))) =
          .ok (.setOf (.sequenceOf (.entity ⟨1⟩))) ∧
      TypeExpr.Spells " Set( Order ) " [.set] "Order" ∧
      TypeExpr.parse catalogue.entityNamed? " Set( Order ) " = .ok (.setOf (.entity ⟨1⟩)) := by
  have indexed : catalogue.NamesIndexed :=
    (Model.EditsFit.leads (by decide)).namesIndexed Model.namesIndexed_empty
  have listed : ∀ name id, catalogue.entityNamed? name = some id → catalogue.name id = name := by
    intro name id found
    rw [indexed name, Model.firstNamed?_eq_some_iff] at found
    exact found.2.1
  have order : catalogue.entityNamed? "Order" = some ⟨1⟩ := by decide +kernel
  have legible : (TypeExpr.setOf (.sequenceOf (.entity ⟨1⟩))).Legible catalogue.entityNamed?
      catalogue.name :=
    ⟨⟨by decide, by decide, by decide⟩, by decide, "Order", order⟩
  have spells : TypeExpr.Spells " Set( Order ) " [.set] "Order" :=
    have word : TypeExpr.Spells " Order " [] "Order" := .name ⟨by decide, by decide, by decide⟩
    .collection .set (by decide) word
  obtain ⟨readBack, exact⟩ := catalogue.typeTexts_exact listed
  refine ⟨listed, legible, readBack _ legible, spells,
    (exact _ _).mpr ⟨[.set], "Order", spells, ?_⟩⟩
  simp [TypeExpr.inside, TypeExpr.named, order, TypeExpr.setOf]

end ClassModel
