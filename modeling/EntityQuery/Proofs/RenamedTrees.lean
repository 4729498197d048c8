import EntityQuery.Resolved.Typing

/-!
# Resolved queries with other variables

Renaming the variables of a resolved query gives other names to its elements and result variables,
and puts them in front of the paths that joins were made for. Types, numbers and shapes are left.

* `renamedText`: the text of a path with another name at its beginning.
* `FromElement.renamed`: an element, with all that it was reached by.
* `Statement.renamed`, `Select.renamed`, `Expression.renamed`: trees.
* `Expression.type?_renamed`: renaming changes no type.
-/

namespace EntityQuery

/-! ## Path texts -/

namespace DottedName

theorem text_single (part : String) : (DottedName.mk [part]).text = part :=
  String.toList_injective (by simp [text])

theorem text_cons_cons (first second : String) (names : List String) :
    (DottedName.mk (first :: second :: names)).text
      = first ++ "." ++ (DottedName.mk (second :: names)).text := by
  simp [text]

end DottedName

/-- The text in front of the first point. -/
def leadingPart (text : String) : String := String.ofList (text.toList.takeWhile (· != '.'))

/-- The text of a path with another name in front of its first point. -/
def renamedText (rename : String → String) (text : String) : String :=
  rename (leadingPart text) ++ String.ofList (text.toList.dropWhile (· != '.'))

theorem takeWhile_point (front rest : List Char) :
    (front ++ '.' :: rest).takeWhile (· != '.') = front.takeWhile (· != '.') := by
  induction front with
  | nil => rfl
  | cons c front ih =>
    rw [List.cons_append, List.takeWhile_cons, List.takeWhile_cons, ih]

theorem dropWhile_point (front rest : List Char) :
    (front ++ '.' :: rest).dropWhile (· != '.') = front.dropWhile (· != '.') ++ '.' :: rest := by
  induction front with
  | nil => rfl
  | cons c front ih =>
    rw [List.cons_append, List.dropWhile_cons, List.dropWhile_cons, ih]
    cases c != '.' <;> rfl

theorem leadingPart_point (text rest : String) :
    leadingPart (text ++ "." ++ rest) = leadingPart text := by
  have htext : (text ++ "." ++ rest).toList = text.toList ++ '.' :: rest.toList := by
    simp
  rw [leadingPart, htext, takeWhile_point, leadingPart]

/-- What follows a point is left as it is. -/
theorem renamedText_point (rename : String → String) (text rest : String) :
    renamedText rename (text ++ "." ++ rest) = renamedText rename text ++ "." ++ rest := by
  have htext : (text ++ "." ++ rest).toList = text.toList ++ '.' :: rest.toList := by
    simp
  rw [renamedText, renamedText, leadingPart_point, htext, dropWhile_point]
  apply String.toList_injective
  simp

section

variable {name : String} (hname : '.' ∉ name.toList)
include hname

theorem ne_point_of_plain : ∀ c ∈ name.toList, (c != '.') = true := by
  intro c hc
  rw [bne_iff_ne]
  rintro rfl
  exact hname hc

theorem leadingPart_plain : leadingPart name = name := by
  have hwhole : name.toList.takeWhile (· != '.') = name.toList := by
    rw [← List.append_nil name.toList, List.takeWhile_append_of_pos (ne_point_of_plain hname)]
    rfl
  rw [leadingPart, hwhole, String.ofList_toList]

/-- A name without points is renamed as a whole. -/
theorem renamedText_plain (rename : String → String) : renamedText rename name = rename name := by
  have hrest : name.toList.dropWhile (· != '.') = [] := by
    rw [← List.append_nil name.toList, List.dropWhile_append_of_pos (ne_point_of_plain hname)]
    rfl
  rw [renamedText, leadingPart_plain hname, hrest]
  simp

end

/-! ## Elements -/

def Binding.renamed (rename : String → String) (binding : Binding) : Binding :=
  { binding with aliasName := rename binding.aliasName }

def AttributeJoin.renamed (rename : String → String) (join : AttributeJoin) : AttributeJoin :=
  { join with path := renamedText rename join.path }

namespace FromElement

/-- The element with other variables, on the whole way to it. -/
def renamed (rename : String → String) : FromElement → FromElement
  | root binding => root (binding.renamed rename)
  | crossJoin binding => crossJoin (binding.renamed rename)
  | entityJoin binding joinType => entityJoin (binding.renamed rename) joinType
  | attributeJoin binding source join =>
    attributeJoin (binding.renamed rename) (source.renamed rename) (join.renamed rename)
  | treated binding wrapped => treated (binding.renamed rename) (wrapped.renamed rename)

variable {rename : String → String} {element : FromElement}

theorem binding_renamed : (element.renamed rename).binding = element.binding.renamed rename := by
  cases element <;> rfl

@[simp] theorem uid_renamed : (element.renamed rename).uid = element.uid := by
  cases element <;> rfl

@[simp] theorem aliasName_renamed :
    (element.renamed rename).aliasName = rename element.aliasName := by
  cases element <;> rfl

@[simp] theorem type_renamed : (element.renamed rename).type = element.type := by
  cases element <;> rfl

@[simp] theorem isPolymorphic_renamed :
    (element.renamed rename).isPolymorphic = element.isPolymorphic := by
  rw [isPolymorphic, type_renamed]
  rfl

@[simp] theorem isImplicit_renamed : (element.renamed rename).isImplicit = element.isImplicit := by
  cases element <;> rfl

@[simp] theorem collection?_renamed :
    (element.renamed rename).collection? = element.collection? := by
  cases element <;> rfl

@[simp] theorem unwrapped_renamed :
    (element.renamed rename).unwrapped = element.unwrapped.renamed rename := by
  induction element with
  | treated binding wrapped ih => exact ih
  | _ => rfl

end FromElement

/-! ## Trees -/

namespace Resolved

section

variable (rename : String → String)

mutual

def Expression.renamed : Expression → Expression
  | .literal token => .literal token
  | .parameter written => .parameter written
  | .element bound => .element (bound.renamed rename)
  | .entityType entity => .entityType entity
  | .reference attained => .reference attained.renamed
  | .indexed attained => .indexed attained.renamed
  | .constant owner member type => .constant owner member type
  | .mapEntry function join type? => .mapEntry function (join.renamed rename) type?
  | .collectionFunction function argument type? =>
    .collectionFunction function argument.renamed type?
  | .call name distinct star standard arguments type? =>
    .call name distinct star standard (expressionsRenamed arguments) type?
  | .arithmetic operator left right type? => .arithmetic operator left.renamed right.renamed type?
  | .concatenation left right => .concatenation left.renamed right.renamed
  | .unary sign operand => .unary sign operand.renamed
  | .simpleCase operand whens otherwise type? =>
    .simpleCase operand.renamed (simpleWhensRenamed whens) (optionalRenamed otherwise) type?
  | .searchedCase whens otherwise type? =>
    .searchedCase (searchedWhensRenamed whens) (optionalRenamed otherwise) type?
  | .subquery nested => .subquery nested.renamed
  | .selection aliasName position type? => .selection (rename aliasName) position type?
  | .instantiation target arguments => .instantiation target (argumentsRenamed arguments)

def AttributeReference.renamed : AttributeReference → AttributeReference
  | .mk source declared type => .mk source.renamed declared type

def PathSource.renamed : PathSource → PathSource
  | .element bound => .element (bound.renamed rename)
  | .indexed attained => .indexed attained.renamed
  | .reference attained => .reference attained.renamed

def IndexedReference.renamed : IndexedReference → IndexedReference
  | .mk collection index type => .mk collection.renamed index.renamed type

def expressionsRenamed : List Expression → List Expression
  | [] => []
  | first :: rest => first.renamed :: expressionsRenamed rest

def optionalRenamed : Option Expression → Option Expression
  | none => none
  | some value => some value.renamed

def SimpleWhen.renamed : SimpleWhen → SimpleWhen
  | .mk value result => .mk value.renamed result.renamed

def simpleWhensRenamed : List SimpleWhen → List SimpleWhen
  | [] => []
  | first :: rest => first.renamed :: simpleWhensRenamed rest

def SearchedWhen.renamed : SearchedWhen → SearchedWhen
  | .mk condition result => .mk condition.renamed result.renamed

def searchedWhensRenamed : List SearchedWhen → List SearchedWhen
  | [] => []
  | first :: rest => first.renamed :: searchedWhensRenamed rest

/-- The alias of an argument is no variable. -/
def argumentsRenamed : List Argument → List Argument
  | [] => []
  | .mk value alias? :: rest => .mk value.renamed alias? :: argumentsRenamed rest

def Predicate.renamed : Predicate → Predicate
  | .and left right => .and left.renamed right.renamed
  | .or left right => .or left.renamed right.renamed
  | .not inner => .not inner.renamed
  | .grouped inner => .grouped inner.renamed
  | .comparison operator left right => .comparison operator left.renamed right.renamed
  | .between tested lower upper negated =>
    .between tested.renamed lower.renamed upper.renamed negated
  | .like matched pattern escape negated =>
    .like matched.renamed pattern.renamed (optionalRenamed escape) negated
  | .inList tested items negated => .inList tested.renamed (expressionsRenamed items) negated
  | .inSubquery tested nested negated => .inSubquery tested.renamed nested.renamed negated
  | .isNull tested negated => .isNull tested.renamed negated
  | .isEmpty collection negated => .isEmpty collection.renamed negated
  | .memberOf plural other negated => .memberOf plural.renamed other.renamed negated
  | .existence nested negated => .existence nested.renamed negated

def restrictionRenamed : Option Predicate → Option Predicate
  | none => none
  | some condition => some condition.renamed

def Subquery.renamed : Subquery → Subquery
  | .mk select type? => .mk select.renamed type?

def Selection.renamed : Selection → Selection
  | .mk value alias? => .mk value.renamed (alias?.map rename)

def selectionsRenamed : List Selection → List Selection
  | [] => []
  | first :: rest => first.renamed :: selectionsRenamed rest

def Join.renamed : Join → Join
  | .mk element condition => .mk (element.renamed rename) (restrictionRenamed condition)

def joinsRenamed : List Join → List Join
  | [] => []
  | first :: rest => first.renamed :: joinsRenamed rest

def Space.renamed : Space → Space
  | .mk root joins => .mk (root.renamed rename) (joinsRenamed joins)

def spacesRenamed : List Space → List Space
  | [] => []
  | first :: rest => first.renamed :: spacesRenamed rest

def SortItem.renamed : SortItem → SortItem
  | .mk value collation order => .mk value.renamed collation order

def sortItemsRenamed : List SortItem → List SortItem
  | [] => []
  | first :: rest => first.renamed :: sortItemsRenamed rest

def orderRenamed : Option (List SortItem) → Option (List SortItem)
  | none => none
  | some items => some (sortItemsRenamed items)

def Select.renamed : Select → Select
  | .mk spaces distinct selections condition order limit offset =>
    .mk (spacesRenamed spaces) distinct (selectionsRenamed selections)
      (restrictionRenamed condition) (orderRenamed order) (optionalRenamed limit)
      (optionalRenamed offset)

end

def Assignment.renamed (node : Assignment) : Assignment :=
  ⟨node.target.renamed rename, node.value.renamed rename⟩

/-- The statement with other variables. -/
def Statement.renamed : Statement → Statement
  | .select query => .select (query.renamed rename)
  | .update target assignments condition =>
    .update (target.renamed rename) (assignments.map (Assignment.renamed rename))
      (restrictionRenamed rename condition)
  | .delete target condition =>
    .delete (target.renamed rename) (restrictionRenamed rename condition)
  | .insert target stateFields query =>
    .insert (target.renamed rename) (stateFields.map (AttributeReference.renamed rename))
      (query.renamed rename)

end

/-! ## Types and lists -/

section

variable {rename : String → String}

@[simp] theorem AttributeReference.type_renamed (node : AttributeReference) :
    (node.renamed rename).type = node.type := by
  cases node
  rfl

@[simp] theorem IndexedReference.type_renamed (node : IndexedReference) :
    (node.renamed rename).type = node.type := by
  cases node
  rfl

@[simp] theorem Subquery.type?_renamed (node : Subquery) :
    (node.renamed rename).type? = node.type? := by
  cases node
  rfl

@[simp] theorem Expression.type?_renamed : ∀ node : Expression,
    (node.renamed rename).type? = node.type?
  | .unary _ operand => Expression.type?_renamed operand
  | .element bound => congrArg some bound.type_renamed
  | .reference attained => congrArg some attained.type_renamed
  | .indexed attained => congrArg some attained.type_renamed
  | .subquery nested => nested.type?_renamed
  | .literal _ | .parameter _ | .entityType _ | .constant _ _ _ | .mapEntry _ _ _
  | .collectionFunction _ _ _ | .call _ _ _ _ _ _ | .arithmetic _ _ _ _ | .concatenation _ _
  | .simpleCase _ _ _ _ | .searchedCase _ _ _ | .selection _ _ _ | .instantiation _ _ => rfl

theorem Selection.alias?_renamed (node : Selection) :
    (node.renamed rename).alias? = node.alias?.map rename := by
  cases node
  rfl

theorem Selection.expression_renamed (node : Selection) :
    (node.renamed rename).expression = node.expression.renamed rename := by
  cases node
  rfl

theorem expressionsRenamed_eq (nodes : List Expression) :
    expressionsRenamed rename nodes = nodes.map (Expression.renamed rename) := by
  induction nodes with
  | nil => rfl
  | cons node nodes ih => exact congrArg (node.renamed rename :: ·) ih

theorem joinsRenamed_eq (nodes : List Join) :
    joinsRenamed rename nodes = nodes.map (Join.renamed rename) := by
  induction nodes with
  | nil => rfl
  | cons node nodes ih => exact congrArg (node.renamed rename :: ·) ih

theorem types_renamed (nodes : List Expression) :
    (expressionsRenamed rename nodes).map Expression.type? = nodes.map Expression.type? := by
  induction nodes with
  | nil => rfl
  | cons node nodes ih =>
    rw [expressionsRenamed, List.map_cons, List.map_cons, node.type?_renamed, ih]

theorem firstTyped_renamed (nodes : List Expression) :
    firstTyped (expressionsRenamed rename nodes) = firstTyped nodes := by
  rw [expressionsRenamed_eq, firstTyped, List.findSome?_map, firstTyped]
  exact congrArg (List.findSome? · nodes) (funext fun node => node.type?_renamed)

theorem simpleResults_renamed (nodes : List SimpleWhen) :
    (simpleWhensRenamed rename nodes).map SimpleWhen.result
      = expressionsRenamed rename (nodes.map SimpleWhen.result) := by
  induction nodes with
  | nil => rfl
  | cons node nodes ih =>
    obtain ⟨value, result⟩ := node
    exact congrArg (result.renamed rename :: ·) ih

theorem searchedResults_renamed (nodes : List SearchedWhen) :
    (searchedWhensRenamed rename nodes).map SearchedWhen.result
      = expressionsRenamed rename (nodes.map SearchedWhen.result) := by
  induction nodes with
  | nil => rfl
  | cons node nodes ih =>
    obtain ⟨condition, result⟩ := node
    exact congrArg (result.renamed rename :: ·) ih

/-- Renaming does not change the type of a case. -/
theorem caseType?_renamed (results : List Expression) (otherwise : Option Expression) :
    caseType? (expressionsRenamed rename results) (optionalRenamed rename otherwise)
      = caseType? results otherwise := by
  have hall : expressionsRenamed rename results ++ (optionalRenamed rename otherwise).toList
      = expressionsRenamed rename (results ++ otherwise.toList) := by
    cases otherwise with
    | none => simp [optionalRenamed]
    | some value => simp [optionalRenamed, expressionsRenamed_eq]
  rw [caseType?, hall, firstTyped_renamed]
  rfl

theorem Subquery.ofSelect_renamed (select : Select) :
    Subquery.ofSelect (select.renamed rename) = (Subquery.ofSelect select).renamed rename := by
  obtain ⟨spaces, distinct, selections, condition, order, limit, offset⟩ := select
  have htype : selectionType? (selectionsRenamed rename selections) 0
      = selectionType? selections 0 := by
    cases selections with
    | nil => rfl
    | cons first rest =>
      obtain ⟨value, alias?⟩ := first
      exact value.type?_renamed
  exact congrArg (Subquery.mk _) htype

end

end Resolved
end EntityQuery
