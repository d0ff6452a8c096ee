import GraphClient.Document.Parser
import GraphClient.Proofs.Document.Lexing

/-! Documents without their places. Two trees are the same document at two places if they agree once every
span is put to the start of the text (`bare`); where a span of theirs is read again, the two spans are kept
side by side (`Like`). -/

namespace GraphClient

/-- The span of a tree without places. -/
def Span.none : Span := .empty 0

def Name.bare (name : Name) : Name := ⟨name.text, .none⟩

def TypeExpr.bare : TypeExpr → TypeExpr
  | .named name => .named name.bare
  | .list item _ => .list item.bare .none
  | .nonNull inner _ => .nonNull inner.bare .none

mutual

def Literal.bare : Literal → Literal
  | .variable name => .variable name.bare
  | .int value _ => .int value .none
  | .float value _ => .float value .none
  | .string value _ => .string value .none
  | .boolean value _ => .boolean value .none
  | .null _ => .null .none
  | .enum name => .enum name.bare
  | .list items _ => .list (Literal.bareItems items) .none
  | .object fields _ => .object (Literal.bareFields fields) .none

def Literal.bareItems : List Literal → List Literal
  | [] => []
  | item :: rest => item.bare :: Literal.bareItems rest

def Literal.bareFields : List (Name × Literal) → List (Name × Literal)
  | [] => []
  | (name, value) :: rest => (name.bare, value.bare) :: Literal.bareFields rest

end

def Argument.bare (argument : Argument) : Argument := ⟨argument.name.bare, argument.value.bare, .none⟩

def Directive.bare (directive : Directive) : Directive :=
  ⟨directive.name.bare, directive.arguments.map Argument.bare, .none⟩

mutual

def Selection.bare : Selection → Selection
  | .field key name arguments directives set _ =>
      .field (key.map Name.bare) name.bare (arguments.map Argument.bare) (directives.map Directive.bare)
        (SelectionSet.bare? set) .none
  | .spread name directives _ => .spread name.bare (directives.map Directive.bare) .none
  | .inline condition directives set _ =>
      .inline (condition.map Name.bare) (directives.map Directive.bare) set.bare .none

def SelectionSet.bare : SelectionSet → SelectionSet
  | .mk selections _ => .mk (Selection.bareList selections) .none

def SelectionSet.bare? : Option SelectionSet → Option SelectionSet
  | Option.none => Option.none
  | some set => some set.bare

def Selection.bareList : List Selection → List Selection
  | [] => []
  | selection :: rest => selection.bare :: Selection.bareList rest

end

def VariableDefinition.bare (definition : VariableDefinition) : VariableDefinition :=
  ⟨definition.name.bare, definition.type.bare, definition.default.map Literal.bare, .none⟩

def OperationDefinition.bare (definition : OperationDefinition) : OperationDefinition :=
  ⟨definition.kind, definition.name.map Name.bare, definition.variableDefinitions.map VariableDefinition.bare,
    definition.directives.map Directive.bare, definition.set.bare, .none⟩

def FragmentDefinition.bare (definition : FragmentDefinition) : FragmentDefinition :=
  ⟨definition.name.bare, definition.condition.bare, definition.directives.map Directive.bare,
    definition.set.bare, .none⟩

def Definition.bare : Definition → Definition
  | .operation definition => .operation definition.bare
  | .fragment definition => .fragment definition.bare

variable {place : Nat → Nat → Prop}

/-- One name at two places. -/
structure Name.Like (place : Nat → Nat → Prop) (name name' : Name) : Prop where
  bare : name'.bare = name.bare
  span : name.span.Like place name'.span

/-- One literal at two places. -/
structure Literal.Like (place : Nat → Nat → Prop) (value value' : Literal) : Prop where
  bare : value'.bare = value.bare
  span : value.span.Like place value'.span

/-- One variable definition at two places. -/
structure VariableDefinition.Like (place : Nat → Nat → Prop) (definition definition' : VariableDefinition) :
    Prop where
  bare : definition'.bare = definition.bare
  default : Option.Rel (Literal.Like place) definition.default definition'.default

/-- One operation at two places. -/
structure OperationDefinition.Like (place : Nat → Nat → Prop) (definition definition' : OperationDefinition) :
    Prop where
  bare : definition'.bare = definition.bare
  span : definition.span.Like place definition'.span
  variableDefinitions : List.Forall₂ (VariableDefinition.Like place) definition.variableDefinitions
    definition'.variableDefinitions

/-- One fragment at two places. -/
structure FragmentDefinition.Like (place : Nat → Nat → Prop) (definition definition' : FragmentDefinition) :
    Prop where
  bare : definition'.bare = definition.bare
  span : definition.span.Like place definition'.span

def Definition.set : Definition → SelectionSet
  | .operation definition => definition.set
  | .fragment definition => definition.set

def Definition.span : Definition → Span
  | .operation definition => definition.span
  | .fragment definition => definition.span

/-- One definition at two places. -/
inductive Definition.Like (place : Nat → Nat → Prop) : Definition → Definition → Prop
  | operation {definition definition'} (h : OperationDefinition.Like place definition definition') :
      Like place (.operation definition) (.operation definition')
  | fragment {definition definition'} (h : FragmentDefinition.Like place definition definition') :
      Like place (.fragment definition) (.fragment definition')

theorem Definition.Like.span {definition definition' : Definition} (h : definition.Like place definition') :
    definition.span.Like place definition'.span := by
  cases h with
  | operation h => exact h.span
  | fragment h => exact h.span

theorem Definition.Like.bare {definition definition' : Definition}
    (h : definition.Like place definition') : definition'.bare = definition.bare := by
  cases h with
  | operation h => exact congrArg Definition.operation h.bare
  | fragment h => exact congrArg Definition.fragment h.bare

/-- One mistake at two places. -/
structure Diagnostic.Like (place : Nat → Nat → Prop) (d d' : Diagnostic) : Prop where
  fault : d'.fault = d.fault
  span : d.span.Like place d'.span

theorem Name.bare_eq_iff {name name' : Name} : name'.bare = name.bare ↔ name'.text = name.text := by
  rw [bare, bare, Name.mk.injEq, and_iff_left rfl]

@[simp] theorem TypeExpr.text_bare (type : TypeExpr) : type.bare.text = type.text := by
  induction type with
  | named name => rfl
  | list item _ ih => rw [bare, text, ih, text]
  | nonNull inner _ ih => rw [bare, text, ih, text]

theorem Literal.bareItems_eq_map (items : List Literal) : bareItems items = items.map bare := by
  induction items with
  | nil => rfl
  | cons item rest ih => rw [bareItems, ih, List.map_cons]

theorem Literal.bareFields_eq_map (fields : List (Name × Literal)) :
    bareFields fields = fields.map (Prod.map Name.bare bare) := by
  induction fields with
  | nil => rfl
  | cons field rest ih => rw [bareFields, ih, List.map_cons, Prod.map]

theorem Selection.bareList_eq_map (list : List Selection) : bareList list = list.map bare := by
  induction list with
  | nil => rfl
  | cons first rest ih => rw [bareList, ih, List.map_cons]

theorem Literal.Like.bare_of_rel {value value' : Option Literal}
    (h : Option.Rel (Literal.Like place) value value') :
    value'.map Literal.bare = value.map Literal.bare := by
  cases h with
  | some h => exact congrArg some h.bare
  | none => rfl

theorem map_eq_of_forall₂ {α β : Type} {R : α → α → Prop} {f : α → β} (hf : ∀ {a a'}, R a a' → f a' = f a)
    {list list' : List α} (h : List.Forall₂ R list list') : list'.map f = list.map f := by
  induction h with
  | nil => rfl
  | cons hfirst _ ih => exact congrArg₂ List.cons (hf hfirst) ih

theorem Span.Like.eq {span span' : Span} (h : span.Like Eq span') : span' = span := by
  obtain ⟨hstart, hstop⟩ := h
  cases span
  cases span'
  simp_all

theorem Definition.Like.toList {first first' : Option Definition}
    (h : Option.Rel (Definition.Like place) first first') :
    List.Forall₂ (Definition.Like place) first.toList first'.toList := by
  cases h with
  | some h => exact .cons h .nil
  | none => exact .nil

theorem Selection.bareList_toList_append (first : Option Selection) (rest : List Selection) :
    bareList (first.toList ++ rest) = (first.map bare).toList ++ bareList rest := by
  cases first <;> rfl

end GraphClient
