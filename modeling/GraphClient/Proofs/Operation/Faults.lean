import GraphClient.Operation.Bind
import GraphClient.Proofs.Except
import GraphClient.Proofs.Table
import Mathlib

/-! What is wrong with selections by themselves. Whether a selection is refused before anything inside
of it is bound is told by the schema, the fragments and the fragments being spread (`Context.fault?`);
and where it is not, binding goes on inside. -/

namespace GraphClient

/-- That a type has a field, and of which type the field is. -/
structure TypeGraph.Declares (g : TypeGraph) (typeName wireName : String) (definition : FieldDefinition)
    (target : TypeDefinition) : Prop where
  field : ∃ context, g.get? typeName = some context ∧ context.field? wireName = some definition
  target : g.get? definition.type.typeName = some target

/-- That objects of a type may be of another one, which the schema has. -/
structure TypeGraph.Admits (g : TypeGraph) (typeName condition : String) : Prop where
  possible : ∃ context, g.get? typeName = some context ∧ context.kind.isAbstract = true ∧
    context.isPossibleType condition = true
  contains : g.contains condition = true

/-- A selection is at fault where it stands. -/
def Selection.span : Selection → Span
  | .field _ _ _ _ _ span => span
  | .spread _ _ span => span
  | .inline _ _ _ span => span

namespace Bind

/-- What is wrong with a fragment on a type, before its selections are bound. -/
def Context.conditionFault? (c : Context) (typeName condition : String) : Option BindFault :=
  if condition = typeName then none
  else
    match c.graph.get? typeName with
    | none => some (.mismatch c.operation typeName "" .notInSchema)
    | some context =>
        if !c.graph.contains condition then
          some (.mismatch c.operation typeName ("... on " ++ condition) (.unknownType condition))
        else if !context.kind.isAbstract || !context.isPossibleType condition then
          some (.mismatch c.operation typeName ("... on " ++ condition) (.notPossible condition typeName))
        else none

/-- What is wrong with a field, which has nested selections or not. -/
def Context.fieldFault? (c : Context) (typeName wireName : String) (nested : Bool) : Option BindFault :=
  if wireName = "__typename" then
    if nested then some (.mismatch c.operation typeName wireName .leafSelection) else none
  else
    match c.graph.get? typeName with
    | none => some (.mismatch c.operation typeName "" .notInSchema)
    | some context =>
        match context.field? wireName with
        | none =>
            some (.mismatch c.operation typeName wireName
              (if context.kind = .union then .unionField else .noField typeName wireName))
        | some definition =>
            match c.graph.get? definition.type.typeName with
            | none => some (.mismatch c.operation definition.type.typeName "" .notInSchema)
            | some target =>
                match nested, target.kind.isComposite with
                | false, true => some (.mismatch c.operation typeName wireName (.needsSelection target.name))
                | true, false => some (.mismatch c.operation typeName wireName .leafSelection)
                | _, _ => none

/-- What is wrong with a selection by itself, whatever stands inside of it. -/
def Context.fault? (c : Context) (stack : List String) (typeName : String) : Selection → Option BindFault
  | .field (some key) name _ _ _ _ => some (.aliased key.text name.text)
  | .field none name _ _ set _ => c.fieldFault? typeName name.text set.isSome
  | .inline condition _ _ _ => c.conditionFault? typeName ((condition.map (·.text)).getD typeName)
  | .spread name _ _ =>
      match c.fragments.get? name.text with
      | none => some (.unknownFragment name.text)
      | some definition =>
          if name.text ∈ stack then some (.fragmentCycle name.text)
          else c.conditionFault? typeName definition.condition.text

variable {c : Context} {stack : List String} {typeName condition wireName : String} {s : Selection}
  {list : List Selection} {set : Option SelectionSet} {span : Span} {p : Progress} {fault : BindFault}

theorem Context.type_eq_ok {name : String} {t : TypeDefinition} :
    c.type name span = .ok t ↔ c.graph.get? name = some t := by
  unfold Context.type
  cases c.graph.get? name with
  | none => simp
  | some t' => simp

theorem Context.type_eq_error {name : String} (hnone : c.graph.get? name = none) :
    c.type name span = .error ⟨.mismatch c.operation name "" .notInSchema, span⟩ := by
  rw [Context.type, hnone]
  rfl

theorem fragment_same : fragment c stack typeName typeName list span p =
    selections c stack typeName list p := by
  rw [fragment, if_pos rfl]

theorem fragment_of_fault (hfault : c.conditionFault? typeName condition = some fault) :
    fragment c stack typeName condition list span p = .error ⟨fault, span⟩ := by
  unfold Context.conditionFault? at hfault
  rw [fragment]
  split at hfault
  · cases hfault
  · rename_i hother
    rw [if_neg hother]
    split at hfault
    · rename_i hnone
      rw [Context.type_eq_error hnone]
      cases hfault
      rfl
    · rename_i context hcontext
      rw [Context.type_eq_ok.2 hcontext]
      change (if _ then _ else _) = _
      split at hfault
      · rename_i hcontains
        rw [if_pos hcontains]
        cases hfault
        rfl
      · rename_i hcontains
        rw [if_neg hcontains]
        split at hfault
        · rename_i hpossible
          rw [if_pos hpossible]
          cases hfault
          rfl
        · cases hfault

theorem Context.admits_of_no_fault (hother : condition ≠ typeName)
    (hfault : c.conditionFault? typeName condition = none) : c.graph.Admits typeName condition := by
  rw [Context.conditionFault?, if_neg hother] at hfault
  split at hfault
  · cases hfault
  · rename_i context hcontext
    split at hfault
    · cases hfault
    · rename_i hcontains
      split at hfault
      · cases hfault
      · rename_i hpossible
        simp only [Bool.or_eq_true, Bool.not_eq_true', not_or, Bool.not_eq_false] at hcontains hpossible
        exact ⟨⟨context, hcontext, hpossible⟩, hcontains⟩

theorem fragment_of_admits (hother : condition ≠ typeName) (hadmits : c.graph.Admits typeName condition) :
    fragment c stack typeName condition list span p =
      (selections c stack condition list ⟨.empty condition, p.used⟩).map fun variant =>
        ⟨p.selected.withVariant condition variant.selected, variant.used⟩ := by
  obtain ⟨⟨context, hcontext, habstract, hpossible⟩, hcontains⟩ := hadmits
  rw [fragment, if_neg hother, Context.type_eq_ok.2 hcontext]
  change (if _ then _ else _) = _
  rw [hcontains, habstract, hpossible]
  cases selections c stack condition list ⟨.empty condition, p.used⟩ <;> rfl

theorem field_of_fault (hfault : c.fieldFault? typeName wireName set.isSome = some fault) :
    field c stack typeName wireName set span p = .error ⟨fault, span⟩ := by
  unfold Context.fieldFault? at hfault
  rw [field.eq_def]
  split at hfault
  · rename_i hname
    rw [if_pos hname]
    cases set with
    | none => cases hfault
    | some set =>
        cases hfault
        rfl
  · rename_i hname
    rw [if_neg hname]
    split at hfault
    · rename_i hnone
      rw [Context.type_eq_error hnone]
      cases hfault
      rfl
    · rename_i context hcontext
      rw [Context.type_eq_ok.2 hcontext]
      refine Except.bind_eq_error.2 (.inr ⟨context, rfl, ?_⟩)
      cases hfield : context.field? wireName with
      | none =>
          rw [hfield] at hfault
          cases hfault
          rfl
      | some definition =>
          rw [hfield] at hfault
          dsimp only at hfault
          split at hfault
          · rename_i hnone
            refine Except.bind_eq_error.2 (.inl ?_)
            cases hfault
            exact Context.type_eq_error hnone
          · rename_i target htarget
            refine Except.bind_eq_error.2 (.inr ⟨target, Context.type_eq_ok.2 htarget, ?_⟩)
            cases hkind : target.kind.isComposite <;> rw [hkind] at hfault
            · cases set with
              | none => cases hfault
              | some set =>
                  obtain ⟨nested, setSpan⟩ := set
                  cases hfault
                  rfl
            · cases set with
              | some set => cases hfault
              | none =>
                  cases hfault
                  rfl

theorem Context.declares_of_no_fault {nested : Bool} (hname : wireName ≠ "__typename")
    (hfault : c.fieldFault? typeName wireName nested = none) :
    ∃ definition target, c.graph.Declares typeName wireName definition target ∧
      target.kind.isComposite = nested := by
  rw [Context.fieldFault?, if_neg hname] at hfault
  split at hfault
  · cases hfault
  · rename_i context hcontext
    split at hfault
    · cases hfault
    · rename_i definition hfield
      split at hfault
      · cases hfault
      · rename_i target htarget
        refine ⟨definition, target, ⟨⟨context, hcontext, hfield⟩, htarget⟩, ?_⟩
        cases hkind : target.kind.isComposite <;> rw [hkind] at hfault
        · cases nested with
          | false => rfl
          | true => cases hfault
        · cases nested with
          | false => cases hfault
          | true => rfl

theorem field_leaf {definition : FieldDefinition} {target : TypeDefinition} (hname : wireName ≠ "__typename")
    (hdeclares : c.graph.Declares typeName wireName definition target)
    (hleaf : target.kind.isComposite = false) :
    field c stack typeName wireName none span p =
      .ok ⟨p.selected.withField wireName (.mk definition.name wireName none), p.used⟩ := by
  obtain ⟨⟨context, hcontext, hfield⟩, htarget⟩ := hdeclares
  rw [field.eq_def, if_neg hname, Context.type_eq_ok.2 hcontext, Except.ok_bind, hfield]
  dsimp only
  rw [Context.type_eq_ok.2 htarget, Except.ok_bind, hleaf]
  rfl

theorem field_nested {definition : FieldDefinition} {target : TypeDefinition}
    (hname : wireName ≠ "__typename")
    (hdeclares : c.graph.Declares typeName wireName definition target)
    (hcomposite : target.kind.isComposite = true) {setSpan : Span} :
    field c stack typeName wireName (some (.mk list setSpan)) span p =
      (selections c stack target.name list ⟨.empty target.name, p.used⟩).map fun nested =>
        ⟨p.selected.withField wireName (.mk definition.name wireName (some nested.selected)),
          nested.used⟩ := by
  obtain ⟨⟨context, hcontext, hfield⟩, htarget⟩ := hdeclares
  rw [field.eq_def, if_neg hname, Context.type_eq_ok.2 hcontext, Except.ok_bind, hfield]
  dsimp only
  rw [Context.type_eq_ok.2 htarget, Except.ok_bind, hcomposite]
  dsimp only
  cases selections c stack target.name list ⟨.empty target.name, p.used⟩ <;> rfl

theorem selection_spread {name : Name} {directives : List Directive} {definition : FragmentDefinition}
    (hdefinition : c.fragments.get? name.text = some definition) :
    selection c stack typeName (.spread name directives span) p =
      if name.text ∈ stack then .error ⟨.fragmentCycle name.text, span⟩
      else fragment c (name.text :: stack) typeName definition.condition.text definition.set.selections span
        (p.use name.text) := by
  rw [selection]
  split
  · rename_i hnone
    cases hdefinition.symm.trans hnone
  · rename_i found hfound
    cases hdefinition.symm.trans hfound
    rfl

theorem selection_unknown {name : Name} {directives : List Directive}
    (hnone : c.fragments.get? name.text = none) :
    selection c stack typeName (.spread name directives span) p =
      .error ⟨.unknownFragment name.text, span⟩ := by
  rw [selection]
  split
  · rfl
  · rename_i found hfound
    cases hnone.symm.trans hfound

theorem selection_of_fault (hfault : c.fault? stack typeName s = some fault) :
    selection c stack typeName s p = .error ⟨fault, s.span⟩ := by
  cases s with
  | field key name arguments directives set span =>
      cases key with
      | some key =>
          cases hfault
          rw [selection]
          rfl
      | none =>
          rw [selection]
          exact field_of_fault hfault
  | inline condition directives set span =>
      obtain ⟨list, setSpan⟩ := set
      rw [selection]
      exact fragment_of_fault hfault
  | spread name directives span =>
      rw [Context.fault?] at hfault
      split at hfault
      · rename_i hnone
        cases hfault
        exact selection_unknown hnone
      · rename_i definition hdefinition
        rw [selection_spread hdefinition]
        split at hfault
        · rename_i hmem
          cases hfault
          exact if_pos hmem
        · rename_i hnew
          rw [if_neg hnew]
          exact fragment_of_fault hfault

end Bind

end GraphClient
