import GraphClient.Proofs.Operation.Nesting
import GraphClient.Proofs.Operation.Rebinding

/-! Fragments that spread each other. A fragment leads to those that it spreads, and binding an
operation follows all ways from there. The fragments being spread are on the way to where binding is
(`Enters.leads`), so one that comes again closes a cycle; and as none may come again, there are no
cycles where binding succeeds (`Binds.clear`). -/

namespace GraphClient

mutual

/-- The names of the fragments that are spread in a selection, at any depth. -/
def Selection.spreads : Selection → List String
  | .field _ _ _ _ set _ => SelectionSet.spreads? set
  | .spread name _ _ => [name.text]
  | .inline _ _ set _ => set.spreads

def SelectionSet.spreads : SelectionSet → List String
  | .mk selections _ => Selection.spreadsIn selections

def SelectionSet.spreads? : Option SelectionSet → List String
  | none => []
  | some set => set.spreads

def Selection.spreadsIn : List Selection → List String
  | [] => []
  | selection :: rest => selection.spreads ++ Selection.spreadsIn rest

end

theorem SelectionSet.spreads_eq (set : SelectionSet) : set.spreads = Selection.spreadsIn set.selections := by
  cases set
  rw [spreads, selections]

theorem Selection.spreadsIn_eq_flatMap (list : List Selection) : spreadsIn list = list.flatMap spreads := by
  induction list with
  | nil => rfl
  | cons s rest ih => rw [spreadsIn, ih, List.flatMap_cons]

/-- Which fragments are spread does not depend on places. -/
theorem Selection.spreadsIn_bareList (list : List Selection) :
    spreadsIn (bareList list) = spreadsIn list := by
  apply bareList.induct (fun s => s.bare.spreads = s.spreads) (fun set => set.bare.spreads = set.spreads)
    (fun list => spreadsIn (bareList list) = spreadsIn list)
    (fun set => SelectionSet.spreads? (SelectionSet.bare? set) = SelectionSet.spreads? set)
  all_goals
    intros
    simp only [bare, SelectionSet.bare, SelectionSet.bare?, bareList, spreads, SelectionSet.spreads,
      SelectionSet.spreads?, spreadsIn, Name.bare, *]

/-- That a fragment spreads another one. -/
def Spreads (fragments : Table FragmentDefinition) (name other : String) : Prop :=
  ∃ definition, fragments.get? name = some definition ∧ other ∈ definition.set.spreads

/-- That a name is spread in an operation, or in a fragment that is. -/
def Document.Reaches (document : Document) (name : String) : Prop :=
  ∃ operation ∈ document.operations, ∃ first ∈ operation.set.spreads,
    Relation.ReflTransGen (Spreads document.fragmentTable) first name

namespace Bind

variable {c : Context} {stack inner : List String} {typeName condition name : String} {s : Selection}
  {list : List Selection} {p opened q : Progress} {e : BindError} {F G : Frame}

theorem Opens.uses (hopens : Opens c stack typeName p s inner condition list opened) (huses : c.Uses stack) :
    c.Uses inner := by
  cases hopens with
  | inline => exact huses
  | @spread name directives span definition hdefinition hnew =>
      refine ⟨List.nodup_cons.2 ⟨hnew, huses.nodup⟩, fun other hother => ?_⟩
      rcases List.mem_cons.1 hother with rfl | hother
      · exact ⟨definition, hdefinition⟩
      · exact huses.defined other hother

/-- Each is there once, and has a definition. -/
theorem Enters.uses (henters : Enters c F G) (huses : c.Uses F.stack) : c.Uses G.stack := by
  cases henters with
  | mk hbefore hinto =>
      cases hinto with
      | nested => exact huses
      | same hopens => exact hopens.uses huses
      | variant hopens => exact hopens.uses huses

/-- That the fragments being spread lead to those that are spread in a list. -/
def Context.Leads (c : Context) (stack : List String) (names : List String) : Prop :=
  ∀ name ∈ stack, ∀ other ∈ names, Relation.TransGen (Spreads c.fragments) name other

theorem Opens.leads (hopens : Opens c stack typeName p s inner condition list opened)
    (hleads : c.Leads stack s.spreads) : c.Leads inner (Selection.spreadsIn list) := by
  cases hopens with
  | inline =>
      rw [Selection.spreads, SelectionSet.spreads] at hleads
      exact hleads
  | @spread name directives span definition hdefinition hnew =>
      intro n hn other hother
      have hspreads : Spreads c.fragments name.text other :=
        ⟨definition, hdefinition, by rw [SelectionSet.spreads_eq]; exact hother⟩
      rcases List.mem_cons.1 hn with rfl | hn
      · exact .single hspreads
      · exact (hleads n hn _ (List.mem_singleton_self _)).tail hspreads

theorem Into.leads (hinto : Into c stack typeName p s F) (hleads : c.Leads stack s.spreads) :
    c.Leads F.stack (Selection.spreadsIn F.list) := by
  cases hinto with
  | nested =>
      rw [Selection.spreads, SelectionSet.spreads?, SelectionSet.spreads] at hleads
      exact hleads
  | same hopens => exact hopens.leads hleads
  | variant hopens => exact hopens.leads hleads

theorem Context.Leads.of_mem (hleads : c.Leads stack (Selection.spreadsIn list)) (hs : s ∈ list) :
    c.Leads stack s.spreads := by
  intro n hn other hother
  rw [Selection.spreadsIn_eq_flatMap] at hleads
  exact hleads n hn other (List.mem_flatMap.2 ⟨s, hs, hother⟩)

theorem Enters.leads (henters : Enters c F G) (hleads : c.Leads F.stack (Selection.spreadsIn F.list)) :
    c.Leads G.stack (Selection.spreadsIn G.list) := by
  cases henters with
  | mk hbefore hinto => exact hinto.leads (hleads.of_mem (List.mem_append_right _ List.mem_cons_self))

theorem Context.conditionFault?_ne_cycle :
    c.conditionFault? typeName condition ≠ some (.fragmentCycle name) := by
  unfold Context.conditionFault?
  repeat' split
  all_goals simp

theorem Context.fieldFault?_ne_cycle {wireName : String} {nested : Bool} :
    c.fieldFault? typeName wireName nested ≠ some (.fragmentCycle name) := by
  unfold Context.fieldFault?
  repeat' split
  all_goals simp

/-- A cycle is reported where a fragment is spread that is being spread. -/
theorem Context.mem_of_fault_cycle (hfault : c.fault? stack typeName s = some (.fragmentCycle name)) :
    name ∈ stack ∧ name ∈ s.spreads := by
  cases s with
  | field key _ _ _ _ _ =>
      cases key with
      | some key => cases hfault
      | none => exact absurd hfault Context.fieldFault?_ne_cycle
  | inline _ _ _ _ => exact absurd hfault Context.conditionFault?_ne_cycle
  | spread spread _ _ =>
      rw [Context.fault?] at hfault
      split at hfault
      · cases hfault
      · split at hfault
        · rename_i hmem
          cases hfault
          exact ⟨hmem, List.mem_singleton_self _⟩
        · exact absurd hfault Context.conditionFault?_ne_cycle

/-- **A cycle that is reported is one.** -/
theorem Frame.cycle_of_run {span : Span} (herror : F.run c = .error ⟨.fragmentCycle name, span⟩)
    (hleads : c.Leads F.stack (Selection.spreadsIn F.list)) :
    Relation.TransGen (Spreads c.fragments) name name := by
  obtain ⟨G, hreaches, hhalts⟩ := Frame.run_eq_error_iff_halts.1 herror
  have hleads' : c.Leads G.stack (Selection.spreadsIn G.list) := by
    clear hhalts
    induction hreaches with
    | refl => exact hleads
    | tail _ henters ih => exact henters.leads ih
  cases hhalts with
  | mk hbefore hfault =>
      obtain ⟨hstack, hspread⟩ := Context.mem_of_fault_cycle hfault
      exact hleads'.of_mem (List.mem_append_right _ List.mem_cons_self) name hstack name hspread

/-- That a fragment is there, is not being spread and does not lead to itself. -/
structure Context.Free (c : Context) (stack : List String) (name : String) : Prop where
  defined : ∃ definition, c.fragments.get? name = some definition
  unspread : name ∉ stack
  acyclic : ¬Relation.TransGen (Spreads c.fragments) name name

/-- That this is so of all that some names lead to. -/
def Context.Clear (c : Context) (stack names : List String) : Prop :=
  ∀ name ∈ names, ∀ other, Relation.ReflTransGen (Spreads c.fragments) name other → c.Free stack other

theorem Opens.clear (hopens : Opens c stack typeName p s inner condition list opened)
    (hclear : c.Clear inner (Selection.spreadsIn list)) : c.Clear stack s.spreads := by
  cases hopens with
  | inline =>
      rw [Selection.spreads, SelectionSet.spreads]
      exact hclear
  | @spread name directives span definition hdefinition hnew =>
      have hspread : ∀ {next other}, Spreads c.fragments name.text next →
          Relation.ReflTransGen (Spreads c.fragments) next other → c.Free (name.text :: stack) other := by
        rintro next other ⟨found, hfound, hnext⟩ hreaches
        obtain rfl := Option.some.inj (hdefinition.symm.trans hfound)
        rw [SelectionSet.spreads_eq] at hnext
        exact hclear next hnext other hreaches
      intro first hfirst other hreaches
      obtain rfl := List.mem_singleton.1 hfirst
      rcases Relation.ReflTransGen.cases_head hreaches with rfl | ⟨next, hnext, hreaches⟩
      · refine ⟨⟨definition, hdefinition⟩, hnew, fun hcycle => ?_⟩
        -- what comes back to the fragment comes to one that is being spread
        obtain ⟨next, hnext, hback⟩ := Relation.TransGen.head'_iff.1 hcycle
        exact (hspread hnext hback).unspread List.mem_cons_self
      · have hfree := hspread hnext hreaches
        exact ⟨hfree.defined, fun hmem => hfree.unspread (List.mem_cons_of_mem _ hmem), hfree.acyclic⟩

theorem Context.Clear.cons {rest : List Selection} (hs : c.Clear stack s.spreads)
    (hrest : c.Clear stack (Selection.spreadsIn rest)) : c.Clear stack (Selection.spreadsIn (s :: rest)) := by
  intro name hname
  rw [Selection.spreadsIn] at hname
  rcases List.mem_append.1 hname with hname | hname
  · exact hs name hname
  · exact hrest name hname

/-- **Where binding succeeds there is no cycle**, and no fragment is missing. -/
theorem Binds.clear (h : Binds c stack typeName list p q) : c.Clear stack (Selection.spreadsIn list) := by
  induction h with
  | nil => exact fun name hname => absurd hname List.not_mem_nil
  | typename _ _ ih => exact ih
  | leaf _ _ _ _ ih => exact ih
  | nested _ _ _ _ _ ihnested ih =>
      refine .cons ?_ ih
      rw [Selection.spreads, SelectionSet.spreads?, SelectionSet.spreads]
      exact ihnested
  | same hopens _ _ ihlist ih => exact .cons (hopens.clear ihlist) ih
  | variant hopens _ _ _ _ ihvariant ih => exact .cons (hopens.clear ihvariant) ih

end Bind

end GraphClient
