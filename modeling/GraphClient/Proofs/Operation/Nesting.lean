import GraphClient.Proofs.Operation.Binding

/-! Binding inside of binding. To bind a list of selections is to bind what stands inside of some of
them, as new lists with selections of their own (`Enters`). A list that is entered is nested less
deeply, or it is that of one more fragment, which was not being spread before; so only so many lists
are open at a time (`length_le_room`). Binding fails exactly if one of the lists that it comes to has
a selection that is at fault by itself (`Frame.run_eq_error_iff_halts`). -/

namespace GraphClient

mutual

/-- How many braces a selection opens inside each other. -/
def Selection.depth : Selection → Nat
  | .field _ _ _ _ set _ => SelectionSet.depth? set
  | .spread _ _ _ => 0
  | .inline _ _ set _ => set.depth

def SelectionSet.depth : SelectionSet → Nat
  | .mk selections _ => Selection.depthList selections + 1

def SelectionSet.depth? : Option SelectionSet → Nat
  | none => 0
  | some set => set.depth

def Selection.depthList : List Selection → Nat
  | [] => 0
  | selection :: rest => max selection.depth (Selection.depthList rest)

end

theorem Selection.depth_le_of_mem {s : Selection} {list : List Selection} (hs : s ∈ list) :
    s.depth ≤ depthList list := by
  induction list with
  | nil => exact absurd hs List.not_mem_nil
  | cons first rest ih =>
      rw [depthList]
      rcases List.mem_cons.1 hs with rfl | hs
      · exact Nat.le_max_left _ _
      · exact Nat.le_trans (ih hs) (Nat.le_max_right _ _)

theorem SelectionSet.depth_eq (set : SelectionSet) : set.depth = Selection.depthList set.selections + 1 := by
  cases set
  rw [depth, selections]

namespace Bind

/-- A list that is being bound: the fragments being spread, the type selected
from, and what there is before. -/
structure Frame where
  stack : List String
  typeName : String
  list : List Selection
  progress : Progress

def Frame.run (c : Context) (F : Frame) : Except BindError Progress :=
  selections c F.stack F.typeName F.list F.progress

/-- The list that is bound for a selection, if there is one. -/
inductive Into (c : Context) (stack : List String) (typeName : String) (p : Progress) :
    Selection → Frame → Prop
  | nested {name : Name} {arguments : List Argument} {directives : List Directive} {list : List Selection}
      {setSpan span : Span} {definition : FieldDefinition} {target : TypeDefinition}
      (hname : name.text ≠ "__typename")
      (hdeclares : c.graph.Declares typeName name.text definition target)
      (hcomposite : target.kind.isComposite = true) :
      Into c stack typeName p (.field none name arguments directives (some (.mk list setSpan)) span)
        ⟨stack, target.name, list, ⟨.empty target.name, p.used⟩⟩
  | same {s : Selection} {inner : List String} {list : List Selection} {opened : Progress}
      (hopens : Opens c stack typeName p s inner typeName list opened) :
      Into c stack typeName p s ⟨inner, typeName, list, opened⟩
  | variant {s : Selection} {inner : List String} {condition : String}
      {list : List Selection} {opened : Progress}
      (hopens : Opens c stack typeName p s inner condition list opened) (hother : condition ≠ typeName)
      (hadmits : c.graph.Admits typeName condition) :
      Into c stack typeName p s ⟨inner, condition, list, ⟨.empty condition, opened.used⟩⟩

/-- That one list is bound in the course of another one, for one of its selections. -/
inductive Enters (c : Context) : Frame → Frame → Prop
  | mk {stack : List String} {typeName : String} {before after : List Selection}
      {s : Selection} {p q : Progress}
      {inside : Frame} (hbefore : Binds c stack typeName before p q)
      (hinto : Into c stack typeName q s inside) :
      Enters c ⟨stack, typeName, before ++ s :: after, p⟩ inside

/-- That binding a list comes to a selection that is at fault. -/
inductive Halts (c : Context) : Frame → BindError → Prop
  | mk {stack : List String} {typeName : String} {before after : List Selection}
      {s : Selection} {p q : Progress}
      {fault : BindFault} (hbefore : Binds c stack typeName before p q)
      (hfault : c.fault? stack typeName s = some fault) :
      Halts c ⟨stack, typeName, before ++ s :: after, p⟩ ⟨fault, s.span⟩

variable {c : Context} {stack inner : List String} {typeName condition wireName : String} {s : Selection}
  {list before after : List Selection} {set : Option SelectionSet} {span : Span}
  {p opened q : Progress} {e : BindError} {fault : BindFault} {F G : Frame}

/-- A fragment fails by itself or on what stands inside of it. -/
theorem fragment_error (hopens : Opens c stack typeName p s inner condition list opened)
    (herror : fragment c inner typeName condition list span opened = .error e) :
    (∃ fault, c.conditionFault? typeName condition = some fault ∧ e = ⟨fault, span⟩) ∨
      ∃ F, Into c stack typeName p s F ∧ F.run c = .error e := by
  by_cases hother : condition = typeName
  · subst hother
    rw [fragment_same] at herror
    exact .inr ⟨_, .same hopens, herror⟩
  · cases hfault : c.conditionFault? typeName condition with
    | some fault =>
        rw [fragment_of_fault hfault] at herror
        cases herror
        exact .inl ⟨fault, rfl, rfl⟩
    | none =>
        have hadmits := Context.admits_of_no_fault hother hfault
        rw [fragment_of_admits hother hadmits, Except.map_eq_error] at herror
        exact .inr ⟨_, .variant hopens hother hadmits, herror⟩

/-- A field fails by itself or on what is selected from it. -/
theorem field_error {name : Name} {arguments : List Argument} {directives : List Directive}
    (herror : field c stack typeName name.text set span p = .error e) :
    (∃ fault, c.fieldFault? typeName name.text set.isSome = some fault ∧ e = ⟨fault, span⟩) ∨
      ∃ F, Into c stack typeName p (.field none name arguments directives set span) F ∧
        F.run c = .error e := by
  cases hfault : c.fieldFault? typeName name.text set.isSome with
  | some fault =>
      rw [field_of_fault hfault] at herror
      cases herror
      exact .inl ⟨fault, rfl, rfl⟩
  | none =>
      by_cases hname : name.text = "__typename"
      · cases set with
        | none =>
            rw [field.eq_def, if_pos hname] at herror
            cases herror
        | some set =>
            rw [Context.fieldFault?, if_pos hname] at hfault
            cases hfault
      · obtain ⟨definition, target, hdeclares, hcomposite⟩ := Context.declares_of_no_fault hname hfault
        cases set with
        | none =>
            rw [field_leaf hname hdeclares hcomposite] at herror
            cases herror
        | some set =>
            obtain ⟨list, setSpan⟩ := set
            rw [field_nested hname hdeclares hcomposite, Except.map_eq_error] at herror
            exact .inr ⟨_, .nested hname hdeclares hcomposite, herror⟩

theorem selection_of_into (hinto : Into c stack typeName p s F) (herror : F.run c = .error e) :
    selection c stack typeName s p = .error e := by
  cases hinto with
  | nested hname hdeclares hcomposite =>
      rw [selection, field_nested hname hdeclares hcomposite]
      exact Except.map_eq_error.2 herror
  | same hopens =>
      obtain ⟨span, hselection⟩ := hopens.selection_eq
      rw [hselection, fragment_same]
      exact herror
  | variant hopens hother hadmits =>
      obtain ⟨span, hselection⟩ := hopens.selection_eq
      rw [hselection, fragment_of_admits hother hadmits]
      exact Except.map_eq_error.2 herror

theorem selection_error (herror : selection c stack typeName s p = .error e) :
    (∃ fault, c.fault? stack typeName s = some fault ∧ e = ⟨fault, s.span⟩) ∨
      ∃ F, Into c stack typeName p s F ∧ F.run c = .error e := by
  cases s with
  | field key name arguments directives set span =>
      cases key with
      | some key =>
          rw [selection] at herror
          cases herror
          exact .inl ⟨_, rfl, rfl⟩
      | none =>
          rw [selection] at herror
          exact field_error herror
  | inline condition directives set span =>
      obtain ⟨list, setSpan⟩ := set
      rw [selection] at herror
      exact fragment_error .inline herror
  | spread name directives span =>
      cases hdefinition : c.fragments.get? name.text with
      | none =>
          rw [selection_unknown hdefinition] at herror
          cases herror
          exact .inl ⟨_, by rw [Context.fault?, hdefinition], rfl⟩
      | some definition =>
          rw [selection_spread hdefinition] at herror
          split at herror
          · rename_i hmem
            cases herror
            exact .inl ⟨_, by rw [Context.fault?, hdefinition]; exact if_pos hmem, rfl⟩
          · rename_i hnew
            rcases fragment_error (.spread hdefinition hnew) herror with ⟨fault, hfault, rfl⟩ | hinside
            · exact .inl ⟨fault, by rw [Context.fault?, hdefinition]; exact (if_neg hnew).trans hfault, rfl⟩
            · exact .inr hinside

theorem selections_append : selections c stack typeName (before ++ after) p =
    selections c stack typeName before p >>= selections c stack typeName after := by
  induction before generalizing p with
  | nil =>
      rw [selections, List.nil_append]
      rfl
  | cons s rest ih =>
      rw [List.cons_append, selections, selections, bind_assoc]
      exact congrArg _ (funext fun middle => ih)

/-- The selection at which a list fails. -/
theorem selections_eq_error_iff : selections c stack typeName list p = .error e ↔ ∃ before s after q,
    list = before ++ s :: after ∧ Binds c stack typeName before p q ∧
      selection c stack typeName s q = .error e := by
  constructor
  · intro herror
    induction list generalizing p with
    | nil =>
        rw [selections] at herror
        cases herror
    | cons s rest ih =>
        rw [selections] at herror
        rcases Except.bind_eq_error.1 herror with herror | ⟨middle, hs, herror⟩
        · exact ⟨[], s, rest, p, rfl, .nil, herror⟩
        · obtain ⟨before, s', after, q, rfl, hbefore, herror⟩ := ih herror
          have hcons := selections_cons_of hs (selections_of_binds hbefore)
          exact ⟨s :: before, s', after, q, rfl, binds_of_selections hcons, herror⟩
  · rintro ⟨before, s, after, q, rfl, hbefore, herror⟩
    rw [selections_append, selections_of_binds hbefore]
    change selections c stack typeName (s :: after) q = _
    rw [selections]
    exact Except.bind_eq_error.2 (.inl herror)

/-- A list fails at once or inside of a list that it enters. -/
theorem Frame.run_eq_error_iff : F.run c = .error e ↔ Halts c F e ∨ ∃ G, Enters c F G ∧
    G.run c = .error e := by
  rw [Frame.run, selections_eq_error_iff]
  constructor
  · rintro ⟨before, s, after, q, hlist, hbefore, herror⟩
    obtain ⟨stack, typeName, list, p⟩ := F
    obtain rfl : list = before ++ s :: after := hlist
    rcases selection_error herror with ⟨fault, hfault, rfl⟩ | ⟨G, hinto, herror⟩
    · exact .inl (.mk hbefore hfault)
    · exact .inr ⟨G, .mk hbefore hinto, herror⟩
  · rintro (hhalts | ⟨G, henters, herror⟩)
    · cases hhalts with
      | mk hbefore hfault => exact ⟨_, _, _, _, rfl, hbefore, selection_of_fault hfault⟩
    · cases henters with
      | mk hbefore hinto => exact ⟨_, _, _, _, rfl, hbefore, selection_of_into hinto herror⟩

/-- How many braces the fragments open inside each other. -/
def Context.depth (c : Context) : Nat := (c.fragments.values.map (·.set.depth)).foldr max 0

theorem Context.depth_le {name : String} {definition : FragmentDefinition}
    (hdefinition : c.fragments.get? name = some definition) : definition.set.depth ≤ c.depth := by
  have hvalue : definition ∈ c.fragments.values := List.mem_map.2 ⟨_, Table.mem_of_get? hdefinition, rfl⟩
  exact List.le_max_of_le' 0 (List.mem_map.2 ⟨definition, hvalue, rfl⟩) (Nat.le_refl _)

/-- How many lists can be entered one inside of the other. -/
def Frame.room (c : Context) (F : Frame) : Nat := c.unspread F.stack * c.depth + Selection.depthList F.list

theorem Opens.room_lt (hopens : Opens c stack typeName p s inner condition list opened) :
    c.unspread inner * c.depth + Selection.depthList list < c.unspread stack * c.depth + s.depth := by
  cases hopens with
  | inline =>
      rw [Selection.depth, SelectionSet.depth]
      omega
  | @spread name directives span definition hdefinition hnew =>
      -- one fragment less is left, which makes room for a whole fragment
      have hless : c.unspread (name.text :: stack) + 1 ≤ c.unspread stack :=
        c.unspread_cons_lt hdefinition hnew
      have hdepth := c.depth_le hdefinition
      rw [SelectionSet.depth_eq] at hdepth
      calc c.unspread (name.text :: stack) * c.depth + Selection.depthList definition.set.selections
          < (c.unspread (name.text :: stack) + 1) * c.depth := by rw [Nat.add_one_mul]; omega
        _ ≤ c.unspread stack * c.depth := Nat.mul_le_mul_right _ hless
        _ ≤ _ := Nat.le_add_right _ _

theorem Into.room_lt (hinto : Into c stack typeName p s F) :
    F.room c < c.unspread stack * c.depth + s.depth := by
  cases hinto with
  | nested =>
      rw [Frame.room, Selection.depth, SelectionSet.depth?, SelectionSet.depth]
      dsimp only
      omega
  | same hopens => exact hopens.room_lt
  | variant hopens => exact hopens.room_lt

theorem Enters.room_lt (henters : Enters c F G) : G.room c < F.room c := by
  cases henters with
  | @mk stack typeName before after s p q inside hbefore hinto =>
      have hmem : s ∈ before ++ s :: after := List.mem_append_right _ List.mem_cons_self
      exact Nat.lt_of_lt_of_le hinto.room_lt (Nat.add_le_add_left (Selection.depth_le_of_mem hmem) _)

theorem length_le_room {frames : List Frame} (hchain : List.IsChain (Enters c) (F :: frames)) :
    frames.length ≤ F.room c := by
  induction frames generalizing F with
  | nil => exact Nat.zero_le _
  | cons G frames ih =>
      obtain ⟨henters, hrest⟩ := List.isChain_cons_cons.1 hchain
      exact Nat.lt_of_le_of_lt (ih hrest) henters.room_lt

/-- **Where binding fails**: at a selection of a list that it came to. -/
theorem Frame.run_eq_error_iff_halts :
    F.run c = .error e ↔ ∃ G, Relation.ReflTransGen (Enters c) F G ∧ Halts c G e := by
  constructor
  · intro herror
    induction hroom : F.room c using Nat.strongRecOn generalizing F with
    | ind n ih =>
        rcases Frame.run_eq_error_iff.1 herror with hhalts | ⟨G, henters, herror⟩
        · exact ⟨F, .refl, hhalts⟩
        · obtain ⟨H, hreaches, hhalts⟩ := ih _ (hroom ▸ henters.room_lt) herror rfl
          exact ⟨H, .head henters hreaches, hhalts⟩
  · rintro ⟨G, hreaches, hhalts⟩
    induction hreaches using Relation.ReflTransGen.head_induction_on with
    | refl => exact Frame.run_eq_error_iff.2 (.inl hhalts)
    | head henters _ ih => exact Frame.run_eq_error_iff.2 (.inr ⟨_, henters, ih⟩)

end Bind

end GraphClient
