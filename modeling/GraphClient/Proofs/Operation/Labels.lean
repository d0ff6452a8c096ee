import GraphClient.Proofs.Document.Placing
import GraphClient.Proofs.Operation.Extension

/-! Where errors are found. Binding comes only to selections of the document, and an error of it is
found at one of them, at an operation, or where the document has a mistake; so its span lies in the
text as all spans of the document do (`bind_error_within`). -/

namespace GraphClient

variable {source : String}

namespace Outline

variable {t u : Outline}

theorem Bounded.within (h : t.Bounded source) : t.span.Within source := by
  obtain ⟨hspan, -⟩ := h
  exact hspan

theorem Bounded.child {span : Span} {children : List Outline}
    (h : (Outline.node span children).Bounded source) (ht : t ∈ children) : t.Bounded source := by
  obtain ⟨-, hchildren⟩ := h
  exact hchildren t ht

end Outline

theorem Selection.outline_span (s : Selection) : s.outline.span = s.span := by
  cases s <;> rfl

theorem SelectionSet.bounded_of_mem {set : SelectionSet} (h : set.outline.Bounded source) {s : Selection}
    (hs : s ∈ set.selections) : s.outline.Bounded source := by
  rw [outline_eq, Selection.outlines_eq_map] at h
  exact h.child (List.mem_map_of_mem hs)

theorem OperationDefinition.bounded_set {d : OperationDefinition} (h : d.outline.Bounded source) :
    d.set.outline.Bounded source :=
  h.child (List.mem_append_right _
    (List.mem_append_right _ (List.mem_append_right _ (List.mem_singleton_self _))))

theorem FragmentDefinition.bounded_set {d : FragmentDefinition} (h : d.outline.Bounded source) :
    d.set.outline.Bounded source :=
  h.child (List.mem_cons_of_mem _
    (List.mem_cons_of_mem _ (List.mem_append_right _ (List.mem_singleton_self _))))

theorem Definition.bounded_of_mem {d : Definition} (hd : d ∈ (parseDocument source).document.definitions) :
    d.outline.Bounded source := (outline_bounded source).child (List.mem_map_of_mem hd)

namespace Bind

variable {c : Context} {stack inner : List String} {typeName condition : String} {s : Selection}
  {list : List Selection} {p opened : Progress} {e : BindError} {F G : Frame}

/-- That the fragments that are looked up are bounded. -/
def Context.Bounded (source : String) (c : Context) : Prop :=
  ∀ {name definition}, c.fragments.get? name = some definition → definition.set.outline.Bounded source

/-- That the selections of a frame are bounded. -/
def Frame.Bounded (source : String) (F : Frame) : Prop := ∀ s ∈ F.list, s.outline.Bounded source

theorem Opens.bounded (hopens : Opens c stack typeName p s inner condition list opened)
    (hc : c.Bounded source)
    (hs : s.outline.Bounded source) : ∀ s ∈ list, s.outline.Bounded source := by
  cases hopens with
  | @inline condition directives list setSpan span =>
      have hset : (SelectionSet.mk list setSpan).outline.Bounded source :=
        hs.child (List.mem_append_right _ (List.mem_append_right _ (List.mem_singleton_self _)))
      exact fun _ hmem => SelectionSet.bounded_of_mem hset hmem
  | spread hdefinition => exact fun _ hmem => SelectionSet.bounded_of_mem (hc hdefinition) hmem

theorem Into.bounded (hinto : Into c stack typeName p s F) (hc : c.Bounded source)
    (hs : s.outline.Bounded source) :
    F.Bounded source := by
  cases hinto with
  | @nested _ _ _ list setSpan =>
      have hset : (SelectionSet.mk list setSpan).outline.Bounded source :=
        hs.child (List.mem_append_right _
          (List.mem_cons_of_mem _ (List.mem_append_right _ (List.mem_append_right _
          (List.mem_singleton_self _)))))
      exact fun _ hmem => SelectionSet.bounded_of_mem hset hmem
  | same hopens => exact hopens.bounded hc hs
  | variant hopens => exact hopens.bounded hc hs

theorem Enters.bounded (henters : Enters c F G) (hc : c.Bounded source) (hF : F.Bounded source) :
    G.Bounded source := by
  obtain ⟨-, hinto⟩ := henters
  exact hinto.bounded hc (hF _ (List.mem_append_right _ List.mem_cons_self))

theorem Halts.within (hhalts : Halts c F e) (hF : F.Bounded source) : e.span.Within source := by
  obtain ⟨-, -⟩ := hhalts
  rw [← Selection.outline_span]
  exact (hF _ (List.mem_append_right _ List.mem_cons_self)).within

/-- **An error is found at a selection that binding came to.** -/
theorem Frame.within_of_error (hc : c.Bounded source) (hF : F.Bounded source) (herror : F.run c = .error e) :
    e.span.Within source := by
  obtain ⟨G, hreaches, hhalts⟩ := Frame.run_eq_error_iff_halts.1 herror
  have hG : G.Bounded source := by
    clear hhalts
    induction hreaches with
    | refl => exact hF
    | tail _ henters ih => exact henters.bounded hc ih
  exact hhalts.within hG

end Bind

/-- **Errors are found in the text.** -/
theorem bind_error_within {graph : TypeGraph} {e : BindError} (herror : bind graph source = .error e) :
    e.span.Within source := by
  cases hdiagnostics : (parseDocument source).diagnostics with
  | cons d rest =>
      unfold bind at herror
      dsimp only at herror
      rw [hdiagnostics] at herror
      cases herror
      exact diagnostics_within (hdiagnostics ▸ List.mem_cons_self)
  | nil =>
      rw [bind_of_clean hdiagnostics] at herror
      obtain ⟨definition, hdefinition, herror⟩ := exists_of_mapM_error herror
      obtain ⟨d, hd, hsome⟩ := List.mem_filterMap.1 hdefinition
      cases d with
      | fragment => cases hsome
      | operation =>
          cases hsome
          have hbounded : definition.outline.Bounded source := Definition.bounded_of_mem hd
          rcases Bind.operation_eq_error_iff.1 herror with ⟨-, rfl⟩ | ⟨_, -, -, rfl⟩ | ⟨c, F, hstarts, herror⟩
          · exact hbounded.within
          · exact hbounded.within
          · obtain ⟨-, -⟩ := hstarts
            refine Bind.Frame.within_of_error (fun hget => ?_) (fun _ hmem => ?_) herror
            · have hfragment := Definition.bounded_of_mem (Document.fragment_mem hget).1
              exact FragmentDefinition.bounded_set hfragment
            · exact SelectionSet.bounded_of_mem (OperationDefinition.bounded_set hbounded) hmem

/-- What the spans that come with a text are good for. -/
structure SpansSound (source : String) : Prop where
  /-- Every span of the document lies in the text. -/
  bounded : (parseDocument source).document.outline.Bounded source
  /-- So do the spans of all mistakes. -/
  diagnostics : ∀ d ∈ (parseDocument source).diagnostics, d.span.Within source
  /-- And so do those of the errors of binding, whatever the document is bound to. -/
  errors : ∀ graph e, bind graph source = .error e → e.span.Within source
  /-- In a document without mistakes spans start and end between characters, and are nested and ordered as the
  document is. -/
  sound : (parseDocument source).diagnostics = [] → (parseDocument source).document.outline.Sound source
  /-- The text of each of its definitions is read as just this definition. -/
  alone : (parseDocument source).diagnostics = [] → ∀ d ∈ (parseDocument source).document.definitions,
    (parseDocument (d.span.text source)).diagnostics = [] ∧
      (parseDocument (d.span.text source)).document.definitions.map Definition.bare = [d.bare]

/-- **Spans are sound**, for every text. -/
theorem spans_sound (source : String) : SpansSound source where
  bounded := outline_bounded source
  diagnostics _ hd := diagnostics_within hd
  errors _ _ herror := bind_error_within herror
  sound hclean := outline_sound hclean
  alone hclean _ hd := definition_alone hclean hd

end GraphClient
