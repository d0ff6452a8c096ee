import GraphClient.Proofs.Operation.Typing

/-! Paths through documents and selections. A path of a document leads through what it asks for,
fragments taken apart; a bound operation has just the paths of its document (`Gathers.has_iff`), so two
documents with the same paths are bound to selections that differ in order only (`Gathers.alike`). -/

namespace GraphClient

/-- A step further into a selection. -/
inductive Step
  | typename
  | field (wireName : String)
  | on (typeName : String)
  deriving DecidableEq, Repr

/-- The paths of something that is asked for. -/
inductive Asked.Gives : Asked → List Step → Prop
  | typename : Gives .typename [.typename]
  | leaf {name wireName : String} : Gives (.leaf name wireName) [.field wireName]
  | nested {name wireName typeName : String} {inner : List Asked} :
      Gives (.nested name wireName typeName inner) [.field wireName]
  | within {name wireName typeName : String} {inner : List Asked} {a : Asked}
      {path : List Step} (ha : a ∈ inner)
      (h : Gives a path) : Gives (.nested name wireName typeName inner) (.field wireName :: path)
  | on {typeName : String} {inner : List Asked} : Gives (.on typeName inner) [.on typeName]
  | inVariant {typeName : String} {inner : List Asked} {a : Asked} {path : List Step} (ha : a ∈ inner)
      (h : Gives a path) : Gives (.on typeName inner) (.on typeName :: path)

/-- The paths of all that is asked for. -/
def Asked.Path (asked : List Asked) (path : List Step) : Prop := ∃ a ∈ asked, a.Gives path

/-- All that is asked for at the end of a path. -/
def Asked.along : List Step → List Asked → List Asked
  | [], asked => asked
  | .typename :: _, _ => []
  | .field wireName :: path, asked => Asked.along path (ofField wireName asked)
  | .on typeName :: path, asked => Asked.along path (ofVariant typeName asked)

namespace Selected

/-- The paths of a selection. -/
inductive Has : Selected → List Step → Prop
  | typename {s : Selected} (h : s.typenameSelected = true) : Has s [.typename]
  | field {s : Selected} {wireName : String} {f : SelectedField} (h : (wireName, f) ∈ s.fieldEntries) :
      Has s [.field wireName]
  | within {s t : Selected} {wireName : String} {f : SelectedField} {path : List Step}
      (hfield : (wireName, f) ∈ s.fieldEntries) (hselection : f.selection = some t) (h : Has t path) :
      Has s (.field wireName :: path)
  | variant {s v : Selected} {typeName : String} (h : (typeName, v) ∈ s.variantEntries) : Has s [.on typeName]
  | inVariant {s v : Selected} {typeName : String} {path : List Step}
      (hvariant : (typeName, v) ∈ s.variantEntries) (h : Has v path) : Has s (.on typeName :: path)

/-- The selection at the end of a path. -/
inductive At : Selected → List Step → Selected → Prop
  | here {s : Selected} : At s [] s
  | field {s t u : Selected} {wireName : String} {f : SelectedField} {path : List Step}
      (hfield : (wireName, f) ∈ s.fieldEntries) (hselection : f.selection = some t) (h : At t path u) :
      At s (.field wireName :: path) u
  | variant {s v u : Selected} {typeName : String} {path : List Step}
      (hvariant : (typeName, v) ∈ s.variantEntries)
      (h : At v path u) : At s (.on typeName :: path) u

/-- That two selections differ in the order of their fields and variants only, at every depth. -/
inductive Alike : Selected → Selected → Prop
  | mk {typeName : String} {typename : Bool} {fields fields' : List (String × SelectedField)}
      {variants variants' : List (String × Selected)}
      (hfields : (fields.map (·.1)).Perm (fields'.map (·.1)))
      (hvariants : (variants.map (·.1)).Perm (variants'.map (·.1)))
      (hfield : ∀ key f f', (key, f) ∈ fields → (key, f') ∈ fields' →
        SelectedField.name f = SelectedField.name f' ∧
        SelectedField.wireName f = SelectedField.wireName f' ∧
        ((SelectedField.selection f).isSome ↔ (SelectedField.selection f').isSome))
      (hnested : ∀ key f f' t t', (key, f) ∈ fields → (key, f') ∈ fields' →
        SelectedField.selection f = some t → SelectedField.selection f' = some t' → Alike t t')
      (hvariant : ∀ key v v', (key, v) ∈ variants → (key, v') ∈ variants' → Alike v v') :
      Alike (.mk typeName fields typename variants) (.mk typeName fields' typename variants')

end Selected

namespace Asked

variable {asked : List Asked} {wireName typeName : String} {path : List Step}

theorem path_typename : Path asked [.typename] ↔ .typename ∈ asked := by
  constructor
  · rintro ⟨a, ha, ⟨⟩⟩
    exact ha
  · exact fun h => ⟨_, h, .typename⟩

theorem path_field : Path asked [.field wireName] ↔ wireName ∈ wireNames asked := by
  rw [mem_wireNames]
  constructor
  · rintro ⟨a, ha, h⟩
    cases h with
    | leaf => exact ⟨_, ha, rfl⟩
    | nested => exact ⟨_, ha, rfl⟩
    | within _ h => cases h
  · rintro ⟨a, ha, h⟩
    cases a with
    | leaf =>
        cases h
        exact ⟨_, ha, .leaf⟩
    | nested =>
        cases h
        exact ⟨_, ha, .nested⟩
    | _ => cases h

theorem path_on : Path asked [.on typeName] ↔ typeName ∈ conditions asked := by
  rw [mem_conditions]
  constructor
  · rintro ⟨a, ha, h⟩
    cases h with
    | on => exact ⟨_, ha, rfl⟩
    | inVariant _ h => cases h
  · rintro ⟨a, ha, h⟩
    cases a with
    | on =>
        cases h
        exact ⟨_, ha, .on⟩
    | _ => cases h

theorem path_ofField (hpath : path ≠ []) :
    Path (ofField wireName asked) path ↔ Path asked (.field wireName :: path) := by
  constructor
  · rintro ⟨a, ha, h⟩
    obtain ⟨_, _, _, hmem, ha⟩ := mem_ofField.1 ha
    exact ⟨_, hmem, .within ha h⟩
  · rintro ⟨a, ha, h⟩
    cases h with
    | leaf => exact absurd rfl hpath
    | nested => exact absurd rfl hpath
    | within hinner h => exact ⟨_, mem_ofField.2 ⟨_, _, _, ha, hinner⟩, h⟩

theorem path_ofVariant (hpath : path ≠ []) :
    Path (ofVariant typeName asked) path ↔ Path asked (.on typeName :: path) := by
  constructor
  · rintro ⟨a, ha, h⟩
    obtain ⟨_, hmem, ha⟩ := mem_ofVariant.1 ha
    exact ⟨_, hmem, .inVariant ha h⟩
  · rintro ⟨a, ha, h⟩
    cases h with
    | on => exact absurd rfl hpath
    | inVariant hinner h => exact ⟨_, mem_ofVariant.2 ⟨_, ha, hinner⟩, h⟩

theorem ne_nil_of_path (h : Path asked path) : path ≠ [] := by
  obtain ⟨a, -, h⟩ := h
  cases h <;> exact List.cons_ne_nil _ _

end Asked

namespace Gathers

variable {g : TypeGraph} {s s' t : Selected} {asked asked' : List Asked} {path : List Step}

theorem exists_of_mem_keys {α : Type} {entries : List (String × α)} {key : String}
    (h : key ∈ entries.map (·.1)) :
    ∃ a, (key, a) ∈ entries := by
  obtain ⟨⟨_, a⟩, hmem, rfl⟩ := List.mem_map.1 h
  exact ⟨a, hmem⟩

theorem path_of_has (h : Gathers s asked) (hhas : s.Has path) : Asked.Path asked path := by
  induction hhas generalizing asked with
  | typename htypename => exact Asked.path_typename.2 (h.typename_iff.1 htypename)
  | field hmem => exact Asked.path_field.2 (h.keys.1 ▸ List.mem_map_of_mem hmem)
  | within hfield hselection _ ih =>
      have hinner := ih ((h.field hfield).2 _ hselection)
      exact (Asked.path_ofField (Asked.ne_nil_of_path hinner)).1 hinner
  | variant hmem => exact Asked.path_on.2 (h.keys.2 ▸ List.mem_map_of_mem hmem)
  | inVariant hvariant _ ih =>
      have hinner := ih (h.variant hvariant).2.1
      exact (Asked.path_ofVariant (Asked.ne_nil_of_path hinner)).1 hinner

theorem has_of_gives (h : Gathers s asked) {a : Asked} (ha : a ∈ asked) (hgives : a.Gives path) :
    s.Has path := by
  induction hgives generalizing s asked with
  | typename => exact .typename (h.typename_iff.2 ha)
  | leaf =>
      obtain ⟨f, hf⟩ := exists_of_mem_keys (h.keys.1 ▸ Asked.mem_wireNames.2 ⟨_, ha, rfl⟩)
      exact .field hf
  | nested =>
      obtain ⟨f, hf⟩ := exists_of_mem_keys (h.keys.1 ▸ Asked.mem_wireNames.2 ⟨_, ha, rfl⟩)
      exact .field hf
  | within hinner _ ih =>
      obtain ⟨f, hf⟩ := exists_of_mem_keys (h.keys.1 ▸ Asked.mem_wireNames.2 ⟨_, ha, rfl⟩)
      obtain ⟨hof, hgathers⟩ := h.field hf
      obtain ⟨t, ht⟩ := Option.isSome_iff_exists.1 (hof.nests.2 ⟨_, _, _, ha⟩)
      exact .within hf ht (ih (hgathers t ht) (Asked.mem_ofField.2 ⟨_, _, _, ha, hinner⟩))
  | on =>
      obtain ⟨v, hv⟩ := exists_of_mem_keys (h.keys.2 ▸ Asked.mem_conditions.2 ⟨_, ha, rfl⟩)
      exact .variant hv
  | inVariant hinner _ ih =>
      obtain ⟨v, hv⟩ := exists_of_mem_keys (h.keys.2 ▸ Asked.mem_conditions.2 ⟨_, ha, rfl⟩)
      exact .inVariant hv (ih (h.variant hv).2.1 (Asked.mem_ofVariant.2 ⟨_, ha, hinner⟩))

/-- **A selection has the paths of what it gathers**, and no others. -/
theorem has_iff (h : Gathers s asked) : s.Has path ↔ Asked.Path asked path :=
  ⟨h.path_of_has, fun ⟨_, ha, hgives⟩ => h.has_of_gives ha hgives⟩

theorem along (h : Gathers s asked) (hat : s.At path t) : Gathers t (Asked.along path asked) := by
  induction hat generalizing asked with
  | here => exact h
  | field hfield hselection _ ih => exact ih ((h.field hfield).2 _ hselection)
  | variant hvariant _ ih => exact ih (h.variant hvariant).2.1

/-- What is asked for below two fields of the same name has the same paths, when all that is asked for has. -/
theorem paths_ofField (hpaths : ∀ path, Asked.Path asked path ↔ Asked.Path asked' path) (wireName : String) :
    Asked.Path (Asked.ofField wireName asked) path ↔ Asked.Path (Asked.ofField wireName asked') path := by
  by_cases hnil : path = []
  · exact ⟨fun h => absurd hnil (Asked.ne_nil_of_path h), fun h => absurd hnil (Asked.ne_nil_of_path h)⟩
  · rw [Asked.path_ofField hnil, Asked.path_ofField hnil]
    exact hpaths _

theorem paths_ofVariant (hpaths : ∀ path, Asked.Path asked path ↔ Asked.Path asked' path)
    (typeName : String) :
    Asked.Path (Asked.ofVariant typeName asked) path ↔ Asked.Path (Asked.ofVariant typeName asked') path := by
  by_cases hnil : path = []
  · exact ⟨fun h => absurd hnil (Asked.ne_nil_of_path h), fun h => absurd hnil (Asked.ne_nil_of_path h)⟩
  · rw [Asked.path_ofVariant hnil, Asked.path_ofVariant hnil]
    exact hpaths _

/-- **Selections from one type with the same paths are alike.** -/
theorem alike (h : Gathers s asked) (h' : Gathers s' asked') {typeName : String}
    (hname : s.typeName = typeName)
    (hname' : s'.typeName = typeName) (hfits : ∀ a ∈ asked, Asked.Fits g typeName a)
    (hfits' : ∀ a ∈ asked', Asked.Fits g typeName a)
    (hpaths : ∀ path, Asked.Path asked path ↔ Asked.Path asked' path) :
    s.Alike s' := by
  induction h generalizing s' asked' typeName with
  | @mk own fields typename variants asked htypename hwireNames hconditions hfield hvariant hnested
      hinner ihnested ihinner =>
      have hall : Gathers (.mk own fields typename variants) asked :=
        .mk htypename hwireNames hconditions hfield hvariant hnested hinner
      obtain ⟨other, fields', typename', variants'⟩ := s'
      cases hname
      cases hname'
      have htypenames : typename' = typename := by
        rw [Bool.eq_iff_iff]
        refine h'.typename_iff.trans ?_
        rw [htypename, ← Asked.path_typename, ← Asked.path_typename]
        exact (hpaths _).symm
      rw [htypenames]
      refine .mk ?_ ?_ ?_ ?_ ?_
      · refine (List.perm_ext_iff_of_nodup hall.nodup.1 h'.nodup.1).2 fun key => ?_
        rw [hall.keys.1, h'.keys.1, ← Asked.path_field, ← Asked.path_field]
        exact hpaths _
      · refine (List.perm_ext_iff_of_nodup hall.nodup.2 h'.nodup.2).2 fun key => ?_
        rw [hall.keys.2, h'.keys.2, ← Asked.path_on, ← Asked.path_on]
        exact hpaths _
      · intro key f f' hf hf'
        obtain ⟨definition, target, hdeclares, hname, hcomposite, -⟩ := hall.declared hfits hf
        obtain ⟨_, _, hdeclares', hname', hcomposite', -⟩ := h'.declared hfits' hf'
        obtain ⟨rfl, rfl⟩ := hdeclares.unique hdeclares'
        exact ⟨hname.trans hname'.symm, (hall.field hf).1.wireName.trans (h'.field hf').1.wireName.symm,
          hcomposite.trans hcomposite'.symm⟩
      · intro key f f' t t' hf hf' ht ht'
        obtain ⟨definition, target, hdeclares, -, -, htarget⟩ := hall.declared hfits hf
        obtain ⟨_, _, hdeclares', -, -, htarget'⟩ := h'.declared hfits' hf'
        obtain ⟨rfl, rfl⟩ := hdeclares.unique hdeclares'
        refine ihnested key f t (lookup_of_mem hall.nodup.1 hf) ht ((h'.field hf').2 t' ht') (htarget t ht)
          (htarget' t' ht') (Asked.fits_ofField hfits hdeclares)
            (Asked.fits_ofField hfits' hdeclares) fun path => paths_ofField hpaths key
      · intro key v v' hv hv'
        obtain ⟨hvname, -⟩ := hall.variant hv
        obtain ⟨hvname', hgathers', -⟩ := h'.variant hv'
        exact ihinner key v (lookup_of_mem hall.nodup.2 hv) hgathers' hvname hvname'
          (Asked.fits_ofVariant hfits)
          (Asked.fits_ofVariant hfits') fun path => paths_ofVariant hpaths key

end Gathers

/-- That an operation has the paths of its definition and no others, with its fields in the order in
which they are first selected. -/
structure Operation.Keeps (graph : TypeGraph) (document : Document) (definition : OperationDefinition)
    (op : Operation) (asked : List Asked) : Prop where
  kind : op.kind = definition.kind
  root : graph.rootType? op.kind = some op.rootType
  unfolds : Unfolds graph document.fragment? op.rootType definition.set.selections asked
  only : ∀ other, Unfolds graph document.fragment? op.rootType definition.set.selections other → other = asked
  paths : ∀ path, op.selection.Has path ↔ Asked.Path asked path
  order : ∀ path s, op.selection.At path s → s.fieldEntries.map (·.1) =
    Asked.wireNames (Asked.along path asked)

/-- **Binding loses and invents nothing.** Operations have the paths of their definitions, and
definitions of the same paths are bound to the same selection up to the order of fields. -/
theorem bind_keeps_paths {graph : TypeGraph} {source : String} {ops : List Operation}
    (h : bind graph source = .ok ops) :
    List.Forall₂ (fun definition op => ∃ asked,
      op.Keeps graph (parseDocument source).document definition asked)
        (parseDocument source).document.operations ops ∧
      ∀ source' ops', bind graph source' = .ok ops' → ∀ definition op definition' op' asked asked',
        (definition, op) ∈ (parseDocument source).document.operations.zip ops →
        (definition', op') ∈ (parseDocument source').document.operations.zip ops' →
        op.Keeps graph (parseDocument source).document definition asked →
        op'.Keeps graph (parseDocument source').document definition' asked' →
        op.rootType = op'.rootType → (∀ path, Asked.Path asked path ↔ Asked.Path asked' path) →
          op.selection.Alike op'.selection := by
  have hanswers : ∀ {source ops definition op asked}, bind graph source = .ok ops →
      (definition, op) ∈ (parseDocument source).document.operations.zip ops →
      op.Keeps graph (parseDocument source).document definition asked →
      op.Answers graph (parseDocument source).document definition asked := by
    intro source ops definition op asked hbind hmem hkeeps
    obtain ⟨other, hother⟩ := (List.forall₂_iff_zip.1 (answers_of_bind hbind)).2 hmem
    exact hkeeps.only _ hother.unfolds ▸ hother
  refine ⟨?_, ?_⟩
  · refine (answers_of_bind h).imp ?_
    rintro definition op ⟨asked, hanswers⟩
    exact ⟨asked, hanswers.kind, hanswers.root, hanswers.unfolds,
      fun _ hother => hanswers.unfolds.unique hother,
      fun path => hanswers.gathers.has_iff, fun path s hat => (hanswers.gathers.along hat).keys.1⟩
  · intro source' ops' hbind' definition op definition' op' asked asked' hmem hmem' hkeeps
      hkeeps' hroot hpaths
    have hleft := hanswers h hmem hkeeps
    have hright := hanswers hbind' hmem' hkeeps'
    exact hleft.gathers.alike hright.gathers (hleft.typeName.trans hroot) hright.typeName (hroot ▸ hleft.fits)
      hright.fits hpaths

theorem bind_feed_keeps_paths : bind feedGraph feedDocument = .ok [feedOperation] ∧
    ∃ definition ∈ (parseDocument feedDocument).document.operations, ∃ asked,
      feedOperation.Keeps feedGraph (parseDocument feedDocument).document definition asked :=
  ⟨bind_feedDocument,
    exists_of_mem_forall₂ (bind_keeps_paths bind_feedDocument).1 (List.mem_singleton_self _)⟩

end GraphClient
