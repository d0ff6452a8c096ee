import GraphClient.Bindings.Generate
import GraphClient.Proofs.Table
import GraphClient.Proofs.Text.Words

/-! Descriptions in generated code. They may be any text, but each line of one stands behind the mark
of a documentation line, and nothing else in a module depends on them. So two schemas that differ in
descriptions only give modules that differ in documentation lines only (`undocumented_generate_congr`).
Dropping these lines from a text comes to dropping them from the tree that the text is written from,
and a tree without them is the one for the schema without descriptions. -/

namespace GraphClient

def FieldDefinition.undescribed (f : FieldDefinition) : FieldDefinition := { f with description := none }

def EnumMember.undescribed (m : EnumMember) : EnumMember := { m with description := none }

def TypeDefinition.undescribed (t : TypeDefinition) : TypeDefinition :=
  { t with
    description := none
    fields := t.fields.map FieldDefinition.undescribed
    members := t.members.map EnumMember.undescribed }

/-- The graph without any description. -/
def TypeGraph.undescribed (g : TypeGraph) : TypeGraph :=
  { g with types := g.types.map TypeDefinition.undescribed }

theorem Table.values_map {α β : Type} (f : α → β) (table : Table α) :
    (table.map f).values = table.values.map f := by
  simp [Table.map, Table.values]

theorem TypeDefinition.hasId_undescribed (t : TypeDefinition) : t.undescribed.hasId = t.hasId := by
  simp only [hasId, idField?, undescribed, Table.values_map, List.find?_map, Option.isSome_map]
  rfl

namespace TypeGraph

variable (g : TypeGraph)

theorem get?_undescribed (name : String) :
    g.undescribed.get? name = (g.get? name).map TypeDefinition.undescribed :=
  Table.get?_map _ _ _

theorem definitions_undescribed : g.undescribed.definitions = g.definitions.map TypeDefinition.undescribed :=
  Table.values_map _ _

theorem contains_undescribed (name : String) : g.undescribed.contains name = g.contains name := by
  change (g.undescribed.get? name).isSome = (g.get? name).isSome
  rw [get?_undescribed, Option.isSome_map]

theorem isKeyed_undescribed (name : String) : g.undescribed.isKeyed name = g.isKeyed name := by
  have hhas (p : String) : (g.undescribed.get? p).any TypeDefinition.hasId =
      (g.get? p).any TypeDefinition.hasId := by
    rw [get?_undescribed, Option.any_map]
    exact congrArg (Option.any · _) (funext TypeDefinition.hasId_undescribed)
  rw [isKeyed, isKeyed, get?_undescribed]
  cases g.get? name with
  | none => rfl
  | some t =>
      simp only [Option.map_some, hhas, TypeDefinition.hasId_undescribed]
      rfl

end TypeGraph

namespace Bindings

open Code

/-- That a line is documentation: what comes behind the blanks at its front starts with three slashes. -/
def IsDocumentation (blank : Char → Bool) (l : List Char) : Prop := "///".toList <+: l.dropWhile blank

instance (blank : Char → Bool) (l : List Char) : Decidable (IsDocumentation blank l) :=
  inferInstanceAs (Decidable ("///".toList <+: l.dropWhile blank))

/-- The lines of a text, as its line feeds divide it, that are no documentation. -/
def codeLines (blank : Char → Bool) (text : List Char) : List (List Char) :=
  (text.splitOn '\n').filter fun l => ¬IsDocumentation blank l

/-- A text without its documentation lines. -/
def undocumented (blank : Char → Bool) (text : String) : String :=
  String.ofList (['\n'].intercalate (codeLines blank text.toList))

section

variable {blank : Char → Bool}

theorem codeLines_append_line (l rest : List Char) :
    codeLines blank (l ++ '\n' :: rest) = codeLines blank l ++ codeLines blank rest := by
  rw [codeLines, List.splitOn_append_cons_self, List.filter_append]
  rfl

/-- A documentation line can be left out. -/
theorem codeLines_append_doc {l : List Char} (hl : '\n' ∉ l) (hdoc : IsDocumentation blank l)
    (rest : List Char) :
    codeLines blank (l ++ '\n' :: rest) = codeLines blank rest := by
  rw [codeLines_append_line, codeLines, List.splitOn_eq_singleton hl,
    List.filter_cons_of_neg (by simpa using hdoc)]
  rfl

end

namespace Code

mutual

/-- A piece without its documentation, as far as it is of one line each. -/
def strip : Code → List Code
  | line text => [line text]
  | doc text => if '\n' ∈ text.toList then [doc text] else []
  | type keyword name body => [type keyword name (stripAll body)]
  | method name signature body => [method name signature (stripAll body)]
  | block head body => [block head (stripAll body)]

def stripAll : List Code → List Code
  | [] => []
  | c :: rest => strip c ++ stripAll rest

end

theorem stripAll_eq_flatMap (code : List Code) : stripAll code = code.flatMap strip := by
  induction code with
  | nil => rfl
  | cons c rest ih => rw [stripAll, ih, List.flatMap_cons]

theorem stripAll_append (first second : List Code) :
    stripAll (first ++ second) = stripAll first ++ stripAll second := by
  simp only [stripAll_eq_flatMap, List.flatMap_append]

theorem stripAll_flatMap {α : Type} (items : List α) (code : α → List Code) :
    stripAll (items.flatMap code) = items.flatMap fun a => stripAll (code a) := by
  simp only [stripAll_eq_flatMap, List.flatMap_assoc]

/-- Each documentation line of a description is one line. -/
theorem stripAll_docs (description : Option String) : stripAll (docs description) = [] := by
  rw [stripAll_eq_flatMap, List.flatMap_eq_nil_iff]
  intro c hc
  cases description with
  | none => cases hc
  | some text =>
      obtain ⟨l, hl, rfl⟩ := List.mem_map.1 hc
      have hsplit : l ∈ text.toList.splitOn '\n' := by
        rw [textLines] at hl
        split at hl
        · exact List.mem_of_mem_dropLast hl
        · exact hl
      have htrim : (Text.trimRight l).Subset l := fun c hc =>
        List.mem_reverse.1 ((List.dropWhile_suffix _).subset (List.mem_reverse.1 hc))
      have hone : '\n' ∉ (String.ofList (Text.trimRight l)).toList := by
        rw [String.toList_ofList]
        exact fun hmem => (mem_of_mem_splitOn hsplit (htrim hmem)).2 rfl
      rw [strip, if_neg hone]

section

variable {blank : Char → Bool}

theorem toList_renderLine_append (depth : Nat) (text : String) (rest : List Char) :
    (renderLine depth text).toList ++ rest = ((indentation depth).toList ++ text.toList) ++ '\n' :: rest := by
  simp [renderLine, String.toList_append]

theorem eq_space_of_mem_indentation {depth : Nat} {c : Char} (hc : c ∈ (indentation depth).toList) :
    c = ' ' := by
  rw [indentation, String.toList_join, List.mem_flatMap] at hc
  obtain ⟨step, hstep, hc⟩ := hc
  rw [List.eq_of_mem_replicate hstep] at hc
  simpa using hc

/-- What starts with three slashes is documentation wherever it stands. -/
theorem isDocumentation_indented (hspace : blank ' ' = true) (hslash : blank '/' = false)
    (depth : Nat) (l : List Char) :
    IsDocumentation blank ((indentation depth).toList ++ ("///".toList ++ l)) := by
  have hblank : ∀ c ∈ (indentation depth).toList, blank c = true := fun c hc =>
    (eq_space_of_mem_indentation hc).symm ▸ hspace
  have hstart : ("///".toList ++ l).dropWhile blank = "///".toList ++ l := by
    change ('/' :: '/' :: '/' :: l).dropWhile blank = '/' :: '/' :: '/' :: l
    exact List.dropWhile_cons_of_neg (by simp [hslash])
  rw [IsDocumentation, List.dropWhile_append_of_pos hblank, hstart]
  exact List.prefix_append _ _

/-- What stands between two lines may be put for something with the same lines of code. -/
theorem codeLines_between {depth : Nat} {head foot body body' : String}
    (hbody : ∀ rest, codeLines blank (body.toList ++ rest) = codeLines blank (body'.toList ++ rest))
    (rest : List Char) :
    codeLines blank ((renderLine depth head ++ body ++ renderLine depth foot).toList ++ rest) =
      codeLines blank ((renderLine depth head ++ body' ++ renderLine depth foot).toList ++ rest) := by
  simp only [String.toList_append, List.append_assoc]
  rw [toList_renderLine_append depth head, toList_renderLine_append depth head, codeLines_append_line,
    codeLines_append_line, hbody]

/-- A piece ends with a line feed. -/
theorem exists_toList_render (depth : Nat) (c : Code) : ∃ l, (render depth c).toList = l ++ ['\n'] := by
  have hline (before : String) (text : String) :
      ∃ l, (before ++ renderLine depth text).toList = l ++ ['\n'] :=
    ⟨(before ++ indentation depth ++ text).toList, by simp [renderLine, String.toList_append]⟩
  cases c with
  | line text =>
      rw [render]
      split
      · exact ⟨[], rfl⟩
      · simpa using hline "" text
  | doc text => simpa [render] using hline "" _
  | type keyword name body => exact hline _ _
  | method name signature body => exact hline _ _
  | block head body => exact hline _ _

/-- What follows a piece may be put for something with the same lines of code. -/
theorem codeLines_behind (depth : Nat) (c : Code) {rest rest' : List Char}
    (hrest : codeLines blank rest = codeLines blank rest') :
    codeLines blank ((render depth c).toList ++ rest) =
      codeLines blank ((render depth c).toList ++ rest') := by
  obtain ⟨l, hl⟩ := exists_toList_render depth c
  simp only [hl, List.append_assoc, List.singleton_append, codeLines_append_line, hrest]

mutual

/-- The lines of code of a piece are those of the piece without its documentation, whatever follows. -/
theorem codeLines_render (hspace : blank ' ' = true) (hslash : blank '/' = false) :
    (c : Code) → (depth : Nat) → (rest : List Char) → codeLines blank ((render depth c).toList ++ rest) =
      codeLines blank ((renderAll depth (strip c)).toList ++ rest)
  | line text, depth, rest => by rw [strip, renderAll_singleton]
  | doc text, depth, rest => by
      rw [strip]
      split
      · rw [renderAll_singleton]
      · rename_i hone
        have hdoc : ∃ l, (if text.isEmpty then "///" else "/// " ++ text).toList =
            "///".toList ++ l ∧ '\n' ∉ l := by
          split
          · exact ⟨[], rfl, List.not_mem_nil⟩
          · exact ⟨' ' :: text.toList, by simp [String.toList_append], by simpa using hone⟩
        obtain ⟨l, hl, hfeed⟩ := hdoc
        rw [render, toList_renderLine_append, hl]
        refine codeLines_append_doc ?_ (isDocumentation_indented hspace hslash depth l) rest
        simp only [List.mem_append, not_or]
        exact ⟨fun hmem => absurd (eq_space_of_mem_indentation hmem) (by decide), by decide, hfeed⟩
  | type keyword name body, depth, rest => by
      rw [strip, renderAll_singleton, render, render]
      exact codeLines_between (codeLines_renderAll hspace hslash body (depth + 1)) rest
  | method name signature body, depth, rest => by
      rw [strip, renderAll_singleton, render, render]
      exact codeLines_between (codeLines_renderAll hspace hslash body (depth + 1)) rest
  | block head body, depth, rest => by
      rw [strip, renderAll_singleton, render, render]
      exact codeLines_between (codeLines_renderAll hspace hslash body (depth + 1)) rest

theorem codeLines_renderAll (hspace : blank ' ' = true) (hslash : blank '/' = false) :
    (code : List Code) → (depth : Nat) → (rest : List Char) →
    codeLines blank ((renderAll depth code).toList ++ rest) =
      codeLines blank ((renderAll depth (stripAll code)).toList ++ rest)
  | [], _, _ => rfl
  | c :: following, depth, rest => by
      rw [stripAll, renderAll, renderAll_append, String.toList_append,
        String.toList_append, List.append_assoc, List.append_assoc, ← codeLines_render hspace hslash c]
      exact codeLines_behind depth c (codeLines_renderAll hspace hslash following depth rest)

end

end

end Code

/-- Code is generated from a graph without descriptions. -/
def Source.undescribed (s : Source) : Source := { s with graph := s.graph.undescribed }

section

variable (s : Source)

theorem kindOf_undescribed (name : String) : s.undescribed.kindOf name = s.kindOf name := by
  rw [Source.kindOf, Source.undescribed, TypeGraph.get?_undescribed, Option.map_map]
  rfl

theorem leafType_undescribed (name : String) : s.undescribed.leafType name = s.leafType name := by
  simp only [Source.leafType, Source.undescribed, TypeGraph.get?_undescribed, Option.map_map]
  rfl

theorem accessorType?_undescribed (type : TypeRef) :
    s.undescribed.accessorType? type = s.accessorType? type := by
  cases type with
  | named nullable name => simp only [Source.accessorType?, kindOf_undescribed, leafType_undescribed]
  | list nullable item =>
      cases item with
      | named itemNullable name => simp only [Source.accessorType?, kindOf_undescribed, leafType_undescribed]
      | list itemNullable item => rfl

theorem isShared_undescribed (t : TypeDefinition) (f : FieldDefinition) :
    isShared s.undescribed t.undescribed f.undescribed = isShared s t f := by
  have hown (p : String) : ((s.undescribed.graph.get? p).bind (·.field? f.wireName)).any
      (fun own => own.type = f.type) =
      ((s.graph.get? p).bind (·.field? f.wireName)).any fun own => own.type = f.type := by
    rw [Source.undescribed, TypeGraph.get?_undescribed]
    cases s.graph.get? p with
    | none => rfl
    | some t =>
        simp only [Option.map_some, Option.bind_some, TypeDefinition.field?,
          TypeDefinition.undescribed, Table.get?_map, Option.any_map]
        rfl
  simp only [isShared]
  exact congrArg _ (congrArg (t.possibleTypes.all ·) (funext hown))

theorem stripAll_enumCode (t : TypeDefinition) :
    stripAll (enumCode t.undescribed) = stripAll (enumCode t) := by
  have hnames : t.undescribed.members.map (·.name) = t.members.map (·.name) := by
    simp [TypeDefinition.undescribed, EnumMember.undescribed, Function.comp_def]
  simp only [enumCode, stripAll_append, stripAll_docs, hnames]
  rfl

theorem stripAll_fieldHead (f : FieldDefinition) :
    stripAll (fieldHead f.undescribed) = stripAll (fieldHead f) := by
  rw [fieldHead, fieldHead, stripAll_append, stripAll_append, stripAll_docs, stripAll_docs]
  rfl

theorem stripAll_fieldCode (f : FieldDefinition) :
    stripAll (fieldCode s.undescribed f.undescribed) = stripAll (fieldCode s f) := by
  obtain ⟨name, wireName, type, isId, description, deprecated⟩ := f
  cases type with
  | named nullable typeName =>
      have hhead := stripAll_fieldHead ⟨name, wireName, .named nullable typeName, isId,
        description, deprecated⟩
      simp only [fieldCode, FieldDefinition.undescribed, stripAll_append, kindOf_undescribed,
        leafType_undescribed] at hhead ⊢
      rw [hhead]
      rfl
  | list nullable item =>
      cases item with
      | named itemNullable typeName =>
          have hhead := stripAll_fieldHead ⟨name, wireName,
            .list nullable (.named itemNullable typeName), isId, description, deprecated⟩
          have hkeyed : s.undescribed.graph.isKeyed typeName = s.graph.isKeyed typeName :=
            s.graph.isKeyed_undescribed typeName
          simp only [fieldCode, FieldDefinition.undescribed, stripAll_append, kindOf_undescribed,
            leafType_undescribed, hkeyed] at hhead ⊢
          rw [hhead]
          rfl
      | list itemNullable item => rfl

theorem stripAll_fields (code code' : FieldDefinition → List Code)
    (hcode : ∀ f, stripAll (code' f.undescribed) = stripAll (code f)) (t : TypeDefinition) :
    stripAll (t.undescribed.fields.values.flatMap code') = stripAll (t.fields.values.flatMap code) := by
  rw [TypeDefinition.undescribed, Table.values_map, List.flatMap_map, stripAll_flatMap, stripAll_flatMap]
  exact congrArg (t.fields.values.flatMap ·) (funext hcode)

theorem stripAll_objectCode (t : TypeDefinition) :
    stripAll (objectCode s.undescribed t.undescribed) = stripAll (objectCode s t) := by
  have hmethods : stripAll (objectMethods s.undescribed t.undescribed) = stripAll (objectMethods s t) := by
    rw [objectMethods, objectMethods, stripAll_append, stripAll_append,
      stripAll_fields _ _ (stripAll_fieldCode s) t]
    rfl
  simp only [objectCode, stripAll_append, stripAll_docs, stripAll, strip, hmethods]
  rfl

theorem stripAll_interfaceFieldCode (t : TypeDefinition) (f : FieldDefinition) :
    stripAll (interfaceFieldCode s.undescribed t.undescribed f.undescribed) =
      stripAll (interfaceFieldCode s t f) := by
  have haccessor : s.undescribed.accessorType? f.undescribed.type = s.accessorType? f.type :=
    accessorType?_undescribed s f.type
  rw [interfaceFieldCode, interfaceFieldCode, isShared_undescribed, haccessor]
  cases if isShared s t f then s.accessorType? f.type else none with
  | none => rfl
  | some accessor =>
      simp only [stripAll_append, stripAll_fieldHead]
      rfl

theorem stripAll_abstractCode (t : TypeDefinition) :
    stripAll (abstractCode s.undescribed t.undescribed) = stripAll (abstractCode s t) := by
  have hmethods : stripAll (abstractMethods s.undescribed t.undescribed) =
      stripAll (abstractMethods s t) := by
    have hkind : t.undescribed.kind = t.kind := rfl
    rw [abstractMethods, abstractMethods, stripAll_append, stripAll_append, hkind]
    split
    · rw [stripAll_fields _ _ (stripAll_interfaceFieldCode s t) t]
      rfl
    · rfl
  simp only [abstractCode, stripAll_append, stripAll_docs, stripAll, strip, hmethods]
  rfl

/-- Only documentation of one line each depends on descriptions. -/
theorem stripAll_moduleCode (operations : List Operation) (options : Options) :
    stripAll (moduleCode s.undescribed operations options) = stripAll (moduleCode s operations options) := by
  have htypes (p : TypeKind → Bool) (code code' : TypeDefinition → List Code)
      (hcode : ∀ t, stripAll (code' t.undescribed) = stripAll (code t)) :
      stripAll ((s.undescribed.graph.definitions.filter (p ·.kind)).flatMap code') =
        stripAll ((s.graph.definitions.filter (p ·.kind)).flatMap code) := by
    rw [Source.undescribed, TypeGraph.definitions_undescribed, List.filter_map,
      List.flatMap_map, stripAll_flatMap, stripAll_flatMap]
    exact congrArg (List.flatMap · _) (funext hcode)
  have hoperations (o : Operation) : operationCode s.undescribed.graph o = operationCode s.graph o := by
    have hname : handlerName s.undescribed.graph o = handlerName s.graph o := by
      rw [handlerName, handlerName, Source.undescribed, TypeGraph.contains_undescribed]
    simp only [operationCode, hname]
  simp only [moduleCode, stripAll_append, TypeGraph.ofKind, funext hoperations]
  rw [htypes (decide <| · = .enum) _ _ stripAll_enumCode,
    htypes (decide <| · = .object) _ _ (stripAll_objectCode s),
    htypes TypeKind.isAbstract _ _ (stripAll_abstractCode s)]

end

section

variable {blank : Char → Bool}

theorem codeLines_generate (hspace : blank ' ' = true) (hslash : blank '/' = false) (g : TypeGraph)
    (operations : List Operation) (scalars : Registry) (options : Options) :
    codeLines blank (generate g operations scalars options).toList =
      codeLines blank (renderAll 0 (stripAll (moduleCode ⟨g, scalars⟩ operations options))).toList := by
  have hlines := codeLines_renderAll hspace hslash (moduleCode ⟨g, scalars⟩ operations options) 0 []
  rwa [List.append_nil, List.append_nil] at hlines

/-- **Descriptions and code.** For schemas that differ in descriptions only, modules without their
documentation lines are one text, whatever else than spaces counts as blank at the front of a line. -/
theorem undocumented_generate_congr {g g' : TypeGraph} (hsame : g.undescribed = g'.undescribed)
    (hspace : blank ' ' = true)
    (hslash : blank '/' = false) (operations : List Operation) (scalars : Registry) (options : Options) :
    undocumented blank (generate g operations scalars options) =
      undocumented blank (generate g' operations scalars options) := by
  have hcode : stripAll (moduleCode ⟨g, scalars⟩ operations options) =
      stripAll (moduleCode ⟨g', scalars⟩ operations options) := by
    rw [← stripAll_moduleCode ⟨g, scalars⟩, ← stripAll_moduleCode ⟨g', scalars⟩, Source.undescribed,
      Source.undescribed, hsame]
  rw [undocumented, undocumented, codeLines_generate hspace hslash, codeLines_generate hspace hslash, hcode]

end

section Sample

/-- A schema with one type, which has one field; the same is told about both. -/
def noteGraph (about : String) : TypeGraph :=
  let text : FieldDefinition := ⟨"text", "text", .named true "String", false, some about, false⟩
  ⟨⟨[("Note", ⟨"Note", .object, some about, ⟨[("text", text)]⟩, [], [], []⟩)]⟩, "Note", none, none⟩

theorem undescribed_noteGraph (about about' : String) :
    (noteGraph about).undescribed = (noteGraph about').undescribed := rfl

/-- What is told may look like code. -/
theorem undocumented_noteGraph :
    (noteGraph "A note.\n\x7d\r\n/* \"").undescribed = (noteGraph "").undescribed ∧
      undocumented (· = ' ') (generate (noteGraph "A note.\n\x7d\r\n/* \"") [] .standard .default) =
        undocumented (· = ' ') (generate (noteGraph "") [] .standard .default) :=
  ⟨undescribed_noteGraph _ _,
    undocumented_generate_congr (undescribed_noteGraph _ _) rfl rfl [] .standard .default⟩

end Sample

end Bindings

end GraphClient
