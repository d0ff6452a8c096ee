import GraphClient.Proofs.Bindings.Accessors
import GraphClient.Proofs.Text.Words

/-! The names of generated methods. The names of the methods that every type has are kept free, but
those of one field are never compared with those of another one: different names of a schema may be
one in snake case, and a field may be called what the setter, the hook or the list of another one is.
Apart from these clashes, all methods of a type have distinct names, and apart from a field that is
called `_`, whose getter has no name, they are identifiers (`methodNames_nodup_iff`). -/

namespace GraphClient

open Lexer (isNamePart)

/-- That the types of a schema and their fields have names of words. -/
structure Introspection.Schema.Worded (schema : Introspection.Schema) : Prop where
  type : ∀ t ∈ schema.types, ∀ name, t.name = some name → IsWord name
  field : ∀ t ∈ schema.types, ∀ f ∈ t.fields.getD [], IsWord f.name

namespace Schema

open Introspection (Declaration)

/-- What is declared is a declaration of the schema, or says nothing but its name. -/
theorem mem_of_declare {schema : Introspection.Schema} {d : Declared} (hdeclare : declare schema = .ok d) :
    ∀ e ∈ d.types.entries, e.2.2 ∈ schema.types ∨ e.2.2.fields = none := by
  refine declare_induction (P := fun done d => ∀ e ∈ d.types.entries, e.2.2 ∈ done ∨ e.2.2.fields = none)
    (List.forall_mem_nil _) (fun {done d t d'} hd hadd e he => ?_) (fun {_ d name} _ hd e he => ?_) hdeclare
  · have hearlier : e ∈ d.types.entries → e.2.2 ∈ done ++ [t] ∨ e.2.2.fields = none := fun he =>
      (hd e he).imp_left (List.mem_append_left _)
    obtain ⟨name, -, hadds⟩ := adds_of_add hadd
    cases hadds with
    | hidden | input => exact hearlier he
    | type =>
        rcases Table.mem_insertEntry he with rfl | he
        · exact .inl (List.mem_append_right _ (List.mem_singleton_self t))
        · exact hearlier he
  · unfold Declared.addBuiltin at he
    split at he
    · exact hd e he
    · rcases Table.mem_insertEntry he with rfl | he
      · exact .inr rfl
      · exact hd e he

/-- A field is the field of a declaration, and its name the one there in snake case. -/
theorem source_of_resolveFields {d : Declared} {name : String} {decl : Declaration}
    {fields : Table FieldDefinition}
    (hresolve : resolveFields d name decl = .ok fields) {f : FieldDefinition} (hf : f ∈ fields.values) :
    f.name = Casing.snake f.wireName ∧ ∃ source ∈ decl.fields.getD [], f.wireName = source.name := by
  obtain ⟨list, hmap, rfl⟩ := Except.map_eq_ok.1 hresolve
  obtain ⟨e, he, rfl⟩ := List.mem_map.1 hf
  obtain ⟨f, hlist, rfl⟩ := List.mem_map.1 (Table.mem_of_mem_ofList he)
  obtain ⟨source, hmem, hsource⟩ := exists_of_mem_forall₂ (forall₂_of_mapM hmap) hlist
  obtain ⟨type, -, rfl⟩ := Except.map_eq_ok.1 hsource
  exact ⟨rfl, source, hmem, rfl⟩

end Schema

/-- Fields of a graph have the names of the schema, and these in snake case for generated code. -/
theorem TypeGraph.worded_of_build {schema : Introspection.Schema} {g : TypeGraph}
    (hbuild : TypeGraph.build schema = .ok g) (hwords : schema.Worded) {t : TypeDefinition}
    (ht : t ∈ g.definitions)
    {f : FieldDefinition} (hf : f ∈ t.fields.values) :
    f.name = Casing.snake f.wireName ∧ IsWord f.wireName := by
  obtain ⟨d, hdeclare, htypes⟩ := declared_of_build hbuild
  obtain ⟨kind, decl, hmem, hresolves⟩ := Schema.exists_of_get? htypes ((filed_of_build hbuild).get?_name ht)
  rcases hresolves.fields with hnone | hfields
  · rw [hnone] at hf
    cases hf
  · obtain ⟨hname, source, hsource, hwire⟩ := Schema.source_of_resolveFields hfields hf
    refine ⟨hname, hwire ▸ ?_⟩
    rcases Schema.mem_of_declare hdeclare _ hmem with hdeclared | hnone
    · exact hwords.field decl hdeclared source hsource
    · rw [hnone] at hsource
      cases hsource

namespace Bindings

open Code (methodNames)

/-- The methods of one field, by the stem of their names; a list of objects has one more. -/
structure Family where
  stem : String
  hasList : Bool
  deriving DecidableEq, Repr

namespace Family

def getter (a : Family) : String := Casing.escape a.stem

def setter (a : Family) : String := "set_" ++ a.stem

def hook (a : Family) : String := "on_" ++ a.stem ++ "_changed"

def list (a : Family) : String := a.stem ++ "_list"

/-- In the order of the code. -/
def names (a : Family) : List String :=
  [a.getter] ++ (if a.hasList then [a.list] else []) ++ [a.setter, a.hook]

theorem mem_names {a : Family} {name : String} :
    name ∈ a.names ↔ name = a.getter ∨ (a.hasList = true ∧ name = a.list) ∨
      name = a.setter ∨ name = a.hook := by
  cases hlist : a.hasList <;> simp [names, hlist]

end Family

/-- Whether a field of an object or an interface has methods. -/
def hasMethods (s : Source) (t : TypeDefinition) (f : FieldDefinition) : Bool :=
  decide (f.type.depth ≤ 1) && (decide (t.kind = .object) || isShared s t f)

/-- The methods that a field has if it has any. Only those of an object give the live list. -/
def family (s : Source) (t : TypeDefinition) (f : FieldDefinition) : Family :=
  ⟨methodStem f, decide (t.kind = .object) && f.type.isList && (s.kindOf f.type.typeName).isComposite⟩

/-- The fields of a type that have methods. -/
def accessible (s : Source) (t : TypeDefinition) : List FieldDefinition :=
  t.fields.values.filter (hasMethods s t)

/-- What the block of an object or an interface holds. -/
def methodCode (s : Source) (t : TypeDefinition) : List Code :=
  if t.kind = .object then objectMethods s t else abstractMethods s t

/-- The names of the methods that every type of a kind has. -/
def fixedNames (kind : TypeKind) : List String :=
  if kind = .object then ["new", "from_object", "into_object", "object", "from_data", "patch"]
  else ["from_object", "into_object", "object", "typename"]

section

variable {s : Source} {t : TypeDefinition} {f : FieldDefinition}

@[simp] theorem methodNames_docs (description : Option String) :
    methodNames (Code.docs description) = [] := by
  apply List.filterMap_eq_nil_iff.2
  intro c hc
  obtain ⟨text, rfl⟩ := Code.exists_doc_of_mem_docs hc
  rfl

theorem methodNames_fieldHead (f : FieldDefinition) : methodNames (fieldHead f) = [] := by
  rw [fieldHead, Code.methodNames_append, methodNames_docs]
  cases f.deprecated <;> rfl

/-- A field of an object has its family of methods, unless it is a list of lists. -/
theorem methodNames_fieldCode (hkind : t.kind = .object) :
    methodNames (fieldCode s f) = if hasMethods s t f = true then (family s t f).names else [] := by
  have hhas : hasMethods s t f = decide (f.type.depth ≤ 1) := by simp [hasMethods, hkind]
  rw [hhas, fieldCode]
  cases htype : f.type with
  | named nullable name =>
      simp only [Code.methodNames_append, methodNames_fieldHead]
      have hfamily : family s t f = ⟨methodStem f, false⟩ := by simp [family, htype, TypeRef.isList]
      rw [hfamily]
      cases (s.kindOf name).isComposite <;> cases nullable <;> rfl
  | list nullable item =>
      cases item with
      | named itemNullable name =>
          simp only [Code.methodNames_append, methodNames_fieldHead]
          have hfamily : family s t f = ⟨methodStem f, (s.kindOf name).isComposite⟩ := by
            simp [family, hkind, htype, TypeRef.isList, TypeRef.typeName]
          rw [hfamily]
          cases (s.kindOf name).isComposite <;> rfl
      | list itemNullable item => rfl

theorem accessorType?_isSome (type : TypeRef) : (s.accessorType? type).isSome = decide (type.depth ≤ 1) := by
  cases type with
  | named nullable name =>
      rw [Source.accessorType?]
      split <;> rfl
  | list nullable item =>
      cases item with
      | named itemNullable name =>
          rw [Source.accessorType?]
          split <;> rfl
      | list itemNullable item => rfl

/-- A field of an interface has its family of methods if all object types share it. -/
theorem methodNames_interfaceFieldCode (hkind : t.kind = .interface) :
    methodNames (interfaceFieldCode s t f) = if hasMethods s t f =
      true then (family s t f).names else [] := by
  have hhas : hasMethods s t f = (decide (f.type.depth ≤ 1) && isShared s t f) := by simp [hasMethods, hkind]
  rw [hhas, ← accessorType?_isSome (s := s), interfaceFieldCode]
  cases isShared s t f with
  | false =>
      rw [Bool.and_false]
      rfl
  | true =>
      rw [Bool.and_true, if_pos rfl]
      cases s.accessorType? f.type with
      | none => rfl
      | some accessor =>
          have hfamily : family s t f = ⟨methodStem f, false⟩ := by simp [family, hkind]
          rw [Option.isSome_some, if_pos rfl, hfamily]
          simp only [Code.methodNames_append, methodNames_fieldHead]
          rfl

theorem flatMap_ite {α β : Type} (p : α → Bool) (k : α → List β) (items : List α) :
    (items.flatMap fun a => if p a = true then k a else []) = (items.filter p).flatMap k := by
  induction items with
  | nil => rfl
  | cons a rest ih =>
      rw [List.flatMap_cons, ih, List.filter_cons]
      split <;> simp

/-- The methods of a type: those of every type, and the family of each field that has methods. -/
theorem methodNames_methodCode (hkind : t.kind = .object ∨ t.kind = .interface) :
    methodNames (methodCode s t) = fixedNames t.kind ++ (accessible s t).flatMap fun f =>
      (family s t f).names := by
  rw [accessible, ← flatMap_ite, methodCode, fixedNames]
  rcases hkind with hkind | hkind
  · rw [if_pos hkind, if_pos hkind, objectMethods, Code.methodNames_append]
    simp only [← methodNames_fieldCode hkind]
    rw [methodNames, methodNames, List.filterMap_flatMap]
    rfl
  · have hne : ¬t.kind = .object := by simp [hkind]
    rw [if_neg hne, if_neg hne, abstractMethods, if_pos hkind, Code.methodNames_append]
    simp only [← methodNames_interfaceFieldCode hkind]
    rw [methodNames, methodNames, List.filterMap_flatMap]
    rfl

end

namespace Family

/-- That a method of one field is called like a method of another one. -/
def Shares (a b : Family) : Prop := ∃ name, name ∈ a.names ∧ name ∈ b.names

/-- How two fields come to have methods of one name, seen from one of them: they have one stem, or the
getter of a keyword without a raw form is the getter of the other one, or the getter of the first is
the setter, the hook or the list of the other one, or its setter is the list of the other one. -/
@[mk_iff]
inductive Clashes (a b : Family) : Prop
  | stem (hstem : a.stem = b.stem)
  | keyword (hkeyword : a.stem ∈ Casing.unescapable) (hstem : b.stem = a.stem ++ "_")
  | setter (hstem : a.stem = "set_" ++ b.stem)
  | hook (hstem : a.stem = "on_" ++ b.stem ++ "_changed")
  | list (hlist : b.hasList = true) (hstem : a.stem = b.stem ++ "_list")
  | setterList (hlist : b.hasList = true) (hstem : "set_" ++ a.stem = b.stem ++ "_list")

instance (a b : Family) : Decidable (a.Clashes b) := decidable_of_iff _ (clashes_iff a b).symm

/-- What starts like a setter or a hook, or ends like a list. -/
def Marked (name : String) : Prop :=
  "set_".toList <+: name.toList ∨ "on_".toList <+: name.toList ∨ "_list".toList <:+ name.toList

instance (name : String) : Decidable (Marked name) :=
  inferInstanceAs (Decidable ("set_".toList <+: name.toList ∨ "on_".toList <+: name.toList ∨
    "_list".toList <:+ name.toList))

/-- No name that is treated in some way of its own is marked. -/
theorem not_marked {name : String}
    (hname : name ∈ Casing.reserved ++ reservedMethods ++ Casing.unescapable.map (· ++ "_") ++ rawless) :
    ¬Marked name :=
  (by decide :
    ∀ k ∈ Casing.reserved ++ reservedMethods ++ Casing.unescapable.map (· ++ "_") ++ rawless,
    ¬Marked k) name hname

section

variable {a b : Family} {name : String}

theorem marked_setter (a : Family) : Marked a.setter :=
  .inl ⟨a.stem.toList, by simp [setter, String.toList_append]⟩

theorem marked_hook (a : Family) : Marked a.hook :=
  .inr (.inl ⟨(a.stem ++ "_changed").toList, by simp [hook, String.toList_append]⟩)

theorem marked_list (a : Family) : Marked a.list :=
  .inr (.inr ⟨a.stem.toList, by simp [list, String.toList_append]⟩)

theorem isWord_setter (ha : IsWord a.stem) : IsWord a.setter := (by decide : IsWord "set_").append ha.2

theorem isWord_hook (ha : IsWord a.stem) : IsWord a.hook :=
  ((by decide : IsWord "on_").append ha.2).append (by decide)

theorem isWord_list (ha : IsWord a.stem) : IsWord a.list := ha.append (by decide)

/-- A getter has a marked name only if its stem is that name. -/
theorem getter_eq_iff (hword : IsWord name) (hmarked : Marked name) : a.getter = name ↔ a.stem = name := by
  have hfree : name ∉ Casing.reserved := fun h => not_marked (by simp [h]) hmarked
  rw [getter, Casing.escape_eq_iff hword hfree]
  refine or_iff_left ?_
  rintro ⟨hkeyword, rfl⟩
  refine not_marked ?_ hmarked
  have hmem : a.stem ++ "_" ∈ Casing.unescapable.map (· ++ "_") := List.mem_map_of_mem hkeyword
  simp only [List.mem_append]
  exact .inl (.inr hmem)

theorem setter_ne_hook : a.setter ≠ b.hook := by
  intro heq
  have hfirst := congrArg (fun n => n.toList.head?) heq
  simp [setter, hook, String.toList_append] at hfirst

theorem hook_ne_list : a.hook ≠ b.list := by
  intro heq
  have hlast := congrArg (fun n => n.toList.reverse.head?) heq
  simp [hook, list, String.toList_append] at hlast

/-- The methods of one field have distinct names, for these are of different lengths. -/
theorem names_nodup (ha : IsWord a.stem) : a.names.Nodup := by
  have hgetter {n : String} (hword : IsWord n) (hmarked : Marked n) (hlength : a.stem.length < n.length) :
      a.getter ≠ n := fun heq =>
    absurd (congrArg String.length ((getter_eq_iff hword hmarked).1 heq)) (Nat.ne_of_lt hlength)
  have hsetter : a.setter.length = 4 + a.stem.length := String.length_append _ _
  have hlist : a.list.length = a.stem.length + 5 := String.length_append _ _
  have hhook : a.hook.length = 3 + a.stem.length + 8 := by
    rw [hook, String.length_append, String.length_append]
    rfl
  have hset := hgetter (isWord_setter ha) (marked_setter a) (by omega)
  have hhook := hgetter (isWord_hook ha) (marked_hook a) (by omega)
  have hlive := hgetter (isWord_list ha) (marked_list a) (by omega)
  have hapart : a.list ≠ a.setter := fun heq => by
    have hlength := congrArg String.length heq
    omega
  rw [names]
  split <;> simp [hset, hhook, hlive, hapart, hook_ne_list.symm, setter_ne_hook]

theorem shares_comm : a.Shares b ↔ b.Shares a := by
  constructor <;> exact fun ⟨name, hfirst, hsecond⟩ => ⟨name, hsecond, hfirst⟩

theorem shares_of_clashes (ha : IsWord a.stem) (hclashes : a.Clashes b) : a.Shares b := by
  have hgetter {n : String} (hmarked : Marked n) (hstem : a.stem = n) (hn : n ∈ b.names) : a.Shares b :=
    ⟨n, mem_names.2 (.inl ((getter_eq_iff (hstem ▸ ha) hmarked).2 hstem).symm), hn⟩
  cases hclashes with
  | stem hstem => exact ⟨a.setter, mem_names.2 (by simp), mem_names.2 (by simp [setter, hstem])⟩
  | keyword hkeyword hstem =>
      obtain ⟨hescape, -, hfree⟩ := Casing.escaped_of_unescapable hkeyword
      refine ⟨a.getter, mem_names.2 (.inl rfl), mem_names.2 (.inl ?_)⟩
      rw [getter, getter, hescape, hstem, Casing.escape_of_free hfree]
  | setter hstem =>
      exact hgetter (marked_setter b) hstem (mem_names.2 (.inr (.inr (.inl rfl))))
  | hook hstem =>
      exact hgetter (marked_hook b) hstem (mem_names.2 (.inr (.inr (.inr rfl))))
  | list hlist hstem =>
      exact hgetter (marked_list b) hstem (mem_names.2 (.inr (.inl ⟨hlist, rfl⟩)))
  | setterList hlist hstem =>
      exact ⟨a.setter, mem_names.2 (by simp), mem_names.2 (.inr (.inl ⟨hlist, hstem⟩))⟩

/-- Two fields have methods of one name just if one of them clashes with the other one. -/
theorem shares_iff (ha : IsWord a.stem) (hb : IsWord b.stem) : a.Shares b ↔ a.Clashes b ∨ b.Clashes a := by
  constructor
  · rintro ⟨name, hfirst, hsecond⟩
    have hstem (heq : a.stem = b.stem) : a.Clashes b ∨ b.Clashes a := .inl (.stem heq)
    -- getter, list, setter and hook of the one field against those of the other one
    rcases mem_names.1 hfirst with rfl | ⟨hlist, rfl⟩ | rfl | rfl <;>
      rcases mem_names.1 hsecond with heq | ⟨hlist', heq⟩ | heq | heq
    · rcases (Casing.escape_eq_escape_iff ha hb).1 heq with heq | ⟨hkeyword, heq⟩ | ⟨hkeyword, heq⟩
      · exact hstem heq
      · exact .inl (.keyword hkeyword heq)
      · exact .inr (.keyword hkeyword heq)
    · exact .inl (.list hlist' ((getter_eq_iff (isWord_list hb) (marked_list b)).1 heq))
    · exact .inl (.setter ((getter_eq_iff (isWord_setter hb) (marked_setter b)).1 heq))
    · exact .inl (.hook ((getter_eq_iff (isWord_hook hb) (marked_hook b)).1 heq))
    · exact .inr (.list hlist ((getter_eq_iff (isWord_list ha) (marked_list a)).1 heq.symm))
    · exact hstem ((String.append_left_inj _).1 heq)
    · exact .inr (.setterList hlist heq.symm)
    · exact absurd heq.symm hook_ne_list
    · exact .inr (.setter ((getter_eq_iff (isWord_setter ha) (marked_setter a)).1 heq.symm))
    · exact .inl (.setterList hlist' heq)
    · exact hstem ((String.append_right_inj _).1 heq)
    · exact absurd heq setter_ne_hook
    · exact .inr (.hook ((getter_eq_iff (isWord_hook ha) (marked_hook a)).1 heq.symm))
    · exact absurd heq hook_ne_list
    · exact absurd heq.symm setter_ne_hook
    · exact hstem ((String.append_right_inj _).1 ((String.append_left_inj _).1 heq))
  · rintro (hclashes | hclashes)
    · exact shares_of_clashes ha hclashes
    · exact shares_comm.1 (shares_of_clashes hb hclashes)

/-- The names of marked methods are identifiers. -/
theorem isIdentifier_of_marked (hword : IsWord name) (hmarked : Marked name) : IsIdentifier name := by
  refine .plain hword ?_ (mt mem_keywords_iff.1 fun h => not_marked (by simp [h]) hmarked)
  rintro rfl
  exact not_marked (by decide) hmarked

/-- All methods of a field have identifiers for names, unless the field is called `_`. -/
theorem isIdentifier_names (ha : IsWord a.stem) : (∀ name ∈ a.names, IsIdentifier name) ↔ a.stem ≠ "_" := by
  rw [← Casing.isIdentifier_escape ha]
  constructor
  · exact fun hall => hall a.getter (mem_names.2 (.inl rfl))
  · intro hgetter name hname
    rcases mem_names.1 hname with rfl | ⟨-, rfl⟩ | rfl | rfl
    · exact hgetter
    · exact isIdentifier_of_marked (isWord_list ha) (marked_list a)
    · exact isIdentifier_of_marked (isWord_setter ha) (marked_setter a)
    · exact isIdentifier_of_marked (isWord_hook ha) (marked_hook a)

/-- A stem that is no method of every type keeps all methods of a field apart from these. -/
theorem not_mem_names_of_reserved (hstem : a.stem ∉ reservedMethods) (hname : name ∈ reservedMethods) :
    name ∉ a.names := by
  have hunmarked : ¬Marked name := not_marked (by simp [hname])
  have hwords : ∀ k ∈ reservedMethods, IsWord k ∧ k ∉ Casing.reserved ∧
      ∀ k' ∈ Casing.unescapable, k ≠ k' ++ "_" := by
    decide
  obtain ⟨hword, hfree, hplain⟩ := hwords name hname
  intro hmem
  rcases mem_names.1 hmem with heq | ⟨-, rfl⟩ | rfl | rfl
  · rcases (Casing.escape_eq_iff hword hfree).1 heq.symm with heq | ⟨hkeyword, heq⟩
    · exact hstem (heq ▸ hname)
    · exact hplain _ hkeyword heq
  · exact hunmarked (marked_list a)
  · exact hunmarked (marked_setter a)
  · exact hunmarked (marked_hook a)

end

end Family

theorem methodStem_not_reserved (f : FieldDefinition) : methodStem f ∉ reservedMethods := by
  rw [methodStem]
  split
  · rename_i hname
    exact (by decide : ∀ k ∈ reservedMethods, k ++ "_field" ∉ reservedMethods) f.name hname
  · assumption

theorem isWord_methodStem {f : FieldDefinition} (hname : IsWord f.name) : IsWord (methodStem f) := by
  rw [methodStem]
  split
  · exact hname.append (by decide)
  · exact hname

theorem methodStem_eq_underscore_iff {f : FieldDefinition} : methodStem f = "_" ↔ f.name = "_" := by
  rw [methodStem]
  split
  · rename_i hname
    have hlonger : ∀ k ∈ reservedMethods, k ++ "_field" ≠ "_" ∧ k ≠ "_" := by decide
    obtain ⟨hstem, hplain⟩ := hlonger f.name hname
    simp [hstem, hplain]
  · rfl

theorem mem_reservedMethods_of_fixed {kind : TypeKind} {name : String} (hname : name ∈ fixedNames kind) :
    name ∈ reservedMethods := by
  rw [fixedNames] at hname
  split at hname
  · exact (by decide : ∀ k ∈ ["new", "from_object", "into_object", "object", "from_data", "patch"],
      k ∈ reservedMethods) name hname
  · exact (by decide : ∀ k ∈ ["from_object", "into_object", "object",
      "typename"], k ∈ reservedMethods) name hname

theorem fixedNames_nodup (kind : TypeKind) : (fixedNames kind).Nodup := by
  rw [fixedNames]
  split <;> decide

section

variable {kind : TypeKind} {families : List Family}

/-- The names in a block are distinct just if no two of its fields clash. -/
theorem blockNames_nodup_iff (hstems : ∀ a ∈ families, IsWord a.stem ∧ a.stem ∉ reservedMethods) :
    (fixedNames kind ++ families.flatMap Family.names).Nodup ↔
      families.Pairwise fun a b => ¬a.Clashes b ∧ ¬b.Clashes a := by
  have hfixed : ∀ name ∈ fixedNames kind, ∀ other ∈ families.flatMap Family.names, name ≠ other := by
    rintro name hname other hother rfl
    obtain ⟨a, ha, hmem⟩ := List.mem_flatMap.1 hother
    exact Family.not_mem_names_of_reserved (hstems a ha).2 (mem_reservedMethods_of_fixed hname) hmem
  rw [List.nodup_append, and_iff_right (fixedNames_nodup kind), and_iff_left hfixed, List.nodup_flatMap,
    and_iff_right fun a ha => Family.names_nodup (hstems a ha).1]
  apply List.Pairwise.iff_of_mem
  intro a b ha hb
  rw [← not_or, ← Family.shares_iff (hstems a ha).1 (hstems b hb).1]
  constructor
  · rintro hdisjoint ⟨name, hname, hname'⟩
    exact hdisjoint hname hname'
  · intro hapart name hname hname'
    exact hapart ⟨name, hname, hname'⟩

theorem isIdentifier_of_fixed {name : String} (hname : name ∈ fixedNames kind) : IsIdentifier name := by
  have hall : ∀ k ∈ reservedMethods, IsWord k ∧ k ≠ "_" ∧ k ∉ keywords := by decide
  obtain ⟨hword, hne, hkeyword⟩ := hall name (mem_reservedMethods_of_fixed hname)
  exact .plain hword hne hkeyword

theorem isIdentifier_blockNames (hstems : ∀ a ∈ families, IsWord a.stem) :
    (∀ name ∈ fixedNames kind ++ families.flatMap Family.names, IsIdentifier name) ↔
      ∀ a ∈ families, a.stem ≠ "_" := by
  rw [List.forall_mem_append, and_iff_right fun name hname => isIdentifier_of_fixed hname]
  constructor
  · intro hall a ha
    exact (Family.isIdentifier_names (hstems a ha)).1 fun name hname =>
      hall name (List.mem_flatMap.2 ⟨a, ha, hname⟩)
  · intro hall name hmem
    obtain ⟨a, ha, hname⟩ := List.mem_flatMap.1 hmem
    exact (Family.isIdentifier_names (hstems a ha)).2 (hall a ha) name hname

end

section

variable {schema : Introspection.Schema} {g : TypeGraph} {t : TypeDefinition}

/-- **Distinct methods.** In the block of an object or an interface of a built graph, the names of
all methods are distinct just if no two fields with methods clash, and they are identifiers just if
no such field is called `_`. -/
theorem methodNames_nodup_iff (hbuild : TypeGraph.build schema = .ok g)
    (hwords : schema.Worded) (r : Registry)
    (ht : t ∈ g.definitions) (hkind : t.kind = .object ∨ t.kind = .interface) :
    ((methodNames (methodCode ⟨g, r⟩ t)).Nodup ↔ (accessible ⟨g, r⟩ t).Pairwise fun f f' =>
      ¬(family ⟨g, r⟩ t f).Clashes (family ⟨g, r⟩ t f') ∧ ¬(family ⟨g, r⟩ t f').Clashes (family ⟨g, r⟩ t f)) ∧
    ((∀ name ∈ methodNames (methodCode ⟨g, r⟩ t), IsIdentifier name) ↔
      ∀ f ∈ accessible ⟨g, r⟩ t, f.wireName ≠ "_") := by
  have hfield : ∀ f ∈ accessible ⟨g, r⟩ t, f.name = Casing.snake f.wireName ∧ IsWord (methodStem f) := by
    intro f hf
    obtain ⟨hname, hwire⟩ := TypeGraph.worded_of_build hbuild hwords ht (List.mem_of_mem_filter hf)
    exact ⟨hname, isWord_methodStem (hname ▸ Casing.isWord_snake hwire)⟩
  have hstems : ∀ a ∈ (accessible ⟨g, r⟩ t).map (family ⟨g, r⟩ t), IsWord a.stem ∧
      a.stem ∉ reservedMethods := by
    intro a ha
    obtain ⟨f, hf, rfl⟩ := List.mem_map.1 ha
    exact ⟨(hfield f hf).2, methodStem_not_reserved f⟩
  rw [methodNames_methodCode hkind, ← List.flatMap_map (family ⟨g, r⟩ t) Family.names]
  constructor
  · rw [blockNames_nodup_iff hstems, List.pairwise_map]
  · rw [isIdentifier_blockNames fun a ha => (hstems a ha).1, List.forall_mem_map]
    refine forall₂_congr fun f hf => not_congr ?_
    exact methodStem_eq_underscore_iff.trans ((hfield f hf).1 ▸ Casing.snake_eq_underscore_iff)

end

section Sample

open Introspection (Declaration Reference)

/-- A schema with one type, whose fields are integers. -/
def integersSchema (names : List String) : Introspection.Schema :=
  ⟨none, none, none,
    [{ Declaration.bare .object "Query" with
        fields :=
          some (names.map fun name => ⟨name, none, [], .mk .scalar (some "Int") none, false, none⟩) }]⟩

/-- The type, by the names of its fields in generated code and in the schema. -/
def integersType (names : List (String × String)) : TypeDefinition :=
  let field (name wireName : String) : FieldDefinition :=
    ⟨name, wireName, .named true "Int", false, none, false⟩
  ⟨"Query", .object, none, ⟨names.map fun n => (n.2, field n.1 n.2)⟩, [], [], []⟩

def integersSource (names : List (String × String)) : Source :=
  let builtin (name : String) : String × TypeDefinition := (name, ⟨name, .scalar, none, .empty, [], [], []⟩)
  ⟨⟨⟨("Query", integersType names) :: builtinScalars.map builtin⟩, "Query", none, none⟩, .standard⟩

theorem worded_integersSchema {names : List String} (hnames : ∀ name ∈ names, IsWord name) :
    (integersSchema names).Worded := by
  constructor
  · rintro t ht name hname
    obtain rfl := List.mem_singleton.1 ht
    cases hname
    decide
  · rintro t ht f hf
    obtain rfl := List.mem_singleton.1 ht
    obtain ⟨name, hname, rfl⟩ := List.mem_map.1 hf
    exact hnames name hname

/-- Fields whose methods have distinct names, all of them identifiers. -/
theorem methodNames_nodup_integers :
    TypeGraph.build (integersSchema ["userId", "type"]) =
        .ok (integersSource [("user_id", "userId"), ("type", "type")]).graph ∧
      (integersSchema ["userId", "type"]).Worded ∧
      (methodNames (methodCode (integersSource [("user_id", "userId"), ("type", "type")])
        (integersType [("user_id", "userId"), ("type", "type")]))).Nodup ∧
      ∀ name ∈ methodNames (methodCode (integersSource [("user_id", "userId"), ("type", "type")])
        (integersType [("user_id", "userId"), ("type", "type")])), IsIdentifier name := by
  have hbuild : TypeGraph.build (integersSchema ["userId", "type"]) =
      .ok (integersSource [("user_id", "userId"), ("type", "type")]).graph := rfl
  have hwords : (integersSchema ["userId", "type"]).Worded := worded_integersSchema (by decide)
  obtain ⟨hnodup, hidentifiers⟩ := methodNames_nodup_iff hbuild hwords .standard List.mem_cons_self (.inl rfl)
  exact ⟨hbuild, hwords, hnodup.2 (by decide), hidentifiers.2 (by decide)⟩

/-- Names that differ in the schema may be one in generated code, and the one that has nothing but
an underscore stays as it is. -/
theorem not_methodNames_nodup :
    (TypeGraph.build (integersSchema ["fooBar", "foo_bar"]) =
        .ok (integersSource [("foo_bar", "fooBar"), ("foo_bar", "foo_bar")]).graph ∧
      (integersSchema ["fooBar", "foo_bar"]).Worded ∧
      ¬(methodNames (methodCode (integersSource [("foo_bar", "fooBar"), ("foo_bar", "foo_bar")])
        (integersType [("foo_bar", "fooBar"), ("foo_bar", "foo_bar")]))).Nodup) ∧
    TypeGraph.build (integersSchema ["_"]) = .ok (integersSource [("_", "_")]).graph ∧
      (integersSchema ["_"]).Worded ∧
      ¬∀ name ∈ methodNames (methodCode (integersSource [("_", "_")]) (integersType [("_", "_")])),
        IsIdentifier name := by
  refine ⟨⟨rfl, worded_integersSchema (by decide), by decide⟩, rfl, worded_integersSchema (by decide),
    fun hall => not_isIdentifier_underscore (hall "_" (by decide))⟩

end Sample

end Bindings

end GraphClient
