import GraphClient.Proofs.Document.Cutting
import GraphClient.Proofs.Schema.Order
import GraphClient.Proofs.Text.Words

/-! References and the types they mean. A reference is a chain of wrappers around a name, and the type
that it is resolved to mirrors the chain: it has a list for every list, and a level of it admits null
unless a mark stands directly around that level (`Mirrors`). So marks behind each other count once,
and how many lists stand outside of a mark decides which level it belongs to. Written out and read
again, the type is the same (`ReadsBack`). -/

namespace GraphClient

namespace Introspection

/-- That a reference of this kind stands around another one. -/
def Kind.IsWrapper (kind : Kind) : Prop := kind = .nonNull ∨ kind = .list

namespace Reference

/-- The wrappers from the outside in. -/
def wrappers : Reference → List Kind
  | mk .nonNull _ (some inner) => .nonNull :: inner.wrappers
  | mk .list _ (some inner) => .list :: inner.wrappers
  | mk .nonNull _ none => [.nonNull]
  | mk .list _ none => [.list]
  | _ => []

/-- The name inside all wrappers. A missing one counts as empty. -/
def innermost : Reference → String
  | mk .nonNull _ (some inner) => inner.innermost
  | mk .list _ (some inner) => inner.innermost
  | mk _ name _ => name.getD ""

/-- That some wrapper stands around nothing. -/
inductive Unfilled : Reference → Prop
  | here {kind name} (hkind : kind.IsWrapper) : Unfilled (mk kind name none)
  | inside {kind name inner} (hkind : kind.IsWrapper) (hinner : Unfilled inner) :
      Unfilled (mk kind name (some inner))

variable {kind : Kind} {name : Option String} {ofType : Option Reference} {inner : Reference}

/-- A reference is a mark or a list around another one, a wrapper around nothing, or a name. -/
theorem chain_induction {P : Reference → Prop}
    (nonNull : ∀ name inner, P inner → P (mk .nonNull name (some inner)))
    (list : ∀ name inner, P inner → P (mk .list name (some inner)))
    (unfilled : ∀ kind name, kind.IsWrapper → P (mk kind name none))
    (named : ∀ kind name ofType, ¬kind.IsWrapper → P (mk kind name ofType)) (r : Reference) : P r := by
  fun_induction wrappers r with
  | case1 name inner ih => exact nonNull name inner ih
  | case2 name inner ih => exact list name inner ih
  | case3 name => exact unfilled .nonNull name (.inl rfl)
  | case4 name => exact unfilled .list name (.inr rfl)
  | case5 r hnonNull hlist hlast hlast' =>
      obtain ⟨kind, name, ofType⟩ := r
      refine named kind name ofType ?_
      rintro (rfl | rfl) <;> cases ofType
      · exact hlast name rfl
      · exact hnonNull name _ rfl
      · exact hlast' name rfl
      · exact hlist name _ rfl

theorem wrappers_named (hkind : ¬kind.IsWrapper) : (mk kind name ofType).wrappers = [] := by
  cases kind with
  | nonNull => exact absurd (.inl rfl) hkind
  | list => exact absurd (.inr rfl) hkind
  | _ => rfl

theorem innermost_named (hkind : ¬kind.IsWrapper) : (mk kind name ofType).innermost = name.getD "" := by
  cases kind with
  | nonNull => exact absurd (.inl rfl) hkind
  | list => exact absurd (.inr rfl) hkind
  | _ => rfl

theorem unfilled_inside (hkind : kind.IsWrapper) : Unfilled (mk kind name (some inner)) ↔ Unfilled inner := by
  constructor
  · rintro (- | ⟨-, hinner⟩)
    exact hinner
  · exact .inside hkind

theorem not_unfilled_named (hkind : ¬kind.IsWrapper) : ¬Unfilled (mk kind name ofType) := by
  rintro (h | ⟨h, -⟩)
  · exact hkind h
  · exact hkind h

end Reference

/-- That a mark stands directly around a level, the outermost one being the level 0:
it has as many lists outside. -/
def Marked (wrappers : List Kind) (level : Nat) : Prop :=
  ∃ outer inner, wrappers = outer ++ .nonNull :: inner ∧ outer.count .list = level

section

variable {wrappers : List Kind} {level : Nat}

theorem not_marked_nil : ¬Marked [] level := by
  rintro ⟨outer, inner, hwrappers, -⟩
  exact absurd hwrappers.symm (List.append_ne_nil_of_right_ne_nil _ (List.cons_ne_nil _ _))

/-- A mark belongs to the outermost level, as all marks in front of the first list do. -/
theorem marked_nonNull : Marked (.nonNull :: wrappers) level ↔ level = 0 ∨ Marked wrappers level := by
  constructor
  · rintro ⟨_ | ⟨kind, outer⟩, inner, hwrappers, rfl⟩
    · exact .inl rfl
    · obtain ⟨rfl, hrest⟩ := List.cons.inj hwrappers
      exact .inr ⟨outer, inner, hrest, rfl⟩
  · rintro (rfl | ⟨outer, inner, rfl, rfl⟩)
    · exact ⟨[], wrappers, rfl, rfl⟩
    · exact ⟨.nonNull :: outer, inner, rfl, rfl⟩

theorem not_marked_list_zero : ¬Marked (.list :: wrappers) 0 := by
  rintro ⟨_ | ⟨kind, outer⟩, inner, hwrappers, hcount⟩
  · cases hwrappers
  · obtain ⟨rfl, -⟩ := List.cons.inj hwrappers
    rw [List.count_cons_self] at hcount
    exact Nat.succ_ne_zero _ hcount

/-- A list puts all marks inside of it a level further in. -/
theorem marked_list_succ : Marked (.list :: wrappers) (level + 1) ↔ Marked wrappers level := by
  constructor
  · rintro ⟨_ | ⟨kind, outer⟩, inner, hwrappers, hcount⟩
    · cases hwrappers
    · obtain ⟨rfl, hrest⟩ := List.cons.inj hwrappers
      rw [List.count_cons_self] at hcount
      exact ⟨outer, inner, hrest, Nat.succ.inj hcount⟩
  · rintro ⟨outer, inner, rfl, rfl⟩
    exact ⟨.list :: outer, inner, rfl, List.count_cons_self⟩

end

end Introspection

open Introspection (Declaration Kind Marked Reference)

namespace TypeRef

theorem depth_nonNull (type : TypeRef) : type.nonNull.depth = type.depth := by
  cases type <;> rfl

theorem nullability_nonNull (type : TypeRef) : type.nonNull.nullability = false :: type.nullability.tail := by
  cases type <;> rfl

/-- That a type mirrors the wrappers of a reference. -/
structure Mirrors (type : TypeRef) (r : Reference) : Prop where
  depth : type.depth = r.wrappers.count .list
  name : type.typeName = r.innermost
  levels : type.nullability.length = type.depth + 1
  nullability : ∀ level, type.nullability[level]? = some false ↔ Marked r.wrappers level

namespace Mirrors

variable {type : TypeRef} {inner : Reference} {name : Option String}

theorem of_nonNull (h : type.Mirrors inner) : type.nonNull.Mirrors (.mk .nonNull name (some inner)) where
  depth := by
    rw [depth_nonNull, Reference.wrappers, h.depth]
    rfl
  name := by rw [typeName_nonNull, Reference.innermost, h.name]
  levels := length_nullability _
  nullability level := by
    rw [nullability_nonNull, Reference.wrappers, Introspection.marked_nonNull]
    cases level with
    | zero => simp
    | succ level => simp [← h.nullability]

theorem of_list (h : type.Mirrors inner) :
    (TypeRef.list true type).Mirrors (.mk .list name (some inner)) where
  depth := by
    rw [Reference.wrappers, List.count_cons_self, ← h.depth]
    rfl
  name := by
    rw [Reference.innermost, ← h.name]
    rfl
  levels := length_nullability _
  nullability level := by
    rw [TypeRef.nullability, Reference.wrappers]
    cases level with
    | zero => simp [Introspection.not_marked_list_zero]
    | succ level => rw [Introspection.marked_list_succ, ← h.nullability, List.getElem?_cons_succ]

theorem of_name {r : Reference} (hwrappers : r.wrappers = []) :
    (TypeRef.named true r.innermost).Mirrors r where
  depth := by
    rw [hwrappers]
    rfl
  name := rfl
  levels := rfl
  nullability level := by
    rw [TypeRef.nullability, hwrappers]
    cases level with
    | zero => simp [Introspection.not_marked_nil]
    | succ level => simp [Introspection.not_marked_nil]

end Mirrors

end TypeRef

namespace Schema

variable {d : Declared} {location : String} {r : Reference}

theorem resolveReference_unfilled {kind : Kind} (hkind : kind.IsWrapper) (name : Option String) :
    ∃ e, resolveReference d location (.mk kind name none) = .error e := by
  rcases hkind with rfl | rfl
  · exact ⟨_, rfl⟩
  · exact ⟨_, rfl⟩

theorem resolveReference_named {kind : Kind} (hkind : ¬kind.IsWrapper) (name : Option String)
    (ofType : Option Reference) : resolveReference d location (.mk kind name ofType) =
      if d.inputs.contains (name.getD "") then
        .error (.unsupported location ("input object `" ++ name.getD "" ++ "` used as an output type"))
      else if d.contains (name.getD "") then .ok (.named true (name.getD ""))
      else .error (.unresolved location (name.getD "")) := by
  cases kind with
  | nonNull => exact absurd (.inl rfl) hkind
  | list => exact absurd (.inr rfl) hkind
  | _ => rfl

/-- What a reference is resolved to mirrors it, one step for every wrapper. -/
theorem mirrors_of_resolveReference {type : TypeRef} (hresolve : resolveReference d location r = .ok type) :
    type.Mirrors r := by
  induction r using Reference.chain_induction generalizing type with
  | nonNull name inner ih =>
      obtain ⟨item, hitem, rfl⟩ := Except.map_eq_ok.1 hresolve
      exact (ih hitem).of_nonNull
  | list name inner ih =>
      obtain ⟨item, hitem, rfl⟩ := Except.map_eq_ok.1 hresolve
      exact (ih hitem).of_list
  | unfilled kind name hkind =>
      obtain ⟨e, he⟩ := @resolveReference_unfilled d location kind hkind name
      rw [he] at hresolve
      cases hresolve
  | named kind name ofType hkind =>
      rw [resolveReference_named hkind] at hresolve
      split_ifs at hresolve
      cases hresolve
      rw [← @Reference.innermost_named kind name ofType hkind]
      exact .of_name (Reference.wrappers_named hkind)

/-- A reference is refused just if a wrapper stands around nothing, or the name is one of an
input object or is not declared. -/
theorem resolveReference_eq_error : (∃ e, resolveReference d location r = .error e) ↔
    r.Unfilled ∨ r.innermost ∈ d.inputs ∨ d.contains r.innermost = false := by
  induction r using Reference.chain_induction with
  | nonNull name inner ih =>
      rw [Reference.unfilled_inside (.inl rfl), Reference.innermost, ← ih, resolveReference]
      simp only [Except.map_eq_error]
  | list name inner ih =>
      rw [Reference.unfilled_inside (.inr rfl), Reference.innermost, ← ih, resolveReference]
      simp only [Except.map_eq_error]
  | unfilled kind name hkind => exact iff_of_true (resolveReference_unfilled hkind name) (.inl (.here hkind))
  | named kind name ofType hkind =>
      rw [resolveReference_named hkind, Reference.innermost_named hkind,
        or_iff_right (Reference.not_unfilled_named hkind), ← List.contains_iff_mem]
      split_ifs with hinput hdeclared <;> simp_all

/-- That the names that are known of a schema are those that it declares: an input object by a
declaration of one, and a type that fields may have by a declaration of one or because every schema
has it. Names of introspection itself are not known. -/
structure Declared.Lists (d : Declared) (schema : Introspection.Schema) : Prop where
  input : ∀ name, name ∈ d.inputs ↔
    ∃ t ∈ schema.types, t.name = some name ∧ ¬IsMeta name ∧ t.kind = .inputObject
  output : ∀ name, d.contains name = true ↔ name ∈ builtinScalars ∨
    ∃ t ∈ schema.types, t.name = some name ∧ ¬IsMeta name ∧
      t.kind ∈ [.object, .interface, .union, .enum, .scalar]

theorem inputs_foldl_addBuiltin (names : List String) (d : Declared) :
    (names.foldl Declared.addBuiltin d).inputs = d.inputs := by
  induction names generalizing d with
  | nil => rfl
  | cons name rest ih =>
      rw [List.foldl_cons, ih, Declared.addBuiltin]
      split <;> rfl

theorem isSome_outputKind? {name : String} {kind : Kind} :
    (Declared.outputKind? name kind).isSome ↔ kind ∈ [.object, .interface, .union, .enum, .scalar] := by
  cases kind <;> simp [Declared.outputKind?]

theorem lists_of_declare {schema : Introspection.Schema} (hdeclare : declare schema = .ok d) :
    d.Lists schema := by
  obtain ⟨-, rfl⟩ := declare_eq_ok_iff.1 hdeclare
  constructor
  · intro name
    simp only [inputs_foldl_addBuiltin, mem_inputs_collect, visible?_eq_some, and_assoc]
  · intro name
    rw [contains_foldl_addBuiltin, or_comm, Declared.contains, Table.contains_iff, mem_names_collect]
    simp only [visible?_eq_some, isSome_outputKind?, and_assoc]

end Schema

theorem Lexer.isDigit_of_isNameStart {c : Char} (hc : isNameStart c = true) : c.isDigit = false := by
  rw [isNameStart, Bool.or_eq_true, beq_iff_eq] at hc
  rcases hc with hletter | rfl
  · grind [Char.isAlpha, Char.isUpper, Char.isLower, Char.isDigit]
  · rfl

theorem Lexer.ofChar?_of_isNameStart {c : Char} (hc : isNameStart c = true) : Mark.ofChar? c = none := by
  unfold Mark.ofChar?
  split
  case h_14 => rfl
  all_goals exact absurd hc (by decide)

/-- A word is scanned as a name. -/
theorem IsWord.scanned {name : String} (hname : IsWord name) :
    ∃ c taken, name.toList = c :: taken ∧ Lexer.Word c taken := by
  obtain ⟨c, taken, hchars, hstart⟩ := hname.exists_cons
  have hne : ∀ d, Lexer.isNameStart d = false → c ≠ d := by
    rintro d hd rfl
    rw [hstart] at hd
    cases hd
  refine ⟨c, taken, hchars, ⟨?_, ⟨Lexer.ofChar?_of_isNameStart hstart, ?_, ?_⟩, ?_, hstart, ?_⟩⟩
  · have hnone : Lexer.ignoredMarks.any Lexer.isNameStart = false := by decide
    by_contra hignored
    have hmem := Lexer.mem_ignoredMarks (Bool.of_not_eq_false hignored)
    exact List.any_eq_false.1 hnone c hmem hstart
  · simpa using hne '.' (by decide)
  · simpa using hne '"' (by decide)
  · simpa [Lexer.isDigit_of_isNameStart hstart] using hne '-' (by decide)
  · exact fun d hd => List.all_eq_true.1 hname.2 d (hchars ▸ hd)

/-- The expression with a bang behind it, unless null is admitted. -/
def TypeExpr.marked (nullable : Bool) (type : TypeExpr) : TypeExpr :=
  if nullable then type else .nonNull type .none

/-- The type that an expression stands for. -/
def TypeExpr.ref : TypeExpr → TypeRef
  | named name => .named true name.text
  | list item _ => .list true item.ref
  | nonNull inner _ => inner.ref.nonNull

theorem TypeExpr.ref_bare (type : TypeExpr) : type.bare.ref = type.ref := by
  induction type with
  | named name => rfl
  | list item span ih => rw [bare, ref, ref, ih]
  | nonNull inner span ih => rw [bare, ref, ref, ih]

namespace TypeRef

/-- The expression that stands for a type. -/
def expr : TypeRef → TypeExpr
  | named nullable name => .marked nullable (.named ⟨name, .none⟩)
  | list nullable item => .marked nullable (.list item.expr .none)

theorem ref_expr (type : TypeRef) : type.expr.ref = type := by
  induction type with
  | named nullable name => cases nullable <;> rfl
  | list nullable item ih =>
      cases nullable <;> simp [expr, TypeExpr.marked, TypeExpr.ref, nonNull, ih]

theorem text_expr (type : TypeRef) : type.expr.text = type.text := by
  induction type with
  | named nullable name => cases nullable <;> simp [expr, TypeExpr.marked, TypeExpr.text, text]
  | list nullable item ih => cases nullable <;> simp [expr, TypeExpr.marked, TypeExpr.text, text, ih]

theorem spelt_expr {type : TypeRef} (hname : IsWord type.typeName) : type.expr.Spelt := by
  induction type with
  | named nullable name =>
      cases nullable with
      | false => exact ⟨hname.scanned, by simp⟩
      | true => exact hname.scanned
  | list nullable item ih =>
      cases nullable with
      | false => exact ⟨ih hname, by simp⟩
      | true => exact ih hname

/-- That the text of a type is read as the type: all of it and without a mistake. -/
structure ReadsBack (type : TypeRef) : Prop where
  same : (Parser.typeExpr (.ofText type.text)).value.ref = type
  whole : (Parser.typeExpr (.ofText type.text)).next.tokens = []
  clean : (Parser.typeExpr (.ofText type.text)).next.diagnostics = []

theorem readsBack {type : TypeRef} (hname : IsWord type.typeName) : type.ReadsBack := by
  obtain ⟨hvalue, hwhole, hclean⟩ := TypeExpr.readsWhole_text (spelt_expr hname)
  rw [text_expr] at hvalue hwhole hclean
  refine ⟨?_, hwhole, hclean⟩
  have href := congrArg TypeExpr.ref hvalue
  rwa [TypeExpr.ref_bare, TypeExpr.ref_bare, ref_expr] at href

end TypeRef

namespace Schema

/-- **Types mirror references.** Whatever is known of a schema, a reference that is resolved gives a type
that mirrors its wrappers, and over a word the text of the type is read as the type; the reference is refused
just if a wrapper stands around nothing, or the name is one of an input object or is not declared. -/
theorem resolveReference_mirrors (d : Declared) (location : String) (r : Reference) :
    (∀ type, resolveReference d location r = .ok type →
      type.Mirrors r ∧ (IsWord type.typeName → type.ReadsBack)) ∧
    ((∃ e, resolveReference d location r = .error e) ↔
      r.Unfilled ∨ r.innermost ∈ d.inputs ∨ d.contains r.innermost = false) ∧
    ∀ schema, declare schema = .ok d → d.Lists schema :=
  ⟨fun _ hresolve => ⟨mirrors_of_resolveReference hresolve, TypeRef.readsBack⟩, resolveReference_eq_error,
    fun _ => lists_of_declare⟩

/-- Two marks around a list of lists, and one around the name. -/
def gridReference : Reference :=
  let item : Reference := .mk .nonNull none (some (.mk .object (some "Item") none))
  .mk .nonNull none (some (.mk .nonNull none (some (.mk .list none (some (.mk .list none (some item)))))))

/-- The list in the middle may be null. -/
theorem resolveReference_mirrors_gridReference : ∃ d type, declare nodeSchema = .ok d ∧ d.Lists nodeSchema ∧
    resolveReference d "Query.grid" gridReference = .ok type ∧ type.Mirrors gridReference ∧
    type.nullability = [false, true, false] ∧ type.text = "[[Item!]]!" ∧ type.ReadsBack := by
  obtain ⟨d, hdeclare, hresolve⟩ : ∃ d, declare nodeSchema = .ok d ∧
      resolveReference d "Query.grid" gridReference = .ok (.list false (.list true (.named false "Item"))) :=
    ⟨_, rfl, rfl⟩
  obtain ⟨haccepted, -, hlists⟩ := resolveReference_mirrors d "Query.grid" gridReference
  obtain ⟨hmirrors, hreads⟩ := haccepted _ hresolve
  exact ⟨d, _, hdeclare, hlists nodeSchema hdeclare, hresolve, hmirrors, rfl, by decide, hreads (by decide)⟩

end Schema

end GraphClient
