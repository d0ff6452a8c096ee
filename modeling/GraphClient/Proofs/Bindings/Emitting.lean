import GraphClient.Bindings.Generate
import GraphClient.Proofs.Bindings.Expressions

/-! The methods that are written for a field are its accessors: heads and bodies are the texts of the
types and of the expressions that the kind of the field calls for. -/

namespace GraphClient.Bindings

open Live (Leaf FieldPlan)

/-- The methods of a field by its accessors: the getter, the method for the live list if there is one, and the
setter. -/
def Accessors.methods (accessors : Accessors) (field : FieldDefinition) (live : List Code) : List Code :=
  [.method (getterName field) ("(&self) -> " ++ accessors.type.text)
      [.line (accessors.getter.text field.wireName "self.inner")],
    .line ""] ++
  live ++
  [.method (setterName field) ("(&self, value: " ++ accessors.type.text ++ ")")
    [.line (accessors.setter.text field.wireName)]]

/-- The method for the live list of a field. -/
def liveMethod (field : FieldDefinition) : List Code :=
  let live : Expr .object (.option .list) := .list .var
  [.doc "The live list, for structural change observers.",
    .method (listName field) ("(&self) -> " ++ (CodeType.option .list).text)
      [.line (live.text field.wireName "self.inner")],
    .line ""]

/-- The methods of a stored field. Only a list of objects can be observed by itself. -/
def storedMethods (field : FieldDefinition) (plan : FieldPlan) : List Code :=
  (accessorsOf plan).methods field (match plan.kind with
    | .objectList .. => liveMethod field
    | _ => []) ++
  [.line "",
    .method (hookName field) "(&self, callback: impl ::core::ops::Fn(&Self) + 'static) -> rt::Subscription"
      [.line ("self.inner.observe(\"" ++ field.wireName ++
        "\", move |object, _| callback(&Self::from_object(object.clone())))")]]

/-- All that is generated for a field, by how it is stored. -/
def storedCode (field : FieldDefinition) : Option FieldPlan → List Code
  | some plan => [.line ""] ++ fieldHead field ++ storedMethods field plan
  | none =>
      [.line "", .line ("// `" ++ field.wireName ++ ": " ++ field.type.text ++
        "` is not supported (nested list).")]

variable {f : FieldDefinition} {leaf l : Leaf} {target field : String} {a b : CodeType}

theorem text_scalarAs : (Expr.scalarAs leaf (.var (a := .object))).text field "self.inner" =
    "self.inner.scalar_as::<" ++ leaf.native ++ ">(" ++ quoted field ++ ")" := by
  simp only [Expr.text]
  apply String.toList_inj.1
  simp [quoted]

theorem text_scalarOrFallback : (Expr.scalarOrFallback leaf (.var (a := .object))).text field "self.inner" =
    "self.inner.scalar_or_fallback::<" ++ leaf.native ++ ">(" ++ quoted field ++ ")" := by
  simp only [Expr.text]
  apply String.toList_inj.1
  simp [quoted]

theorem text_scalarListAs : (Expr.scalarListAs leaf (.var (a := .object))).text field "self.inner" =
    "self.inner.scalar_list_as::<" ++ leaf.native ++ ">(" ++ quoted field ++ ")" := by
  simp only [Expr.text]
  apply String.toList_inj.1
  simp [quoted]

theorem text_filled (e : Expr a (.option (.vec (.option (.leaf leaf))))) (x : String) :
    (Expr.map e (Accessors.filled leaf)).text field x = e.text field x ++
      (".map(|items| items.into_iter().map(|item| item.unwrap_or_else(<" ++ leaf.native ++
        " as rt::NativeScalar>::fallback)).collect())") := by
  simp only [Expr.text, Accessors.filled, Func.text]
  apply String.toList_inj.1
  simp

theorem text_setScalar : (Setter.scalar leaf .var).text field =
    "self.inner.set_scalar(" ++ quoted field ++ ", value);" := by
  simp only [Setter.text, Setter.call, Setter.arguments, Expr.text]
  apply String.toList_inj.1
  simp [quoted]

theorem text_setOptionalScalar : (Setter.optionalScalar leaf .var).text field =
    "self.inner.set_optional_scalar(" ++ quoted field ++ ", value);" := by
  simp only [Setter.text, Setter.call, Setter.arguments, Expr.text]
  apply String.toList_inj.1
  simp [quoted]

theorem text_setScalarList (e : Expr a (.option (.vec (.option (.leaf leaf))))) :
    (Setter.scalarList leaf e).text field =
    "self.inner.set_scalar_list(" ++ quoted field ++ ", " ++ e.text field "value" ++ ");" := by
  simp only [Setter.text, Setter.call, Setter.arguments]
  apply String.toList_inj.1
  simp [quoted]

theorem text_mapEachSome :
    (Expr.map (.var (a := .option (.vec (.leaf leaf)))) (.closure "items" (.each .var .some))).text
      field "value" =
      "value.map(|items| items.into_iter().map(Some).collect())" := by
  simp only [Expr.text, Func.text]
  rfl

theorem text_someEachSome : (Expr.some (.each (.var (a := .vec (.leaf leaf))) .some)).text field "value" =
    "Some(value.into_iter().map(Some).collect())" := by
  simp only [Expr.text, Func.text]
  rfl

theorem text_setObject : (Setter.object (.map .var (.unwrap target))).text field =
    "self.inner.set_object(" ++ quoted field ++ ", value.map(" ++ target ++ "::into_object));" := by
  simp only [Setter.text, Setter.call, Setter.arguments, Expr.text, Func.text]
  apply String.toList_inj.1
  simp [quoted]

theorem text_setObjectList (keyed : Bool) :
    (Setter.objectList target keyed (.each .var (.unwrap target))).text field =
      "self.inner.set_object_list(" ++ quoted field ++ ", " ++ quoted target ++ ", " ++
        (if keyed then "true" else "false") ++ ", value.into_iter().map(" ++ target ++
          "::into_object).collect());" := by
  have hkeyed : toString keyed = if keyed then "true" else "false" := by cases keyed <;> rfl
  simp only [Setter.text, Setter.call, Setter.arguments, Expr.text, Func.text, hkeyed]
  apply String.toList_inj.1
  simp [quoted]

theorem text_list : (Expr.list (.var (a := .object))).text field "self.inner" =
    "self.inner.list(" ++ quoted field ++ ")" := by
  simp only [Expr.text]
  apply String.toList_inj.1
  simp [quoted]

theorem text_wrapped : (Expr.map (.object (.var (a := .object))) (.wrap target)).text field "self.inner" =
    "self.inner.object(" ++ quoted field ++ ")." ++ "map" ++ "(" ++ target ++ "::from_object)" := by
  simp only [Expr.text, Func.text]
  apply String.toList_inj.1
  simp [quoted]

theorem text_picked : (Expr.andThen (.object (.var (a := .object))) (.pick target)).text field "self.inner" =
    "self.inner.object(" ++ quoted field ++ ")." ++ "and_then" ++ "(" ++ target ++ "::from_object)" := by
  simp only [Expr.text, Func.text]
  apply String.toList_inj.1
  simp [quoted]

theorem text_eachWrapped : (Expr.orEmpty (.map (.list (.var (a := .object))) (.closure "list"
      (.each (.elements .var) (.wrap target))))).text field "self.inner" =
    "self.inner.list(" ++ quoted field ++ ").map(|list| list.to_vec().into_iter()." ++
      "map" ++ "(" ++ target ++ "::from_object).collect()).unwrap_or_default()" := by
  simp only [Expr.text, Func.text]
  apply String.toList_inj.1
  simp [quoted]

theorem text_eachPicked : (Expr.orEmpty (.map (.list (.var (a := .object))) (.closure "list"
      (.eachFound (.elements .var) (.pick target))))).text field "self.inner" =
    "self.inner.list(" ++ quoted field ++ ").map(|list| list.to_vec().into_iter()." ++
      "filter_map" ++ "(" ++ target ++ "::from_object).collect()).unwrap_or_default()" := by
  simp only [Expr.text, Func.text]
  apply String.toList_inj.1
  simp [quoted]

example : (Accessors.objectList "Node" true false).getter.text "nodes" "self.inner" =
    "self.inner.list(\"nodes\").map(|list| list.to_vec().into_iter()" ++
      ".filter_map(Node::from_object).collect()).unwrap_or_default()" := by
  decide

theorem Accessors.methods_mk {getter : Expr .object a} {setter : Setter a} {head read write : String}
    (hhead : a.text = head) (hread : getter.text f.wireName "self.inner" = read)
    (hwrite : setter.text f.wireName = write) (live : List Code) :
    (Accessors.mk a getter setter).methods f live =
      [.method (getterName f) ("(&self) -> " ++ head) [.line read], .line ""] ++ live ++
        [.method (setterName f) ("(&self, value: " ++ head ++ ")") [.line write]] := by
  rw [methods, hhead, hread, hwrite]

theorem leafMethods_eq (nullable : Bool) :
    leafMethods f leaf.native nullable = (Accessors.leaf leaf nullable).methods f [] := by
  cases nullable with
  | true => exact (Accessors.methods_mk rfl text_scalarAs text_setOptionalScalar []).symm
  | false => exact (Accessors.methods_mk rfl text_scalarOrFallback text_setScalar []).symm

theorem leafListMethods_eq (nullable itemNullable : Bool) :
    leafListMethods f leaf.native nullable itemNullable =
      (Accessors.leafList leaf nullable itemNullable).methods f [] := by
  have hread := @text_scalarListAs leaf f.wireName
  have hfill := (text_filled (.scalarListAs leaf (.var (a := .object))) "self.inner").trans
    (congrArg (· ++ _) hread)
  have horEmpty {b : CodeType} (e : Expr .object (.option (.vec b))) :
      e.orEmpty.text f.wireName "self.inner" = e.text f.wireName "self.inner" ++ ".unwrap_or_default()" := by
    simp only [Expr.text]
  cases nullable <;> cases itemNullable
  case true.true =>
    refine Eq.trans ?_ (Accessors.methods_mk rfl hread (text_setScalarList .var) []).symm
    simp only [leafListMethods, if_true, String.append_empty, Expr.text]
    rfl
  case true.false =>
    refine Eq.trans ?_ (Accessors.methods_mk rfl hfill
      (text_setScalarList (.map .var (.closure "items" (.each .var .some)))) []).symm
    simp only [leafListMethods, if_true, Bool.false_eq_true, if_false, String.append_empty, text_mapEachSome]
    rfl
  case false.true =>
    refine Eq.trans ?_ (Accessors.methods_mk rfl ((horEmpty _).trans (congrArg (· ++ _) hread))
      (text_setScalarList (.some .var)) []).symm
    simp only [leafListMethods, if_true, Bool.false_eq_true, if_false, String.append_empty, Expr.text]
    rfl
  case false.false =>
    refine Eq.trans ?_ (Accessors.methods_mk rfl ((horEmpty _).trans (congrArg (· ++ _) hfill))
      (text_setScalarList (.some (.each .var .some))) []).symm
    simp only [leafListMethods, Bool.false_eq_true, if_false, text_someEachSome]
    rfl

theorem compositeMethods_object (target : String) :
    compositeMethods f target false = (Accessors.object target).methods f [] :=
  (Accessors.methods_mk rfl text_wrapped text_setObject []).symm

theorem compositeMethods_abstract (target : String) :
    compositeMethods f target true = (Accessors.abstract target).methods f [] :=
  (Accessors.methods_mk rfl text_picked text_setObject []).symm

theorem compositeListMethods_eq (element : String) (isAbstract keyed : Bool) :
    compositeListMethods f element isAbstract keyed =
      (Accessors.objectList element isAbstract keyed).methods f (liveMethod f) := by
  have hlive : liveMethod f = [.doc "The live list, for structural change observers.",
      .method (listName f) ("(&self) -> " ++ optionOf "rt::ReactiveList")
        [.line ("self.inner.list(" ++ quoted f.wireName ++ ")")], .line ""] := by
    rw [liveMethod, text_list]
    rfl
  rw [hlive]
  cases isAbstract with
  | false =>
      refine Eq.trans ?_ (Accessors.methods_mk rfl text_eachWrapped (text_setObjectList keyed) _).symm
      rfl
  | true =>
      refine Eq.trans ?_ (Accessors.methods_mk rfl text_eachPicked (text_setObjectList keyed) _).symm
      rfl

theorem hookMethod_eq : hookMethod f = [.line "",
    .method (hookName f) "(&self, callback: impl ::core::ops::Fn(&Self) + 'static) -> rt::Subscription"
      [.line ("self.inner.observe(\"" ++ f.wireName ++
        "\", move |object, _| callback(&Self::from_object(object.clone())))")]] := by
  have hbody : "self.inner.observe(" ++ quoted f.wireName ++
      ", move |object, _| callback(&Self::from_object(object.clone())))" =
        "self.inner.observe(\"" ++ f.wireName ++
        "\", move |object, _| callback(&Self::from_object(object.clone())))" := by
    apply String.toList_inj.1
    simp [quoted]
  rw [hookMethod, hbody]
  rfl

end GraphClient.Bindings
