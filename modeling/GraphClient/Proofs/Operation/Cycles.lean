import GraphClient.Proofs.Operation.Extension

/-! Documents whose fragments spread each other. Binding one ends: no more lists are open at a time
than there is room for in as many fragments as it has, each spread once. A cycle is reported only
if there is one, and if none is reported by a document that is bound, there is none that its
operations lead to (`bind_spreads`). -/

namespace GraphClient

/-- How many braces the definitions of a document open inside each other. -/
def Document.depth (document : Document) : Nat := (document.definitions.map (·.set.depth)).foldr max 0

theorem Document.depth_le {document : Document} {definition : Definition}
    (hmem : definition ∈ document.definitions) :
    definition.set.depth ≤ document.depth :=
  List.le_max_of_le' 0 (List.mem_map.2 ⟨definition, hmem, rfl⟩) (Nat.le_refl _)

theorem Document.depth_fragments_le (document : Document) (graph : TypeGraph) (operation : String) :
    Bind.Context.depth ⟨graph, document.fragmentTable, operation⟩ ≤ document.depth := by
  refine List.max_le_of_forall_le _ _ fun depth hdepth => ?_
  obtain ⟨_, hvalue, rfl⟩ := List.mem_map.1 hdepth
  obtain ⟨entry, hentry, rfl⟩ := List.mem_map.1 hvalue
  obtain ⟨fragment, hfragment, rfl⟩ := List.mem_map.1 (Table.mem_of_mem_ofList hentry)
  obtain ⟨d, hd, hsome⟩ := List.mem_filterMap.1 hfragment
  cases d with
  | operation => cases hsome
  | fragment =>
      cases hsome
      exact Document.depth_le hd

namespace Bind

variable {graph : TypeGraph} {source : String} {fragments : Table FragmentDefinition}
  {definition : OperationDefinition} {c : Context} {start F : Frame} {e : BindError}

theorem operation_eq_error_of_starts (hstarts : Starts graph fragments definition c start) :
    operation graph source fragments definition = .error e ↔ start.run c = .error e := by
  refine ⟨fun herror => ?_, operation_of_starts hstarts⟩
  cases hstarts with
  | mk hname hroot =>
      rcases operation_eq_error_iff.1 herror with ⟨hnone, -⟩ | ⟨name, -, hnone, -⟩ | ⟨c, F, hstarts, herror⟩
      · cases hname.symm.trans hnone
      · cases hroot.symm.trans hnone
      · cases hstarts with
        | mk hname' hroot' =>
            cases hname.symm.trans hname'
            cases hroot.symm.trans hroot'
            exact herror

end Bind

/-- How binding a document deals with fragments that spread each other. -/
structure SpreadsChecked (graph : TypeGraph) (source : String) (document : Document) : Prop where
  /-- An operation fails where one of the lists that it comes to has a selection that is at fault. -/
  fails : ∀ {definition c start e}, definition ∈ document.operations →
    Bind.Starts graph document.fragmentTable definition c start →
      (Bind.operation graph source document.fragmentTable definition = .error e ↔
        ∃ F, Relation.ReflTransGen (Bind.Enters c) start F ∧ Bind.Halts c F e)
  /-- Wherever it comes, the fragments being spread have definitions, and none of them is there twice. -/
  stack : ∀ {definition c start F}, definition ∈ document.operations →
    Bind.Starts graph document.fragmentTable definition c start →
    Relation.ReflTransGen (Bind.Enters c) start F →
      F.stack.Nodup ∧ ∀ name ∈ F.stack, ∃ fragment, document.fragmentTable.get? name = some fragment
  /-- So only so many lists are open at a time. -/
  bounded : ∀ {definition c start frames}, definition ∈ document.operations →
    Bind.Starts graph document.fragmentTable definition c start →
    List.IsChain (Bind.Enters c) (start :: frames) →
      (start :: frames).length ≤ (document.fragmentTable.names.length + 1) * document.depth
  /-- A cycle that is reported is one. -/
  cycle : ∀ {name span}, bind graph source = .error ⟨.fragmentCycle name, span⟩ →
    Relation.TransGen (Spreads document.fragmentTable) name name
  /-- Where binding succeeds there is none, and no fragment is missing. -/
  acyclic : ∀ {ops name}, bind graph source = .ok ops → document.Reaches name →
    (∃ fragment, document.fragmentTable.get? name = some fragment) ∧
      ¬Relation.TransGen (Spreads document.fragmentTable) name name
  /-- Fragments that no operation leads to do not matter. -/
  extend : ∀ {names source'}, Extends names source source' →
    (∀ name ∈ names, ¬(parseDocument source').document.Reaches name) →
      (bind graph source').mapError (·.fault) = (bind graph source).mapError (·.fault)

/-- **Cycles of fragments are found, and nothing else is taken for one.** -/
theorem bind_spreads (graph : TypeGraph) {source : String}
    (hclean : (parseDocument source).diagnostics = []) :
    SpreadsChecked graph source (parseDocument source).document where
  fails _ hstarts := (Bind.operation_eq_error_of_starts hstarts).trans Bind.Frame.run_eq_error_iff_halts
  stack := by
    intro definition c start F _ hstarts hreaches
    have huses : c.Uses F.stack := by
      induction hreaches with
      | refl =>
          cases hstarts
          exact ⟨List.nodup_nil, nofun⟩
      | tail _ henters ih => exact henters.uses ih
    cases hstarts
    exact ⟨huses.nodup, huses.defined⟩
  bounded := by
    intro definition c start frames hmem hstarts hchain
    have hlength := Bind.length_le_room hchain
    have hdefinition := Document.depth_le (Document.operation_mem hmem)
    cases hstarts with
    | @mk name root _ _ =>
        have hfragments := (parseDocument source).document.depth_fragments_le graph name.text
        rw [Definition.set, SelectionSet.depth_eq] at hdefinition
        calc frames.length + 1
            ≤ Bind.Context.unspread ⟨graph, (parseDocument source).document.fragmentTable, name.text⟩ [] *
                Bind.Context.depth ⟨graph, (parseDocument source).document.fragmentTable, name.text⟩ +
                (Selection.depthList definition.set.selections + 1) := Nat.succ_le_succ hlength
          _ ≤ (parseDocument source).document.fragmentTable.names.length *
            (parseDocument source).document.depth +
                (parseDocument source).document.depth :=
              Nat.add_le_add (Nat.mul_le_mul (List.length_filter_le _ _) hfragments) hdefinition
          _ = _ := (Nat.add_one_mul _ _).symm
  cycle := by
    intro name span herror
    rw [bind_of_clean hclean] at herror
    obtain ⟨definition, -, herror⟩ := exists_of_mapM_error herror
    rcases Bind.operation_eq_error_iff.1 herror with ⟨-, heq⟩ | ⟨_, -, -, heq⟩ | ⟨c, F, hstarts, hrun⟩
    · cases heq
    · cases heq
    · cases hstarts with
      | mk hname hroot => exact Bind.Frame.cycle_of_run hrun nofun
  acyclic := by
    intro ops name hok hreaches
    obtain ⟨definition, hmem, first, hfirst, hwalk⟩ := hreaches
    obtain ⟨op, -, used, hgives⟩ := exists_right_of_mem_forall₂ (bind_eq_ok_iff.1 hok).2 hmem
    rw [SelectionSet.spreads_eq] at hfirst
    have hfree := hgives.binds.clear first hfirst name hwalk
    exact ⟨hfree.defined, hfree.acyclic⟩
  extend := bind_extended hclean

section Sample

/-- A fragment that spreads itself. -/
def loopText : String := "fragment Loop on User \x7b name ...Loop \x7d"

/-- The feed with that fragment, which nothing spreads. -/
def loopingFeed : String :=
  "fragment Card on User \x7b name \x7d

query Feed \x7b feed \x7b __typename ...Card ... on Post \x7b author \x7b ...Card \x7d \x7d id \x7d \x7d

fragment Loop on User \x7b name ...Loop \x7d"

/-- A feed that spreads it. -/
def cyclicFeed : String := "query Feed \x7b feed \x7b ...Loop \x7d \x7d
fragment Loop on User \x7b name ...Loop \x7d"

theorem clean_feedDocument : (parseDocument feedDocument).diagnostics = [] := by cbv

theorem extends_loopingFeed : Extends ["Loop"] feedDocument loopingFeed := by
  have hextra : (parseDocument loopText).diagnostics = [] := by cbv
  have hother : (parseDocument feedDocument).document.definitions.all (Definition.other ["Loop"]) =
      true := by cbv
  have hnames : (parseDocument loopText).document.definitions.all (fun d => !d.other ["Loop"]) =
      true := by cbv
  have htext : loopingFeed = "\n\n".intercalate
      ((parseDocument feedDocument).document.definitions.map (fun d => d.span.text feedDocument) ++
        (parseDocument loopText).document.definitions.map fun d => d.span.text loopText) := by cbv
  refine extends_joined clean_feedDocument hextra (List.all_eq_true.1 hother) (fun d hd => ?_) htext
  simpa using List.all_eq_true.1 hnames d hd

theorem reaches_loopingFeed {name : String} (hreaches : (parseDocument loopingFeed).document.Reaches name) :
    name = "Card" := by
  have hfirst : (parseDocument loopingFeed).document.operations.map (·.set.spreads) =
      [["Card", "Card"]] := by cbv
  have hcard : ((parseDocument loopingFeed).document.fragmentTable.get? "Card").map
      (·.set.spreads) = some [] := by cbv
  obtain ⟨operation, hoperation, first, hspread, hwalk⟩ := hreaches
  have hmem : operation.set.spreads ∈ [["Card", "Card"]] :=
    hfirst ▸ List.mem_map.2 ⟨operation, hoperation, rfl⟩
  rw [List.mem_singleton.1 hmem] at hspread
  induction hwalk with
  | refl => simpa using hspread
  | tail _ hnext ih =>
      obtain ⟨definition, hdefinition, hother⟩ := hnext
      rw [ih] at hdefinition
      rw [hdefinition, Option.map_some, Option.some.injEq] at hcard
      rw [hcard] at hother
      exact absurd hother List.not_mem_nil

/-- The feed is bound as before with the fragment added, and not with it spread. -/
theorem bind_feed_spreads :
    SpreadsChecked feedGraph feedDocument (parseDocument feedDocument).document ∧
      (bind feedGraph loopingFeed).mapError (·.fault) = .ok [feedOperation] ∧
      bind feedGraph cyclicFeed = .error ⟨.fragmentCycle "Loop", ⟨61, 68⟩⟩ ∧
      Relation.TransGen (Spreads (parseDocument cyclicFeed).document.fragmentTable) "Loop" "Loop" := by
  have hclean : (parseDocument cyclicFeed).diagnostics = [] := by cbv
  have hchecked := bind_spreads feedGraph clean_feedDocument
  have hcyclic := bind_spreads feedGraph hclean
  have herror : bind feedGraph cyclicFeed = .error ⟨.fragmentCycle "Loop", ⟨61, 68⟩⟩ := by cbv
  refine ⟨hchecked, ?_, herror, hcyclic.cycle herror⟩
  rw [hchecked.extend extends_loopingFeed, bind_feedDocument]
  · rfl
  · intro name hname hreaches
    rw [List.mem_singleton.1 hname] at hreaches
    exact absurd (reaches_loopingFeed hreaches) (by decide)

end Sample

end GraphClient
