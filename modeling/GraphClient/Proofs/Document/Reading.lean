import GraphClient.Proofs.Document.Bare
import GraphClient.Proofs.Document.Steps

/-! Reading two texts side by side. Where two cursors stand before tokens of the same kinds and
texts, every step of the reader does the same on both: it gives the same tree at another place, it
reports the same mistakes, and it leaves cursors of which the same holds. What it takes for two
cursors to be such a pair is a `Coupling`; the steps keep every coupling, as long as the tokens that
they look at are among those that agree. -/

namespace GraphClient

/-- A relation of cursors that reading keeps: coupled cursors see the same token at places that belong
together, as long as they have at least `bound` tokens left. -/
structure Coupling (place : Nat → Nat → Prop) where
  bound : Nat
  rel : Cursor → Cursor → Prop
  max : ∀ {m m' n n'}, place m m' → place n n' → place (Nat.max m n) (Nat.max m' n')
  current : ∀ {c c'}, rel c c' → bound ≤ c.left → c.current.Like place c'.current
  atEnd : ∀ {c c'}, rel c c' → bound ≤ c.left → c'.atEnd = c.atEnd
  lastStop : ∀ {c c'}, rel c c' → place c.lastStop c'.lastStop
  advance : ∀ {c c'}, rel c c' → bound ≤ c.left → rel c.advance c'.advance
  report : ∀ {c c'} (fault : SyntaxFault) {span span' : Span}, rel c c' → span.Like place span' →
    rel (c.report fault span) (c'.report fault span')

namespace Coupling

variable {place : Nat → Nat → Prop} (S : Coupling place) {α β : Type} {c c' : Cursor}

/-- That the current token is one of those that agree. -/
def Open (c : Cursor) : Prop := S.bound ≤ c.left

/-- That all the tokens taken are among those that agree, and the next one too unless reading ended with a
token that it had to find. -/
def Within (c : Cursor) : Prop := S.Open c ∨ (S.bound ≤ c.left + 1 ∧ c.diagnostics = [])

/-- That two steps give values that belong together and leave coupled cursors, if all the tokens that they
look at are among those that agree. -/
def Agree (R : α → α → Prop) (r r' : α × Cursor) : Prop := S.Open r.2 → R r.1 r'.1 ∧ S.rel r.2 r'.2

/-- The same of steps that end with a token that they have to find, and do not look behind it. -/
def AgreeWithin (R : α → α → Prop) (r r' : α × Cursor) : Prop := S.Within r.2 → R r.1 r'.1 ∧ S.rel r.2 r'.2

variable {S}

theorem Open.before {p : Parsed c α} (h : S.Open p.result.2) : S.Open c := Nat.le_trans h p.le

theorem Open.ahead {p : Advanced c α} (h : S.Open p.result.2) : S.Open c := Nat.le_trans h p.le

theorem Open.advanced (h : S.Open c.advance) : S.Open c := by
  rw [Open, Cursor.left_advance] at h
  exact Nat.le_trans h (Nat.sub_le _ _)

theorem Open.expected {kind : TokenKind} (h : S.Open (c.expect kind)) : S.Open c :=
  Nat.le_trans h (c.left_expect_le kind)

theorem Within.reported {fault : SyntaxFault} {span : Span} (h : S.Within (c.report fault span)) :
    S.Open c := by
  refine h.resolve_right fun hend => ?_
  rw [Cursor.report, List.append_eq_nil_iff] at hend
  exact absurd hend.2.2 (List.cons_ne_nil _ _)

/-- Where reading ended with a token that it had to find, this one is the last of those that agree. -/
theorem Within.expected {kind : TokenKind} (h : S.Within (c.expect kind)) (hkind : kind ≠ .finish) :
    S.Open c := by
  rw [Cursor.expect] at h
  split at h
  · rename_i hat
    have hpos := Cursor.left_pos_of_at? hat hkind
    refine h.elim Open.advanced fun hend => ?_
    have hle := hend.1
    rw [Cursor.left_advance, Nat.sub_add_cancel hpos] at hle
    exact hle
  · exact h.reported

theorem AgreeWithin.agree {R : α → α → Prop} {r r' : α × Cursor} (h : S.AgreeWithin R r r') :
    S.Agree R r r' :=
  fun hopen => h (.inl hopen)

/-- What a step looks at is known only once the step is over, so its first token may be taken to agree. -/
theorem agree_of_open {p : Parsed c α} {R : α → α → Prop} {r' : α × Cursor}
    (h : S.Open c → S.Agree R p.result r') : S.Agree R p.result r' :=
  fun hopen => h hopen.before hopen

theorem agree_of_open' {p : Advanced c α} {R : α → α → Prop} {r' : α × Cursor}
    (h : S.Open c → S.Agree R p.result r') : S.Agree R p.result r' :=
  fun hopen => h hopen.ahead hopen

/-! ### Steps on one token -/

section

variable (h : S.rel c c') (hopen : S.Open c)
include h hopen

theorem kind : c'.kind = c.kind := (S.current h hopen).kind

theorem at? (kind : TokenKind) : c'.at? kind = c.at? kind := by
  rw [Cursor.at?, Cursor.at?, Coupling.kind h hopen]

theorem text : c'.current.text = c.current.text := (S.current h hopen).text

theorem span : c.current.span.Like place c'.current.span := (S.current h hopen).span

theorem missing (wanted : Wanted) : S.rel (c.missing wanted) (c'.missing wanted) := by
  rw [Cursor.missing, Cursor.missing, S.atEnd h hopen]
  exact S.report _ h (Coupling.span h hopen)

theorem expect (kind : TokenKind) : S.rel (c.expect kind) (c'.expect kind) := by
  rw [Cursor.expect, Cursor.expect, at? h hopen, Coupling.kind h hopen]
  split
  · exact S.advance h hopen
  · exact S.report _ h (Coupling.span h hopen)

end

theorem spanFrom (h : S.rel c c') {start start' : Nat} (hstart : place start start') :
    (c.spanFrom start).Like place (c'.spanFrom start') :=
  ⟨hstart, S.max (S.lastStop h) hstart⟩

end Coupling

namespace Parser

variable {place : Nat → Nat → Prop} {S : Coupling place} {c c' : Cursor}

theorem name_agree (h : S.rel c c') : S.Agree (Name.Like place) (name c).result (name c').result := by
  refine Coupling.agree_of_open fun hc => ?_
  rw [name_result, name_result, Coupling.kind h hc]
  intro _
  split
  · exact ⟨⟨Name.bare_eq_iff.2 (Coupling.text h hc), Coupling.span h hc⟩, S.advance h hc⟩
  · exact ⟨⟨rfl, Coupling.span h hc⟩, Coupling.missing h hc .name⟩

/-! ### Literals -/

theorem intLiteral_agree (h : S.rel c c') :
    S.Agree (Literal.Like place) (intLiteral c).result (intLiteral c').result := by
  refine Coupling.agree_of_open' fun hc => ?_
  rw [intLiteral_result, intLiteral_result, Coupling.text h hc]
  intro _
  have hspan := Coupling.span h hc
  cases LiteralText.int? c.current.text with
  | some value => exact ⟨⟨rfl, hspan⟩, S.advance h hc⟩
  | none => exact ⟨⟨rfl, hspan⟩, S.report _ (S.advance h hc) hspan⟩

/-- That the readers of literals agree on cursors with fewer than `n` tokens left. -/
structure LiteralsAgree (S : Coupling place) (n : Nat) : Prop where
  items : ∀ {c c'}, c.left < n → S.rel c c' →
    S.Agree (fun items items' => Literal.bareItems items' = Literal.bareItems items) (literalList c).result
      (literalList c').result
  fields : ∀ {c c'}, c.left < n → S.rel c c' →
    S.Agree (fun fields fields' => Literal.bareFields fields' = Literal.bareFields fields)
      (literalFields c).result
      (literalFields c').result

theorem literalOf_agree (h : S.rel c c') (hc : S.Open c) (hlists : LiteralsAgree S c.left) {kind : TokenKind}
    (hkind : c.kind = kind) : S.Agree (Literal.Like place) (literalOf c kind) (literalOf c' kind) := by
  have hspan := Coupling.span h hc
  have htext := Coupling.text h hc
  have hadvance := S.advance h hc
  have hlt : kind ≠ .finish → c.advance.left < c.left := fun hk =>
    Cursor.left_advance_lt (Cursor.left_pos_of_kind hkind hk)
  fun_cases literalOf c kind with
  | case1 =>
      intro hopen
      obtain ⟨hname, hnext⟩ := name_agree hadvance hopen
      exact ⟨⟨congrArg Literal.variable hname.bare, hname.span⟩, hnext⟩
  | case2 => exact intLiteral_agree h
  | case3 =>
      exact fun _ =>
        ⟨⟨congrArg (fun text => Literal.float (LiteralText.float text) .none) htext, hspan⟩, hadvance⟩
  | case4 =>
      exact fun _ =>
        ⟨⟨congrArg (fun text => Literal.string (LiteralText.quoted text) .none) htext, hspan⟩, hadvance⟩
  | case5 =>
      exact fun _ =>
        ⟨⟨congrArg (fun text => Literal.string (LiteralText.block text) .none) htext, hspan⟩, hadvance⟩
  | case6 => exact fun _ => ⟨⟨rfl, hspan⟩, hadvance⟩
  | case7 => exact fun _ => ⟨⟨rfl, hspan⟩, hadvance⟩
  | case8 => exact fun _ => ⟨⟨rfl, hspan⟩, hadvance⟩
  | case9 items next =>
      intro hopen
      have hitems : S.Open items.2 := hopen.expected
      obtain ⟨hbare, hnext⟩ := hlists.items (hlt nofun) hadvance hitems
      have hclose := Coupling.expect hnext hitems (.mark .closeBracket)
      exact ⟨⟨congrArg (Literal.list · .none) hbare, Coupling.spanFrom hclose hspan.start⟩, hclose⟩
  | case10 fields next =>
      intro hopen
      have hfields : S.Open fields.2 := hopen.expected
      obtain ⟨hbare, hnext⟩ := hlists.fields (hlt nofun) hadvance hfields
      have hclose := Coupling.expect hnext hfields (.mark .closeBrace)
      exact ⟨⟨congrArg (Literal.object · .none) hbare, Coupling.spanFrom hclose hspan.start⟩, hclose⟩
  | case11 kind _ _ _ _ _ _ _ _ _ _ hname =>
      intro hopen
      rw [literalOf, if_pos hname]
      · obtain ⟨hname, hnext⟩ := name_agree h hopen
        exact ⟨⟨congrArg Literal.enum hname.bare, hname.span⟩, hnext⟩
      all_goals assumption
  | case12 kind _ _ _ _ _ _ _ _ _ _ hname =>
      intro _
      rw [literalOf, if_neg hname]
      · exact ⟨⟨rfl, hspan⟩, S.advance (Coupling.missing h hc .value) hc⟩
      all_goals assumption

theorem literal_agree_of (hlists : LiteralsAgree S c.left) (h : S.rel c c') :
    S.Agree (Literal.Like place) (literal c).result (literal c').result := by
  refine Coupling.agree_of_open' fun hc => ?_
  rw [literal_result, literal_result, Coupling.kind h hc]
  exact literalOf_agree h hc hlists rfl

theorem literalsAgree (S : Coupling place) (n : Nat) : LiteralsAgree S n := by
  induction n with
  | zero => exact ⟨fun h => absurd h (Nat.not_lt_zero _), fun h => absurd h (Nat.not_lt_zero _)⟩
  | succ n ih =>
      -- the first item has as many tokens left as the list, and those within it and behind it have fewer
      have hliteral : ∀ {c c'}, c.left ≤ n → S.rel c c' →
          S.Agree (Literal.Like place) (literal c).result (literal c').result := fun hle h =>
        literal_agree_of ⟨fun hlt => ih.items (Nat.lt_of_lt_of_le hlt hle),
          fun hlt => ih.fields (Nat.lt_of_lt_of_le hlt hle)⟩ h
      constructor
      · intro c c' hlt h
        refine Coupling.agree_of_open fun hc => ?_
        rw [literalList_result, literalList_result, Coupling.at? h hc, S.atEnd h hc]
        split
        · exact fun _ => ⟨rfl, h⟩
        · rename_i hstop
          intro hopen
          have hpos : 0 < c.left := Cursor.left_pos_of_not_atEnd (by simp_all)
          have hless := (literal c).lt hpos
          obtain ⟨hitem, h₁⟩ := hliteral (Nat.le_of_lt_succ hlt) h hopen.before
          obtain ⟨hrest, h₂⟩ := ih.items (Nat.lt_of_lt_of_le hless (Nat.le_of_lt_succ hlt)) h₁ hopen
          exact ⟨congrArg₂ List.cons hitem.bare hrest, h₂⟩
      · intro c c' hlt h
        refine Coupling.agree_of_open fun hc => ?_
        rw [literalFields_result, literalFields_result, Coupling.at? h hc, S.atEnd h hc]
        split
        · exact fun _ => ⟨rfl, h⟩
        · rename_i hstop
          intro hopen
          have hpos : 0 < c.left := Cursor.left_pos_of_not_atEnd (by simp_all)
          have hle := Nat.le_trans (Cursor.left_expect_le (name c).next (.mark .colon)) (name c).le
          have hless : (literal ((name c).next.expect (.mark .colon))).next.left < c.left := by
            rcases Nat.eq_zero_or_pos ((name c).next.expect (.mark .colon)).left with hzero | hpos'
            · exact Nat.lt_of_le_of_lt (literal _).le (by omega)
            · exact Nat.lt_of_lt_of_le ((literal _).lt hpos') hle
          have hvalueOpen := hopen.before
          have hcolon : S.Open (name c).result.2 := hvalueOpen.ahead.expected
          obtain ⟨hfield, h₁⟩ := name_agree h hcolon
          obtain ⟨hvalue, h₂⟩ := hliteral (Nat.le_trans hle (Nat.le_of_lt_succ hlt))
            (Coupling.expect h₁ hcolon (.mark .colon)) hvalueOpen
          obtain ⟨hrest, h₃⟩ := ih.fields (Nat.lt_of_lt_of_le hless (Nat.le_of_lt_succ hlt)) h₂ hopen
          exact ⟨congrArg₂ List.cons (congrArg₂ Prod.mk hfield.bare hvalue.bare) hrest, h₃⟩

theorem literal_agree (h : S.rel c c') :
    S.Agree (Literal.Like place) (literal c).result (literal c').result :=
  literal_agree_of (literalsAgree S c.left) h

/-! ### Types, arguments and directives -/

theorem innerType_agree (hitem : ∀ {d d'}, d.left < c.left → S.rel d d' →
      S.Agree (fun type type' => type'.bare = type.bare) (typeExpr d).result (typeExpr d').result)
    (h : S.rel c c') (hc : S.Open c) :
    S.Agree (fun type type' => type'.bare = type.bare) (innerType c) (innerType c') := by
  unfold innerType
  rw [Coupling.at? h hc]
  split
  · rename_i hbracket
    intro hopen
    have hlt := Cursor.left_advance_lt (Cursor.left_pos_of_at? hbracket nofun)
    have hnext : S.Open (typeExpr c.advance).result.2 := hopen.expected
    obtain ⟨hbare, h₁⟩ := hitem hlt (S.advance h hc) hnext
    exact ⟨congrArg (TypeExpr.list · .none) hbare, Coupling.expect h₁ hnext (.mark .closeBracket)⟩
  · intro hopen
    obtain ⟨hname, h₁⟩ := name_agree h hopen
    exact ⟨congrArg TypeExpr.named hname.bare, h₁⟩

theorem typeExpr_agree (h : S.rel c c') :
    S.Agree (fun type type' => type'.bare = type.bare) (typeExpr c).result (typeExpr c').result := by
  induction hn : c.left using Nat.strongRecOn generalizing c c' with
  | ind n ih =>
      refine Coupling.agree_of_open fun hc => ?_
      have hinner := innerType_agree (fun hlt h => ih _ (hn ▸ hlt) h rfl) h hc
      rw [typeExpr_result, typeExpr_result]
      intro hopen
      dsimp only at hopen ⊢
      have hinnerOpen : S.Open (innerType c).2 := by
        split at hopen
        · exact hopen.advanced
        · exact hopen
      obtain ⟨hbare, h₁⟩ := hinner hinnerOpen
      rw [Coupling.at? h₁ hinnerOpen]
      split
      · exact ⟨congrArg (TypeExpr.nonNull · .none) hbare, S.advance h₁ hinnerOpen⟩
      · exact ⟨hbare, h₁⟩

theorem argumentList_agree (h : S.rel c c') :
    S.Agree (fun list list' => list'.map Argument.bare = list.map Argument.bare) (argumentList c).result
      (argumentList c').result := by
  induction hn : c.left using Nat.strongRecOn generalizing c c' with
  | ind n ih =>
      refine Coupling.agree_of_open fun hc => ?_
      rw [argumentList_result c, argumentList_result c', Coupling.at? h hc, S.atEnd h hc, Coupling.kind h hc]
      split
      · exact fun _ => ⟨rfl, h⟩
      rename_i hstop
      have hpos : 0 < c.left := Cursor.left_pos_of_not_atEnd (by simp_all)
      split
      · rename_i hname
        intro hopen
        have hless : (literal ((name c).next.expect (.mark .colon))).next.left < c.left :=
          Nat.lt_of_le_of_lt (Nat.le_trans (literal _).le (Cursor.left_expect_le _ _)) (name_next_lt hname)
        have hvalueOpen := hopen.before
        have hcolon : S.Open (name c).result.2 := hvalueOpen.ahead.expected
        obtain ⟨hfield, h₁⟩ := name_agree h hcolon
        obtain ⟨hvalue, h₂⟩ := literal_agree (Coupling.expect h₁ hcolon (.mark .colon)) hvalueOpen
        obtain ⟨hrest, h₃⟩ := ih _ (hn ▸ hless) h₂ rfl hopen
        exact ⟨congrArg₂ List.cons (congrArg₂ (Argument.mk · · .none) hfield.bare hvalue.bare) hrest, h₃⟩
      · exact ih _ (hn ▸ Cursor.left_missing_advance_lt _ hpos) (S.advance (Coupling.missing h hc _) hc) rfl

theorem arguments_agree (h : S.rel c c') :
    S.Agree (fun list list' => list'.map Argument.bare = list.map Argument.bare) (arguments c).result
      (arguments c').result := by
  refine Coupling.agree_of_open fun hc => ?_
  rw [arguments_result, arguments_result, Coupling.at? h hc]
  split
  · intro hopen
    have hnext : S.Open (argumentList c.advance).result.2 := hopen.expected
    obtain ⟨hlist, h₁⟩ := argumentList_agree (S.advance h hc) hnext
    exact ⟨hlist, Coupling.expect h₁ hnext (.mark .closeParen)⟩
  · exact fun _ => ⟨rfl, h⟩

theorem directives_agree (h : S.rel c c') :
    S.Agree (fun list list' => list'.map Directive.bare = list.map Directive.bare) (directives c).result
      (directives c').result := by
  induction hn : c.left using Nat.strongRecOn generalizing c c' with
  | ind n ih =>
      refine Coupling.agree_of_open fun hc => ?_
      rw [directives_result, directives_result, Coupling.at? h hc]
      split
      · rename_i hat
        intro hopen
        have hless : (arguments (name c.advance).next).next.left < c.left :=
          Nat.lt_of_le_of_lt (Nat.le_trans (arguments _).le (name _).le)
            (Cursor.left_advance_lt (Cursor.left_pos_of_at? hat nofun))
        have hargumentsOpen : S.Open (arguments (name c.advance).next).result.2 := hopen.before
        obtain ⟨hname, h₁⟩ := name_agree (S.advance h hc) hargumentsOpen.before
        obtain ⟨hlist, h₂⟩ := arguments_agree h₁ hargumentsOpen
        obtain ⟨hrest, h₃⟩ := ih _ (hn ▸ hless) h₂ rfl hopen
        exact ⟨congrArg₂ List.cons (congrArg₂ (Directive.mk · · .none) hname.bare hlist) hrest, h₃⟩
      · exact fun _ => ⟨rfl, h⟩

/-! ### Selections -/

theorem keyedName_agree {first first' : Name} (hfirst : first'.bare = first.bare) (h : S.rel c c') :
    S.Agree (fun target target' => target'.1.map Name.bare = target.1.map Name.bare ∧
      target'.2.bare = target.2.bare) (keyedName first c).result (keyedName first' c').result := by
  refine Coupling.agree_of_open fun hc => ?_
  rw [keyedName_result, keyedName_result, Coupling.at? h hc]
  split
  · intro hopen
    obtain ⟨hname, h₁⟩ := name_agree (S.advance h hc) hopen
    exact ⟨⟨congrArg some hfirst, hname.bare⟩, h₁⟩
  · exact fun _ => ⟨⟨rfl, hfirst⟩, h⟩

/-- Two lists that agree but for their places are empty together. -/
theorem isEmpty_of_bareList {list list' : List Selection}
    (h : Selection.bareList list' = Selection.bareList list) :
    list'.isEmpty = list.isEmpty := by
  cases list <;> cases list' <;> simp_all [Selection.bareList]

theorem openedSet_agree_of
    (hlist : S.Agree (fun list list' => Selection.bareList list' = Selection.bareList list)
      (selections c).result (selections c').result) {start start' : Nat} (hstart : place start start') :
    S.AgreeWithin (fun set set' => set'.bare = set.bare) (openedSet start c).result
      (openedSet start' c').result := by
  rw [openedSet_result, openedSet_result]
  intro hwithin
  dsimp only at hwithin ⊢
  have hopen : S.Open (selections c).result.2 := by
    split at hwithin
    · exact Coupling.Open.expected hwithin.reported
    · exact Coupling.Within.expected hwithin nofun
  obtain ⟨hbare, h₁⟩ := hlist hopen
  have hclose := Coupling.expect h₁ hopen (.mark .closeBrace)
  rw [isEmpty_of_bareList hbare]
  refine ⟨congrArg (SelectionSet.mk · .none) hbare, ?_⟩
  split
  · exact S.report _ hclose (Coupling.spanFrom hclose hstart)
  · exact hclose

/-- That selection sets agree on cursors with fewer than `n` tokens left. -/
def SetsAgree (S : Coupling place) (n : Nat) : Prop :=
  ∀ {c c'}, c.left < n → S.rel c c' →
    S.AgreeWithin (fun set set' => set'.bare = set.bare) (selectionSet c).result (selectionSet c').result

theorem open_of_spreadOf {start : Nat} (hopen : S.Open (spreadOf start c).2) : S.Open c := by
  unfold spreadOf at hopen
  split at hopen
  · exact hopen.before.before.before.advanced
  split at hopen
  · exact hopen.before.before
  · exact hopen.before.before

theorem spreadOf_agree {start start' : Nat} (hsets : SetsAgree S (c.left + 1)) (h : S.rel c c') :
    S.Agree (fun selection selection' => selection'.bare = selection.bare) (spreadOf start c)
      (spreadOf start' c') := by
  suffices hagree : S.Open c → S.Agree (fun selection selection' => selection'.bare = selection.bare)
      (spreadOf start c) (spreadOf start' c') from fun hopen => hagree (open_of_spreadOf hopen) hopen
  intro hc
  unfold spreadOf
  rw [Coupling.at? h hc, Coupling.at? h hc, Coupling.at? h hc]
  split
  · intro hopen
    have hmarksOpen : S.Open (directives (name c.advance).result.2).result.2 := hopen.before
    obtain ⟨hcondition, h₁⟩ := name_agree (S.advance h hc) hmarksOpen.before
    obtain ⟨hmarks, h₂⟩ := directives_agree h₁ hmarksOpen
    have hle : (directives (name c.advance).result.2).result.2.left ≤ c.left :=
      Nat.le_trans (directives _).le (Nat.le_trans (name _).le (c.left_advance ▸ Nat.sub_le _ _))
    obtain ⟨hset, h₃⟩ := (hsets (Nat.lt_succ_of_le hle) h₂).agree hopen
    refine ⟨?_, h₃⟩
    dsimp only
    rw [Selection.bare, Selection.bare, hmarks, hset, Option.map_some, Option.map_some, hcondition.bare]
  split
  · intro hopen
    have hmarksOpen : S.Open (directives c).result.2 := hopen.before
    obtain ⟨hmarks, h₁⟩ := directives_agree h hmarksOpen
    obtain ⟨hset, h₂⟩ := (hsets (Nat.lt_succ_of_le (directives c).le) h₁).agree hopen
    refine ⟨?_, h₂⟩
    dsimp only
    rw [Selection.bare, Selection.bare, hmarks, hset]
    rfl
  · intro hopen
    have hmarksOpen : S.Open (directives (name c).result.2).result.2 := hopen
    obtain ⟨hname, h₁⟩ := name_agree h hmarksOpen.before
    obtain ⟨hmarks, h₂⟩ := directives_agree h₁ hmarksOpen
    refine ⟨?_, h₂⟩
    dsimp only
    rw [Selection.bare, Selection.bare, hmarks, hname.bare]

theorem fieldOf_agree (hsets : SetsAgree S c.left) (hname : c.kind.isName = true) (h : S.rel c c') :
    S.Agree (fun selection selection' => selection'.bare = selection.bare) (fieldOf c) (fieldOf c') := by
  unfold fieldOf
  intro hopen
  dsimp only at hopen ⊢
  have hmarksOpen : S.Open
      (directives
        (arguments (keyedName (name c).result.1 (name c).result.2).result.2).result.2).result.2 := by
    split at hopen
    · exact hopen.before
    · exact hopen
  have hlistOpen := hmarksOpen.before
  have htargetOpen := hlistOpen.before
  obtain ⟨hfirst, h₁⟩ := name_agree h htargetOpen.before
  obtain ⟨htarget, h₂⟩ := keyedName_agree hfirst.bare h₁ htargetOpen
  obtain ⟨hlist, h₃⟩ := arguments_agree h₂ hlistOpen
  obtain ⟨hmarks, h₄⟩ := directives_agree h₃ hmarksOpen
  have hlt : (directives
      (arguments (keyedName (name c).result.1 (name c).result.2).result.2).result.2).result.2.left < c.left :=
    Nat.lt_of_le_of_lt (Nat.le_trans (directives _).le (Nat.le_trans (arguments _).le (keyedName _ _).le))
      (name_next_lt hname)
  rw [Coupling.at? h₄ hmarksOpen]
  split
  · rename_i hbrace
    rw [if_pos hbrace] at hopen
    obtain ⟨hset, h₅⟩ := (hsets hlt h₄).agree hopen
    refine ⟨?_, h₅⟩
    dsimp only
    rw [Selection.bare, Selection.bare, hlist, hmarks, htarget.1, htarget.2,
      SelectionSet.bare?, SelectionSet.bare?, hset]
  · refine ⟨?_, h₄⟩
    dsimp only
    rw [Selection.bare, Selection.bare, hlist, hmarks, htarget.1, htarget.2]

theorem selection_agree_of (hsets : SetsAgree S c.left) (h : S.rel c c') :
    S.Agree (fun selection selection' => selection'.map Selection.bare = selection.map Selection.bare)
      (selection c).result (selection c').result := by
  refine Coupling.agree_of_open' fun hc => ?_
  rw [selection_result, selection_result, Coupling.at? h hc, Coupling.kind h hc]
  split
  · rename_i hspread
    intro hopen
    have hlt := Cursor.left_advance_lt (Cursor.left_pos_of_at? hspread nofun)
    obtain ⟨hbare, h₁⟩ := spreadOf_agree (fun hle => hsets (Nat.lt_of_lt_of_le hle hlt)) (S.advance h hc)
      hopen
    exact ⟨congrArg some hbare, h₁⟩
  split
  · rename_i hname
    intro hopen
    obtain ⟨hbare, h₁⟩ := fieldOf_agree hsets hname h hopen
    exact ⟨congrArg some hbare, h₁⟩
  · exact fun _ => ⟨rfl, S.advance (Coupling.missing h hc .selection) hc⟩

theorem selections_agree_of (hsets : SetsAgree S c.left) (h : S.rel c c') :
    S.Agree (fun list list' => Selection.bareList list' = Selection.bareList list) (selections c).result
      (selections c').result := by
  induction hn : c.left using Nat.strongRecOn generalizing c c' with
  | ind n ih =>
      refine Coupling.agree_of_open fun hc => ?_
      rw [selections_result, selections_result, Coupling.at? h hc, S.atEnd h hc]
      split
      · exact fun _ => ⟨rfl, h⟩
      · rename_i hstop
        have hpos : 0 < c.left := Cursor.left_pos_of_not_atEnd (by simp_all)
        have hlt : (selection c).result.2.left < c.left := (selection c).lt hpos
        intro hopen
        obtain ⟨hfirst, h₁⟩ := selection_agree_of hsets h hopen.before
        obtain ⟨hrest, h₂⟩ := ih _ (hn ▸ hlt) (fun hless => hsets (Nat.lt_trans hless hlt)) h₁ rfl hopen
        refine ⟨?_, h₂⟩
        dsimp only
        rw [Selection.bareList_toList_append, Selection.bareList_toList_append, hfirst, hrest]

theorem selections_of_openedSet {start : Nat} (h : S.Within (openedSet start c).result.2) :
    S.Open (selections c).result.2 := by
  rw [openedSet_result] at h
  dsimp only at h
  split at h
  · exact Coupling.Open.expected h.reported
  · exact h.expected nofun

theorem open_of_selectionSet (h : S.Within (selectionSet c).result.2) : S.Open c := by
  rw [selectionSet_result] at h
  exact (selections_of_openedSet h).before.expected

theorem selectionSet_agree_of (hsets : SetsAgree S c.left) (h : S.rel c c') :
    S.AgreeWithin (fun set set' => set'.bare = set.bare) (selectionSet c).result
      (selectionSet c').result := by
  intro hwithin
  have hc := open_of_selectionSet hwithin
  rw [selectionSet_result] at hwithin
  rw [selectionSet_result, selectionSet_result]
  have hle := c.left_expect_le (.mark .openBrace)
  exact openedSet_agree_of
    (selections_agree_of (fun hlt => hsets (Nat.lt_of_lt_of_le hlt hle)) (Coupling.expect h hc _))
    (Coupling.span h hc).start hwithin

theorem setsAgree (S : Coupling place) (n : Nat) : SetsAgree S n := by
  induction n with
  | zero => exact fun hlt => absurd hlt (Nat.not_lt_zero _)
  | succ n ih =>
      intro c c' hlt h
      exact selectionSet_agree_of (fun hless => ih (Nat.lt_of_lt_of_le hless (Nat.le_of_lt_succ hlt))) h

theorem selectionSet_agree (h : S.rel c c') :
    S.AgreeWithin (fun set set' => set'.bare = set.bare) (selectionSet c).result (selectionSet c').result :=
  selectionSet_agree_of (setsAgree S c.left) h

theorem selections_agree (h : S.rel c c') :
    S.Agree (fun list list' => Selection.bareList list' = Selection.bareList list) (selections c).result
      (selections c').result :=
  selections_agree_of (setsAgree S c.left) h

theorem openedSet_agree {start start' : Nat} (hstart : place start start') (h : S.rel c c') :
    S.AgreeWithin (fun set set' => set'.bare = set.bare) (openedSet start c).result
      (openedSet start' c').result :=
  openedSet_agree_of (selections_agree h) hstart

/-! ### Definitions -/

theorem defaultLiteral_agree (h : S.rel c c') :
    S.Agree (Option.Rel (Literal.Like place)) (defaultLiteral c).result (defaultLiteral c').result := by
  refine Coupling.agree_of_open fun hc => ?_
  rw [defaultLiteral_result, defaultLiteral_result, Coupling.at? h hc]
  split
  · intro hopen
    obtain ⟨hvalue, h₁⟩ := literal_agree (S.advance h hc) hopen
    exact ⟨.some hvalue, h₁⟩
  · exact fun _ => ⟨.none, h⟩

theorem variableDefinition_agree (start start' : Nat) (h : S.rel c c') :
    S.Agree (VariableDefinition.Like place) (variableDefinition start c).result
      (variableDefinition start' c').result := by
  rw [variableDefinition_result, variableDefinition_result]
  intro hopen
  have hdefaultOpen := Coupling.Open.before hopen
  have htypeOpen := hdefaultOpen.before
  have hcolon := htypeOpen.before.expected
  obtain ⟨hname, h₁⟩ := name_agree h hcolon
  obtain ⟨htype, h₂⟩ := typeExpr_agree (Coupling.expect h₁ hcolon (.mark .colon)) htypeOpen
  obtain ⟨hdefault, h₃⟩ := defaultLiteral_agree h₂ hdefaultOpen
  obtain ⟨-, h₄⟩ := directives_agree h₃ hopen
  refine ⟨⟨?_, hdefault⟩, h₄⟩
  dsimp only [VariableDefinition.bare]
  rw [hname.bare, htype, Literal.Like.bare_of_rel hdefault]

theorem variableList_agree (h : S.rel c c') :
    S.Agree (List.Forall₂ (VariableDefinition.Like place)) (variableList c).result
      (variableList c').result := by
  induction hn : c.left using Nat.strongRecOn generalizing c c' with
  | ind n ih =>
      refine Coupling.agree_of_open fun hc => ?_
      rw [variableList_result c, variableList_result c', Coupling.at? h hc, Coupling.at? h hc, S.atEnd h hc]
      split
      · exact fun _ => ⟨.nil, h⟩
      rename_i hstop
      have hpos : 0 < c.left := Cursor.left_pos_of_not_atEnd (by simp_all)
      split
      · intro hopen
        have hlt : (variableDefinition c.current.span.start c.advance).result.2.left < c.left :=
          Nat.lt_of_le_of_lt (variableDefinition c.current.span.start c.advance).le
            (Cursor.left_advance_lt hpos)
        obtain ⟨hfirst, h₁⟩ :=
          variableDefinition_agree c.current.span.start c'.current.span.start (S.advance h hc)
          hopen.before
        obtain ⟨hrest, h₂⟩ := ih _ (hn ▸ hlt) h₁ rfl hopen
        exact ⟨.cons hfirst hrest, h₂⟩
      · rename_i hdollar
        -- the dollar is reported as missing, so the cursor is still where it was
        have hexpect : c.expect (.mark .dollar) =
            c.report (.unexpected (.mark .dollar) c.kind) c.current.span :=
          if_neg hdollar
        have hstay : S.Open (c.expect (.mark .dollar)) := by rw [hexpect]; exact hc
        have hlt : (c.expect (.mark .dollar)).advance.left < c.left := by
          rw [hexpect]
          exact Cursor.left_advance_lt hpos
        exact ih _ (hn ▸ hlt) (S.advance (Coupling.expect h hc _) hstay) rfl

theorem variableDefinitions_agree (h : S.rel c c') :
    S.Agree (List.Forall₂ (VariableDefinition.Like place)) (variableDefinitions c).result
      (variableDefinitions c').result := by
  refine Coupling.agree_of_open fun hc => ?_
  rw [variableDefinitions_result, variableDefinitions_result, Coupling.at? h hc]
  split
  · intro hopen
    have hnext : S.Open (variableList c.advance).result.2 := hopen.expected
    obtain ⟨hlist, h₁⟩ := variableList_agree (S.advance h hc) hnext
    exact ⟨hlist, Coupling.expect h₁ hnext (.mark .closeParen)⟩
  · exact fun _ => ⟨.nil, h⟩

theorem operationBody_agree {start start' : Nat} (hstart : place start start') (kind : OperationKind)
    {target target' : Option Name} (htarget : target'.map Name.bare = target.map Name.bare) (h : S.rel c c') :
    S.AgreeWithin (OperationDefinition.Like place) (operationBody start kind target c).result
      (operationBody start' kind target' c').result := by
  rw [operationBody_result, operationBody_result]
  intro hwithin
  have hmarksOpen := open_of_selectionSet hwithin
  obtain ⟨hlist, h₁⟩ := variableDefinitions_agree h hmarksOpen.before
  obtain ⟨hmarks, h₂⟩ := directives_agree h₁ hmarksOpen
  obtain ⟨hset, h₃⟩ := selectionSet_agree h₂ hwithin
  refine ⟨⟨?_, Coupling.spanFrom h₃ hstart, hlist⟩, h₃⟩
  dsimp only [OperationDefinition.bare]
  rw [htarget, map_eq_of_forall₂ (fun hlike => hlike.bare) hlist, hmarks, hset]

theorem open_of_operation {start : Nat} {kind : OperationKind}
    (h : S.Within (operation start kind c).result.2) :
    S.Open c := by
  rw [operation_result] at h
  split at h
  · rw [operationBody_result] at h
    exact (open_of_selectionSet h).before.before.before
  · rw [operationBody_result] at h
    exact (open_of_selectionSet h).before.before

theorem operation_agree {start start' : Nat} (hstart : place start start') (kind : OperationKind)
    (h : S.rel c c') :
    S.AgreeWithin (OperationDefinition.Like place) (operation start kind c).result
      (operation start' kind c').result := by
  intro hwithin
  have hc := open_of_operation hwithin
  rw [operation_result] at hwithin
  rw [operation_result, operation_result, Coupling.kind h hc, Coupling.at? h hc]
  split
  · rename_i hnamed
    rw [if_pos hnamed, operationBody_result] at hwithin
    obtain ⟨hname, h₁⟩ := name_agree h (open_of_selectionSet hwithin).before.before
    exact operationBody_agree hstart kind (congrArg some hname.bare) h₁ hwithin
  · rename_i hnamed
    rw [if_neg hnamed] at hwithin
    exact operationBody_agree hstart kind rfl h hwithin

theorem fragment_agree {start start' : Nat} (hstart : place start start') (h : S.rel c c') :
    S.AgreeWithin (FragmentDefinition.Like place) (fragment start c).result (fragment start' c').result := by
  rw [fragment_result, fragment_result]
  intro hwithin
  have hmarksOpen := open_of_selectionSet hwithin
  have hconditionOpen := hmarksOpen.before
  have hon := hconditionOpen.before.expected
  obtain ⟨hname, h₁⟩ := name_agree h hon
  obtain ⟨hcondition, h₂⟩ := name_agree (Coupling.expect h₁ hon (.keyword .on)) hconditionOpen
  obtain ⟨hmarks, h₃⟩ := directives_agree h₂ hmarksOpen
  obtain ⟨hset, h₄⟩ := selectionSet_agree h₃ hwithin
  refine ⟨⟨?_, Coupling.spanFrom h₄ hstart⟩, h₄⟩
  dsimp only [FragmentDefinition.bare]
  rw [hname.bare, hcondition.bare, hmarks, hset]

theorem skipDefinition_agree (depth : Nat) (h : S.rel c c') :
    S.Agree (fun _ _ => True) (skipDefinition depth c).result (skipDefinition depth c').result := by
  induction hn : c.left using Nat.strongRecOn generalizing c c' depth with
  | ind n ih =>
      refine Coupling.agree_of_open fun hc => ?_
      rw [skipDefinition_result depth c, skipDefinition_result depth c', S.atEnd h hc, Coupling.kind h hc]
      split
      · exact fun _ => ⟨trivial, h⟩
      rename_i hstop
      have hless : c.advance.left < n :=
        hn ▸ Cursor.left_advance_lt (Cursor.left_pos_of_not_atEnd (by simpa using hstop))
      have hnext := S.advance h hc
      split
      · exact ih _ hless _ hnext rfl
      split
      · split
        · exact fun _ => ⟨trivial, hnext⟩
        · exact ih _ hless _ hnext rfl
      split
      · exact fun _ => ⟨trivial, h⟩
      · exact ih _ hless _ hnext rfl

/-- What has become a definition was read up to the brace that closes it. -/
theorem worded_agree_of_some {word : Keyword} {definition : Definition}
    (hstart : place c.current.span.start c'.current.span.start) (hnext : S.rel c.advance c'.advance)
    (hsome : (worded c word).1 = some definition) :
    S.AgreeWithin (Option.Rel (Definition.Like place)) (worded c word) (worded c' word) := by
  unfold worded at hsome ⊢
  cases hkind : operationKind? word with
  | some kind =>
      intro hwithin
      obtain ⟨hlike, h₁⟩ := operation_agree hstart kind hnext hwithin
      exact ⟨.some (.operation hlike), h₁⟩
  | none =>
      rw [hkind] at hsome
      dsimp only at hsome ⊢
      split
      · intro hwithin
        obtain ⟨hlike, h₁⟩ := fragment_agree hstart hnext hwithin
        exact ⟨.some (.fragment hlike), h₁⟩
      · rename_i hword
        rw [if_neg hword] at hsome
        split at hsome <;> cases hsome

theorem definitionOf_agree_of_some {kind : TokenKind} {definition : Definition}
    (hstart : place c.current.span.start c'.current.span.start) (hnext : S.rel c.advance c'.advance)
    (hsome : (definitionOf c kind).1 = some definition) :
    S.AgreeWithin (Option.Rel (Definition.Like place)) (definitionOf c kind) (definitionOf c' kind) := by
  fun_cases definitionOf c kind with
  | case1 =>
      intro hwithin
      obtain ⟨hset, h₁⟩ := openedSet_agree hstart hnext hwithin
      exact ⟨.some (.operation ⟨congrArg (OperationDefinition.mk _ _ _ _ · _) hset,
        Coupling.spanFrom h₁ hstart, .nil⟩), h₁⟩
  | case4 word => exact worded_agree_of_some hstart hnext hsome
  | case2 => cases hsome
  | case3 => cases hsome
  | case5 =>
      rw [definitionOf] at hsome
      · cases hsome
      all_goals assumption

theorem worded_agree (h : S.rel c c') (hc : S.Open c) (word : Keyword) :
    S.Agree (Option.Rel (Definition.Like place)) (worded c word) (worded c' word) := by
  have hstart := (Coupling.span h hc).start
  have hnext := S.advance h hc
  unfold worded
  cases operationKind? word with
  | some kind =>
      intro hopen
      obtain ⟨hlike, h₁⟩ := (operation_agree hstart kind hnext).agree hopen
      exact ⟨.some (.operation hlike), h₁⟩
  | none =>
      dsimp only
      split
      · intro hopen
        obtain ⟨hlike, h₁⟩ := (fragment_agree hstart hnext).agree hopen
        exact ⟨.some (.fragment hlike), h₁⟩
      split
      · intro hopen
        have hreport := S.report (.typeSystem word) h (Coupling.span h hc)
        exact ⟨.none, (skipDefinition_agree 0 (S.advance hreport hc) hopen).2⟩
      · exact fun _ => ⟨.none, S.advance (Coupling.missing h hc .definition) hc⟩

theorem definitionOf_agree (h : S.rel c c') (hc : S.Open c) (kind : TokenKind) :
    S.Agree (Option.Rel (Definition.Like place)) (definitionOf c kind) (definitionOf c' kind) := by
  have hnext := S.advance h hc
  fun_cases definitionOf c kind with
  | case1 =>
      have hbrace : (definitionOf c (.mark .openBrace)).1 = some _ := rfl
      exact (definitionOf_agree_of_some (Coupling.span h hc).start hnext hbrace).agree
  | case2 => exact fun _ => ⟨.none, hnext⟩
  | case3 => exact fun _ => ⟨.none, hnext⟩
  | case4 word => exact worded_agree h hc word
  | case5 =>
      rw [definitionOf]
      · exact fun _ => ⟨.none, S.advance (Coupling.missing h hc .definition) hc⟩
      all_goals assumption

theorem left_definitionOf_lt (hpos : 0 < c.left) : (definitionOf c c.kind).2.left < c.left := by
  rw [← definition_result c hpos]
  exact (definition c hpos).lt hpos

/-- **Coupled cursors read the same definitions.** -/
theorem definitions_agree (h : S.rel c c') :
    S.Agree (List.Forall₂ (Definition.Like place)) (definitions c).result (definitions c').result := by
  induction hn : c.left using Nat.strongRecOn generalizing c c' with
  | ind n ih =>
      refine Coupling.agree_of_open fun hc => ?_
      rw [definitions_result c, definitions_result c', S.atEnd h hc, Coupling.kind h hc]
      split
      · exact fun _ => ⟨.nil, h⟩
      · rename_i hstop
        intro hopen
        have hlt := left_definitionOf_lt (Cursor.left_pos_of_not_atEnd (by simpa using hstop) : 0 < c.left)
        obtain ⟨hfirst, h₁⟩ := definitionOf_agree h hc c.kind (Coupling.Open.before hopen)
        obtain ⟨hrest, h₂⟩ := ih _ (hn ▸ hlt) h₁ rfl hopen
        exact ⟨List.rel_append (Definition.Like.toList hfirst) hrest, h₂⟩

end Parser

end GraphClient
