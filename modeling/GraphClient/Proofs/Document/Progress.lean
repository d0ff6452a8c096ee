import GraphClient.Proofs.Document.Calls
import GraphClient.Proofs.Document.Covering
import Mathlib.Logic.Relation

/-! Reading ends. What a call needs, counted in tokens left and, from one cursor, in calls that are
still to come, is more than what any call within it needs (`body_descends`). So a function that comes
back to itself has taken a token since, every loop ends where the text does, and a call is evaluated
with so much fuel (`evaluate_eq`); from the start of a text this takes its tokens one by one, each of
them once (`parse_progress`). -/

namespace GraphClient

/-! ### Onward steps -/

namespace Cursor

variable {c d : Cursor}

theorem Onward.left_le (h : c.Onward d) : d.left ≤ c.left := h.tokens.length_le

theorem kind_of_atEnd (hend : c.atEnd = true) : c.kind = .finish := by
  rw [atEnd, List.isEmpty_iff] at hend
  rw [kind, current, hend]
  rfl

theorem onward_advance (c : Cursor) : c.Onward c.advance := ⟨List.tail_suffix _, rfl, List.prefix_rfl⟩

theorem onward_report (c : Cursor) (fault : SyntaxFault) (span : Span) : c.Onward (c.report fault span) :=
  ⟨List.suffix_rfl, rfl, List.prefix_append _ _⟩

theorem onward_missing (c : Cursor) (wanted : Wanted) : c.Onward (c.missing wanted) := onward_report ..

theorem onward_expect (c : Cursor) (kind : TokenKind) : c.Onward (c.expect kind) := by
  unfold expect
  split
  · exact onward_advance c
  · exact onward_report ..

theorem upTo_eq {taken : List Token} (h : c.tokens = taken ++ d.tokens) : c.upTo d = taken := by
  have hlength := congrArg List.length h
  rw [List.length_append] at hlength
  have hcount : c.left - d.left = taken.length := by
    rw [left, left, hlength, Nat.add_sub_cancel]
  rw [upTo, hcount, h, List.take_left]

theorem upTo_append_upTo {e : Cursor} (h : c.Onward d) (h' : d.Onward e) :
    c.upTo d ++ d.upTo e = c.upTo e := by
  obtain ⟨taken, htaken⟩ := h.tokens
  obtain ⟨taken', htaken'⟩ := h'.tokens
  have hall : c.tokens = taken ++ taken' ++ e.tokens := by rw [List.append_assoc, htaken', htaken]
  rw [upTo_eq htaken.symm, upTo_eq htaken'.symm, upTo_eq hall]

end Cursor

namespace Parser

open Cursor (onward_advance onward_report onward_missing onward_expect left_pos_of_at? left_pos_of_not_atEnd)

variable {c d here : Cursor} {f g : Call} {n : Nat} {β : Type}

theorem left_pos_of_more {kind : TokenKind} (h : ¬(c.at? kind || c.atEnd) = true) : 0 < c.left :=
  left_pos_of_not_atEnd (Bool.or_eq_false_iff.1 (Bool.eq_false_iff.2 h)).2

theorem left_advance_lt_of_at? {kind : TokenKind} (h : c.at? kind = true) (hkind : kind ≠ .finish) :
    c.advance.left < c.left := Cursor.left_advance_lt (left_pos_of_at? h hkind)

theorem onward_name (c : Cursor) : c.Onward (name c).result.2 := by
  rw [name_result]
  split
  · exact onward_advance c
  · exact onward_missing ..

theorem onward_keyedName (first : Name) (c : Cursor) : c.Onward (keyedName first c).result.2 := by
  rw [keyedName_result]
  split
  · exact (onward_advance c).trans (onward_name _)
  · exact .refl c

/-! ### What a call needs -/

namespace Call

/-- How many calls may be nested from one cursor before a token is taken. -/
def rank : Call → Nat
  | operation _ _ => 5
  | operationBody _ _ _ | fragment _ => 4
  | selectionSet => 3
  | openedSet _ => 2
  | definitions | variableDefinition _ | selections | literalList | literalFields => 1
  | _ => 0

/-- How deep calls are nested at most within a call. -/
def need (f : Call) (c : Cursor) : Nat := 6 * c.left + f.rank

theorem rank_le (f : Call) : f.rank ≤ 5 := by
  unfold rank
  split <;> decide

theorem need_lt_of_left (h : d.left < c.left) : g.need d < f.need c := by
  have hrank := g.rank_le
  unfold need
  omega

theorem need_lt_of_rank (hrank : g.rank < f.rank) (h : d.left ≤ c.left) : g.need d < f.need c := by
  unfold need
  omega

theorem left_lt_of_need (hrank : g.rank = f.rank) (h : g.need d < f.need c) : d.left < c.left := by
  unfold need at h
  omega

theorem left_run_le (f : Call) (c : Cursor) : (f.run c).2.left ≤ c.left := by
  cases f with
  | definition =>
      cases hend : c.atEnd with
      | false => exact Nat.le_of_lt (left_definitionOf_lt (left_pos_of_not_atEnd hend))
      | true =>
          rw [run, Cursor.kind_of_atEnd hend]
          exact ((onward_missing c _).trans (onward_advance _)).left_le
  | definitions => exact (Parser.definitions c).le
  | skipDefinition depth => exact (Parser.skipDefinition depth c).le
  | operation start kind => exact (Parser.operation start kind c).le
  | operationBody start kind target => exact (Parser.operationBody start kind target c).le
  | fragment start => exact (Parser.fragment start c).le
  | variableDefinitions => exact (Parser.variableDefinitions c).le
  | variableList => exact (Parser.variableList c).le
  | variableDefinition start => exact (Parser.variableDefinition start c).le
  | defaultLiteral => exact (Parser.defaultLiteral c).le
  | typeExpr => exact (Parser.typeExpr c).le
  | selectionSet => exact (Parser.selectionSet c).le
  | openedSet start => exact (Parser.openedSet start c).le
  | selections => exact (Parser.selections c).le
  | selection => exact (Parser.selection c).le
  | arguments => exact (Parser.arguments c).le
  | argumentList => exact (Parser.argumentList c).le
  | directives => exact (Parser.directives c).le
  | literal => exact (Parser.literal c).le
  | literalList => exact (Parser.literalList c).le
  | literalFields => exact (Parser.literalFields c).le

end Call

/-- That a script goes onward from a cursor, and calls nothing that needs as much as `n`. -/
def Script.Descends (n : Nat) : Cursor → Script β → Prop
  | here, .done _ c => here.Onward c
  | here, .call f c next => here.Onward c ∧ f.need c < n ∧
      (next (f.run c).1 (f.run c).2).Descends n (f.run c).2

theorem wordedBody_descends {word : Keyword} (hkind : c.kind = .keyword word) :
    (wordedBody c word).Descends (Call.definition.need c) c := by
  have hpos := Cursor.left_pos_of_kind hkind (by simp)
  have hlt := Cursor.left_advance_lt hpos
  unfold wordedBody
  split
  · exact ⟨onward_advance c, Call.need_lt_of_left hlt, .refl _⟩
  · split
    · exact ⟨onward_advance c, Call.need_lt_of_left hlt, .refl _⟩
    · split
      · have hreport := (onward_report c (.typeSystem word) c.current.span).trans (onward_advance _)
        exact ⟨hreport, Call.need_lt_of_left (@Cursor.left_advance_lt (c.report _ _) hpos), .refl _⟩
      · exact (onward_missing c _).trans (onward_advance _)

theorem definitionBody_descends {kind : TokenKind} (hkind : c.kind = kind) :
    (definitionBody c kind).Descends (Call.definition.need c) c := by
  fun_cases definitionBody c kind with
  | case1 =>
      have hlt := Cursor.left_advance_lt (Cursor.left_pos_of_kind hkind (by simp))
      exact ⟨onward_advance c, Call.need_lt_of_left hlt, .refl _⟩
  | case2 => exact onward_advance c
  | case3 => exact onward_advance c
  | case4 word => exact wordedBody_descends hkind
  | case5 => exact (onward_missing c _).trans (onward_advance _)

theorem literalBody_descends {kind : TokenKind} (hkind : c.kind = kind) :
    (literalBody c kind).Descends (Call.literal.need c) c := by
  fun_cases literalBody c kind with
  | case1 =>
      have hlt := Cursor.left_advance_lt (Cursor.left_pos_of_kind hkind (by simp))
      exact ⟨onward_advance c, Call.need_lt_of_left hlt, onward_expect ..⟩
  | case2 =>
      have hlt := Cursor.left_advance_lt (Cursor.left_pos_of_kind hkind (by simp))
      exact ⟨onward_advance c, Call.need_lt_of_left hlt, onward_expect ..⟩
  | case3 =>
      have honward := (literal_agree c.onward_rel (Nat.zero_le _)).2.2
      rwa [literal_result, hkind] at honward

theorem bangBody_descends (start : Nat) (type : TypeExpr) (h : here.Onward c) :
    (bangBody start type c).Descends n here := by
  unfold bangBody
  split
  · exact h.trans (onward_advance c)
  · exact h

theorem spreadBody_descends (start : Nat) (h : c.Onward d) (hlt : d.left < c.left) :
    (spreadBody start d).Descends (Call.selection.need c) c := by
  have hnext : ∀ {e}, d.Onward e → c.Onward e ∧ e.left < c.left := fun he =>
    ⟨h.trans he, Nat.lt_of_le_of_lt he.left_le hlt⟩
  have hset : ∀ {e} (g : Call), e.left < c.left → Call.selectionSet.need (g.run e).2 <
      Call.selection.need c :=
    fun g he => Call.need_lt_of_left (Nat.lt_of_le_of_lt (g.left_run_le _) he)
  unfold spreadBody
  split
  · obtain ⟨hcondition, hless⟩ := hnext ((onward_advance d).trans (onward_name _))
    exact ⟨hcondition, Call.need_lt_of_left hless, .refl _, hset .directives hless, .refl _⟩
  · split
    · exact ⟨h, Call.need_lt_of_left hlt, .refl _, hset .directives hlt, .refl _⟩
    · obtain ⟨htarget, hless⟩ := hnext (onward_name d)
      exact ⟨htarget, Call.need_lt_of_left hless, .refl _⟩

theorem fieldBody_descends (hname : c.kind.isName = true) :
    (fieldBody c).Descends (Call.selection.need c) c := by
  have htarget := (onward_name c).trans (onward_keyedName (name c).result.1 _)
  have hlt := Nat.lt_of_le_of_lt (onward_keyedName (name c).result.1 _).left_le (name_next_lt hname)
  have hlist := Nat.lt_of_le_of_lt (Call.left_run_le .arguments _) hlt
  have hmarks := Nat.lt_of_le_of_lt (Call.left_run_le .directives _) hlist
  refine ⟨htarget, Call.need_lt_of_left hlt, .refl _, Call.need_lt_of_left hlist, ?_⟩
  dsimp only
  split
  · exact ⟨.refl _, Call.need_lt_of_left hmarks, .refl _⟩
  · exact .refl _

/-- A function that repeats itself: an item takes a token, then the rest is left to the function. -/
theorem repeat_descends {item : Call} {next : item.Value → f.Value → Cursor → β}
    (h : c.Onward d) (hrank : item.rank < f.rank) (hlt : (item.run d).2.left < c.left) :
    (Script.call item d fun first c₁ => .call f c₁ fun rest c₂ => .done (next first rest c₂) c₂).Descends
      (f.need c) c :=
  ⟨h, Call.need_lt_of_rank hrank h.left_le, .refl _, Call.need_lt_of_left hlt, .refl _⟩

/-- A function that takes an opening mark and leaves what is behind it to another one. -/
theorem opened_descends {mark : Mark} {next : g.Value → Cursor → Script β} (hat : c.at? (.mark mark) = true)
    (hnext : (next (g.run c.advance).1 (g.run c.advance).2).Descends (f.need c) (g.run c.advance).2) :
    (Script.call g c.advance next).Descends (f.need c) c :=
  ⟨onward_advance c, Call.need_lt_of_left (left_advance_lt_of_at? hat (by simp)), hnext⟩

theorem definitions_descends (c : Cursor) : (body .definitions c).Descends (Call.definitions.need c) c := by
  rw [body]
  split
  · exact .refl c
  · rename_i hend
    have hlt := left_definitionOf_lt (left_pos_of_not_atEnd (Bool.eq_false_iff.2 hend))
    exact repeat_descends (.refl c) (by decide) hlt

theorem skipDefinition_descends (depth : Nat) (c : Cursor) :
    (body (.skipDefinition depth) c).Descends ((Call.skipDefinition depth).need c) c := by
  rw [body]
  split
  · exact .refl c
  · rename_i hend
    have hlt := Cursor.left_advance_lt (left_pos_of_not_atEnd (Bool.eq_false_iff.2 hend))
    have hnext : ∀ depth', (Script.call (.skipDefinition depth') c.advance .done).Descends
        ((Call.skipDefinition depth).need c) c :=
      fun _ => ⟨onward_advance c, Call.need_lt_of_left hlt, .refl _⟩
    split
    · exact hnext _
    · split
      · split
        · exact onward_advance c
        · exact hnext _
      · split
        · exact .refl c
        · exact hnext _

/-- Nothing needs to be taken before the call, and neither where a name may be missing: the rank falls
instead. -/
theorem operation_descends (start : Nat) (kind : OperationKind) (c : Cursor) :
    (body (.operation start kind) c).Descends ((Call.operation start kind).need c) c := by
  rw [body]
  split
  · exact ⟨onward_name c, Call.need_lt_of_rank (by decide : 4 < 5) (name c).le, .refl _⟩
  · exact ⟨.refl c, Call.need_lt_of_rank (by decide : 4 < 5) (Nat.le_refl _), .refl _⟩

theorem operationBody_descends (start : Nat) (kind : OperationKind) (target : Option Name) (c : Cursor) :
    (body (.operationBody start kind target) c).Descends
      ((Call.operationBody start kind target).need c) c := by
  have hlist := Call.left_run_le .variableDefinitions c
  have hmarks := Call.left_run_le .directives (Call.run .variableDefinitions c).2
  exact ⟨.refl c, Call.need_lt_of_rank (by decide : 0 < 4) (Nat.le_refl _),
    .refl _, Call.need_lt_of_rank (by decide : 0 < 4) hlist,
    .refl _, Call.need_lt_of_rank (by decide : 3 < 4) (Nat.le_trans hmarks hlist), .refl _⟩

theorem fragment_descends (start : Nat) (c : Cursor) :
    (body (.fragment start) c).Descends ((Call.fragment start).need c) c := by
  have hcondition := ((onward_name c).trans (onward_expect _ (.keyword .on))).trans (onward_name _)
  have hmarks := Nat.le_trans (Call.left_run_le .directives _) hcondition.left_le
  exact ⟨hcondition, Call.need_lt_of_rank (by decide : 0 < 4) hcondition.left_le,
    .refl _, Call.need_lt_of_rank (by decide : 3 < 4) hmarks, .refl _⟩

theorem variableList_descends (c : Cursor) :
    (body .variableList c).Descends (Call.variableList.need c) c := by
  rw [body]
  split
  · exact .refl c
  · rename_i hend
    have hlt := Cursor.left_advance_lt (left_pos_of_more hend)
    split
    · exact ⟨onward_advance c, Call.need_lt_of_left hlt,
        .refl _, Call.need_lt_of_left (Nat.lt_of_le_of_lt (Call.left_run_le _ _) hlt), .refl _⟩
    · -- the dollar is missed, and what stands there is skipped
      have hpos := left_pos_of_more hend
      have hexpect := c.left_expect_le (.mark .dollar)
      have hskip : (c.expect (.mark .dollar)).advance.left < c.left := by
        rw [Cursor.left_advance]
        omega
      exact ⟨(onward_expect ..).trans (onward_advance _), Call.need_lt_of_left hskip, .refl _⟩

theorem variableDefinition_descends (start : Nat) (c : Cursor) :
    (body (.variableDefinition start) c).Descends ((Call.variableDefinition start).need c) c := by
  have htarget := (onward_name c).trans (onward_expect _ (.mark .colon))
  have htype := Nat.le_trans (Call.left_run_le .typeExpr _) htarget.left_le
  have hdefault := Nat.le_trans (Call.left_run_le .defaultLiteral _) htype
  exact ⟨htarget, Call.need_lt_of_rank (by decide : 0 < 1) htarget.left_le,
    .refl _, Call.need_lt_of_rank (by decide : 0 < 1) htype,
    .refl _, Call.need_lt_of_rank (by decide : 0 < 1) hdefault, .refl _⟩

theorem typeExpr_descends (c : Cursor) : (body .typeExpr c).Descends (Call.typeExpr.need c) c := by
  rw [body]
  split
  · exact opened_descends ‹_› (bangBody_descends _ _ (onward_expect ..))
  · exact bangBody_descends _ _ (onward_name c)

theorem openedSet_descends (start : Nat) (c : Cursor) :
    (body (.openedSet start) c).Descends ((Call.openedSet start).need c) c := by
  refine ⟨.refl c, Call.need_lt_of_rank (by decide : 1 < 2) (Nat.le_refl _), ?_⟩
  dsimp only [Script.Descends]
  split
  · exact (onward_expect ..).trans (onward_report ..)
  · exact onward_expect ..

theorem selections_descends (c : Cursor) : (body .selections c).Descends (Call.selections.need c) c := by
  rw [body]
  split
  · exact .refl c
  · exact repeat_descends (.refl c) (by decide) ((selection c).lt (left_pos_of_more ‹_›))

theorem selection_descends (c : Cursor) : (body .selection c).Descends (Call.selection.need c) c := by
  rw [body]
  split
  · rename_i hat
    exact spreadBody_descends _ (onward_advance c) (left_advance_lt_of_at? hat (by decide))
  · split
    · exact fieldBody_descends ‹_›
    · exact (onward_missing c _).trans (onward_advance _)

theorem argumentList_descends (c : Cursor) :
    (body .argumentList c).Descends (Call.argumentList.need c) c := by
  rw [body]
  split
  · exact .refl c
  · rename_i hend
    split
    · rename_i hname
      have htarget := (onward_name c).trans (onward_expect _ (.mark .colon))
      have hlt := Nat.lt_of_le_of_lt (onward_expect (name c).result.2 (.mark .colon)).left_le
        (name_next_lt hname)
      exact ⟨htarget, Call.need_lt_of_left hlt,
        .refl _, Call.need_lt_of_left (Nat.lt_of_le_of_lt (Call.left_run_le .literal _) hlt), .refl _⟩
    · exact ⟨(onward_missing c _).trans (onward_advance _),
        Call.need_lt_of_left (Cursor.left_missing_advance_lt _ (left_pos_of_more hend)), .refl _⟩

theorem directives_descends (c : Cursor) : (body .directives c).Descends (Call.directives.need c) c := by
  rw [body]
  split
  · rename_i hat
    have htarget := (onward_advance c).trans (onward_name _)
    have hlt := Nat.lt_of_le_of_lt (onward_name _).left_le (left_advance_lt_of_at? hat (by decide))
    exact ⟨htarget, Call.need_lt_of_left hlt,
      .refl _, Call.need_lt_of_left (Nat.lt_of_le_of_lt (Call.left_run_le .arguments _) hlt), .refl _⟩
  · exact .refl c

theorem literalList_descends (c : Cursor) : (body .literalList c).Descends (Call.literalList.need c) c := by
  rw [body]
  split
  · exact .refl c
  · exact repeat_descends (.refl c) (by decide) ((literal c).lt (left_pos_of_more ‹_›))

theorem literalFields_descends (c : Cursor) :
    (body .literalFields c).Descends (Call.literalFields.need c) c := by
  rw [body]
  split
  · exact .refl c
  · rename_i hend
    have hpos := left_pos_of_more hend
    have hfield := (onward_name c).trans (onward_expect _ (.mark .colon))
    -- name and colon may both be missing; then the literal takes a token, as one is left
    have hlt : (literal ((name c).result.2.expect (.mark .colon))).next.left < c.left := by
      rcases Nat.eq_zero_or_pos ((name c).result.2.expect (.mark .colon)).left with hzero | hmore
      · exact Nat.lt_of_le_of_lt (hzero ▸ (literal _).le) hpos
      · exact Nat.lt_of_lt_of_le ((literal _).lt hmore) hfield.left_le
    exact repeat_descends hfield (by decide) hlt

/-- **Every call within a call needs less than it.** -/
theorem body_descends (f : Call) (c : Cursor) : (body f c).Descends (f.need c) c := by
  cases f with
  | definitions => exact definitions_descends c
  | definition => exact definitionBody_descends rfl
  | skipDefinition depth => exact skipDefinition_descends depth c
  | operation start kind => exact operation_descends start kind c
  | operationBody start kind target => exact operationBody_descends start kind target c
  | fragment start => exact fragment_descends start c
  | variableDefinitions =>
      rw [body]
      split
      · exact opened_descends ‹_› (onward_expect ..)
      · exact .refl c
  | variableList => exact variableList_descends c
  | variableDefinition start => exact variableDefinition_descends start c
  | defaultLiteral =>
      rw [body]
      split
      · exact opened_descends ‹_› (.refl _)
      · exact .refl c
  | typeExpr => exact typeExpr_descends c
  | selectionSet =>
      have hopened := onward_expect c (.mark .openBrace)
      exact ⟨hopened, Call.need_lt_of_rank (by decide : 2 < 3) hopened.left_le, .refl _⟩
  | openedSet start => exact openedSet_descends start c
  | selections => exact selections_descends c
  | selection => exact selection_descends c
  | arguments =>
      rw [body]
      split
      · exact opened_descends ‹_› (onward_expect ..)
      · exact .refl c
  | argumentList => exact argumentList_descends c
  | directives => exact directives_descends c
  | literal => exact literalBody_descends rfl
  | literalList => exact literalList_descends c
  | literalFields => exact literalFields_descends c

/-! ### What a descending script does -/

namespace Script

variable {s : Script β}

/-- All that a script calls needs less. -/
theorem Descends.need_lt (h : s.Descends n here) : ∀ r ∈ s.calls, r.1.need r.2 < n := by
  induction s generalizing here with
  | done => exact nofun
  | call f c next ih => exact List.forall_mem_cons.2 ⟨h.2.1, ih _ _ h.2.2⟩

variable (honward : ∀ (g : Call) (d : Cursor), g.need d < n → d.Onward (g.run d).2)
include honward

theorem Descends.onward (h : s.Descends n here) : here.Onward s.run.2 := by
  induction s generalizing here with
  | done => exact h
  | call f c next ih => exact (h.1.trans (honward f c h.2.1)).trans (ih _ _ h.2.2)

/-- A script makes its calls from cursors that it comes to. -/
theorem Descends.onward_calls (h : s.Descends n here) : ∀ r ∈ s.calls, here.Onward r.2 := by
  induction s generalizing here with
  | done => exact nofun
  | call f c next ih =>
      refine List.forall_mem_cons.2 ⟨h.1, fun r hr => ?_⟩
      exact (h.1.trans (honward f c h.2.1)).trans (ih _ _ h.2.2 r hr)

/-- Answered with what the reader gives, a script takes all the tokens that it passes. -/
theorem Descends.answer_eq {oracle : (f : Call) → Cursor → Option (f.Value × Cursor × List Token)}
    (horacle : ∀ g d, g.need d < n → oracle g d = some ((g.run d).1, (g.run d).2, d.upTo (g.run d).2))
    (h : s.Descends n here) : s.answer oracle here = some (s.run.1, s.run.2, here.upTo s.run.2) := by
  induction s generalizing here with
  | done => rfl
  | call f c next ih =>
      have hcalled := honward f c h.2.1
      have hrest := Descends.onward honward h.2.2
      rw [answer, horacle f c h.2.1]
      dsimp only [Option.bind_eq_bind, Option.bind_some]
      rw [ih _ _ h.2.2]
      dsimp only [Option.bind_some]
      rw [Cursor.upTo_append_upTo h.1 hcalled, Cursor.upTo_append_upTo (h.1.trans hcalled) hrest]
      rfl

end Script

/-- **A call goes onward.** -/
theorem run_onward (f : Call) (c : Cursor) : c.Onward (f.run c).2 := by
  induction hn : f.need c using Nat.strongRecOn generalizing f c with
  | ind n ih =>
      rw [← body_run]
      exact (body_descends f c).onward fun g d hless => ih _ (hn ▸ hless) g d rfl

/-- **A call is evaluated** with as much fuel as it needs, and takes all the tokens that it passes. -/
theorem evaluate_eq {fuel : Nat} (f : Call) (c : Cursor) (h : f.need c < fuel) :
    evaluate fuel f c = some ((f.run c).1, (f.run c).2, c.upTo (f.run c).2) := by
  induction fuel generalizing f c with
  | zero => exact absurd h (Nat.not_lt_zero _)
  | succ fuel ih =>
      rw [← body_run, evaluate]
      refine (body_descends f c).answer_eq (fun g d _ => run_onward g d) fun g d hless => ih g d ?_
      omega

/-! ### Calls within calls -/

/-- That the reader calls a function from a cursor while it runs another one. -/
def Enters (r r' : Call × Cursor) : Prop := r' ∈ (body r.1 r.2).calls

theorem Enters.onward {r r' : Call × Cursor} (h : Enters r r') : r.2.Onward r'.2 :=
  (body_descends r.1 r.2).onward_calls (fun g d _ => run_onward g d) r' h

theorem need_lt_of_transGen {r r' : Call × Cursor} (h : Relation.TransGen Enters r r') :
    r'.1.need r'.2 < r.1.need r.2 := by
  induction h with
  | single h => exact (body_descends _ _).need_lt _ h
  | tail _ h ih => exact Nat.lt_trans ((body_descends _ _).need_lt _ h) ih

theorem onward_of_reflTransGen {r r' : Call × Cursor} (h : Relation.ReflTransGen Enters r r') :
    r.2.Onward r'.2 := by
  induction h with
  | refl => exact .refl _
  | tail _ h ih => exact ih.trans h.onward

/-- At the end of the text nothing is repeated. -/
theorem body_of_atEnd (hloop : f.isLoop = true) (hend : c.atEnd = true) :
    (body f c).calls = [] ∧ (f.run c).2 = c := by
  have hstop : ∀ kind, (c.at? kind || c.atEnd) = true := fun kind => by rw [hend, Bool.or_true]
  rw [← body_run]
  cases f with
  | definitions => rw [body, if_pos hend]; exact ⟨rfl, rfl⟩
  | skipDefinition => rw [body, if_pos hend]; exact ⟨rfl, rfl⟩
  | variableList => rw [body, if_pos (hstop _)]; exact ⟨rfl, rfl⟩
  | selections => rw [body, if_pos (hstop _)]; exact ⟨rfl, rfl⟩
  | argumentList => rw [body, if_pos (hstop _)]; exact ⟨rfl, rfl⟩
  | literalList => rw [body, if_pos (hstop _)]; exact ⟨rfl, rfl⟩
  | literalFields => rw [body, if_pos (hstop _)]; exact ⟨rfl, rfl⟩
  | directives =>
      have hsign : ¬c.at? (.mark .atSign) = true := by
        rw [Cursor.at?, Cursor.kind_of_atEnd hend]
        decide
      rw [body, if_neg hsign]
      exact ⟨rfl, rfl⟩
  | _ => cases hloop

/-- Reading definitions goes on to the end of the text. -/
theorem tokens_definitions (c : Cursor) : (definitions c).result.2.tokens = [] := by
  induction hn : c.left using Nat.strongRecOn generalizing c with
  | ind n ih =>
      rw [definitions_result]
      split
      · rename_i hend
        exact List.isEmpty_iff.1 hend
      · rename_i hend
        have hlt := left_definitionOf_lt (left_pos_of_not_atEnd (Bool.eq_false_iff.2 hend))
        exact ih _ (hn ▸ hlt) _ rfl

end Parser

/-! ### The calls within a text -/

/-- The cursor in front of a text. -/
def Cursor.ofSource (source : String) : Cursor :=
  .start (tokenize source).dropLast ((tokenize source).getLast?.getD (.finish 0)).span.stop

/-- That the text of a token without so many quotes at both ends is cut out of
the source between characters. -/
def Token.Body (source : String) (quotes : Nat) (t : Token) : Prop := ∃ body after,
  2 * quotes ≤ t.span.stop - t.span.start ∧
  (⟨t.span.start + quotes, t.span.stop - quotes⟩ : Span).Covers source.toList body after ∧
  LiteralText.strip quotes t.text.toList = body

/-- That a token gives the slices that the reader takes of it. -/
structure Token.Sliced (source : String) (t : Token) : Prop where
  text : t.kind ≠ .invalid → ∃ after, t.span.Covers source.toList t.text.toList after
  string : t.kind = .string → t.Body source 1
  blockString : t.kind = .blockString → t.Body source 3

/-- That reading a text calls a function from a cursor. -/
def Parser.Calls (source : String) (f : Call) (c : Cursor) : Prop :=
  Relation.ReflTransGen Enters (.definitions, .ofSource source) (f, c)

/-- How reading a text goes on. -/
structure Progress (source : String) : Prop where
  /-- Reading ends, with calls nested at most six times as deep as there are tokens, and has then taken every
  token of the text once, in their order. -/
  ends : ∃ next, Parser.evaluate (6 * (tokenize source).length) .definitions (.ofSource source) =
      some ((parseDocument source).document.definitions, next, (tokenize source).dropLast) ∧
    next.diagnostics = (parseDocument source).diagnostics
  /-- Where a function is called again within a call of it, be it to repeat something, it has fewer
  tokens left. Calls of one function have one rank. -/
  descends : ∀ f c g d, Parser.Calls source f c →
    Relation.TransGen Parser.Enters (f, c) (g, d) → g.rank = f.rank →
    d.left < c.left
  /-- What repeats something is over at the end of the text. -/
  stops : ∀ f c, Parser.Calls source f c → f.isLoop = true → c.atEnd = true →
    (Parser.body f c).calls = [] ∧ (f.run c).2 = c
  /-- What is cut out of the text stands between characters. -/
  slices : ∀ f c, Parser.Calls source f c → c.current.Sliced source

theorem strip_quotes (quotes body : List Char) :
    LiteralText.strip quotes.length (quotes ++ (body ++ quotes)) = body := by
  have hlength : (quotes ++ (body ++ quotes)).length - 2 * quotes.length = body.length := by
    rw [List.length_append, List.length_append]
    omega
  rw [LiteralText.strip, hlength, List.drop_left, List.take_left]

/-- What stands between the quotes of a token is cut out of the text if the token is. -/
theorem Token.Cut.body {source : String} {t : Token} (h : t.Cut source.toList) (hvalid : t.kind ≠ .invalid)
    {quotes body : List Char} (htext : t.text.toList = quotes ++ (body ++ quotes))
    (hquotes : Text.byteLength quotes = quotes.length) : t.Body source quotes.length := by
  obtain ⟨after, before, hsource, hspan⟩ := h.piece hvalid
  have hlength : Text.byteLength t.text.toList = quotes.length + (Text.byteLength body + quotes.length) := by
    rw [htext, Text.byteLength_append, Text.byteLength_append, hquotes]
  rw [hlength] at hspan
  refine ⟨body, quotes ++ after, ?_, ⟨before ++ quotes, ?_, ?_⟩, ?_⟩
  · rw [hspan]
    dsimp only
    omega
  · rw [hsource, htext]
    simp only [List.append_assoc]
  · rw [hspan, Text.byteLength_append, hquotes, Span.mk.injEq]
    dsimp only
    omega
  · rw [htext, strip_quotes]

theorem Token.Cut.sliced {source : String} {t : Token} (h : t.Cut source.toList) : t.Sliced source where
  text := h.piece
  string hkind := by
    obtain ⟨body, htext⟩ := h.string hkind
    exact @Token.Cut.body source t h (by rw [hkind]; nofun) ['"'] body htext rfl
  blockString hkind := by
    obtain ⟨body, htext⟩ := h.blockString hkind
    exact @Token.Cut.body source t h (by rw [hkind]; nofun) ['"', '"', '"'] body htext rfl

/-- Wherever reading comes to, the current token is one of the text. -/
theorem Cursor.current_mem {source : String} {c : Cursor} (h : (Cursor.ofSource source).Onward c) :
    c.current ∈ tokenize source := by
  obtain ⟨init, hinit, -⟩ := (tokenize_covers source).finish
  have htokens := h.tokens
  have hsize := h.size
  rw [ofSource, start, hinit, List.dropLast_concat] at htokens
  rw [ofSource, start, hinit, List.getLast?_concat] at hsize
  rw [hinit, current]
  cases hc : c.tokens with
  | nil =>
      rw [hsize]
      exact List.mem_append_right _ List.mem_cons_self
  | cons t rest =>
      rw [hc] at htokens
      exact List.mem_append_left _ (htokens.subset List.mem_cons_self)

/-- **Reading a text ends**, however malformed it is, and takes no token twice. -/
theorem parse_progress (source : String) : Progress source := by
  obtain ⟨init, hinit, -⟩ := (tokenize_covers source).finish
  have htokens : (Cursor.ofSource source).tokens = (tokenize source).dropLast := rfl
  have hneed : Parser.Call.definitions.need (.ofSource source) < 6 * (tokenize source).length := by
    rw [Parser.Call.need, Cursor.left, htokens, hinit, List.dropLast_concat, List.length_append,
      List.length_singleton]
    change 6 * init.length + 1 < 6 * (init.length + 1)
    omega
  have htaken : (Cursor.ofSource source).upTo (Parser.Call.definitions.run (.ofSource source)).2 =
      (tokenize source).dropLast :=
    Cursor.upTo_eq (by rw [Parser.Call.run, Parser.tokens_definitions, List.append_nil, htokens])
  have hends := Parser.evaluate_eq .definitions (.ofSource source) hneed
  rw [htaken] at hends
  exact {
    ends := ⟨_, hends, rfl⟩
    descends := fun f c g d _ hwithin hrank =>
      Parser.Call.left_lt_of_need hrank (Parser.need_lt_of_transGen hwithin)
    stops := fun f c _ hloop hend => Parser.body_of_atEnd hloop hend
    slices := fun f c hreached =>
      ((tokenize_covers source).cut _ (Cursor.current_mem (Parser.onward_of_reflTransGen hreached))).sliced }

end GraphClient
