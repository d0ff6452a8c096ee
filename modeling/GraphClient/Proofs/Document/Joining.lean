import GraphClient.Proofs.Document.Spacing

/-! Texts one behind the other. A line feed parts two texts: what stands in front of it is cut into
the same tokens as by itself, and what stands behind it too (`joined_feed`), unless the first text
holds a piece that is no token. -/

namespace GraphClient

/-- A line feed ends ignored text, be it a comment. -/
theorem Gap.feed {ends : Prop} {gap : List Char} (h : Gap ends gap) : Gap False (gap ++ ['\n']) := by
  induction h with
  | nil => exact .blank rfl .nil
  | blank hblank _ ih => exact .blank hblank ih
  | @comment body rest hbody _ ih =>
      rw [List.cons_append, List.append_assoc]
      exact .comment hbody ih
  | unclosed _ hbody => exact .comment hbody .nil

namespace Lexer

variable {c : Char} {cs rest gap : List Char} {p : Char → Bool} {place n n' : Nat}

/-- **More text behind the end** does not change how the first token is scanned. -/
theorem scan_before (hvalid : (scan c cs).kind ≠ .invalid) (hrest : Apart rest) :
    scan c (cs ++ rest) = ⟨(scan c cs).kind, (scan c cs).taken, (scan c cs).left ++ rest⟩ := by
  have hscans := scans_scan c cs
  generalize scan c cs = lexeme at hscans hvalid
  cases hscans with
  | mark hmark => exact (Scans.mark hmark).eq
  | spread => rfl
  | point => exact absurd rfl hvalid
  | other => exact absurd rfl hvalid
  | @block text =>
      have hkind := kind_block_of_valid hvalid
      have hagain := scanBlock_again hkind ((scanBlock text).left ++ rest)
      rw [← List.append_assoc, scanBlock_append] at hagain
      simp only [List.cons_append]
      rw [Scans.block.eq, hagain, hkind]
  | quoted hquotes =>
      have hkind := kind_quoted_of_valid hvalid
      have hagain := scanQuoted_again hkind ((scanQuoted cs).left ++ rest)
      rw [← List.append_assoc, scanQuoted_append] at hagain
      have hne : cs ≠ [] := by
        rintro rfl
        cases hkind
      rw [(Scans.quoted (hrest.not_quotes hne hquotes)).eq, hagain, hkind]
  | number hplain hstart =>
      exact (Scans.number hplain hstart).eq.trans (scanNumber_before hrest.numberEnds (c :: cs))
  | name hplain hnumber hstart =>
      exact (Scans.name hplain hnumber hstart).eq.trans (scanName_before hrest.namePart (c :: cs))

/-- Ignored text only moves the tokens behind it. -/
theorem tokensFrom_gap (h : Gap False gap) (place : Nat) (rest : List Char) :
    tokensFrom place (gap ++ rest) = tokensFrom (place + Text.byteLength gap) rest := by
  have hsplit := @splitIgnored_gap rest gap _ h False.elim
  rcases hrest : splitIgnored false rest with ⟨ignored, _ | ⟨c, tail⟩⟩
  · rw [hrest] at hsplit
    rw [tokensFrom_of_ignored hsplit, tokensFrom_of_ignored hrest, Text.byteLength_append, Nat.add_assoc]
  · rw [hrest] at hsplit
    rw [tokensFrom_of_kept hsplit, tokensFrom_of_kept hrest, Text.byteLength_append, ← Nat.add_assoc]

/-- A lexeme that is no token gives a token that is invalid. -/
theorem exists_invalid_of_tokensOf {lexeme : Lexeme} (h : lexeme.kind = .invalid) :
    ∃ t ∈ tokensOf place lexeme, t.kind = .invalid := by
  unfold tokensOf
  split
  · rename_i c _ _
    split
    · exact ⟨_, List.mem_singleton_self _, rfl⟩
    · obtain ⟨size, hsize⟩ := Nat.exists_eq_add_of_lt (Char.utf8Size_pos c)
      rw [hsize]
      exact ⟨_, List.mem_cons_self, rfl⟩
  · exact ⟨_, List.mem_singleton_self _, h⟩

theorem apart_feed (rest : List Char) : Apart ('\n' :: rest) := fun _ hc => by
  rw [← Option.mem_some.1 hc]
  rfl

/-- **A line feed parts two texts.** -/
theorem tokensFrom_feed (hvalid : ∀ t ∈ tokensFrom place cs, t.kind ≠ .invalid) (rest : List Char) :
    tokensFrom place (cs ++ '\n' :: rest) =
      (tokensFrom place cs).dropLast ++ tokensFrom (place + Text.byteLength cs + 1) rest := by
  induction hn : cs.length using Nat.strongRecOn generalizing place cs with
  | ind n ih =>
      have hgap := (gap_splitIgnored cs).1
      rcases next_cases cs with hnone | ⟨ignored, c, tail, hcs, hsplit, hlt⟩
      · rw [hnone] at hgap
        have hfeed := tokensFrom_gap hgap.feed place rest
        rw [List.append_assoc, Text.byteLength_append] at hfeed
        rw [tokensFrom_of_ignored hnone]
        exact hfeed
      · rw [hsplit] at hgap
        rw [tokensFrom_of_kept hsplit] at hvalid ⊢
        have hkind : (scan c tail).kind ≠ .invalid := fun hinvalid => by
          obtain ⟨t, ht, htkind⟩ := @exists_invalid_of_tokensOf (place + Text.byteLength ignored) _ hinvalid
          exact hvalid t (List.mem_append_left _ ht) htkind
        -- the first token and the gap in front of it are the same, and of what is left the same holds
        have hbefore := scan_before hkind (apart_feed rest)
        have hsplit' := @splitIgnored_gap (c :: (tail ++ '\n' :: rest)) _ _ hgap fun hnil =>
          absurd hnil (List.cons_ne_nil _ _)
        rw [splitIgnored_kept (kept_of_splitIgnored (congrArg Prod.snd hsplit)), List.append_nil] at hsplit'
        have hbytes : place + Text.byteLength cs = place + Text.byteLength ignored +
            Text.byteLength (scan c tail).taken + Text.byteLength (scan c tail).left := by
          rw [hcs, ← scan_append c tail, Text.byteLength_append, Text.byteLength_append,
            ← Nat.add_assoc, ← Nat.add_assoc]
        have hrest := ih _ (hn ▸ hlt) (fun t ht => hvalid t (List.mem_append_right _ ht)) rfl
        have hne : tokensFrom (place + Text.byteLength ignored + Text.byteLength (scan c tail).taken)
            (scan c tail).left ≠
            [] := by
          obtain ⟨init, hinit⟩ := tokensFrom_eq_append
            (place + Text.byteLength ignored + Text.byteLength (scan c tail).taken) (scan c tail).left
          rw [hinit]
          exact List.append_ne_nil_of_right_ne_nil _ (List.cons_ne_nil _ _)
        rw [List.dropLast_append_of_ne_nil hne, List.append_assoc, hbytes, ← hrest, hcs, List.append_assoc,
          List.cons_append, tokensFrom_of_kept hsplit', hbefore]
        rfl

/-- Wherever a text stands, it is cut into the same tokens. -/
theorem tokensFrom_alike (n n' : Nat) (cs : List Char) :
    List.Forall₂ Token.Alike (tokensFrom n cs) (tokensFrom n' cs) := by
  induction hn : cs.length using Nat.strongRecOn generalizing n n' cs with
  | ind count ih =>
      rcases next_cases cs with hnone | ⟨ignored, c, tail, -, hsplit, hlt⟩
      · rw [tokensFrom_of_ignored hnone, tokensFrom_of_ignored hnone]
        exact .cons ⟨rfl, rfl, trivial, trivial⟩ .nil
      · rw [tokensFrom_of_kept hsplit, tokensFrom_of_kept hsplit]
        refine List.rel_append ?_ (ih _ (hn ▸ hlt) _ _ _ rfl)
        refine (tokensOf_like (Moved.origin _ _ _) (Nat.le_refl _)).imp fun t t' hlike => ?_
        exact ⟨hlike.kind, hlike.text, trivial, trivial⟩

end Lexer

/-- That a text has the tokens of one text and behind them those of another one. -/
def Joined (first second source : String) : Prop :=
  List.Forall₂ Token.Alike ((tokenize first).dropLast ++ tokenize second) (tokenize source)

/-- The ends of the texts left out. -/
theorem Joined.dropLast {first second source : String} (h : Joined first second source) :
    List.Forall₂ Token.Alike ((tokenize first).dropLast ++ (tokenize second).dropLast)
      (tokenize source).dropLast := by
  have hne : tokenize second ≠ [] := by
    obtain ⟨init, hinit⟩ := Lexer.tokensFrom_eq_append 0 second.toList
    rw [tokenize, hinit]
    exact List.append_ne_nil_of_right_ne_nil _ (List.cons_ne_nil _ _)
  rw [← List.dropLast_append_of_ne_nil hne, @List.dropLast_eq_take _ (_ ++ _), List.Forall₂.length_eq h,
    @List.dropLast_eq_take _ (tokenize source)]
  exact List.forall₂_take _ h

/-- **Two texts with a line feed between them have the tokens of both.** -/
theorem joined_feed {first : String} (hvalid : ∀ t ∈ tokenize first, t.kind ≠ .invalid) (second : String) :
    Joined first second (first ++ "\n" ++ second) := by
  have hsource : (first ++ "\n" ++ second).toList = first.toList ++ '\n' :: second.toList := by
    simp
  rw [Joined, tokenize, tokenize, tokenize, hsource, Lexer.tokensFrom_feed hvalid]
  refine List.rel_append ?_ (Lexer.tokensFrom_alike ..)
  exact List.forall₂_same.2 fun t _ => ⟨rfl, rfl, trivial, trivial⟩

end GraphClient
