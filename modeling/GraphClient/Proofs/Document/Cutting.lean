import GraphClient.Proofs.Document.Joining
import GraphClient.Proofs.Document.Derivation

/-! Cutting a stretch of tokens out of a text. The text from the first token of the stretch to the
last one gives the same tokens by itself, though nothing parts it any more from what stood behind it
(`exists_cut`); and so a value that is cut out is read as the same value. -/

namespace GraphClient

theorem forall₂_of_concat {α β : Type} {R : α → β → Prop} {xs : List α} {ys : List β} {x : α} {y : β}
    (h : List.Forall₂ R (xs ++ [x]) (ys ++ [y])) : List.Forall₂ R xs ys := by
  have hlength := h.length_eq
  rw [List.length_append, List.length_append, List.length_singleton, List.length_singleton] at hlength
  have htake := List.forall₂_take xs.length h
  rwa [List.take_left' rfl, List.take_left' (Nat.succ.inj hlength).symm] at htake

namespace Lexer

variable {c : Char} {w after l cs : List Char} {p : Char → Bool} {place : Nat} {t last : Token}
  {pre post : List Token}

/-! A scanner that stops in front of `after`, or earlier, stops there without it as well. -/

/-- Nothing is taken of a text that is left whole. -/
theorem cut_nil {taken left : List Char} (happend : taken ++ left = after) (h : left = l ++ after) :
    taken = [] ∧ l = [] := by
  rw [h, ← List.append_assoc] at happend
  exact List.append_eq_nil_iff.1 (List.append_cancel_right (happend.trans (List.nil_append after).symm))

theorem takeWhile_cut (h : (w ++ after).dropWhile p = l ++ after) :
    w.takeWhile p = (w ++ after).takeWhile p ∧ w.dropWhile p = l := by
  induction w with
  | nil =>
      obtain ⟨htake, rfl⟩ := cut_nil List.takeWhile_append_dropWhile h
      exact ⟨htake.symm, rfl⟩
  | cons c w ih =>
      rw [List.cons_append, List.dropWhile_cons] at h
      rw [List.cons_append, List.takeWhile_cons, List.takeWhile_cons, List.dropWhile_cons]
      cases hc : p c with
      | true =>
          rw [hc] at h
          obtain ⟨htake, hdrop⟩ := ih h
          exact ⟨congrArg (c :: ·) htake, hdrop⟩
      | false =>
          rw [hc] at h
          exact ⟨rfl, List.append_cancel_right h⟩

theorem splitSign_cut (h : (splitSign p (w ++ after)).2 = l ++ after) :
    splitSign p w = ((splitSign p (w ++ after)).1, l) := by
  cases w with
  | nil =>
      obtain ⟨htake, rfl⟩ := cut_nil (splitSign_append p after) h
      rw [List.nil_append, htake]
      rfl
  | cons c w =>
      rw [List.cons_append, splitSign] at h ⊢
      rw [splitSign]
      cases hc : p c with
      | true =>
          rw [hc] at h
          rw [List.append_cancel_right (show w ++ after = l ++ after from h)]
          rfl
      | false =>
          rw [hc] at h
          rw [List.append_cancel_right (show (c :: w) ++ after = l ++ after from h)]
          rfl

theorem splitFraction_cut (h : (splitFraction (w ++ after)).2 = l ++ after) :
    splitFraction w = ((splitFraction (w ++ after)).1, l) := by
  rcases w with _ | ⟨c, w⟩
  · obtain ⟨htake, rfl⟩ := cut_nil (splitFraction_append after) h
    rw [List.nil_append, htake]
    rfl
  by_cases hpoint : c = '.'
  · subst hpoint
    rcases w with _ | ⟨d, w⟩
    · rcases after with _ | ⟨d, after⟩
      · rw [List.append_nil, List.append_nil] at h
        exact Prod.ext rfl h
      · rw [List.singleton_append, splitFraction] at h ⊢
        split at h
        · -- the digit behind the point would be taken along
          have hle := (List.dropWhile_suffix (l := after) Char.isDigit).length_le
          have hlength := congrArg List.length (show after.dropWhile Char.isDigit = l ++ d :: after from h)
          rw [List.length_append, List.length_cons] at hlength
          omega
        · rename_i hd
          rw [if_neg hd, ← List.append_cancel_right (show ['.'] ++ d :: after = l ++ d :: after from h)]
          rfl
    · rw [List.cons_append, List.cons_append, splitFraction] at h ⊢
      rw [splitFraction]
      split at h
      · rename_i hd
        obtain ⟨htake, hdrop⟩ := takeWhile_cut h
        rw [if_pos hd, if_pos hd, htake, hdrop]
      · rename_i hd
        rw [if_neg hd, if_neg hd, List.append_cancel_right
          (show ('.' :: d :: w) ++ after = l ++ after from h)]
  · have hclear (rest : List Char) : Clear (· == '.') (c :: rest) := .cons (beq_false_of_ne hpoint)
    rw [List.cons_append, splitFraction_of_clear (hclear _)] at h ⊢
    rw [splitFraction_of_clear (hclear _),
      List.append_cancel_right (show (c :: w) ++ after = l ++ after from h)]

theorem splitExponent_cut (h : (splitExponent (w ++ after)).2 = l ++ after) :
    splitExponent w = ((splitExponent (w ++ after)).1, l) := by
  cases w with
  | nil =>
      obtain ⟨htake, rfl⟩ := cut_nil (splitExponent_append after) h
      rw [List.nil_append, htake]
      rfl
  | cons c w =>
      rw [List.cons_append, splitExponent] at h ⊢
      rw [splitExponent]
      split at h
      · rename_i hc
        rw [if_pos hc, if_pos hc]
        dsimp only at h ⊢
        have hsign : (splitSign isSign (w ++ after)).2 =
            ((splitSign isSign (w ++ after)).2.takeWhile Char.isDigit ++ l) ++ after := by
          rw [List.append_assoc, ← h, List.takeWhile_append_dropWhile]
        rw [hsign] at h
        obtain ⟨htake, hdrop⟩ := takeWhile_cut h
        rw [splitSign_cut hsign]
        dsimp only
        rw [hdrop, htake, ← hsign]
      · rename_i hc
        rw [if_neg hc, if_neg hc, List.append_cancel_right (show (c :: w) ++ after = l ++ after from h)]

theorem scanNumber_cut (hvalid : (scanNumber (w ++ after)).kind ≠ .invalid)
    (h : (scanNumber (w ++ after)).left = l ++ after) :
    scanNumber w = ⟨(scanNumber (w ++ after)).kind, (scanNumber (w ++ after)).taken, l⟩ := by
  rcases hsign : splitSign (· == '-') (w ++ after) with ⟨sign, digits⟩
  rcases hfraction : splitFraction (digits.dropWhile Char.isDigit) with ⟨fraction, left⟩
  rcases hexponent : splitExponent left with ⟨exponent, left'⟩
  have hwhole : ¬(digits.takeWhile Char.isDigit).isEmpty = true := by
    intro hempty
    rw [scanNumber, hsign] at hvalid
    dsimp only at hvalid
    rw [if_pos hempty] at hvalid
    exact hvalid rfl
  have hscan : scanNumber (w ++ after) = ⟨if fraction.isEmpty && exponent.isEmpty then .int else .float,
      sign ++ digits.takeWhile Char.isDigit ++ fraction ++ exponent, left'⟩ := by
    rw [scanNumber, hsign]
    dsimp only
    rw [if_neg hwhole, hfraction]
    dsimp only
    rw [hexponent]
  rw [hscan] at h ⊢
  obtain rfl : left' = l ++ after := h
  -- what each part leaves ends in `after`, as the parts behind it do
  have hleft : left = (exponent ++ l) ++ after := by
    have happend := splitExponent_append left
    rw [hexponent] at happend
    rw [List.append_assoc, happend]
  have hdrop : digits.dropWhile Char.isDigit = (fraction ++ (exponent ++ l)) ++ after := by
    have happend := splitFraction_append (digits.dropWhile Char.isDigit)
    rw [hfraction] at happend
    rw [List.append_assoc, ← hleft, happend]
  have hdigits : digits = (digits.takeWhile Char.isDigit ++ (fraction ++ (exponent ++ l))) ++ after := by
    rw [List.append_assoc, ← hdrop, List.takeWhile_append_dropWhile]
  have hexponentCut : splitExponent (exponent ++ l) = (exponent, l) := by
    have hcut := @splitExponent_cut (exponent ++ l) after l (by rw [← hleft, hexponent])
    rwa [← hleft, hexponent] at hcut
  have hfractionCut : splitFraction (fraction ++ (exponent ++ l)) = (fraction, exponent ++ l) := by
    have hcut := @splitFraction_cut (fraction ++ (exponent ++ l)) after (exponent ++ l)
      (by rw [← hdrop, hfraction, hleft])
    rwa [← hdrop, hfraction] at hcut
  obtain ⟨htake, hrest⟩ := @takeWhile_cut (digits.takeWhile Char.isDigit ++ (fraction ++ (exponent ++ l)))
    after (fraction ++ (exponent ++ l)) Char.isDigit (by rw [← hdigits, hdrop])
  rw [← hdigits] at htake
  have hsignCut := @splitSign_cut w after _ (· == '-') (by rw [hsign]; exact hdigits)
  rw [scanNumber, hsignCut, hsign]
  dsimp only
  rw [htake, if_neg hwhole, hrest, hfractionCut]
  dsimp only
  rw [hexponentCut]

theorem scanName_cut (h : (scanName (w ++ after)).left = l ++ after) :
    scanName w = ⟨(scanName (w ++ after)).kind, (scanName (w ++ after)).taken, l⟩ := by
  obtain ⟨htake, hdrop⟩ := takeWhile_cut (show (w ++ after).dropWhile isNamePart = l ++ after from h)
  rw [scanName, htake, hdrop]
  rfl

/-- **The first token of a text is the same if the text ends earlier**, as long
as it ends behind the token. -/
theorem scan_cut (hvalid : (scan c (w ++ after)).kind ≠ .invalid)
    (h : (scan c (w ++ after)).left = l ++ after) :
    scan c w = ⟨(scan c (w ++ after)).kind, (scan c (w ++ after)).taken, l⟩ := by
  have hscans := scans_scan c (w ++ after)
  generalize hcs : w ++ after = cs at hscans hvalid h
  generalize scan c cs = lexeme at hscans hvalid h
  cases hscans with
  | mark hmark =>
      obtain rfl := List.append_cancel_right (hcs.trans h)
      exact (Scans.mark hmark).eq
  | @spread left =>
      have hw : w ++ after = ('.' :: '.' :: l) ++ after := by rw [hcs, List.cons_append,
        List.cons_append, ← h]
      obtain rfl := List.append_cancel_right hw
      rfl
  | point => exact absurd rfl hvalid
  | other => exact absurd rfl hvalid
  | @block text =>
      have hkind := kind_block_of_valid hvalid
      have hw : w ++ after = ('"' :: '"' :: ((scanBlock text).taken ++ l)) ++ after := by
        rw [hcs, List.cons_append, List.cons_append, List.append_assoc, ← h, scanBlock_append]
      obtain rfl := List.append_cancel_right hw
      rw [Scans.block.eq, scanBlock_again hkind l, hkind]
  | quoted hquotes =>
      have hkind := kind_quoted_of_valid hvalid
      have hw : w ++ after = ((scanQuoted cs).taken ++ l) ++ after := by
        rw [hcs, List.append_assoc, ← h, scanQuoted_append]
      obtain rfl := List.append_cancel_right hw
      have hquotes' : ∀ text, (scanQuoted cs).taken ++ l ≠ '"' :: '"' :: text := fun text htext =>
        hquotes (text ++ after) (by rw [← hcs, htext]; rfl)
      rw [(Scans.quoted hquotes').eq, scanQuoted_again hkind l, hkind]
  | number hplain hstart =>
      subst hcs
      exact (Scans.number hplain hstart).eq.trans (@scanNumber_cut (c :: w) after l hvalid h)
  | name hplain hnumber hstart =>
      subst hcs
      exact (Scans.name hplain hnumber hstart).eq.trans (@scanName_cut (c :: w) after l h)

/-- The next token is the same if the text ends behind it. -/
theorem tokensFrom_of_cut {ignored rest z : List Char}
    (hsplit : splitIgnored false (w ++ after) = (ignored, c :: rest))
    (hvalid : (scan c rest).kind ≠ .invalid) (hw : w = ignored ++ (scan c rest).taken ++ z)
    (hleft : (scan c rest).left = z ++ after) (place : Nat) :
    tokensFrom place w = tokensOf (place + Text.byteLength ignored) (scan c rest) ++
      tokensFrom (place + Text.byteLength ignored + Text.byteLength (scan c rest).taken) z := by
  obtain ⟨taken, htaken⟩ := exists_taken c rest
  have hrest : rest = (taken ++ z) ++ after := by
    have happend := scan_append c rest
    rw [hleft, htaken, List.cons_append] at happend
    rw [← (List.cons.inj happend).2, List.append_assoc]
  have hscan := @scan_cut c (taken ++ z) after z (hrest ▸ hvalid) (hrest ▸ hleft)
  rw [← hrest] at hscan
  have hgap := (gap_splitIgnored (w ++ after)).1
  rw [hsplit] at hgap
  have hsplit' := @splitIgnored_gap (c :: (taken ++ z)) _ _ hgap fun hnil =>
    absurd hnil (List.cons_ne_nil _ _)
  rw [splitIgnored_kept (kept_of_splitIgnored (congrArg Prod.snd hsplit)), List.append_nil] at hsplit'
  have hof := @tokensOf_of_valid (place + Text.byteLength ignored) ⟨(scan c rest).kind,
    (scan c rest).taken, z⟩ hvalid
  rw [tokensOf_of_valid hvalid, ← hof, ← hscan]
  rw [hw, htaken, List.append_assoc, List.cons_append, tokensFrom_of_kept hsplit', hscan, htaken]

/-- **A text that ends behind one of its tokens** has the tokens up to this one. -/
theorem tokensFrom_cut (h : tokensFrom place (w ++ after) = pre ++ last :: post)
    (hvalid : ∀ t ∈ pre ++ [last], t.kind ≠ .invalid) (hfinish : last.kind ≠ .finish)
    (hstop : last.span.stop = place + Text.byteLength w) :
    tokensFrom place w = pre ++ [last, Token.finish (place + Text.byteLength w)] := by
  have hlast : last.kind ≠ .invalid := hvalid last (List.mem_append_right _ (List.mem_singleton_self last))
  induction hn : w.length using Nat.strongRecOn generalizing place w pre with
  | ind n ih =>
      rcases next_cases (w ++ after) with hnone | ⟨ignored, c, rest, hcs, hsplit, -⟩
      · rw [tokensFrom_of_ignored hnone] at h
        have hmem : last ∈ [Token.finish (place + Text.byteLength (w ++ after))] := by
          rw [h]
          exact List.mem_append_right _ List.mem_cons_self
        rw [List.mem_singleton.1 hmem] at hfinish
        exact absurd rfl hfinish
      · rw [tokensFrom_of_kept hsplit] at h
        have hsource : (ignored ++ (scan c rest).taken) ++ (scan c rest).left = w ++ after := by
          rw [List.append_assoc, scan_append, hcs]
        rcases append_cons_cases h with ⟨more, hof, -⟩ | ⟨pre', rfl, htail⟩
        · -- the last token is the next one
          obtain ⟨rfl, -, ht⟩ := lexeme_of_tokensOf hof hlast
          rw [ht] at hstop hlast
          have hbytes : Text.byteLength (ignored ++ (scan c rest).taken) = Text.byteLength w := by
            rw [Text.byteLength_append]
            dsimp only at hstop
            omega
          obtain ⟨z, hw, hleft⟩ := Text.exists_append_of_le hsource (Nat.le_of_eq hbytes)
          rw [hw, Text.byteLength_append (ignored ++ _) z] at hbytes
          obtain rfl := Text.byteLength_eq_zero (by omega : Text.byteLength z = 0)
          rw [tokensFrom_of_cut hsplit hlast hw hleft, tokensFrom_of_ignored rfl, tokensOf_of_valid hlast, ht]
          rw [← hstop]
          rfl
        · -- the last token comes behind the next one
          have hkind : (scan c rest).kind ≠ .invalid := fun hinvalid => by
            obtain ⟨t, ht, htkind⟩ := @exists_invalid_of_tokensOf (place + Text.byteLength ignored) _ hinvalid
            exact hvalid t (List.mem_append_left _ (List.mem_append_left _ ht)) htkind
          have hle := le_start_of_mem_tokensFrom (htail ▸ List.mem_append_right _ List.mem_cons_self)
          have hspan : last.span.start ≤ last.span.stop := by
            obtain ⟨before, d, rest', -, -, ht, -⟩ := exists_of_tokensFrom htail hlast hfinish
            rw [ht]
            exact Nat.le_add_right _ _
          obtain ⟨z, hw, hleft⟩ := Text.exists_append_of_le hsource (by rw [Text.byteLength_append]; omega)
          have hbytes : place + Text.byteLength ignored +
              Text.byteLength (scan c rest).taken + Text.byteLength z =
              place + Text.byteLength w := by
            rw [hw, Text.byteLength_append, Text.byteLength_append, ← Nat.add_assoc, ← Nat.add_assoc]
          have hless : z.length < n := by
            obtain ⟨taken, htaken⟩ := exists_taken c rest
            rw [← hn, hw, htaken, List.length_append, List.length_append, List.length_cons]
            omega
          have hrest := ih _ hless (hleft ▸ htail)
            (fun t ht => hvalid t (by rw [List.append_assoc]; exact List.mem_append_right _ ht))
            (by rw [hstop, hbytes]) rfl
          rw [tokensFrom_of_cut hsplit hkind hw hleft, hrest, hbytes, List.append_assoc]

/-- **A stretch of tokens is a stretch of text**, which gives these tokens by itself. -/
theorem exists_cut {source : List Char} {part : List Token} {first : Token}
    (h : tokensFrom 0 source = pre ++ (part ++ post))
    (hvalid : ∀ t ∈ part, t.kind ≠ .invalid ∧ t.kind ≠ .finish)
    (hfirst : part.head? = some first) (hlast : part.getLast? = some last) :
    ∃ before text after, source = before ++ (text ++ after) ∧ first.span.start = Text.byteLength before ∧
      last.span.stop = Text.byteLength before + Text.byteLength text ∧
      ∃ tokens, tokensFrom 0 text = tokens ++ [Token.finish (Text.byteLength text)] ∧
        List.Forall₂ Token.Alike part tokens := by
  obtain ⟨mid, rfl⟩ := List.getLast?_eq_some_iff.1 hlast
  obtain ⟨tail, hpart⟩ := List.head?_eq_some_iff.1 hfirst
  have hmem : ∀ t ∈ mid ++ [last], t.kind ≠ .invalid := fun t ht => (hvalid t ht).1
  obtain ⟨hfirstValid, hfirstFinish⟩ := hvalid first (hpart ▸ List.mem_cons_self)
  obtain ⟨hlastValid, hlastFinish⟩ := hvalid last (List.mem_append_right _ (List.mem_singleton_self last))
  have hhead : tokensFrom 0 source = pre ++ first :: (tail ++ post) := by rw [h, hpart, List.cons_append]
  obtain ⟨before, c, rest, rfl, hkept, ht, hpost⟩ := exists_of_tokensFrom hhead hfirstValid hfirstFinish
  rw [Nat.zero_add] at ht
  have hfrom : tokensFrom (Text.byteLength before) (c :: rest) = mid ++ last :: post := by
    rw [tokensFrom_of_kept (splitIgnored_kept hkept rest), List.append_cons, hpart,
      List.cons_append, hpost, ht, tokensOf_of_valid (by rw [ht] at hfirstValid; exact hfirstValid)]
    rfl
  obtain ⟨inner, d, rest', hcs, -, hlastToken, -⟩ := exists_of_tokensFrom hfrom hlastValid hlastFinish
  have hsource : c :: rest = (inner ++ (scan d rest').taken) ++ (scan d rest').left := by
    rw [List.append_assoc, scan_append, hcs]
  have hstop : last.span.stop = Text.byteLength before + Text.byteLength (inner ++ (scan d rest').taken) := by
    rw [hlastToken, Text.byteLength_append, ← Nat.add_assoc]
  have hcut := tokensFrom_cut (hsource ▸ hfrom) hmem hlastFinish hstop
  refine ⟨before, _, _, congrArg (before ++ ·) hsource, by rw [ht], hstop, ?_⟩
  obtain ⟨tokens, htokens⟩ := tokensFrom_eq_append 0 (inner ++ (scan d rest').taken)
  have halike := tokensFrom_alike (Text.byteLength before) 0 (inner ++ (scan d rest').taken)
  rw [Nat.zero_add] at htokens
  rw [hcut, htokens] at halike
  rw [List.append_cons] at halike
  exact ⟨tokens, htokens, forall₂_of_concat halike⟩

/-- A text that is scanned as a name. -/
structure Word (c : Char) (taken : List Char) : Prop where
  kept : (c == '#' || isBlank c) = false
  plain : Plain c
  number : ¬(c == '-' || c.isDigit) = true
  start : isNameStart c = true
  parts : ∀ d ∈ c :: taken, isNamePart d = true

theorem isName_scanName (cs : List Char) : (scanName cs).kind.isName = true := by
  rcases kind_scanName cs with h | ⟨word, h⟩ <;> (rw [h]; rfl)

/-- A token that is a name, or may be one, is a word. -/
theorem word_of_isName {rest : List Char} (hkept : (c == '#' || isBlank c) = false)
    (hname : (scan c rest).kind.isName = true) :
    ∃ taken, (scan c rest).taken = c :: taken ∧ Word c taken := by
  obtain ⟨taken, htaken⟩ := exists_taken c rest
  refine ⟨taken, htaken, ?_⟩
  have hscans := scans_scan c rest
  generalize scan c rest = lexeme at hscans hname htaken
  cases hscans with
  | mark => cases hname
  | spread => cases hname
  | point => cases hname
  | other => cases hname
  | @block text =>
      have hkind := kind_scanBlock text
      simp only [List.mem_cons, List.not_mem_nil, or_false] at hkind
      rcases hkind with hkind | hkind <;> (dsimp only at hname; rw [hkind] at hname; cases hname)
  | quoted =>
      have hkind := kind_scanQuoted rest
      simp only [List.mem_cons, List.not_mem_nil, or_false] at hkind
      rcases hkind with hkind | hkind <;> (dsimp only at hname; rw [hkind] at hname; cases hname)
  | number =>
      have hkind := kind_scanNumber (c :: rest)
      simp only [List.mem_cons, List.not_mem_nil, or_false] at hkind
      rcases hkind with hkind | hkind | hkind <;> (rw [hkind] at hname; cases hname)
  | name hplain hnumber hstart =>
      refine ⟨hkept, hplain, hnumber, hstart, fun d hd => ?_⟩
      rw [← htaken] at hd
      exact List.mem_takeWhile_imp hd

/-- A word is one token in front of what does not go it on. -/
theorem Word.tokensFrom {taken rest : List Char} (h : Word c taken)
    (hrest : Clear isNamePart rest) (place : Nat) :
    ∃ (t : Token) (place' : Nat), t.kind.isName = true ∧ t.text = String.ofList (c :: taken) ∧
      Lexer.tokensFrom place (c :: (taken ++ rest)) = t :: Lexer.tokensFrom place' rest := by
  have hword : (c :: taken).takeWhile isNamePart = c :: taken := List.takeWhile_eq_self_iff.2 h.parts
  have hleft : (c :: taken).dropWhile isNamePart = [] := List.dropWhile_eq_nil_iff.2 h.parts
  have hscan : scan c (taken ++ rest) = ⟨(scanName (c :: taken)).kind, c :: taken, rest⟩ := by
    rw [(Scans.name h.plain h.number h.start).eq, ← List.cons_append, scanName_before hrest]
    rw [show (scanName (c :: taken)).taken = c :: taken from hword,
      show (scanName (c :: taken)).left = [] from hleft]
    rfl
  have hname := isName_scanName (c :: taken)
  rw [tokensFrom_of_kept (splitIgnored_kept h.kept _), hscan, tokensOf_of_valid fun hinvalid => by
    rw [show (scanName (c :: taken)).kind = .invalid from hinvalid] at hname
    cases hname]
  exact ⟨_, _, hname, rfl, rfl⟩

/-- A mark is one token in front of anything. -/
theorem tokensFrom_mark {m : Mark} (hkept : (c == '#' || isBlank c) = false) (hmark : Mark.ofChar? c = some m)
    (place : Nat) (rest : List Char) : ∃ (t : Token) (place' : Nat), t.kind = .mark m ∧
      tokensFrom place (c :: rest) = t :: tokensFrom place' rest := by
  rw [tokensFrom_of_kept (splitIgnored_kept hkept _), (Scans.mark hmark).eq,
    tokensOf_of_valid (by exact nofun)]
  exact ⟨_, _, rfl, rfl⟩

end Lexer

/-- The cursor in front of a text. -/
def Cursor.ofText (text : String) : Cursor := .start (tokenize text).dropLast (Text.byteLength text.toList)

theorem Cursor.ofText_tokens {text : String} {tokens : List Token} {size : Nat}
    (h : tokenize text = tokens ++ [Token.finish size]) : (Cursor.ofText text).tokens = tokens := by
  rw [ofText, h, List.dropLast_concat]
  rfl

/-- The text from the first token of a stretch to the last one gives the tokens of the stretch. -/
theorem tokens_of_stretch {source : String} {pre part post : List Token} {first last : Token}
    (h : tokenize source = pre ++ (part ++ post)) (hvalid : ∀ t ∈ part, t.kind ≠ .invalid ∧ t.kind ≠ .finish)
    (hfirst : part.head? = some first) (hlast : part.getLast? = some last) :
    first.span.start ≤ last.span.stop ∧ List.Forall₂ Token.Alike part
      (Cursor.ofText ((Span.mk first.span.start last.span.stop).text source)).tokens := by
  obtain ⟨before, text, after, hsource, hstart, hstop, tokens, htokens, halike⟩ :=
    Lexer.exists_cut h hvalid hfirst hlast
  refine ⟨by omega, ?_⟩
  rw [Span.text, hstart, hstop, hsource, Span.chars_append,
    Cursor.ofText_tokens (by rw [tokenize, String.toList_ofList]; exact htokens)]
  exact halike

/-- That a text by itself is read as a value, up to places: all of it and without a mistake. -/
structure ReadsWhole {α : Type} (read : Cursor → α × Cursor) (bare : α → α) (text : String)
    (value : α) : Prop where
  value : bare (read (.ofText text)).1 = bare value
  whole : (read (.ofText text)).2.tokens = []
  clean : (read (.ofText text)).2.diagnostics = []

/-- A value is read as the same value from the same tokens. -/
theorem readsWhole_literal {part : List Token} {value : Literal}
    (hpart : LiteralTokens part value.bare) {text : String}
    (halike : List.Forall₂ Token.Alike part (Cursor.ofText text).tokens) :
    ReadsWhole (fun c => (Parser.literal c).result) Literal.bare text value := by
  let c := Cursor.start part 0
  obtain ⟨hvalue, hnext, hclean⟩ :=
    (Parser.accepts_literal c).complete rfl (List.append_nil part).symm hpart trivial
  let S := @Coupling.beside (fun _ _ => True) (fun _ _ => trivial) [] [] rfl
  have hcoupled : S.rel c (.ofText text) := {
    seen := ⟨_, _, (List.append_nil _).symm, (List.append_nil _).symm,
      List.rel_append halike (.cons ⟨rfl, rfl, trivial, trivial⟩ .nil)⟩
    lastStop := trivial
    diagnostics := .nil }
  obtain ⟨hlike, hrel⟩ := Parser.literal_agree hcoupled (Nat.zero_le _)
  obtain ⟨tokens, tokens', hstream, hstream', hall⟩ := hrel.seen
  have hleft : (Parser.literal (.ofText text)).result.2.left = 0 := by
    have hlength := hall.length_eq
    rw [List.append_nil] at hstream hstream'
    rw [← hstream, ← hstream', Cursor.length_stream, Cursor.length_stream, Cursor.left, hnext] at hlength
    exact (Nat.succ.inj hlength).symm
  have hdiagnostics := hrel.diagnostics
  rw [hclean] at hdiagnostics
  exact ⟨hlike.bare.trans hvalue, List.length_eq_zero_iff.1 hleft, List.forall₂_nil_left_iff.1 hdiagnostics⟩

namespace TypeExpr

/-- That the names of a type are words, and none of its bangs stands behind another one. -/
def Spelt : TypeExpr → Prop
  | named name => ∃ c taken, name.text.toList = c :: taken ∧ Lexer.Word c taken
  | list item _ => item.Spelt
  | nonNull inner _ => inner.Spelt ∧ ∀ inner' span, inner ≠ nonNull inner' span

theorem bare_ne_nonNull {type : TypeExpr} (h : ∀ inner span, type ≠ nonNull inner span) (inner : TypeExpr)
    (span : Span) : type.bare ≠ nonNull inner span := by
  cases type with
  | nonNull inner span => exact absurd rfl (h inner span)
  | named => exact nofun
  | list => exact nofun

/-- The types that the grammar derives are spelt so. -/
theorem spelt_of_tokens {type : TypeExpr} {part : List Token} (h : TypeTokens part type.bare)
    (hwords : ∀ t ∈ part, t.kind.isName = true → ∃ c taken, t.text.toList = c :: taken ∧ Lexer.Word c taken) :
    type.Spelt := by
  induction type generalizing part with
  | named name =>
      rw [bare] at h
      generalize hbare : name.bare = name' at h
      cases h with
      | plain hinner =>
          obtain ⟨@⟨word, hword⟩⟩ := hinner
          have htext : name.text = word.text := congrArg Name.text hbare
          rw [Spelt, htext]
          exact hwords word (List.mem_singleton_self word) hword
  | list item span ih =>
      rw [bare] at h
      cases h with
      | plain hinner =>
          cases hinner with
          | list hopening hitem hclosing =>
              exact ih hitem fun t ht => hwords t (List.mem_cons_of_mem _ (List.mem_append_left _ ht))
  | nonNull inner span ih =>
      rw [bare] at h
      cases h with
      | plain hinner => cases hinner
      | bang hinner hmark =>
          refine ⟨ih (.plain hinner) fun t ht => hwords t (List.mem_append_left _ ht), ?_⟩
          rintro inner' span' rfl
          cases hinner

/-- The text of a type gives the tokens of the type. -/
theorem exists_typeTokens {type : TypeExpr} (h : type.Spelt) (place : Nat) {rest : List Char}
    (hrest : Lexer.Clear Lexer.isNamePart rest) : ∃ part place', TypeTokens part type.bare ∧
      Lexer.tokensFrom place (type.text.toList ++ rest) = part ++ Lexer.tokensFrom place' rest := by
  induction type generalizing place rest with
  | named name =>
      obtain ⟨c, taken, htext, hword⟩ := h
      obtain ⟨t, place', hname, htoken, htokens⟩ := hword.tokensFrom hrest place
      refine ⟨[t], place', .plain (.named ?_), ?_⟩
      · have hmade := NameTokens.mk hname
        rwa [Token.name, htoken, ← htext, String.ofList_toList] at hmade
      · rw [text, htext, List.cons_append, htokens]
        rfl
  | list item span ih =>
      have htext : (list item span).text.toList ++ rest = '[' :: (item.text.toList ++ ']' :: rest) := by
        rw [text]
        simp
      obtain ⟨opening, place₁, hopening, hfirst⟩ :=
        @Lexer.tokensFrom_mark '[' .openBracket rfl rfl place (item.text.toList ++ ']' :: rest)
      obtain ⟨part, place₂, hpart, hitem⟩ := @ih h place₁ (']' :: rest) (.cons rfl)
      obtain ⟨closing, place₃, hclosing, hlast⟩ :=
        @Lexer.tokensFrom_mark ']' .closeBracket rfl rfl place₂ rest
      refine ⟨opening :: (part ++ [closing]), place₃, .plain (.list hopening hpart hclosing), ?_⟩
      rw [htext, hfirst, hitem, hlast, List.cons_append, List.append_assoc, List.singleton_append]
  | nonNull inner span ih =>
      have htext : (nonNull inner span).text.toList ++ rest = inner.text.toList ++ '!' :: rest := by
        rw [text]
        simp
      obtain ⟨part, place₁, hpart, hinner⟩ := @ih h.1 place ('!' :: rest) (.cons rfl)
      obtain ⟨mark, place₂, hmark, hlast⟩ := @Lexer.tokensFrom_mark '!' .bang rfl rfl place₁ rest
      refine ⟨part ++ [mark], place₂,
        ?_, by rw [htext, hinner, hlast, List.append_assoc, List.singleton_append]⟩
      rw [bare]
      have hplain := bare_ne_nonNull h.2
      generalize inner.bare = type at hpart hplain
      cases hpart with
      | plain hpart => exact .bang hpart hmark
      | bang => exact absurd rfl (hplain _ _)

/-- **The text of a type is read as the type.** -/
theorem readsWhole_text {type : TypeExpr} (h : type.Spelt) :
    ReadsWhole (fun c => (Parser.typeExpr c).result) bare type.text type := by
  obtain ⟨part, place', hpart, htokens⟩ := @exists_typeTokens type h 0 [] (by exact nofun)
  have hend : Lexer.tokensFrom place' [] = [Token.finish (place' + Text.byteLength [])] :=
    Lexer.tokensFrom_of_ignored rfl place'
  rw [List.append_nil, hend] at htokens
  have hcursor := Cursor.ofText_tokens htokens
  obtain ⟨hvalue, hnext, hclean⟩ := (Parser.accepts_typeExpr (.ofText type.text)).complete rfl
    (hcursor.trans (List.append_nil part).symm) hpart (by exact nofun)
  exact ⟨hvalue, hnext, hclean⟩

end TypeExpr

end GraphClient
