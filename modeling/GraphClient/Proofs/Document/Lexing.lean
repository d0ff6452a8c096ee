import GraphClient.Document.Lexer
import Mathlib.Data.List.Forall2

/-! Where a text may be cut. A closing brace that is a token of its own ends whatever stands before it: the
tokens up to it are the same, but for their places, wherever the text stands and whatever comes behind. -/

namespace GraphClient

theorem Text.byteLength_eq_zero {cs : List Char} (h : byteLength cs = 0) : cs = [] := by
  cases cs with
  | nil => rfl
  | cons c cs =>
      have hpos := Char.utf8Size_pos c
      rw [byteLength_cons] at h
      omega

/-- Of two ways to cut a text, the one that cuts first leaves more. -/
theorem Text.exists_append_of_le {x u y v : List Char} (h : x ++ u = y ++ v)
    (hle : byteLength x ≤ byteLength y) :
    ∃ z, y = x ++ z ∧ u = z ++ v := by
  rcases List.append_eq_append_iff.1 h with hsplit | ⟨z, rfl, hv⟩
  · exact hsplit
  · rw [byteLength_append] at hle
    obtain rfl := byteLength_eq_zero (Nat.le_zero.1 (by omega : byteLength z ≤ 0))
    exact ⟨[], by simp, by simpa using hv.symm⟩

/-- That one span is another one at another place; `place` tells which places belong together. -/
structure Span.Like (place : Nat → Nat → Prop) (span span' : Span) : Prop where
  start : place span.start span'.start
  stop : place span.stop span'.stop

/-- That one token is another one at another place. -/
structure Token.Like (place : Nat → Nat → Prop) (t t' : Token) : Prop where
  kind : t'.kind = t.kind
  text : t'.text = t.text
  span : t.span.Like place t'.span

/-- That two places are equally far behind `a` and behind `b`, and no further than `size`. -/
def Moved (a b size n n' : Nat) : Prop := ∃ i ≤ size, n = a + i ∧ n' = b + i

theorem Moved.origin (a b size : Nat) : Moved a b size a b := ⟨0, Nat.zero_le _, rfl, rfl⟩

theorem Moved.add {a b size n n' k : Nat} (h : Moved a b size n n') (hle : n + k ≤ a + size) :
    Moved a b size (n + k) (n' + k) := by
  obtain ⟨i, -, rfl, rfl⟩ := h
  exact ⟨i + k, by omega, Nat.add_assoc _ _ _, Nat.add_assoc _ _ _⟩

theorem Moved.max {a b size m m' n n' : Nat} (hm : Moved a b size m m') (hn : Moved a b size n n') :
    Moved a b size (Nat.max m n) (Nat.max m' n') := by
  obtain ⟨i, hi, rfl, rfl⟩ := hm
  obtain ⟨j, hj, rfl, rfl⟩ := hn
  exact ⟨Nat.max i j, Nat.max_le.2 ⟨hi, hj⟩, Nat.add_max_add_left .., Nat.add_max_add_left ..⟩

namespace Lexer

variable {c : Char} {cs rest ignored l r s w : List Char} {p : Char → Bool} {place : Nat} {t : Token}
  {pre post : List Token}

/-! ### Splitting in front of more text -/

/-- That a text does not begin with a character of a kind. -/
def Clear (p : Char → Bool) (rest : List Char) : Prop := ∀ c ∈ rest.head?, p c = false

theorem Clear.cons (hc : p c = false) : Clear p (c :: rest) := fun _ hd => Option.mem_some.1 hd ▸ hc

theorem clear_cons_iff : Clear p (c :: rest) ↔ p c = false := ⟨fun h => h c rfl, Clear.cons⟩

theorem takeWhile_of_clear (h : Clear p rest) : rest.takeWhile p = [] := by
  cases rest with
  | nil => rfl
  | cons c rest => rw [List.takeWhile_cons, clear_cons_iff.1 h]; rfl

theorem dropWhile_of_clear (h : Clear p rest) : rest.dropWhile p = rest := by
  cases rest with
  | nil => rfl
  | cons c rest => rw [List.dropWhile_cons, clear_cons_iff.1 h]; rfl

theorem splitSign_of_clear (h : Clear p rest) : splitSign p rest = ([], rest) := by
  cases rest with
  | nil => rfl
  | cons c rest => rw [splitSign, clear_cons_iff.1 h]; rfl

theorem splitFraction_of_clear (h : Clear (· == '.') rest) : splitFraction rest = ([], rest) := by
  unfold splitFraction
  split
  · cases h _ rfl
  · rfl

theorem splitExponent_of_clear (h : Clear (fun c => c == 'e' || c == 'E') rest) :
    splitExponent rest = ([], rest) := by
  cases rest with
  | nil => rfl
  | cons c rest => rw [splitExponent, clear_cons_iff.1 h]; rfl

theorem takeWhile_before (h : Clear p rest) (cs : List Char) : (cs ++ rest).takeWhile p = cs.takeWhile p := by
  induction cs with
  | nil => exact takeWhile_of_clear h
  | cons c cs ih => rw [List.cons_append, List.takeWhile_cons, List.takeWhile_cons, ih]

theorem dropWhile_before (h : Clear p rest) (cs : List Char) :
    (cs ++ rest).dropWhile p = cs.dropWhile p ++ rest := by
  induction cs with
  | nil => exact dropWhile_of_clear h
  | cons c cs ih =>
      rw [List.cons_append, List.dropWhile_cons, List.dropWhile_cons, ih]
      split <;> rfl

theorem splitSign_before (h : Clear p rest) (cs : List Char) :
    splitSign p (cs ++ rest) = ((splitSign p cs).1, (splitSign p cs).2 ++ rest) := by
  cases cs with
  | nil => exact splitSign_of_clear h
  | cons c cs =>
      rw [List.cons_append, splitSign, splitSign]
      split <;> rfl

theorem splitFraction_before (hdigit : Clear Char.isDigit rest)
    (hpoint : Clear (· == '.') rest) (cs : List Char) :
    splitFraction (cs ++ rest) = ((splitFraction cs).1, (splitFraction cs).2 ++ rest) := by
  fun_cases splitFraction cs with
  | case1 d tail hd =>
      rw [List.cons_append, List.cons_append, splitFraction, if_pos hd, takeWhile_before hdigit,
        dropWhile_before hdigit]
  | case2 d tail hd =>
      rw [List.cons_append, List.cons_append, splitFraction, if_neg hd]
  | case3 cs hcs =>
      rcases cs with _ | ⟨c, _ | ⟨d, tail⟩⟩
      · exact splitFraction_of_clear hpoint
      · -- a point at the end has no digit behind it
        cases rest with
        | nil => rw [List.append_nil, splitFraction]; exact hcs
        | cons d rest =>
            by_cases hc : c = '.'
            · subst hc
              rw [List.cons_append, List.nil_append, splitFraction, clear_cons_iff.1 hdigit]
              rfl
            · rw [splitFraction]
              rintro d' rest' heq
              exact hc (List.cons.inj heq).1
      · rw [splitFraction]
        rintro d' rest' heq
        obtain ⟨rfl, heq⟩ := List.cons.inj heq
        exact hcs d tail rfl

theorem splitExponent_before (hdigit : Clear Char.isDigit rest) (hsign : Clear isSign rest)
    (hmark : Clear (fun c => c == 'e' || c == 'E') rest) (cs : List Char) :
    splitExponent (cs ++ rest) = ((splitExponent cs).1, (splitExponent cs).2 ++ rest) := by
  cases cs with
  | nil => exact splitExponent_of_clear hmark
  | cons c cs =>
      rw [List.cons_append, splitExponent, splitExponent]
      split
      · rw [splitSign_before hsign]
        dsimp only
        rw [takeWhile_before hdigit, dropWhile_before hdigit]
      · rfl

/-- That a text neither goes on a number nor begins a part of one. -/
structure NumberEnds (rest : List Char) : Prop where
  digit : Clear Char.isDigit rest
  point : Clear (· == '.') rest
  sign : Clear isSign rest
  mark : Clear (fun c => c == 'e' || c == 'E') rest

theorem scanNumber_before (h : NumberEnds rest) (cs : List Char) : scanNumber (cs ++ rest) =
    ⟨(scanNumber cs).kind, (scanNumber cs).taken, (scanNumber cs).left ++ rest⟩ := by
  have hminus : Clear (· == '-') rest := fun c hc => by
    have hnone := h.sign c hc
    rw [isSign, Bool.or_eq_false_iff] at hnone
    exact hnone.2
  rw [scanNumber, scanNumber, splitSign_before hminus]
  dsimp only
  rw [takeWhile_before h.digit, dropWhile_before h.digit, splitFraction_before h.digit h.point]
  dsimp only
  rw [splitExponent_before h.digit h.sign h.mark]
  dsimp only
  split <;> rfl

theorem scanName_before (h : Clear isNamePart rest) (cs : List Char) : scanName (cs ++ rest) =
    ⟨(scanName cs).kind, (scanName cs).taken, (scanName cs).left ++ rest⟩ := by
  rw [scanName, takeWhile_before h, dropWhile_before h]
  rfl

/-! ### Scanning up to a brace -/

/-- That a scanner leaves a closing brace behind a text with whatever follows, or takes the brace along. -/
def Stops (f : List Char → Lexeme) (w : List Char) : Prop :=
  (∃ kind taken l, ∀ s, f (w ++ '\x7d' :: s) = ⟨kind, taken, l ++ '\x7d' :: s⟩) ∨
    ∀ s, (f (w ++ '\x7d' :: s)).left.length ≤ s.length

theorem scanNumber_stops (w : List Char) : Stops scanNumber w :=
  .inl ⟨_, _, _, fun _ => scanNumber_before ⟨.cons rfl, .cons rfl, .cons rfl, .cons rfl⟩ w⟩

theorem scanName_stops (w : List Char) : Stops scanName w :=
  .inl ⟨_, _, _, fun _ => scanName_before (.cons rfl) w⟩

theorem left_length_scanQuoted_le (cs : List Char) : (scanQuoted cs).left.length ≤ cs.length := by
  have h := congrArg List.length (scanQuoted_append cs)
  rw [List.length_append] at h
  omega

theorem left_length_scanBlock_le (cs : List Char) : (scanBlock cs).left.length ≤ cs.length := by
  have h := congrArg List.length (scanBlock_append cs)
  rw [List.length_append] at h
  omega

/-- A scanner that takes one more piece and goes on. -/
theorem Stops.prepend {f g : List Char → Lexeme} {w w' : List Char} (piece : List Char) (hf : Stops f w)
    (hg : ∀ s, g (w' ++ '\x7d' :: s) =
      ⟨(f (w ++ '\x7d' :: s)).kind, piece ++ (f (w ++ '\x7d' :: s)).taken, (f (w ++ '\x7d' :: s)).left⟩) :
    Stops g w' := by
  rcases hf with ⟨kind, taken, l, hf⟩ | hf
  · exact .inl ⟨kind, piece ++ taken, l, fun s => by rw [hg, hf]⟩
  · exact .inr fun s => by rw [hg]; exact hf s

theorem scanQuoted_stops (w : List Char) : Stops scanQuoted w := by
  induction w using scanQuoted.induct with
  | case1 =>
      refine .inr fun s => ?_
      rw [List.nil_append, scanQuoted]
      · exact left_length_scanQuoted_le s
      all_goals simp
  | case2 rest => exact .inl ⟨.string, ['"'], rest, fun s => by rw [List.cons_append, scanQuoted]⟩
  | case3 rest => exact .inl ⟨.invalid, [], '\n' :: rest, fun s => by rw [List.cons_append, scanQuoted]⟩
  | case4 c rest ih =>
      exact ih.prepend ['\\', c] fun s => by rw [List.cons_append, List.cons_append, scanQuoted]; rfl
  | case5 c rest hquote hfeed hescape ih =>
      by_cases hc : c = '\\' ∧ rest = []
      · obtain ⟨rfl, rfl⟩ := hc
        refine .inr fun s => ?_
        rw [List.cons_append, List.nil_append, scanQuoted]
        exact left_length_scanQuoted_le s
      · refine ih.prepend [c] fun s => ?_
        rw [List.cons_append, scanQuoted]
        · rfl
        · exact hquote
        · exact hfeed
        · intro d tail hback heq
          cases rest with
          | nil => exact hc ⟨hback, rfl⟩
          | cons d' tail' => exact hescape d' tail' hback rfl

theorem scanBlock_stops (w : List Char) : Stops scanBlock w := by
  induction w using scanBlock.induct with
  | case1 =>
      refine .inr fun s => ?_
      rw [List.nil_append, scanBlock]
      · exact left_length_scanBlock_le s
      all_goals simp
  | case2 rest =>
      exact .inl ⟨.blockString, ['"', '"', '"'], rest, fun s => by simp only [List.cons_append, scanBlock]⟩
  | case3 rest ih =>
      exact ih.prepend ['\\', '"', '"', '"'] fun s => by simp only [List.cons_append,
        scanBlock, List.nil_append]
  | case4 c rest hquotes hescape ih =>
      refine ih.prepend [c] fun s => ?_
      rw [List.cons_append, scanBlock]
      · rfl
      · rintro tail rfl heq
        rcases rest with _ | ⟨x, _ | ⟨y, rest⟩⟩
        · cases heq
        · cases heq
        · rw [List.cons_append, List.cons_append, List.cons.injEq, List.cons.injEq] at heq
          exact hquotes rest rfl (by rw [heq.1, heq.2.1])
      · rintro tail rfl heq
        rcases rest with _ | ⟨x, _ | ⟨y, _ | ⟨z, rest⟩⟩⟩
        · cases heq
        · cases heq
        · cases heq
        · rw [List.cons_append, List.cons_append, List.cons_append, List.cons.injEq, List.cons.injEq,
            List.cons.injEq] at heq
          exact hescape rest rfl (by rw [heq.1, heq.2.1, heq.2.2.1])

/-- A pattern of two characters that a text does not begin with does not appear when a brace comes behind. -/
theorem brace_of_pair {x y : Char} {tail : List Char} (hx : x ≠ '\x7d') (hy : y ≠ '\x7d')
    (heq : w ++ '\x7d' :: s = x :: y :: tail) : ∃ w', w = x :: y :: w' := by
  match w with
  | [] => exact absurd (List.cons.inj heq).1.symm hx
  | [_] => exact absurd (List.cons.inj (List.cons.inj heq).2).1.symm hy
  | a :: b :: w =>
      obtain ⟨ha, heq⟩ := List.cons.inj heq
      exact ⟨w, by rw [ha, (List.cons.inj heq).1]⟩

theorem scan_point_stops (w : List Char) : Stops (scan '.') w := by
  by_cases hspread : ∃ w', w = '.' :: '.' :: w'
  · obtain ⟨w', rfl⟩ := hspread
    exact .inl ⟨.mark .spread, ['.', '.', '.'], w', fun _ => rfl⟩
  · refine .inl ⟨.invalid, ['.'], w, fun s => ?_⟩
    have hmark : Mark.ofChar? '.' = none := rfl
    rw [scan.eq_def, hmark]
    dsimp only
    rw [if_pos (beq_self_eq_true '.')]
    split
    · rename_i heq
      exact absurd (brace_of_pair (by decide) (by decide) heq) hspread
    · rfl

theorem scan_quote_stops (w : List Char) : Stops (scan '"') w := by
  by_cases hblock : ∃ w', w = '"' :: '"' :: w'
  · obtain ⟨w', rfl⟩ := hblock
    exact (scanBlock_stops w').prepend ['"', '"', '"'] fun _ => rfl
  · refine (scanQuoted_stops w).prepend ['"'] fun s => ?_
    have hmark : Mark.ofChar? '"' = none := rfl
    have hpoint : ¬('"' == '.') = true := by decide
    rw [scan.eq_def, hmark]
    dsimp only
    rw [if_neg hpoint, if_pos (beq_self_eq_true '"')]
    split
    · rename_i heq
      exact absurd (brace_of_pair (by decide) (by decide) heq) hblock
    · rfl

/-- A character that is no mark and begins neither dots nor a string. -/
structure Plain (c : Char) : Prop where
  mark : Mark.ofChar? c = none
  point : ¬(c == '.') = true
  quote : ¬(c == '"') = true

theorem scan_plain (h : Plain c) (rest : List Char) : scan c rest =
    if c == '-' || c.isDigit then scanNumber (c :: rest)
    else if isNameStart c then scanName (c :: rest)
    else ⟨.invalid, [c], rest⟩ := by
  rw [scan.eq_def, h.mark]
  dsimp only
  rw [if_neg h.point, if_neg h.quote]

/-- **A closing brace ends every scan**, unless it is taken along. -/
theorem scan_stops (c : Char) (w : List Char) : Stops (scan c) w := by
  by_cases hpoint : c = '.'
  · exact hpoint ▸ scan_point_stops w
  by_cases hquote : c = '"'
  · exact hquote ▸ scan_quote_stops w
  have hstops : ∀ {f : List Char → Lexeme} {w'}, Stops f w' →
      (∀ s, scan c (w ++ '\x7d' :: s) = f (w' ++ '\x7d' :: s)) → Stops (scan c) w :=
        fun hf hg => hf.prepend [] hg
  cases hmark : Mark.ofChar? c with
  | some m => exact .inl ⟨.mark m, [c], w, fun s => by rw [scan.eq_def, hmark]⟩
  | none =>
      have hscan := @scan_plain c ⟨hmark, by simpa using hpoint, by simpa using hquote⟩
      by_cases hnumber : (c == '-' || c.isDigit) = true
      · refine hstops (scanNumber_stops (c :: w)) fun s => ?_
        rw [hscan]
        exact if_pos hnumber
      by_cases hname : isNameStart c = true
      · refine hstops (scanName_stops (c :: w)) fun s => ?_
        rw [hscan]
        exact (if_neg hnumber).trans (if_pos hname)
      · refine .inl ⟨.invalid, [c], w, fun s => ?_⟩
        rw [hscan]
        exact (if_neg hnumber).trans (if_neg hname)

/-- What a scan leaves up to a brace does not depend on what comes behind it. -/
theorem scan_brace (h : (scan c (w ++ '\x7d' :: s)).left = l ++ '\x7d' :: s) (s' : List Char) :
    scan c (w ++ '\x7d' :: s') =
      ⟨(scan c (w ++ '\x7d' :: s)).kind, (scan c (w ++ '\x7d' :: s)).taken, l ++ '\x7d' :: s'⟩ := by
  rcases scan_stops c w with ⟨kind, taken, l', hscan⟩ | hswallow
  · rw [hscan] at h
    rw [hscan, hscan, List.append_cancel_right h]
  · have hle := hswallow s
    rw [h, List.length_append, List.length_cons] at hle
    omega

theorem splitIgnored_kept (hc : (c == '#' || isBlank c) = false) (rest : List Char) :
    splitIgnored false (c :: rest) = ([], c :: rest) := by
  rw [splitIgnored, hc]
  rfl

theorem splitIgnored_blank (hc : isBlank c = true) (rest : List Char) : splitIgnored false (c :: rest) =
    (c :: (splitIgnored false rest).1, (splitIgnored false rest).2) := by
  have hhash : (c == '#') = false := by
    rw [beq_eq_false_iff_ne]
    rintro rfl
    cases hc
  rw [splitIgnored, hhash, hc]
  rfl

/-- What is not ignored is no comment and no blank. -/
theorem kept_of_splitIgnored {inComment : Bool} (h : (splitIgnored inComment cs).2 = c :: rest) :
    (c == '#' || isBlank c) = false := by
  induction cs generalizing inComment with
  | nil => cases h
  | cons d cs ih =>
      rw [splitIgnored] at h
      cases inComment with
      | true => exact ih h
      | false =>
          cases hd : d == '#' || isBlank d with
          | true =>
              rw [hd] at h
              exact ih h
          | false =>
              rw [hd] at h
              cases h
              exact hd

theorem not_inComment {inComment : Bool} (h : (splitIgnored inComment (c :: rest)).1 = []) :
    inComment = false := by
  cases inComment with
  | true => cases h
  | false => rfl

theorem splitIgnored_brace {inComment : Bool}
    (h : splitIgnored inComment (ignored ++ (l ++ '\x7d' :: s)) = (ignored, l ++ '\x7d' :: s))
    (s' : List Char) :
    splitIgnored inComment (ignored ++ (l ++ '\x7d' :: s')) = (ignored, l ++ '\x7d' :: s') := by
  induction ignored generalizing inComment with
  | nil =>
      cases l with
      | nil =>
          obtain rfl := not_inComment (congrArg Prod.fst h)
          exact splitIgnored_kept (kept_of_splitIgnored (congrArg Prod.snd h)) s'
      | cons c l =>
          obtain rfl := not_inComment (congrArg Prod.fst h)
          exact splitIgnored_kept (kept_of_splitIgnored (congrArg Prod.snd h)) (l ++ '\x7d' :: s')
  | cons c ignored ih =>
      have hstep : ∀ b, (c :: (splitIgnored b (ignored ++ (l ++ '\x7d' :: s))).1,
          (splitIgnored b (ignored ++ (l ++ '\x7d' :: s))).2) = (c :: ignored, l ++ '\x7d' :: s) →
          (c :: (splitIgnored b (ignored ++ (l ++ '\x7d' :: s'))).1,
            (splitIgnored b (ignored ++ (l ++ '\x7d' :: s'))).2) = (c :: ignored, l ++ '\x7d' :: s') := by
        intro b heq
        rw [Prod.mk.injEq, List.cons.injEq] at heq
        rw [ih (Prod.ext heq.1.2 heq.2)]
      rw [List.cons_append, splitIgnored] at h ⊢
      cases inComment with
      | true => exact hstep _ h
      | false =>
          cases hc : c == '#' || isBlank c with
          | true =>
              rw [hc] at h
              exact hstep _ h
          | false =>
              rw [hc] at h
              cases congrArg Prod.fst h

theorem exists_taken (c : Char) (rest : List Char) : ∃ taken, (scan c rest).taken = c :: taken := by
  have hlt := scan_length_lt c rest
  have happend := scan_append c rest
  cases htook : (scan c rest).taken with
  | nil =>
      rw [htook] at happend
      rw [← happend] at hlt
      exact absurd hlt (Nat.lt_irrefl _)
  | cons d taken =>
      rw [htook] at happend
      exact ⟨taken, by rw [(List.cons.inj happend).1]⟩

/-- The next token is the same whatever comes behind a brace that it leaves. -/
theorem next_brace (hsplit : splitIgnored false (r ++ '\x7d' :: s) = (ignored, c :: rest))
    (hr : r = ignored ++ (scan c rest).taken ++ l)
    (hleft : (scan c rest).left = l ++ '\x7d' :: s) (s' : List Char) :
    ∃ rest', splitIgnored false (r ++ '\x7d' :: s') = (ignored, c :: rest') ∧
      scan c rest' = ⟨(scan c rest).kind, (scan c rest).taken, l ++ '\x7d' :: s'⟩ := by
  have happend := scan_append c rest
  obtain ⟨taken, htaken⟩ := exists_taken c rest
  have hrest : rest = taken ++ l ++ '\x7d' :: s := by
    rw [hleft, htaken, List.cons_append] at happend
    rw [← (List.cons.inj happend).2, List.append_assoc]
  have hsplit' : ∀ s, r ++ '\x7d' :: s = ignored ++ (c :: (taken ++ l) ++ '\x7d' :: s) := fun s => by
    rw [hr, htaken, List.append_assoc, List.append_assoc, List.cons_append,
      List.cons_append, List.append_assoc]
  rw [hrest] at hleft
  refine ⟨taken ++ l ++ '\x7d' :: s', ?_, ?_⟩
  · rw [hsplit', hrest] at hsplit
    rw [hsplit']
    exact splitIgnored_brace hsplit s'
  · rw [scan_brace hleft s', hrest]

/-! ### Tokens -/

theorem tokensFrom_of_ignored (h : splitIgnored false cs = (ignored, [])) (place : Nat) :
    tokensFrom place cs = [Token.finish (place + Text.byteLength ignored)] := by
  rw [tokensFrom, h]

theorem tokensFrom_of_kept (h : splitIgnored false cs = (ignored, c :: rest)) (place : Nat) :
    tokensFrom place cs = tokensOf (place + Text.byteLength ignored) (scan c rest) ++
      tokensFrom (place + Text.byteLength ignored + Text.byteLength (scan c rest).taken)
        (scan c rest).left := by
  rw [tokensFrom, h]

/-- A blank only moves the tokens behind it. -/
theorem tokensFrom_blank (hc : isBlank c = true) (place : Nat) (cs : List Char) :
    tokensFrom place (c :: cs) = tokensFrom (place + c.utf8Size) cs := by
  have hstep := splitIgnored_blank hc cs
  rcases hsplit : splitIgnored false cs with ⟨ignored, _ | ⟨d, rest⟩⟩
  · rw [hsplit] at hstep
    rw [tokensFrom_of_ignored hstep, tokensFrom_of_ignored hsplit, Text.byteLength_cons, Nat.add_assoc]
  · rw [hsplit] at hstep
    rw [tokensFrom_of_kept hstep, tokensFrom_of_kept hsplit, Text.byteLength_cons, ← Nat.add_assoc]

theorem kind_of_mem_invalidBytes {n : Nat} (ht : t ∈ invalidBytes place n) : t.kind = .invalid := by
  induction n generalizing place with
  | zero => cases ht
  | succ n ih =>
      rcases List.mem_cons.1 ht with rfl | ht
      · rfl
      · exact ih ht

theorem le_start_of_mem_invalidBytes {n : Nat} (ht : t ∈ invalidBytes place n) : place ≤ t.span.start := by
  induction n generalizing place with
  | zero => cases ht
  | succ n ih =>
      rcases List.mem_cons.1 ht with rfl | ht
      · exact Nat.le_refl _
      · exact Nat.le_of_succ_le (ih ht)

theorem tokensOf_of_valid {lexeme : Lexeme} (hvalid : lexeme.kind ≠ .invalid) :
    tokensOf place lexeme =
      [⟨lexeme.kind, ⟨place, place + Text.byteLength lexeme.taken⟩, String.ofList lexeme.taken⟩] := by
  unfold tokensOf
  split
  · rename_i hkind _
    exact absurd hkind hvalid
  · rfl

/-- A token that is not invalid is a whole lexeme. -/
theorem tokensOf_eq_singleton {lexeme : Lexeme} (ht : t ∈ tokensOf place lexeme)
    (hvalid : t.kind ≠ .invalid) :
    tokensOf place lexeme = [t] ∧
      t = ⟨lexeme.kind, ⟨place, place + Text.byteLength lexeme.taken⟩, String.ofList lexeme.taken⟩ := by
  unfold tokensOf at ht ⊢
  split at ht
  · split at ht
    · rw [List.mem_singleton.1 ht] at hvalid
      exact absurd rfl hvalid
    · exact absurd (kind_of_mem_invalidBytes ht) hvalid
  · obtain rfl := List.mem_singleton.1 ht
    exact ⟨rfl, rfl⟩

theorem le_start_of_mem_tokensOf {lexeme : Lexeme} (ht : t ∈ tokensOf place lexeme) :
    place ≤ t.span.start := by
  unfold tokensOf at ht
  split at ht
  · split at ht
    · exact List.mem_singleton.1 ht ▸ Nat.le_refl place
    · exact le_start_of_mem_invalidBytes ht
  · exact List.mem_singleton.1 ht ▸ Nat.le_refl place

/-- Either nothing is left but ignored text, or there is a next token. -/
theorem next_cases (cs : List Char) :
    splitIgnored false cs = (cs, []) ∨ ∃ ignored c rest, cs = ignored ++ c :: rest ∧
      splitIgnored false cs = (ignored, c :: rest) ∧ (scan c rest).left.length < cs.length := by
  have happend := splitIgnored_append false cs
  rcases hsplit : splitIgnored false cs with ⟨ignored, _ | ⟨c, rest⟩⟩
  · rw [hsplit, List.append_nil] at happend
    exact .inl (by rw [← happend])
  · rw [hsplit] at happend
    refine .inr ⟨ignored, c, rest, happend.symm, rfl, ?_⟩
    have hlt := scan_length_lt c rest
    have hlength := congrArg List.length happend
    rw [List.length_append] at hlength
    dsimp only at hlength
    omega

theorem le_start_of_mem_tokensFrom (ht : t ∈ tokensFrom place cs) : place ≤ t.span.start := by
  induction hn : cs.length using Nat.strongRecOn generalizing place cs with
  | ind n ih =>
      rcases next_cases cs with hnone | ⟨ignored, c, rest, -, hsplit, hlt⟩
      · rw [tokensFrom_of_ignored hnone, List.mem_singleton] at ht
        rw [ht]
        exact Nat.le_add_right _ _
      · rw [tokensFrom_of_kept hsplit, List.mem_append] at ht
        rcases ht with ht | ht
        · exact Nat.le_trans (Nat.le_add_right _ _) (le_start_of_mem_tokensOf ht)
        · have hle := ih _ (hn ▸ hlt) ht rfl
          omega

/-- A token among those of two stretches stands in the first one or in the second one. -/
theorem append_cons_cases {first second : List Token} (h : first ++ second = pre ++ t :: post) :
    (∃ more, first = pre ++ t :: more ∧ post = more ++ second) ∨
      ∃ pre', pre = first ++ pre' ∧ second = pre' ++ t :: post := by
  rcases List.append_eq_append_iff.1 h with hlater | ⟨_ | ⟨u, more⟩, rfl, htail⟩
  · exact .inr hlater
  · exact .inr ⟨[], by rw [List.append_nil, List.append_nil], htail.symm⟩
  · obtain ⟨rfl, rfl⟩ := List.cons.inj htail
    exact .inl ⟨more, rfl, rfl⟩

/-- A valid token among those of a lexeme is the lexeme. -/
theorem lexeme_of_tokensOf {lexeme : Lexeme} (h : tokensOf place lexeme = pre ++ t :: post)
    (hvalid : t.kind ≠ .invalid) :
    pre = [] ∧ post = [] ∧
      t = ⟨lexeme.kind, ⟨place, place + Text.byteLength lexeme.taken⟩, String.ofList lexeme.taken⟩ := by
  obtain ⟨hsingle, ht⟩ := tokensOf_eq_singleton (h ▸ List.mem_append_right _ List.mem_cons_self) hvalid
  rw [h] at hsingle
  have hlength := congrArg List.length hsingle
  rw [List.length_append, List.length_cons, List.length_singleton] at hlength
  exact ⟨List.length_eq_zero_iff.1 (by omega), List.length_eq_zero_iff.1 (by omega), ht⟩

/-- **Where a token stands in the text.** -/
theorem exists_of_tokensFrom (h : tokensFrom place cs = pre ++ t :: post) (hvalid : t.kind ≠ .invalid)
    (hfinish : t.kind ≠ .finish) :
    ∃ before c rest, cs = before ++ c :: rest ∧ (c == '#' || isBlank c) = false ∧
      t = ⟨(scan c rest).kind, ⟨place + Text.byteLength before,
        place + Text.byteLength before + Text.byteLength (scan c rest).taken⟩,
          String.ofList (scan c rest).taken⟩ ∧
      post = tokensFrom t.span.stop (scan c rest).left := by
  induction hn : cs.length using Nat.strongRecOn generalizing place cs pre with
  | ind n ih =>
      rcases next_cases cs with hnone | ⟨ignored, c, rest, hcs, hsplit, hlt⟩
      · rw [tokensFrom_of_ignored hnone] at h
        have hmem : t ∈ [Token.finish (place + Text.byteLength cs)] := by
          rw [h]
          exact List.mem_append_right _ List.mem_cons_self
        rw [List.mem_singleton.1 hmem] at hfinish
        exact absurd rfl hfinish
      · rw [tokensFrom_of_kept hsplit] at h
        rcases append_cons_cases h with ⟨more, hof, hpost⟩ | ⟨pre', -, htail⟩
        · obtain ⟨-, rfl, ht⟩ := lexeme_of_tokensOf hof hvalid
          exact ⟨ignored, c, rest, hcs, kept_of_splitIgnored (congrArg Prod.snd hsplit), ht,
            by rw [hpost, ht, List.nil_append]⟩
        · obtain ⟨before, d, rest', hleft, hd, ht, hpost⟩ := ih _ (hn ▸ hlt) htail rfl
          refine ⟨ignored ++ (scan c rest).taken ++ before, d, rest', ?_, hd, ?_, hpost⟩
          · rw [hcs, ← scan_append c rest, hleft, List.append_assoc, List.append_assoc]
          · rw [ht, Text.byteLength_append, Text.byteLength_append, ← Nat.add_assoc, ← Nat.add_assoc]

section

variable {a b size n n' : Nat} (hplace : Moved a b size n n')
include hplace

theorem invalidBytes_like {bytes : Nat} (hle : n + bytes ≤ a + size) :
    List.Forall₂ (Token.Like (Moved a b size)) (invalidBytes n bytes) (invalidBytes n' bytes) := by
  induction bytes generalizing n n' with
  | zero => exact .nil
  | succ bytes ih =>
      have hnext : Moved a b size (n + 1) (n' + 1) := hplace.add (by omega)
      exact .cons ⟨rfl, rfl, hplace, hnext⟩ (ih hnext (by omega))

theorem tokensOf_like {lexeme : Lexeme} (hle : n + Text.byteLength lexeme.taken ≤ a + size) :
    List.Forall₂ (Token.Like (Moved a b size)) (tokensOf n lexeme) (tokensOf n' lexeme) := by
  unfold tokensOf
  split
  · rename_i c _ htaken
    rw [htaken, Text.byteLength_cons, Text.byteLength_nil, Nat.add_zero] at hle
    split
    · rename_i hone
      exact .cons ⟨rfl, rfl, hplace, hplace.add (hone ▸ hle)⟩ .nil
    · exact invalidBytes_like hplace hle
  · exact .cons ⟨rfl, rfl, hplace, hplace.add hle⟩ .nil

end

/-- **A closing brace ends a stretch of text.** The tokens up to it are the same wherever the text stands and
whatever comes behind. -/
theorem tokensFrom_brace {a b size n n' : Nat} (h : tokensFrom n (r ++ '\x7d' :: s) = pre ++ t :: post)
    (hkind : t.kind = .mark .closeBrace) (hstart : t.span.start = n + Text.byteLength r)
    (hplace : Moved a b size n n') (hsize : n + Text.byteLength r + 1 ≤ a + size) (s' : List Char) :
    ∃ tokens, tokensFrom n' (r ++ '\x7d' :: s') = tokens ++ tokensFrom (n' + Text.byteLength r + 1) s' ∧
      List.Forall₂ (Token.Like (Moved a b size)) (pre ++ [t]) tokens := by
  induction hn : r.length using Nat.strongRecOn generalizing n n' r pre with
  | ind count ih =>
      have hvalid : t.kind ≠ .invalid := by rw [hkind]; exact nofun
      rcases next_cases (r ++ '\x7d' :: s) with hnone | ⟨ignored, c, rest, hcs, hsplit, -⟩
      · rw [tokensFrom_of_ignored hnone] at h
        have hmem : t ∈ [Token.finish (n + Text.byteLength (r ++ '\x7d' :: s))] := by
          rw [h]
          exact List.mem_append_right _ List.mem_cons_self
        rw [List.mem_singleton.1 hmem] at hkind
        cases hkind
      · rw [tokensFrom_of_kept hsplit] at h
        rcases append_cons_cases h with ⟨more, hof, -⟩ | ⟨pre', rfl, htail⟩
        · -- the brace is the next token, and all before it is ignored
          obtain ⟨rfl, -, ht⟩ := lexeme_of_tokensOf hof hvalid
          rw [ht] at hstart
          obtain ⟨z, rfl, hrest⟩ := Text.exists_append_of_le hcs (by dsimp only at hstart; omega)
          rw [Text.byteLength_append] at hstart
          obtain rfl := Text.byteLength_eq_zero (by dsimp only at hstart; omega : Text.byteLength z = 0)
          obtain ⟨rfl, rfl⟩ := List.cons.inj hrest
          rw [List.append_nil] at hsplit ht
          have hsplit' : splitIgnored false (r ++ '\x7d' :: s') = (r, '\x7d' :: s') :=
            @splitIgnored_brace r [] s false hsplit s'
          rw [tokensFrom_of_kept hsplit']
          refine ⟨[_], rfl, .cons ?_ .nil⟩
          rw [ht]
          have hplace' := hplace.add (Nat.le_of_succ_le hsize)
          exact ⟨rfl, rfl, hplace', hplace'.add hsize⟩
        · -- the brace comes behind the next token
          have hle := le_start_of_mem_tokensFrom (htail ▸ List.mem_append_right _ List.mem_cons_self)
          obtain ⟨l, hr, hleft⟩ :=
            @Text.exists_append_of_le (ignored ++ (scan c rest).taken) (scan c rest).left r
            ('\x7d' :: s) (by rw [List.append_assoc, scan_append, hcs])
              (by rw [Text.byteLength_append]; omega)
          obtain ⟨rest', hsplit', hscan⟩ := next_brace hsplit hr hleft s'
          have hless : l.length < count := by
            obtain ⟨taken, htaken⟩ := exists_taken c rest
            rw [← hn, hr, htaken, List.length_append, List.length_append, List.length_cons]
            omega
          have hbytes : ∀ n, n + Text.byteLength ignored +
              Text.byteLength (scan c rest).taken + Text.byteLength l =
              n + Text.byteLength r := fun n => by
            rw [hr, Text.byteLength_append, Text.byteLength_append, ← Nat.add_assoc, ← Nat.add_assoc]
          rw [hleft] at htail
          have hbytes' := hbytes n
          have hscanned : Moved a b size (n + Text.byteLength ignored) (n' + Text.byteLength ignored) :=
            hplace.add (by omega)
          have hscan' : n + Text.byteLength ignored + Text.byteLength (scan c rest).taken ≤
              a + size := by omega
          obtain ⟨tokens, htokens, hlike⟩ := ih _ hless htail (by rw [hstart, hbytes]) (hscanned.add hscan')
            (by rw [hbytes]; exact hsize) rfl
          have hlexeme := tokensOf_like hscanned hscan'
          rw [tokensFrom_of_kept hsplit', hscan]
          refine ⟨tokensOf (n' + Text.byteLength ignored) (scan c rest) ++ tokens, ?_, ?_⟩
          · dsimp only
            rw [htokens, hbytes, List.append_assoc]
            rfl
          · rw [List.append_assoc]
            exact List.rel_append hlexeme hlike

theorem kind_scanNumber (cs : List Char) : (scanNumber cs).kind ∈ [.invalid, .int, .float] := by
  unfold scanNumber
  dsimp only
  split
  · exact List.mem_cons_self
  · dsimp only
    split <;> simp

theorem kind_scanName_ne (m : Mark) (cs : List Char) : (scanName cs).kind ≠ .mark m := by
  unfold scanName
  dsimp only
  split <;> exact nofun

theorem kind_scanQuoted (cs : List Char) : (scanQuoted cs).kind ∈ [.invalid, .string] := by
  fun_induction scanQuoted cs <;> simp_all +zetaDelta

theorem kind_scanBlock (cs : List Char) : (scanBlock cs).kind ∈ [.invalid, .blockString] := by
  fun_induction scanBlock cs <;> simp_all +zetaDelta

/-- Only a closing brace is scanned as one. -/
theorem eq_brace_of_scan (h : (scan c rest).kind = .mark .closeBrace) : c = '\x7d' := by
  unfold scan at h
  split at h
  · rename_i m hmark
    rw [TokenKind.mark.injEq] at h
    subst h
    unfold Mark.ofChar? at hmark
    split at hmark <;> simp_all
  · split at h
    · split at h <;> cases h
    · split at h
      · split at h
        · have hkind := kind_scanBlock ‹_›
          simp_all
        · have hkind := kind_scanQuoted rest
          simp_all
      · split at h
        · have hkind := kind_scanNumber (c :: rest)
          simp_all
        · split at h
          · exact absurd h (kind_scanName_ne _ _)
          · cases h

/-- The end of the text is the last token. -/
theorem tokensFrom_eq_append (place : Nat) (cs : List Char) :
    ∃ tokens, tokensFrom place cs = tokens ++ [Token.finish (place + Text.byteLength cs)] := by
  induction hn : cs.length using Nat.strongRecOn generalizing place cs with
  | ind n ih =>
      rcases next_cases cs with hnone | ⟨ignored, c, rest, hcs, hsplit, hlt⟩
      · exact ⟨[], tokensFrom_of_ignored hnone place⟩
      · obtain ⟨tokens, htokens⟩ := ih _ (hn ▸ hlt)
          (place + Text.byteLength ignored + Text.byteLength (scan c rest).taken) (scan c rest).left rfl
        refine ⟨tokensOf (place + Text.byteLength ignored) (scan c rest) ++ tokens, ?_⟩
        rw [tokensFrom_of_kept hsplit, htokens, List.append_assoc, hcs, ← scan_append c rest,
          Text.byteLength_append,
          Text.byteLength_append, Nat.add_assoc, Nat.add_assoc, ← Nat.add_assoc (Text.byteLength ignored)]

/-- **A stretch of tokens is a stretch of text.** From a token on up to a closing brace, the text by
itself gives the same tokens wherever it stands and whatever comes behind. -/
theorem exists_stretch {mid : List Token} {last : Token}
    (h : tokensFrom 0 cs = pre ++ t :: (mid ++ last :: post))
    (hvalid : t.kind ≠ .invalid) (hfinish : t.kind ≠ .finish) (hkind : last.kind = .mark .closeBrace) :
    ∃ before text after, cs = before ++ (text ++ after) ∧ t.span.start = Text.byteLength before ∧
      last.span.stop = Text.byteLength before + Text.byteLength text ∧ ∀ n' after', ∃ tokens,
        tokensFrom n' (text ++ after') = tokens ++ tokensFrom (n' + Text.byteLength text) after' ∧
        List.Forall₂ (Token.Like (Moved (Text.byteLength before) n' (Text.byteLength text)))
          (t :: mid ++ [last])
          tokens := by
  obtain ⟨before, c, rest, rfl, hkept, ht, hpost⟩ := exists_of_tokensFrom h hvalid hfinish
  rw [Nat.zero_add] at ht
  have hfrom : tokensFrom (Text.byteLength before) (c :: rest) = t :: mid ++ last :: post := by
    rw [tokensFrom_of_kept (splitIgnored_kept hkept rest), List.cons_append, hpost, ht,
      tokensOf_of_valid (by rw [ht] at hvalid; exact hvalid)]
    rfl
  obtain ⟨r, d, s, hcs, -, hlast, -⟩ :=
    exists_of_tokensFrom hfrom (by rw [hkind]; nofun) (by rw [hkind]; nofun)
  obtain rfl := eq_brace_of_scan (by rw [← hkind, hlast])
  have hlength : Text.byteLength (r ++ ['\x7d']) = Text.byteLength r + 1 := Text.byteLength_append r ['\x7d']
  have htext : ∀ after, r ++ ['\x7d'] ++ after = r ++ '\x7d' :: after := fun after => by
    rw [List.append_assoc, List.singleton_append]
  refine ⟨before, r ++ ['\x7d'], s, by rw [hcs, htext], by rw [ht], by rw [hlast, hlength]; rfl,
    fun n' after' => ?_⟩
  rw [htext, hlength, ← Nat.add_assoc]
  exact tokensFrom_brace (hcs ▸ hfrom) hkind (by rw [hlast]) (Moved.origin _ _ _) (Nat.le_refl _) after'

end Lexer

end GraphClient
