import GraphClient.Bindings.Generate
import Mathlib

/-! Verbatim literals. A literal that is taken verbatim ends at the first quote behind which as many
number signs follow as stand in front of its opening quote. The number of signs around a text is one
more than the longest run of them behind a quote of the text (`longestRun_eq`), so that no quote of
the text ends the literal, and with fewer of them one would (`delimits_hashCount`). Hence the text of
an operation is read back from the generated module just as it is. -/

namespace GraphClient.Bindings

open Code

/-- What ends a literal: a quote and number signs. -/
def closing (hashes : Nat) : List Char := '"' :: List.replicate hashes '#'

/-- A literal with so many number signs around its quotes. -/
def enclosed (hashes : Nat) (text : List Char) : List Char :=
  'r' :: List.replicate hashes '#' ++ '"' :: (text ++ closing hashes)

/-- How many number signs a text starts with. -/
def signsAhead (cs : List Char) : Nat := (cs.takeWhile (· = '#')).length

/-- What comes before the first end of a literal, and what comes behind this end. -/
def readContent? (hashes : Nat) : List Char → Option (List Char × List Char)
  | [] => none
  | c :: rest =>
      if closing hashes <+: c :: rest then some ([], rest.drop hashes)
      else (readContent? hashes rest).map fun r => (c :: r.1, r.2)

/-- The content of the literal that a text starts with, and what comes behind the literal. -/
def readVerbatim? : List Char → Option (List Char × List Char)
  | 'r' :: rest =>
      match rest.drop (signsAhead rest) with
      | '"' :: body => readContent? (signsAhead rest) body
      | _ => none
  | _ => none

/-- The longest run of number signs right behind a quote. -/
def longestBehindQuote : List Char → Nat
  | [] => 0
  | c :: rest => max (if c = '"' then signsAhead rest else 0) (longestBehindQuote rest)

theorem signsAhead_cons (c : Char) (rest : List Char) :
    signsAhead (c :: rest) = if c = '#' then signsAhead rest + 1 else 0 := by
  rw [signsAhead, List.takeWhile_cons]
  by_cases hc : c = '#' <;> simp [hc, signsAhead]

theorem replicate_prefix_iff {hashes : Nat} {cs : List Char} :
    List.replicate hashes '#' <+: cs ↔ hashes ≤ signsAhead cs := by
  induction cs generalizing hashes with
  | nil => cases hashes <;> simp [signsAhead, List.replicate_succ]
  | cons c rest ih =>
      cases hashes with
      | zero => simp
      | succ hashes =>
          rw [List.replicate_succ, List.cons_prefix_cons, ih, signsAhead_cons]
          by_cases hc : c = '#'
          · simp [hc]
          · simp [hc, Ne.symm hc]

theorem closing_prefix_iff {hashes : Nat} {c : Char} {rest : List Char} :
    closing hashes <+: c :: rest ↔ c = '"' ∧ hashes ≤ signsAhead rest := by
  rw [closing, List.cons_prefix_cons, replicate_prefix_iff, eq_comm]

/-- A text has an end of a literal with at least one number sign just if a run behind a quote is as long. -/
theorem closing_infix_iff {hashes : Nat} (hpos : 0 < hashes) {cs : List Char} :
    closing hashes <:+: cs ↔ hashes ≤ longestBehindQuote cs := by
  induction cs with
  | nil =>
      simp [closing, longestBehindQuote]
      omega
  | cons c rest ih =>
      rw [List.infix_cons_iff, closing_prefix_iff, ih, longestBehindQuote, le_max_iff]
      by_cases hc : c = '"'
      · simp [hc]
      · simp [hc]
        omega

/-- The length that a run comes to if it goes on through the signs ahead. -/
def runThrough (current : Option Nat) (cs : List Char) : Nat :=
  match current with
  | some run => run + signsAhead cs
  | none => 0

/-- A run ends in front of any other character. -/
theorem runThrough_le {current : Option Nat} {longest : Nat}
    (hcurrent : ∀ run ∈ current, run ≤ longest) {c : Char}
    (hc : c ≠ '#') (rest : List Char) : runThrough current (c :: rest) ≤ longest := by
  cases current with
  | none => exact Nat.zero_le longest
  | some run =>
      rw [runThrough, signsAhead_cons, if_neg hc]
      exact hcurrent run rfl

/-- The longest run so far, the run that is going on and the longest run ahead, whichever is longest. -/
theorem longestRun_eq {current : Option Nat} {longest : Nat}
    (hcurrent : ∀ run ∈ current, run ≤ longest) (cs : List Char) :
    longestRun current longest cs = max (max longest (runThrough current cs)) (longestBehindQuote cs) := by
  induction cs generalizing current longest with
  | nil =>
      rw [longestRun, longestBehindQuote, Nat.max_zero]
      cases current with
      | none => exact (Nat.max_zero longest).symm
      | some run => exact (max_eq_left (hcurrent run rfl)).symm
  | cons c rest ih =>
      by_cases hquote : c = '"'
      · -- a new run starts, and the one that is going on ends
        subst hquote
        have hends := runThrough_le hcurrent (by decide : '"' ≠ '#') rest
        have hstarts : runThrough (some 0) rest = signsAhead rest := Nat.zero_add _
        rw [longestRun, ih (by simp), longestBehindQuote, if_pos rfl]
        omega
      · rw [longestBehindQuote, if_neg hquote, Nat.zero_max]
        by_cases hsign : c = '#'
        · subst hsign
          cases current with
          | none => exact ih (by simp)
          | some run =>
              rw [longestRun, ih (by simp)]
              simp only [runThrough, signsAhead_cons, if_true]
              omega
        · have hends := runThrough_le hcurrent hsign rest
          have hnone : runThrough none rest = 0 := rfl
          have hother : longestRun current longest (c :: rest) = longestRun none longest rest := by
            rw [longestRun]
            · exact hquote
            · exact hsign
          rw [hother, ih (by simp)]
          omega

/-- One sign more than the longest run of a text stands around it. -/
theorem hashCount_eq (text : String) : hashCount text = longestBehindQuote text.toList + 1 := by
  rw [hashCount, longestRun_eq (by simp)]
  simp [runThrough]

/-- What comes behind a quote does not make the runs before it longer. -/
theorem signsAhead_append_quote (cs rest : List Char) : signsAhead (cs ++ '"' :: rest) = signsAhead cs := by
  induction cs with
  | nil => rfl
  | cons c cs ih => rw [List.cons_append, signsAhead_cons, signsAhead_cons, ih]

/-- An end of the literal that starts before a quote is over before it. -/
theorem closing_prefix_append_quote_iff {hashes : Nat} {c : Char} {cs rest : List Char} :
    closing hashes <+: c :: (cs ++ '"' :: rest) ↔ closing hashes <+: c :: cs := by
  rw [closing_prefix_iff, closing_prefix_iff, signsAhead_append_quote]

variable {hashes : Nat} {content rest : List Char}

/-- The content ends where the literal is closed, if nothing in it closes the literal. -/
theorem readContent?_of_not_infix (hcontent : ¬closing hashes <:+: content) :
    readContent? hashes (content ++ (closing hashes ++ rest)) = some (content, rest) := by
  induction content with
  | nil =>
      rw [List.nil_append, closing, List.cons_append, readContent?, if_pos]
      · rw [List.drop_left' (List.length_replicate)]
      · exact List.prefix_append _ _
  | cons c cs ih =>
      rw [List.infix_cons_iff, not_or] at hcontent
      have hnot : ¬closing hashes <+: c :: (cs ++ (closing hashes ++ rest)) :=
        mt closing_prefix_append_quote_iff.1 hcontent.1
      rw [List.cons_append, readContent?, if_neg hnot, ih hcontent.2]
      rfl

/-- If something in the text closes the literal, the content is what comes before. -/
theorem readContent?_of_infix {text : List Char} (htext : closing hashes <:+: text) (rest : List Char) :
    ∃ content after, text = content ++ (closing hashes ++ after) ∧
      readContent? hashes (text ++ '"' :: rest) = some (content, after ++ '"' :: rest) := by
  induction text with
  | nil => cases List.infix_nil.1 htext
  | cons c cs ih =>
      by_cases hfirst : closing hashes <+: c :: cs
      · obtain ⟨after, hafter⟩ := hfirst
        refine ⟨[], after, hafter.symm, ?_⟩
        rw [List.cons_append, readContent?, if_pos (closing_prefix_append_quote_iff.2 ⟨after, hafter⟩)]
        rw [closing, List.cons_append, List.cons.injEq] at hafter
        rw [← hafter.2, List.append_assoc, List.drop_left' (List.length_replicate)]
      · obtain ⟨content, after, hcs, hread⟩ := ih ((List.infix_cons_iff.1 htext).resolve_left hfirst)
        refine ⟨c :: content, after, by rw [hcs, List.cons_append], ?_⟩
        rw [List.cons_append, readContent?, if_neg (mt closing_prefix_append_quote_iff.1 hfirst), hread]
        rfl

/-- The signs in front of the opening quote say where the literal ends. -/
theorem readVerbatim?_enclosed (hashes : Nat) (text rest : List Char) :
    readVerbatim? (enclosed hashes text ++ rest) =
      readContent? hashes (text ++ (closing hashes ++ rest)) := by
  have hliteral : enclosed hashes text ++ rest =
      'r' :: (List.replicate hashes '#' ++ '"' :: (text ++ (closing hashes ++ rest))) := by
    simp [enclosed]
  have hsigns : signsAhead (List.replicate hashes '#' ++ '"' :: (text ++ (closing hashes ++ rest))) =
      hashes := by
    rw [signsAhead_append_quote, signsAhead, List.takeWhile_replicate]
    simp
  rw [hliteral, readVerbatim?, hsigns, List.drop_left' (List.length_replicate)]
  rfl

/-- That a literal with so many number signs holds a text, and that with fewer signs
it would end within the text. -/
structure Delimits (hashes : Nat) (text : List Char) : Prop where
  read : ∀ rest, readVerbatim? (enclosed hashes text ++ rest) = some (text, rest)
  least : ∀ fewer, 0 < fewer → fewer < hashes → ∀ rest, ∃ content after, text = content ++
    (closing fewer ++ after) ∧
    readVerbatim? (enclosed fewer text ++ rest) = some (content, after ++ (closing fewer ++ rest))

theorem delimits_hashCount (text : String) : Delimits (hashCount text) text.toList where
  read rest := by
    have hfree : ¬closing (hashCount text) <:+: text.toList := by
      rw [closing_infix_iff (by rw [hashCount_eq]; omega), hashCount_eq]
      omega
    rw [readVerbatim?_enclosed, readContent?_of_not_infix hfree]
  least fewer hpos hfewer rest := by
    rw [hashCount_eq] at hfewer
    have hends : closing fewer <:+: text.toList := (closing_infix_iff hpos).2 (by omega)
    obtain ⟨content, after, htext, hread⟩ := readContent?_of_infix hends (List.replicate fewer '#' ++ rest)
    refine ⟨content, after, htext, ?_⟩
    rw [readVerbatim?_enclosed]
    exact hread

theorem toList_verbatim (text : String) : (verbatim text).toList = enclosed (hashCount text) text.toList := by
  simp [verbatim, enclosed, closing, String.toList_append]

theorem infix_renderAll {c : Code} {code : List Code} (hc : c ∈ code) (depth : Nat) :
    (render depth c).toList <:+: (renderAll depth code).toList := by
  obtain ⟨first, second, rfl⟩ := List.append_of_mem hc
  refine ⟨(renderAll depth first).toList, (renderAll depth second).toList, ?_⟩
  rw [renderAll_append, renderAll, String.toList_append, String.toList_append, List.append_assoc]

theorem infix_render_block (depth : Nat) (head : String) (body : List Code) :
    (renderAll (depth + 1) body).toList <:+: (render depth (block head body)).toList := by
  rw [render, String.toList_append, String.toList_append]
  exact List.infix_append _ _ _

theorem suffix_render_line (depth : Nat) {text : String} (htext : text ≠ "") :
    (text ++ "\n").toList <:+ (render depth (line text)).toList := by
  rw [render, if_neg (by simpa using htext)]
  simp only [renderLine, String.toList_append, List.append_assoc]
  exact List.suffix_append _ _

/-- What stands in front of the literal. -/
def documentHead : String := "pub const DOCUMENT: &'static str = "

theorem documentLine_mem (g : TypeGraph) (o : Operation) : ∃ head body, block head body ∈ operationCode g o ∧
    line (documentHead ++ verbatim o.source ++ ";") ∈ body := by
  simp only [operationCode, List.mem_cons]
  exact ⟨_, _, .inr (.inr (.inr (.inr (.inl rfl)))),
    List.mem_cons_of_mem _ (List.mem_cons_of_mem _ List.mem_cons_self)⟩

/-- The line with the literal is in the module. -/
theorem infix_generate (g : TypeGraph) (scalars : Registry) {operations : List Operation} {options : Options}
    (hoperations : options.operations = true) {o : Operation} (ho : o ∈ operations) :
    (documentHead ++ verbatim o.source ++ ";" ++ "\n").toList <:+:
      (generate g operations scalars options).toList := by
  obtain ⟨head, body, hblock, hline⟩ := documentLine_mem g o
  have hmodule : block head body ∈ moduleCode ⟨g, scalars⟩ operations options := by
    rw [moduleCode, if_pos hoperations]
    exact List.mem_append_right _ (List.mem_flatMap.2 ⟨o, ho, hblock⟩)
  have hsome : documentHead ++ verbatim o.source ++ ";" ≠ "" := by simp
  calc (documentHead ++ verbatim o.source ++ ";" ++ "\n").toList
      <:+: (render 1 (line (documentHead ++ verbatim o.source ++ ";"))).toList :=
        (suffix_render_line 1 hsome).isInfix
    _ <:+: (renderAll 1 body).toList := infix_renderAll hline 1
    _ <:+: (render 0 (block head body)).toList := infix_render_block 0 head body
    _ <:+: (generate g operations scalars options).toList := infix_renderAll hmodule 0

/-- What a literal stands for. Nothing is told of one with a carriage return, which
is for the compiler to treat. -/
def literalValue? (cs : List Char) : Option String :=
  (readVerbatim? cs).bind fun r => if '\r' ∈ r.1 then none else some (String.ofList r.1)

/-- What is asked of the literal that a text is put into. -/
structure TakenVerbatim (text : String) : Prop where
  literal : (verbatim text).toList = enclosed (hashCount text) text.toList
  delimits : Delimits (hashCount text) text.toList
  /-- Each operation with the text has it for the value of a constant of the module. -/
  constant : ∀ g scalars operations options o, options.operations = true → o ∈ operations → o.source = text →
    ∃ before after, (generate g operations scalars options).toList =
      before ++ (documentHead.toList ++ ((verbatim text).toList ++ after)) ∧
        readVerbatim? ((verbatim text).toList ++ after) = some (text.toList, after) ∧
        ('\r' ∉ text.toList → literalValue? ((verbatim text).toList ++ after) = some text)

/-- **Texts of operations.** The literal of every text ends at its own last quote, and with fewer
signs, as long as there are any, it would not. -/
theorem verbatim_delimits_text (text : String) : TakenVerbatim text where
  literal := toList_verbatim text
  delimits := delimits_hashCount text
  constant g scalars operations options o hoperations ho hsource := by
    obtain ⟨before, after, hcode⟩ := infix_generate g scalars hoperations ho
    have hread := (delimits_hashCount text).read (";\n".toList ++ after)
    rw [← toList_verbatim] at hread
    refine ⟨before, ";\n".toList ++ after, ?_, hread, fun hreturn => ?_⟩
    · rw [← hcode, hsource]
      simp [String.toList_append]
    · rw [literalValue?, hread, Option.bind_some, if_neg hreturn, String.ofList_toList]

section Sample

/-- A text with runs of two lengths behind quotes, and one that no quote stands before. -/
def signsText : String := "query Q \x7b a(x: \"#\") \x7d ### \"##"

def signsOperation : Operation where
  name := "Q"
  kind := .query
  rootType := "Query"
  selection := .mk "Query" [] false []
  variableDefinitions := []
  source := signsText

theorem verbatim_delimits_signsText :
    hashCount signsText = 3 ∧ signsOperation ∈ [signsOperation] ∧
      ∃ before after, (generate ⟨.empty, "Query", none, none⟩ [signsOperation] .standard .default).toList =
        before ++ (documentHead.toList ++ ((verbatim signsText).toList ++ after)) ∧
          literalValue? ((verbatim signsText).toList ++ after) = some signsText := by
  refine ⟨by decide, List.mem_singleton_self _, ?_⟩
  obtain ⟨before, after, hcode, -, hvalue⟩ :=
    (verbatim_delimits_text signsText).constant ⟨.empty, "Query", none, none⟩
    .standard [signsOperation] .default signsOperation rfl (List.mem_singleton_self _) rfl
  exact ⟨before, after, hcode, hvalue (by decide)⟩

end Sample

end GraphClient.Bindings
