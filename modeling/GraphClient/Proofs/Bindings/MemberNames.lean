import GraphClient.Bindings.Names
import GraphClient.Proofs.Text.Words

/-! The names of an enumeration's members. A member is tried under its name in Pascal case, and then
under this name with two, three and so on behind it, until one is free. The names tried are all
different and only those of the members before are taken, so this ends (`probes_freshName`). A name in
Pascal case starts with a capital letter, or gets one in front, and only `Self` among the words with a
capital is a keyword; so the names are identifiers (`memberNames_usable`). -/

namespace GraphClient

open Lexer (isNamePart)

namespace Bindings

/-- That the names tried one after the other come to an end. The first `name` is at hand, and
`number` is the next one to be put behind the base; at the end the `result` is at hand, and `last`
would have been the next number. -/
inductive Probes (taken : List String) (base : String) :
    (name : String) → (number : Nat) → (result : String) → (last : Nat) → Prop
  | free {name : String} {number : Nat} (hfree : name ∉ taken) : Probes taken base name number name number
  | next {name result : String} {number last : Nat} (htaken : name ∈ taken)
      (hnext : Probes taken base (base ++ toString number) (number + 1) result last) :
      Probes taken base name number result last

namespace Probes

variable {taken taken' : List String} {base name result result' : String} {number last last' : Nat}

/-- It matters only which names are taken, not in what order. -/
theorem congr (hsame : ∀ n, n ∈ taken ↔ n ∈ taken') (hprobes : Probes taken base name number result last) :
    Probes taken' base name number result last := by
  induction hprobes with
  | free hfree => exact .free fun hmem => hfree ((hsame _).2 hmem)
  | next htaken _ ih => exact .next ((hsame _).1 htaken) ih

theorem unique (hprobes : Probes taken base name number result last)
    (hprobes' : Probes taken base name number result' last') : result = result' ∧ last = last' := by
  induction hprobes with
  | free hfree =>
      cases hprobes' with
      | free => exact ⟨rfl, rfl⟩
      | next htaken => exact absurd htaken hfree
  | next htaken _ ih =>
      cases hprobes' with
      | free hfree => exact absurd htaken hfree
      | next _ hnext => exact ih hnext

theorem iff_eq (hprobes : Probes taken base name number result last) :
    Probes taken base name number result' last' ↔ result' = result ∧ last' = last := by
  constructor
  · exact fun hprobes' => hprobes'.unique hprobes
  · rintro ⟨rfl, rfl⟩
    exact hprobes

theorem notMem (hprobes : Probes taken base name number result last) : result ∉ taken := by
  induction hprobes with
  | free hfree => exact hfree
  | next _ _ ih => exact ih

/-- What is found is the first name, or the base with a number behind it. -/
theorem result_eq (hprobes : Probes taken base name number result last) :
    result = name ∨ ∃ n : Nat, result = base ++ toString n := by
  induction hprobes with
  | free => exact .inl rfl
  | @next _ _ number _ _ _ ih => exact .inr (ih.elim (fun heq => ⟨number, heq⟩) id)

end Probes

variable {taken : List String} {base : String}

/-- Where the base with some number is free, it is found if those with the numbers before are taken. -/
theorem probes_numbered {number i : Nat} (hfree : base ++ toString (number + i) ∉ taken)
    (htaken : ∀ j < i, base ++ toString (number + j) ∈ taken) :
    Probes taken base (base ++ toString number) (number + 1) (base ++ toString (number + i))
      (number + 1 + i) := by
  induction i generalizing number with
  | zero => exact .free hfree
  | succ i ih =>
      have hshift (j k : Nat) : j + (k + 1) = j + 1 + k := by omega
      rw [hshift] at hfree
      have hrest := ih hfree fun j hj => hshift number j ▸ htaken (j + 1) (Nat.succ_lt_succ hj)
      rw [hshift number i, hshift (number + 1) i]
      exact .next (htaken 0 (Nat.succ_pos i)) hrest

/-- One of the numbers, one more than there are names taken, gives a free name. -/
theorem exists_free_number (taken : List String) (base : String) :
    ∃ i ∈ List.range (taken.length + 1), base ++ toString (i + 2) ∉ taken := by
  by_contra hnot
  push Not at hnot
  have hinjective : Function.Injective fun i : Nat => base ++ toString (i + 2) := by
    intro i j heq
    have hnumbers : i + 2 = j + 2 := Nat.repr_injective ((String.append_right_inj base).1 heq)
    omega
  have hnodup : ((List.range (taken.length + 1)).map fun i => base ++ toString (i + 2)).Nodup :=
    List.nodup_range.map hinjective
  have hlength := (hnodup.subperm fun name hname => by
    obtain ⟨i, hi, rfl⟩ := List.mem_map.1 hname
    exact hnot i hi).length_le
  rw [List.length_map, List.length_range] at hlength
  omega

/-- A free name is found, and no number greater than the number of names taken by more than two is needed. -/
theorem probes_freshName (taken : List String) (base : String) :
    ∃ last, last ≤ taken.length + 3 ∧ Probes taken base base 2 (freshName taken base) last := by
  rw [freshName]
  split
  · rename_i hfree
    exact ⟨2, by omega, .free hfree⟩
  · rename_i htaken
    dsimp only
    rw [List.find?_map]
    cases hfind : (List.range (taken.length + 1)).find?
      ((fun n => decide (n ∉ taken)) ∘ fun i => base ++ toString (i + 2)) with
    | none =>
        obtain ⟨i, hi, hfree⟩ := exists_free_number taken base
        exact absurd (decide_eq_true hfree) (List.find?_eq_none.1 hfind i hi)
    | some i =>
        obtain ⟨hfree, hi, hbefore⟩ := List.find?_range_eq_some.1 hfind
        have hlt := List.mem_range.1 hi
        refine ⟨2 + 1 + i, by omega, .next (not_not.1 htaken) ?_⟩
        rw [Option.map_some, Option.getD_some, Nat.add_comm i 2]
        refine probes_numbered (by simpa [Nat.add_comm] using hfree) fun j hj => ?_
        simpa [Nat.add_comm] using hbefore j hj

variable {wireNames : List String}

theorem length_memberNamesFrom : (memberNamesFrom taken wireNames).length = wireNames.length := by
  induction wireNames generalizing taken with
  | nil => rfl
  | cons wireName rest ih => rw [memberNamesFrom, List.length_cons, List.length_cons, ih]

/-- Each name is found among those before it and those taken at the beginning. -/
theorem probes_memberNamesFrom {i : Nat} {wireName name : String} (hwire : wireNames[i]? = some wireName)
    (hname : (memberNamesFrom taken wireNames)[i]? = some name) :
    ∃ last, last ≤ taken.length + i + 3 ∧
      Probes ((memberNamesFrom taken wireNames).take i ++ taken) (memberName wireName)
        (memberName wireName) 2 name last := by
  induction wireNames generalizing taken i with
  | nil => cases hwire
  | cons first rest ih =>
      rw [memberNamesFrom] at hname ⊢
      cases i with
      | zero =>
          rw [List.getElem?_cons_zero, Option.some.injEq] at hwire hname
          rw [← hwire, ← hname]
          exact probes_freshName taken (memberName first)
      | succ i =>
          obtain ⟨last, hlast, hprobes⟩ := ih hwire hname
          rw [List.length_cons] at hlast
          refine ⟨last, by omega, hprobes.congr fun n => ?_⟩
          rw [List.take_succ_cons]
          exact List.perm_middle.mem_iff

theorem memberNamesFrom_nodup :
    (memberNamesFrom taken wireNames).Nodup ∧ ∀ name ∈ memberNamesFrom taken wireNames, name ∉ taken := by
  induction wireNames generalizing taken with
  | nil => exact ⟨List.nodup_nil, List.forall_mem_nil _⟩
  | cons wireName rest ih =>
      obtain ⟨last, -, hprobes⟩ := probes_freshName taken (memberName wireName)
      obtain ⟨hnodup, hapart⟩ := @ih (freshName taken (memberName wireName) :: taken)
      rw [memberNamesFrom]
      refine ⟨List.nodup_cons.2 ⟨fun hmem => hapart _ hmem List.mem_cons_self, hnodup⟩, ?_⟩
      exact List.forall_mem_cons.2 ⟨hprobes.notMem,
        fun name hname hmem => hapart name hname (List.mem_cons_of_mem _ hmem)⟩

/-- Further members do not change the names of the earlier ones. -/
theorem memberNamesFrom_append (more : List String) :
    memberNamesFrom taken wireNames <+: memberNamesFrom taken (wireNames ++ more) := by
  induction wireNames generalizing taken with
  | nil => exact List.nil_prefix
  | cons wireName rest ih =>
      rw [List.cons_append, memberNamesFrom, memberNamesFrom]
      exact List.cons_prefix_cons.2 ⟨rfl, ih⟩

/-- That a name is a capital letter followed by what words may hold, and not the one keyword of this kind. -/
structure IsCapitalised (name : String) : Prop where
  first : name.toList.head?.any Char.isUpper = true
  parts : name.toList.all isNamePart = true
  ne_self : name ≠ "Self"

instance (name : String) : Decidable (IsCapitalised name) :=
  decidable_of_iff (name.toList.head?.any Char.isUpper = true ∧ name.toList.all isNamePart =
    true ∧ name ≠ "Self")
    ⟨fun h => ⟨h.1, h.2.1, h.2.2⟩, fun h => ⟨h.first, h.parts, h.ne_self⟩⟩

namespace IsCapitalised

variable {name : String}

theorem exists_cons (hname : IsCapitalised name) : ∃ c rest, name.toList = c :: rest ∧ c.isUpper = true := by
  obtain ⟨c, hc, hupper⟩ := (Option.any_eq_true _ _).1 hname.first
  obtain ⟨rest, hrest⟩ := List.head?_eq_some_iff.1 hc
  exact ⟨c, rest, hrest, hupper⟩

theorem isIdentifier (hname : IsCapitalised name) : IsIdentifier name := by
  obtain ⟨c, rest, hchars, hupper⟩ := hname.exists_cons
  refine .plain ⟨?_, hname.parts⟩ ?_ fun hkeyword => ?_
  · rw [hchars, List.head?_cons, Option.any_some, Lexer.isNameStart, Char.isAlpha, hupper]
    rfl
  · rintro rfl
    exact absurd hname.first (by decide)
  · have hself : ∀ k ∈ keywords, k.toList.head?.any Char.isUpper = true → k = "Self" := by decide
    exact hname.ne_self (hself name hkeyword hname.first)

/-- A number may be put behind. -/
theorem append_number (hname : IsCapitalised name) (n : Nat) : IsCapitalised (name ++ toString n) := by
  have hdigits : ∀ c ∈ (toString n).toList, c.isDigit = true := by
    intro c hc
    rw [Nat.toString_eq_repr, Nat.toList_repr] at hc
    exact Nat.isDigit_of_mem_toDigits (by decide) (by decide) hc
  have hsome : (toString n).toList ≠ [] := by
    rw [Nat.toString_eq_repr, Nat.toList_repr]
    exact Nat.toDigits_ne_nil
  obtain ⟨c, rest, hchars, hupper⟩ := hname.exists_cons
  constructor
  · rw [String.toList_append, hchars]
    exact hupper
  · rw [String.toList_append, List.all_append, hname.parts, Bool.true_and, List.all_eq_true]
    intro d hd
    simp [isNamePart, Char.isAlphanum, hdigits d hd]
  · intro hself
    -- the last character would be a letter
    have hlast : (name ++ toString n).toList.getLast? = some 'f' := by
      rw [hself]
      rfl
    rw [String.toList_append, List.getLast?_append_of_ne_nil _ hsome] at hlast
    exact absurd (hdigits 'f' (List.mem_of_getLast? hlast)) (by decide)

end IsCapitalised

theorem isAlphanum_toUpper {c : Char} (hc : c.isAlphanum = true) : c.toUpper.isAlphanum = true := by
  by_cases hlower : c.isLower = true
  · rw [Char.isAlphanum, Char.isAlpha_toUpper_eq_isAlpha, Char.isAlpha, hlower, Bool.or_true, Bool.true_or]
  · rwa [Char.toUpper_eq_of_not_isLower (by simpa using hlower)]

theorem isAlphanum_toLower {c : Char} (hc : c.isAlphanum = true) : c.toLower.isAlphanum = true := by
  by_cases hupper : c.isUpper = true
  · rw [Char.isAlphanum, Char.isAlpha_toLower_eq_isAlpha, Char.isAlpha, hupper, Bool.true_or, Bool.true_or]
  · rwa [Char.toLower_eq_of_not_isUpper (by simpa using hupper)]

theorem not_isLower_of_isDigit {c : Char} (hc : c.isDigit = true) : ¬c.isLower = true := by
  simp only [Char.isDigit, Char.isLower, Bool.and_eq_true, decide_eq_true_eq, ge_iff_le,
    UInt32.le_iff_toNat_le] at hc ⊢
  have hdigit : c.val.toNat ≤ 57 := hc.2
  rintro ⟨hlower, -⟩
  have hlower : 97 ≤ c.val.toNat := hlower
  omega

theorem isAlphanum_capitalise {l : List Char} (hl : ∀ c ∈ l, c.isAlphanum = true) :
    ∀ c ∈ Casing.capitalise l, c.isAlphanum = true := by
  cases l with
  | nil => exact hl
  | cons first rest =>
      obtain ⟨hfirst, hrest⟩ := List.forall_mem_cons.1 hl
      rw [Casing.capitalise]
      refine List.forall_mem_cons.2 ⟨isAlphanum_toUpper hfirst, ?_⟩
      split
      · exact hrest
      · exact List.forall_mem_map.2 fun c hc => isAlphanum_toLower (hrest c hc)

/-- What underscores divide in a word has letters and digits only. -/
theorem isAlphanum_of_mem_split {name : String} (hname : IsWord name) :
    ∀ l ∈ name.toList.splitOn '_', ∀ c ∈ l, c.isAlphanum = true := by
  intro l hl c hc
  obtain ⟨hmem, hne⟩ := mem_of_mem_splitOn hl hc
  have hpart := List.all_eq_true.1 hname.2 c hmem
  simpa [isNamePart, hne] using hpart

/-- Pascal case leaves letters and digits only, and no small letter in front. -/
theorem isAlphanum_pascal {name : String} (hname : IsWord name) :
    (∀ c ∈ (Casing.pascal name).toList, c.isAlphanum = true) ∧
      ∀ c ∈ (Casing.pascal name).toList.head?, c.isUpper = true ∨ c.isDigit = true := by
  have hpieces : ∀ l ∈ (name.toList.splitOn '_').filter (!·.isEmpty), ∀ c ∈ l, c.isAlphanum = true :=
    fun l hl => isAlphanum_of_mem_split hname l (List.mem_of_mem_filter hl)
  rw [Casing.pascal, String.toList_ofList]
  constructor
  · intro c hc
    obtain ⟨l, hl, hc⟩ := List.mem_flatMap.1 hc
    exact isAlphanum_capitalise (hpieces l hl) c hc
  · cases hfilter : (name.toList.splitOn '_').filter (!·.isEmpty) with
    | nil => exact fun c hc => by cases hc
    | cons l others =>
        have hl : l ∈ (name.toList.splitOn '_').filter (!·.isEmpty) := hfilter ▸ List.mem_cons_self
        cases l with
        | nil => exact absurd (List.mem_filter.1 hl).2 (by decide)
        | cons first rest =>
            rintro c hc
            obtain rfl := Option.some.inj hc
            have hfirst := hpieces _ hl first List.mem_cons_self
            rw [Char.isUpper_toUpper_eq_isAlpha]
            rw [Char.isAlphanum, Bool.or_eq_true] at hfirst
            refine hfirst.imp_right fun hdigit => ?_
            rwa [Char.toUpper_eq_of_not_isLower (not_isLower_of_isDigit hdigit)]

theorem isCapitalised_memberName {wireName : String} (hword : IsWord wireName) :
    IsCapitalised (memberName wireName) := by
  obtain ⟨hchars, hhead⟩ := isAlphanum_pascal hword
  have hall : (Casing.pascal wireName).toList.all isNamePart = true :=
    List.all_eq_true.2 fun c hc => by simp [isNamePart, hchars c hc]
  have hkeyword {named : String} (hfirst : named.toList.head?.any Char.isUpper = true)
      (hparts : named.toList.all isNamePart = true) :
        IsCapitalised (if named = "Self" then "Self_" else named) := by
    split
    · decide
    · rename_i hself
      exact ⟨hfirst, hparts, hself⟩
  rw [memberName]
  split
  · exact hkeyword rfl rfl
  · rename_i c rest hcons
    split
    · exact hkeyword (by rw [String.toList_append]; rfl)
        (by rw [String.toList_append, List.all_append, hall]; rfl)
    · rename_i hdigit
      rw [hcons] at hhead
      exact hkeyword (by rw [hcons]; exact (hhead c rfl).resolve_right hdigit) hall

theorem isCapitalised_of_mem {wireNames : List String}
    (hwords : ∀ wireName ∈ wireNames, IsWord wireName) {name : String}
    (hname : name ∈ memberNames wireNames) : IsCapitalised name := by
  obtain ⟨i, hi⟩ := List.getElem?_of_mem hname
  have hlt : i < wireNames.length := by
    obtain ⟨hlt, -⟩ := List.getElem?_eq_some_iff.1 hi
    rwa [memberNames, length_memberNamesFrom] at hlt
  obtain ⟨last, -, hprobes⟩ := probes_memberNamesFrom (List.getElem?_eq_getElem hlt) hi
  have hcapital := isCapitalised_memberName (hwords _ (List.getElem_mem hlt))
  rcases hprobes.result_eq with heq | ⟨n, heq⟩
  · exact heq ▸ hcapital
  · exact heq ▸ hcapital.append_number n

/-- What generated code asks of the names of an enumeration's members. -/
structure UsableNames (wireNames names : List String) : Prop where
  /-- There is one name for each member. -/
  length : names.length = wireNames.length
  /-- The search among the names before a member ends, after at most two tries more than there are of
  them, and it ends with the name of the member only. -/
  found : ∀ i wireName name, wireNames[i]? = some wireName → names[i]? = some name →
    ∃ last, last ≤ i + 3 ∧ ∀ result last',
      Probes (names.take i) (memberName wireName) (memberName wireName) 2 result last' ↔
        result = name ∧ last' = last
  distinct : names.Nodup
  identifier : ∀ name ∈ names, IsIdentifier name
  /-- It starts with a letter. -/
  letter : ∀ name ∈ names, name.toList.head?.any Char.isAlpha = true
  ne_self : "Self" ∉ names
  /-- Further members do not change the names. -/
  stable : ∀ more, names <+: memberNames (wireNames ++ more)

/-- **Names of members.** Members whose names are words get usable names,
however often one of them is there. -/
theorem memberNames_usable {wireNames : List String} (hwords : ∀ wireName ∈ wireNames, IsWord wireName) :
    UsableNames wireNames (memberNames wireNames) where
  length := length_memberNamesFrom
  found i wireName name hwire hname := by
    obtain ⟨last, hlast, hprobes⟩ := probes_memberNamesFrom hwire hname
    rw [List.append_nil] at hprobes
    exact ⟨last, by simpa using hlast, fun _ _ => hprobes.iff_eq⟩
  distinct := memberNamesFrom_nodup.1
  identifier _ hname := (isCapitalised_of_mem hwords hname).isIdentifier
  letter name hname := by
    obtain ⟨c, rest, hchars, hupper⟩ := (isCapitalised_of_mem hwords hname).exists_cons
    rw [hchars, List.head?_cons, Option.any_some, Char.isAlpha, hupper, Bool.true_or]
  ne_self hmem := (isCapitalised_of_mem hwords hmem).ne_self rfl
  stable := memberNamesFrom_append

/-- A name may be taken by a member that has a number of its own, and one member may be there twice. -/
theorem memberNames_usable_foo :
    (∀ wireName ∈ ["FOO", "Foo2", "foo", "FOO", "self", "_1a", "__"], IsWord wireName) ∧
      memberNames ["FOO", "Foo2", "foo", "FOO", "self", "_1a", "__"] =
        ["Foo", "Foo2", "Foo3", "Foo4", "Self_", "V1a", "V"] ∧
      UsableNames ["FOO", "Foo2", "foo", "FOO", "self", "_1a", "__"]
        (memberNames ["FOO", "Foo2", "foo", "FOO", "self", "_1a", "__"]) :=
  ⟨by decide, by decide, memberNames_usable (by decide)⟩

end Bindings

end GraphClient
