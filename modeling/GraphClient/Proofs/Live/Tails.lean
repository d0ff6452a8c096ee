import GraphClient.Proofs.Live.Moves
import Mathlib

/-! A longest increasing part by tails and links. Of every run at hand only the position of its last number
is kept, its tail, and for every position taken a link to the position before it in the run that ended there.
A number is put behind all tails with lower numbers, and these are found by halving, since the numbers at the
tails ascend. A link never changes once it is set, so the links lead through each run from its tail to its
first position, and from the last tail through the longest run (`longestIncreasing_by_tails`). -/

namespace GraphClient.Live

/-- The first place from `low` on and before `high` where a test fails, or `high`, if the
test fails from one place on. -/
def halve (test : Nat → Bool) (low high : Nat) : Nat :=
  if low < high then
    if test ((low + high) / 2) then halve test ((low + high) / 2 + 1) high else
      halve test low ((low + high) / 2)
  else low
termination_by high - low

theorem halve_eq {test : Nat → Bool} {low high n : Nat} (hlow : low ≤ n) (hhigh : n ≤ high)
    (htest : ∀ i < high, test i = true ↔ i < n) : halve test low high = n := by
  fun_induction halve test low high with
  | case1 low high hlt hpass ih =>
      have hbelow := (htest _ (by omega)).1 hpass
      exact ih hbelow hhigh htest
  | case2 low high hlt hfail ih =>
      have habove := mt (htest ((low + high) / 2) (by omega)).2 hfail
      exact ih hlow (by omega) fun i hi => htest i (by omega)
  | case3 low high hdone => omega

/-- What is kept of the runs. -/
structure Tails where
  /-- The position where the run of each length ends. -/
  ends : List Nat
  /-- For each position the one before it in its run. -/
  links : List (Option Nat)

namespace Tails

/-- How many tails have lower numbers. -/
def lower (numbers : List Nat) (t : Tails) (value : Nat) : Nat :=
  halve (fun i => t.ends[i]?.any fun e => numberAt numbers e < value) 0 t.ends.length

/-- What is kept after one more number. -/
def take (numbers : List Nat) (t : Tails) (value : Nat) : Tails :=
  let position := t.links.length
  let length := t.lower numbers value
  ⟨if length = t.ends.length then t.ends ++ [position] else t.ends.set length position,
    t.links ++ [if 0 < length then t.ends[length - 1]? else none]⟩

def takeAll (numbers : List Nat) : Tails := numbers.foldl (take numbers) ⟨[], []⟩

end Tails

/-- That the links lead from a position through others, and then no further. -/
inductive Walks (links : List (Option Nat)) : Option Nat → List Nat → Prop
  | stop : Walks links none []
  | step {position : Nat} {next : Option Nat} {rest : List Nat} (hlink : links[position]? = some next)
      (hrest : Walks links next rest) : Walks links (some position) (position :: rest)

/-- Further links do not change where the earlier ones lead. -/
theorem Walks.append {links : List (Option Nat)} {start : Option Nat} {walked : List Nat}
    (hwalks : Walks links start walked)
    (more : List (Option Nat)) : Walks (links ++ more) start walked := by
  induction hwalks with
  | stop => exact .stop
  | @step position _ _ hlink _ ih =>
      have hlt : position < links.length := (List.getElem?_eq_some_iff.1 hlink).1
      exact .step (by rwa [List.getElem?_append_left hlt]) ih

theorem Walks.unique {links : List (Option Nat)} {start : Option Nat} {walked walked' : List Nat}
    (hwalks : Walks links start walked) (hwalks' : Walks links start walked') : walked = walked' := by
  induction hwalks generalizing walked' with
  | stop =>
      cases hwalks'
      rfl
  | step hlink _ ih =>
      cases hwalks' with
      | step hlink' hrest' =>
          obtain rfl := Option.some.inj (hlink.symm.trans hlink')
          rw [ih hrest']

namespace Run

/-- The position of the last number. -/
def tail (run : Run) : Nat := run.positions.headD 0

end Run

/-- That tails and links are those of some runs, which end one higher than the other. -/
structure Tails.Keeps (numbers : List Nat) (runs : List Run) (t : Tails) : Prop where
  ends : t.ends = runs.map Run.tail
  last : ∀ run ∈ runs, run.last = numberAt numbers run.tail
  walks : ∀ run ∈ runs, Walks t.links (some run.tail) run.positions
  ascends : runs.Pairwise fun run run' => run.last < run'.last

/-- Runs that end one higher than the other are divided by a number. -/
theorem Run.exists_split {runs : List Run}
    (hascends : runs.Pairwise fun run run' => run.last < run'.last) (value : Nat) :
    ∃ below above, runs = below ++ above ∧ (∀ run ∈ below, run.last < value) ∧
      ∀ run ∈ above, value ≤ run.last := by
  induction runs with
  | nil => exact ⟨[], [], rfl, List.forall_mem_nil _, List.forall_mem_nil _⟩
  | cons first rest ih =>
      obtain ⟨hfirst, hrest⟩ := List.pairwise_cons.1 hascends
      by_cases hlt : first.last < value
      · obtain ⟨below, above, rfl, hbelow, habove⟩ := ih hrest
        exact ⟨first :: below, above, rfl, List.forall_mem_cons.2 ⟨hlt, hbelow⟩, habove⟩
      · have hle := Nat.not_lt.1 hlt
        exact ⟨[], first :: rest, rfl, List.forall_mem_nil _,
          List.forall_mem_cons.2 ⟨hle, fun run hrun => Nat.le_trans hle (Nat.le_of_lt (hfirst run hrun))⟩⟩

namespace Tails

variable {numbers : List Nat} {runs below above : List Run} {t : Tails} {value : Nat}

theorem Keeps.lower_eq (hkeeps : Keeps numbers (below ++ above) t) (hbelow : ∀ run ∈ below, run.last < value)
    (habove : ∀ run ∈ above, value ≤ run.last) : t.lower numbers value = below.length := by
  have hlength : t.ends.length = below.length + above.length := by rw [hkeeps.ends,
    List.length_map, List.length_append]
  refine halve_eq (Nat.zero_le _) (by omega) fun i hi => ?_
  have hrun : ∃ run, (below ++ above)[i]? = some run :=
    ⟨_, List.getElem?_eq_getElem (by rw [List.length_append]; omega)⟩
  obtain ⟨run, hrun⟩ := hrun
  have hend : t.ends[i]? = some run.tail := by rw [hkeeps.ends, List.getElem?_map, hrun, Option.map_some]
  rw [hend, Option.any_some, decide_eq_true_eq, ← hkeeps.last run (List.mem_of_getElem? hrun)]
  rcases Nat.lt_or_ge i below.length with hlt | hge
  · rw [List.getElem?_append_left hlt] at hrun
    exact iff_of_true (hbelow run (List.mem_of_getElem? hrun)) hlt
  · rw [List.getElem?_append_right hge] at hrun
    exact iff_of_false (Nat.not_lt.2 (habove run (List.mem_of_getElem? hrun))) (Nat.not_lt.2 hge)

/-- What is kept after one more number, where the runs are divided by it. -/
theorem Keeps.take_eq (hkeeps : Keeps numbers (below ++ above) t) (hbelow : ∀ run ∈ below, run.last < value)
    (habove : ∀ run ∈ above, value ≤ run.last) :
    t.take numbers value = ⟨below.map Run.tail ++ t.links.length :: above.tail.map Run.tail,
      t.links ++ [below.getLast?.map Run.tail]⟩ := by
  have hends : t.ends = below.map Run.tail ++ above.map Run.tail := by rw [hkeeps.ends, List.map_append]
  have hplace : (if below.length = t.ends.length then t.ends ++
      [t.links.length] else t.ends.set below.length t.links.length) =
      below.map Run.tail ++ t.links.length :: above.tail.map Run.tail := by
    cases above with
    | nil => simp [hends]
    | cons run above => simp [hends]
  have hlink : (if 0 < below.length then t.ends[below.length - 1]? else none) =
      below.getLast?.map Run.tail := by
    rw [List.getLast?_eq_getElem?, hends]
    split
    · rw [List.getElem?_append_left (by rw [List.length_map]; omega), List.getElem?_map]
    · rename_i hnone
      obtain rfl := List.length_eq_zero_iff.1 (Nat.eq_zero_of_not_pos hnone)
      rfl
  rw [take, hkeeps.lower_eq hbelow habove]
  exact congrArg₂ Tails.mk hplace (congrArg (t.links ++ [·]) hlink)

/-- **One more number.** Tails and links stay those of the runs. -/
theorem Keeps.take (hkeeps : Keeps numbers runs t) (hvalue : numberAt numbers t.links.length = value) :
    Keeps numbers (Run.place t.links.length value [] runs) (t.take numbers value) := by
  obtain ⟨below, above, rfl, hbelow, habove⟩ := Run.exists_split hkeeps.ascends value
  rw [hkeeps.take_eq hbelow habove,
    Run.place_append hbelow fun run hrun => habove run (List.mem_of_mem_head? hrun)]
  obtain ⟨hascendsBelow, hascendsAbove, hapart⟩ := List.pairwise_append.1 hkeeps.ascends
  have hinBelow {run : Run} (hrun : run ∈ below) : run ∈ below ++ above := List.mem_append_left _ hrun
  have hinAbove {run : Run} (hrun : run ∈ above.tail) : run ∈ below ++ above :=
    List.mem_append_right _ (List.mem_of_mem_tail hrun)
  -- what holds of the runs that stay and of the new one holds of all
  have hall {P : Run → Prop} (hstay : ∀ run ∈ below ++ above, P run) {new : Run} (hnew : P new) :
      ∀ run ∈ below ++ new :: above.tail, P run := by
    rw [List.forall_mem_append, List.forall_mem_cons]
    exact ⟨fun run hrun => hstay run (hinBelow hrun), hnew, fun run hrun => hstay run (hinAbove hrun)⟩
  refine ⟨?_, hall hkeeps.last hvalue.symm, hall (fun run hrun => (hkeeps.walks run hrun).append _) ?_, ?_⟩
  · rw [List.map_append, List.map_cons]
    rfl
  · refine .step List.getElem?_concat_length ?_
    cases hlast : below.getLast? with
    | none => exact .stop
    | some run => exact (hkeeps.walks run (hinBelow (List.mem_of_getLast? hlast))).append _
  · have hhigher : ∀ run ∈ above.tail, value < run.last := by
      cases above with
      | nil => exact List.forall_mem_nil _
      | cons first above =>
          intro run hrun
          exact Nat.lt_of_le_of_lt (habove first List.mem_cons_self)
            ((List.pairwise_cons.1 hascendsAbove).1 run hrun)
    refine List.pairwise_append.2 ⟨hascendsBelow,
      List.pairwise_cons.2 ⟨hhigher, hascendsAbove.sublist (List.tail_sublist above)⟩, fun run hrun => ?_⟩
    exact List.forall_mem_cons.2 ⟨hbelow run hrun,
      fun run' hrun' => hapart run hrun run' (List.mem_of_mem_tail hrun')⟩

/-- Tails and links are those of the runs after any numbers. -/
theorem Keeps.takeAll {before rest : List Nat} {runs : List Run} {t : Tails}
    (hlinks : t.links.length = before.length) (hkeeps : Keeps (before ++ rest) runs t) :
    Keeps (before ++ rest) (Run.placeAll runs before.length rest)
      (rest.foldl (Tails.take (before ++ rest)) t) := by
  induction rest generalizing before runs t with
  | nil => exact hkeeps
  | cons value rest ih =>
      have hvalue : numberAt (before ++ value :: rest) t.links.length = value := by simp [numberAt, hlinks]
      have hnext := hkeeps.take hvalue
      have hlength : (Tails.take (before ++ value :: rest) t value).links.length =
          (before ++ [value]).length := by
        simp [Tails.take, hlinks]
      rw [hlinks] at hnext
      have hrest := @ih (before ++ [value]) _ _ hlength (by simpa using hnext)
      simpa [Run.placeAll] using hrest

end Tails

/-- **A longest increasing part.** The positions come in order, the numbers at them are an
increasing part that none is longer than, and they are, backwards, just those that the links lead
through from the last tail on. -/
theorem longestIncreasing_by_tails (numbers : List Nat) :
    (longestIncreasing numbers).Pairwise (· < ·) ∧ (∀ i ∈ longestIncreasing numbers, i < numbers.length) ∧
      LongestIncreasing numbers ((longestIncreasing numbers).map (numberAt numbers)) ∧
      ∀ walked, Walks (Tails.takeAll numbers).links (Tails.takeAll numbers).ends.getLast? walked ↔
        walked = (longestIncreasing numbers).reverse := by
  have hkeeps : Tails.Keeps numbers (Run.placeAll [] 0 numbers) (Tails.takeAll numbers) :=
    @Tails.Keeps.takeAll [] numbers [] ⟨[], []⟩ rfl
      ⟨rfl, List.forall_mem_nil _, List.forall_mem_nil _, List.Pairwise.nil⟩
  have hwalks : Walks (Tails.takeAll numbers).links (Tails.takeAll numbers).ends.getLast?
      (longestIncreasing numbers).reverse := by
    rw [hkeeps.ends, List.getLast?_map, longestIncreasing]
    cases hlast : (Run.placeAll [] 0 numbers).getLast? with
    | none => exact .stop
    | some run =>
        rw [List.reverse_reverse]
        exact hkeeps.walks run (List.mem_of_getLast? hlast)
  refine ⟨(longestIncreasing_pairwise numbers).imp And.left, fun i hi => lt_of_mem_longestIncreasing hi,
    longestIncreasing_isLongest numbers, fun walked => ⟨fun h => h.unique hwalks, ?_⟩⟩
  rintro rfl
  exact hwalks

end GraphClient.Live
