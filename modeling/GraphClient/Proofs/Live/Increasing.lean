import GraphClient.Live.Increasing
import Mathlib.Data.List.Basic
import Mathlib.Data.List.Sort

/-! The positions that `longestIncreasing` gives are an increasing part of the list: they come in order, and
so do the numbers at them. Every run at hand is such a part read backwards, and putting a number on the
longest run that ends below it keeps this.

No increasing part is longer. At any time there is a run of every length that an increasing part of the
numbers so far has, and it ends no higher than that part does. -/

namespace GraphClient.Live

/-- The number at a position; zero where there is none. -/
def numberAt (numbers : List Nat) (position : Nat) : Nat := numbers[position]?.getD 0

namespace Run

/-- A run read backwards: its positions among the first `bound` of them descend, as do the numbers
there, and none is greater than the last. -/
structure Climbs (numbers : List Nat) (bound : Nat) (run : Run) : Prop where
  descends : run.positions.Pairwise fun i j => j < i ∧ numberAt numbers j < numberAt numbers i
  below : ∀ i ∈ run.positions, i < bound
  last : ∀ i ∈ run.positions, numberAt numbers i ≤ run.last

theorem Climbs.mono {numbers : List Nat} {bound more : Nat} {run : Run} (h : run.Climbs numbers bound)
    (hb : bound ≤ more) : run.Climbs numbers more :=
  ⟨h.descends, fun i hi => Nat.lt_of_lt_of_le (h.below i hi) hb, h.last⟩

/-- A number goes on a run that ends below it. -/
theorem Climbs.extend {numbers : List Nat} {position : Nat} {shorter : List Nat}
    (hd : shorter.Pairwise fun i j => j < i ∧ numberAt numbers j < numberAt numbers i)
    (hb : ∀ i ∈ shorter, i < position)
    (hv : ∀ i ∈ shorter, numberAt numbers i < numberAt numbers position) :
    Climbs numbers (position + 1) ⟨numberAt numbers position, position :: shorter⟩ where
  descends := List.pairwise_cons.2 ⟨fun i hi => ⟨hb i hi, hv i hi⟩, hd⟩
  below i hi := by
    rcases List.mem_cons.1 hi with rfl | hi
    · omega
    · have := hb i hi
      omega
  last i hi := by
    rcases List.mem_cons.1 hi with rfl | hi
    · exact Nat.le_refl _
    · exact Nat.le_of_lt (hv i hi)

theorem climbs_place {numbers : List Nat} {position : Nat} {shorter : List Nat} {runs : List Run}
    (hd : shorter.Pairwise fun i j => j < i ∧ numberAt numbers j < numberAt numbers i)
    (hb : ∀ i ∈ shorter, i < position)
    (hv : ∀ i ∈ shorter, numberAt numbers i < numberAt numbers position)
    (hruns : ∀ run ∈ runs, Climbs numbers position run) :
    ∀ run ∈ place position (numberAt numbers position) shorter runs, Climbs numbers (position + 1) run := by
  induction runs generalizing shorter with
  | nil =>
      intro run hrun
      rw [place, List.mem_singleton] at hrun
      subst hrun
      exact .extend hd hb hv
  | cons first longer ih =>
      have hfirst := hruns first List.mem_cons_self
      have hlonger : ∀ run ∈ longer, Climbs numbers position run :=
        fun run hrun => hruns run (List.mem_cons_of_mem _ hrun)
      intro run hrun
      rw [place] at hrun
      split at hrun
      · rename_i hlt
        rcases List.mem_cons.1 hrun with rfl | hrun
        · exact hfirst.mono (Nat.le_succ _)
        · exact ih hfirst.descends hfirst.below (fun i hi => Nat.lt_of_le_of_lt (hfirst.last i hi) hlt)
            hlonger run hrun
      · rcases List.mem_cons.1 hrun with rfl | hrun
        · exact .extend hd hb hv
        · exact (hlonger run hrun).mono (Nat.le_succ _)

theorem climbs_placeAll {before rest : List Nat} {runs : List Run}
    (hruns : ∀ run ∈ runs, Climbs (before ++ rest) before.length run) :
    ∀ run ∈ placeAll runs before.length rest, Climbs (before ++ rest) (before ++ rest).length run := by
  induction rest generalizing before runs with
  | nil => simpa [placeAll] using hruns
  | cons value rest ih =>
      have hvalue : numberAt (before ++ value :: rest) before.length = value := by
        simp [numberAt]
      have hplaced := climbs_place List.Pairwise.nil (fun i hi => absurd hi List.not_mem_nil)
        (fun i hi => absurd hi List.not_mem_nil) hruns
      rw [hvalue] at hplaced
      have h := @ih (before ++ [value]) (place before.length value [] runs) (by simpa using hplaced)
      simpa [placeAll] using h

theorem climbs_of_getLast? {numbers : List Nat} {run : Run}
    (h : (placeAll [] 0 numbers).getLast? = some run) : run.Climbs numbers numbers.length :=
  @climbs_placeAll [] numbers [] (fun _ hrun => absurd hrun List.not_mem_nil) run (List.mem_of_getLast? h)

end Run

/-- The positions of a longest increasing part are in order, and so are the numbers at them. -/
theorem longestIncreasing_pairwise (numbers : List Nat) :
    (longestIncreasing numbers).Pairwise fun i j => i < j ∧ numberAt numbers i < numberAt numbers j := by
  rw [longestIncreasing]
  split
  · rename_i run hrun
    exact List.pairwise_reverse.2 (Run.climbs_of_getLast? hrun).descends
  · exact List.Pairwise.nil

/-- A number goes behind the runs that end lower and takes the place of the next one. -/
theorem Run.place_append {position value : Nat} {shorter : List Nat} {below above : List Run}
    (hbelow : ∀ run ∈ below, run.last < value) (habove : ∀ run ∈ above.head?, value ≤ run.last) :
    place position value shorter (below ++ above) =
      below ++ ⟨value, position :: (below.getLast?.map (·.positions)).getD shorter⟩ :: above.tail := by
  induction below generalizing shorter with
  | nil =>
      cases above with
      | nil => rfl
      | cons run above => exact if_neg (Nat.not_lt.2 (habove run rfl))
  | cons first below ih =>
      obtain ⟨hfirst, hbelow⟩ := List.forall_mem_cons.1 hbelow
      rw [List.cons_append, place, if_pos hfirst, ih hbelow]
      cases below with
      | nil => rfl
      | cons second below => simp [List.getLast?_cons]

/-- On the longest run a number goes that is greater than all before it. -/
theorem place_of_lt {position value : Nat} {shorter : List Nat} {runs : List Run}
    (h : ∀ run ∈ runs, run.last < value) :
    Run.place position value shorter runs =
      runs ++ [⟨value, position :: (runs.getLast?.map (·.positions)).getD shorter⟩] := by
  have hplace := @Run.place_append position value shorter runs [] h (by simp)
  rwa [List.append_nil] at hplace

theorem placeAll_of_pairwise {runs : List Run} {position : Nat} {rest : List Nat}
    (hrest : rest.Pairwise (· < ·)) (hruns : ∀ run ∈ runs, ∀ value ∈ rest, run.last < value) :
    ((Run.placeAll runs position rest).getLast?.map (·.positions)).getD [] =
      (List.range' position rest.length).reverse ++ (runs.getLast?.map (·.positions)).getD [] := by
  induction rest generalizing runs position with
  | nil => rfl
  | cons value rest ih =>
      obtain ⟨hvalue, hrest⟩ := List.pairwise_cons.1 hrest
      have hnext : ∀ run ∈ Run.place position value [] runs, ∀ later ∈ rest, run.last < later := by
        rw [place_of_lt fun run hrun => hruns run hrun value List.mem_cons_self]
        intro run hrun later hlater
        rcases List.mem_append.1 hrun with hrun | hrun
        · exact hruns run hrun later (List.mem_cons_of_mem _ hlater)
        · rw [List.mem_singleton.1 hrun]
          exact hvalue later hlater
      rw [Run.placeAll, ih hrest hnext, place_of_lt fun run hrun => hruns run hrun value List.mem_cons_self]
      simp [List.range'_succ]

/-- All of an increasing list is a longest increasing part of it. -/
theorem longestIncreasing_of_pairwise {numbers : List Nat} (h : numbers.Pairwise (· < ·)) :
    longestIncreasing numbers = List.range numbers.length := by
  have hpositions := @placeAll_of_pairwise [] 0 numbers h
    fun run hrun => absurd hrun List.not_mem_nil
  rw [longestIncreasing]
  split
  · rename_i run hrun
    rw [hrun] at hpositions
    simpa [List.range_eq_range'] using congrArg List.reverse hpositions
  · rename_i hnone
    rw [hnone] at hpositions
    simpa [List.range_eq_range'] using congrArg List.reverse hpositions

/-- Of two positions in a longest increasing part, the later one has the greater number. -/
theorem numberAt_lt_of_mem {numbers : List Nat} {i j : Nat} (hi : i ∈ longestIncreasing numbers)
    (hj : j ∈ longestIncreasing numbers) (hij : i < j) : numberAt numbers i < numberAt numbers j := by
  have h := longestIncreasing_pairwise numbers
  obtain ⟨a, ha, rfl⟩ := List.getElem_of_mem hi
  obtain ⟨b, hb, rfl⟩ := List.getElem_of_mem hj
  rcases Nat.lt_trichotomy a b with hab | rfl | hba
  · exact (List.pairwise_iff_getElem.1 h a b ha hb hab).2
  · exact absurd hij (Nat.lt_irrefl _)
  · exact absurd (List.pairwise_iff_getElem.1 h b a hb ha hba).1 (Nat.lt_asymm hij)

namespace Run

/-- Whether the run at a place ends at a value or below it. -/
def Reaches (runs : List Run) (n value : Nat) : Prop := ∃ run, runs[n]? = some run ∧ run.last ≤ value

/-- A number never makes the run at a place end higher. -/
theorem Reaches.place {runs : List Run} {n reached : Nat} (h : Reaches runs n reached)
    (position value : Nat) (shorter : List Nat) :
    Reaches (place position value shorter runs) n reached := by
  obtain ⟨run, hrun, hlast⟩ := h
  induction runs generalizing n shorter with
  | nil => cases hrun
  | cons first longer ih =>
      rw [Run.place]
      split
      · cases n with
        | zero => exact ⟨run, hrun, hlast⟩
        | succ n => exact ih _ hrun
      · rename_i hle
        cases n with
        | zero =>
            cases hrun
            exact ⟨_, rfl, Nat.le_trans (Nat.not_lt.1 hle) hlast⟩
        | succ n => exact ⟨run, hrun, hlast⟩

/-- A number goes at least as far as behind all runs that end below it. -/
theorem reaches_place {runs : List Run} {n value : Nat}
    (h : ∀ m < n, ∃ run, runs[m]? = some run ∧ run.last < value) (position : Nat) (shorter : List Nat) :
    Reaches (place position value shorter runs) n value := by
  induction runs generalizing n shorter with
  | nil =>
      cases n with
      | zero => exact ⟨_, rfl, Nat.le_refl _⟩
      | succ n =>
          obtain ⟨run, hrun, -⟩ := h 0 (Nat.succ_pos n)
          cases hrun
  | cons first longer ih =>
      rw [Run.place]
      split
      · rename_i hlt
        cases n with
        | zero => exact ⟨first, rfl, Nat.le_of_lt hlt⟩
        | succ n => exact ih (fun m hm => h (m + 1) (Nat.succ_lt_succ hm)) _
      · rename_i hle
        cases n with
        | zero => exact ⟨_, rfl, Nat.le_refl _⟩
        | succ n =>
            obtain ⟨run, hrun, hlast⟩ := h 0 (Nat.succ_pos n)
            cases hrun
            exact absurd hlast hle

/-- Whether every increasing part of some numbers is matched by a run that ends no higher. -/
def Covers (runs : List Run) (numbers : List Nat) : Prop :=
  ∀ part : List Nat, part.Sublist numbers → part.Pairwise (· < ·) →
    ∀ n value, part[n]? = some value → Reaches runs n value

theorem Covers.place {runs : List Run} {numbers : List Nat} (h : Covers runs numbers)
    (position value : Nat) : Covers (place position value [] runs) (numbers ++ [value]) := by
  intro part hpart hup n reached hn
  obtain ⟨before, last, rfl, hbefore, hlast⟩ := List.sublist_append_iff.1 hpart
  obtain ⟨hup, -, hlt⟩ := List.pairwise_append.1 hup
  rcases Nat.lt_or_ge n before.length with hn' | hn'
  · rw [List.getElem?_append_left hn'] at hn
    exact (h before hbefore hup n reached hn).place position value []
  · -- Only the number itself is left, and what comes before it in the part ends below it.
    rw [List.getElem?_append_right hn'] at hn
    have hmem := List.mem_of_getElem? hn
    obtain rfl : reached = value := List.mem_singleton.1 (hlast.subset hmem)
    have hlength : last.length ≤ 1 := hlast.length_le
    obtain ⟨hindex, -⟩ := List.getElem?_eq_some_iff.1 hn
    refine reaches_place (fun m hm => ?_) position []
    have hm' : m < before.length := by omega
    obtain ⟨run, hrun, hle⟩ := h before hbefore hup m _ (List.getElem?_eq_getElem hm')
    exact ⟨run, hrun, Nat.lt_of_le_of_lt hle (hlt _ (List.getElem_mem hm') _ hmem)⟩

theorem covers_placeAll {before rest : List Nat} {runs : List Run} (h : Covers runs before)
    (position : Nat) : Covers (placeAll runs position rest) (before ++ rest) := by
  induction rest generalizing before runs position with
  | nil => simpa [placeAll] using h
  | cons value rest ih =>
      rw [placeAll, List.append_cons]
      exact ih (h.place position value) (position + 1)

/-- Whether the runs have, one after the other, one position more than some first length. -/
def Grow (first : Nat) (runs : List Run) : Prop :=
  ∀ n run, runs[n]? = some run → run.positions.length = first + n + 1

theorem Grow.place {runs : List Run} {shorter : List Nat} (h : Grow shorter.length runs)
    (position value : Nat) : Grow shorter.length (place position value shorter runs) := by
  induction runs generalizing shorter with
  | nil =>
      intro n run hrun
      obtain ⟨hn, rfl⟩ := List.getElem?_eq_some_iff.1 hrun
      obtain rfl : n = 0 := Nat.lt_one_iff.1 hn
      rfl
  | cons first longer ih =>
      have hfirst : first.positions.length = shorter.length + 1 := h 0 first rfl
      have hlonger : ∀ n run, longer[n]? = some run → run.positions.length = shorter.length + (n + 1) + 1 :=
        fun n run hrun => h (n + 1) run hrun
      intro n run hrun
      rw [Run.place] at hrun
      split at hrun
      · cases n with
        | zero =>
            cases hrun
            exact hfirst
        | succ n =>
            have hgrow : Grow first.positions.length longer := fun n run hrun => by
              rw [hlonger n run hrun, hfirst]
              omega
            rw [ih hgrow n run hrun, hfirst]
            omega
      · cases n with
        | zero =>
            cases hrun
            rfl
        | succ n => exact hlonger n run hrun

theorem grow_placeAll {runs : List Run} (h : Grow 0 runs) (position : Nat) (rest : List Nat) :
    Grow 0 (placeAll runs position rest) := by
  induction rest generalizing runs position with
  | nil => exact h
  | cons value rest ih => exact ih (@Grow.place runs [] h position value) (position + 1)

end Run

theorem length_longestIncreasing (numbers : List Nat) :
    (longestIncreasing numbers).length = (Run.placeAll [] 0 numbers).length := by
  have hgrow := @Run.grow_placeAll [] (fun n run hrun => by cases hrun) 0 numbers
  rw [longestIncreasing]
  split
  · rename_i run hrun
    rw [List.getLast?_eq_getElem?] at hrun
    have hlength := hgrow _ run hrun
    obtain ⟨hpos, -⟩ := List.getElem?_eq_some_iff.1 hrun
    rw [List.length_reverse, hlength]
    omega
  · rename_i hnone
    rw [List.getLast?_eq_none_iff.1 hnone]
    rfl

/-- **No increasing part of the numbers is longer.** -/
theorem length_le_longestIncreasing {numbers part : List Nat} (hpart : part.Sublist numbers)
    (hup : part.Pairwise (· < ·)) : part.length ≤ (longestIncreasing numbers).length := by
  have hcovers : Run.Covers (Run.placeAll [] 0 numbers) numbers :=
    @Run.covers_placeAll [] numbers [] (fun part hpart _ n value hn => by
      rw [List.sublist_nil.1 hpart] at hn
      cases hn) 0
  rw [length_longestIncreasing]
  cases hn : part.length with
  | zero => exact Nat.zero_le _
  | succ n =>
      have hlt : n < part.length := by omega
      obtain ⟨run, hrun, -⟩ := hcovers part hpart hup n _ (List.getElem?_eq_getElem hlt)
      exact (List.getElem?_eq_some_iff.1 hrun).1

theorem lt_of_mem_longestIncreasing {numbers : List Nat} {i : Nat} (h : i ∈ longestIncreasing numbers) :
    i < numbers.length := by
  rw [longestIncreasing] at h
  split at h
  · rename_i run hrun
    exact (Run.climbs_of_getLast? hrun).below i (List.mem_reverse.1 h)
  · cases h

theorem longestIncreasing_sublist_range (numbers : List Nat) :
    (longestIncreasing numbers).Sublist (List.range numbers.length) := by
  have hup : (longestIncreasing numbers).Pairwise (· < ·) :=
    (longestIncreasing_pairwise numbers).imp And.left
  have hsubset : longestIncreasing numbers ⊆ List.range numbers.length :=
    fun i hi => List.mem_range.2 (lt_of_mem_longestIncreasing hi)
  exact List.sublist_of_subperm_of_pairwise (List.subperm_of_subset (hup.imp Nat.ne_of_lt) hsubset) hup
    List.pairwise_lt_range

/-- The numbers at the positions of a longest increasing part are a part of the list. -/
theorem map_longestIncreasing_sublist (numbers : List Nat) :
    ((longestIncreasing numbers).map (numberAt numbers)).Sublist numbers := by
  have hall : (List.range numbers.length).map (numberAt numbers) = numbers := by
    apply List.ext_getElem
    · simp
    · intro i _ hi
      simp [numberAt, hi]
  have hnumbers := (longestIncreasing_sublist_range numbers).map (numberAt numbers)
  rwa [hall] at hnumbers

end GraphClient.Live
