import GraphClient.Json.Basic
import Mathlib.Data.String.Basic

/-! Canonical values. The members of a canonical object are sorted by name, each name is there once, and all
values in it are canonical; so a canonical value is its own canonical form (`Json.canonical_canonical`). -/

namespace GraphClient.Json

/-- Members in strict order of their names. -/
def Sorted (members : List (String × Json)) : Prop := members.Pairwise fun m m' => m.1 < m'.1

variable {name : String} {value : Json} {members : List (String × Json)}

theorem mem_insertMember {m : String × Json} (hm : m ∈ insertMember name value members) :
    m = (name, value) ∨ m ∈ members := by
  induction members with
  | nil => exact .inl (List.mem_singleton.1 hm)
  | cons first rest ih =>
      obtain ⟨other, v⟩ := first
      rw [insertMember] at hm
      split at hm
      · exact (List.mem_cons.1 hm).imp_right (List.mem_cons_of_mem _)
      · split at hm
        · exact List.mem_cons.1 hm
        · rcases List.mem_cons.1 hm with rfl | hm
          · exact .inr List.mem_cons_self
          · exact (ih hm).imp_right (List.mem_cons_of_mem _)

theorem Sorted.insertMember (hsorted : Sorted members) (name : String) (value : Json) :
    Sorted (insertMember name value members) := by
  induction members with
  | nil => exact List.pairwise_singleton _ _
  | cons first rest ih =>
      obtain ⟨other, v⟩ := first
      obtain ⟨hfirst, hrest⟩ := List.pairwise_cons.1 hsorted
      rw [Json.insertMember]
      split
      · rename_i heq
        subst heq
        exact List.pairwise_cons.2 ⟨hfirst, hrest⟩
      · rename_i hne
        split
        · rename_i hlt
          refine List.pairwise_cons.2 ⟨fun m hm => ?_, hsorted⟩
          rcases List.mem_cons.1 hm with rfl | hm
          · exact hlt
          · exact lt_trans hlt (hfirst m hm)
        · rename_i hnot
          refine List.pairwise_cons.2 ⟨fun m hm => ?_, ih hrest⟩
          rcases mem_insertMember hm with rfl | hm
          · exact (lt_or_gt_of_ne hne).resolve_left hnot
          · exact hfirst m hm

/-- A member whose name comes behind all others goes to the end. -/
theorem insertMember_of_last (hlast : ∀ m ∈ members, m.1 < name) :
    insertMember name value members = members ++ [(name, value)] := by
  induction members with
  | nil => rfl
  | cons first rest ih =>
      obtain ⟨other, v⟩ := first
      have hlt : other < name := hlast _ List.mem_cons_self
      rw [insertMember, if_neg (ne_of_gt hlt), if_neg (lt_asymm hlt),
        ih fun m hm => hlast m (List.mem_cons_of_mem _ hm), List.cons_append]

/-- The members of a list, sorted by name, the last of one name kept. -/
def sortMembers (members : List (String × Json)) : List (String × Json) :=
  members.foldl (fun done m => insertMember m.1 m.2 done) []

theorem sorted_foldl {done : List (String × Json)} (hdone : Sorted done) (members : List (String × Json)) :
    Sorted (members.foldl (fun done m => insertMember m.1 m.2 done) done) := by
  induction members generalizing done with
  | nil => exact hdone
  | cons m rest ih => exact ih (hdone.insertMember m.1 m.2)

theorem sorted_sortMembers (members : List (String × Json)) : Sorted (sortMembers members) :=
  sorted_foldl List.Pairwise.nil members

theorem mem_foldl_insertMember {done : List (String × Json)} {m : String × Json}
    (hm : m ∈ members.foldl (fun done m => insertMember m.1 m.2 done) done) : m ∈ members ∨ m ∈ done := by
  induction members generalizing done with
  | nil => exact .inr hm
  | cons first rest ih =>
      rcases ih hm with hrest | hdone
      · exact .inl (List.mem_cons_of_mem _ hrest)
      · rcases mem_insertMember hdone with rfl | hdone
        · exact .inl List.mem_cons_self
        · exact .inr hdone

theorem mem_of_mem_sortMembers {m : String × Json} (hm : m ∈ sortMembers members) : m ∈ members :=
  (mem_foldl_insertMember hm).resolve_right List.not_mem_nil

theorem foldl_insertMember_of_sorted {done : List (String × Json)} (hsorted : Sorted (done ++ members)) :
    members.foldl (fun done m => insertMember m.1 m.2 done) done = done ++ members := by
  induction members generalizing done with
  | nil => rw [List.foldl_nil, List.append_nil]
  | cons m rest ih =>
      have hlast : ∀ m' ∈ done, m'.1 < m.1 := fun m' hm' =>
        (List.pairwise_append.1 hsorted).2.2 m' hm' m List.mem_cons_self
      rw [List.append_cons] at hsorted
      rw [List.foldl_cons, insertMember_of_last hlast, ih hsorted, ← List.append_cons]

/-- Sorted members stay as they are. -/
theorem sortMembers_of_sorted (hsorted : Sorted members) : sortMembers members = members :=
  foldl_insertMember_of_sorted hsorted

theorem canonical_object (members : List (String × Json)) :
    (object members).canonical = .object (sortMembers (canonicalMembers members)) := by
  rw [canonical, sortMembers]

theorem canonicalMembers_eq_self (hmembers : ∀ m ∈ members, m.2.canonical = m.2) :
    canonicalMembers members = members := by
  induction members with
  | nil => rfl
  | cons m rest ih =>
      obtain ⟨name, value⟩ := m
      rw [canonicalMembers, hmembers _ List.mem_cons_self,
        ih fun m hm => hmembers m (List.mem_cons_of_mem _ hm)]

mutual

/-- A canonical value is its own canonical form. -/
theorem canonical_canonical : (json : Json) → json.canonical.canonical = json.canonical
  | .array items => by rw [canonical, canonical, canonicalItems_canonicalItems items]
  | .object members => by
      have hvalues : ∀ m ∈ sortMembers (canonicalMembers members), m.2.canonical = m.2 := fun m hm =>
        canonical_of_mem members m (mem_of_mem_sortMembers hm)
      rw [canonical_object, canonical_object, canonicalMembers_eq_self hvalues,
        sortMembers_of_sorted (sorted_sortMembers _)]
  | .null => by rw [canonical, canonical]
  | .bool _ => by rw [canonical, canonical]
  | .number _ => by rw [canonical, canonical]
  | .string _ => by rw [canonical, canonical]

theorem canonicalItems_canonicalItems :
    (items : List Json) → canonicalItems (canonicalItems items) = canonicalItems items
  | [] => rfl
  | item :: rest => by
      rw [canonicalItems, canonicalItems, canonical_canonical item, canonicalItems_canonicalItems rest]

theorem canonical_of_mem :
    (members : List (String × Json)) → ∀ m ∈ canonicalMembers members, m.2.canonical = m.2
  | [], _, hm => absurd hm List.not_mem_nil
  | (_, value) :: rest, m, hm => by
      rw [canonicalMembers] at hm
      rcases List.mem_cons.1 hm with rfl | hm
      · exact canonical_canonical value
      · exact canonical_of_mem rest m hm

end

/-- No other value has the canonical form null. -/
theorem canonical_eq_null {json : Json} : json.canonical = .null ↔ json = .null := by
  cases json <;> simp [canonical]

end GraphClient.Json
