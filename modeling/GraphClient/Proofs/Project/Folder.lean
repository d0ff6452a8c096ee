import GraphClient.Project.Folder
import GraphClient.Proofs.Table

/-! A file that was written is read back. A path leads to the same place after a file was written, for
there are no fewer directories than before. -/

namespace GraphClient.Project.Folder

/-! Where a path leads and what it reads as lies in the files alone, and not in what was printed. -/

section

variable {f g : Folder} (hfiles : f.files = g.files)
include hfiles

theorem isDirectory_congr (place : List String) : f.isDirectory place = g.isDirectory place := by
  rw [isDirectory, isDirectory, hfiles]

theorem walk_congr (place steps : List String) : f.walk place steps = g.walk place steps := by
  induction steps generalizing place with
  | nil => rfl
  | cons step rest ih =>
      rw [walk, walk, isDirectory_congr hfiles]
      simp only [ih]

theorem locate?_congr (path : Path) : f.locate? path = g.locate? path := by
  rw [locate?, locate?, walk_congr hfiles]

theorem read?_congr (path : Path) : f.read? path = g.read? path := by
  rw [read?, read?, locate?_congr hfiles, hfiles]

end

/-- A folder with the directories of another one, and perhaps more. -/
def Covers (f g : Folder) : Prop := ∀ place, g.isDirectory place = true → f.isDirectory place = true

theorem covers_insert (f : Folder) (name text : String) :
    Covers { f with files := f.files.insert name text } f := by
  intro place hdirectory
  rw [isDirectory, Bool.or_eq_true] at hdirectory ⊢
  refine hdirectory.imp_right fun hany => ?_
  obtain ⟨other, hother, hbelow⟩ := List.any_eq_true.1 hany
  refine List.any_eq_true.2 ⟨other, ?_, hbelow⟩
  rw [Table.names_insert]
  split
  · exact hother
  · exact List.mem_append_left _ hother

theorem Covers.walk {f g : Folder} (hcovers : Covers f g) {place steps found : List String}
    (hwalk : g.walk place steps = some found) : f.walk place steps = some found := by
  induction steps generalizing place with
  | nil => exact hwalk
  | cons step rest ih =>
      rw [Folder.walk] at hwalk ⊢
      cases hplace : g.isDirectory place with
      | false =>
          rw [hplace] at hwalk
          cases hwalk
      | true =>
          rw [hplace] at hwalk
          rw [hcovers place hplace]
          split_ifs at hwalk ⊢ <;> exact ih hwalk

theorem Covers.locate? {f g : Folder} (hcovers : Covers f g) {path : Path} {place : List String}
    (hlocate : g.locate? path = some place) : f.locate? path = some place := by
  rw [Folder.locate?] at hlocate ⊢
  split_ifs at hlocate ⊢
  exact hcovers.walk hlocate

/-- Whether a file can be written: the path leads somewhere, and not to a directory. -/
def Writable (f : Folder) (path : Path) : Prop :=
  ∃ place, f.locate? path = some place ∧ f.isDirectory place = false

theorem writable_congr {f g : Folder} (hfiles : f.files = g.files) (path : Path) :
    f.Writable path ↔ g.Writable path := by
  simp only [Writable, locate?_congr hfiles, isDirectory_congr hfiles]

theorem write?_eq_some {f f' : Folder} {path : Path} {text : String} :
    f.write? path text = some f' ↔ ∃ place, f.locate? path = some place ∧ f.isDirectory place = false ∧
      f' = { f with files := f.files.insert (nameOf place) text } := by
  rw [write?]
  cases f.locate? path with
  | none => simp
  | some place =>
      cases hdirectory : f.isDirectory place with
      | true => simp [hdirectory]
      | false => simp [hdirectory, @eq_comm _ f']

theorem writable_iff {f : Folder} {path : Path} (text : String) :
    f.Writable path ↔ ∃ f', f.write? path text = some f' := by
  constructor
  · rintro ⟨place, hlocate, hfile⟩
    exact ⟨_, write?_eq_some.2 ⟨place, hlocate, hfile, rfl⟩⟩
  · rintro ⟨f', hwrite⟩
    obtain ⟨place, hlocate, hfile, -⟩ := write?_eq_some.1 hwrite
    exact ⟨place, hlocate, hfile⟩

theorem read?_of_write? {f f' : Folder} {path : Path} {text : String}
    (hwrite : f.write? path text = some f') :
    f'.read? path = some text := by
  obtain ⟨place, hlocate, -, rfl⟩ := write?_eq_some.1 hwrite
  rw [read?, (f.covers_insert (nameOf place) text).locate? hlocate]
  exact (Table.get?_insert ..).trans (if_pos rfl)

end GraphClient.Project.Folder
