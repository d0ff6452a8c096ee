import Mathlib.Data.List.Forall2

/-! Work that may fail. What succeeds as a whole has succeeded in every step, and lists
are worked out item by item. -/

namespace GraphClient

theorem Except.bind_eq_ok {ε α β : Type} {x : Except ε α} {f : α → Except ε β} {b : β} :
    x >>= f = .ok b ↔ ∃ a, x = .ok a ∧ f a = .ok b := by
  constructor
  · intro h
    cases x with
    | error e => cases h
    | ok a => exact ⟨a, rfl, h⟩
  · rintro ⟨a, rfl, h⟩
    exact h

theorem Except.map_eq_ok {ε α β : Type} {x : Except ε α} {f : α → β} {b : β} :
    x.map f = .ok b ↔ ∃ a, x = .ok a ∧ f a = b := by
  cases x with
  | error e => simp [Except.map]
  | ok a => simp [Except.map]

theorem Except.ok_bind {ε α β : Type} (a : α) (f : α → Except ε β) : (Except.ok a >>= f) = f a := rfl

theorem Except.map_eq_error {ε α β : Type} {x : Except ε α} {f : α → β} {e : ε} :
    x.map f = .error e ↔ x = .error e := by
  cases x with
  | error e' => simp [Except.map]
  | ok a => simp [Except.map]

theorem Except.bind_eq_error {ε α β : Type} {x : Except ε α} {f : α → Except ε β} {e : ε} :
    x >>= f = .error e ↔ x = .error e ∨ ∃ a, x = .ok a ∧ f a = .error e := by
  cases x with
  | error e' =>
      constructor
      · intro h
        cases h
        exact .inl rfl
      · rintro (h | ⟨a, hok, -⟩)
        · cases h
          rfl
        · cases hok
  | ok a =>
      constructor
      · exact fun h => .inr ⟨a, rfl, h⟩
      · rintro (h | ⟨b, hok, h⟩)
        · cases h
        · cases hok
          exact h

theorem Except.mapError_eq_ok {ε ε' α : Type} {x : Except ε α} {f : ε → ε'} {a : α} :
    x.mapError f = .ok a ↔ x = .ok a := by
  cases x with
  | error e => simp [Except.mapError]
  | ok b => simp [Except.mapError]

theorem Except.mapError_eq_error {ε ε' α : Type} {x : Except ε α} {f : ε → ε'} {e : ε'} :
    x.mapError f = .error e ↔ ∃ e', x = .error e' ∧ f e' = e := by
  cases x with
  | error e' => simp [Except.mapError]
  | ok a => simp [Except.mapError]

/-- A list that is worked out item by item. -/
theorem forall₂_of_mapM {ε α β : Type} {f : α → Except ε β} {items : List α} {results : List β}
    (hmap : items.mapM f = .ok results) : List.Forall₂ (fun a b => f a = .ok b) items results := by
  induction items generalizing results with
  | nil =>
      cases hmap
      exact .nil
  | cons a rest ih =>
      rw [List.mapM_cons] at hmap
      obtain ⟨b, hb, hmap⟩ := Except.bind_eq_ok.1 hmap
      obtain ⟨later, hlater, hmap⟩ := Except.bind_eq_ok.1 hmap
      cases hmap
      exact .cons hb (ih hlater)

theorem mapM_of_forall₂ {ε α β : Type} {f : α → Except ε β} {items : List α} {results : List β}
    (hall : List.Forall₂ (fun a b => f a = .ok b) items results) : items.mapM f = .ok results := by
  induction hall with
  | nil => rfl
  | cons hfirst _ ih =>
      rw [List.mapM_cons]
      exact Except.bind_eq_ok.2 ⟨_, hfirst, Except.bind_eq_ok.2 ⟨_, ih, rfl⟩⟩

theorem exists_of_mapM_error {ε α β : Type} {f : α → Except ε β} {items : List α} {e : ε}
    (hmap : items.mapM f = .error e) : ∃ a ∈ items, f a = .error e := by
  induction items with
  | nil => cases hmap
  | cons a rest ih =>
      rw [List.mapM_cons] at hmap
      rcases Except.bind_eq_error.1 hmap with hfirst | ⟨b, -, hmap⟩
      · exact ⟨a, List.mem_cons_self, hfirst⟩
      · rcases Except.bind_eq_error.1 hmap with hrest | ⟨later, -, hmap⟩
        · obtain ⟨a', ha', herror⟩ := ih hrest
          exact ⟨a', List.mem_cons_of_mem _ ha', herror⟩
        · cases hmap

/-- Two lists whose items come to the same come to the same, up to what is looked at of the errors. -/
theorem mapError_mapM_of_forall₂ {ε ε' δ α α' β : Type} {f : α → Except ε β}
    {f' : α' → Except ε' β} {k : ε → δ} {k' : ε' → δ} {items : List α} {items' : List α'}
    (hall : List.Forall₂ (fun a a' => (f' a').mapError k' = (f a).mapError k) items items') :
    (items'.mapM f').mapError k' = (items.mapM f).mapError k := by
  induction hall with
  | nil => rfl
  | @cons a a' rest rest' hfirst _ ih =>
      rw [List.mapM_cons, List.mapM_cons]
      cases ha : f a with
      | error e =>
          cases ha' : f' a' with
          | error e' =>
              rw [ha, ha'] at hfirst
              exact congrArg Except.error (Except.error.inj hfirst)
          | ok b =>
              rw [ha, ha'] at hfirst
              cases hfirst
      | ok b =>
          rw [ha] at hfirst
          rw [Except.mapError_eq_ok.1 hfirst]
          cases hrest : rest.mapM f with
          | error e =>
              cases hrest' : rest'.mapM f' with
              | error e' =>
                  rw [hrest, hrest'] at ih
                  exact congrArg Except.error (Except.error.inj ih)
              | ok bs =>
                  rw [hrest, hrest'] at ih
                  cases ih
          | ok bs =>
              rw [hrest] at ih
              rw [Except.mapError_eq_ok.1 ih]
              rfl

/-- If every item works out, so does the list. -/
theorem exists_mapM {ε α β : Type} {f : α → Except ε β} {items : List α}
    (hitems : ∀ a ∈ items, ∃ b, f a = .ok b) :
    ∃ results, items.mapM f = .ok results := by
  induction items with
  | nil => exact ⟨[], rfl⟩
  | cons a rest ih =>
      obtain ⟨b, hfirst⟩ := hitems a List.mem_cons_self
      obtain ⟨results, hrest⟩ := ih fun a ha => hitems a (List.mem_cons_of_mem _ ha)
      refine ⟨b :: results, ?_⟩
      rw [List.mapM_cons]
      exact Except.bind_eq_ok.2 ⟨b, hfirst, Except.bind_eq_ok.2 ⟨results, hrest, rfl⟩⟩

theorem forM_eq_ok {ε α : Type} {f : α → Except ε Unit} {items : List α} :
    items.forM f = .ok () ↔ ∀ a ∈ items, f a = .ok () := by
  induction items with
  | nil => exact ⟨fun _ => nofun, fun _ => rfl⟩
  | cons a rest ih =>
      change (f a >>= fun _ => rest.forM f) = .ok () ↔ _
      rw [Except.bind_eq_ok, List.forall_mem_cons, ← ih]
      constructor
      · rintro ⟨u, hfirst, hrest⟩
        exact ⟨hfirst, hrest⟩
      · rintro ⟨hfirst, hrest⟩
        exact ⟨(), hfirst, hrest⟩

theorem exists_of_mem_forall₂ {α β : Type} {R : α → β → Prop} {items : List α} {results : List β}
    (hall : List.Forall₂ R items results) {b : β} (hb : b ∈ results) : ∃ a ∈ items, R a b := by
  induction hall with
  | nil => exact absurd hb List.not_mem_nil
  | cons hfirst _ ih =>
      rcases List.mem_cons.1 hb with rfl | hb
      · exact ⟨_, List.mem_cons_self, hfirst⟩
      · obtain ⟨a, ha, hab⟩ := ih hb
        exact ⟨a, List.mem_cons_of_mem _ ha, hab⟩

theorem exists_right_of_mem_forall₂ {α β : Type} {R : α → β → Prop} {items : List α} {results : List β}
    (hall : List.Forall₂ R items results) {a : α} (ha : a ∈ items) : ∃ b ∈ results, R a b := by
  obtain ⟨b, hb, hab⟩ := exists_of_mem_forall₂ hall.flip ha
  exact ⟨b, hb, hab⟩

/-- What a fold keeps from step to step, told by the items that were folded so far. -/
theorem foldlM_induction {ε α β : Type} {f : β → α → Except ε β} {P : List α → β → Prop} {items : List α}
    {start result : β} (hstart : P [] start)
    (hstep : ∀ {done b a b'}, P done b → f b a = .ok b' → P (done ++ [a]) b')
    (hfold : items.foldlM f start = .ok result) : P items result := by
  induction items generalizing start P with
  | nil =>
      cases hfold
      exact hstart
  | cons a rest ih =>
      rw [List.foldlM_cons] at hfold
      obtain ⟨b, hfirst, hfold⟩ := Except.bind_eq_ok.1 hfold
      exact ih (P := fun done => P (a :: done)) (hstep hstart hfirst) hstep hfold

end GraphClient
