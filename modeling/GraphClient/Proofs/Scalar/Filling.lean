import GraphClient.Proofs.Scalar.Registry

/-! Registries that are filled step by step: standard converters are registered and further names are
given to what is registered already, in any order, any number of times, over names that are taken too.
Whatever the steps were, each name has a converter that acts as a standard one and tells its own name
(`Registry.dependable_run`). -/

namespace GraphClient

namespace Converter

/-- A converter acts as a standard one: it reads the same values, writes them alike and refuses the
others with the same value and reason; only the name that its errors tell is its own. -/
structure ActsAs (c : Converter) (s : StandardScalar) : Prop where
  reads : ∀ data v, c.read data = .ok v ↔ (standard s).read data = .ok v
  refuses : ∀ data e, c.read data = .error e ↔
    ∃ value reason, (standard s).read data = .error (.conversion s.name value reason) ∧
      e = .conversion c.name value reason
  writes : ∀ v, c.write v = (standard s).write v
  default : c.default = (standard s).default
  typeText : c.typeText = (standard s).typeText

theorem actsAs_standard (s : StandardScalar) : (standard s).ActsAs s where
  reads _ _ := Iff.rfl
  refuses data e := by
    constructor
    · intro herror
      obtain ⟨reason, hreason, rfl⟩ := Except.mapError_eq_error.1 (by rwa [read] at herror)
      exact ⟨data, reason, herror, rfl⟩
    · rintro ⟨value, reason, herror, rfl⟩
      exact herror
  writes _ := rfl
  default := rfl
  typeText := rfl

/-- A further name puts itself in the place of the name in an error, and leaves all else. -/
theorem ActsAs.aliased {c : Converter} {s : StandardScalar} (hc : c.ActsAs s) (name : String) :
    (aliased name c).ActsAs s where
  reads data v := Except.mapError_eq_ok.trans (hc.reads data v)
  refuses data e := by
    refine Except.mapError_eq_error.trans ?_
    constructor
    · rintro ⟨e', herror, rfl⟩
      obtain ⟨value, reason, hstandard, rfl⟩ := (hc.refuses data e').1 herror
      exact ⟨value, reason, hstandard, rfl⟩
    · rintro ⟨value, reason, hstandard, rfl⟩
      exact ⟨.conversion c.name value reason, (hc.refuses data _).2 ⟨value, reason, hstandard, rfl⟩, rfl⟩
  writes := hc.writes
  default := hc.default
  typeText := hc.typeText

/-- However many names stand in front of it, what acts is the standard converter at their end. -/
theorem actsAs_base (c : Converter) : c.ActsAs c.base := by
  induction c with
  | standard s => exact actsAs_standard s
  | aliased name target ih => exact ih.aliased name

end Converter

namespace Registry

/-- A step by which a registry is filled. -/
inductive Step
  | register (name : String) (scalar : StandardScalar)
  | registerAlias (name target : String)
  deriving DecidableEq, Repr

/-- The name that a step is about. -/
def Step.name : Step → String
  | register name _ => name
  | registerAlias name _ => name

/-- A registry after a step; if the step fails, it stays what it was. -/
def step (r : Registry) : Step → Registry
  | .register name s => r.register name (.standard s)
  | .registerAlias name target => match r.registerAlias name target with
    | .ok r' => r'
    | .error _ => r

def run (r : Registry) (steps : List Step) : Registry := steps.foldl step r

variable {r : Registry}

theorem resolve_eq_ok {name : String} {c : Converter} : r.resolve name = .ok c ↔ r.find? name = some c := by
  rw [resolve]
  cases r.find? name with
  | none => simp
  | some c' => simp

theorem step_registerAlias_of_ok {name target : String} {c : Converter} (htarget : r.resolve target = .ok c) :
    r.step (.registerAlias name target) = r.register name (.aliased name c) := by
  rw [step, registerAlias_eq_ok.2 ⟨c, resolve_eq_ok.1 htarget, rfl⟩]

theorem step_registerAlias_of_error {name target : String} {e : ScalarError}
    (hfails : r.registerAlias name target = .error e) : r.step (.registerAlias name target) = r := by
  rw [step, hfails]

/-- A step is about one name. -/
theorem resolve_step_of_ne {s : Step} {name : String} (hname : s.name ≠ name) :
    (r.step s).resolve name = r.resolve name := by
  have hregister (c : Converter) : (r.register s.name c).resolve name = r.resolve name := by
    rw [resolve, resolve, find?_register, if_neg hname.symm]
  cases s with
  | register other scalar => exact hregister (.standard scalar)
  | registerAlias other target =>
      cases htarget : r.resolve target with
      | ok c => rw [step_registerAlias_of_ok htarget]; exact hregister (.aliased other c)
      | error e => rw [step_registerAlias_of_error (Except.map_eq_error.2 htarget)]

/-- What a name stands for does not change by steps that are about other names. -/
theorem resolve_run_of_forall_ne {steps : List Step} {name : String} (hsteps : ∀ s ∈ steps, s.name ≠ name) :
    (r.run steps).resolve name = r.resolve name := by
  induction steps generalizing r with
  | nil => rfl
  | cons s later ih =>
      rw [List.forall_mem_cons] at hsteps
      exact (ih hsteps.2).trans (resolve_step_of_ne hsteps.1)

theorem Reached.step (hr : r.Reached) (s : Step) : (r.step s).Reached := by
  cases s with
  | register name scalar => exact hr.register name scalar
  | registerAlias name target =>
      cases halias : r.registerAlias name target with
      | ok r' =>
          rw [Registry.step, halias]
          exact hr.registerAlias halias
      | error e =>
          rw [step_registerAlias_of_error halias]
          exact hr

theorem Reached.run (hr : r.Reached) (steps : List Step) : (r.run steps).Reached := by
  induction steps generalizing r with
  | nil => exact hr
  | cons s later ih => exact ih (hr.step s)

/-- Where a further name is registered, it is registered under itself. -/
def Named (r : Registry) : Prop :=
  ∀ {name c}, r.find? name = some c → (∃ s, c = .standard s) ∨ ∃ target, c = .aliased name target

theorem Named.register (hr : r.Named) {name : String} {c : Converter}
    (hc : (∃ s, c = .standard s) ∨ ∃ target, c = .aliased name target) : (r.register name c).Named := by
  intro other c' hfind
  rw [find?_register] at hfind
  split at hfind
  case isTrue heq =>
    cases hfind
    rw [heq]
    exact hc
  case isFalse => exact hr hfind

theorem Named.registerAll (hr : r.Named) (scalars : List StandardScalar) : (r.registerAll scalars).Named := by
  induction scalars generalizing r with
  | nil => exact hr
  | cons s later ih => exact ih (hr.register (.inl ⟨s, rfl⟩))

theorem named_builtin : builtin.Named := by
  refine Named.registerAll ?_ StandardScalar.builtin
  intro name c hfind
  cases hfind

theorem Reached.named (hr : r.Reached) : r.Named := by
  induction hr with
  | builtin => exact named_builtin
  | standard => exact named_builtin.registerAll StandardScalar.custom
  | register hr name s ih => exact ih.register (.inl ⟨s, rfl⟩)
  | registerAlias hr halias ih =>
      obtain ⟨c, -, rfl⟩ := registerAlias_eq_ok.1 halias
      exact ih.register (.inr ⟨c, rfl⟩)

/-- What a registry keeps to, however it was filled. -/
structure Dependable (r : Registry) : Prop where
  /-- The scalars of every schema have a converter. -/
  builtin : ∀ name ∈ builtinScalars, ∃ c, r.resolve name = .ok c
  /-- A further name is refused just for a scalar without a converter. -/
  refused : ∀ name target e, r.registerAlias name target = .error e ↔
    (∀ c, r.resolve target ≠ .ok c) ∧ e = .unknown target
  unchanged : ∀ name target e, r.registerAlias name target = .error e →
    r.step (.registerAlias name target) = r
  /-- Each converter acts as a standard one, and is one or bears the name under which it stands. -/
  actsAs : ∀ name c, r.resolve name = .ok c →
    ∃ s, c.ActsAs s ∧ (c = .standard s ∨ ∃ target, c = .aliased name target)
  /-- A further name stands for the converter that its target had, whatever is
  done about other names later. -/
  captured : ∀ name target c, r.resolve target = .ok c → ∀ later : List Step, (∀ s ∈ later, s.name ≠ name) →
    ((r.step (.registerAlias name target)).run later).resolve name = .ok (.aliased name c) ∧
      ∀ s, c.ActsAs s → (Converter.aliased name c).ActsAs s

theorem registerAlias_eq_error {name target : String} {e : ScalarError} :
    r.registerAlias name target = .error e ↔ (∀ c, r.resolve target ≠ .ok c) ∧ e = .unknown target := by
  rw [registerAlias, Except.map_eq_error, resolve]
  cases r.find? target with
  | none => simp [eq_comm]
  | some c => simp

theorem Reached.dependable (hr : r.Reached) : r.Dependable where
  builtin name hname := by
    obtain ⟨c, hc⟩ := Option.isSome_iff_exists.1 (hr.isSome_builtin hname)
    exact ⟨c, resolve_eq_ok.2 hc⟩
  refused _ _ _ := registerAlias_eq_error
  unchanged _ _ _ := step_registerAlias_of_error
  actsAs name c hc := by
    refine ⟨c.base, c.actsAs_base, ?_⟩
    rcases hr.named (resolve_eq_ok.1 hc) with ⟨s, rfl⟩ | ⟨target, rfl⟩
    · exact .inl rfl
    · exact .inr ⟨target, rfl⟩
  captured name target c hc later hlater := by
    refine ⟨?_, fun s hs => hs.aliased name⟩
    rw [resolve_run_of_forall_ne hlater, step_registerAlias_of_ok hc, resolve_eq_ok,
      find?_register, if_pos rfl]

/-- **Whatever is registered, every scalar has a standard converter's ways.** -/
theorem dependable_run {start : Registry} (hstart : start = .builtin ∨ start = .standard)
    (steps : List Step) :
    (start.run steps).Dependable := by
  have hreached : start.Reached := by
    rcases hstart with rfl | rfl
    · exact .builtin
    · exact .standard
  exact (hreached.run steps).dependable

/-- A name for a name for `Int`, which then is registered anew, and a name for itself. -/
def sampleSteps : List Step :=
  [.registerAlias "Count" "Int", .registerAlias "Total" "Count", .registerAlias "Money" "Price",
    .register "Int" .boolean, .registerAlias "Count" "Count"]

/-- `Total` still reads whole numbers, and tells its own name. -/
theorem dependable_run_sampleSteps :
    (Registry.builtin.run sampleSteps).resolve "Total" =
      .ok (.aliased "Total" (.aliased "Count" (.standard .int))) ∧
      (Registry.builtin.run sampleSteps).Dependable :=
  ⟨by rfl, dependable_run (.inl rfl) sampleSteps⟩

end Registry

end GraphClient
