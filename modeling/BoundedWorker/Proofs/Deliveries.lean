import BoundedWorker.Reporter

/-!
Reporters inside reporters. However many decorators are put around a reporter, and in whichever way
each of them was made, the reporter in the middle is called once: with the same result, but for the
places of the decorators after its own artifacts, the outermost place first. What it answers is what
the caller gets.
-/

namespace BoundedWorker

inductive Decorator where
  | place (p : Place)
  | configured (c : ReporterConfig) (vars : Variables)

/-- The result as it is after these places, each of which has added its location. -/
def TaskResult.passing (r : TaskResult) (places : List Place) : TaskResult :=
  { r with artifacts := r.artifacts ++ places.map fun p => p.taskLocation r.taskId }

theorem TaskResult.passing_nil (r : TaskResult) : r.passing [] = r := by
  rw [passing, List.map_nil, List.append_nil]

theorem TaskResult.passing_append (r : TaskResult) (places more : List Place) :
    (r.passing places).passing more = r.passing (places ++ more) := by
  simp only [passing, List.map_append, List.append_assoc]

namespace Decorator

variable {σ : Type}

def around (inner : Reporter σ) : Decorator → Reporter σ
  | place p => inner.withPlace p
  | configured c vars => c.decorate vars inner

def place? : Decorator → Option Place
  | place p => some p
  | configured c vars => c.nodeNames.map fun names => Place.ofNames names vars

theorem around_eq (d : Decorator) (inner : Reporter σ) (r : TaskResult) :
    d.around inner r = inner (r.passing d.place?.toList) := by
  cases d with
  | place p => rfl
  | configured c vars =>
    rw [around, place?, ReporterConfig.decorate, ReporterConfig.place?]
    cases c.nodeNames with
    | none => exact congrArg inner r.passing_nil.symm
    | some names => rfl

def places (ds : List Decorator) : List Place := ds.filterMap place?

theorem places_cons (d : Decorator) (rest : List Decorator) :
    places (d :: rest) = d.place?.toList ++ places rest := by
  rw [places, List.filterMap_cons]
  cases d.place? with
  | none => rfl
  | some p => rfl

end Decorator

namespace Reporter

variable {σ : Type}

/-- The first decorator is the outermost one. -/
def nested (ds : List Decorator) (base : Reporter σ) : Reporter σ :=
  ds.foldr (fun d inner => d.around inner) base

def recorded (inner : Reporter σ) : Reporter (List TaskResult × σ) := fun r (calls, s) =>
  ((inner r s).1, calls ++ [r], (inner r s).2)

theorem nested_eq (ds : List Decorator) (base : Reporter σ) (r : TaskResult) :
    base.nested ds r = base (r.passing (Decorator.places ds)) := by
  induction ds generalizing r with
  | nil => exact congrArg base r.passing_nil.symm
  | cons d rest ih =>
    calc d.around (base.nested rest) r
        = base.nested rest (r.passing d.place?.toList) := d.around_eq _ r
      _ = base ((r.passing d.place?.toList).passing (Decorator.places rest)) := ih _
      _ = base (r.passing (Decorator.places (d :: rest))) := by
        rw [TaskResult.passing_append, Decorator.places_cons]

/-- Reporting through decorators calls the base once, with a result that differs only in its
artifacts, to which the locations are added from the outermost to the innermost; the answer and what
becomes of the base's state are those of this call. -/
theorem nested_delivers (ds : List Decorator) (base : Reporter σ) (r : TaskResult)
    (calls : List TaskResult) (s : σ) :
    ∃ delivered : TaskResult,
      (delivered.taskId = r.taskId ∧ delivered.success = r.success ∧
        delivered.metrics = r.metrics ∧
        delivered.artifacts = r.artifacts ++
          (Decorator.places ds).map fun p => p.taskLocation r.taskId) ∧
      base.nested ds r s = base delivered s ∧
      base.recorded.nested ds r (calls, s) =
        ((base delivered s).1, calls ++ [delivered], (base delivered s).2) := by
  refine ⟨r.passing (Decorator.places ds), ⟨rfl, rfl, rfl, rfl⟩, ?_, ?_⟩
  · rw [nested_eq]
  · rw [nested_eq]
    rfl

end Reporter

end BoundedWorker
