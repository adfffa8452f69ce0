import BoundedWorker.Proofs.Reports

/-!
The result of an outcome. It says whether the execution succeeded, and has a duration beside all the
metrics that the body set. Its error is the text metric of this name: the description of a failure,
or what the body of a success has set under this name.
-/

namespace BoundedWorker

theorem Metric.text?_eq_some_iff {m : Metric} {s : String} : m.text? = some s ↔ m = .text s := by
  cases m with
  | number x => exact iff_of_false nofun nofun
  | text t => simp [Metric.text?]

namespace Outcome

def own : Outcome → Metrics
  | completed metrics => metrics
  | failed failure => Table.empty.insert TaskResult.errorMetric (.text failure.message)

theorem toResult_metrics (o : Outcome) (taskId : String) (elapsed : Duration) (name : String) :
    (o.toResult taskId elapsed).metrics.get? name = (o.own.get? name).or
      (if TaskResult.durationMetric = name then some (.number elapsed.toSeconds) else none) := by
  cases o with
  | completed metrics =>
    change Table.get? (if metrics.contains TaskResult.durationMetric then metrics else _) name = _
    by_cases set : metrics.contains TaskResult.durationMetric = true
    · rw [if_pos set]
      by_cases hname : TaskResult.durationMetric = name
      · subst hname
        obtain ⟨m, hm⟩ := Option.isSome_iff_exists.1 set
        rw [own, hm, Option.some_or]
      · rw [if_neg hname, own, Option.or_none]
    · rw [if_neg set, Table.get?_insert]
      by_cases hname : TaskResult.durationMetric = name
      · subst hname
        rw [if_pos rfl, own, Option.not_isSome_iff_eq_none.1 set, Option.none_or, if_pos rfl]
      · rw [if_neg hname, if_neg hname, own, Option.or_none]
  | failed failure =>
    change Table.get? ((own (failed failure)).insert _ _) name = _
    rw [Table.get?_insert]
    by_cases hname : TaskResult.durationMetric = name
    · subst hname
      rw [if_pos rfl, own, Table.get?_insert, if_neg durationMetric_ne_errorMetric.symm,
        if_pos rfl]
      rfl
    · rw [if_neg hname, if_neg hname, Option.or_none]

theorem toResult_error?_completed (metrics : Metrics) (taskId : String) (elapsed : Duration) :
    ((completed metrics).toResult taskId elapsed).error? =
      (metrics.get? TaskResult.errorMetric).bind Metric.text? := by
  rw [TaskResult.error?, toResult_metrics, if_neg durationMetric_ne_errorMetric, Option.or_none,
    own]

/-- A result is a success exactly if its execution has completed, and it has a duration and all that
the body set. It has an error exactly if the execution failed, and then the failure's text, or if the
body that completed has set a text of this name. -/
theorem toResult_describes (o : Outcome) (taskId : String) (elapsed : Duration) :
    ((o.toResult taskId elapsed).success = true ↔ ∃ metrics, o = completed metrics) ∧
    (∀ text, (o.toResult taskId elapsed).error? = some text ↔
      (∃ failure, o = failed failure ∧ failure.message = text) ∨
        ∃ metrics, o = completed metrics ∧
          metrics.get? TaskResult.errorMetric = some (.text text)) ∧
    ((o.toResult taskId elapsed).metrics.get? TaskResult.durationMetric).isSome = true ∧
    (∀ metrics, o = completed metrics → ∀ name m, metrics.get? name = some m →
      (o.toResult taskId elapsed).metrics.get? name = some m) := by
  refine ⟨?_, fun text => ?_, ?_, ?_⟩
  · rw [toResult_success]
    cases o with
    | completed metrics => simp [failure?]
    | failed failure => simp [failure?]
  · cases o with
    | completed metrics =>
      rw [toResult_error?_completed, Option.bind_eq_some_iff]
      simp [Metric.text?_eq_some_iff]
    | failed failure =>
      rw [toResult_error? (show (failed failure).failure? = some failure from rfl)]
      simp
  · rw [toResult_metrics, if_pos rfl, Option.isSome_or, Option.isSome_some, Bool.or_true]
  · rintro metrics rfl name m hm
    rw [toResult_metrics, own, hm, Option.some_or]

theorem toResult_describes_success : ∃ o, o =
      completed (Table.ofList [(TaskResult.errorMetric, .text "x")]) ∧
    (o.toResult "t" .zero).success = true ∧
    ¬((o.toResult "t" .zero).error?.isSome = true ↔ ∃ failure, o = failed failure) := by
  refine ⟨_, rfl, rfl, ?_⟩
  intro h
  obtain ⟨failure, hfailure⟩ := h.1 rfl
  cases hfailure

end Outcome

end BoundedWorker
