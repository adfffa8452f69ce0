import BoundedWorker.Task.Outcome
import BoundedWorker.Proofs.JsonReading

/-!
Results as JSON. Every result whose numbers are finite is read back: the texts as they were, and
every number as a number.
-/

namespace BoundedWorker

open Record (readMembers_field readMembers_done)

def Metric.Alike : Metric → Metric → Prop
  | text s, m => m = text s
  | number _, m => ∃ y, m = number y

def Metric.Finite : Metric → Prop
  | number x => x.isFinite = true
  | text _ => True

theorem Metric.read_tree {m : Metric} (finite : m.Finite) (depth : Nat) :
    ∃ m', Metric.read depth (m.toJson.tree Number.written) = .ok m' ∧ m.Alike m' := by
  cases m with
  | text s => exact ⟨text s, rfl, rfl⟩
  | number x =>
    have finite' : x.isFinite = true := finite
    obtain ⟨y, hy, hread⟩ := Number.number?_binary finite'
    refine ⟨number y, ?_, y, rfl⟩
    rw [toJson, Json.ofFloat, dif_pos finite', Json.tree, Metric.read, Node.readJson, Node.readTree,
      hread]
    rfl

/-- What is no finite number is written as null, and null is no metric. -/
theorem Metric.finite_of_read_tree {numeral : Number → Numeral} {m m' : Metric} {depth : Nat}
    (h : Metric.read depth (m.toJson.tree numeral) = .ok m') : m.Finite := by
  cases m with
  | text s => trivial
  | number x =>
    by_contra infinite
    have infinite' : ¬x.isFinite = true := infinite
    rw [toJson, Json.ofFloat, dif_neg infinite'] at h
    cases h

theorem Node.exists_of_readEntries {α : Type} {read : Node → ReadResult α} {ended : Bool}
    {members : List (Option String × Node)} {t t' : Table α}
    (h : readEntries read ended t members = .ok t') : ∀ m ∈ members, ∃ a, read m.2 = .ok a := by
  induction members generalizing t with
  | nil => exact List.forall_mem_nil _
  | cons m rest ih =>
    obtain ⟨name, -, h⟩ := bind_eq_ok.1 h
    obtain ⟨a, ha, h⟩ := bind_eq_ok.1 h
    exact List.forall_mem_cons.2 ⟨⟨a, ha⟩, ih h⟩

def Metrics.Finite (m : Metrics) : Prop := ∀ name x, m.get? name = some (.number x) →
  x.isFinite = true

theorem Metrics.finite_iff {m : Metrics} : m.Finite ↔ ∀ e ∈ m.entries, e.2.Finite := by
  constructor
  · rintro finite ⟨name, m⟩ he
    cases m with
    | text s => trivial
    | number x => exact finite name x (Table.mem_entries_iff.1 he)
  · intro finite name x hx
    exact finite _ (Table.mem_entries_iff.2 hx)

namespace TaskResult

structure Alike (r r' : TaskResult) : Prop where
  taskId : r'.taskId = r.taskId
  success : r'.success = r.success
  artifacts : r'.artifacts = r.artifacts
  names : r'.metrics.names = r.metrics.names
  texts : ∀ name s, r.metrics.get? name = some (.text s) → r'.metrics.get? name = some (.text s)
  numbers : ∀ name x, r.metrics.get? name = some (.number x) →
    ∃ y, r'.metrics.get? name = some (.number y)

theorem read_members {numeral : Number → Numeral} (r : TaskResult) {metrics : Metrics}
    (h : (r.metrics.toJson.tree numeral).readTable (Metric.read (nestingLimit - 2)) = .ok metrics) :
    TaskResult.read (r.toJson.tree numeral) =
      .ok ⟨r.taskId, r.success, metrics, r.artifacts⟩ := by
  have hartifacts : ((Json.array (r.artifacts.map .string)).tree numeral).readList
      Node.readString = .ok r.artifacts := Node.readList_tree fun _ _ => rfl
  change record.readMembers true [] _ (Json.memberTrees numeral _) = _
  simp only [Json.memberTrees]
  rw [readMembers_field rfl rfl rfl, readMembers_field rfl rfl rfl,
    readMembers_field rfl rfl (bind_ok h _), readMembers_field rfl rfl (bind_ok hartifacts _)]
  exact readMembers_done rfl

theorem exists_metrics {numeral : Number → Numeral} {r r' : TaskResult}
    (h : TaskResult.read (r.toJson.tree numeral) = .ok r') :
    ∃ metrics, (r.metrics.toJson.tree numeral).readTable (Metric.read (nestingLimit - 2)) =
      .ok metrics := by
  cases hmetrics : (r.metrics.toJson.tree numeral).readTable (Metric.read (nestingLimit - 2)) with
  | ok metrics => exact ⟨metrics, rfl⟩
  | error fault =>
    change record.readMembers true [] _ (Json.memberTrees numeral _) = _ at h
    simp only [Json.memberTrees] at h
    -- The metrics are the third member: the fault is met before the artifacts are looked at.
    rw [readMembers_field rfl rfl rfl, readMembers_field rfl rfl rfl,
      Record.readMembers_fault rfl rfl (bind_error hmetrics _)] at h
    cases h

theorem finite_of_readText {r r' : TaskResult}
    (h : readText TaskResult.read r.toJson.text = .ok r') : r.metrics.Finite := by
  rw [readText_text] at h
  obtain ⟨metrics, hmetrics⟩ := exists_metrics h
  intro name x hx
  have hmember : (some name, (Metric.number x).toJson.tree Number.written) ∈
      Json.memberTrees Number.written (r.metrics.entries.map fun e => (e.1, e.2.toJson)) := by
    rw [Json.memberTrees_map]
    exact List.mem_map_of_mem (Table.mem_entries_iff.2 hx)
  obtain ⟨m, hm⟩ := Node.exists_of_readEntries hmetrics _ hmember
  exact Metric.finite_of_read_tree hm

theorem exists_readText (r : TaskResult) (finite : r.metrics.Finite) :
    ∃ r', readText TaskResult.read r.toJson.text = .ok r' ∧ r.Alike r' := by
  have hread : ∀ e ∈ r.metrics.entries, ∃ m,
      Metric.read (nestingLimit - 2) (e.2.toJson.tree Number.written) = .ok m ∧ e.2.Alike m := by
    intro e he
    exact Metric.read_tree (Metrics.finite_iff.1 finite e he) _
  obtain ⟨metrics, hmetrics, hnames, hget⟩ := Node.readTable_related hread
  refine ⟨⟨r.taskId, r.success, metrics, r.artifacts⟩, ?_, rfl, rfl, rfl, hnames, ?_, ?_⟩
  · rw [readText_text]
    exact r.read_members hmetrics
  · intro name s hs
    obtain ⟨m, hm, rfl⟩ := hget name _ hs
    exact hm
  · intro name x hx
    obtain ⟨m, hm, y, rfl⟩ := hget name _ hx
    exact ⟨y, hm⟩

end TaskResult

namespace Outcome

/-- No number that the body set is infinite or none at all. -/
def Finite (o : Outcome) : Prop := ∀ metrics, o = completed metrics → metrics.Finite

theorem insert_duration_finite {metrics : Metrics} (h : metrics.Finite) (elapsed : Duration) :
    Metrics.Finite (metrics.insert TaskResult.durationMetric (.number elapsed.toSeconds)) := by
  intro name x hx
  rw [Table.get?_insert] at hx
  split at hx
  · cases hx
    exact isFinite_toSeconds elapsed
  · exact h name x hx

theorem toResult_finite_iff (o : Outcome) (taskId : String) (elapsed : Duration) :
    (o.toResult taskId elapsed).metrics.Finite ↔ o.Finite := by
  cases o with
  | completed metrics =>
    have hcompleted : (completed metrics).Finite ↔ metrics.Finite :=
      ⟨fun h => h metrics rfl, fun h _ heq => Outcome.completed.inj heq ▸ h⟩
    rw [hcompleted, toResult]
    dsimp only [TaskResult.succeeded]
    split
    · rfl
    · rename_i hnone
      refine ⟨fun h name x hx => h name x ?_, fun h => insert_duration_finite h elapsed⟩
      have hname : TaskResult.durationMetric ≠ name := by
        rintro rfl
        exact hnone (Option.isSome_iff_exists.2 ⟨_, hx⟩)
      rw [Table.get?_insert, if_neg hname]
      exact hx
  | failed failure =>
    refine iff_of_true (insert_duration_finite (fun name x hx => ?_) elapsed) fun _ h => nomatch h
    rw [TaskResult.failed, Table.get?_insert] at hx
    split at hx
    · cases hx
    · cases hx

/-- What an execution ends with is read back from the text of its result exactly if no number in it
is infinite or none, and is then what it was. -/
theorem readText_result (o : Outcome) (taskId : String) (elapsed : Duration) :
    ((∃ r, readText TaskResult.read (o.toResult taskId elapsed).toJson.text = .ok r) ↔ o.Finite) ∧
      ∀ r, readText TaskResult.read (o.toResult taskId elapsed).toJson.text = .ok r →
        (o.toResult taskId elapsed).Alike r := by
  have hback : ∀ r, readText TaskResult.read (o.toResult taskId elapsed).toJson.text = .ok r →
      o.Finite := fun r h =>
    (toResult_finite_iff o taskId elapsed).1 (TaskResult.finite_of_readText h)
  have hread : o.Finite → ∃ r,
      readText TaskResult.read (o.toResult taskId elapsed).toJson.text = .ok r ∧
        (o.toResult taskId elapsed).Alike r := fun finite =>
    TaskResult.exists_readText _ ((toResult_finite_iff o taskId elapsed).2 finite)
  refine ⟨⟨fun ⟨r, h⟩ => hback r h, fun finite => ?_⟩, fun r h => ?_⟩
  · obtain ⟨r, h, -⟩ := hread finite
    exact ⟨r, h⟩
  · obtain ⟨r', h', halike⟩ := hread (hback r h)
    rw [h] at h'
    cases h'
    exact halike

theorem readText_result_accuracy :
    ∃ r, readText TaskResult.read ((completed (Table.empty.insert "accuracy"
        (.number 0.95))).toResult "t1" .zero).toJson.text = .ok r ∧
      ((completed (Table.empty.insert "accuracy" (.number 0.95))).toResult "t1" .zero).Alike r := by
  have hfinite : (completed (Table.empty.insert "accuracy" (.number 0.95))).Finite := by
    rintro metrics ⟨⟩ name x hx
    rw [Table.get?_insert] at hx
    split at hx <;> cases hx
    decide +kernel
  obtain ⟨hread, halike⟩ := readText_result
    (completed (Table.empty.insert "accuracy" (.number 0.95))) "t1" .zero
  obtain ⟨r, hr⟩ := hread.2 hfinite
  exact ⟨r, hr, halike r hr⟩

theorem not_readText_nan : ¬∃ r, readText TaskResult.read ((completed (Table.empty.insert "loss"
    (.number (0 / 0)))).toResult "t1" .zero).toJson.text = .ok r := by
  rintro ⟨r, hr⟩
  rw [readText_text] at hr
  cases hr

end Outcome

end BoundedWorker
