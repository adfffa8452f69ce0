import BoundedWorker.Resources.Profile
import BoundedWorker.Json.Printer

/-!
What monitoring sees of a worker: its load, how many tasks run and wait, and counters over its
lifetime. Counters have 64 bits and start again at zero after the largest number.
-/

namespace BoundedWorker

structure Totals where
  submitted : UInt64
  admitted : UInt64
  rejected : UInt64
  completed : UInt64
  failed : UInt64
  timedOut : UInt64
  cancelled : UInt64
  reportFailures : UInt64
deriving DecidableEq

namespace Totals

def zero : Totals := ⟨0, 0, 0, 0, 0, 0, 0, 0⟩

def toJson (t : Totals) : Json :=
  .object [("submitted", Json.ofNat t.submitted.toNat), ("admitted", Json.ofNat t.admitted.toNat),
    ("rejected", Json.ofNat t.rejected.toNat), ("completed", Json.ofNat t.completed.toNat),
    ("failed", Json.ofNat t.failed.toNat), ("timed_out", Json.ofNat t.timedOut.toNat),
    ("cancelled", Json.ofNat t.cancelled.toNat),
    ("report_failures", Json.ofNat t.reportFailures.toNat)]

def counter (name : String) (put : Totals → UInt64 → Totals) : Field Totals :=
  ⟨name, true, fun t n => (n.readUInt64 "u64").map (put t)⟩

def record : Record Totals where
  title := "struct TaskTotals"
  fields := [
    counter "submitted" fun t n => { t with submitted := n },
    counter "admitted" fun t n => { t with admitted := n },
    counter "rejected" fun t n => { t with rejected := n },
    counter "completed" fun t n => { t with completed := n },
    counter "failed" fun t n => { t with failed := n },
    counter "timed_out" fun t n => { t with timedOut := n },
    counter "cancelled" fun t n => { t with cancelled := n },
    counter "report_failures" fun t n => { t with reportFailures := n }]

def read (n : Node) : ReadResult Totals := record.read .text zero n

end Totals

structure Snapshot where
  cpuUsage : Float
  memoryUsage : Float
  activeTasks : Nat
  queueSize : Nat
  load : Profile
  limits : Profile
  totals : Totals

namespace Snapshot

def new (load limits : Profile) (activeTasks queueSize : Nat) (totals : Totals) : Snapshot :=
  ⟨load.amount Profile.cpu, load.amount Profile.memory, activeTasks, queueSize, load, limits,
    totals⟩

def empty : Snapshot := new .empty .empty 0 0 .zero

def toJson (s : Snapshot) : Json :=
  .object [("cpu_usage", Json.ofFloat s.cpuUsage), ("mem_usage_gb", Json.ofFloat s.memoryUsage),
    ("active_tasks", Json.ofNat s.activeTasks), ("queue_size", Json.ofNat s.queueSize),
    ("load", s.load.toJson), ("limits", s.limits.toJson), ("totals", s.totals.toJson)]

def record : Record Snapshot where
  title := "struct WorkerMetrics"
  fields := [
    ⟨"cpu_usage", true, fun s n => do return { s with cpuUsage := ← n.readFloat }⟩,
    ⟨"mem_usage_gb", true, fun s n => do return { s with memoryUsage := ← n.readFloat }⟩,
    ⟨"active_tasks", true, fun s n => do
      return { s with activeTasks := ← n.readNatural "usize" (Nat.pow 2 64) }⟩,
    ⟨"queue_size", true, fun s n => do
      return { s with queueSize := ← n.readNatural "usize" (Nat.pow 2 64) }⟩,
    ⟨"load", true, fun s n => do return { s with load := ← Profile.read n }⟩,
    ⟨"limits", true, fun s n => do return { s with limits := ← Profile.read n }⟩,
    ⟨"totals", true, fun s n => do return { s with totals := ← Totals.read n }⟩]

def read (n : Node) : ReadResult Snapshot := record.read .text empty n

end Snapshot

end BoundedWorker
