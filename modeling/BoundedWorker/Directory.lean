import BoundedWorker.Snapshot

/-!
A directory of workers, or of anything else that has a snapshot, for looking at all of them at once.
-/

namespace BoundedWorker

structure Directory (α : Type) where
  sources : Table α

namespace Directory

variable {α : Type}

def empty : Directory α := ⟨.empty⟩

def register (d : Directory α) (id : String) (a : α) : Directory α × Option α :=
  (⟨d.sources.insert id a⟩, d.sources.get? id)

def unregister (d : Directory α) (id : String) : Directory α × Bool :=
  (⟨d.sources.erase id⟩, d.sources.contains id)

def size (d : Directory α) : Nat := d.sources.size

def isEmpty (d : Directory α) : Bool := d.sources.isEmpty

def collect (d : Directory α) (snapshot : α → Snapshot) : Table Snapshot := d.sources.map snapshot

end Directory

end BoundedWorker
