import BoundedWorker.Registry
import Mathlib.Data.List.Nodup
import Mathlib.Data.List.Perm.Basic

/-!
The registry as one map. What waits and what runs are held apart, yet an identifier is never in both
places, whatever is inserted, promoted and removed and in whatever order. So the registry answers
every question as one map from identifiers to entries would.
-/

namespace BoundedWorker

inductive Entry where
  | waiting
  | running (handle : Handle)

def Entry.status (now : Nat) : Entry → TaskStatus
  | .waiting => .awaitingSlot
  | .running h =>
    .running ((Duration.ofMillis? (now - h.startedAt)).getD .longest) h.priority h.required

theorem Entry.status_eq_awaitingSlot_iff {now : Nat} {entry : Entry} :
    entry.status now = .awaitingSlot ↔ entry = .waiting := by
  cases entry with
  | waiting => simp [status]
  | running handle => simp [status]

namespace Registry

def entryOf (r : Registry) (id : String) : Option Entry :=
  match r.running.get? id with
  | some handle => some (.running handle)
  | none => if r.waiting.contains id then some .waiting else none

theorem entryOf_eq_none_iff (r : Registry) (id : String) :
    r.entryOf id = none ↔ r.contains id = false := by
  rw [entryOf, contains, Table.contains]
  cases r.running.get? id with
  | some handle => simp
  | none => simp

theorem status?_eq (r : Registry) (now : Nat) (id : String) :
    r.status? now id = (r.entryOf id).map (Entry.status now) := by
  rw [status?, entryOf]
  cases r.running.get? id with
  | some handle => rfl
  | none => cases r.waiting.contains id <;> rfl

theorem get?_running_remove (r : Registry) (id other : String) :
    (r.remove id).1.running.get? other = if id = other then none else r.running.get? other := by
  rw [Registry.remove]
  by_cases hrun : r.running.contains id = true
  · rw [if_pos hrun]
    exact Table.get?_erase _ id other
  · rw [if_neg hrun]
    by_cases he : id = other
    · subst he
      simpa [Table.contains] using hrun
    · simp [he]

theorem contains_waiting_remove (r : Registry) {id other : String} (h : id ≠ other) :
    (r.remove id).1.waiting.contains other = r.waiting.contains other := by
  rw [remove]
  split
  · rfl
  · have hne : ¬ other = id := fun he => h he.symm
    simp [hne]

theorem entryOf_insertWaiting {r : Registry} {id : String} (fresh : r.contains id = false)
    (other : String) : (r.insertWaiting id).1.entryOf other =
      if id = other then some .waiting else r.entryOf other := by
  rw [contains, Bool.or_eq_false_iff] at fresh
  obtain ⟨hwaiting, hrunning⟩ := fresh
  rw [insertWaiting, contains, hwaiting, hrunning]
  by_cases he : id = other
  · subst he
    have hnone : r.running.get? id = none := by simpa [Table.contains] using hrunning
    simp [entryOf, hnone]
  · simp [entryOf, he, Ne.symm he]

theorem entryOf_promote (r : Registry) (id : String) (h : Handle) (other : String) :
    (r.promote id h).entryOf other =
      if id = other then some (.running h) else r.entryOf other := by
  rw [entryOf, entryOf, promote, Table.get?_insert]
  by_cases he : id = other
  · simp [he]
  · simp [he, Ne.symm he]

theorem entryOf_remove (r : Registry) {id other : String} (h : id ≠ other) :
    (r.remove id).1.entryOf other = r.entryOf other := by
  rw [entryOf, entryOf, get?_running_remove, if_neg h, contains_waiting_remove r h]

theorem insertWaiting_answer (r : Registry) (id : String) :
    (r.insertWaiting id).2 = !r.contains id := by
  rw [insertWaiting]
  cases r.contains id <;> rfl

theorem insertWaiting_known {r : Registry} {id : String} (known : r.contains id = true) :
    r.insertWaiting id = (r, false) :=
  if_pos known

theorem insertWaiting_ne_iff (r : Registry) (id : String) :
    (r.insertWaiting id).1 ≠ r ↔ r.contains id = false := by
  constructor
  · intro hne
    cases known : r.contains id with
    | true => exact absurd (congrArg Prod.fst (insertWaiting_known known)) hne
    | false => rfl
  · intro fresh heq
    have hentry := entryOf_insertWaiting fresh id
    rw [heq, if_pos rfl, (entryOf_eq_none_iff r id).2 fresh] at hentry
    cases hentry

theorem remove_answer (r : Registry) (id : String) : (r.remove id).2 = r.contains id := by
  rw [remove, contains]
  cases r.running.contains id with
  | true => simp
  | false => simp

/-- What waits is listed once, and does not run. -/
structure Apart (r : Registry) : Prop where
  once : r.waiting.Nodup
  apart : ∀ id ∈ r.waiting, r.running.get? id = none

namespace Apart

variable {r : Registry}

theorem empty : Registry.empty.Apart := ⟨List.nodup_nil, fun _ h => by cases h⟩

theorem insertWaiting (h : r.Apart) (id : String) : (r.insertWaiting id).1.Apart := by
  rw [Registry.insertWaiting]
  split
  · exact h
  · rename_i fresh
    rw [contains, Bool.or_eq_true, not_or] at fresh
    obtain ⟨hwaiting, hrunning⟩ := fresh
    refine ⟨h.once.append (List.nodup_singleton id) ?_, fun other hother => ?_⟩
    · simpa using hwaiting
    · rcases List.mem_append.1 hother with hother | hother
      · exact h.apart other hother
      · rw [List.mem_singleton.1 hother]
        simpa [Table.contains] using hrunning

theorem promote (h : r.Apart) (id : String) (handle : Handle) : (r.promote id handle).Apart := by
  refine ⟨h.once.filter _, fun other hother => ?_⟩
  obtain ⟨hmem, hne⟩ := List.mem_filter.1 hother
  have hne' : ¬ id = other := fun he => by simp [he] at hne
  rw [Registry.promote, Table.get?_insert, if_neg hne']
  exact h.apart other hmem

theorem remove (h : r.Apart) (id : String) : (r.remove id).1.Apart := by
  have hsublist : (r.remove id).1.waiting.Sublist r.waiting := by
    rw [Registry.remove]
    split
    · exact List.Sublist.refl _
    · exact List.filter_sublist
  refine ⟨h.once.sublist hsublist, fun other hother => ?_⟩
  rw [get?_running_remove]
  split
  · rfl
  · exact h.apart other (hsublist.mem hother)

theorem entryOf_remove_self (h : r.Apart) (id : String) :
    (r.remove id).1.entryOf id = none := by
  rw [entryOf, get?_running_remove, if_pos rfl, Registry.remove]
  by_cases hrun : r.running.contains id = true
  · have hmem : id ∉ r.waiting := fun hmem => by simp [Table.contains, h.apart id hmem] at hrun
    simp [hrun, hmem]
  · simp [hrun]

theorem mem_waiting_iff (h : r.Apart) {id : String} :
    id ∈ r.waiting ↔ r.entryOf id = some .waiting := by
  rw [entryOf]
  constructor
  · intro hmem
    simp [h.apart id hmem, hmem]
  · intro hentry
    split at hentry
    · cases hentry
    · split at hentry
      · exact List.contains_iff_mem.1 ‹_›
      · cases hentry

end Apart

theorem get?_running_iff {r : Registry} {id : String} {handle : Handle} :
    r.running.get? id = some handle ↔ r.entryOf id = some (.running handle) := by
  rw [entryOf]
  cases r.running.get? id with
  | some other => simp
  | none => simp

inductive Op where
  | insertWaiting (id : String)
  | promote (id : String) (handle : Handle)
  | remove (id : String)

def apply (r : Registry) : Op → Registry × Option Bool
  | .insertWaiting id => ((r.insertWaiting id).1, some (r.insertWaiting id).2)
  | .promote id handle => (r.promote id handle, none)
  | .remove id => ((r.remove id).1, some (r.remove id).2)

def Op.run {σ : Type} (apply : σ → Op → σ × Option Bool) (s : σ) :
    List Op → σ × List (Option Bool)
  | [] => (s, [])
  | op :: rest =>
    let (t, answer) := apply s op
    let (u, answers) := run apply t rest
    (u, answer :: answers)

end Registry

abbrev Roster := Table Entry

namespace Entry

def waiting? : Entry → Option Unit
  | .waiting => some ()
  | .running _ => none

def handle? : Entry → Option Handle
  | .waiting => none
  | .running handle => some handle

theorem waiting?_eq_some_iff {entry : Entry} {u : Unit} :
    entry.waiting? = some u ↔ entry = .waiting := by
  cases entry with
  | waiting => simp [waiting?]
  | running handle => simp [waiting?]

theorem handle?_eq_some_iff {entry : Entry} {handle : Handle} :
    entry.handle? = some handle ↔ entry = .running handle := by
  cases entry with
  | waiting => simp [handle?]
  | running other => simp [handle?]

end Entry

namespace Roster

variable {α : Type} {f : Entry → Option α} {m : Roster}

def apply (m : Roster) : Registry.Op → Roster × Option Bool
  | .insertWaiting id =>
    if m.contains id then (m, some false) else (m.insert id .waiting, some true)
  | .promote id handle => (m.insert id (.running handle), none)
  | .remove id => (m.erase id, some (m.contains id))

def select (f : Entry → Option α) (m : Roster) : List (String × α) :=
  m.entries.filterMap fun e => (f e.2).map fun a => (e.1, a)

def waitingIds (m : Roster) : List String := (m.select Entry.waiting?).map (·.1)

def handles (m : Roster) : List (String × Handle) := m.select Entry.handle?

theorem mem_select_iff {id : String} {a : α} :
    (id, a) ∈ m.select f ↔ ∃ entry, m.get? id = some entry ∧ f entry = some a := by
  rw [select, List.mem_filterMap]
  constructor
  · rintro ⟨⟨other, entry⟩, hmem, heq⟩
    obtain ⟨b, hb, hpair⟩ := Option.map_eq_some_iff.1 heq
    obtain ⟨rfl, rfl⟩ := Prod.mk.inj hpair
    exact ⟨entry, Table.mem_entries_iff.1 hmem, hb⟩
  · rintro ⟨entry, hget, ha⟩
    exact ⟨(id, entry), Table.mem_entries_iff.2 hget, by rw [ha]; rfl⟩

theorem select_ids_nodup (f : Entry → Option α) (m : Roster) :
    ((m.select f).map (·.1)).Nodup := by
  have hsublist : ((m.select f).map (·.1)).Sublist m.names := by
    rw [select, Table.names]
    induction m.entries with
    | nil => exact List.Sublist.slnil
    | cons e rest ih =>
      cases h : f e.2 with
      | none => simpa [h] using ih.cons e.1
      | some a => simpa [h] using ih.cons_cons e.1
  exact m.names_nodup.sublist hsublist

theorem mem_waitingIds_iff {id : String} : id ∈ m.waitingIds ↔ m.get? id = some .waiting := by
  simp [waitingIds, mem_select_iff, Entry.waiting?_eq_some_iff]

theorem mem_handles_iff {id : String} {handle : Handle} :
    (id, handle) ∈ m.handles ↔ m.get? id = some (.running handle) := by
  simp [handles, mem_select_iff, Entry.handle?_eq_some_iff]

end Roster

namespace Registry

variable {r : Registry} {m : Roster}

def Shows (r : Registry) (m : Roster) : Prop := ∀ id, r.entryOf id = m.get? id

theorem Shows.contains (h : r.Shows m) (id : String) : r.contains id = m.contains id := by
  rw [Bool.eq_iff_iff, ← not_iff_not, Bool.not_eq_true, Bool.not_eq_true, ← entryOf_eq_none_iff,
    h id, Table.contains, Option.isSome_eq_false_iff, Option.isNone_iff_eq_none]

theorem Apart.apply (h : r.Apart) (op : Op) : (r.apply op).1.Apart := by
  cases op with
  | insertWaiting id => exact h.insertWaiting id
  | promote id handle => exact h.promote id handle
  | remove id => exact h.remove id

theorem Shows.insertWaiting (h : r.Shows m) {id : String} (fresh : r.contains id = false) :
    (r.insertWaiting id).1.Shows (m.insert id .waiting) := by
  intro other
  rw [entryOf_insertWaiting fresh, h other]
  exact (Table.get?_insert ..).symm

theorem Shows.promote (h : r.Shows m) (id : String) (handle : Handle) :
    (r.promote id handle).Shows (m.insert id (.running handle)) := by
  intro other
  rw [entryOf_promote, h other]
  exact (Table.get?_insert ..).symm

theorem Shows.remove (h : r.Shows m) (apart : r.Apart) (id : String) :
    (r.remove id).1.Shows (m.erase id) := by
  intro other
  rw [Table.get?_erase]
  split
  · subst other
    exact apart.entryOf_remove_self id
  · rw [entryOf_remove r ‹_›, h other]

/-- What an operation does to the registry, it does to the map, with the same answer. -/
theorem Shows.apply (h : r.Shows m) (apart : r.Apart) (op : Op) :
    (r.apply op).1.Shows (m.apply op).1 ∧ (r.apply op).2 = (m.apply op).2 := by
  cases op with
  | insertWaiting id =>
    have hknown := h.contains id
    cases known : r.contains id with
    | true =>
      have hmap : m.apply (.insertWaiting id) = (m, some false) := if_pos (hknown ▸ known)
      rw [Registry.apply, insertWaiting_known known, hmap]
      exact ⟨h, rfl⟩
    | false =>
      have hmap : m.apply (.insertWaiting id) = (m.insert id .waiting, some true) :=
        if_neg (Bool.eq_false_iff.1 (hknown ▸ known))
      rw [Registry.apply, insertWaiting_answer, known, hmap]
      exact ⟨h.insertWaiting known, rfl⟩
  | promote id handle => exact ⟨h.promote id handle, rfl⟩
  | remove id =>
    exact ⟨h.remove apart id, congrArg some ((remove_answer r id).trans (h.contains id))⟩

theorem Shows.waiting_perm (h : r.Shows m) (apart : r.Apart) : r.waiting.Perm m.waitingIds := by
  have hids : m.waitingIds.Nodup := Roster.select_ids_nodup Entry.waiting? m
  refine (List.perm_ext_iff_of_nodup apart.once hids).2 fun id => ?_
  rw [apart.mem_waiting_iff, h id, Roster.mem_waitingIds_iff]

theorem Shows.handles_perm (h : r.Shows m) : r.running.entries.Perm m.handles := by
  have hrunning : r.running.entries.Nodup := .of_map _ r.running.names_nodup
  have hhandles : m.handles.Nodup := .of_map _ (Roster.select_ids_nodup Entry.handle? m)
  refine (List.perm_ext_iff_of_nodup hrunning hhandles).2 fun ⟨id, handle⟩ => ?_
  rw [Table.mem_entries_iff, get?_running_iff, h id, Roster.mem_handles_iff]

theorem isEmpty_iff : r.isEmpty = true ↔ ∀ id, ¬ r.contains id = true := by
  simp only [isEmpty, Bool.and_eq_true, List.isEmpty_iff, List.eq_nil_iff_forall_not_mem,
    Table.isEmpty_iff, contains, Bool.or_eq_true, not_or, forall_and, List.contains_iff_mem]

/-- Whatever the registry is asked, it answers as the map does, if in an order of its own. -/
structure Mirrors (r : Registry) (m : Roster) : Prop where
  apart : ∀ id, ¬(id ∈ r.waiting ∧ id ∈ r.runningIds)
  entryOf : ∀ id, r.entryOf id = m.get? id
  contains : ∀ id, r.contains id = m.contains id
  status? : ∀ now id, r.status? now id = (m.get? id).map (Entry.status now)
  activeCount : r.activeCount = m.handles.length
  waitingCount : r.waitingCount = m.waitingIds.length
  isEmpty : r.isEmpty = m.isEmpty
  runningIds : r.runningIds.Perm (m.handles.map (·.1))
  tokens : r.tokens.Perm (m.handles.map (·.2.token))

theorem Shows.mirrors (h : r.Shows m) (apart : r.Apart) : r.Mirrors m where
  apart := by
    rintro id ⟨hwaiting, hrunning⟩
    rw [runningIds, Table.mem_names_iff, Table.contains, apart.apart id hwaiting] at hrunning
    cases hrunning
  entryOf := h
  contains := h.contains
  status? now id := by rw [status?_eq, h id]
  activeCount := h.handles_perm.length_eq
  waitingCount := (h.waiting_perm apart).length_eq
  isEmpty := by
    rw [Bool.eq_iff_iff, isEmpty_iff, Table.isEmpty_iff]
    simp only [h.contains]
  runningIds := h.handles_perm.map _
  tokens := h.handles_perm.map _

theorem Shows.run (h : r.Shows m) (apart : r.Apart) (ops : List Op) :
    (Op.run Registry.apply r ops).1.Apart ∧
      (Op.run Registry.apply r ops).1.Shows (Op.run Roster.apply m ops).1 ∧
      (Op.run Registry.apply r ops).2 = (Op.run Roster.apply m ops).2 := by
  induction ops generalizing r m with
  | nil => exact ⟨apart, h, rfl⟩
  | cons op rest ih =>
    obtain ⟨hstep, hanswer⟩ := h.apply apart op
    obtain ⟨hapart, hshows, hanswers⟩ := ih hstep (apart.apply op)
    exact ⟨hapart, hshows, congrArg₂ List.cons hanswer hanswers⟩

/-- After any operations, the registry and one map to which the same was done have answered the same,
and tell the same of every identifier. An identifier is inserted exactly if it is not known, what is
promoted runs with the latest handle, and what is removed, if it is known, is known no more; other
identifiers keep their entries. -/
theorem run_mirrors (ops : List Op) :
    let r := (Op.run Registry.apply .empty ops).1
    let m := (Op.run Roster.apply .empty ops).1
    r.Mirrors m ∧
    (Op.run Registry.apply .empty ops).2 = (Op.run Roster.apply .empty ops).2 ∧
    (∀ id, ((r.insertWaiting id).2 = true ↔ m.get? id = none) ∧
      ((r.insertWaiting id).1 ≠ r ↔ m.get? id = none)) ∧
    (∀ id handle other, (r.promote id handle).entryOf other =
      if id = other then some (.running handle) else m.get? other) ∧
    ∀ id, ((r.remove id).2 = true ↔ m.get? id ≠ none) ∧
      ∀ other, (r.remove id).1.entryOf other = if id = other then none else m.get? other := by
  intro r m
  have hempty : Registry.empty.Shows .empty := fun _ => rfl
  obtain ⟨hapart, hshows, hanswers⟩ := hempty.run .empty ops
  have habsent : ∀ id, r.contains id = false ↔ m.get? id = none := fun id => by
    rw [← entryOf_eq_none_iff, hshows id]
  refine ⟨hshows.mirrors hapart, hanswers, fun id => ⟨?_, ?_⟩, fun id handle other => ?_,
    fun id => ⟨?_, fun other => ?_⟩⟩
  · rw [insertWaiting_answer, Bool.not_eq_true', habsent]
  · rw [insertWaiting_ne_iff, habsent]
  · rw [entryOf_promote, hshows other]
  · rw [remove_answer, ne_eq, ← habsent, Bool.not_eq_false]
  · exact (hshows.remove hapart id other).trans (Table.get?_erase ..)

/-- What was not known and what already runs can be promoted as well. -/
example (first second : Handle) :
    (Op.run Registry.apply .empty [.promote "a" first, .insertWaiting "a", .promote "a" second,
      .remove "b", .remove "a", .remove "a"]).2 =
      [none, some false, none, some false, some true, some false] :=
  rfl

end Registry

end BoundedWorker
