import BoundedWorker.Proofs.Ledger
import BoundedWorker.Proofs.Registrations
import BoundedWorker.Worker.Step
import Mathlib.Algebra.BigOperators.Group.List.Basic
import Mathlib.Algebra.Ring.Nat
import Mathlib.Data.List.Nodup

/-!
The books of a worker: its ledger, its registry, and the tickets that are out. A ticket stands for a
reservation that has not been given back, of a submission that waits or of an execution that runs.
`Sound` says that registry and ledger agree with the tickets; each way of keeping the books keeps
it, and raises no alarm.
-/

namespace BoundedWorker

theorem perm_cons_filter {α : Type} {key : α → Token} {as : List α} {a : α}
    (hkeys : (as.map key).Nodup) (ha : a ∈ as) :
    as.Perm (a :: as.filter fun b => key b ≠ key a) := by
  obtain ⟨before, after, rfl⟩ := List.append_of_mem ha
  have hperm : (before ++ a :: after).Perm (a :: (before ++ after)) := List.perm_middle
  have hnodup := (hperm.map key).nodup_iff.1 hkeys
  rw [List.map_cons, List.nodup_cons] at hnodup
  have hkeep : (before ++ after).filter (fun b => key b ≠ key a) = before ++ after :=
    List.filter_eq_self.2 fun b hb =>
      decide_eq_true fun he => hnodup.1 (he ▸ List.mem_map_of_mem hb)
  have hdrop : (before ++ a :: after).filter (fun b => key b ≠ key a) = before ++ after := by
    rw [List.filter_append] at hkeep ⊢
    simpa using hkeep
  rw [hdrop]
  exact hperm

/-- A reservation, under the number of the call it was made for. -/
structure Ticket where
  call : Token
  request : TaskRequest

namespace Ticket

def id (t : Ticket) : String := t.request.taskId

def handle (t : Ticket) (now : Nat) : Handle :=
  ⟨t.call, now, t.request.priority, t.request.required⟩

def units (m : Meter) (kind : String) (t : Ticket) : Nat := m.demand t.request.required kind

def without (call : Token) (ts : List Ticket) : List Ticket := ts.filter fun t => t.call ≠ call

theorem mem_without {call : Token} {ts : List Ticket} {t : Ticket} :
    t ∈ without call ts ↔ t ∈ ts ∧ t.call ≠ call := by
  simp [without]

theorem without_append (call : Token) (ts us : List Ticket) :
    without call (ts ++ us) = without call ts ++ without call us :=
  List.filter_append ..

theorem without_eq_self {call : Token} {ts : List Ticket} (h : ∀ t ∈ ts, t.call ≠ call) :
    without call ts = ts :=
  List.filter_eq_self.2 fun t ht => by simpa using h t ht

theorem perm_cons_without {ts : List Ticket} {t : Ticket} (hcalls : (ts.map call).Nodup)
    (ht : t ∈ ts) : ts.Perm (t :: without t.call ts) :=
  perm_cons_filter hcalls ht

theorem map_id_without {ts : List Ticket} {t : Ticket} (hcalls : (ts.map call).Nodup)
    (hids : (ts.map id).Nodup) (ht : t ∈ ts) :
    (without t.call ts).map id = (ts.map id).filter (· ≠ t.id) := by
  rw [List.filter_map, without]
  congr 1
  refine List.filter_congr fun u hu => ?_
  have hiff : u.call = t.call ↔ u.id = t.id :=
    ⟨fun h => by rw [List.inj_on_of_nodup_map hcalls hu ht h],
      fun h => by rw [List.inj_on_of_nodup_map hids hu ht h]⟩
  simp [hiff]

end Ticket

structure Books where
  calls : Nat
  ledger : Ledger
  registry : Registry
  waiting : List Ticket
  running : List Ticket

namespace Books

open Ticket (without)

def tickets (b : Books) : List Ticket := b.waiting ++ b.running

def number (b : Books) : Books := { b with calls := b.calls + 1 }

def reserve (b : Books) (r : TaskRequest) (ledger : Ledger) : Books :=
  { b.number with
    ledger
    registry := (b.registry.insertWaiting r.taskId).1
    waiting := b.waiting ++ [⟨b.calls, r⟩] }

def promote (b : Books) (t : Ticket) (now : Nat) : Books :=
  { b with
    registry := b.registry.promote t.id (t.handle now)
    waiting := without t.call b.waiting
    running := b.running ++ [t] }

def release (b : Books) (r : TaskRequest) : Books :=
  { b with
    ledger := (b.ledger.release r.required).1
    registry := (b.registry.remove r.taskId).1 }

def close (b : Books) (t : Ticket) : Books :=
  { b.release t.request with
    waiting := without t.call b.waiting
    running := without t.call b.running }

structure Sound (b : Books) : Prop where
  calls_lt : ∀ t ∈ b.tickets, t.call < b.calls
  calls_nodup : (b.tickets.map Ticket.call).Nodup
  ids_nodup : (b.tickets.map Ticket.id).Nodup
  waiting_ids : b.registry.waiting = b.waiting.map Ticket.id
  handle_of_running : ∀ t ∈ b.running, ∃ now, b.registry.running.get? t.id = some (t.handle now)
  running_of_handle : ∀ id h, b.registry.running.get? id = some h → ∃ t ∈ b.running, t.id = id
  committed : ∀ kind,
    b.ledger.committed kind = (b.tickets.map (Ticket.units b.ledger.meter kind)).sum

namespace Sound

variable {b : Books} {t : Ticket}

theorem waiting_calls_nodup (h : b.Sound) : (b.waiting.map Ticket.call).Nodup := by
  have := h.calls_nodup
  rw [tickets, List.map_append] at this
  exact (List.nodup_append'.1 this).1

theorem waiting_ids_nodup (h : b.Sound) : (b.waiting.map Ticket.id).Nodup := by
  have := h.ids_nodup
  rw [tickets, List.map_append] at this
  exact (List.nodup_append'.1 this).1

theorem eq_of_call (h : b.Sound) {u : Ticket} (ht : t ∈ b.tickets) (hu : u ∈ b.tickets)
    (he : t.call = u.call) : t = u :=
  List.inj_on_of_nodup_map h.calls_nodup ht hu he

theorem eq_of_id (h : b.Sound) {u : Ticket} (ht : t ∈ b.tickets) (hu : u ∈ b.tickets)
    (he : t.id = u.id) : t = u :=
  List.inj_on_of_nodup_map h.ids_nodup ht hu he

theorem waiting_ne_running (h : b.Sound) {u : Ticket} (ht : t ∈ b.waiting) (hu : u ∈ b.running) :
    t.call ≠ u.call := by
  have hnodup := h.calls_nodup
  rw [tickets, List.map_append] at hnodup
  exact fun he => (List.nodup_append'.1 hnodup).2.2 (List.mem_map_of_mem ht)
    (he ▸ List.mem_map_of_mem hu)

theorem waiting_mem (ht : t ∈ b.waiting) : t ∈ b.tickets := List.mem_append_left _ ht

theorem running_mem (ht : t ∈ b.running) : t ∈ b.tickets := List.mem_append_right _ ht

theorem contains_running_iff (h : b.Sound) (id : String) :
    b.registry.running.contains id = true ↔ ∃ t ∈ b.running, t.id = id := by
  rw [Table.contains, Option.isSome_iff_exists]
  constructor
  · rintro ⟨handle, hget⟩
    exact h.running_of_handle id handle hget
  · rintro ⟨t, ht, rfl⟩
    obtain ⟨now, hget⟩ := h.handle_of_running t ht
    exact ⟨_, hget⟩

theorem contains_iff (h : b.Sound) (id : String) :
    b.registry.contains id = true ↔ ∃ t ∈ b.tickets, t.id = id := by
  have hwaiting : b.registry.waiting.contains id = true ↔ ∃ t ∈ b.waiting, t.id = id := by
    simp [h.waiting_ids]
  simp only [Registry.contains, Bool.or_eq_true, hwaiting, h.contains_running_iff, tickets,
    List.mem_append, or_and_right, exists_or]

theorem entryOf_eq_none (h : b.Sound) {id : String} (hid : ∀ t ∈ b.tickets, t.id ≠ id) :
    b.registry.entryOf id = none := by
  rw [Registry.entryOf_eq_none_iff, ← Bool.not_eq_true, h.contains_iff]
  exact fun ⟨t, ht, he⟩ => hid t ht he

theorem isEmpty_iff (h : b.Sound) : b.registry.isEmpty = true ↔ b.tickets = [] := by
  simp only [Registry.isEmpty_iff, h.contains_iff, List.eq_nil_iff_forall_not_mem]
  exact ⟨fun hnone t ht => hnone t.id ⟨t, ht, rfl⟩, fun hnone _ ⟨t, ht, _⟩ => hnone t ht⟩

theorem runningIds_perm (h : b.Sound) :
    b.registry.runningIds.Perm (b.running.map Ticket.id) := by
  have hids := h.ids_nodup
  rw [tickets, List.map_append] at hids
  refine (List.perm_ext_iff_of_nodup (Table.names_nodup _) (List.nodup_append'.1 hids).2.1).2 ?_
  intro id
  rw [Table.mem_names_iff, h.contains_running_iff, List.mem_map]

theorem ids_perm (h : b.Sound) :
    (b.registry.waiting ++ b.registry.runningIds).Perm (b.tickets.map Ticket.id) := by
  rw [tickets, List.map_append, h.waiting_ids]
  exact List.Perm.append_left _ h.runningIds_perm

theorem activeCount_eq (h : b.Sound) : b.registry.activeCount = b.running.length := by
  have hlength := h.runningIds_perm.length_eq
  simpa [Registry.runningIds, Table.names, Registry.activeCount, Table.size] using hlength

theorem waitingCount_eq (h : b.Sound) : b.registry.waitingCount = b.waiting.length := by
  rw [Registry.waitingCount, h.waiting_ids, List.length_map]

theorem entryOf_of_running (h : b.Sound) (ht : t ∈ b.running) :
    ∃ since, b.registry.entryOf t.id = some (.running (t.handle since)) := by
  obtain ⟨since, hget⟩ := h.handle_of_running t ht
  exact ⟨since, by simp [Registry.entryOf, hget]⟩

theorem apart (h : b.Sound) : b.registry.Apart := by
  refine ⟨h.waiting_ids ▸ h.waiting_ids_nodup, fun id hid => ?_⟩
  obtain ⟨t, ht, rfl⟩ := List.mem_map.1 (h.waiting_ids ▸ hid)
  rw [← Option.not_isSome_iff_eq_none]
  intro hsome
  obtain ⟨u, hu, he⟩ := (h.contains_running_iff t.id).1 hsome
  exact h.waiting_ne_running ht hu (by rw [h.eq_of_id (running_mem hu) (waiting_mem ht) he])

theorem entryOf_of_waiting (h : b.Sound) (ht : t ∈ b.waiting) :
    b.registry.entryOf t.id = some .waiting :=
  h.apart.mem_waiting_iff.1 (h.waiting_ids ▸ List.mem_map_of_mem ht)

theorem number (h : b.Sound) : b.number.Sound :=
  ⟨fun t ht => Nat.lt_succ_of_lt (h.calls_lt t ht), h.calls_nodup, h.ids_nodup, h.waiting_ids,
    h.handle_of_running, h.running_of_handle, h.committed⟩

theorem reserve_tickets (b : Books) (r : TaskRequest) (ledger : Ledger) :
    (b.reserve r ledger).tickets.Perm (⟨b.calls, r⟩ :: b.tickets) := by
  simp only [tickets, Books.reserve, List.append_assoc, List.singleton_append]
  exact List.perm_middle

theorem reserve_mem {u : Ticket} (hu : u ∈ b.tickets) (r : TaskRequest) (ledger : Ledger) :
    u ∈ (b.reserve r ledger).tickets :=
  (reserve_tickets b r ledger).mem_iff.2 (List.mem_cons_of_mem _ hu)

theorem reserve (h : b.Sound) {r : TaskRequest} {ledger : Ledger}
    (fresh : b.registry.contains r.taskId = false)
    (fits : b.ledger.commit r.required = .ok ledger) : (b.reserve r ledger).Sound := by
  have hperm := reserve_tickets b r ledger
  have hid : r.taskId ∉ b.tickets.map Ticket.id := by
    intro hmem
    obtain ⟨t, ht, he⟩ := List.mem_map.1 hmem
    exact Bool.false_ne_true (fresh.symm.trans ((h.contains_iff r.taskId).2 ⟨t, ht, he⟩))
  have hcall : b.calls ∉ b.tickets.map Ticket.call := by
    intro hmem
    obtain ⟨t, ht, he⟩ := List.mem_map.1 hmem
    exact Nat.lt_irrefl b.calls (he ▸ h.calls_lt t ht)
  have hinsert : b.registry.insertWaiting r.taskId =
      ({ b.registry with waiting := b.registry.waiting ++ [r.taskId] }, true) := by
    simp [Registry.insertWaiting, fresh]
  refine ⟨?_, ?_, ?_, ?_, ?_, ?_, ?_⟩
  · intro t ht
    rcases List.mem_cons.1 (hperm.mem_iff.1 ht) with rfl | ht
    · exact Nat.lt_succ_self _
    · exact Nat.lt_succ_of_lt (h.calls_lt t ht)
  · exact (hperm.map Ticket.call).nodup_iff.2 (List.nodup_cons.2 ⟨hcall, h.calls_nodup⟩)
  · exact (hperm.map Ticket.id).nodup_iff.2 (List.nodup_cons.2 ⟨hid, h.ids_nodup⟩)
  · simp [Books.reserve, hinsert, h.waiting_ids, Ticket.id]
  · simpa [Books.reserve, Books.number, hinsert] using h.handle_of_running
  · simpa [Books.reserve, Books.number, hinsert] using h.running_of_handle
  · intro kind
    have hmeter : (b.reserve r ledger).ledger.meter = b.ledger.meter := Ledger.commit_meter fits
    rw [(hperm.map _).sum_eq, hmeter, List.map_cons, List.sum_cons, ← h.committed kind]
    exact (Ledger.committed_commit fits kind).trans (Nat.add_comm _ _)

theorem without_new (h : b.Sound) (r : TaskRequest) (ledger : Ledger) :
    without b.calls (b.reserve r ledger).waiting = b.waiting := by
  have hold : without b.calls b.waiting = b.waiting :=
    Ticket.without_eq_self fun t ht => Nat.ne_of_lt (h.calls_lt t (waiting_mem ht))
  have hnew : without b.calls [⟨b.calls, r⟩] = [] := by simp [without]
  rw [Books.reserve, Ticket.without_append, hold, hnew, List.append_nil]

theorem running_without_new (h : b.Sound) : without b.calls b.running = b.running :=
  Ticket.without_eq_self fun t ht => Nat.ne_of_lt (h.calls_lt t (running_mem ht))

theorem reserve_promote (h : b.Sound) (r : TaskRequest) (ledger : Ledger) (now : Nat) :
    (b.reserve r ledger).promote ⟨b.calls, r⟩ now = { b.number with
      ledger
      registry := (b.registry.insertWaiting r.taskId).1.promote r.taskId
        (Ticket.handle ⟨b.calls, r⟩ now)
      running := b.running ++ [⟨b.calls, r⟩] } := by
  simp only [Books.promote, h.without_new]
  rfl

theorem reserve_close (h : b.Sound) (r : TaskRequest) (ledger : Ledger) :
    (b.reserve r ledger).close ⟨b.calls, r⟩ = ({ b.number with
      ledger
      registry := (b.registry.insertWaiting r.taskId).1 } : Books).release r := by
  have hrun : without b.calls (b.reserve r ledger).running = b.running := h.running_without_new
  simp only [Books.close, h.without_new, hrun]
  rfl

theorem close_waiting (h : b.Sound) (ht : t ∈ b.waiting) :
    b.close t = { b.release t.request with waiting := without t.call b.waiting } := by
  have hrun : without t.call b.running = b.running :=
    Ticket.without_eq_self fun u hu he => h.waiting_ne_running ht hu he.symm
  rw [Books.close, hrun]
  rfl

theorem close_running (h : b.Sound) (ht : t ∈ b.running) :
    b.close t = { b.release t.request with running := without t.call b.running } := by
  have hwait : without t.call b.waiting = b.waiting :=
    Ticket.without_eq_self fun u hu => h.waiting_ne_running hu ht
  rw [Books.close, hwait]
  rfl

theorem promote_tickets (h : b.Sound) (ht : t ∈ b.waiting) (now : Nat) :
    (b.promote t now).tickets.Perm b.tickets := by
  have hwaiting := Ticket.perm_cons_without h.waiting_calls_nodup ht
  refine List.Perm.trans ?_ (hwaiting.append_right b.running).symm
  simp only [tickets, Books.promote, ← List.append_assoc]
  exact List.perm_append_singleton ..

theorem promote (h : b.Sound) (ht : t ∈ b.waiting) (now : Nat) : (b.promote t now).Sound := by
  have hperm := h.promote_tickets ht now
  refine ⟨?_, ?_, ?_, ?_, ?_, ?_, ?_⟩
  · exact fun u hu => h.calls_lt u (hperm.mem_iff.1 hu)
  · exact (hperm.map Ticket.call).nodup_iff.2 h.calls_nodup
  · exact (hperm.map Ticket.id).nodup_iff.2 h.ids_nodup
  · simp only [Books.promote, Registry.promote, h.waiting_ids]
    exact (Ticket.map_id_without h.waiting_calls_nodup h.waiting_ids_nodup ht).symm
  · intro u hu
    simp only [Books.promote, Registry.promote, Table.get?_insert]
    rcases List.mem_append.1 hu with hu | hu
    · have hne : t.id ≠ u.id := fun he =>
        h.waiting_ne_running ht hu (by rw [h.eq_of_id (waiting_mem ht) (running_mem hu) he])
      simpa [hne] using h.handle_of_running u hu
    · obtain rfl := List.mem_singleton.1 hu
      exact ⟨now, by simp⟩
  · intro id handle hget
    simp only [Books.promote, Registry.promote, Table.get?_insert] at hget
    by_cases he : t.id = id
    · exact ⟨t, by simp [Books.promote], he⟩
    · obtain ⟨u, hu, hid⟩ := h.running_of_handle id handle (by simpa [he] using hget)
      exact ⟨u, List.mem_append_left _ hu, hid⟩
  · exact fun kind => (h.committed kind).trans ((hperm.map _).sum_eq).symm

theorem close_tickets (h : b.Sound) (ht : t ∈ b.tickets) :
    b.tickets.Perm (t :: (b.close t).tickets) := by
  have hperm := Ticket.perm_cons_without h.calls_nodup ht
  rwa [tickets, Ticket.without_append] at hperm

theorem committed_eq_add (h : b.Sound) (ht : t ∈ b.tickets) (kind : String) :
    b.ledger.committed kind = t.units b.ledger.meter kind +
      ((b.close t).tickets.map (Ticket.units b.ledger.meter kind)).sum := by
  rw [h.committed kind, ((h.close_tickets ht).map _).sum_eq, List.map_cons, List.sum_cons]

theorem close_committed (h : b.Sound) (ht : t ∈ b.tickets) (kind : String) :
    (b.close t).ledger.committed kind + t.units b.ledger.meter kind = b.ledger.committed kind := by
  have hcommitted : (b.close t).ledger.committed kind =
      b.ledger.committed kind - t.units b.ledger.meter kind := Ledger.committed_release ..
  rw [hcommitted, h.committed_eq_add ht kind]
  exact Nat.sub_add_cancel (Nat.le_add_right _ _)

theorem release_alarms (h : b.Sound) (ht : t ∈ b.tickets) :
    (b.ledger.release t.request.required).2 = [] :=
  Ledger.release_alarms _ _ fun kind => (h.committed_eq_add ht kind) ▸ Nat.le_add_right _ _

theorem remove_waiting (h : b.Sound) (ht : t ∈ b.tickets) :
    (b.registry.remove t.id).1.waiting = (without t.call b.waiting).map Ticket.id := by
  -- what runs under the identifier is taken out first, and only if nothing does, what waits
  rw [Registry.remove]
  by_cases hrun : ∃ u ∈ b.running, u.id = t.id
  · obtain ⟨u, hu, he⟩ := hrun
    obtain rfl : u = t := h.eq_of_id (running_mem hu) ht he
    have hkeep : without u.call b.waiting = b.waiting :=
      Ticket.without_eq_self fun v hv => h.waiting_ne_running hv hu
    rw [if_pos ((h.contains_running_iff u.id).2 ⟨u, hu, rfl⟩), hkeep]
    exact h.waiting_ids
  · have hwaiting : t ∈ b.waiting :=
      (List.mem_append.1 ht).resolve_right fun hu => hrun ⟨t, hu, rfl⟩
    rw [if_neg (mt (h.contains_running_iff t.id).1 hrun),
      Ticket.map_id_without h.waiting_calls_nodup h.waiting_ids_nodup hwaiting, ← h.waiting_ids]

theorem close (h : b.Sound) (ht : t ∈ b.tickets) : (b.close t).Sound := by
  have hperm := h.close_tickets ht
  have hcalls := (hperm.map Ticket.call).nodup_iff.1 h.calls_nodup
  have hids := (hperm.map Ticket.id).nodup_iff.1 h.ids_nodup
  refine ⟨?_, (List.nodup_cons.1 hcalls).2, (List.nodup_cons.1 hids).2, h.remove_waiting ht,
    ?_, ?_, ?_⟩
  · exact fun u hu => h.calls_lt u (hperm.mem_iff.2 (List.mem_cons_of_mem _ hu))
  · intro u hu
    have hrun := (Ticket.mem_without.1 hu).1
    have hne : t.id ≠ u.id := fun he =>
      (Ticket.mem_without.1 hu).2 (by rw [h.eq_of_id ht (running_mem hrun) he])
    obtain ⟨now, hget⟩ := h.handle_of_running u hrun
    exact ⟨now, (Registry.get?_running_remove _ t.id u.id).trans ((if_neg hne).trans hget)⟩
  · intro id handle hget
    have hget' := (Registry.get?_running_remove _ t.id id).symm.trans hget
    -- the entry that is found is not the one taken out, and so is its ticket
    by_cases he : t.id = id
    · simp [he] at hget'
    · obtain ⟨u, hu, hid⟩ := h.running_of_handle id handle (by simpa [he] using hget')
      have hne : u.call ≠ t.call := fun hc =>
        he (by rw [← h.eq_of_call (running_mem hu) ht hc, hid])
      exact ⟨u, Ticket.mem_without.2 ⟨hu, hne⟩, hid⟩
  · intro kind
    have hmeter : (b.close t).ledger.meter = b.ledger.meter := Ledger.release_meter ..
    have hcommitted := h.close_committed ht kind
    rw [h.committed_eq_add ht kind, Nat.add_comm] at hcommitted
    rw [hmeter]
    exact Nat.add_left_cancel hcommitted

theorem close_not_mem (h : b.Sound) (ht : t ∈ b.tickets) {u : Ticket}
    (hu : u ∈ (b.close t).tickets) : u ∈ b.tickets ∧ u.call ≠ t.call := by
  have hperm := h.close_tickets ht
  have hcalls := (hperm.map Ticket.call).nodup_iff.1 h.calls_nodup
  exact ⟨hperm.mem_iff.2 (List.mem_cons_of_mem _ hu),
    fun he => (List.nodup_cons.1 hcalls).1 (he ▸ List.mem_map_of_mem hu)⟩

theorem close_entryOf (h : b.Sound) (ht : t ∈ b.tickets) (id : String) :
    (b.close t).registry.entryOf id = if t.id = id then none else b.registry.entryOf id := by
  by_cases he : t.id = id
  · rw [if_pos he]
    refine (h.close ht).entryOf_eq_none fun u hu hid => ?_
    obtain ⟨hmem, hne⟩ := h.close_not_mem ht hu
    exact hne (by rw [h.eq_of_id hmem ht (hid.trans he.symm)])
  · rw [if_neg he]
    exact Registry.entryOf_remove _ he

end Sound

/-- The ways of keeping the books, each with the alarms that the ledger raises. -/
inductive Booking (b : Books) : Books × List LedgerAlarm → Prop where
  | idle : Booking b (b, [])
  | number : Booking b (b.number, [])
  | reserve (r : TaskRequest) {ledger : Ledger} (fresh : b.registry.contains r.taskId = false)
      (fits : b.ledger.commit r.required = .ok ledger) : Booking b (b.reserve r ledger, [])
  | start (r : TaskRequest) {ledger : Ledger} (now : Nat)
      (fresh : b.registry.contains r.taskId = false)
      (fits : b.ledger.commit r.required = .ok ledger) :
      Booking b ((b.reserve r ledger).promote ⟨b.calls, r⟩ now, [])
  | turnAway (r : TaskRequest) {ledger : Ledger} (fresh : b.registry.contains r.taskId = false)
      (fits : b.ledger.commit r.required = .ok ledger) :
      Booking b ((b.reserve r ledger).close ⟨b.calls, r⟩, (ledger.release r.required).2)
  | promote {t : Ticket} (mem : t ∈ b.waiting) (now : Nat) : Booking b (b.promote t now, [])
  | close {t : Ticket} (mem : t ∈ b.tickets) :
      Booking b (b.close t, (b.ledger.release t.request.required).2)

namespace Booking

variable {b : Books} {c : Books × List LedgerAlarm}

theorem new_mem (b : Books) (r : TaskRequest) (ledger : Ledger) :
    ⟨b.calls, r⟩ ∈ (b.reserve r ledger).waiting := by
  simp [Books.reserve]

theorem sound (h : b.Booking c) (hb : b.Sound) : c.1.Sound := by
  cases h with
  | idle => exact hb
  | number => exact hb.number
  | reserve r fresh fits => exact hb.reserve fresh fits
  | start r now fresh fits => exact (hb.reserve fresh fits).promote (new_mem ..) now
  | turnAway r fresh fits =>
    exact (hb.reserve fresh fits).close (Sound.waiting_mem (new_mem ..))
  | promote mem now => exact hb.promote mem now
  | close mem => exact hb.close mem

theorem alarms_eq_nil (h : b.Booking c) (hb : b.Sound) : c.2 = [] := by
  cases h with
  | idle | number | reserve | start | promote => rfl
  | turnAway r fresh fits =>
    exact (hb.reserve fresh fits).release_alarms (Sound.waiting_mem (new_mem ..))
  | close mem => exact hb.release_alarms mem

theorem exists_ops (h : b.Booking c) : ∃ ops, c.1.ledger = b.ledger.run ops := by
  cases h with
  | idle | number | promote => exact ⟨[], rfl⟩
  | reserve r fresh fits | start r now fresh fits =>
    exact ⟨[.commit r.required], (Ledger.apply_commit_of_ok fits).symm⟩
  | turnAway r fresh fits =>
    refine ⟨[.commit r.required, .release r.required], ?_⟩
    simp only [Ledger.run, List.foldl_cons, List.foldl_nil, Ledger.apply_commit_of_ok fits]
    rfl
  | @close t mem => exact ⟨[.release t.request.required], rfl⟩

theorem eq_close (h : b.Booking c) (hb : b.Sound) {t : Ticket} (ht : t ∈ b.tickets)
    (gone : ∀ u ∈ c.1.tickets, u.call ≠ t.call) : c.1 = b.close t := by
  cases h with
  | idle | number => exact absurd rfl (gone t ht)
  | reserve r fresh fits => exact absurd rfl (gone t (Sound.reserve_mem ht r _))
  | start r now fresh fits =>
    have hperm := (hb.reserve fresh fits).promote_tickets (new_mem ..) now
    exact absurd rfl (gone t (hperm.mem_iff.2 (Sound.reserve_mem ht r _)))
  | turnAway r fresh fits =>
    have hperm := (hb.reserve fresh fits).close_tickets (Sound.waiting_mem (new_mem ..))
    rcases List.mem_cons.1 (hperm.mem_iff.1 (Sound.reserve_mem ht r _)) with rfl | hkept
    · exact absurd (hb.calls_lt _ ht) (Nat.lt_irrefl _)
    · exact absurd rfl (gone t hkept)
  | promote mem now => exact absurd rfl (gone t ((hb.promote_tickets mem now).mem_iff.2 ht))
  | @close u mem =>
    rcases List.mem_cons.1 ((hb.close_tickets mem).mem_iff.1 ht) with rfl | hkept
    · rfl
    · exact absurd rfl (gone t hkept)

end Booking

end Books

end BoundedWorker
