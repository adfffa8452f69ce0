import BoundedWorker.Proofs.Accounting

/-!
A ledger lists a kind only while some ticket that is out asks for it. So the ledger is idle once all
tickets have been given back, kinds of which nothing was asked for included, and the load that it
shows is then zero for the kinds with a limit and names no others.
-/

namespace BoundedWorker

theorem Meter.demand_pos {m : Meter} {required : Profile} {kind : String}
    (h : 0 < m.demand required kind) : required.contains kind = true := by
  rw [demand] at h
  cases hget : required.get? kind with
  | some amount => simp [Table.contains, hget]
  | none => simp [hget] at h

namespace Ledger

def Lists (l : Ledger) (kind : String) : Prop := l.load.contains kind = true

def Positive (l : Ledger) (kind : String) : Prop :=
  ∀ units, l.load.get? kind = some units → 0 < units

variable {l : Ledger} {kind : String}

theorem lists_iff : l.Lists kind ↔ ∃ units, l.load.get? kind = some units := by
  rw [Lists, Table.contains, Option.isSome_iff_exists]

theorem Positive.committed_pos (h : l.Positive kind) (hlists : l.Lists kind) :
    0 < l.committed kind := by
  obtain ⟨units, hget⟩ := lists_iff.1 hlists
  simpa [committed, hget] using h units hget

theorem add_lists {other : String} {amount : Float} (h : (l.add other amount).Lists kind) :
    other = kind ∨ l.Lists kind := by
  by_cases he : other = kind
  · exact .inl he
  · simp only [Lists, Table.contains, add, Table.get?_insert, if_neg he] at h
    exact .inr h

theorem addAll_lists {entries : List (String × Float)} (h : (l.addAll entries).Lists kind) :
    (∃ e ∈ entries, e.1 = kind) ∨ l.Lists kind := by
  induction entries generalizing l with
  | nil => exact .inr h
  | cons e rest ih =>
    rcases ih h with ⟨d, hd, he⟩ | h
    · exact .inl ⟨d, List.mem_cons_of_mem _ hd, he⟩
    · rcases add_lists h with he | h
      · exact .inl ⟨e, List.mem_cons_self, he⟩
      · exact .inr h

theorem commit_lists {l' : Ledger} {required : Profile} (h : l.commit required = .ok l')
    (hlists : l'.Lists kind) : required.contains kind = true ∨ l.Lists kind := by
  rw [(commit_eq_ok_iff.1 h).2] at hlists
  refine (addAll_lists hlists).imp_left ?_
  rintro ⟨e, he, rfl⟩
  exact Table.mem_names_iff.1 (List.mem_map_of_mem he)

theorem subtract_get?_ne {other : String} (h : other ≠ kind) (amount : Float) :
    (l.subtract other amount).1.load.get? kind = l.load.get? kind := by
  rw [subtract]
  split
  · dsimp only
    split
    · rw [Table.get?_erase, if_neg h]
    · rw [Table.get?_insert, if_neg h]
  · rfl

theorem subtract_positive (l : Ledger) (kind : String) (amount : Float) :
    (l.subtract kind amount).1.Positive kind := by
  intro units hget
  rw [subtract] at hget
  split at hget
  · dsimp only at hget
    split at hget
    · simp [Table.get?_erase] at hget
    · rename_i hne
      rw [Table.get?_insert, if_pos rfl] at hget
      exact Option.some.inj hget ▸ Nat.pos_of_ne_zero hne
  · simp_all

theorem subtract_lists {other : String} {amount : Float}
    (h : (l.subtract other amount).1.Lists kind) : l.Lists kind := by
  by_cases he : other = kind
  · subst he
    rw [lists_iff]
    cases hget : l.load.get? other with
    | some units => exact ⟨units, rfl⟩
    | none => simp [Lists, Table.contains, subtract, hget] at h
  · rwa [Lists, Table.contains, subtract_get?_ne he] at h

theorem subtractAll_positive {entries : List (String × Float)}
    (h : l.Positive kind ∨ ∃ e ∈ entries, e.1 = kind) :
    (l.subtractAll entries).1.Positive kind := by
  induction entries generalizing l with
  | nil => exact h.resolve_right (by simp)
  | cons e rest ih =>
    refine ih ?_
    by_cases he : e.1 = kind
    · exact .inl (he ▸ l.subtract_positive e.1 e.2)
    · rcases h with h | ⟨d, hd, hkind⟩
      · exact .inl fun units hget => h units ((subtract_get?_ne he e.2).symm.trans hget)
      · rcases List.mem_cons.1 hd with rfl | hd
        · exact absurd hkind he
        · exact .inr ⟨d, hd, hkind⟩

theorem subtractAll_lists {entries : List (String × Float)}
    (h : (l.subtractAll entries).1.Lists kind) : l.Lists kind := by
  induction entries generalizing l with
  | nil => exact h
  | cons e rest ih => exact subtract_lists (ih h)

theorem release_lists {required : Profile} (h : (l.release required).1.Lists kind) :
    l.Lists kind ∧ (required.contains kind = true → 0 < (l.release required).1.committed kind) := by
  refine ⟨subtractAll_lists h, fun hkind => Positive.committed_pos (subtractAll_positive ?_) h⟩
  obtain ⟨e, he, hname⟩ := List.mem_map.1 (Table.mem_names_iff.2 hkind)
  exact .inr ⟨e, he, hname⟩

/-- What is listed after a release is named by one of those that are still out, if what is committed
then is what they ask for. -/
theorem release_named {required : Profile} {rest : List Profile}
    (committed : (l.release required).1.committed kind =
      (rest.map fun r => l.meter.demand r kind).sum)
    (named : l.Lists kind → required.contains kind = true ∨ ∃ r ∈ rest, r.contains kind = true)
    (hlists : (l.release required).1.Lists kind) : ∃ r ∈ rest, r.contains kind = true := by
  obtain ⟨hbefore, hpos⟩ := release_lists hlists
  refine (named hbefore).elim (fun hkind => ?_) id
  -- something is still committed, and only one that is still out can stand behind it
  have hsum := hpos hkind
  rw [committed] at hsum
  obtain ⟨units, hmem, hunits⟩ := List.exists_mem_ne_zero_of_sum_ne_zero (Nat.ne_of_gt hsum)
  obtain ⟨r, hr, rfl⟩ := List.mem_map.1 hmem
  exact ⟨r, hr, Meter.demand_pos (Nat.pos_of_ne_zero hunits)⟩

theorem isIdle_iff (l : Ledger) : l.isIdle = true ↔ ∀ kind, ¬ l.Lists kind :=
  Table.isEmpty_iff

theorem profile_of_isIdle (h : l.isIdle = true) : l.profile = l.limits.map fun _ => 0 := by
  rw [isIdle, Table.isEmpty, List.isEmpty_iff] at h
  rw [profile, h]
  rfl

end Ledger

namespace Books

def Listed (b : Books) : Prop :=
  ∀ kind, b.ledger.Lists kind → ∃ t ∈ b.tickets, t.request.required.contains kind = true

variable {b : Books} {t : Ticket}

namespace Listed

theorem reserve (hl : b.Listed) {r : TaskRequest} {ledger : Ledger}
    (fits : b.ledger.commit r.required = .ok ledger) : (b.reserve r ledger).Listed := by
  intro kind hlists
  have hperm := Sound.reserve_tickets b r ledger
  rcases Ledger.commit_lists fits hlists with hkind | hlists
  · exact ⟨_, hperm.mem_iff.2 List.mem_cons_self, hkind⟩
  · obtain ⟨t, ht, hkind⟩ := hl kind hlists
    exact ⟨t, hperm.mem_iff.2 (List.mem_cons_of_mem _ ht), hkind⟩

theorem promote (hl : b.Listed) (hb : b.Sound) (ht : t ∈ b.waiting) (now : Nat) :
    (b.promote t now).Listed := by
  intro kind hlists
  obtain ⟨u, hu, hkind⟩ := hl kind hlists
  exact ⟨u, (hb.promote_tickets ht now).mem_iff.2 hu, hkind⟩

theorem close (hl : b.Listed) (hb : b.Sound) (ht : t ∈ b.tickets) : (b.close t).Listed := by
  intro kind hlists
  have hsum : (b.close t).ledger.committed kind = (((b.close t).tickets.map fun u =>
      u.request.required).map fun r => b.ledger.meter.demand r kind).sum := by
    have hmeter : (b.close t).ledger.meter = b.ledger.meter := Ledger.release_meter ..
    rw [(hb.close ht).committed kind, hmeter, List.map_map]
    rfl
  have hnamed : b.ledger.Lists kind → t.request.required.contains kind = true ∨
      ∃ r ∈ (b.close t).tickets.map fun u => u.request.required, r.contains kind = true := by
    intro hbefore
    obtain ⟨u, hu, hkind⟩ := hl kind hbefore
    rcases List.mem_cons.1 ((hb.close_tickets ht).mem_iff.1 hu) with rfl | hkept
    · exact .inl hkind
    · exact .inr ⟨_, List.mem_map_of_mem hkept, hkind⟩
  obtain ⟨r, hr, hkind⟩ := Ledger.release_named hsum hnamed hlists
  obtain ⟨u, hu, rfl⟩ := List.mem_map.1 hr
  exact ⟨u, hu, hkind⟩

end Listed

theorem Booking.listed {c : Books × List LedgerAlarm} (h : b.Booking c) (hb : b.Sound)
    (hl : b.Listed) : c.1.Listed := by
  cases h with
  | idle | number => exact hl
  | reserve r fresh fits => exact hl.reserve fits
  | start r now fresh fits =>
    exact (hl.reserve fits).promote (hb.reserve fresh fits) (new_mem ..) now
  | turnAway r fresh fits =>
    exact (hl.reserve fits).close (hb.reserve fresh fits) (Sound.waiting_mem (new_mem ..))
  | promote mem now => exact hl.promote hb mem now
  | close mem => exact hl.close hb mem

end Books

namespace Worker

variable {w : Worker}

theorem start_listed {meter : Meter} {config : Config} (h : start meter config = .ok w) :
    w.books.Listed := by
  rw [start_books h]
  intro kind hlists
  simp [Ledger.Lists, Ledger.new, Table.contains] at hlists

theorem run_listed (hb : w.books.Sound) (hl : w.books.Listed) (events : List Event) :
    (w.run events).1.books.Listed := by
  refine run_induction (P := fun _ c => c.1.books.Listed) hl (fun earlier e ih => ?_) events
  have hsound := (run_sound hb earlier).1
  exact (step_booking hsound e).listed hsound ih

theorem isIdle_of_tickets (hl : w.books.Listed) (h : w.tickets = []) :
    w.ledger.isIdle = true := by
  refine (Ledger.isIdle_iff _).2 fun kind hlists => ?_
  obtain ⟨t, ht, -⟩ := hl kind hlists
  have hnone : t ∈ ([] : List Ticket) := h ▸ ht
  cases hnone

end Worker

end BoundedWorker
