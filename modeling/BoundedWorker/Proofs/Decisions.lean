import BoundedWorker.Proofs.Capacity
import BoundedWorker.Proofs.Omission
import BoundedWorker.Proofs.Shortfalls
import BoundedWorker.Proofs.Statuses

/-!
Decisions. Five things can stand against a request, and the first of them that does decides, in the
step that brings the request. If none does, the resources are committed for all kinds that the
request names, and its task waits for a slot, or runs if one is free.
-/

namespace BoundedWorker

theorem trimText_eq_empty_iff (s : String) :
    trimText s = "" ↔ ∀ c ∈ s.toList, isBlank c = true := by
  rw [trimText, ← trimBlank_eq_nil_iff]
  exact String.ofList_eq_empty_iff

namespace Profile

def Absurd (amount : Float) : Prop :=
  amount.isNaN = true ∨ amount.isInf = true ∨ amount < 0

theorem isRequirable_eq_false_iff (amount : Float) :
    isRequirable amount = false ↔ Absurd amount := by
  rw [isRequirable, Bool.and_eq_false_iff, isFinite_eq_false_iff, Bool.not_eq_false',
    decide_eq_true_iff, Absurd, or_assoc]

structure RequirementFault.IsFirst (f : RequirementFault) (required : Profile) : Prop where
  requested : required.get? f.kind = some f.amount
  absurd : Absurd f.amount
  least : ∀ kind amount, required.get? kind = some amount → utf8 kind < utf8 f.kind →
    ¬Absurd amount

def HasAbsurd (required : Profile) : Prop :=
  ∃ kind amount, required.get? kind = some amount ∧ Absurd amount

theorem checkRequirement_eq_error_iff (required : Profile) (f : RequirementFault) :
    required.checkRequirement = .error f ↔ f.IsFirst required := by
  have hfind : required.checkRequirement = .error f ↔
      required.entries.find? (fun e => !isRequirable e.2) = some (f.kind, f.amount) := by
    rw [checkRequirement]
    cases required.entries.find? fun e => !isRequirable e.2 with
    | none => simp
    | some e =>
      obtain ⟨kind, amount⟩ := f
      simp [Prod.ext_iff]
  rw [hfind, Table.find?_entries_eq_some_iff]
  simp only [Bool.not_eq_true', Bool.not_eq_false', isRequirable_eq_false_iff]
  constructor
  · rintro ⟨hget, habsurd, hleast⟩
    refine ⟨hget, habsurd, fun kind amount hkind hlt => ?_⟩
    rw [← isRequirable_eq_false_iff, hleast kind amount hkind (utf8_lt_iff.1 hlt)]
    nofun
  · intro first
    refine ⟨first.requested, first.absurd, fun kind amount hkind hlt => ?_⟩
    apply Bool.of_not_eq_false
    rw [isRequirable_eq_false_iff]
    exact first.least kind amount hkind (utf8_lt_iff.2 hlt)

theorem RequirementFault.IsFirst.hasAbsurd {f : RequirementFault} {required : Profile}
    (first : f.IsFirst required) : required.HasAbsurd :=
  ⟨f.kind, f.amount, first.requested, first.absurd⟩

theorem checkRequirement_eq_ok {required : Profile} (sane : ¬required.HasAbsurd) :
    required.checkRequirement = .ok () := by
  cases h : required.checkRequirement with
  | ok u => rfl
  | error f => exact absurd ((checkRequirement_eq_error_iff required f).1 h).hasAbsurd sane

theorem exists_first {required : Profile} (h : required.HasAbsurd) :
    ∃ f : RequirementFault, f.IsFirst required := by
  cases hcheck : required.checkRequirement with
  | error f => exact ⟨f, (checkRequirement_eq_error_iff required f).1 hcheck⟩
  | ok u =>
    -- the search has passed over the absurd amount, so it was none
    obtain ⟨kind, amount, hget, habsurd⟩ := h
    have hnone : required.entries.find? (fun e => !isRequirable e.2) = none := by
      rw [checkRequirement] at hcheck
      split at hcheck
      · cases hcheck
      · assumption
    have hpassed := List.find?_eq_none.1 hnone (kind, amount) (Table.mem_entries_iff.2 hget)
    simp [(isRequirable_eq_false_iff amount).2 habsurd] at hpassed

end Profile

namespace TaskRequest

def Blank (r : TaskRequest) : Prop := ∀ c ∈ r.taskId.toList, isBlank c = true

theorem validate_of_blank {r : TaskRequest} (h : r.Blank) : r.validate = .error .emptyId := by
  rw [validate, if_pos ((trimText_eq_empty_iff r.taskId).2 h)]

theorem validate_of_first {r : TaskRequest} (named : ¬r.Blank) {f : Profile.RequirementFault}
    (first : f.IsFirst r.required) : r.validate = .error (.requirement f) := by
  rw [validate, if_neg (mt (trimText_eq_empty_iff r.taskId).1 named),
    (Profile.checkRequirement_eq_error_iff r.required f).2 first]

theorem validate_of_sane {r : TaskRequest} (named : ¬r.Blank) (sane : ¬r.required.HasAbsurd) :
    r.validate = .ok () := by
  rw [validate, if_neg (mt (trimText_eq_empty_iff r.taskId).1 named),
    Profile.checkRequirement_eq_ok sane]

end TaskRequest

inductive Ground where
  | invalid
  | expired
  | closing
  | known
  | lacking

namespace Ground

def code : Ground → String
  | invalid => "invalid_request"
  | expired => "deadline_expired"
  | closing => "shutting_down"
  | known => "duplicate_task"
  | lacking => "insufficient_resources"

/-- What is looked for before. -/
def earlier : Ground → List Ground
  | invalid => []
  | expired => [invalid]
  | closing => [invalid, expired]
  | known => [invalid, expired, closing]
  | lacking => [invalid, expired, closing, known]

section

variable (meter : Meter) (limits : Profile) (w : Worker) (r : TaskRequest) (now : Nat)

def Applies : Ground → Prop
  | invalid => r.Blank ∨ r.required.HasAbsurd
  | expired => ∃ d ∈ r.deadline, d.val < now
  | closing => w.accepting = false
  | known => (∃ v ∈ w.waiters, v.request.taskId = r.taskId) ∨
      ∃ x ∈ w.running, x.request.taskId = r.taskId
  | lacking => ∃ kind amount, r.required.get? kind = some amount ∧
      meter.ceiling limits kind < w.ledger.committed kind + meter.units amount

structure Decides (g : Ground) : Prop where
  applies : g.Applies meter limits w r now
  first : ∀ f ∈ g.earlier, ¬f.Applies meter limits w r now

def Says : Ground → Refusal → Prop
  | invalid, refusal =>
      (r.Blank ∧ refusal = .invalidRequest "task_id must not be empty") ∨
      (¬r.Blank ∧ ∃ f : Profile.RequirementFault, f.IsFirst r.required ∧
        refusal = .invalidRequest f.message)
  | expired, refusal => refusal = .deadlineExpired
  | closing, refusal => refusal = .shuttingDown
  | known, refusal => refusal = .duplicateTask r.taskId
  | lacking, refusal => ∃ s : Shortfall,
      s.IsFirst meter r.required w.ledger.committed (meter.ceiling limits) ∧
        refusal = .insufficientResources s

end

variable {meter : Meter} {limits : Profile} {w : Worker} {r : TaskRequest} {now : Nat}

theorem exists_decides (h : ∃ g : Ground, g.Applies meter limits w r now) :
    ∃ g : Ground, g.Decides meter limits w r now := by
  by_cases hinvalid : invalid.Applies meter limits w r now
  · exact ⟨invalid, hinvalid, by simp [earlier]⟩
  by_cases hexpired : expired.Applies meter limits w r now
  · exact ⟨expired, hexpired, by simp [earlier, hinvalid]⟩
  by_cases hclosing : closing.Applies meter limits w r now
  · exact ⟨closing, hclosing, by simp [earlier, hinvalid, hexpired]⟩
  by_cases hknown : known.Applies meter limits w r now
  · exact ⟨known, hknown, by simp [earlier, hinvalid, hexpired, hclosing]⟩
  · refine ⟨lacking, ?_, by simp [earlier, hinvalid, hexpired, hclosing, hknown]⟩
    obtain ⟨g, hg⟩ := h
    cases g <;> first | contradiction | exact hg

theorem Says.code_eq {g : Ground} {refusal : Refusal} (h : g.Says meter limits w r refusal) :
    refusal.code = g.code := by
  cases g with
  | invalid =>
    obtain ⟨-, rfl⟩ | ⟨-, f, -, rfl⟩ := h
    · rfl
    · rfl
  | expired | closing | known =>
    obtain rfl := h
    rfl
  | lacking =>
    obtain ⟨s, -, rfl⟩ := h
    rfl

theorem Says.inj {g f : Ground} {refusal : Refusal} (hg : g.Says meter limits w r refusal)
    (hf : f.Says meter limits w r refusal) : g = f := by
  have hsame : g.code = f.code := hg.code_eq.symm.trans hf.code_eq
  cases g <;> cases f <;> first | rfl | exact absurd hsame (by decide)

end Ground

namespace Worker

structure Lawful (w : Worker) (meter : Meter) (limits : Profile) : Prop where
  sound : w.books.Sound
  switched : w.Switched
  meter_eq : w.ledger.meter = meter
  ceiling_eq : w.ledger.ceiling = meter.ceiling limits
  bounded : w.ledger.Bounded

/-- The request is taken on. Its task runs if a slot is free, and waits for one if none is. -/
structure Takes (w : Worker) (meter : Meter) (r : TaskRequest) (now : Nat) (c : Change) : Prop where
  committed : ∀ kind,
    c.1.ledger.committed kind = w.ledger.committed kind + meter.demand r.required kind
  registered : c.1.registry.entryOf r.taskId =
    some (if 0 < w.freeSlots then .running ⟨w.calls, now, r.priority, r.required⟩ else .waiting)
  others : ∀ id, id ≠ r.taskId → c.1.registry.entryOf id = w.registry.entryOf id
  freeSlots : c.1.freeSlots = w.freeSlots - 1
  runs : 0 < w.freeSlots → c.2 = [.launched w.calls, .answered w.calls (.ok r.taskId)] ∧
    c.1.running = w.running ++ [⟨w.calls, r, false⟩] ∧ c.1.waiters = w.waiters
  waits : w.freeSlots = 0 → c.2 = [] ∧
    c.1.waiters = w.waiters ++ [⟨w.calls, r, false⟩] ∧ c.1.running = w.running

variable {w : Worker} {meter : Meter} {limits : Profile} {r : TaskRequest} {now : Nat}

theorem expired_iff : Ground.expired.Applies meter limits w r now ↔
    (r.deadline.any fun d => d.val < now) = true := by
  rw [Ground.Applies]
  cases r.deadline with
  | none => simp
  | some d => simp

theorem closing_iff : Ground.closing.Applies meter limits w r now ↔ (!w.accepting) = true := by
  rw [Ground.Applies, Bool.not_eq_true']

theorem decide_of_valid (valid : ¬Ground.invalid.Applies meter limits w r now) :
    w.decide r now =
      if r.deadline.any fun d => d.val < now then .error .deadlineExpired
      else if !w.accepting then .error .shuttingDown
      else if w.registry.contains r.taskId then .error (.duplicateTask r.taskId)
      else (w.ledger.commit r.required).mapError .insufficientResources := by
  rw [Worker.decide, TaskRequest.validate_of_sane (mt .inl valid) (mt .inr valid)]
  cases w.ledger.commit r.required with
  | ok ledger => rfl
  | error s => rfl

namespace Lawful

theorem known_iff (h : w.Lawful meter limits) : Ground.known.Applies meter limits w r now ↔
    w.registry.contains r.taskId = true := by
  have hbooks : w.registry.contains r.taskId = true ↔ ∃ t ∈ w.books.tickets, t.id = r.taskId :=
    h.sound.contains_iff r.taskId
  rw [hbooks]
  simp [Ground.Applies, Books.tickets, books, or_and_right, exists_or, Ticket.id, Waiter.ticket,
    Execution.ticket]

theorem lacking_iff (h : w.Lawful meter limits) : Ground.lacking.Applies meter limits w r now ↔
    ∃ s, w.ledger.check r.required = .error s := by
  have hok : w.ledger.check r.required = .ok () ↔
      ¬Ground.lacking.Applies meter limits w r now := by
    rw [Ledger.check_eq_ok_iff]
    simp only [Ground.Applies, not_exists, not_and, Nat.not_lt]
    apply forall₂_congr
    intro kind amount
    rw [w.ledger.fits_iff_le (h.ceiling_eq ▸ meter.ceiling_le limits kind), h.meter_eq,
      h.ceiling_eq]
  cases hcheck : w.ledger.check r.required with
  | ok u => simpa [hcheck] using hok
  | error s => simpa [hcheck] using hok

theorem isFirst (h : w.Lawful meter limits) {s : Shortfall}
    (lacks : w.ledger.check r.required = .error s) :
    s.IsFirst meter r.required w.ledger.committed (meter.ceiling limits) := by
  have hle : ∀ kind, w.ledger.ceiling kind ≤ unitsMax := fun kind =>
    h.ceiling_eq ▸ meter.ceiling_le limits kind
  rw [← h.ceiling_eq, ← h.meter_eq]
  exact (w.ledger.check_eq_error_iff_isFirst hle h.bounded r.required s).1 lacks

theorem decide_refuses (h : w.Lawful meter limits) {g : Ground}
    (decides : g.Decides meter limits w r now) :
    ∃ refusal, g.Says meter limits w r refusal ∧ w.decide r now = .error refusal := by
  obtain ⟨applies, first⟩ := decides
  cases g with
  | invalid =>
    by_cases blank : r.Blank
    · refine ⟨_, .inl ⟨blank, rfl⟩, ?_⟩
      rw [Worker.decide, TaskRequest.validate_of_blank blank]
      rfl
    · obtain ⟨f, hf⟩ := Profile.exists_first (applies.resolve_left blank)
      refine ⟨_, .inr ⟨blank, f, hf, rfl⟩, ?_⟩
      rw [Worker.decide, TaskRequest.validate_of_first blank hf]
      rfl
  | expired =>
    simp only [Ground.earlier, List.forall_mem_cons] at first
    obtain ⟨valid, -⟩ := first
    refine ⟨.deadlineExpired, rfl, ?_⟩
    rw [decide_of_valid valid, if_pos (expired_iff.1 applies)]
  | closing =>
    simp only [Ground.earlier, List.forall_mem_cons] at first
    obtain ⟨valid, timely, -⟩ := first
    refine ⟨.shuttingDown, rfl, ?_⟩
    rw [decide_of_valid valid, if_neg (mt expired_iff.2 timely), if_pos (closing_iff.1 applies)]
  | known =>
    simp only [Ground.earlier, List.forall_mem_cons] at first
    obtain ⟨valid, timely, accepts, -⟩ := first
    refine ⟨.duplicateTask r.taskId, rfl, ?_⟩
    rw [decide_of_valid valid, if_neg (mt expired_iff.2 timely), if_neg (mt closing_iff.2 accepts),
      if_pos (h.known_iff.1 applies)]
  | lacking =>
    simp only [Ground.earlier, List.forall_mem_cons] at first
    obtain ⟨valid, timely, accepts, fresh, -⟩ := first
    obtain ⟨s, lacks⟩ := h.lacking_iff.1 applies
    refine ⟨.insufficientResources s, ⟨s, h.isFirst lacks, rfl⟩, ?_⟩
    rw [decide_of_valid valid, if_neg (mt expired_iff.2 timely), if_neg (mt closing_iff.2 accepts),
      if_neg (mt h.known_iff.2 fresh), Ledger.commit, lacks]
    rfl

theorem decide_accepts (h : w.Lawful meter limits)
    (unopposed : ∀ g : Ground, ¬g.Applies meter limits w r now) :
    ∃ ledger, w.decide r now = .ok ledger := by
  have lacks := mt h.lacking_iff.2 (unopposed .lacking)
  rw [decide_of_valid (unopposed .invalid), if_neg (mt expired_iff.2 (unopposed .expired)),
    if_neg (mt closing_iff.2 (unopposed .closing)), if_neg (mt h.known_iff.2 (unopposed .known)),
    Ledger.commit]
  cases hcheck : w.ledger.check r.required with
  | ok u => exact ⟨_, rfl⟩
  | error s => exact absurd ⟨s, hcheck⟩ lacks

theorem submit_takes (h : w.Lawful meter limits) {ledger : Ledger}
    (decided : w.decide r now = .ok ledger) : w.Takes meter r now (w.submit r now) := by
  obtain ⟨-, fresh, commits⟩ := decide_eq_ok decided
  have hserves := h.switched.serving_of_decided decided
  have hopen : (w.opened.reserved r ledger).slotsClosed = false := hserves.isOpen
  have haccepts : (w.opened.reserved r ledger).slotTaken.accepting = true := hserves.accepts
  have hcommitted : ∀ kind, ledger.committed kind =
      w.ledger.committed kind + meter.demand r.required kind := by
    intro kind
    rw [Ledger.committed_commit commits, h.meter_eq]
  have hwaiting := Registry.entryOf_insertWaiting fresh
  have hsubmit : w.submit r now = (w.opened.reserved r ledger).acquire w.calls r now := by
    have hopened : w.opened.decide r now = w.decide r now := rfl
    rw [submit, hopened, decided]
  rw [hsubmit, acquire, if_neg (by simp [hopen])]
  by_cases free : 0 < w.freeSlots
  · rw [if_pos (show 0 < (w.opened.reserved r ledger).freeSlots from free), launch,
      if_neg (by simp [haccepts])]
    have hrunning := Registry.entryOf_promote (w.registry.insertWaiting r.taskId).1 r.taskId
      ⟨w.calls, now, r.priority, r.required⟩
    refine ⟨hcommitted, ?_, fun id hid => ?_, rfl, fun _ => ⟨rfl, rfl, rfl⟩, fun h0 => ?_⟩
    · rw [if_pos free]
      exact (hrunning r.taskId).trans (if_pos rfl)
    · apply (hrunning id).trans
      rw [if_neg hid.symm, hwaiting id, if_neg hid.symm]
    · omega
  · rw [if_neg (show ¬0 < (w.opened.reserved r ledger).freeSlots from free)]
    refine ⟨hcommitted, ?_, fun id hid => ?_, ?_, fun h0 => absurd h0 free,
      fun _ => ⟨rfl, rfl, rfl⟩⟩
    · rw [if_neg free]
      exact (hwaiting r.taskId).trans (if_pos rfl)
    · exact (hwaiting id).trans (if_neg hid.symm)
    · change w.freeSlots = w.freeSlots - 1
      omega

end Lawful

theorem run_lawful {config : Config} (h : start meter config = .ok w) (events : List Event) :
    (w.run events).1.Lawful meter config.limits := by
  have hmeter := run_meter h events
  refine ⟨(run_sound (start_sound h) events).1, run_switched (start_switched h) events, hmeter,
    ?_, ?_⟩
  · funext kind
    rw [Ledger.ceiling, run_limits h events, hmeter, Table.get?_map, Meter.ceiling]
  · obtain ⟨ops, hops⟩ := run_ledger (start_sound h) events
    have hnew : w.ledger = .new meter config.limits := congrArg Books.ledger (start_books h)
    rw [hops, hnew]
    exact Ledger.run_bounded (Ledger.new_bounded meter config.limits) ops

/-- After every run, a request is refused in the step that brings it exactly if something stands
against it, in the words of the first thing that does; if nothing does, it is taken on. -/
theorem run_decides {config : Config} (h : start meter config = .ok w) (events : List Event)
    (remains : (w.run events).1.dropped = false) {e : Event} (asked : e.request? = some (r, now)) :
    (∀ g : Ground, g.Decides meter config.limits (w.run events).1 r now ↔
      ∃ refusal, g.Says meter config.limits (w.run events).1 r refusal ∧
        ((w.run events).1.step e).2 = [.answered (w.run events).1.calls (.error refusal)]) ∧
    ((∀ g : Ground, ¬g.Applies meter config.limits (w.run events).1 r now) →
      (w.run events).1.Takes meter r now ((w.run events).1.step e)) := by
  have hlawful := run_lawful h events
  rw [step_request remains asked]
  generalize (w.run events).1 = u at *
  have htakes : (∀ g : Ground, ¬g.Applies meter config.limits u r now) →
      u.Takes meter r now (u.submit r now) := by
    intro none
    obtain ⟨ledger, decided⟩ := hlawful.decide_accepts none
    exact hlawful.submit_takes decided
  have hrefuses : ∀ {g : Ground}, g.Decides meter config.limits u r now → ∃ refusal,
      g.Says meter config.limits u r refusal ∧
        (u.submit r now).2 = [.answered u.calls (.error refusal)] := by
    intro g decides
    obtain ⟨refusal, words, against⟩ := hlawful.decide_refuses decides
    exact ⟨refusal, words, by rw [submit_of_error against]; rfl⟩
  refine ⟨fun g => ⟨hrefuses, ?_⟩, htakes⟩
  rintro ⟨refusal, words, told⟩
  by_cases happlies : ∃ f : Ground, f.Applies meter config.limits u r now
  · -- whoever decides has said the same, and so is the one in question
    obtain ⟨f, decides⟩ := Ground.exists_decides happlies
    obtain ⟨refusal', words', told'⟩ := hrefuses decides
    obtain rfl : refusal' = refusal := by simpa [told] using told'.symm
    rwa [words.inj words']
  · have takes := htakes (not_exists.1 happlies)
    rcases Nat.eq_zero_or_pos u.freeSlots with full | free
    · simp [(takes.waits full).1] at told
    · simp [(takes.runs free).1] at told

theorem run_decides_due : ∃ config, config =
      { Config.standard "w" with maxConcurrentTasks := 1 } ∧
    ∃ w, start .millionths config = .ok w ∧ ∃ u, u = (w.run [.submit (.new "a" .null) 0]).1 ∧
    ∃ r : TaskRequest, r.taskId = "a" ∧ r.deadline.map Fin.val = some 5 ∧
      r.required = Table.ofList [(Profile.cpu, 3)] ∧
      Ground.expired.Decides .millionths config.limits u r 6 ∧
      Ground.known.Decides .millionths config.limits u r 5 ∧
      u.Takes .millionths (.new "b" .null) 0 (u.step (.submit (.new "b" .null) 0)) := by
  have hdecides := fun r now => run_decides (show start .millionths
    { Config.standard "w" with maxConcurrentTasks := 1 } = .ok _ from rfl)
    [.submit (.new "a" .null) 0] rfl (e := .submit r now) rfl
  refine ⟨_, rfl, _, rfl, _, rfl, { TaskRequest.new "a" .null with
    deadline := some ⟨5, by decide⟩, required := Table.ofList [(Profile.cpu, 3)] },
    rfl, rfl, rfl, ?_, ?_, ?_⟩
  · exact ((hdecides _ 6).1 .expired).2 ⟨_, rfl, rfl⟩
  · exact ((hdecides _ 5).1 .known).2 ⟨_, rfl, rfl⟩
  · apply (hdecides _ 0).2
    intro g applies
    -- it would have been refused
    obtain ⟨f, decides⟩ := Ground.exists_decides ⟨g, applies⟩
    obtain ⟨refusal, -, told⟩ := ((hdecides _ 0).1 f).1 decides
    cases told

end Worker

end BoundedWorker
