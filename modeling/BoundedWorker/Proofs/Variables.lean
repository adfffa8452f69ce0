import BoundedWorker.Proofs.Configurations

/-!
Settings from variables. A variable that is set says one part of the configuration, or is refused,
whatever the other variables say. The first one that is refused is the fault that is reported; if none
is, the configuration that they make together is validated.
-/

namespace BoundedWorker

open Config

inductive Setting where
  | workerId
  | slots
  | timeout
  | limits
  | endpoint
  | base
  | nodeNames

namespace Setting

def all : List Setting := [workerId, slots, timeout, limits, endpoint, base, nodeNames]

def checked : List Setting := [slots, timeout, limits, base]

def name : Setting → String
  | workerId => "WORKER_ID"
  | slots => "WORKER_MAX_CONCURRENT_TASKS"
  | timeout => "WORKER_TASK_TIMEOUT_SECS"
  | limits => "WORKER_RESOURCE_LIMITS"
  | endpoint => "WORKER_TASK_QUEUE_ENDPOINT"
  | base => "WORKER_REPORTER"
  | nodeNames => "WORKER_NODE_METADATA"

def Value : Setting → Type
  | workerId | endpoint => String
  | slots => UInt64
  | timeout => Float
  | limits => Profile
  | base => BaseReporter
  | nodeNames => Option NodeNames

def get : (s : Setting) → Config → s.Value
  | workerId, c => c.workerId
  | slots, c => c.maxConcurrentTasks
  | timeout, c => c.timeoutSecs
  | limits, c => c.limits
  | endpoint, c => c.endpoint
  | base, c => c.reporter.base
  | nodeNames, c => c.reporter.nodeNames

def put : (s : Setting) → Config → s.Value → Config
  | workerId, c, v => { c with workerId := v }
  | slots, c, v => { c with maxConcurrentTasks := v }
  | timeout, c, v => { c with timeoutSecs := v }
  | limits, c, v => { c with limits := v }
  | endpoint, c, v => { c with endpoint := v }
  | base, c, v => { c with reporter := { c.reporter with base := v } }
  | nodeNames, c, v => { c with reporter := { c.reporter with nodeNames := v } }

/-- What the text of a variable says. Only of node names can it say nothing. -/
def read : (s : Setting) → String → Except Fault (Option s.Value)
  | workerId, raw | endpoint, raw => .ok (some raw)
  | slots, raw => ((Decimal.readNatural (Nat.pow 2 64) (trimText raw)).map
      fun n => some (UInt64.ofNat n)).mapError .maxConcurrentTasks
  | timeout, raw => ((Decimal.readFloat (trimText raw)).map some).mapError .timeout
  | limits, raw => ((readText Profile.read raw).map some).mapError .limits
  | base, raw => match Table.lookup (trimText raw) BaseReporter.names with
    | some b => .ok (some b)
    | none => .error (.reporter (trimText raw))
  | nodeNames, raw => .ok (if isYes raw then some (some .none) else none)

def setter : Setting → Config → String → Except Fault Config
  | workerId => fun c raw => .ok { c with workerId := raw }
  | slots => setMaxConcurrentTasks
  | timeout => setTimeout
  | limits => setLimits
  | endpoint => fun c raw => .ok { c with endpoint := raw }
  | base => setReporter
  | nodeNames => setNodeMetadata

theorem put_get (s : Setting) (c : Config) : s.put c (s.get c) = c := by
  cases s <;> rfl

theorem setter_eq (s : Setting) (c : Config) (raw : String) :
    s.setter c raw = (s.read raw).map fun said => s.put c (said.getD (s.get c)) := by
  cases s with
  | workerId | endpoint => rfl
  | slots =>
    simp only [setter, setMaxConcurrentTasks, read]
    cases Decimal.readNatural (Nat.pow 2 64) (trimText raw) with
    | ok n => rfl
    | error fault => rfl
  | timeout =>
    simp only [setter, setTimeout, read]
    cases Decimal.readFloat (trimText raw) with
    | ok x => rfl
    | error fault => rfl
  | limits =>
    simp only [setter, setLimits, read]
    cases readText Profile.read raw with
    | ok p => rfl
    | error fault => rfl
  | base =>
    simp only [setter, setReporter, read]
    cases Table.lookup (trimText raw) BaseReporter.names with
    | some b => rfl
    | none => rfl
  | nodeNames =>
    simp only [setter, setNodeMetadata, read]
    cases isYes raw with
    | true => rfl
    | false => rfl

section

variable (vars : Variables)

def said (s : Setting) (default : s.Value) : s.Value :=
  match vars s.name with
  | none => default
  | some raw => match s.read raw with
    | .ok (some v) => v
    | _ => default

def fault? (s : Setting) : Option Fault :=
  match vars s.name with
  | none => none
  | some raw => match s.read raw with
    | .ok _ => none
    | .error fault => some fault

def Parses (s : Setting) : Prop := ∀ raw, vars s.name = some raw → ∃ v, s.read raw = .ok v

/-- It does not parse, and those that are looked at before do. -/
def FailsFirst (s : Setting) : Prop :=
  ∃ before after, checked = before ++ s :: after ∧ (∀ t ∈ before, t.Parses vars) ∧ ¬s.Parses vars

end

theorem set_eq (vars : Variables) (s : Setting) (c : Config) : set vars s.name s.setter c =
    match s.fault? vars with
    | some fault => .error fault
    | none => .ok (s.put c (s.said vars (s.get c))) := by
  rw [Config.set, fault?, said]
  cases vars s.name with
  | none => exact congrArg Except.ok (s.put_get c).symm
  | some raw =>
    dsimp only
    rw [setter_eq]
    cases s.read raw with
    | error fault => rfl
    | ok v => cases v <;> rfl

theorem foldlM_set (vars : Variables) (ss : List Setting) (c : Config) :
    ss.foldlM (fun c s => set vars s.name s.setter c) c =
      match ss.findSome? (fault? vars) with
      | some fault => .error fault
      | none => .ok (ss.foldl (fun c s => s.put c (s.said vars (s.get c))) c) := by
  induction ss generalizing c with
  | nil => rfl
  | cons s rest ih =>
    rw [List.foldlM_cons, set_eq, List.findSome?_cons]
    cases s.fault? vars with
    | some fault => rfl
    | none => exact ih _

theorem fault?_eq_none_iff {vars : Variables} {s : Setting} :
    s.fault? vars = none ↔ s.Parses vars := by
  rw [fault?, Parses]
  cases vars s.name with
  | none => simp
  | some raw =>
    dsimp only
    cases hread : s.read raw with
    | ok v => simp [hread]
    | error fault => simp [hread]

theorem fault?_eq_some_iff {vars : Variables} {s : Setting} {fault : Fault} :
    s.fault? vars = some fault ↔ ∃ raw, vars s.name = some raw ∧ s.read raw = .error fault := by
  rw [fault?]
  cases vars s.name with
  | none => simp
  | some raw =>
    dsimp only
    cases hread : s.read raw with
    | ok v => simp [hread]
    | error f => simp [hread]

theorem exists_of_mapError {ε ε' α : Type} {x : Except ε α} {f : ε → ε'} {fault : ε'}
    (h : x.mapError f = .error fault) : ∃ e, f e = fault := by
  cases x with
  | ok a => cases h
  | error e => exact ⟨e, Except.error.inj h⟩

theorem message_of_read {s : Setting} {raw : String} {fault : Fault}
    (h : s.read raw = .error fault) : ∃ rest, fault.message = s.name ++ ": " ++ rest := by
  cases s with
  | workerId | endpoint | nodeNames => cases h
  | slots | timeout | limits =>
    rw [read] at h
    obtain ⟨f, rfl⟩ := exists_of_mapError h
    exact ⟨f.message, rfl⟩
  | base =>
    rw [read] at h
    split at h
    · cases h
    · cases h
      refine ⟨"unknown reporter `" ++ trimText raw ++ "`", ?_⟩
      rw [← String.append_assoc, ← String.append_assoc]
      rfl

theorem findSome?_fault? (vars : Variables) :
    all.findSome? (fault? vars) = checked.findSome? (fault? vars) := by
  have hread : ∀ s : Setting, (∀ raw, ∃ v, s.read raw = .ok v) → s.fault? vars = none :=
    fun s h => fault?_eq_none_iff.2 fun raw _ => h raw
  have hworkerId := hread workerId fun raw => ⟨_, rfl⟩
  have hendpoint := hread endpoint fun raw => ⟨_, rfl⟩
  have hnodeNames := hread nodeNames fun raw => ⟨_, rfl⟩
  simp only [all, checked, List.findSome?_cons, hworkerId, hendpoint, hnodeNames]

end Setting

namespace Config

open Setting

def assembled (freshId : String) (vars : Variables) : Config where
  workerId := said vars .workerId (standard freshId).workerId
  maxConcurrentTasks := said vars .slots (standard freshId).maxConcurrentTasks
  timeoutSecs := said vars .timeout (standard freshId).timeoutSecs
  limits := said vars .limits (standard freshId).limits
  endpoint := said vars .endpoint (standard freshId).endpoint
  reporter :=
    ⟨said vars .base (standard freshId).reporter.base,
      said vars .nodeNames (standard freshId).reporter.nodeNames⟩

theorem get_assembled (freshId : String) (vars : Variables) (s : Setting) :
    s.get (assembled freshId vars) = s.said vars (s.get (standard freshId)) := by
  cases s <;> simp only [Setting.get, assembled]

theorem foldl_put (freshId : String) (vars : Variables) :
    all.foldl (fun c s => s.put c (s.said vars (s.get c))) (standard freshId) =
      assembled freshId vars := by
  simp only [all, List.foldl_cons, List.foldl_nil, put, Setting.get, assembled]

theorem ofVariables_eq (freshId : String) (vars : Variables) : ofVariables freshId vars =
    match checked.findSome? (fault? vars) with
    | some fault => .error fault
    | none => (assembled freshId vars).check := by
  have hfold : ofVariables freshId vars =
      all.foldlM (fun c s => set vars s.name s.setter c) (standard freshId) >>= check := by
    simp only [all, List.foldlM_cons, List.foldlM_nil, bind_assoc, bind_pure]
    rfl
  rw [hfold, foldlM_set, findSome?_fault?, foldl_put]
  cases checked.findSome? (fault? vars) with
  | some fault => rfl
  | none => rfl

/-- A configuration comes of the variables exactly if each that can be refused parses, and what they
say together is valid. Its parts are what the variables of these parts say, so they stay the same
under every change to others. Otherwise the first variable that does not parse is named, or what is
invalid if all do. -/
theorem ofVariables_separate (freshId : String) (vars : Variables) :
    ((∃ c, ofVariables freshId vars = .ok c) ↔
      (∀ s ∈ checked, s.Parses vars) ∧ (assembled freshId vars).validate = .ok ()) ∧
    (∀ c, ofVariables freshId vars = .ok c →
      (∀ s : Setting, s.get c = s.said vars (s.get (standard freshId))) ∧
      ∀ other d, ofVariables freshId other = .ok d →
        ∀ s : Setting, vars s.name = other s.name → s.get c = s.get d) ∧
    ∀ fault, ofVariables freshId vars = .error fault →
      (∃ (s : Setting) (raw : String), s.FailsFirst vars ∧ vars s.name = some raw ∧
        s.read raw = .error fault ∧ ∃ rest, fault.message = s.name ++ ": " ++ rest) ∨
      (∀ s ∈ checked, s.Parses vars) ∧
        ∃ invalid, (assembled freshId vars).validate = .error invalid ∧
          fault.message = invalid.message := by
  have hok : ∀ {vars c}, ofVariables freshId vars = .ok c ↔
      (∀ s ∈ checked, s.Parses vars) ∧ (assembled freshId vars).validate = .ok () ∧
        c = assembled freshId vars := by
    intro vars c
    simp only [← fault?_eq_none_iff, ← List.findSome?_eq_none_iff]
    rw [ofVariables_eq]
    cases checked.findSome? (fault? vars) with
    | some fault => simp
    | none => simp [check_eq_ok_iff]
  refine ⟨?_, fun c hc => ?_, fun fault herror => ?_⟩
  · simp only [hok, exists_and_left, exists_eq, and_true]
  · obtain ⟨-, -, rfl⟩ := hok.1 hc
    refine ⟨get_assembled freshId vars, fun other d hd s hsame => ?_⟩
    obtain ⟨-, -, rfl⟩ := hok.1 hd
    rw [get_assembled, get_assembled, said, said, hsame]
  · rw [ofVariables_eq] at herror
    cases hfind : checked.findSome? (fault? vars) with
    | some f =>
      rw [hfind] at herror
      obtain rfl := Except.error.inj herror
      obtain ⟨before, s, after, hsplit, hs, hbefore⟩ := List.findSome?_eq_some_iff.1 hfind
      obtain ⟨raw, hraw, hread⟩ := fault?_eq_some_iff.1 hs
      refine .inl ⟨s, raw, ⟨before, after, hsplit, fun t ht => ?_, fun parses => ?_⟩, hraw, hread,
        message_of_read hread⟩
      · exact fault?_eq_none_iff.1 (hbefore t ht)
      · simp [fault?_eq_none_iff.2 parses] at hs
    | none =>
      rw [hfind] at herror
      refine .inr ⟨fun s hs => fault?_eq_none_iff.1 (List.findSome?_eq_none_iff.1 hfind s hs), ?_⟩
      dsimp only at herror
      cases hvalidate : (assembled freshId vars).validate with
      | ok u =>
        rw [check_eq_ok_iff.2 ⟨hvalidate, rfl⟩] at herror
        cases herror
      | error invalid =>
        rw [check_eq_error hvalidate] at herror
        obtain rfl := Except.error.inj herror
        exact ⟨invalid, rfl, rfl⟩

end Config

end BoundedWorker
