import BoundedWorker.Worker.State
import BoundedWorker.Proofs.Requests

/-!
Configurations as JSON. The text of a configuration is read as this configuration, and then checked
as any other is. A worker checks once more, in the same way.
-/

namespace BoundedWorker

open Record (readMembers_field readMembers_done)

namespace Node

variable {α : Type} {numeral : Number → Numeral}

theorem readUInt64_tree {expected : String} {n : UInt64}
    (h : (numeral (.natural n.toNat)).number? = some (.natural n.toNat)) :
    ((Json.ofNat n.toNat).tree numeral).readUInt64 expected = .ok n := by
  rw [readUInt64, readNatural_tree n.toNat_lt h]
  exact congrArg Except.ok (UInt64.ofNat_toNat)

theorem readOption_tree {read : Node → ReadResult α} {f : α → Json}
    (present : ∀ a, (f a).tree numeral ≠ .null)
    (h : ∀ a, read ((f a).tree numeral) = .ok a) (o : Option α) :
    readOption read ((jsonOfOption f o).tree numeral) = .ok o := by
  cases o with
  | none => rfl
  | some a => exact readOption_some (present a) (h a)

end Node

section Tree

variable {numeral : Number → Numeral}

theorem BaseReporter.readName_tree (b : BaseReporter) :
    ((Json.string b.name).tree numeral).readName names = .ok b := by
  cases b <;> rfl

theorem NodeNames.read_tree (c : NodeNames) :
    record.read .text none (c.toJson.tree numeral) = .ok c := by
  have hread (o : Option String) :
      Node.readOption Node.readString ((jsonOfOption .string o).tree numeral) = .ok o :=
    Node.readOption_tree (fun _ => Node.noConfusion) (fun _ => rfl) o
  change record.readMembers true [] _ (Json.memberTrees numeral _) = _
  simp only [Json.memberTrees]
  rw [readMembers_field rfl rfl (bind_ok (hread c.node) _),
    readMembers_field rfl rfl (bind_ok (hread c.pod) _)]
  exact readMembers_done rfl

theorem ReporterConfig.read_tree (c : ReporterConfig) :
    ReporterConfig.read (c.toJson.tree numeral) = .ok c := by
  have hnames : Node.readOption (NodeNames.record.read .text .none)
      ((jsonOfOption NodeNames.toJson c.nodeNames).tree numeral) = .ok c.nodeNames :=
    Node.readOption_tree (fun _ => Node.noConfusion) NodeNames.read_tree c.nodeNames
  change record.readMembers true [] _ (Json.memberTrees numeral _) = _
  simp only [Json.memberTrees]
  rw [readMembers_field rfl rfl (bind_ok c.base.readName_tree _),
    readMembers_field rfl rfl (bind_ok hnames _)]
  exact readMembers_done rfl

end Tree

namespace Config

def floats (c : Config) : List Float := c.timeoutSecs :: c.limits.floats

structure Finite (c : Config) : Prop where
  timeout : c.timeoutSecs.isFinite = true
  limits : c.limits.Finite

theorem readText_toJson {c : Config} (finite : c.Finite) (back : ∀ x ∈ c.floats, ReadsBack x)
    (freshId : String) : readText (Config.read freshId) c.toJson.text = .ok c := by
  obtain ⟨htimeout, hlimits⟩ := List.forall_mem_cons.1 back
  have hslots : ((Json.ofNat c.maxConcurrentTasks.toNat).tree Number.written).readUInt64 "usize" =
      .ok c.maxConcurrentTasks :=
    Node.readUInt64_tree (Number.number?_natural c.maxConcurrentTasks.toNat_lt)
  have hsecs : ((Json.ofFloat c.timeoutSecs).tree Number.written).readFloat = .ok c.timeoutSecs :=
    Node.readFloat_tree finite.timeout (Number.number?_of_readsBack finite.timeout htimeout)
  have hprofile : Profile.read (c.limits.toJson.tree Number.written) = .ok c.limits :=
    Profile.read_tree finite.limits (Profile.number?_written finite.limits hlimits)
  rw [readText_text]
  change record.readMembers true [] _ (Json.memberTrees Number.written _) = _
  simp only [Json.memberTrees]
  rw [readMembers_field rfl rfl rfl, readMembers_field rfl rfl (bind_ok hslots _),
    readMembers_field rfl rfl (bind_ok hsecs _), readMembers_field rfl rfl (bind_ok hprofile _),
    readMembers_field rfl rfl rfl, readMembers_field rfl rfl (bind_ok c.reporter.read_tree _)]
  exact readMembers_done rfl

theorem check_eq_ok_iff {c c' : Config} : c.check = .ok c' ↔ c.validate = .ok () ∧ c' = c := by
  rw [check]
  cases c.validate with
  | error fault => simp
  | ok u => simp [eq_comm]

theorem check_eq_error {c : Config} {fault : Invalid} (h : c.validate = .error fault) :
    c.check = .error (.invalid fault) := by
  rw [check, h]

theorem ofText_toJson {c : Config} (finite : c.Finite) (back : ∀ x ∈ c.floats, ReadsBack x)
    (freshId : String) : ofText freshId c.toJson.text = c.check := by
  rw [ofText, readText_toJson finite back]

theorem validate_of_ofText {freshId text : String} {c : Config}
    (h : ofText freshId text = .ok c) : c.validate = .ok () := by
  rw [ofText] at h
  split at h
  · cases h
  · obtain ⟨valid, rfl⟩ := check_eq_ok_iff.1 h
    exact valid

end Config

namespace Worker

open Config (ofText)

theorem exists_start (meter : Meter) {config : Config} (valid : config.validate = .ok ()) :
    ∃ w, start meter config = .ok w ∧ w.config = config := by
  rw [start, valid]
  exact ⟨_, rfl, rfl⟩

theorem start_eq_error_iff (meter : Meter) (config : Config) (refusal : Refusal) :
    start meter config = .error refusal ↔
      ∃ fault, config.validate = .error fault ∧ refusal = .invalidConfig fault.message := by
  rw [start]
  cases config.validate with
  | error fault => simp [eq_comm]
  | ok u => simp

theorem build_eq_ok_iff (meter : Meter) (vars : Variables) (config : Config)
    (built : Worker × Reporter (List LogRecord)) : build meter vars config = .ok built ↔
      start meter config = .ok built.1 ∧ built.2 = config.reporter.reporter vars := by
  obtain ⟨w, reporter⟩ := built
  rw [build]
  cases start meter config with
  | error refusal => simp [Except.map]
  | ok w' => simp [Except.map, eq_comm]

theorem build_eq_error_iff (meter : Meter) (vars : Variables) (config : Config)
    (refusal : Refusal) : build meter vars config = .error refusal ↔
      start meter config = .error refusal := by
  rw [build]
  cases start meter config with
  | error other => simp [Except.map]
  | ok w => simp [Except.map]

/-- The text of a configuration is read as this very configuration if it is valid, and is refused
with the message of its check if not. What is read from a text, whatever the text, is valid, and a
worker starts from it. A worker is refused exactly to a configuration that is not valid, and with
the same message. -/
theorem build_ofText (meter : Meter) (vars : Variables) (freshId : String) :
    (∀ config : Config, config.Finite → (∀ x ∈ config.floats, ReadsBack x) →
      (config.validate = .ok () → ofText freshId config.toJson.text = .ok config) ∧
      ∀ fault, config.validate = .error fault →
        ∃ refused, ofText freshId config.toJson.text = .error refused ∧
          refused.message = fault.message) ∧
    (∀ text config, ofText freshId text = .ok config → config.validate = .ok () ∧
      ∃ w, start meter config = .ok w ∧ w.config = config ∧
        build meter vars config = .ok (w, config.reporter.reporter vars)) ∧
    ∀ config refusal,
      (start meter config = .error refusal ↔
        ∃ fault, config.validate = .error fault ∧ refusal = .invalidConfig fault.message) ∧
      (build meter vars config = .error refusal ↔ start meter config = .error refusal) := by
  refine ⟨fun config finite back => ?_, fun text config h => ?_, fun config refusal => ?_⟩
  · rw [Config.ofText_toJson finite back]
    refine ⟨fun valid => Config.check_eq_ok_iff.2 ⟨valid, rfl⟩, fun fault invalid => ?_⟩
    exact ⟨.invalid fault, Config.check_eq_error invalid, rfl⟩
  · have valid := Config.validate_of_ofText h
    obtain ⟨w, hstart, hconfig⟩ := exists_start meter valid
    exact ⟨valid, w, hstart, hconfig, (build_eq_ok_iff _ _ _ _).2 ⟨hstart, rfl⟩⟩
  · exact ⟨start_eq_error_iff meter config refusal, build_eq_error_iff meter vars config refusal⟩

theorem build_ofText_threeHalves : ∃ config : Config, config =
      ⟨"w", 2, 1.5, Table.ofList [(Profile.cpu, 1.5)], "e", ⟨.discard, some ⟨some "n", none⟩⟩⟩ ∧
    ofText "fresh" config.toJson.text = .ok config ∧
    (∃ w, build .millionths (fun _ => none) config =
      .ok (w, config.reporter.reporter fun _ => none)) ∧
    ∃ refused, ofText "fresh" ({ config with maxConcurrentTasks := 0 } : Config).toJson.text =
        .error refused ∧ refused.message = Config.Invalid.noSlots.message := by
  obtain ⟨hwritten, hread, -⟩ := build_ofText .millionths (fun _ => none) "fresh"
  have hlimits : (Table.ofList [(Profile.cpu, (1.5 : Float))]).entries = [(Profile.cpu, 1.5)] := rfl
  have hfinite (slots : UInt64) : Config.Finite ⟨"w", slots, 1.5,
      Table.ofList [(Profile.cpu, 1.5)], "e", ⟨.discard, some ⟨some "n", none⟩⟩⟩ := by
    refine ⟨isFinite_threeHalves, fun e he => ?_⟩
    obtain rfl := List.mem_singleton.1 (hlimits ▸ he)
    exact isFinite_threeHalves
  have hback (slots : UInt64) : ∀ x ∈ Config.floats ⟨"w", slots, 1.5,
      Table.ofList [(Profile.cpu, 1.5)], "e", ⟨.discard, some ⟨some "n", none⟩⟩⟩,
      ReadsBack x := by
    intro x hx
    have hthree : x ∈ [(1.5 : Float), 1.5] := hx
    obtain rfl : x = 1.5 := by simpa using hthree
    exact readsBack_threeHalves
  have hok := (hwritten _ (hfinite 2) (hback 2)).1 rfl
  obtain ⟨-, w, -, -, hbuild⟩ := hread _ _ hok
  exact ⟨_, rfl, hok, ⟨w, hbuild⟩, (hwritten _ (hfinite 0) (hback 0)).2 _ rfl⟩

end Worker

end BoundedWorker
