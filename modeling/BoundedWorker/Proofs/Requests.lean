import BoundedWorker.Proofs.JsonReading

/-!
Requests as JSON. The text of a request whose amounts are finite is read as the same request, and so
is every part of it on its own.
-/

namespace BoundedWorker

namespace Json

variable {numeral : Number → Numeral}

theorem numbers_ofFloat {x : Float} (finite : x.isFinite = true) :
    (ofFloat x).numbers = [.binary x finite] := by
  rw [ofFloat, dif_pos finite, numbers]

theorem memberNumbers_map {α : Type} (f : α → Json) (entries : List (String × α)) :
    memberNumbers (entries.map fun e => (e.1, f e.2)) =
      entries.flatMap fun e => (f e.2).numbers := by
  induction entries with
  | nil => rfl
  | cons e rest ih => rw [List.map_cons, memberNumbers, ih, List.flatMap_cons]

theorem memberDepth_map {α : Type} {f : α → Json} {d : Nat} (hf : ∀ a, (f a).depth ≤ d)
    (entries : List (String × α)) : memberDepth (entries.map fun e => (e.1, f e.2)) ≤ d := by
  induction entries with
  | nil => exact Nat.zero_le d
  | cons e rest ih =>
    rw [List.map_cons, memberDepth]
    exact max_le (hf e.2) ih

theorem depth_ofFloat (x : Float) : (ofFloat x).depth = 0 := by
  rw [ofFloat]
  split <;> rfl

theorem arranged_ofFloat (x : Float) : (ofFloat x).Arranged := by
  rw [ofFloat]
  split
  · rw [Arranged]
    trivial
  · trivial

theorem exists_ofInt32 (i : Int32) : ∃ n, ofInt i.toInt = .number n ∧ n.Fits ∧ n.floats = [] := by
  have hlt := i.toInt_lt
  have hge := i.le_toInt
  cases hi : i.toInt with
  | ofNat k =>
    rw [hi] at hlt
    exact ⟨.natural k, rfl, (Int.ofNat_lt.1 hlt).trans (by decide), rfl⟩
  | negSucc k =>
    rw [hi] at hge
    have hk : k < 2 ^ 31 := by omega
    exact ⟨.negative k, rfl, hk.trans (by decide), rfl⟩

theorem readTree_ofInt32 (i : Int32) (d : Nat) :
    ((ofInt i.toInt).tree Number.written).readTree .text d = .ok (ofInt i.toInt) := by
  obtain ⟨n, hn, fits, hfloats⟩ := exists_ofInt32 i
  rw [hn]
  refine readTree_tree _ (fun _ => Nat.zero_le _) fun m hm => ?_
  rw [numbers, List.mem_singleton] at hm
  subst hm
  exact Number.number?_written fits (by simp [hfloats])

end Json

namespace Profile

def Finite (p : Profile) : Prop := ∀ e ∈ p.entries, e.2.isFinite = true

def floats (p : Profile) : List Float := p.entries.map (·.2)

theorem depth_toJson (p : Profile) : p.toJson.depth ≤ 1 :=
  Nat.succ_le_succ (Json.memberDepth_map (fun x => (Json.depth_ofFloat x).le) p.entries)

theorem arranged_toJson (p : Profile) : p.toJson.Arranged := by
  refine ⟨List.pairwise_map.2 p.increasing, Json.membersArranged_iff.2 ?_⟩
  intro m hm
  obtain ⟨e, -, rfl⟩ := List.mem_map.1 hm
  exact Json.arranged_ofFloat e.2

theorem mem_numbers_toJson {p : Profile} (finite : p.Finite) {n : Number} :
    n ∈ p.toJson.numbers ↔ ∃ e, ∃ he : e ∈ p.entries, n = .binary e.2 (finite e he) := by
  have hnumbers : p.toJson.numbers = p.entries.flatMap fun e => (Json.ofFloat e.2).numbers :=
    Json.memberNumbers_map Json.ofFloat p.entries
  rw [hnumbers, List.mem_flatMap]
  constructor
  · rintro ⟨e, he, hn⟩
    rw [Json.numbers_ofFloat (finite e he), List.mem_singleton] at hn
    exact ⟨e, he, hn⟩
  · rintro ⟨e, he, rfl⟩
    exact ⟨e, he, by rw [Json.numbers_ofFloat (finite e he), List.mem_singleton]⟩

theorem number?_written {p : Profile} (finite : p.Finite) (back : ∀ x ∈ p.floats, ReadsBack x) :
    ∀ n ∈ p.toJson.numbers, n.written.number? = some n := by
  intro n hn
  obtain ⟨e, he, rfl⟩ := (mem_numbers_toJson finite).1 hn
  exact Number.number?_of_readsBack (finite e he) (back e.2 (List.mem_map_of_mem he))

theorem read_tree {numeral : Number → Numeral} {p : Profile} (finite : p.Finite)
    (h : ∀ n ∈ p.toJson.numbers, (numeral n).number? = some n) :
    Profile.read (p.toJson.tree numeral) = .ok p := by
  refine Node.readTable_tree fun e he => ?_
  exact Node.readFloat_tree (finite e he) (h _ ((mem_numbers_toJson finite).2 ⟨e, he, rfl⟩))

end Profile

namespace TaskRequest

def floats (r : TaskRequest) : List Float := r.payload.json.floats ++ r.required.floats

/-- A text can carry the request, inside of `outer` containers. -/
structure Writable (r : TaskRequest) (outer : Nat) : Prop where
  finite : r.required.Finite
  depth : outer + 1 + r.payload.json.depth ≤ nestingLimit
  back : ∀ x ∈ r.floats, ReadsBack x

theorem Writable.mono {r : TaskRequest} {outer : Nat} (h : r.Writable outer) {inner : Nat}
    (le : inner ≤ outer) : r.Writable inner :=
  ⟨h.finite, by have := h.depth; omega, h.back⟩

def deadlineJson (r : TaskRequest) : Json := (r.deadline.map fun d => Json.ofNat d.val).getD .null

theorem deadline_written (r : TaskRequest) :
    Node.readOption (Node.readUInt128 .text) (r.deadlineJson.tree Number.written) =
      .ok r.deadline := by
  rw [deadlineJson]
  cases r.deadline with
  | none => rfl
  | some d => exact Node.readOption_some Node.noConfusion (Node.readUInt128_written d)

theorem number?_payload {r : TaskRequest} (back : ∀ x ∈ r.floats, ReadsBack x) :
    ∀ n ∈ r.payload.json.numbers, n.written.number? = some n := by
  intro n hn
  refine Number.number?_written (Json.fits_of_arranged _ r.payload.arranged n hn) fun x hx => ?_
  exact back x (List.mem_append_left _ (List.mem_flatMap.2 ⟨n, hn, hx⟩))

theorem number?_required {r : TaskRequest} (finite : r.required.Finite)
    (back : ∀ x ∈ r.floats, ReadsBack x) :
    ∀ n ∈ r.required.toJson.numbers, n.written.number? = some n :=
  Profile.number?_written finite fun x hx => back x (List.mem_append_right _ hx)

theorem readText_toJson {r : TaskRequest} (h : r.Writable 0) (freshId : String) :
    readText (TaskRequest.read .text freshId) r.toJson.text = .ok r := by
  have hdepth : r.payload.json.depth ≤ nestingLimit - 1 := by have := h.depth; omega
  have hpayload := readValue_tree r.payload (o := .text) (fun _ => hdepth) (number?_payload h.back)
  have hpriority : ((Json.ofInt r.priority.toInt).tree Number.written).readInt32 = .ok r.priority :=
    Node.readInt32_tree r.priority fun n hn hx => Number.number?_written hn (by simp [hx])
  have hrequired := Profile.read_tree h.finite (number?_required h.finite h.back)
  rw [readText_text]
  change (record .text).readMembers true [] _ (Json.memberTrees Number.written _) = _
  simp only [Json.memberTrees]
  rw [Record.readMembers_field rfl rfl rfl, Record.readMembers_field rfl rfl (bind_ok hpayload _),
    Record.readMembers_field rfl rfl (bind_ok hpriority _),
    Record.readMembers_field rfl rfl (bind_ok r.deadline_written _),
    Record.readMembers_field rfl rfl (bind_ok hrequired _)]
  exact Record.readMembers_done rfl

end TaskRequest

end BoundedWorker
