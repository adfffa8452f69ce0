import BoundedWorker.Proofs.Ceiling
import Mathlib.Data.String.Basic

/-!
The check of a requirement. A ledger has room for a requirement if no kind that it names goes beyond
its ceiling; if some do, the shortfall is that of the first one. Kinds are in the order of their
names, which is the order of the bytes of these names.
-/

namespace BoundedWorker

def utf8 (s : String) : List UInt8 := s.toUTF8.data.toList

theorem utf8_eq (s : String) : utf8 s = s.toList.flatMap String.utf8EncodeChar := by
  have hbytes : s.toUTF8 = s.toList.utf8Encode := by
    conv_lhs => rw [← String.ofList_toList (s := s)]
    exact String.toByteArray_ofList
  rw [utf8, hbytes]
  exact List.toList_data_toByteArray

theorem ofNat_cons_lt {x y : Nat} {xs ys : List UInt8} (hx : x < 256) (hy : y < 256)
    (le : x ≤ y) (later : x = y → xs < ys) : UInt8.ofNat x :: xs < UInt8.ofNat y :: ys := by
  rcases Nat.lt_or_eq_of_le le with h | rfl
  · exact List.Lex.rel ((UInt8.ofNat_lt_iff_lt hx hy).2 h)
  · exact List.Lex.cons (later rfl)

/-- The character with the smaller code has the smaller bytes, whatever follows. -/
theorem encodeChar_lt {c d : Char} (h : c < d) (xs ys : List UInt8) :
    String.utf8EncodeChar c ++ xs < String.utf8EncodeChar d ++ ys := by
  have hlt : c.val.toNat < d.val.toNat := h
  have hc : c.val.toNat < 1114112 := by rcases c.valid with h | h <;> omega
  have hd : d.val.toNat < 1114112 := by rcases d.valid with h | h <;> omega
  simp only [String.utf8EncodeChar]
  generalize c.val.toNat = v at *
  generalize d.val.toNat = u at *
  -- one or the other has more bytes, or the first bytes that differ are as the codes are
  split_ifs <;> simp only [List.cons_append, List.nil_append] <;>
    first
    | omega
    | repeat refine ofNat_cons_lt (by omega) (by omega) (by omega) fun _ => ?_
      omega

theorem encode_lt {cs ds : List Char} (h : cs < ds) :
    cs.flatMap String.utf8EncodeChar < ds.flatMap String.utf8EncodeChar := by
  induction h with
  | @nil d ds =>
    obtain ⟨x, xs, hd⟩ := List.exists_cons_of_ne_nil (String.utf8EncodeChar_ne_nil (c := d))
    rw [List.flatMap_cons, hd]
    exact List.Lex.nil
  | cons _ ih => exact List.append_left_lt ih
  | rel hlt => exact encodeChar_lt hlt _ _

theorem utf8_lt_iff {a b : String} : utf8 a < utf8 b ↔ a < b := by
  have hmono : ∀ {a b : String}, a < b → utf8 a < utf8 b := by
    intro a b h
    rw [utf8_eq, utf8_eq]
    exact encode_lt (String.lt_iff_toList_lt.1 h)
  refine ⟨fun h => ?_, hmono⟩
  rcases lt_trichotomy a b with hab | rfl | hba
  · exact hab
  · exact absurd h (List.lt_irrefl _)
  · exact absurd h (List.lt_asymm (hmono hba))

theorem Table.find?_entries_eq_some_iff {α : Type} {t : Table α} {p : String × α → Bool}
    {name : String} {a : α} : t.entries.find? p = some (name, a) ↔
      t.get? name = some a ∧ p (name, a) = true ∧
        ∀ other b, t.get? other = some b → other < name → p (other, b) = false := by
  rw [List.find?_eq_some_iff_append]
  constructor
  · rintro ⟨found, before, after, hentries, hbefore⟩
    refine ⟨mem_entries_iff.1 (by simp [hentries]), found, fun other b hget hlt => ?_⟩
    have hmem : (other, b) ∈ before ++ (name, a) :: after := hentries ▸ mem_entries_iff.2 hget
    have hinc : NamesIncrease (before ++ (name, a) :: after) := hentries ▸ t.increasing
    rcases List.mem_append.1 hmem with hmem | hmem
    · simpa using hbefore _ hmem
    · have hafter := List.pairwise_cons.1 (List.pairwise_append.1 hinc).2.1
      rcases List.mem_cons.1 hmem with heq | hmem
      · have hname : other = name := congrArg Prod.fst heq
        exact absurd hlt (hname ▸ lt_irrefl _)
      · exact absurd hlt (lt_asymm (hafter.1 _ hmem))
  · rintro ⟨hget, found, hleast⟩
    obtain ⟨before, after, hentries⟩ := List.append_of_mem (mem_entries_iff.2 hget)
    refine ⟨found, before, after, hentries, fun e he => ?_⟩
    have hinc : NamesIncrease (before ++ (name, a) :: after) := hentries ▸ t.increasing
    have hlt := (List.pairwise_append.1 hinc).2.2 e he _ List.mem_cons_self
    have hmem : e ∈ t.entries := hentries ▸ List.mem_append_left _ he
    simp [hleast e.1 e.2 (mem_entries_iff.1 hmem) hlt]

def Meter.ceiling (m : Meter) (limits : Profile) (kind : String) : Nat :=
  ((limits.get? kind).map m.units).getD unitsMax

theorem Meter.ceiling_le (m : Meter) (limits : Profile) (kind : String) :
    m.ceiling limits kind ≤ unitsMax := by
  rw [ceiling]
  cases limits.get? kind with
  | none => exact Nat.le_refl _
  | some amount => exact m.units_le amount

/-- The shortfall of the first kind that a requirement names and that goes beyond its ceiling. -/
structure Shortfall.IsFirst (s : Shortfall) (meter : Meter) (required : Profile)
    (load ceiling : String → Nat) : Prop where
  requested : required.get? s.kind = some s.requested
  within : load s.kind ≤ ceiling s.kind
  beyond : ceiling s.kind - load s.kind < meter.units s.requested
  available : s.available = meter.amount (ceiling s.kind - load s.kind)
  least : ∀ kind amount, required.get? kind = some amount → utf8 kind < utf8 s.kind →
    load kind + meter.units amount ≤ ceiling kind

namespace Ledger

theorem fits_iff_le (l : Ledger) {kind : String} (le : l.ceiling kind ≤ unitsMax)
    (amount : Float) : l.fits kind amount = true ↔
      l.committed kind + l.meter.units amount ≤ l.ceiling kind := by
  rw [fits_iff]
  exact ⟨And.right, fun h => ⟨h.trans le, h⟩⟩

theorem check_eq_error_iff (l : Ledger) (required : Profile) (s : Shortfall) :
    l.check required = .error s ↔
      required.entries.find? (fun e => !l.fits e.1 e.2) = some (s.kind, s.requested) ∧
        s.available = l.meter.amount (l.ceiling s.kind - l.committed s.kind) := by
  rw [check]
  cases required.entries.find? fun e => !l.fits e.1 e.2 with
  | none => simp
  | some e =>
    obtain ⟨kind, amount⟩ := e
    obtain ⟨kind', requested, available⟩ := s
    simp only [Except.error.injEq, shortfall, Shortfall.mk.injEq, Option.some.injEq, Prod.mk.injEq]
    constructor
    · rintro ⟨rfl, rfl, rfl⟩
      exact ⟨⟨rfl, rfl⟩, rfl⟩
    · rintro ⟨⟨rfl, rfl⟩, rfl⟩
      exact ⟨rfl, rfl, rfl⟩

theorem check_eq_error_iff_isFirst (l : Ledger) (le : ∀ kind, l.ceiling kind ≤ unitsMax)
    (bounded : l.Bounded) (required : Profile) (s : Shortfall) :
    l.check required = .error s ↔ s.IsFirst l.meter required l.committed l.ceiling := by
  have hfits : ∀ kind amount, (!l.fits kind amount) = false ↔
      l.committed kind + l.meter.units amount ≤ l.ceiling kind := by
    intro kind amount
    rw [Bool.not_eq_false', l.fits_iff_le (le kind)]
  rw [check_eq_error_iff, Table.find?_entries_eq_some_iff]
  constructor
  · rintro ⟨⟨requested, unfit, least⟩, available⟩
    have hbeyond : ¬ l.committed s.kind + l.meter.units s.requested ≤ l.ceiling s.kind :=
      fun h => by simp [(hfits _ _).2 h] at unfit
    have hwithin := bounded s.kind
    refine ⟨requested, hwithin, by omega, available, fun kind amount hget hlt => ?_⟩
    exact (hfits kind amount).1 (least kind amount hget (utf8_lt_iff.1 hlt))
  · intro first
    have hbeyond := first.beyond
    have hwithin := first.within
    refine ⟨⟨first.requested, ?_, fun kind amount hget hlt => ?_⟩, first.available⟩
    · rw [← Bool.not_eq_false, hfits]
      dsimp only
      omega
    · exact (hfits kind amount).2 (first.least kind amount hget (utf8_lt_iff.2 hlt))

/-- Whatever has happened to a ledger, there is room for a requirement exactly if no kind that it
names goes beyond its ceiling, the units being added without bound; if there is none, the check
answers with the shortfall of the first kind for which this fails. -/
theorem run_check (meter : Meter) (limits : Profile) (ops : List Op) (required : Profile) :
    (((new meter limits).run ops).check required = .ok () ↔
      ∀ kind amount, required.get? kind = some amount →
        ((new meter limits).run ops).committed kind + meter.units amount ≤
          meter.ceiling limits kind) ∧
    ∀ s, ((new meter limits).run ops).check required = .error s ↔
      s.IsFirst meter required ((new meter limits).run ops).committed (meter.ceiling limits) := by
  have hmeter : ((new meter limits).run ops).meter = meter := run_meter _ ops
  have hceiling : ((new meter limits).run ops).ceiling = meter.ceiling limits := by
    funext kind
    rw [ceiling_congr (run_limits _ ops), ceiling_new, Meter.ceiling]
  have hbounded := run_bounded (new_bounded meter limits) ops
  generalize (new meter limits).run ops = l at *
  have hle : ∀ kind, l.ceiling kind ≤ unitsMax := fun kind =>
    hceiling ▸ meter.ceiling_le limits kind
  subst hmeter
  rw [← hceiling]
  refine ⟨?_, l.check_eq_error_iff_isFirst hle hbounded required⟩
  rw [check_eq_ok_iff]
  exact forall₂_congr fun kind amount => imp_congr_right fun _ => l.fits_iff_le (hle kind) amount

theorem run_check_half : ∃ l, l = (new .millionths (Table.ofList [(Profile.cpu, 2)])).run
      [.commit (Table.ofList [(Profile.cpu, 1.5), ("gpu", 1e18)])] ∧
    l.check (Table.ofList [("a", 1), (Profile.cpu, 0.5), ("gpu", 0)]) = .ok () ∧
    l.committed Profile.cpu + 500000 ≤ 2000000 ∧
    ∃ s : Shortfall, l.check (Table.ofList [("a", 1), (Profile.cpu, 0.75), ("gpu", 1)]) = .error s ∧
      s.kind = Profile.cpu ∧ s.available = Meter.millionths.amount 500000 := by
  have hcheck := run_check .millionths (Table.ofList [(Profile.cpu, 2)])
    [.commit (Table.ofList [(Profile.cpu, 1.5), ("gpu", 1e18)])]
  obtain ⟨hhalf, -⟩ := hcheck (Table.ofList [("a", 1), (Profile.cpu, 0.5), ("gpu", 0)])
  obtain ⟨-, hmore⟩ := hcheck (Table.ofList [("a", 1), (Profile.cpu, 0.75), ("gpu", 1)])
  refine ⟨_, rfl, rfl, hhalf.1 rfl Profile.cpu 0.5 rfl, _, rfl, rfl, ?_⟩
  exact ((hmore _).1 rfl).available

end Ledger

end BoundedWorker
