import Mathlib.Data.List.Nodup
import StyleCheck.Proofs.Traversal
import StyleCheck.Settings

namespace StyleCheck.Settings

namespace Setting

theorem mem_all (x : Setting) : x ∈ all := by
  cases x <;> decide

theorem name_injective {x y : Setting} (h : x.name = y.name) : x = y := by
  have hsame : ofName? x.name = ofName? y.name := by rw [h]
  rw [ofName?_name, ofName?_name] at hsame
  exact Option.some.inj hsame

theorem ofName?_eq_some_iff {name : String} {x : Setting} :
    ofName? name = some x ↔ x.name = name := by
  constructor
  · intro h
    simpa using List.find?_some h
  · rintro rfl
    exact ofName?_name x

end Setting

inductive Datum
  | length (n : Nat)
  | names (names : List String)

def datum (s : Settings) : Setting → Datum
  | .forbiddenModuleNames => .names s.forbiddenModuleNames
  | .maxNameLength => .length s.maxNameLength
  | .maxTupleUnpackLength => .length s.maxTupleUnpackLength
  | .minNameLength => .length s.minNameLength

def readDatum : Setting → Toml.Value → Except Mismatch Datum
  | .forbiddenModuleNames, value => do .ok (.names (← toNames value))
  | .maxNameLength, value => do .ok (.length (← toLength value))
  | .maxTupleUnpackLength, value => do .ok (.length (← toLength value))
  | .minNameLength, value => do .ok (.length (← toLength value))

def copy (t : Settings) (x : Setting) (s : Settings) : Settings :=
  match x with
  | .forbiddenModuleNames => { t with forbiddenModuleNames := s.forbiddenModuleNames }
  | .maxNameLength => { t with maxNameLength := s.maxNameLength }
  | .maxTupleUnpackLength => { t with maxTupleUnpackLength := s.maxTupleUnpackLength }
  | .minNameLength => { t with minNameLength := s.minNameLength }

variable {s t u : Settings} {x y : Setting} {value : Toml.Value} {table : Toml.Table}

theorem eq_of_datum (h : ∀ x, s.datum x = t.datum x) : s = t := by
  have hmin := h .minNameLength
  have hmax := h .maxNameLength
  have htuple := h .maxTupleUnpackLength
  have hnames := h .forbiddenModuleNames
  cases s
  cases t
  simp_all [datum]

@[simp] theorem datum_copy_self : (t.copy x s).datum x = s.datum x := by
  cases x <;> rfl

theorem datum_copy_of_ne (h : y ≠ x) : (t.copy x s).datum y = t.datum y := by
  cases x <;> cases y <;> first | rfl | exact absurd rfl h

theorem eq_copy_iff : u = t.copy x s ↔
    u.datum x = s.datum x ∧ ∀ y, y ≠ x → u.datum y = t.datum y := by
  constructor
  · rintro rfl
    exact ⟨datum_copy_self, fun y => datum_copy_of_ne⟩
  · rintro ⟨hx, hother⟩
    refine eq_of_datum fun y => ?_
    by_cases h : y = x
    · rw [h, hx, datum_copy_self]
    · rw [hother y h, datum_copy_of_ne h]

theorem put_eq_ok_iff : t.put x value = .ok u ↔
    readDatum x value = .ok (u.datum x) ∧ u = t.copy x u := by
  cases x <;>
    simp only [put, readDatum, datum, copy, Except.bind_eq_ok_iff, Except.ok.injEq,
      Datum.length.injEq, Datum.names.injEq]
  all_goals
    constructor
    · rintro ⟨read, hread, rfl⟩
      exact ⟨⟨read, hread, rfl⟩, rfl⟩
    · rintro ⟨⟨read, hread, rfl⟩, hu⟩
      exact ⟨_, hread, hu.symm⟩

def OverridesAt (table : Toml.Table) (t s : Settings) (x : Setting) : Prop :=
  match table.get? x.name with
  | none => s.datum x = t.datum x
  | some value => readDatum x value = .ok (s.datum x)

def Overrides (table : Toml.Table) (t s : Settings) : Prop :=
  ∀ x, OverridesAt table t s x

theorem overridesAt_of_none (h : table.get? x.name = none) :
    OverridesAt table t s x ↔ s.datum x = t.datum x := by
  simp only [OverridesAt, h]

theorem overridesAt_of_some (h : table.get? x.name = some value) :
    OverridesAt table t s x ↔ readDatum x value = .ok (s.datum x) := by
  simp only [OverridesAt, h]

theorem overridesAt_congr {t' s' : Settings} (ht : t'.datum x = t.datum x)
    (hs : s'.datum x = s.datum x) : OverridesAt table t' s' x ↔ OverridesAt table t s x := by
  simp only [OverridesAt, ht, hs]

theorem overrides_congr {order : Toml.Table} (h : ∀ name, order.get? name = table.get? name) :
    Overrides order t s ↔ Overrides table t s := by
  simp only [Overrides, OverridesAt, h]

theorem putFrom_eq_ok_iff : putFrom table t x = .ok u ↔
    OverridesAt table t u x ∧ u = t.copy x u := by
  unfold putFrom
  cases h : table.get? x.name with
  | none =>
    rw [overridesAt_of_none h, eq_copy_iff]
    constructor
    · intro h
      cases h
      exact ⟨rfl, rfl, fun _ _ => rfl⟩
    · rintro ⟨hx, -, hother⟩
      have hsame : t = u := by
        refine eq_of_datum fun y => ?_
        by_cases h : y = x
        · rw [h, hx]
        · rw [hother y h]
      rw [hsame]
  | some value => rw [overridesAt_of_some h, Except.mapError_eq_ok_iff, put_eq_ok_iff]

theorem foldlM_putFrom_eq_ok_iff {settings : List Setting} (hnodup : settings.Nodup) :
    settings.foldlM (putFrom table) t = .ok s ↔
      (∀ x ∈ settings, OverridesAt table t s x) ∧
        ∀ x, x ∉ settings → s.datum x = t.datum x := by
  induction settings generalizing t with
  | nil =>
    rw [List.foldlM_nil]
    constructor
    · intro h
      cases h
      simp
    · rintro ⟨-, h⟩
      rw [eq_of_datum fun x => h x (by simp)]
      rfl
  | cons a rest ih =>
    obtain ⟨ha, hrest⟩ := List.nodup_cons.mp hnodup
    simp only [List.foldlM_cons, Except.bind_eq_ok_iff, putFrom_eq_ok_iff, ih hrest]
    constructor
    · rintro ⟨u, ⟨hu, hcopy⟩, hin, hout⟩
      obtain ⟨-, hother⟩ := eq_copy_iff.mp hcopy
      constructor
      · intro x hx
        by_cases hxa : x = a
        · subst hxa
          exact (overridesAt_congr rfl (hout x ha)).mpr hu
        · have hxrest : x ∈ rest := (List.mem_cons.mp hx).resolve_left hxa
          exact (overridesAt_congr (hother x hxa) rfl).mp (hin x hxrest)
      · intro x hx
        rw [List.mem_cons, not_or] at hx
        rw [hout x hx.2, hother x hx.1]
    · rintro ⟨hin, hout⟩
      refine ⟨t.copy a s, ⟨?_, ?_⟩, ?_, ?_⟩
      · exact (overridesAt_congr rfl datum_copy_self).mpr (hin a (by simp))
      · exact eq_copy_iff.mpr ⟨rfl, fun y => datum_copy_of_ne⟩
      · intro x hx
        have hxa : x ≠ a := fun h => ha (h ▸ hx)
        exact (overridesAt_congr (datum_copy_of_ne hxa) rfl).mpr (hin x (by simp [hx]))
      · intro x hx
        by_cases hxa : x = a
        · rw [hxa, datum_copy_self]
        · rw [datum_copy_of_ne hxa]
          exact hout x (by simp [hxa, hx])

theorem least?_eq_none_iff {names : List String} : least? names = none ↔ names = [] := by
  cases names <;> simp [least?]

theorem validate_eq_ok_iff : t.validate = .ok s ↔ t = s ∧ s.conflict? = none := by
  unfold validate
  split
  case h_1 conflict h =>
    constructor
    · intro h
      cases h
    · rintro ⟨rfl, hnone⟩
      rw [h] at hnone
      cases hnone
  case h_2 h =>
    constructor
    · intro hok
      cases hok
      exact ⟨rfl, h⟩
    · rintro ⟨rfl, -⟩
      rfl

def NamesSettings (table : Toml.Table) : Prop :=
  ∀ name ∈ table.keys, ∃ x : Setting, x.name = name

theorem namesSettings_iff : NamesSettings table ↔
    least? (table.keys.filter fun name => (Setting.ofName? name).isNone) = none := by
  rw [least?_eq_none_iff, List.filter_eq_nil_iff]
  simp only [NamesSettings, Option.isNone_iff_eq_none, ← ne_eq, Option.ne_none_iff_exists',
    Setting.ofName?_eq_some_iff]

theorem ofTable_eq_ok_iff : ofTable table = .ok s ↔
    NamesSettings table ∧ Overrides table {} s ∧ s.conflict? = none := by
  rw [namesSettings_iff]
  unfold ofTable
  split
  case h_1 name h => simp [h]
  case h_2 h =>
    have hall : Setting.all.Nodup := by decide
    simp only [Except.bind_eq_ok_iff, validate_eq_ok_iff, foldlM_putFrom_eq_ok_iff hall, h,
      true_and, Setting.mem_all, not_true_eq_false, false_imp_iff, forall_const, implies_true,
      and_true]
    constructor
    · rintro ⟨u, hu, rfl, hconflict⟩
      exact ⟨hu, hconflict⟩
    · rintro ⟨hs, hconflict⟩
      exact ⟨s, hs, rfl, hconflict⟩

end StyleCheck.Settings
