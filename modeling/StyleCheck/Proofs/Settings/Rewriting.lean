import StyleCheck.Proofs.Settings.Overrides
import StyleCheck.Proofs.Traversal

namespace StyleCheck.Settings

variable {s t u : Settings} {x y : Setting} {name : String} {value : Toml.Value}
  {table : Toml.Table} {m : Mismatch}

theorem isWritable_iff : s.isWritable ↔ s.minNameLength ≤ greatestWritten ∧
    s.maxNameLength ≤ greatestWritten ∧ s.maxTupleUnpackLength ≤ greatestWritten := by
  simp [isWritable, and_assoc]

theorem toLength_ofNat {n : Nat} (h : n ≤ greatestWritten) :
    toLength (.integer (.ofNat n)) = .ok n := by
  have hgreatest : greatestWritten = 2 ^ 63 - 1 := by decide
  have hvalue : (Int64.ofNat n).toInt = n := Int64.toInt_ofNat_of_lt (by omega)
  rw [toLength, hvalue, if_neg (by omega), Int.toNat_natCast]

theorem toNames_strings (names : List String) :
    toNames (.array (names.map .string)) = .ok names := by
  rw [toNames, Except.mapM_eq_ok_iff, List.map_map]
  rfl

theorem readDatum_written (hs : s.isWritable) (x : Setting) :
    readDatum x (s.written x) = .ok (s.datum x) := by
  obtain ⟨hmin, hmax, htuple⟩ := isWritable_iff.mp hs
  cases x with
  | forbiddenModuleNames =>
    rw [written, readDatum, toNames_strings]
    rfl
  | maxNameLength =>
    rw [written, readDatum, toLength_ofNat hmax]
    rfl
  | maxTupleUnpackLength =>
    rw [written, readDatum, toLength_ofNat htuple]
    rfl
  | minNameLength =>
    rw [written, readDatum, toLength_ofNat hmin]
    rfl

theorem get?_written (s : Settings) (x : Setting) :
    Toml.Table.get? (Setting.all.map fun setting => (setting.name, s.written setting)) x.name =
      some (s.written x) := by
  cases x <;> rfl

theorem put_eq_error_iff : t.put x value = .error m ↔ readDatum x value = .error m := by
  cases x <;>
    simp only [put, readDatum, Except.bind_eq_error_iff, reduceCtorEq, and_false, exists_false,
      or_false]

theorem putFrom_of_some (h : table.get? x.name = some value) :
    putFrom table t x = (t.put x value).mapError (.mistyped x) := by
  rw [putFrom, h]

theorem foldlM_putFrom_eq_error {settings : List Setting} (hx : x ∈ settings)
    (hget : table.get? x.name = some value) (hread : readDatum x value = .error m)
    (hother : ∀ y, y ≠ x → ∃ other d, table.get? y.name = some other ∧ readDatum y other = .ok d) :
    settings.foldlM (putFrom table) t = .error (.mistyped x m) := by
  induction settings generalizing t with
  | nil => cases hx
  | cons y rest ih =>
    rw [List.foldlM_cons]
    by_cases hyx : y = x
    · subst hyx
      rw [putFrom_of_some hget, put_eq_error_iff.mpr hread]
      rfl
    · obtain ⟨other, d, hgety, hready⟩ := hother y hyx
      cases hput : t.put y other with
      | error m' =>
        rw [put_eq_error_iff.mp hput] at hready
        cases hready
      | ok u =>
        rw [putFrom_of_some hgety, hput]
        exact ih ((List.mem_cons.mp hx).resolve_left fun h => hyx h.symm)

theorem foldlM_putFrom_insert (hs : s.isWritable) (htable : s.toTable? = some table) :
    Setting.all.foldlM (putFrom (table.insert x.name value)) {} =
      (s.put x value).mapError (.mistyped x) := by
  rw [toTable?, if_pos hs, Option.some.injEq] at htable
  have hself : (table.insert x.name value).get? x.name = some value := by
    rw [Toml.Table.get?_insert, if_pos rfl]
  have hother : ∀ y, y ≠ x → (table.insert x.name value).get? y.name = some (s.written y) := by
    intro y hyx
    rw [Toml.Table.get?_insert, if_neg fun h => hyx (Setting.name_injective h), ← htable,
      get?_written]
  -- The run overwrites every default, so only the value of `x` can make it fail.
  cases hput : s.put x value with
  | error m =>
    refine foldlM_putFrom_eq_error (Setting.mem_all x) hself (put_eq_error_iff.mp hput) ?_
    exact fun y hyx => ⟨_, _, hother y hyx, readDatum_written hs y⟩
  | ok u =>
    obtain ⟨hread, hcopy⟩ := put_eq_ok_iff.mp hput
    obtain ⟨-, hkept⟩ := eq_copy_iff.mp hcopy
    refine (foldlM_putFrom_eq_ok_iff (by decide)).mpr ⟨?_, ?_⟩
    · intro y _
      by_cases hyx : y = x
      · rw [hyx, overridesAt_of_some hself]
        exact hread
      · rw [overridesAt_of_some (hother y hyx), hkept y hyx]
        exact readDatum_written hs y
    · exact fun y hy => absurd (Setting.mem_all y) hy

theorem withOption_of_unknown (h : ∀ x : Setting, x.name ≠ name) :
    s.withOption name value = .error (.unknown name) := by
  have hname : Setting.ofName? name = none :=
    Option.eq_none_iff_forall_ne_some.mpr fun x hx => h x (Setting.ofName?_eq_some_iff.mp hx)
  rw [withOption, hname]

theorem withOption_name (s : Settings) (x : Setting) (value : Toml.Value) :
    s.withOption x.name value =
      if s.isWritable then do
        let changed ← (s.put x value).mapError (.unfit x)
        changed.validate
      else .error (.tooLarge x) := by
  rw [withOption, Setting.ofName?_name]
  by_cases hs : s.isWritable
  · have htable : s.toTable? = some _ := if_pos hs
    simp only [htable, foldlM_putFrom_insert hs htable, if_pos hs]
    cases s.put x value <;> rfl
  · have htable : s.toTable? = none := if_neg hs
    simp only [htable, if_neg hs]

theorem withOption_eq_ok_iff : t.withOption name value = .ok u ↔ t.isWritable ∧ ∃ x : Setting,
    x.name = name ∧ t.put x value = .ok u ∧ u.conflict? = none := by
  by_cases hname : ∃ x : Setting, x.name = name
  · obtain ⟨x, rfl⟩ := hname
    rw [withOption_name]
    split
    case isTrue hwritable =>
      simp only [Except.bind_eq_ok_iff, Except.mapError_eq_ok_iff, validate_eq_ok_iff, hwritable,
        true_and]
      constructor
      · rintro ⟨v, hput, rfl, hconflict⟩
        exact ⟨x, rfl, hput, hconflict⟩
      · rintro ⟨y, hy, hput, hconflict⟩
        rw [Setting.name_injective hy] at hput
        exact ⟨u, hput, rfl, hconflict⟩
    case isFalse hwritable => simp [hwritable]
  · rw [not_exists] at hname
    rw [withOption_of_unknown hname]
    simp [hname]

end StyleCheck.Settings
