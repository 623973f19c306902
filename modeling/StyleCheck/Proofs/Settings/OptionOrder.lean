import Mathlib
import StyleCheck.Proofs.Settings.Rewriting
import StyleCheck.Proofs.Toml.DistinctKeys

namespace StyleCheck.Settings

def withOptions (s : Settings) (options : Toml.Table) : Except Error Settings :=
  options.foldlM (fun s option => s.withOption option.1 option.2) s

variable {s t u : Settings} {x : Setting} {name : String} {value : Toml.Value}
  {options table : Toml.Table}

theorem toLength_le {n : Nat} (h : toLength value = .ok n) : n ≤ greatestWritten := by
  cases value with
  | integer value =>
    have hgreatest : greatestWritten = 2 ^ 63 - 1 := by decide
    have hvalue := value.toInt_lt
    simp only [toLength] at h
    split at h
    · cases h
    · cases h
      omega
  | _ => cases h

theorem isWritable_of_put (ht : t.isWritable) (h : t.put x value = .ok u) : u.isWritable := by
  rw [isWritable_iff] at ht ⊢
  obtain ⟨hmin, hmax, htuple⟩ := ht
  cases x with
  | forbiddenModuleNames =>
    obtain ⟨names, -, hu⟩ := Except.bind_eq_ok_iff.mp h
    cases hu
    exact ⟨hmin, hmax, htuple⟩
  | maxNameLength =>
    obtain ⟨n, hn, hu⟩ := Except.bind_eq_ok_iff.mp h
    cases hu
    exact ⟨hmin, toLength_le hn, htuple⟩
  | maxTupleUnpackLength =>
    obtain ⟨n, hn, hu⟩ := Except.bind_eq_ok_iff.mp h
    cases hu
    exact ⟨hmin, hmax, toLength_le hn⟩
  | minNameLength =>
    obtain ⟨n, hn, hu⟩ := Except.bind_eq_ok_iff.mp h
    cases hu
    exact ⟨toLength_le hn, hmax, htuple⟩

theorem withOptions_cons_eq_ok_iff :
    t.withOptions ((name, value) :: options) = .ok s ↔
      ∃ u, t.withOption name value = .ok u ∧ u.withOptions options = .ok s := by
  rw [withOptions, List.foldlM_cons, Except.bind_eq_ok_iff]
  rfl

theorem get?_cons (key : String) : Toml.Table.get? ((name, value) :: options) key =
    if key = name then some value else options.get? key := by
  by_cases h : key = name <;> simp [Toml.Table.get?, List.lookup_cons, h, beq_false_of_ne]

theorem overridesAt_cons_self : OverridesAt ((x.name, value) :: options) t s x ↔
    readDatum x value = .ok (s.datum x) := by
  rw [overridesAt_of_some]
  rw [get?_cons, if_pos rfl]

theorem overrides_cons (hx : x.name ∉ options.keys) (hput : t.put x value = .ok u) :
    Overrides ((x.name, value) :: options) t s ↔ Overrides options u s := by
  obtain ⟨hread, hcopy⟩ := put_eq_ok_iff.mp hput
  obtain ⟨-, hother⟩ := eq_copy_iff.mp hcopy
  have hlater : options.get? x.name = none := Toml.Table.get?_eq_none_iff.mpr hx
  refine forall_congr' fun y => ?_
  by_cases hy : y = x
  · subst hy
    rw [overridesAt_cons_self, overridesAt_of_none hlater, hread, Except.ok.injEq, eq_comm]
  · have hsame : Toml.Table.get? ((x.name, value) :: options) y.name = options.get? y.name := by
      rw [get?_cons, if_neg fun h => hy (Setting.name_injective h)]
    simp only [OverridesAt, hsame, hother y hy]

theorem namesSettings_cons : NamesSettings ((name, value) :: options) ↔
    (∃ x : Setting, x.name = name) ∧ NamesSettings options := by
  simp [NamesSettings, Toml.Table.keys]

theorem overrides_of_withOptions (hkeys : options.keys.Nodup) (ht : t.conflict? = none)
    (h : t.withOptions options = .ok s) :
    NamesSettings options ∧ Overrides options t s ∧ s.conflict? = none := by
  induction options generalizing t with
  | nil =>
    cases h
    refine ⟨by simp [NamesSettings, Toml.Table.keys], fun x => ?_, ht⟩
    exact (overridesAt_of_none rfl).mpr rfl
  | cons option rest ih =>
    obtain ⟨name, value⟩ := option
    obtain ⟨hname, hrest⟩ := List.nodup_cons.mp hkeys
    obtain ⟨u, hu, hs⟩ := withOptions_cons_eq_ok_iff.mp h
    obtain ⟨-, x, rfl, hput, hconflict⟩ := withOption_eq_ok_iff.mp hu
    obtain ⟨hnames, hoverrides, hfinal⟩ := ih hrest hconflict hs
    refine ⟨namesSettings_cons.mpr ⟨⟨x, rfl⟩, hnames⟩, ?_, hfinal⟩
    exact (overrides_cons hname hput).mpr hoverrides

def Between (t s u : Settings) : Prop :=
  ∀ x, u.datum x = t.datum x ∨ u.datum x = s.datum x

theorem Between.of_copy (h : Between (t.copy x s) s u) : Between t s u := by
  intro y
  refine (h y).elim (fun hy => ?_) .inr
  by_cases hyx : y = x
  · rw [hyx, datum_copy_self] at hy
    exact .inr (hyx ▸ hy)
  · rw [datum_copy_of_ne hyx] at hy
    exact .inl hy

theorem between_copy (t s : Settings) (x : Setting) : Between t s (t.copy x s) :=
  Between.of_copy (x := x) fun _ => .inl rfl

theorem put_copy (hs : OverridesAt ((x.name, value) :: options) t s x) :
    t.put x value = .ok (t.copy x s) := by
  rw [overridesAt_cons_self] at hs
  rw [put_eq_ok_iff, datum_copy_self]
  exact ⟨hs, eq_copy_iff.mpr ⟨rfl, fun y => datum_copy_of_ne⟩⟩

theorem withOptions_of_overrides (hkeys : options.keys.Nodup) (ht : t.isWritable)
    (hbetween : ∀ u, Between t s u → u.conflict? = none) (hnames : NamesSettings options)
    (h : Overrides options t s) : t.withOptions options = .ok s := by
  induction options generalizing t with
  | nil =>
    rw [eq_of_datum fun x => (overridesAt_of_none rfl).mp (h x)]
    rfl
  | cons option rest ih =>
    obtain ⟨name, value⟩ := option
    obtain ⟨hname, hrest⟩ := List.nodup_cons.mp hkeys
    obtain ⟨⟨x, rfl⟩, hrestNames⟩ := namesSettings_cons.mp hnames
    have hput : t.put x value = .ok (t.copy x s) := put_copy (h x)
    refine withOptions_cons_eq_ok_iff.mpr ⟨t.copy x s, ?_, ?_⟩
    · rw [withOption_eq_ok_iff]
      exact ⟨ht, x, rfl, hput, hbetween _ (between_copy t s x)⟩
    -- Past the first option the run is still between the same two ends.
    · have hrestBetween : ∀ u, Between (t.copy x s) s u → u.conflict? = none :=
        fun u hu => hbetween u hu.of_copy
      exact ih hrest (isWritable_of_put ht hput) hrestBetween hrestNames
        ((overrides_cons hname hput).mp h)

def lead (s : Settings) : Setting :=
  if s.minNameLength ≤ ({} : Settings).maxNameLength then .minNameLength else .maxNameLength

theorem conflict?_of_between_lead (hs : s.conflict? = none)
    (hu : Between (copy {} s.lead s) s u) : u.conflict? = none := by
  rw [conflict?_eq_none_iff] at hs ⊢
  obtain ⟨hpositive, hordered, htuple⟩ := hs
  have humin := hu .minNameLength
  have humax := hu .maxNameLength
  have hutuple := hu .maxTupleUnpackLength
  by_cases h : s.minNameLength ≤ 45
  · have hlead : s.lead = .minNameLength := if_pos h
    simp only [hlead, copy, datum, Datum.length.injEq, or_self] at humin humax hutuple
    omega
  · have hlead : s.lead = .maxNameLength := if_neg h
    simp only [hlead, copy, datum, Datum.length.injEq, or_self] at humin humax hutuple
    omega

theorem namesSettings_perm (h : options.Perm table) :
    NamesSettings options ↔ NamesSettings table := by
  simp only [NamesSettings, (Toml.Table.keys_perm h).mem_iff]

theorem overrides_perm (h : options.Perm table) (hkeys : table.keys.Nodup) :
    Overrides options t s ↔ Overrides table t s :=
  overrides_congr (Toml.Table.get?_perm h hkeys)

theorem exists_order_of_overrides (hkeys : table.keys.Nodup) (hnames : NamesSettings table)
    (h : Overrides table {} s) (hs : s.conflict? = none) :
    ∃ order : Toml.Table, order.Perm table ∧ withOptions {} order = .ok s := by
  have hdefault : isWritable {} := by decide
  have hbetween : ∀ u, Between (copy {} s.lead s) s u → u.conflict? = none :=
    fun u => conflict?_of_between_lead hs
  cases hlead : table.get? s.lead.name with
  | none =>
    have hsame := (overridesAt_of_none hlead).mp (h s.lead)
    have hcopy : {} = copy {} s.lead s := eq_copy_iff.mpr ⟨hsame.symm, fun _ _ => rfl⟩
    rw [← hcopy] at hbetween
    exact ⟨table, List.Perm.refl table,
      withOptions_of_overrides hkeys hdefault hbetween hnames h⟩
  | some value =>
    obtain ⟨before, after, rfl, -⟩ := List.lookup_eq_some_iff.mp hlead
    have hperm : ((s.lead.name, value) :: (before ++ after)).Perm
        (before ++ (s.lead.name, value) :: after) := List.perm_middle.symm
    obtain ⟨hname, hrest⟩ :=
      List.nodup_cons.mp ((Toml.Table.keys_perm hperm).nodup_iff.mpr hkeys)
    obtain ⟨-, hrestNames⟩ := namesSettings_cons.mp ((namesSettings_perm hperm).mpr hnames)
    have hfirst := (overrides_perm hperm hkeys).mpr h
    have hput := put_copy (hfirst s.lead)
    have hconflict := hbetween _ fun _ => .inl rfl
    have hoption : withOption {} s.lead.name value = .ok (copy {} s.lead s) :=
      withOption_eq_ok_iff.mpr ⟨hdefault, s.lead, rfl, hput, hconflict⟩
    refine ⟨(s.lead.name, value) :: (before ++ after), hperm, ?_⟩
    refine withOptions_cons_eq_ok_iff.mpr ⟨copy {} s.lead s, hoption, ?_⟩
    exact withOptions_of_overrides hrest (isWritable_of_put hdefault hput) hbetween hrestNames
      ((overrides_cons hname hput).mp hfirst)

theorem ofTable_of_withOptions (hkeys : table.keys.Nodup) (hperm : options.Perm table)
    (h : withOptions {} options = .ok s) : ofTable table = .ok s := by
  have hoptions : options.keys.Nodup := (Toml.Table.keys_perm hperm).nodup_iff.mpr hkeys
  obtain ⟨hnames, hoverrides, hconflict⟩ := overrides_of_withOptions hoptions (by decide) h
  rw [ofTable_eq_ok_iff]
  exact ⟨(namesSettings_perm hperm).mp hnames, (overrides_perm hperm hkeys).mp hoverrides,
    hconflict⟩

theorem exists_order_of_ofTable (hkeys : table.keys.Nodup) (h : ofTable table = .ok s) :
    ∃ order : Toml.Table, order.Perm table ∧ withOptions {} order = .ok s := by
  obtain ⟨hnames, hoverrides, hconflict⟩ := ofTable_eq_ok_iff.mp h
  exact exists_order_of_overrides hkeys hnames hoverrides hconflict

/-- A document is refused exactly where no order of its entries can be set option by option, and
the orders that can be set all lead to its settings. Of the reader, only that keys are distinct
matters. -/
theorem ofReader_agrees_with_options {readTable? : List Char → Option Toml.Table}
    (hread : ∀ text table, readTable? text = some table → table.keys.Nodup) {text : List Char}
    (h : readTable? text = some table) :
    ((∃ s, ofReader readTable? text = .ok s) ↔
      ∃ order : Toml.Table, order.Perm table ∧ ∃ s, withOptions {} order = .ok s) ∧
    ∀ (order : Toml.Table) (s : Settings), order.Perm table → withOptions {} order = .ok s →
      ofReader readTable? text = .ok s := by
  have hkeys := hread text table h
  have htext : ofReader readTable? text = ofTable table := by rw [ofReader, h]
  rw [htext]
  refine ⟨⟨?_, ?_⟩, fun order s => ofTable_of_withOptions hkeys⟩
  · rintro ⟨s, hs⟩
    obtain ⟨order, hperm, horder⟩ := exists_order_of_ofTable hkeys hs
    exact ⟨order, hperm, s, horder⟩
  · rintro ⟨order, hperm, s, horder⟩
    exact ⟨s, ofTable_of_withOptions hkeys hperm horder⟩

theorem ofText_agrees_with_options {text : List Char}
    (h : Toml.readTable? text = some table) :
    ((∃ s, ofText text = .ok s) ↔
      ∃ order : Toml.Table, order.Perm table ∧ ∃ s, withOptions {} order = .ok s) ∧
    ∀ (order : Toml.Table) (s : Settings), order.Perm table → withOptions {} order = .ok s →
      ofText text = .ok s :=
  ofReader_agrees_with_options (fun _ _ => Toml.nodup_keys_of_readTable?) h

theorem ofText_agrees_with_options_on_raised_limits :
    Toml.readTable? "min_name_length=50\nmax_name_length=60".toList =
        some [("min_name_length", .integer 50), ("max_name_length", .integer 60)] ∧
      withOptions {} [("min_name_length", .integer 50), ("max_name_length", .integer 60)] =
        .error (.conflict (.maxNameBelowMin 50)) ∧
      ofText "min_name_length=50\nmax_name_length=60".toList =
        .ok { minNameLength := 50, maxNameLength := 60 } := by
  have htable : Toml.readTable? "min_name_length=50\nmax_name_length=60".toList =
      some [("min_name_length", .integer 50), ("max_name_length", .integer 60)] := by cbv
  have horder : withOptions {} [("max_name_length", .integer 60), ("min_name_length", .integer 50)] =
      .ok { minNameLength := 50, maxNameLength := 60 } := by rfl
  refine ⟨htable, by rfl, ?_⟩
  exact (ofText_agrees_with_options htable).2 _ _ (List.Perm.swap ..) horder

end StyleCheck.Settings
