import Mathlib.Data.List.Nodup
import Mathlib.Data.List.ProdSigma
import StyleCheck.Proofs.Traversal
import StyleCheck.Scenario.Matrix

namespace StyleCheck

theorem length_flatMap_of_const {α β : Type} {f : α → List β} {n : Nat}
    (hf : ∀ a, (f a).length = n) (as : List α) : (as.flatMap f).length = as.length * n := by
  induction as with
  | nil => rw [List.flatMap_nil, List.length_nil, List.length_nil, Nat.zero_mul]
  | cons a as ih =>
    rw [List.flatMap_cons, List.length_append, hf, ih, List.length_cons, Nat.succ_mul, Nat.add_comm]

theorem getElem?_flatMap_of_const {α β : Type} {f : α → List β} {n : Nat}
    (hf : ∀ a, (f a).length = n) {as : List α} {a : α} {i j : Nat} (ha : as[i]? = some a)
    (hj : j < n) : (as.flatMap f)[i * n + j]? = (f a)[j]? := by
  induction as generalizing i with
  | nil => cases ha
  | cons first as ih =>
    rw [List.flatMap_cons]
    cases i with
    | zero =>
      cases ha
      rw [Nat.zero_mul, Nat.zero_add]
      exact List.getElem?_append_left (by rw [hf]; exact hj)
    | succ i =>
      have hplace : (i + 1) * n + j = n + (i * n + j) := by
        rw [Nat.succ_mul]
        omega
      rw [hplace, List.getElem?_append_right (by rw [hf]; omega), hf, Nat.add_sub_cancel_left]
      exact ih ha

namespace Matrix

variable {m : Matrix}

def size (m : Matrix) : Nat :=
  m.templates.length * m.valueSets.length * m.modes.length

def place (m : Matrix) (i j k : Nat) : Nat :=
  (i * m.valueSets.length + j) * m.modes.length + k

theorem length_entries_of_template (m : Matrix) (template : String × List Char) :
    (m.valueSets.flatMap fun values => m.modes.map fun mode =>
      m.entry template values mode).length = m.valueSets.length * m.modes.length :=
  length_flatMap_of_const (fun _ => List.length_map _) m.valueSets

theorem length_entries (m : Matrix) : m.entries.length = m.size := by
  rw [entries, length_flatMap_of_const (length_entries_of_template m), size, Nat.mul_assoc]

theorem getElem?_entries {i j k : Nat} {template : String × List Char}
    {values : String × Substitution} {mode : Mode} (ht : m.templates[i]? = some template)
    (hv : m.valueSets[j]? = some values) (hm : m.modes[k]? = some mode) :
    m.entries[m.place i j k]? = some (m.entry template values mode) := by
  obtain ⟨hj, -⟩ := List.getElem?_eq_some_iff.mp hv
  obtain ⟨hk, -⟩ := List.getElem?_eq_some_iff.mp hm
  have hinner : j * m.modes.length + k < m.valueSets.length * m.modes.length := by
    calc j * m.modes.length + k < j * m.modes.length + m.modes.length := by omega
      _ = (j + 1) * m.modes.length := (Nat.succ_mul _ _).symm
      _ ≤ m.valueSets.length * m.modes.length := Nat.mul_le_mul_right _ hj
  have hplace : m.place i j k =
      i * (m.valueSets.length * m.modes.length) + (j * m.modes.length + k) := by
    rw [place, Nat.add_mul, Nat.mul_assoc, Nat.add_assoc]
  rw [hplace, entries, getElem?_flatMap_of_const (length_entries_of_template m) ht hinner,
    getElem?_flatMap_of_const (fun _ => List.length_map _) hv hk, List.getElem?_map, hm]
  rfl

def Entry.named (entry : Entry) : Except Template.Error (String × Scenario) :=
  entry.scenario.map fun scenario => (entry.id, scenario)

theorem Entry.exists_named_iff {entry : Entry} :
    (∃ named, entry.named = .ok named) ↔ ∃ scenario, entry.scenario = .ok scenario := by
  unfold Entry.named
  cases entry.scenario with
  | error error => exact ⟨nofun, nofun⟩
  | ok scenario => exact ⟨fun _ => ⟨scenario, rfl⟩, fun _ => ⟨(entry.id, scenario), rfl⟩⟩

/-- All combinations, each once and in order. -/
structure Expands (m : Matrix) : Prop where
  valueSets : m.valueSets = if m.values = [] then [("", ⟨[], []⟩)] else m.values
  length : m.entries.length = m.size
  entry : ∀ i j k template values mode, m.templates[i]? = some template →
    m.valueSets[j]? = some values → m.modes[k]? = some mode →
      m.entries[m.place i j k]? = some ⟨entryId template.1 values.1 mode,
        (Template.render values.2 template.2).map fun text =>
          ⟨mode, m.fileName, mode.apply text⟩⟩
  ok : ∀ scenarios, m.expand = .ok scenarios ↔ m.entries.map Entry.named = scenarios.map .ok
  succeeds : (∃ scenarios, m.expand = .ok scenarios) ↔
    ∀ entry ∈ m.entries, ∃ scenario, entry.scenario = .ok scenario
  error : ∀ error, m.expand = .error error ↔ ∃ n, FailsFirst Entry.named m.entries n error

theorem expands (m : Matrix) : m.Expands where
  valueSets := by
    unfold valueSets
    simp only [List.isEmpty_iff]
    rfl
  length := length_entries m
  entry _ _ _ _ _ _ := getElem?_entries
  ok _ := Except.mapM_eq_ok_iff
  succeeds := by
    refine Except.exists_mapM_eq_ok_iff.trans ?_
    exact forall₂_congr fun _ _ => Entry.exists_named_iff
  error _ := Except.mapM_eq_error_iff

/-- A part of an id that can be read back from it. -/
def IsPlain (part : String) : Prop :=
  part ≠ "" ∧ '-' ∉ part.toList

instance : DecidablePred IsPlain :=
  fun part => inferInstanceAs (Decidable (part ≠ "" ∧ '-' ∉ part.toList))

def idParts (name label : String) (mode : Mode) : List String :=
  [name, label, mode.name].filter (· != "")

theorem idParts_eq {name : String} (hn : name ≠ "") (label : String) (mode : Mode) :
    idParts name label mode = if label = "" then [name, mode.name] else [name, label, mode.name] := by
  have hmode : mode.name ≠ "" := by
    cases mode <;> decide
  by_cases hl : label = ""
  · simp [idParts, hn, hl, hmode]
  · simp [idParts, hn, hl, hmode]

theorem splitOn_entryId {name label : String} {mode : Mode} (hn : IsPlain name)
    (hl : '-' ∉ label.toList) : (entryId name label mode).toList.splitOn '-' =
      (idParts name label mode).map String.toList := by
  have hmode : '-' ∉ mode.name.toList := by
    cases mode <;> decide
  have hid : (entryId name label mode).toList =
      ['-'].intercalate ((idParts name label mode).map String.toList) :=
    String.toList_intercalate
  rw [hid]
  apply List.splitOn_intercalate
  · intro part hpart
    obtain ⟨text, htext, rfl⟩ := List.mem_map.mp hpart
    rcases List.mem_cons.mp (List.mem_filter.mp htext).1 with rfl | h
    · exact hn.2
    · rcases List.mem_pair.mp h with rfl | rfl
      · exact hl
      · exact hmode
  · rw [idParts_eq hn.1]
    split
    · exact List.cons_ne_nil _ _
    · exact List.cons_ne_nil _ _

theorem mode_of_name {mode mode' : Mode} (h : mode.name = mode'.name) : mode = mode' := by
  revert h
  cases mode <;> cases mode' <;> decide

theorem entryId_injective {name name' label label' : String} {mode mode' : Mode}
    (hn : IsPlain name) (hn' : IsPlain name') (hl : '-' ∉ label.toList) (hl' : '-' ∉ label'.toList)
    (h : entryId name label mode = entryId name' label' mode') :
    name = name' ∧ label = label' ∧ mode = mode' := by
  have hparts : idParts name label mode = idParts name' label' mode' := by
    apply List.map_injective_iff.mpr fun _ _ => String.toList_injective
    rw [← splitOn_entryId hn hl, ← splitOn_entryId hn' hl', h]
  rw [idParts_eq hn.1, idParts_eq hn'.1] at hparts
  -- a label without text leaves two parts, any other three
  by_cases hempty : label = ""
  · by_cases hempty' : label' = ""
    · rw [if_pos hempty, if_pos hempty'] at hparts
      simp only [List.cons.injEq, and_true] at hparts
      exact ⟨hparts.1, hempty.trans hempty'.symm, mode_of_name hparts.2⟩
    · rw [if_pos hempty, if_neg hempty'] at hparts
      cases congrArg List.length hparts
  · by_cases hempty' : label' = ""
    · rw [if_neg hempty, if_pos hempty'] at hparts
      cases congrArg List.length hparts
    · rw [if_neg hempty, if_neg hempty'] at hparts
      simp only [List.cons.injEq, and_true] at hparts
      exact ⟨hparts.1, hparts.2.1, mode_of_name hparts.2.2⟩

structure HasPlainNames (m : Matrix) : Prop where
  distinctTemplates : (m.templates.map (·.1)).Nodup
  distinctLabels : (m.values.map (·.1)).Nodup
  distinctModes : m.modes.Nodup
  plainTemplates : ∀ template ∈ m.templates, IsPlain template.1
  plainLabels : ∀ values ∈ m.values, IsPlain values.1

theorem HasPlainNames.nodup_valueSets (h : m.HasPlainNames) : (m.valueSets.map (·.1)).Nodup := by
  unfold valueSets
  split
  · exact List.nodup_singleton _
  · exact h.distinctLabels

theorem HasPlainNames.label (h : m.HasPlainNames) {values : String × Substitution}
    (hv : values ∈ m.valueSets) : '-' ∉ values.1.toList := by
  unfold valueSets at hv
  split at hv
  · cases List.mem_singleton.mp hv
    decide
  · exact (h.plainLabels values hv).2

theorem map_id_entries (m : Matrix) : m.entries.map (·.id) =
    (m.templates ×ˢ m.valueSets ×ˢ m.modes).map fun c => entryId c.1.1 c.2.1.1 c.2.2 := by
  simp only [entries, SProd.sprod, List.product, List.map_flatMap, List.map_map]
  rfl

theorem HasPlainNames.nodup_ids (h : m.HasPlainNames) : (m.entries.map (·.id)).Nodup := by
  rw [map_id_entries]
  apply List.Nodup.map_on
  · rintro ⟨template, values, mode⟩ hc ⟨template', values', mode'⟩ hc' heq
    obtain ⟨ht, hvm⟩ := List.mem_product.mp hc
    obtain ⟨ht', hvm'⟩ := List.mem_product.mp hc'
    obtain ⟨hv, -⟩ := List.mem_product.mp hvm
    obtain ⟨hv', -⟩ := List.mem_product.mp hvm'
    obtain ⟨hname, hlabel, rfl⟩ := entryId_injective (h.plainTemplates template ht)
      (h.plainTemplates template' ht') (h.label hv) (h.label hv') heq
    have htemplate := List.inj_on_of_nodup_map h.distinctTemplates ht ht' hname
    have hvalues := List.inj_on_of_nodup_map h.nodup_valueSets hv hv' hlabel
    rw [htemplate, hvalues]
  · have hvalues := h.nodup_valueSets.of_map
    exact h.distinctTemplates.of_map.product (hvalues.product h.distinctModes)

end Matrix

end StyleCheck
