import Mathlib.Data.List.Nodup
import StyleCheck.Rule.Registry

namespace StyleCheck

namespace RuleModule

def Owns (m : RuleModule) (code : Nat) : Prop :=
  m.bandStart ≤ code ∧ code ≤ m.bandEnd

instance (m : RuleModule) (code : Nat) : Decidable (m.Owns code) :=
  inferInstanceAs (Decidable (_ ∧ _))

theorem index_eq_of_owns {m m' : RuleModule} {code : Nat} (hi : m.index ≤ greatestIndex)
    (hi' : m'.index ≤ greatestIndex) (h : m.Owns code) (h' : m'.Owns code) :
    m.index = m'.index := by
  obtain ⟨hs, he⟩ := band_of_le hi
  obtain ⟨hs', he'⟩ := band_of_le hi'
  simp only [Owns, hs, he, hs', he'] at h h'
  omega

end RuleModule

namespace Registry

structure Valid (r : Registry) : Prop where
  names_nodup : (r.modules.map (·.name)).Nodup
  indices_nodup : (r.modules.map (·.index)).Nodup
  index_le : ∀ m ∈ r.modules, m.index ≤ RuleModule.greatestIndex
  owned : ∀ rule ∈ r.rules, ∃ m ∈ r.modules, m.name = rule.group ∧ m.Owns rule.code
  codes_nodup : (r.rules.map (·.code)).Nodup

theorem valid_empty : empty.Valid := by
  constructor <;> simp [empty]

variable {r : Registry}

theorem byCode?_eq_none {code : Nat} (h : r.byCode? code = none) :
    ∀ rule ∈ r.rules, rule.code ≠ code := by
  simpa [byCode?] using h

theorem find?_eq_some_iff_of_nodup {α β : Type} [BEq β] [LawfulBEq β] {f : α → β} {l : List α}
    (h : (l.map f).Nodup) {key : β} {a : α} :
    l.find? (fun b => f b == key) = some a ↔ a ∈ l ∧ f a = key := by
  constructor
  · intro hf
    have hk := List.find?_some hf
    exact ⟨List.mem_of_find?_eq_some hf, beq_iff_eq.1 hk⟩
  · rintro ⟨ha, rfl⟩
    cases hf : l.find? (fun b => f b == f a) with
    | none =>
      have := List.find?_eq_none.1 hf a ha
      simp at this
    | some b =>
      have hk := List.find?_some hf
      rw [List.inj_on_of_nodup_map h (List.mem_of_find?_eq_some hf) ha (beq_iff_eq.1 hk)]

theorem Valid.module?_eq_some_iff (h : r.Valid) {name : String} {m : RuleModule} :
    r.module? name = some m ↔ m ∈ r.modules ∧ m.name = name :=
  find?_eq_some_iff_of_nodup h.names_nodup

theorem Valid.byCode?_eq_some_iff (h : r.Valid) {code : Nat} {rule : Rule} :
    r.byCode? code = some rule ↔ rule ∈ r.rules ∧ rule.code = code :=
  find?_eq_some_iff_of_nodup h.codes_nodup

theorem nodup_map_append {α β : Type} {f : α → β} {l : List α} {a : α} (h : (l.map f).Nodup)
    (ha : ∀ b ∈ l, f b ≠ f a) : ((l ++ [a]).map f).Nodup := by
  rw [List.map_append, List.nodup_append]
  refine ⟨h, List.nodup_singleton _, ?_⟩
  intro x hx y hy
  obtain ⟨b, hb, rfl⟩ := List.mem_map.1 hx
  rw [List.mem_singleton.1 hy]
  exact ha b hb

theorem mergeSort_increasing {α : Type} (key : α → Nat) {l : List α} (h : (l.map key).Nodup) :
    (l.mergeSort (key · ≤ key ·)).Pairwise (key · < key ·) := by
  have hle : (l.mergeSort (key · ≤ key ·)).Pairwise fun a b => decide (key a ≤ key b) = true := by
    apply List.pairwise_mergeSort
    · intro a b c hab hbc
      simp only [decide_eq_true_eq] at *
      omega
    · intro a b
      simp only [Bool.or_eq_true, decide_eq_true_eq]
      omega
  have hne : (l.mergeSort (key · ≤ key ·)).Pairwise (key · ≠ key ·) :=
    List.pairwise_map.1 (((List.mergeSort_perm _ _).map key).nodup_iff.2 h)
  apply (hle.and hne).imp
  rintro a b ⟨hab, hne⟩
  exact Nat.lt_of_le_of_ne (of_decide_eq_true hab) hne

theorem sortCodes_increasing {codes : List Nat} (h : codes.Nodup) :
    (sortCodes codes).Pairwise (· < ·) := by
  apply mergeSort_increasing id
  rwa [List.map_id]

theorem Valid.addModule (h : r.Valid) (m : RuleModule) : (r.addModule m).2.Valid := by
  obtain ⟨error, hr⟩ | ⟨hi, hnew, hr⟩ := addModule_cases r m
  · rwa [hr]
  rw [hr]
  constructor
  · exact nodup_map_append h.names_nodup fun other ho => (hnew other ho).1
  · exact nodup_map_append h.indices_nodup fun other ho => (hnew other ho).2
  · intro other ho
    rcases List.mem_append.1 ho with ho | ho
    · exact h.index_le other ho
    · rw [List.mem_singleton.1 ho]
      exact hi
  · intro rule hrule
    obtain ⟨owner, ho, hn⟩ := h.owned rule hrule
    exact ⟨owner, List.mem_append_left _ ho, hn⟩
  · exact h.codes_nodup

theorem Valid.addRule (h : r.Valid) (rule : Rule) : (r.addRule rule).2.Valid := by
  obtain ⟨error, hr⟩ | ⟨⟨owner, hm, hb⟩, hc, hr⟩ := addRule_cases r rule
  · rwa [hr]
  rw [hr]
  obtain ⟨ho, hn⟩ := h.module?_eq_some_iff.1 hm
  constructor
  · exact h.names_nodup
  · exact h.indices_nodup
  · exact h.index_le
  · intro other hother
    rcases List.mem_append.1 hother with hother | hother
    · exact h.owned other hother
    · rw [List.mem_singleton.1 hother]
      exact ⟨owner, ho, hn, hb⟩
  · exact nodup_map_append h.codes_nodup (byCode?_eq_none hc)

theorem Valid.register (h : r.Valid) (registration : Registration) :
    (r.register registration).2.Valid := by
  cases registration with
  | group m => exact h.addModule m
  | rule rule => exact h.addRule rule

theorem Valid.foldl (h : r.Valid) (registrations : List Registration) :
    (registrations.foldl (fun r registration => (r.register registration).2) r).Valid := by
  induction registrations generalizing r with
  | nil => exact h
  | cons registration registrations ih => exact ih (h.register registration)

theorem register_of_error {registration : Registration} {error : Error}
    (h : (r.register registration).1 = .error error) : (r.register registration).2 = r := by
  cases registration with
  | group m =>
    obtain ⟨_, hr⟩ | ⟨-, -, hr⟩ := addModule_cases r m
    · exact congrArg Prod.snd hr
    · rw [register, hr] at h
      cases h
  | rule rule =>
    obtain ⟨_, hr⟩ | ⟨-, -, hr⟩ := addRule_cases r rule
    · exact congrArg Prod.snd hr
    · rw [register, hr] at h
      cases h

theorem addModule_of_ok {m : RuleModule} (h : (r.addModule m).1 = .ok ()) :
    (r.addModule m).2 = ⟨r.modules ++ [m], r.rules⟩ := by
  obtain ⟨_, hr⟩ | ⟨-, -, hr⟩ := addModule_cases r m
  · rw [hr] at h
    cases h
  · exact congrArg Prod.snd hr

theorem addRule_of_ok {rule : Rule} (h : (r.addRule rule).1 = .ok ()) :
    (r.addRule rule).2 = ⟨r.modules, r.rules ++ [rule]⟩ := by
  obtain ⟨_, hr⟩ | ⟨-, -, hr⟩ := addRule_cases r rule
  · rw [hr] at h
    cases h
  · exact congrArg Prod.snd hr

theorem valid_run (registrations : List Registration) : (run registrations).Valid :=
  valid_empty.foldl registrations

namespace Valid

theorem module_eq_of_owns (h : r.Valid) {m m' : RuleModule} (hm : m ∈ r.modules)
    (hm' : m' ∈ r.modules) {code : Nat} (hc : m.Owns code) (hc' : m'.Owns code) : m = m' := by
  have hi := RuleModule.index_eq_of_owns (h.index_le m hm) (h.index_le m' hm') hc hc'
  exact List.inj_on_of_nodup_map h.indices_nodup hm hm' hi

theorem bands_disjoint (h : r.Valid) :
    r.modules.Pairwise fun a b => a.bandEnd < b.bandStart ∨ b.bandEnd < a.bandStart := by
  have hn := List.pairwise_map.1 h.indices_nodup
  apply hn.imp_of_mem
  intro a b ha hb hne
  obtain ⟨hsa, hea⟩ := RuleModule.band_of_le (h.index_le a ha)
  obtain ⟨hsb, heb⟩ := RuleModule.band_of_le (h.index_le b hb)
  omega

theorem group_eq_iff_owns (h : r.Valid) {m : RuleModule} (hm : m ∈ r.modules) {rule : Rule}
    (hr : rule ∈ r.rules) : rule.group = m.name ↔ m.Owns rule.code := by
  obtain ⟨owner, ho, hn, hb⟩ := h.owned rule hr
  rw [← hn]
  constructor
  · intro hname
    have : owner = m := List.inj_on_of_nodup_map h.names_nodup ho hm hname
    rwa [← this]
  · intro hc
    rw [h.module_eq_of_owns ho hm hb hc]

theorem rulesIn_eq (h : r.Valid) {m : RuleModule} (hm : m ∈ r.modules) :
    r.rulesIn m.name = r.rules.filter fun rule => m.Owns rule.code := by
  apply List.filter_congr
  intro rule hr
  rw [Bool.eq_iff_iff, beq_iff_eq, decide_eq_true_iff]
  exact h.group_eq_iff_owns hm hr

theorem codes_increasing (h : r.Valid) : r.codes.Pairwise (· < ·) :=
  sortCodes_increasing h.codes_nodup

theorem group_of_duplicateCode (h : r.Valid) {rule : Rule} {code : Nat} {name existing : String}
    (hd : (r.addRule rule).1 = .error (.duplicateCode code name existing)) :
    code = rule.code ∧ name = rule.name ∧
      ∃ k, r.byCode? code = some k ∧ k.name = existing ∧ k.group = rule.group := by
  unfold Registry.addRule at hd
  cases hm : r.module? rule.group with
  | none => simp [hm] at hd
  | some owner =>
    simp only [hm] at hd
    split at hd
    · simp at hd
    · rename_i hb
      cases hk : r.byCode? rule.code with
      | none => simp [hk] at hd
      | some k =>
        simp only [hk, Except.error.injEq, Error.duplicateCode.injEq] at hd
        obtain ⟨rfl, rfl, rfl⟩ := hd
        refine ⟨rfl, rfl, k, hk, rfl, ?_⟩
        obtain ⟨ho, hn⟩ := h.module?_eq_some_iff.1 hm
        obtain ⟨hmem, hcode⟩ := h.byCode?_eq_some_iff.1 hk
        -- The code is in the band of the module that was named, and only one module has that band.
        have howns : owner.Owns k.code := by
          unfold RuleModule.Owns
          omega
        rw [← hn]
        exact (h.group_eq_iff_owns ho hmem).2 howns

end Valid

theorem mem_codes {code : Nat} : code ∈ r.codes ↔ ∃ rule ∈ r.rules, rule.code = code := by
  rw [codes, sortCodes, List.mem_mergeSort, List.mem_map]

/-- What a registry promises to those who look things up in it, and to the next registration. -/
structure Consistent (r : Registry) : Prop where
  names_nodup : (r.modules.map (·.name)).Nodup
  indices_nodup : (r.modules.map (·.index)).Nodup
  index_le : ∀ m ∈ r.modules, m.index ≤ 654
  band_eq : ∀ m ∈ r.modules, m.bandStart = 100 * m.index ∧ m.bandEnd = 100 * m.index + 99
  bands_disjoint : r.modules.Pairwise fun a b => a.bandEnd < b.bandStart ∨ b.bandEnd < a.bandStart
  owned : ∀ rule ∈ r.rules, ∃ m, r.module? rule.group = some m ∧ m.Owns rule.code
  codes_nodup : (r.rules.map (·.code)).Nodup
  byCode : ∀ rule ∈ r.rules, r.byCode? rule.code = some rule
  codes_increasing : r.codes.Pairwise (· < ·)
  mem_codes : ∀ code, code ∈ r.codes ↔ ∃ rule ∈ r.rules, rule.code = code
  rulesIn_eq : ∀ m ∈ r.modules,
    r.rulesIn m.name = r.rules.filter fun rule => m.Owns rule.code
  refused : ∀ registration error, (r.register registration).1 = .error error →
    (r.register registration).2 = r
  added_module : ∀ m, (r.register (.group m)).1 = .ok () →
    (r.register (.group m)).2 = ⟨r.modules ++ [m], r.rules⟩
  added_rule : ∀ rule, (r.register (.rule rule)).1 = .ok () →
    (r.register (.rule rule)).2 = ⟨r.modules, r.rules ++ [rule]⟩
  duplicate_group : ∀ rule code name existing,
    (r.register (.rule rule)).1 = .error (.duplicateCode code name existing) →
      ∃ k, r.byCode? rule.code = some k ∧ k.name = existing ∧ k.group = rule.group

theorem consistent_run (registrations : List Registration) : (run registrations).Consistent := by
  have h := valid_run registrations
  generalize run registrations = r at h ⊢
  constructor
  · exact h.names_nodup
  · exact h.indices_nodup
  · exact h.index_le
  · intro m hm
    obtain ⟨hs, he⟩ := RuleModule.band_of_le (h.index_le m hm)
    omega
  · exact h.bands_disjoint
  · intro rule hr
    obtain ⟨m, hm, hn, hb⟩ := h.owned rule hr
    exact ⟨m, h.module?_eq_some_iff.2 ⟨hm, hn⟩, hb⟩
  · exact h.codes_nodup
  · intro rule hr
    exact h.byCode?_eq_some_iff.2 ⟨hr, rfl⟩
  · exact h.codes_increasing
  · intro code
    exact Registry.mem_codes
  · intro m hm
    exact h.rulesIn_eq hm
  · intro registration error
    exact register_of_error
  · intro m
    exact addModule_of_ok
  · intro rule
    exact addRule_of_ok
  · intro rule code name existing hd
    obtain ⟨rfl, _, hk⟩ := h.group_of_duplicateCode hd
    exact hk

end Registry

end StyleCheck
