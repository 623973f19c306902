import Mathlib.Algebra.Group.Nat.Defs
import StyleCheck.Proofs.Settings.Rewriting

namespace StyleCheck.Settings

inductive IsName : Toml.Value → String → Prop
  | string (text : String) : IsName (.string text) text
  | datetime (text : String) : IsName (.datetime text) text

inductive Assigns (s : Settings) : Setting → Toml.Value → Settings → Prop
  | minNameLength (n : Int64) (h : 0 ≤ n.toInt) :
    Assigns s .minNameLength (.integer n) { s with minNameLength := n.toInt.toNat }
  | maxNameLength (n : Int64) (h : 0 ≤ n.toInt) :
    Assigns s .maxNameLength (.integer n) { s with maxNameLength := n.toInt.toNat }
  | maxTupleUnpackLength (n : Int64) (h : 0 ≤ n.toInt) :
    Assigns s .maxTupleUnpackLength (.integer n) { s with maxTupleUnpackLength := n.toInt.toNat }
  | forbiddenModuleNames {items : List Toml.Value} {names : List String}
    (h : List.Forall₂ IsName items names) :
    Assigns s .forbiddenModuleNames (.array items) { s with forbiddenModuleNames := names }

/-- Numbers that are too large to be written are found first, then a value that is none for the
setting, and a conflict between the changed settings last. -/
inductive Refuses (s : Settings) (x : Setting) (value : Toml.Value) : Error → Prop
  | tooLarge (h : ¬s.isWritable) : Refuses s x value (.tooLarge x)
  | unfit (h : s.isWritable) (hnone : ∀ u, ¬Assigns s x value u) (m : Mismatch) :
    Refuses s x value (.unfit x m)
  | conflict (h : s.isWritable) {u : Settings} (hu : Assigns s x value u) {c : Conflict}
    (hc : u.conflict? = some c) : Refuses s x value (.conflict c)

variable {s u : Settings} {x : Setting} {value : Toml.Value} {e : Error}

theorem toLength_eq_ok_iff {n : Nat} :
    toLength value = .ok n ↔ ∃ k : Int64, 0 ≤ k.toInt ∧ value = .integer k ∧ n = k.toInt.toNat := by
  cases value with
  | integer k =>
    rw [toLength]
    split
    case isTrue hneg =>
      constructor
      · intro h
        cases h
      · rintro ⟨_, hk, hsame, -⟩
        cases hsame
        omega
    case isFalse hpos =>
      constructor
      · intro h
        cases h
        exact ⟨k, Int.not_lt.mp hpos, rfl, rfl⟩
      · rintro ⟨_, -, hsame, rfl⟩
        cases hsame
        rfl
  | _ => simp [toLength]

theorem toName_eq_ok_iff {name : String} : toName value = .ok name ↔ IsName value name := by
  constructor
  · intro h
    cases value with
    | string text =>
      cases h
      exact .string _
    | datetime text =>
      cases h
      exact .datetime _
    | _ => cases h
  · rintro (_ | _) <;> rfl

theorem toNames_eq_ok_iff {names : List String} : toNames value = .ok names ↔
    ∃ items, List.Forall₂ IsName items names ∧ value = .array items := by
  cases value with
  | array items =>
    rw [toNames, Except.mapM_eq_ok_iff]
    have hitems : items.map toName = names.map .ok ↔ List.Forall₂ IsName items names := by
      rw [← List.forall₂_eq_eq_eq, List.forall₂_map_left_iff, List.forall₂_map_right_iff]
      simp only [toName_eq_ok_iff]
    simp [hitems]
  | _ => simp [toNames]

theorem put_eq_ok_iff_assigns : s.put x value = .ok u ↔ Assigns s x value u := by
  constructor
  · intro h
    cases x with
    | forbiddenModuleNames =>
      obtain ⟨names, hnames, hu⟩ := Except.bind_eq_ok_iff.mp h
      obtain ⟨items, hitems, rfl⟩ := toNames_eq_ok_iff.mp hnames
      cases hu
      exact .forbiddenModuleNames hitems
    | maxNameLength =>
      obtain ⟨n, hn, hu⟩ := Except.bind_eq_ok_iff.mp h
      obtain ⟨k, hk, rfl, rfl⟩ := toLength_eq_ok_iff.mp hn
      cases hu
      exact .maxNameLength k hk
    | maxTupleUnpackLength =>
      obtain ⟨n, hn, hu⟩ := Except.bind_eq_ok_iff.mp h
      obtain ⟨k, hk, rfl, rfl⟩ := toLength_eq_ok_iff.mp hn
      cases hu
      exact .maxTupleUnpackLength k hk
    | minNameLength =>
      obtain ⟨n, hn, hu⟩ := Except.bind_eq_ok_iff.mp h
      obtain ⟨k, hk, rfl, rfl⟩ := toLength_eq_ok_iff.mp hn
      cases hu
      exact .minNameLength k hk
  · intro h
    cases h with
    | forbiddenModuleNames hitems =>
      rw [put, toNames_eq_ok_iff.mpr ⟨_, hitems, rfl⟩]
      rfl
    | maxNameLength k hk =>
      rw [put, toLength_eq_ok_iff.mpr ⟨k, hk, rfl, rfl⟩]
      rfl
    | maxTupleUnpackLength k hk =>
      rw [put, toLength_eq_ok_iff.mpr ⟨k, hk, rfl, rfl⟩]
      rfl
    | minNameLength k hk =>
      rw [put, toLength_eq_ok_iff.mpr ⟨k, hk, rfl, rfl⟩]
      rfl

theorem validate_eq_error_iff :
    u.validate = .error e ↔ ∃ c, u.conflict? = some c ∧ e = .conflict c := by
  rw [validate]
  cases u.conflict? with
  | none => simp
  | some c => simp [eq_comm]

theorem refuses_of_withOption (h : s.withOption x.name value = .error e) :
    Refuses s x value e := by
  rw [withOption_name] at h
  split at h
  case isFalse hs =>
    cases h
    exact .tooLarge hs
  case isTrue hs =>
    cases hput : s.put x value with
    | error m =>
      rw [hput] at h
      cases h
      refine .unfit hs (fun u hu => ?_) m
      rw [put_eq_ok_iff_assigns.mpr hu] at hput
      cases hput
    | ok u =>
      rw [hput] at h
      obtain ⟨c, hc, rfl⟩ := validate_eq_error_iff.mp h
      exact .conflict hs (put_eq_ok_iff_assigns.mp hput) hc

theorem Refuses.message? (h : Refuses s x value e) : ∃ option reason,
    e.message? = some ("invalid value for `" ++ option ++ "`: " ++ reason) ∧
      (option = x.name ∨ ∃ c, e = .conflict c) := by
  cases h with
  | tooLarge hs => exact ⟨x.name, _, rfl, .inl rfl⟩
  | unfit hs hnone m => exact ⟨x.name, _, rfl, .inl rfl⟩
  | @conflict hs u hu c hc => exact ⟨c.setting.name, _, rfl, .inr ⟨c, rfl⟩⟩

theorem withOption_changes_one (s : Settings) (name : String) (value : Toml.Value) :
    (∀ u, s.withOption name value = .ok u ↔
      (s.minNameLength ≤ 2 ^ 63 - 1 ∧ s.maxNameLength ≤ 2 ^ 63 - 1 ∧
        s.maxTupleUnpackLength ≤ 2 ^ 63 - 1) ∧
      (∃ x : Setting, x.name = name ∧ Assigns s x value u) ∧
      1 ≤ u.minNameLength ∧ u.minNameLength ≤ u.maxNameLength ∧ 1 ≤ u.maxTupleUnpackLength) ∧
    ((∃ unknown, s.withOption name value = .error (.unknown unknown)) ↔
      ∀ x : Setting, x.name ≠ name) ∧
    ∀ (x : Setting) (e : Error), x.name = name → s.withOption name value = .error e →
      Refuses s x value e ∧ ∃ option reason,
        e.message? = some ("invalid value for `" ++ option ++ "`: " ++ reason) ∧
          (option = name ∨ ∃ c, e = .conflict c) := by
  refine ⟨?_, ?_, ?_⟩
  · intro u
    have hgreatest : greatestWritten = 2 ^ 63 - 1 := by decide
    rw [withOption_eq_ok_iff, isWritable_iff, hgreatest, ← conflict?_eq_none_iff]
    simp only [put_eq_ok_iff_assigns, ← and_assoc, exists_and_right]
  · constructor
    · rintro ⟨unknown, h⟩ x rfl
      cases refuses_of_withOption h
    · intro h
      exact ⟨name, withOption_of_unknown h⟩
  · rintro x e rfl h
    have hrefuses := refuses_of_withOption h
    exact ⟨hrefuses, hrefuses.message?⟩

end StyleCheck.Settings
