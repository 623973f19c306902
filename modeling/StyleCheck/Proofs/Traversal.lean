namespace StyleCheck.Except

theorem bind_eq_ok_iff {ε α β : Type} {x : Except ε α} {f : α → Except ε β} {b : β} :
    x >>= f = .ok b ↔ ∃ a, x = .ok a ∧ f a = .ok b := by
  cases x with
  | error e => simp [bind, Except.bind]
  | ok a => simp [bind, Except.bind]

theorem bind_eq_error_iff {ε α β : Type} {x : Except ε α} {f : α → Except ε β} {e : ε} :
    x >>= f = .error e ↔ x = .error e ∨ ∃ a, x = .ok a ∧ f a = .error e := by
  cases x with
  | error e => simp [bind, Except.bind]
  | ok a => simp [bind, Except.bind]

theorem mapError_eq_ok_iff {ε ε' α : Type} {x : Except ε α} {f : ε → ε'} {a : α} :
    x.mapError f = .ok a ↔ x = .ok a := by
  cases x with
  | error e =>
    constructor
    · intro h
      cases h
    · intro h
      cases h
  | ok b =>
    constructor
    · intro h
      rw [Except.ok.inj h]
    · intro h
      rw [Except.ok.inj h]
      rfl

end StyleCheck.Except

namespace StyleCheck

variable {α β γ ε : Type}

theorem exists_map_eq_map_iff {f : α → γ} {g : β → γ} {as : List α} :
    (∃ bs : List β, as.map f = bs.map g) ↔ ∀ a ∈ as, ∃ b, f a = g b := by
  induction as with
  | nil => exact ⟨fun _ => List.forall_mem_nil _, fun _ => ⟨[], rfl⟩⟩
  | cons a as ih =>
    rw [List.forall_mem_cons, ← ih]
    constructor
    · rintro ⟨bs, h⟩
      obtain ⟨b, others, rfl, hb, hothers⟩ := List.map_eq_cons_iff.mp h.symm
      exact ⟨⟨b, hb.symm⟩, others, hothers.symm⟩
    · rintro ⟨⟨b, hb⟩, bs, hbs⟩
      exact ⟨b :: bs, by rw [List.map_cons, List.map_cons, hb, hbs]⟩

theorem Except.mapM_eq_ok_iff {f : α → Except ε β} {as : List α} {bs : List β} :
    as.mapM f = .ok bs ↔ as.map f = bs.map .ok := by
  induction as generalizing bs with
  | nil =>
    rw [List.mapM_nil, List.map_nil, eq_comm (a := []), List.map_eq_nil_iff]
    exact ⟨fun h => (Except.ok.inj h).symm, fun h => congrArg Except.ok h.symm⟩
  | cons a as ih =>
    simp only [List.mapM_cons, bind_eq_ok_iff, ih]
    cases bs with
    | nil =>
      constructor
      · rintro ⟨b, -, others, -, h⟩
        cases h
      · intro h
        cases h
    | cons b bs =>
      rw [List.map_cons, List.map_cons, List.cons.injEq]
      constructor
      · rintro ⟨_, ha, _, has, h⟩
        cases h
        exact ⟨ha, has⟩
      · rintro ⟨ha, has⟩
        exact ⟨b, ha, bs, has, rfl⟩

theorem Except.exists_mapM_eq_ok_iff {f : α → Except ε β} {as : List α} :
    (∃ bs, as.mapM f = .ok bs) ↔ ∀ a ∈ as, ∃ b, f a = .ok b := by
  simp only [mapM_eq_ok_iff, exists_map_eq_map_iff]

theorem map_eq_map_or_exists_first {f : α → γ} {g : β → γ} {as : List α} {bs : List β}
    (h : as.length = bs.length) : as.map f = bs.map g ∨
      ∃ before a after earlier b later, as = before ++ a :: after ∧ bs = earlier ++ b :: later ∧
        before.map f = earlier.map g ∧ f a ≠ g b := by
  induction as generalizing bs with
  | nil =>
    have hbs : bs = [] := List.length_eq_zero_iff.mp h.symm
    exact .inl (by rw [hbs]; rfl)
  | cons a as ih =>
    obtain ⟨b, bs, rfl⟩ := List.exists_cons_of_length_eq_add_one h.symm
    by_cases hab : f a = g b
    · rcases ih (Nat.succ.inj h) with hmap |
        ⟨before, a', after, earlier, b', later, rfl, rfl, hmap, hne⟩
      · exact .inl (by rw [List.map_cons, List.map_cons, hab, hmap])
      · refine .inr ⟨a :: before, a', after, b :: earlier, b', later, rfl, rfl, ?_, hne⟩
        rw [List.map_cons, List.map_cons, hab, hmap]
    · exact .inr ⟨[], a, as, [], b, bs, rfl, rfl, rfl, hab⟩

def FailsFirst (f : α → Except ε β) (as : List α) (n : Nat) (e : ε) : Prop :=
  (as.map f)[n]? = some (.error e) ∧ ∀ i < n, ∃ b, (as.map f)[i]? = some (.ok b)

theorem failsFirst_cons_succ {f : α → Except ε β} {a : α} {as : List α} {n : Nat} {e : ε} :
    FailsFirst f (a :: as) (n + 1) e ↔ (∃ b, f a = .ok b) ∧ FailsFirst f as n e := by
  constructor
  · rintro ⟨he, hbefore⟩
    obtain ⟨b, hb⟩ := hbefore 0 (Nat.succ_pos n)
    exact ⟨⟨b, Option.some.inj hb⟩, he, fun i hi => hbefore (i + 1) (Nat.succ_lt_succ hi)⟩
  · rintro ⟨⟨b, hb⟩, he, hbefore⟩
    refine ⟨he, ?_⟩
    intro i hi
    cases i with
    | zero => exact ⟨b, congrArg some hb⟩
    | succ i => exact hbefore i (Nat.lt_of_succ_lt_succ hi)

theorem Except.mapM_eq_error_iff {f : α → Except ε β} {as : List α} {e : ε} :
    as.mapM f = .error e ↔ ∃ n, FailsFirst f as n e := by
  induction as with
  | nil =>
    constructor
    · intro h
      cases h
    · rintro ⟨n, h, -⟩
      cases h
  | cons a as ih =>
    simp only [List.mapM_cons, bind_eq_error_iff, ih]
    constructor
    · rintro (ha | ⟨b, hb, ⟨n, hn⟩ | ⟨bs, -, h⟩⟩)
      · exact ⟨0, congrArg some ha, fun i hi => absurd hi (Nat.not_lt_zero i)⟩
      · exact ⟨n + 1, failsFirst_cons_succ.mpr ⟨⟨b, hb⟩, hn⟩⟩
      · cases h
    · rintro ⟨n, hn⟩
      cases n with
      | zero => exact .inl (Option.some.inj hn.1)
      | succ n =>
        obtain ⟨⟨b, hb⟩, hn⟩ := failsFirst_cons_succ.mp hn
        exact .inr ⟨b, hb, .inl ⟨n, hn⟩⟩

theorem Option.mapM_eq_some_iff {f : α → Option β} {as : List α} {bs : List β} :
    as.mapM f = some bs ↔ as.map f = bs.map some := by
  induction as generalizing bs with
  | nil =>
    rw [List.mapM_nil, List.map_nil, eq_comm (a := []), List.map_eq_nil_iff]
    exact ⟨fun h => (Option.some.inj h).symm, fun h => congrArg some h.symm⟩
  | cons a as ih =>
    simp only [List.mapM_cons, Option.bind_eq_bind, Option.bind_eq_some_iff, ih]
    cases bs with
    | nil => simp
    | cons b bs => simp

theorem Option.exists_mapM_eq_some_iff {f : α → Option β} {as : List α} :
    (∃ bs, as.mapM f = some bs) ↔ ∀ a ∈ as, ∃ b, f a = some b := by
  simp only [mapM_eq_some_iff, exists_map_eq_map_iff]

theorem Option.mapM_map {f g : α → Option β} {h : β → β} (hfg : ∀ a, g a = (f a).map h)
    (as : List α) : as.mapM g = (as.mapM f).map (List.map h) := by
  induction as with
  | nil => rfl
  | cons a as ih =>
    rw [List.mapM_cons, List.mapM_cons, hfg, ih]
    cases f a with
    | none => rfl
    | some b => cases as.mapM f <;> rfl

end StyleCheck
