import StyleCheck.Text.Occurrence

namespace StyleCheck.Text

def places (needle text : List Char) : List Nat :=
  (List.range text.length).filter fun i => needle.isPrefixOf (text.drop i)

def NoneOverlap (needle text : List Char) : Prop :=
  ∀ i j, i < j → needle <+: text.drop i → needle <+: text.drop j → i + needle.length ≤ j

variable {needle text cs : List Char} {c : Char}

theorem places_cons (needle : List Char) (c : Char) (cs : List Char) :
    places needle (c :: cs) =
      (if needle.isPrefixOf (c :: cs) then [0] else []) ++ (places needle cs).map (· + 1) := by
  rw [places, List.length_cons, List.range_succ_eq_map, List.filter_cons, List.drop_zero,
    List.filter_map]
  split <;> rfl

theorem NoneOverlap.tail (h : NoneOverlap needle (c :: cs)) : NoneOverlap needle cs := by
  intro i j hij hi hj
  have := h (i + 1) (j + 1) (Nat.succ_lt_succ hij) hi hj
  omega

theorem map_places_cons (needle : List Char) (c : Char) (cs : List Char) :
    ((places needle cs).map (· + 1)).map (fun i => (c :: cs).drop (i + needle.length)) =
      (places needle cs).map fun i => cs.drop (i + needle.length) := by
  rw [List.map_map]
  apply List.map_congr_left
  intro i _
  simp only [Function.comp_apply, Nat.add_right_comm i 1, List.drop_succ_cons]

/-- The characters still to be passed belong to the last occurrence, so no other begins at them. -/
theorem followingFrom_eq_map {skip : Nat} (h : NoneOverlap needle text)
    (hskip : ∀ k < skip, ¬ needle <+: text.drop k) :
    followingFrom needle skip text =
      (places needle text).map fun i => text.drop (i + needle.length) := by
  -- No occurrence begins at the characters that are passed, for two would overlap.
  fun_induction followingFrom needle skip text with
  | case1 => rfl
  | case2 skip c cs ih =>
    have hc : needle.isPrefixOf (c :: cs) = false := by
      have := hskip 0 (Nat.succ_pos skip)
      rwa [List.drop_zero, ← List.isPrefixOf_iff_prefix, Bool.not_eq_true] at this
    have hrest : ∀ k < skip, ¬ needle <+: cs.drop k :=
      fun k hk => hskip (k + 1) (Nat.succ_lt_succ hk)
    rw [ih h.tail hrest, places_cons, hc, if_neg Bool.false_ne_true, List.nil_append,
      map_places_cons]
  | case3 c cs hc ih =>
    have hrest : ∀ k < needle.length - 1, ¬ needle <+: cs.drop k := by
      intro k hk hk'
      have := h 0 (k + 1) (Nat.succ_pos k) (List.isPrefixOf_iff_prefix.mp hc) hk'
      omega
    rw [ih h.tail hrest, places_cons, if_pos hc, List.map_append, map_places_cons,
      List.map_singleton, Nat.zero_add, List.singleton_append]
  | case4 c cs hc ih =>
    rw [ih h.tail fun k hk => absurd hk (Nat.not_lt_zero k), places_cons, if_neg hc,
      List.nil_append, map_places_cons]

theorem following_eq_map (h : NoneOverlap needle text) :
    following needle text = (places needle text).map fun i => text.drop (i + needle.length) :=
  followingFrom_eq_map h fun k hk => absurd hk (Nat.not_lt_zero k)

theorem count_eq_length_places (h : NoneOverlap needle text) :
    count needle text = (places needle text).length := by
  rw [count, following_eq_map h, List.length_map]

theorem noneOverlap_of_notMem {word : List Char} (h : c ∉ word) (text : List Char) :
    NoneOverlap (c :: word) text := by
  intro i j hij hi hj
  rcases Nat.lt_or_ge j (i + (c :: word).length) with hlt | hge
  · -- Both occurrences cover the place `j`: it is the first of one and a later one of the other.
    have hfirst : (text.drop j)[0]? = some c := (List.prefix_iff_getElem?.mp hj) 0 (by simp)
    have hlater := (List.prefix_iff_getElem?.mp hi) (j - i) (by omega)
    rw [List.getElem?_drop] at hfirst hlater
    have hsame : (c :: word)[j - i]? = some c := by
      rw [List.getElem?_eq_getElem (by omega), ← hlater, ← hfirst]
      congr 1
      omega
    obtain ⟨k, hk⟩ : ∃ k, j - i = k + 1 := ⟨j - i - 1, by omega⟩
    rw [hk, List.getElem?_cons_succ] at hsame
    exact absurd (List.mem_of_getElem? hsame) h
  · exact hge

end StyleCheck.Text
