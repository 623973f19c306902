import StyleCheck.Text.Occurrence

namespace StyleCheck.Text

variable {needle text : List Char} {skip : Nat}

theorem following_ne_nil (hn : needle ≠ []) (h : needle <:+: text) : following needle text ≠ [] := by
  unfold following
  induction text with
  | nil => exact absurd (List.infix_nil.mp h) hn
  | cons c cs ih =>
    rw [followingFrom]
    split
    · exact List.cons_ne_nil _ _
    · rename_i hc
      rcases List.infix_cons_iff.mp h with h | h
      · exact absurd (List.isPrefixOf_iff_prefix.mpr h) hc
      · exact ih h

theorem exists_length_replaceFrom (needle : List Char) (skip : Nat) (text : List Char) :
    ∃ kept, ∀ value, (replaceFrom needle value skip text).length =
      kept + (followingFrom needle skip text).length * value.length := by
  fun_induction followingFrom needle skip text with
  | case1 skip => exact ⟨0, fun value => by rw [replaceFrom]; simp⟩
  | case2 skip c cs ih => exact ih
  | case3 c cs hc ih =>
    obtain ⟨kept, ih⟩ := ih
    refine ⟨kept, ?_⟩
    intro value
    rw [replaceFrom, if_pos hc, List.length_append, ih, List.length_cons, Nat.succ_mul]
    omega
  | case4 c cs hc ih =>
    obtain ⟨kept, ih⟩ := ih
    refine ⟨kept + 1, ?_⟩
    intro value
    rw [replaceFrom, if_neg hc, List.length_cons, ih, Nat.add_right_comm]

theorem eq_of_replaceFrom_of_length {a b : List Char} (hlength : a.length = b.length)
    (hplace : followingFrom needle skip text ≠ [])
    (h : replaceFrom needle a skip text = replaceFrom needle b skip text) : a = b := by
  fun_induction followingFrom needle skip text with
  | case1 skip => exact absurd rfl hplace
  | case2 skip c cs ih => exact ih hplace h
  | case3 c cs hc ih =>
    rw [replaceFrom, if_pos hc, replaceFrom, if_pos hc] at h
    exact (List.append_inj h hlength).1
  | case4 c cs hc ih =>
    rw [replaceFrom, if_neg hc, replaceFrom, if_neg hc] at h
    exact ih hplace (List.cons.inj h).2

theorem replace_injective (hn : needle ≠ []) (h : needle <:+: text) {a b : List Char}
    (hab : replace needle a text = replace needle b text) : a = b := by
  have hplace := following_ne_nil hn h
  obtain ⟨kept, hkept⟩ := exists_length_replaceFrom needle 0 text
  have hlength := congrArg List.length hab
  rw [replace, replace, hkept, hkept] at hlength
  have hsame := Nat.eq_of_mul_eq_mul_left (List.length_pos_iff.mpr hplace)
    (Nat.add_left_cancel hlength)
  exact eq_of_replaceFrom_of_length hsame hplace hab

end StyleCheck.Text
