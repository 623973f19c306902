namespace StyleCheck.Text

def lines : List Char → List (List Char)
  | [] => []
  | c :: cs =>
    if c = '\n' then [c] :: lines cs
    else match lines cs with
      | [] => [[c]]
      | line :: rest => (c :: line) :: rest

theorem flatten_lines (cs : List Char) : (lines cs).flatten = cs := by
  induction cs with
  | nil => rfl
  | cons c cs ih =>
    by_cases h : c = '\n'
    · simp [lines, h, ih]
    · cases hl : lines cs with
      | nil => simp_all [lines]
      | cons line rest => simp_all [lines]

theorem lines_append {a : List Char} (h : a = [] ∨ a.getLast? = some '\n') (b : List Char) :
    lines (a ++ b) = lines a ++ lines b := by
  induction a with
  | nil => simp [lines]
  | cons c cs ih =>
    by_cases hc : c = '\n'
    · have hcs : cs = [] ∨ cs.getLast? = some '\n' := by
        cases cs with
        | nil => exact .inl rfl
        | cons d cs => exact .inr (by simpa [List.getLast?_cons_cons] using h)
      simp [lines, hc, ih hcs]
    · cases cs with
      | nil => simp [hc] at h
      | cons d cs =>
        have hd : (d :: cs).getLast? = some '\n' := by simpa [List.getLast?_cons_cons] using h
        have hl : lines (d :: cs) ≠ [] := by
          intro hl
          have := flatten_lines (d :: cs)
          simp [hl] at this
        obtain ⟨line, rest, hr⟩ := List.exists_cons_of_ne_nil hl
        rw [List.cons_append, lines, lines, ih (.inr hd), hr]
        simp [hc]

theorem nil_notMem_lines (cs : List Char) : [] ∉ lines cs := by
  induction cs with
  | nil => simp [lines]
  | cons c cs ih =>
    by_cases h : c = '\n'
    · simp [lines, h, ih]
    · cases hl : lines cs with
      | nil => simp [lines, h, hl]
      | cons line rest =>
        rw [hl] at ih
        simp_all [lines]

theorem getLast?_of_mem_dropLast_lines (cs : List Char) :
    ∀ line ∈ (lines cs).dropLast, line.getLast? = some '\n' := by
  induction cs with
  | nil => simp [lines]
  | cons c cs ih =>
    by_cases h : c = '\n'
    · cases hl : lines cs with
      | nil => simp [lines, h, hl]
      | cons line rest =>
        rw [hl] at ih
        simp only [lines, h, if_true, hl, List.dropLast_cons_cons]
        exact List.forall_mem_cons.2 ⟨rfl, ih⟩
    · cases hl : lines cs with
      | nil => simp [lines, h, hl]
      | cons line rest =>
        rw [hl] at ih
        simp only [lines, h, if_false, hl]
        cases rest with
        | nil => simp
        | cons next rest =>
          rw [List.dropLast_cons_cons] at ih ⊢
          obtain ⟨hline, hrest⟩ := List.forall_mem_cons.1 ih
          refine List.forall_mem_cons.2 ⟨?_, hrest⟩
          rw [List.getLast?_cons, hline]
          rfl

theorem exists_body_of_mem_lines {cs line : List Char} (h : line ∈ lines cs) :
    ∃ body, '\n' ∉ body ∧ (line = body ∨ line = body ++ ['\n']) := by
  induction cs generalizing line with
  | nil => simp [lines] at h
  | cons c cs ih =>
    by_cases hc : c = '\n'
    · rw [lines, if_pos hc] at h
      cases List.mem_cons.mp h with
      | inl h => exact ⟨[], List.not_mem_nil, .inr (by rw [h, hc]; rfl)⟩
      | inr h => exact ih h
    · rw [lines, if_neg hc] at h
      cases hl : lines cs with
      | nil =>
        rw [hl] at h
        refine ⟨[c], ?_, .inl (List.mem_singleton.mp h)⟩
        simpa using Ne.symm hc
      | cons first rest =>
        rw [hl] at h ih
        cases List.mem_cons.mp h with
        | inl h =>
          obtain ⟨body, hbody, hfirst⟩ := ih List.mem_cons_self
          refine ⟨c :: body, ?_, ?_⟩
          · exact List.not_mem_cons_of_ne_of_not_mem (Ne.symm hc) hbody
          · rw [h]
            exact hfirst.imp (congrArg (List.cons c)) (congrArg (List.cons c))
        | inr h => exact ih (List.mem_cons_of_mem first h)

theorem getLast?_of_mem_lines {cs line : List Char} (h : cs = [] ∨ cs.getLast? = some '\n')
    (hl : line ∈ lines cs) : line.getLast? = some '\n' := by
  obtain ⟨init, last, hlines⟩ : ∃ init last, lines cs = init ++ [last] :=
    ⟨_, _, (List.dropLast_concat_getLast (List.ne_nil_of_mem hl)).symm⟩
  have hne : last ≠ [] := by
    rintro rfl
    apply nil_notMem_lines cs
    simp [hlines]
  have hcs : cs = init.flatten ++ last := by
    rw [← flatten_lines cs, hlines]
    simp
  have hlast : last.getLast? = some '\n' := by
    rw [hcs, List.getLast?_append, List.getLast?_eq_some_getLast hne] at h
    rw [List.getLast?_eq_some_getLast hne]
    simpa [hne] using h
  rw [hlines] at hl
  cases List.mem_append.mp hl with
  | inl hl =>
    apply getLast?_of_mem_dropLast_lines cs
    simpa [hlines] using hl
  | inr hl =>
    rw [List.mem_singleton.mp hl]
    exact hlast

theorem length_lines {cs : List Char} (h : cs = [] ∨ cs.getLast? = some '\n') :
    (lines cs).length = cs.count '\n' := by
  have hone : ∀ line ∈ lines cs, line.count '\n' = 1 := by
    intro line hl
    have hend := getLast?_of_mem_lines h hl
    obtain ⟨body, hbody, rfl | rfl⟩ := exists_body_of_mem_lines hl
    · exact absurd (List.mem_of_getLast? hend) hbody
    · rw [List.count_append, List.count_eq_zero.mpr hbody]
      rfl
  calc (lines cs).length = ((lines cs).map fun _ => 1).sum := by
        rw [List.map_const', List.sum_replicate_nat, Nat.mul_one]
    _ = ((lines cs).map (List.count '\n')).sum := by rw [List.map_congr_left hone]
    _ = cs.count '\n' := by rw [← List.count_flatten, flatten_lines]

def width : List Char → Nat
  | [] => 0
  | c :: cs => c.utf8Size + width cs

@[simp] theorem width_append (a b : List Char) : width (a ++ b) = width a + width b := by
  induction a with
  | nil => simp [width]
  | cons c a ih => simp [width, ih, Nat.add_assoc]

def dropBytes (n : Nat) : List Char → List Char
  | [] => []
  | c :: cs => if c.utf8Size ≤ n then dropBytes (n - c.utf8Size) cs else c :: cs

def takeBytes (n : Nat) : List Char → List Char
  | [] => []
  | c :: cs => if c.utf8Size ≤ n then c :: takeBytes (n - c.utf8Size) cs else []

def slice (start stop : Nat) (cs : List Char) : List Char :=
  takeBytes (stop - start) (dropBytes start cs)

theorem length_le_width (cs : List Char) : cs.length ≤ width cs := by
  induction cs with
  | nil => simp [width]
  | cons c cs ih =>
    have := c.utf8Size_pos
    simp [width]
    omega

end StyleCheck.Text
