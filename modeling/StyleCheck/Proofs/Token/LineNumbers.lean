import StyleCheck.Proofs.Token.Parallel
import StyleCheck.Proofs.Token.Reading

namespace StyleCheck.Token

variable {line : Nat} {cs : List Char} {tokens : List Token} {s s' : State} {t : Token}

theorem exists_lineRead {before : List (List Char)}
    (h : linesStep 1 (before ++ [cs]) .start = .ok (tokens, s')) :
    ∃ read s here, linesStep 1 before .start = .ok (read, s) ∧
      LineRead (before.length + 1) cs s here s' ∧ tokens = read ++ here := by
  rw [linesStep_append, Step.append_eq_ok_iff] at h
  obtain ⟨read, s, others, hread, hothers, rfl⟩ := h
  rw [Nat.add_comm 1] at hothers
  cases linesRead_of_linesStep hothers with
  | @cons _ _ _ _ s₁ _ here _ head tail =>
    cases tail
    exact ⟨read, s, here, hread, head, by rw [List.append_nil]⟩

theorem exists_reading {source : List Char} {before after : List (List Char)}
    (h : tokenize source = .ok tokens) (hl : Text.lines source = before ++ after) :
    ∃ read s others s' final, linesStep 1 before .start = .ok (read, s) ∧
      LinesRead (before.length + 1) after s others s' ∧
      finish (Text.lines source).length ((Text.lines source).getLast?.getD []) s' = .ok final ∧
      tokens = read ++ (others ++ final) := by
  obtain ⟨_, s', final, hall, hfinal, rfl⟩ := tokenize_eq_ok_iff.mp h
  rw [hl, linesStep_append, Step.append_eq_ok_iff] at hall
  obtain ⟨read, s, others, hread, hothers, rfl⟩ := hall
  rw [Nat.add_comm 1] at hothers
  exact ⟨read, s, others, s', final, hread, linesRead_of_linesStep hothers, hfinal,
    List.append_assoc _ _ _⟩

theorem Scanned.start_line {column : Nat} (h : Scanned line column cs s tokens s') :
    ∀ t ∈ tokens, t.start.line = line := by
  induction h with
  | nil | opening | join => simp
  | blank _ _ ih => exact ih
  | token _ _ ih => exact List.forall_mem_cons.mpr ⟨rfl, ih⟩
  | lineEnd => exact List.forall_mem_singleton.mpr rfl

theorem Scanned.stop_line {column : Nat} (h : Scanned line column cs s tokens s') :
    ∀ t ∈ tokens, t.stop.line = line := by
  induction h with
  | nil | opening | join => simp
  | blank _ _ ih => exact ih
  | token _ _ ih => exact List.forall_mem_cons.mpr ⟨rfl, ih⟩
  | lineEnd => exact List.forall_mem_singleton.mpr rfl

theorem Indented.stop_line {m : List Char} (h : Indented line m s tokens s') (ht : t ∈ tokens) :
    t.stop.line = line := by
  cases h with
  | deeper => rw [List.mem_singleton.mp ht, onLine]
  | level => rw [List.eq_of_mem_replicate ht, onLine]

theorem Indented.of_mem {m : List Char} (h : Indented line m s tokens s') (ht : t ∈ tokens) :
    t.start.line = line ∧ t.kind ∈ [Kind.indent, .dedent] := by
  cases h with
  | deeper => simp [List.mem_singleton.mp ht, onLine]
  | level => simp [List.eq_of_mem_replicate ht, onLine]

theorem of_mem_blankLine {column : Nat} (h : blankLine line column cs s = .ok (tokens, s'))
    (ht : t ∈ tokens) : t.start.line = line ∧ t.kind ∈ [Kind.comment, .nl] := by
  obtain ⟨comment, ending, -, rfl, -⟩ := blankLine_eq_ok h
  rcases List.mem_append.mp ht with ht | ht
  all_goals
    split at ht
    · cases ht
    · simp [List.mem_singleton.mp ht, onLine]

theorem stop_line_of_mem_blankLine {column : Nat}
    (h : blankLine line column cs s = .ok (tokens, s')) (ht : t ∈ tokens) : t.stop.line = line := by
  obtain ⟨comment, ending, -, rfl, -⟩ := blankLine_eq_ok h
  rcases List.mem_append.mp ht with ht | ht
  all_goals
    split at ht
    · cases ht
    · rw [List.mem_singleton.mp ht, onLine]

theorem LineRead.stop_line (h : LineRead line cs s tokens s') (ht : t ∈ tokens) :
    t.stop.line = line := by
  cases h with
  | closing _ _ rest =>
    rcases List.mem_cons.mp ht with rfl | ht
    · rfl
    · exact rest.stop_line t ht
  | inside => cases ht
  | joined _ rest | nested _ _ rest => exact rest.stop_line t ht
  | blank _ _ _ rest => exact stop_line_of_mem_blankLine rest ht
  | fresh _ _ _ hi rest =>
    rcases List.mem_append.mp ht with ht | ht
    · exact hi.stop_line ht
    · exact rest.stop_line t ht

theorem LinesRead.stop_line {lines : List (List Char)} (h : LinesRead line lines s tokens s')
    (ht : t ∈ tokens) : t.stop.line < line + lines.length := by
  induction h with
  | nil => cases ht
  | @cons line cs rest s s' s'' tokens others head tail ih =>
    rw [List.length_cons]
    rcases List.mem_append.mp ht with ht | ht
    · have hline := head.stop_line ht
      omega
    · have hlater := ih ht
      omega

theorem LineRead.start_line (h : LineRead line cs s tokens s') (ht : t ∈ tokens)
    (hk : t.kind ≠ .string) : t.start.line = line := by
  cases h with
  | closing _ _ rest =>
    rcases List.mem_cons.mp ht with rfl | ht
    · exact absurd rfl hk
    · exact rest.start_line t ht
  | inside => cases ht
  | joined _ rest | nested _ _ rest => exact rest.start_line t ht
  | blank _ _ _ rest => exact (of_mem_blankLine rest ht).1
  | fresh _ _ _ hi rest =>
    rcases List.mem_append.mp ht with ht | ht
    · exact (hi.of_mem ht).1
    · exact rest.start_line t ht

theorem LinesRead.start_line {lines : List (List Char)} (h : LinesRead line lines s tokens s')
    (ht : t ∈ tokens) (hk : t.kind ≠ .string) :
    line ≤ t.start.line ∧ t.start.line < line + lines.length := by
  induction h with
  | nil => cases ht
  | @cons line cs rest s s' s'' tokens others head tail ih =>
    rw [List.length_cons]
    rcases List.mem_append.mp ht with ht | ht
    · have hline := head.start_line ht hk
      omega
    · have hlater := ih ht
      omega

theorem kind_of_finish {last : List Char} {final : List Token}
    (h : finish line last s = .ok final) :
    ∀ t ∈ final, t.kind ∈ [Kind.newline, .dedent, .endMarker] := by
  obtain ⟨-, -, rfl⟩ := finish_eq_ok_iff.mp h
  simp only [List.mem_append, or_imp, forall_and, List.forall_mem_singleton]
  refine ⟨⟨?_, ?_⟩, by simp [onLine]⟩
  · intro t ht
    unfold impliedBreak at ht
    split at ht
    · cases ht
    · simp [List.mem_singleton.mp ht]
  · intro t ht
    simp [List.eq_of_mem_replicate ht, onLine]

theorem start_line_of_finish {last : List Char} {final : List Token}
    (h : finish line last s = .ok final) :
    ∀ t ∈ final, t.start.line = if t.kind = .newline then line else line + 1 := by
  obtain ⟨-, -, rfl⟩ := finish_eq_ok_iff.mp h
  simp only [List.mem_append, or_imp, forall_and, List.forall_mem_singleton]
  refine ⟨⟨?_, ?_⟩, rfl⟩
  · intro t ht
    unfold impliedBreak at ht
    split at ht
    · cases ht
    · rw [List.mem_singleton.mp ht, if_pos rfl]
  · intro t ht
    rw [List.eq_of_mem_replicate ht]
    rfl

end StyleCheck.Token
