import StyleCheck.Text.Lines

namespace StyleCheck.Text

def pieces (cs : List Char) : List (List Char) :=
  cs.splitOn '\n'

theorem isFeed_eq_false {body : List Char} (h : '\n' ∉ body) : ∀ c ∈ body, (c == '\n') = false :=
  fun _ hc => beq_false_of_ne (ne_of_mem_of_not_mem hc h)

theorem pieces_of_notMem {body : List Char} (h : '\n' ∉ body) : pieces body = [body] :=
  List.splitOnP_eq_singleton (isFeed_eq_false h)

theorem pieces_append {body : List Char} (h : '\n' ∉ body) (rest : List Char) :
    pieces (body ++ '\n' :: rest) = body :: pieces rest :=
  List.splitOnP_append_cons_of_forall_mem (isFeed_eq_false h) '\n' (beq_self_eq_true '\n') rest

theorem lines_of_notMem {body : List Char} (h : '\n' ∉ body) :
    lines body = if body = [] then [] else [body] := by
  induction body with
  | nil => rfl
  | cons c body ih =>
    have hc : c ≠ '\n' := (List.ne_of_not_mem_cons h).symm
    rw [lines, if_neg hc, ih (List.not_mem_of_not_mem_cons h)]
    cases body <;> rfl

theorem lines_append_feed {body : List Char} (h : '\n' ∉ body) (rest : List Char) :
    lines (body ++ '\n' :: rest) = (body ++ ['\n']) :: lines rest := by
  have hbody : lines (body ++ ['\n']) = [body ++ ['\n']] := by
    induction body with
    | nil => rfl
    | cons c body ih =>
      have hc : c ≠ '\n' := (List.ne_of_not_mem_cons h).symm
      rw [List.cons_append, lines, if_neg hc, ih (List.not_mem_of_not_mem_cons h)]
  have hend : body ++ ['\n'] = [] ∨ (body ++ ['\n']).getLast? = some '\n' :=
    .inr List.getLast?_concat
  rw [← List.singleton_append, ← List.append_assoc, lines_append hend, hbody]
  rfl

theorem pieces_induction {motive : List Char → Prop}
    (last : ∀ body, '\n' ∉ body → motive body)
    (feed : ∀ body rest, '\n' ∉ body → motive rest → motive (body ++ '\n' :: rest))
    (cs : List Char) : motive cs := by
  by_cases h : '\n' ∈ cs
  · obtain ⟨body, rest, hcs, hbody⟩ := List.eq_append_cons_of_mem h
    have hshorter : rest.length < cs.length := by
      rw [hcs, List.length_append, List.length_cons]
      omega
    rw [hcs]
    exact feed body rest hbody (pieces_induction last feed rest)
  · exact last cs h
termination_by cs.length

end StyleCheck.Text
