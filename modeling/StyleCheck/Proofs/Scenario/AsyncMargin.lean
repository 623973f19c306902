import StyleCheck.Proofs.Margin.LineByLine
import StyleCheck.Proofs.Scenario.AsyncStatements

/-!
The asynchronous mode used twice, and the mode beside the margin. The word that it puts in changes
neither the brackets that a line leaves open nor the indentation of the line, so that every line is
met as it was before.
-/

namespace StyleCheck

namespace Mode

open Text Margin

variable {line margin start text : List Char} {ls : List (List Char)}

section Depth

def marks : List Char :=
  ['\'', '"', '#', '(', '[', '{', ')', ']', '}']

theorem bracketDepth_append (h : ∀ c ∈ start, c ∉ marks) (depth : Nat) (rest : List Char) :
    bracketDepth depth (start ++ rest) = bracketDepth depth rest := by
  induction start with
  | nil => rfl
  | cons c start ih =>
    obtain ⟨hc, hstart⟩ := List.forall_mem_cons.mp h
    have hstep : bracketDepth depth (c :: (start ++ rest)) = bracketDepth depth (start ++ rest) := by
      simp only [marks, List.mem_cons, List.not_mem_nil, or_false, not_or] at hc
      simp [bracketDepth, depthFrom, hc]
    rw [List.cons_append, hstep, ih hstart]

theorem notMem_marks_of_blank (h : isBlankLine start = true) : ∀ c ∈ start, c ∉ marks := by
  intro c hc hmark
  have hall : ∀ d ∈ marks, (!isBlank d) = true := List.all_eq_true.mp rfl
  have hvisible := hall c hmark
  rw [isBlankLine_iff.mp h c hc] at hvisible
  cases hvisible

theorem bracketDepth_blank_append (h : isBlankLine start = true) (depth : Nat)
    (rest : List Char) : bracketDepth depth (start ++ rest) = bracketDepth depth rest :=
  bracketDepth_append (notMem_marks_of_blank h) depth rest

theorem bracketDepth_of_blank (h : isBlankLine line = true) (depth : Nat) :
    bracketDepth depth line = depth := by
  have hall := bracketDepth_blank_append h depth []
  rwa [List.append_nil] at hall

end Depth

section Line

theorem asyncLine_of_blank (h : isBlankLine line = true) (depth : Nat) :
    asyncLine depth line = line := by
  refine if_neg ?_
  rintro ⟨-, hkeyword⟩
  rw [trimStart_eq_nil_iff.mpr (isBlankLine_iff.mp h)] at hkeyword
  cases hkeyword

theorem asyncLine_cases (depth : Nat) (line : List Char) : asyncLine depth line = line ∨
    isBlankLine line = false ∧
      asyncLine depth line = indentation line ++ (asyncWord ++ trimStart line) := by
  cases hline : isBlankLine line with
  | true => exact .inl (asyncLine_of_blank hline depth)
  | false =>
    unfold asyncLine
    dsimp only
    split
    · rw [List.append_assoc]
      exact .inr ⟨rfl, rfl⟩
    · exact .inl rfl

theorem asyncLine_append (h : isBlankLine start = true) (depth : Nat) (rest : List Char) :
    asyncLine depth (start ++ rest) = start ++ asyncLine depth rest := by
  have htrim : trimStart (start ++ rest) = trimStart rest :=
    List.dropWhile_append_of_pos (isBlankLine_iff.mp h)
  have htake : (start ++ rest).takeWhile isBlank = start ++ rest.takeWhile isBlank :=
    indentation_append h rest
  unfold asyncLine
  dsimp only
  rw [htrim, htake]
  split
  · simp only [List.append_assoc]
  · rfl

theorem isBlankLine_asyncLine (depth : Nat) (line : List Char) :
    isBlankLine (asyncLine depth line) = isBlankLine line := by
  rcases asyncLine_cases depth line with h | ⟨hline, h⟩
  · rw [h]
  · have hword : isBlankLine asyncWord = false := by decide
    rw [h, hline, isBlankLine_append, isBlankLine_append, hword, Bool.false_and, Bool.and_false]

theorem indentations_asyncLine (depth : Nat) (line : List Char) :
    indentations (asyncLine depth line) = indentations line := by
  rcases asyncLine_cases depth line with h | ⟨hline, h⟩
  · rw [h]
  · have hleft := isBlankLine_asyncLine depth line
    rw [hline] at hleft
    have hword : indentation (asyncWord ++ trimStart line) = [] := rfl
    rw [indentations_of_visible hleft, indentations_of_visible hline, h,
      indentation_append (isBlankLine_indentation line), hword, List.append_nil]

theorem bracketDepth_asyncLine (depth from' : Nat) (line : List Char) :
    bracketDepth from' (asyncLine depth line) = bracketDepth from' line := by
  rcases asyncLine_cases depth line with h | ⟨-, h⟩
  · rw [h]
  · have hword : ∀ c ∈ asyncWord, c ∉ marks := by simp [marks, asyncWord]
    calc bracketDepth from' (asyncLine depth line)
        = bracketDepth from' (trimStart line) := by
          rw [h, bracketDepth_blank_append (isBlankLine_indentation line),
            bracketDepth_append hword]
      _ = bracketDepth from' (indentation line ++ trimStart line) :=
          (bracketDepth_blank_append (isBlankLine_indentation line) from' _).symm
      _ = bracketDepth from' line := by rw [indentation_append_trimStart]

theorem asyncLine_asyncLine (depth : Nat) (line : List Char) :
    asyncLine depth (asyncLine depth line) = asyncLine depth line := by
  rcases asyncLine_cases depth line with h | ⟨-, h⟩
  · rw [h, h]
  · have hword : asyncLine depth (asyncWord ++ trimStart line) = asyncWord ++ trimStart line := by
      refine if_neg ?_
      rintro ⟨-, hkeyword⟩
      cases hkeyword
    rw [h, asyncLine_append (isBlankLine_indentation line), hword]

theorem endsAlike_asyncLine (hl : line ∈ lines text) (depth : Nat) :
    EndsAlike line (asyncLine depth line) := by
  obtain ⟨body, hbody, hend⟩ := exists_body_of_mem_lines hl
  have hword : '\n' ∉ indentation body ++ (asyncWord ++ trimStart body) := by
    have hsame : '\n' ∉ indentation body ++ trimStart body := by
      rwa [indentation_append_trimStart]
    simp only [List.mem_append, not_or] at hsame ⊢
    exact ⟨hsame.1, by decide, hsame.2⟩
  rcases asyncLine_cases depth line with h | ⟨hline, h⟩
  · rw [h]
    rcases hend with rfl | rfl
    · exact .last hbody hbody
    · exact .feed hbody hbody
  · rw [h]
    rcases hend with rfl | rfl
    · exact .last hbody hword
    · have hvisible : isBlankLine body = false := by
        rwa [isBlankLine_append, show isBlankLine ['\n'] = true from rfl, Bool.and_true] at hline
      have hindent := indentation_append_of_visible hvisible ['\n']
      have htrim : trimStart (body ++ ['\n']) = trimStart body ++ ['\n'] := by
        refine List.append_cancel_left (?_ : indentation body ++ _ = indentation body ++ _)
        rw [← List.append_assoc, indentation_append_trimStart, ← hindent,
          indentation_append_trimStart]
      rw [hindent, htrim, ← List.append_assoc asyncWord, ← List.append_assoc]
      exact .feed hbody hword

end Line

section Lines

theorem length_asyncLines (depth : Nat) (ls : List (List Char)) :
    (asyncLines depth ls).length = ls.length := by
  induction ls generalizing depth with
  | nil => rfl
  | cons line ls ih => rw [asyncLines, List.length_cons, List.length_cons, ih]

theorem foldl_bracketDepth_asyncLines (depth from' n : Nat) (ls : List (List Char)) :
    ((asyncLines depth ls).take n).foldl bracketDepth from' =
      (ls.take n).foldl bracketDepth from' := by
  induction ls generalizing depth from' n with
  | nil => rfl
  | cons line ls ih =>
    cases n with
    | zero => rfl
    | succ n =>
      rw [asyncLines, List.take_succ_cons, List.take_succ_cons, List.foldl_cons, List.foldl_cons,
        bracketDepth_asyncLine, ih]

theorem asyncLines_asyncLines (depth : Nat) (ls : List (List Char)) :
    asyncLines depth (asyncLines depth ls) = asyncLines depth ls := by
  induction ls generalizing depth with
  | nil => rfl
  | cons line ls ih =>
    rw [asyncLines, asyncLines, bracketDepth_asyncLine, asyncLine_asyncLine, ih]

theorem flatMap_indentations_asyncLines (depth : Nat) (ls : List (List Char)) :
    (asyncLines depth ls).flatMap indentations = ls.flatMap indentations := by
  induction ls generalizing depth with
  | nil => rfl
  | cons line ls ih =>
    rw [asyncLines, List.flatMap_cons, List.flatMap_cons, indentations_asyncLine, ih]

theorem nil_notMem_asyncLines (h : [] ∉ ls) (depth : Nat) : [] ∉ asyncLines depth ls := by
  induction ls generalizing depth with
  | nil => exact List.not_mem_nil
  | cons line ls ih =>
    obtain ⟨hline, hls⟩ := List.ne_and_not_mem_of_not_mem_cons h
    refine List.not_mem_cons_of_ne_of_not_mem ?_ (ih hls _)
    rcases asyncLine_cases depth line with hsame | ⟨-, hword⟩
    · rwa [hsame]
    · rw [hword]
      simp [asyncWord]

theorem endsAlike_asyncLines (h : ∀ line ∈ ls, line ∈ lines text) (depth : Nat) :
    List.Forall₂ EndsAlike ls (asyncLines depth ls) := by
  induction ls generalizing depth with
  | nil => exact .nil
  | cons line ls ih =>
    obtain ⟨hline, hls⟩ := List.forall_mem_cons.mp h
    exact .cons (endsAlike_asyncLine hline depth) (ih hls _)

theorem lines_apply (text : List Char) :
    lines (Mode.async.apply text) = asyncLines 0 (lines text) :=
  lines_flatten (endsAlike_asyncLines (fun _ => id) 0)
    (nil_notMem_asyncLines (nil_notMem_lines text) 0)

theorem apply_apply (text : List Char) :
    Mode.async.apply (Mode.async.apply text) = Mode.async.apply text := by
  rw [apply, lines_apply, asyncLines_asyncLines]
  rfl

end Lines

section Dedent

theorem margin?_apply (text : List Char) : margin? (Mode.async.apply text) = margin? text := by
  rw [margin?_eq, margin?_eq, lines_apply, flatMap_indentations_asyncLines]

theorem asyncLine_withoutMargin (h : IsMarginOf margin line) (depth : Nat) :
    asyncLine depth (withoutMargin margin line) = withoutMargin margin (asyncLine depth line) := by
  have hleft := h.isBlankLine_withoutMargin
  cases hline : isBlankLine line with
  | true =>
    rw [hline] at hleft
    rw [asyncLine_of_blank hleft, asyncLine_of_blank hline]
  | false =>
    have hafter := isBlankLine_asyncLine depth line
    rw [hline] at hafter
    have hsplit : asyncLine depth line = margin ++ asyncLine depth (withoutMargin margin line) := by
      rw [← asyncLine_append (h.isBlankLine_margin hline), h.append_withoutMargin hline]
    rw [withoutMargin_of_visible hafter, hsplit, List.drop_left]

theorem bracketDepth_withoutMargin (h : IsMarginOf margin line) (depth : Nat) :
    bracketDepth depth (withoutMargin margin line) = bracketDepth depth line := by
  have hleft := h.isBlankLine_withoutMargin
  cases hline : isBlankLine line with
  | true =>
    rw [hline] at hleft
    rw [bracketDepth_of_blank hleft, bracketDepth_of_blank hline]
  | false =>
    rw [← bracketDepth_blank_append (h.isBlankLine_margin hline), h.append_withoutMargin hline]

theorem asyncLines_map_withoutMargin (h : ∀ line ∈ ls, IsMarginOf margin line) (depth : Nat) :
    asyncLines depth (ls.map (withoutMargin margin)) =
      (asyncLines depth ls).map (withoutMargin margin) := by
  induction ls generalizing depth with
  | nil => rfl
  | cons line ls ih =>
    obtain ⟨hline, hls⟩ := List.forall_mem_cons.mp h
    rw [List.map_cons, asyncLines, asyncLines, List.map_cons, asyncLine_withoutMargin hline,
      bracketDepth_withoutMargin hline, ih hls]

theorem asyncLines_replicate_nil (depth n : Nat) :
    asyncLines depth (List.replicate n []) = List.replicate n [] := by
  induction n with
  | zero => rfl
  | succ n ih =>
    rw [List.replicate_succ, asyncLines, asyncLine_of_blank rfl]
    exact congrArg ([] :: ·) ih

theorem flatten_asyncLines_append (depth n : Nat) (ls : List (List Char)) :
    (asyncLines depth (ls ++ List.replicate n [])).flatten = (asyncLines depth ls).flatten := by
  induction ls generalizing depth with
  | nil =>
    rw [List.nil_append, asyncLines_replicate_nil, List.flatten_replicate_nil]
    rfl
  | cons line ls ih =>
    rw [List.cons_append, asyncLines, asyncLines, List.flatten_cons, ih, List.flatten_cons]

theorem dedent?_apply (text : List Char) :
    dedent? (Mode.async.apply text) = (dedent? text).map Mode.async.apply := by
  rw [dedent?, dedent?, margin?_apply, lines_apply, Option.map_map]
  cases hm : margin? text with
  | none => rfl
  | some margin =>
    obtain ⟨n, hn⟩ := exists_lines_flatten (endsAlike_map_withoutMargin hm)
    have happly : Mode.async.apply ((lines text).flatMap (withoutMargin margin)) =
        (asyncLines 0 (lines text)).flatMap (withoutMargin margin) := by
      rw [List.flatMap_def, List.flatMap_def, apply, ← flatten_asyncLines_append 0 n, hn,
        asyncLines_map_withoutMargin fun line hl => isMarginOf_of_mem_lines hm hl]
    exact congrArg some happly.symm

end Dedent

/-- The mode does nothing the second time, and it may be used before the margin is taken off or
after. -/
theorem async_idempotent_beside_dedent? (text : List Char) :
    Mode.async.apply (Mode.async.apply text) = Mode.async.apply text ∧
    (lines (Mode.async.apply text)).length = (lines text).length ∧
    (∀ n, ((lines (Mode.async.apply text)).take n).foldl bracketDepth 0 =
      ((lines text).take n).foldl bracketDepth 0) ∧
    dedent? (Mode.async.apply text) = (dedent? text).map Mode.async.apply := by
  refine ⟨apply_apply text, ?_, fun n => ?_, dedent?_apply text⟩
  · rw [lines_apply, length_asyncLines]
  · rw [lines_apply, foldl_bracketDepth_asyncLines]

end Mode

end StyleCheck
