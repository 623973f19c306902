import StyleCheck.Proofs.Text.Insertion
import StyleCheck.Proofs.Token.StatementStart
import StyleCheck.Scenario.Mode

namespace StyleCheck.Mode

open Text Token

def lineOffsets (depth n : Nat) (line : List Char) : List Nat :=
  if depth = 0 ∧ startsWithKeyword (trimStart line) then [n + width (line.takeWhile isBlank)]
  else []

def asyncOffsets (depth n : Nat) : List (List Char) → List Nat
  | [] => []
  | line :: rest =>
    lineOffsets depth n line ++ asyncOffsets (bracketDepth depth line) (n + width line) rest

theorem takeWhile_append_trimStart (line : List Char) :
    line.takeWhile isBlank ++ trimStart line = line :=
  List.takeWhile_append_dropWhile

theorem inserted_asyncLine (depth n : Nat) (line : List Char) :
    Inserted asyncWord n line (lineOffsets depth n line) (asyncLine depth line) := by
  simp only [lineOffsets, asyncLine]
  split
  case isTrue =>
    have hbody : Inserted asyncWord (n + width (line.takeWhile isBlank)) (trimStart line)
        [n + width (line.takeWhile isBlank)] (asyncWord ++ trimStart line) :=
      .insert (inserted_nowhere _ _) rfl
    have hline := (inserted_nowhere n (line.takeWhile isBlank)).append hbody
    rw [takeWhile_append_trimStart, List.nil_append, ← List.append_assoc] at hline
    exact hline
  case isFalse => exact inserted_nowhere n line

theorem inserted_asyncLines (depth n : Nat) (lines : List (List Char)) :
    Inserted asyncWord n lines.flatten (asyncOffsets depth n lines)
      (asyncLines depth lines).flatten := by
  induction lines generalizing depth n with
  | nil => exact .nil
  | cons line rest ih =>
    exact (inserted_asyncLine depth n line).append (ih (bracketDepth depth line) (n + width line))

theorem inserted_apply (source : List Char) :
    Inserted asyncWord 0 source (asyncOffsets 0 0 (lines source)) (Mode.async.apply source) := by
  have hlines := inserted_asyncLines 0 0 (lines source)
  rwa [flatten_lines] at hlines

def Rewritten (source : List Char) (before : List (List Char)) (line : List Char) : Prop :=
  ∃ after, lines source = before ++ line :: after ∧ before.foldl bracketDepth 0 = 0 ∧
    startsWithKeyword (trimStart line) = true

theorem mem_asyncOffsets_iff {depth n o : Nat} {lines : List (List Char)} :
    o ∈ asyncOffsets depth n lines ↔ ∃ before line after, lines = before ++ line :: after ∧
      before.foldl bracketDepth depth = 0 ∧ startsWithKeyword (trimStart line) = true ∧
      o = n + width before.flatten + width (line.takeWhile isBlank) := by
  induction lines generalizing depth n with
  | nil => simp [asyncOffsets]
  | cons line rest ih =>
    rw [asyncOffsets, List.mem_append, ih]
    constructor
    · rintro (ho | ⟨before, other, after, rfl, hdepth, hkeyword, rfl⟩)
      · unfold lineOffsets at ho
        split at ho
        case isTrue h => exact ⟨[], line, rest, rfl, h.1, h.2, by simpa [width] using ho⟩
        case isFalse => cases ho
      · refine ⟨line :: before, other, after, rfl, hdepth, hkeyword, ?_⟩
        rw [List.flatten_cons, width_append, ← Nat.add_assoc]
    · rintro ⟨before, other, after, heq, hdepth, hkeyword, rfl⟩
      cases before with
      | nil =>
        cases heq
        left
        rw [lineOffsets, if_pos ⟨hdepth, hkeyword⟩]
        simp [width]
      | cons first before =>
        cases heq
        right
        refine ⟨before, other, after, rfl, hdepth, hkeyword, ?_⟩
        rw [List.flatten_cons, width_append, ← Nat.add_assoc]

theorem isWord_of_mem_keywords {word : List Char} {next : Char} (h : word ∈ keywords)
    (hnext : next = ' ' ∨ next = '\t') : IsWord word next := by
  have hend : isNameChar next = false ∧ isQuote next = false := by
    rcases hnext with rfl | rfl <;> decide
  simp only [keywords, List.mem_cons, List.not_mem_nil, or_false] at h
  rcases h with rfl | rfl | rfl
  all_goals exact ⟨⟨_, _, rfl, rfl⟩, List.all_eq_true.mp rfl, hend.1, hend.2⟩

theorem exists_keyword {body : List Char} (h : startsWithKeyword body = true) :
    ∃ word ∈ keywords, ∃ next tail, IsWord word next ∧ body = word ++ next :: tail := by
  obtain ⟨word, hword, hbody⟩ := List.any_eq_true.mp h
  simp only [Bool.or_eq_true, List.isPrefixOf_iff_prefix] at hbody
  rcases hbody with ⟨tail, rfl⟩ | ⟨tail, rfl⟩
  · exact ⟨word, hword, ' ', tail, isWord_of_mem_keywords hword (.inl rfl), by simp⟩
  · exact ⟨word, hword, '\t', tail, isWord_of_mem_keywords hword (.inr rfl), by simp⟩

/-- The text is changed only by the word put in at some places, and at each begins a statement. -/
def AsyncOnStatements (source : List Char) (tokens : List Token) : Prop :=
  ∃ offsets, Inserted asyncWord 0 source offsets (Mode.async.apply source) ∧
    ∀ o ∈ offsets, LeadsStatement keywords source tokens o

theorem leadsStatement_iff_of_rewritten {source : List Char} {tokens : List Token}
    {before : List (List Char)} {line : List Char} (h : tokenize source = .ok tokens)
    (hline : Rewritten source before line) :
    LeadsStatement keywords source tokens
        (width before.flatten + width (line.takeWhile isBlank)) ↔
      StatementMayFollow before ∧ ∀ c ∈ line.takeWhile isBlank, isMargin c = true := by
  obtain ⟨after, hl, -, hkeyword⟩ := hline
  obtain ⟨word, hword, next, tail, hw, hbody⟩ := exists_keyword hkeyword
  rw [← takeWhile_append_trimStart line, hbody] at hl
  exact leadsStatement_iff h hl (List.all_eq_true.mp List.all_takeWhile) hw hword (by decide)

theorem avoids_of_starts {source : List Char} {offsets : List Nat}
    (h : ∀ o ∈ offsets, ∃ before word after, source = before ++ (word ++ after) ∧
      width before = o ∧ word ∈ keywords) : Avoids 'a' 0 source offsets := by
  rintro o ho before after hsource hwidth
  obtain ⟨before', word, after', hsource', rfl, hword⟩ := h o ho
  rw [Nat.zero_add] at hwidth
  obtain ⟨-, htail⟩ := append_inj_of_width (hsource'.symm.trans hsource) hwidth
  simp only [keywords, List.mem_cons, List.not_mem_nil, or_false] at hword
  rcases hword with rfl | rfl | rfl <;> cases htail

theorem avoids_asyncOffsets (source : List Char) :
    Avoids 'a' 0 source (asyncOffsets 0 0 (lines source)) := by
  refine avoids_of_starts fun o ho => ?_
  obtain ⟨before, line, after, hl, -, hkeyword, rfl⟩ := mem_asyncOffsets_iff.mp ho
  obtain ⟨word, hword, next, tail, -, hbody⟩ := exists_keyword hkeyword
  have hline : line = line.takeWhile isBlank ++ (word ++ next :: tail) := by
    rw [← hbody, takeWhile_append_trimStart]
  have hsource : source = before.flatten ++ (line ++ after.flatten) := by
    rw [← List.flatten_cons, ← List.flatten_append, ← hl, flatten_lines]
  refine ⟨before.flatten ++ line.takeWhile isBlank, word, next :: tail ++ after.flatten, ?_, ?_,
    hword⟩
  · conv => lhs; rw [hsource, hline]
    simp
  · rw [width_append, Nat.zero_add]

theorem avoids_of_leadsStatement {source : List Char} {tokens : List Token} {offsets : List Nat}
    (h : tokenize source = .ok tokens)
    (ho : ∀ o ∈ offsets, LeadsStatement keywords source tokens o) :
    Avoids 'a' 0 source offsets := by
  refine avoids_of_starts fun o hmem => ?_
  obtain ⟨before, t, after, ht, hkind, htext, hstart, -⟩ := (ho o hmem).leads
  obtain ⟨first, last, hsource, hwidth⟩ := exists_text_of_name h (by simp [ht]) hkind
  exact ⟨first, t.text, last, hsource, hwidth.trans hstart, htext⟩

theorem async_on_statements_iff {source : List Char} {tokens : List Token}
    (h : tokenize source = .ok tokens) :
    (∃ offsets, Inserted asyncWord 0 source offsets (Mode.async.apply source)) ∧
      (AsyncOnStatements source tokens ↔ ∀ before line, Rewritten source before line →
        StatementMayFollow before ∧ ∀ c ∈ line.takeWhile isBlank, isMargin c = true) := by
  refine ⟨⟨_, inserted_apply source⟩, ?_, ?_⟩
  · rintro ⟨offsets, hinserted, hleads⟩ before line hline
    have hsame : offsets = asyncOffsets 0 0 (lines source) :=
      hinserted.unique (inserted_apply source) (avoids_of_leadsStatement h hleads)
        (avoids_asyncOffsets source)
    subst hsame
    rw [← leadsStatement_iff_of_rewritten h hline]
    obtain ⟨after, hl, hdepth, hkeyword⟩ := hline
    apply hleads
    rw [mem_asyncOffsets_iff]
    exact ⟨before, line, after, hl, hdepth, hkeyword, by rw [Nat.zero_add]⟩
  · intro hlines
    refine ⟨asyncOffsets 0 0 (lines source), inserted_apply source, fun o ho => ?_⟩
    obtain ⟨before, line, after, hl, hdepth, hkeyword, rfl⟩ := mem_asyncOffsets_iff.mp ho
    have hline : Rewritten source before line := ⟨after, hl, hdepth, hkeyword⟩
    rw [Nat.zero_add, leadsStatement_iff_of_rewritten h hline]
    exact hlines before line hline

theorem async_on_statements_after_expression : ∃ tokens,
    tokenize "x\n def f(): 0".toList = .ok tokens ∧
      AsyncOnStatements "x\n def f(): 0".toList tokens := by
  refine ⟨_, rfl, (async_on_statements_iff rfl).2.mpr ?_⟩
  rintro before line ⟨after, hl, -, hkeyword⟩
  have hlines : lines "x\n def f(): 0".toList = ["x\n".toList, " def f(): 0".toList] := by rfl
  rw [hlines] at hl
  rcases List.cons_eq_append_iff.mp hl with ⟨rfl, heq⟩ | ⟨before, rfl, htail⟩
  · cases heq
    cases hkeyword
  · rcases List.cons_eq_append_iff.mp htail with ⟨rfl, heq⟩ | ⟨before, rfl, hnil⟩
    · cases heq
      refine ⟨⟨_, _, rfl, ?_, .inr rfl⟩, List.all_eq_true.mp rfl⟩
      intro start close text hp
      cases hp
    · simp at hnil

theorem not_async_on_statements_in_string : ∃ tokens,
    tokenize "'''Checks\nfor duplicates.\n'''\n".toList = .ok tokens ∧
      ¬ AsyncOnStatements "'''Checks\nfor duplicates.\n'''\n".toList tokens := by
  obtain ⟨tokens, htokens, hkinds⟩ : ∃ tokens,
      tokenize "'''Checks\nfor duplicates.\n'''\n".toList = .ok tokens ∧
        tokens.map (·.kind) = [.string, .newline, .endMarker] := ⟨_, rfl, rfl⟩
  refine ⟨tokens, htokens, ?_⟩
  rintro ⟨offsets, hinserted, hleads⟩
  have hnone : offsets = [] := by
    rw [List.eq_nil_iff_forall_not_mem]
    intro o ho
    obtain ⟨before, t, after, ht, hkind, -⟩ := (hleads o ho).leads
    have hmem : Kind.name ∈ tokens.map (·.kind) := List.mem_map.mpr ⟨t, by simp [ht], hkind⟩
    rw [hkinds] at hmem
    simp at hmem
  subst hnone
  exact absurd hinserted.eq_of_nil (by decide)

end StyleCheck.Mode
