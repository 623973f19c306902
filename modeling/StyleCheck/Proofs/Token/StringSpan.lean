import StyleCheck.Proofs.Token.LexemeText
import StyleCheck.Proofs.Token.LineNumbers
import StyleCheck.Proofs.Token.TiledReading

namespace StyleCheck.Token

/-- A string ends on the line on which it begins, or takes the rest of that line, all of some lines,
and the start of the one on which it is closed. -/
inductive StringSpan (source : List Char) (t : Token) : Prop
  | within {before : List (List Char)} {head cs : List Char} {c : Char} {extra : Nat}
      (hl : InLine source before head (c :: cs)) (h : lexeme c cs = .token .string extra)
      (ht : t = onLine (before.length + 1) (Text.width head) .string (c :: cs.take extra)) :
      StringSpan source t
  | across {before inner after : List (List Char)} {head cs close last : List Char} {c : Char}
      {n : Nat} (hl : Text.lines source = before ++ (head ++ c :: cs) :: (inner ++ last :: after))
      (h : lexeme c cs = .opening close) (hi : ∀ line ∈ inner, closing? close line = none)
      (hn : closing? close last = some n)
      (ht : t = ⟨.string, c :: cs ++ inner.flatten ++ last.take n,
        ⟨before.length + 1, Text.width head⟩,
        ⟨before.length + 1 + inner.length + 1, Text.width (last.take n)⟩⟩) :
      StringSpan source t

def State.OpenedIn (lines : List (List Char)) (s : State) : Prop :=
  ∀ start close text, s.pending = .string start close text →
    ∃ before inner head c cs, lines = before ++ (head ++ c :: cs) :: inner ∧
      lexeme c cs = .opening close ∧ (∀ line ∈ inner, closing? close line = none) ∧
      start = ⟨before.length + 1, Text.width head⟩ ∧ text = c :: cs ++ inner.flatten

theorem State.openedIn_of_ne {s : State} {lines : List (List Char)}
    (h : ∀ start close text, s.pending ≠ .string start close text) : s.OpenedIn lines := by
  intro start close text hp
  exact absurd hp (h start close text)

variable {source : List Char} {before : List (List Char)} {tokens : List Token} {s s' : State}

theorem Scanned.stringSpan {column : Nat} {head cs : List Char}
    (h : Scanned (before.length + 1) column cs s tokens s') (hl : InLine source before head cs)
    (hcol : column = Text.width head)
    (hs : ∀ start close text, s.pending ≠ .string start close text) :
    (∀ t ∈ tokens, t.kind = .string → StringSpan source t) ∧
      s'.OpenedIn (before ++ [head ++ cs]) := by
  induction h generalizing head with
  | nil => exact ⟨by simp, State.openedIn_of_ne hs⟩
  | @blank column c cs s s' tokens _ _ ih =>
    have hrest := ih (hl.step [c]) (by simp [hcol, Text.width]) hs
    rwa [List.append_assoc] at hrest
  | @token column c cs s s' tokens kind extra h _ ih =>
    have hc : c :: cs = (c :: cs.take extra) ++ cs.drop extra := by simp
    have hrest := ih (InLine.step _ (hc ▸ hl)) (by simp [hcol]) hs
    rw [List.append_assoc, ← hc] at hrest
    refine ⟨List.forall_mem_cons.mpr ⟨?_, hrest.1⟩, hrest.2⟩
    rintro rfl
    exact .within hl h (by rw [hcol])
  | @opening column c cs s close h =>
    refine ⟨by simp, ?_⟩
    intro start close text hp
    cases hp
    exact ⟨before, [], head, c, cs, rfl, h, by simp, by rw [hcol], by simp⟩
  | @lineEnd column c cs s h =>
    refine ⟨?_, State.openedIn_of_ne hs⟩
    rw [List.forall_mem_singleton]
    intro hk
    have hbreak := s.breakKind_cases
    rw [show s.breakKind = .string from hk] at hbreak
    simp at hbreak
  | join => exact ⟨by simp, State.openedIn_of_ne (by simp)⟩

theorem LineRead.stringSpan {cs : List Char} {after : List (List Char)}
    (h : LineRead (before.length + 1) cs s tokens s')
    (hl : Text.lines source = before ++ cs :: after) (hs : s.OpenedIn before) :
    (∀ t ∈ tokens, t.kind = .string → StringSpan source t) ∧ s'.OpenedIn (before ++ [cs]) := by
  have hin : InLine source before [] cs := ⟨after, hl⟩
  have hbody : InLine source before (margin cs) (body cs) := ⟨after, by rw [margin_append_body, hl]⟩
  cases h with
  | @closing start close text n tokens s' hp hn rest =>
    have hcs : cs = cs.take n ++ cs.drop n := (List.take_append_drop n cs).symm
    have hrest := rest.stringSpan (InLine.step _ (hcs ▸ hin)) rfl (by simp)
    rw [List.nil_append, List.take_append_drop] at hrest
    refine ⟨List.forall_mem_cons.mpr ⟨fun _ => ?_, hrest.1⟩, hrest.2⟩
    obtain ⟨first, inner, head, c, rest, rfl, hlex, hinner, rfl, rfl⟩ := hs _ _ _ hp
    refine .across (by simpa using hl) hlex hinner hn ?_
    simp [Nat.add_assoc, Nat.add_comm 1]
  | @inside start close text hp hn =>
    refine ⟨by simp, ?_⟩
    intro _ _ _ hp'
    cases hp'
    obtain ⟨first, inner, head, c, rest, rfl, hlex, hinner, rfl, rfl⟩ := hs _ _ _ hp
    refine ⟨first, inner ++ [cs], head, c, rest, by simp, hlex, ?_, rfl, by simp⟩
    intro line hline
    rcases List.mem_append.mp hline with hline | hline
    · exact hinner line hline
    · rw [List.mem_singleton.mp hline, hn]
  | joined hp rest => exact rest.stringSpan hin rfl (by simp)
  | nested hp _ rest => exact rest.stringSpan hin rfl (by simp [hp])
  | blank hp _ _ rest =>
    refine ⟨fun t ht hk => ?_, ?_⟩
    · have hkind := (of_mem_blankLine rest ht).2
      simp [hk] at hkind
    · obtain ⟨_, _, _, _, rfl⟩ := blankLine_eq_ok rest
      exact State.openedIn_of_ne (by simp [hp])
  | fresh hp _ _ hi rest =>
    have hrest := rest.stringSpan hbody rfl (by simp [hi.pending, hp])
    rw [margin_append_body] at hrest
    refine ⟨List.forall_mem_append.mpr ⟨?_, hrest.1⟩, hrest.2⟩
    intro t ht hk
    have hkind := (hi.of_mem ht).2
    simp [hk] at hkind

theorem LinesRead.stringSpan {line : Nat} {lines after : List (List Char)}
    (h : LinesRead line lines s tokens s') (hline : line = before.length + 1)
    (hl : Text.lines source = before ++ (lines ++ after)) (hs : s.OpenedIn before) :
    (∀ t ∈ tokens, t.kind = .string → StringSpan source t) ∧ s'.OpenedIn (before ++ lines) := by
  induction h generalizing before with
  | nil =>
    rw [List.append_nil]
    exact ⟨by simp, hs⟩
  | @cons line cs rest s s' s'' tokens others head tail ih =>
    subst hline
    obtain ⟨hfirst, hopened⟩ := head.stringSpan hl hs
    have hl' : Text.lines source = (before ++ [cs]) ++ (rest ++ after) := by simpa using hl
    have hrest := ih (by simp) hl' hopened
    rw [List.append_assoc] at hrest
    exact ⟨List.forall_mem_append.mpr ⟨hfirst, hrest.1⟩, hrest.2⟩

theorem stringSpan_of_tokenize (h : tokenize source = .ok tokens) {t : Token} (ht : t ∈ tokens)
    (hk : t.kind = .string) : StringSpan source t := by
  obtain ⟨read, s, final, hread, hfinal, rfl⟩ := tokenize_eq_ok_iff.mp h
  rcases List.mem_append.mp ht with ht | ht
  · have hl : Text.lines source = [] ++ (Text.lines source ++ []) := by simp
    have hstart : State.start.OpenedIn [] := State.openedIn_of_ne (by simp [State.start])
    exact ((linesRead_of_linesStep hread).stringSpan rfl hl hstart).1 t ht hk
  · have hkind := kind_of_finish hfinal t ht
    simp [hk] at hkind

end StyleCheck.Token
