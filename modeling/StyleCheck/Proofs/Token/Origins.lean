import StyleCheck.Proofs.Token.LexemeText
import StyleCheck.Proofs.Token.LineNumbers
import StyleCheck.Proofs.Token.TiledReading

namespace StyleCheck.Token

inductive Origin (source : List Char) (t : Token) : Prop
  | lexeme {before : List (List Char)} {head cs : List Char} {c : Char} {kind : Kind} {extra : Nat}
      (hl : InLine source before head (c :: cs)) (h : lexeme c cs = .token kind extra)
      (ht : t = onLine (before.length + 1) (Text.width head) kind (c :: cs.take extra))
  | closing (hk : t.kind = .string)
  | comment (hk : t.kind = .comment) (h : ∀ c ∈ t.text, isLineEnd c = false)
  | lineBreak {before : List (List Char)} {head : List Char} (hk : t.kind = .newline ∨ t.kind = .nl)
      (hl : InLine source before head t.text) (he : startsWith isLineEnd t.text = true)
      (hs : t.start = ⟨before.length + 1, Text.width head⟩)
  | margin (hk : t.kind = .indent) (h : ∀ c ∈ t.text, isMargin c = true)
  | empty (hk : t.kind ∈ [Kind.newline, .dedent, .endMarker]) (h : t.text = [])

variable {source head cs : List Char} {before : List (List Char)} {tokens : List Token} {s s' : State}

theorem Scanned.origin {column : Nat} (h : Scanned (before.length + 1) column cs s tokens s')
    (hl : InLine source before head cs) (hcol : column = Text.width head) :
    ∀ t ∈ tokens, Origin source t := by
  induction h generalizing head with
  | nil | opening | join => simp
  | @blank column c cs s s' tokens _ _ ih => exact ih (hl.step [c]) (by simp [hcol, Text.width])
  | @token column c cs s s' tokens kind extra h _ ih =>
    have hc : c :: cs = (c :: cs.take extra) ++ cs.drop extra := by simp
    refine List.forall_mem_cons.mpr ⟨.lexeme hl h (by rw [hcol]), ?_⟩
    exact ih (InLine.step _ (hc ▸ hl)) (by simp [hcol])
  | @lineEnd column c cs s h =>
    have hend : isLineEnd c = true := isLineEnd_of_lexeme h
    refine List.forall_mem_singleton.mpr (.lineBreak s.breakKind_cases hl hend ?_)
    rw [hcol]
    rfl

theorem origin_blankLine
    (h : blankLine (before.length + 1) (Text.width head) cs s = .ok (tokens, s'))
    (hl : InLine source before head cs) : ∀ t ∈ tokens, Origin source t := by
  simp only [blankLine, Except.ok.injEq, Prod.mk.injEq] at h
  obtain ⟨rfl, -⟩ := h
  have hcs : cs = cs.takeWhile (!isLineEnd ·) ++ cs.dropWhile (!isLineEnd ·) :=
    List.takeWhile_append_dropWhile.symm
  have hending : cs.drop (cs.takeWhile (!isLineEnd ·)).length = cs.dropWhile (!isLineEnd ·) :=
    drop_commentLength cs
  rw [hending]
  refine List.forall_mem_append.mpr ⟨?_, ?_⟩
  · intro t ht
    split at ht
    · cases ht
    · rw [List.mem_singleton.mp ht]
      refine .comment rfl fun c hc => ?_
      simpa using List.all_eq_true.mp List.all_takeWhile c hc
  · intro t ht
    split at ht
    · cases ht
    · rename_i hne
      rw [List.mem_singleton.mp ht]
      refine .lineBreak (.inr rfl) (InLine.step _ (hcs ▸ hl)) (startsWith_dropWhile hne) ?_
      rw [Text.width_append]

theorem Indented.origin {line : Nat} {m : List Char} (h : Indented line m s tokens s')
    (hm : ∀ c ∈ m, isMargin c = true) : ∀ t ∈ tokens, Origin source t := by
  cases h with
  | deeper => exact List.forall_mem_singleton.mpr (.margin rfl hm)
  | level =>
    intro t ht
    rw [List.eq_of_mem_replicate ht]
    exact .empty (by simp [onLine]) rfl

theorem LineRead.origin (h : LineRead (before.length + 1) cs s tokens s')
    (hl : InLine source before [] cs) : ∀ t ∈ tokens, Origin source t := by
  have hbody : InLine source before (margin cs) (body cs) := by
    rw [← margin_append_body cs] at hl
    exact hl.step (margin cs)
  cases h with
  | @closing start close text n tokens s' hp hn rest =>
    rw [← List.take_append_drop n cs] at hl
    exact List.forall_mem_cons.mpr ⟨.closing rfl, rest.origin (hl.step (cs.take n)) rfl⟩
  | inside => simp
  | joined _ rest => exact rest.origin hl rfl
  | nested _ _ rest => exact rest.origin hl rfl
  | blank _ _ _ rest => exact origin_blankLine rest hbody
  | fresh _ _ _ hi rest =>
    exact List.forall_mem_append.mpr ⟨hi.origin (margin_isMargin cs), rest.origin hbody rfl⟩

theorem LinesRead.origin {line : Nat} {lines after : List (List Char)}
    (h : LinesRead line lines s tokens s') (hn : line = before.length + 1)
    (hl : Text.lines source = before ++ (lines ++ after)) : ∀ t ∈ tokens, Origin source t := by
  induction h generalizing before with
  | nil => simp
  | @cons line cs rest s s' s'' tokens others first _ ih =>
    subst hn
    have hl' : Text.lines source = (before ++ [cs]) ++ (rest ++ after) := by
      rw [hl, List.append_assoc]
      rfl
    exact List.forall_mem_append.mpr ⟨first.origin ⟨rest ++ after, hl⟩, ih (by simp) hl'⟩

theorem text_of_finish {line : Nat} {last : List Char} {final : List Token}
    (h : finish line last s = .ok final) : ∀ t ∈ final, t.text = [] := by
  obtain ⟨-, -, rfl⟩ := finish_eq_ok_iff.mp h
  intro t ht
  simp only [impliedBreak, List.mem_append, List.mem_replicate, List.mem_singleton] at ht
  rcases ht with (ht | ⟨-, rfl⟩) | rfl
  · split at ht
    · cases ht
    · rw [List.mem_singleton.mp ht]
  · rfl
  · rfl

theorem origin_of_tokenize (h : tokenize source = .ok tokens) : ∀ t ∈ tokens, Origin source t := by
  obtain ⟨read, s, final, hread, hfinal, rfl⟩ := tokenize_eq_ok_iff.mp h
  have hl : Text.lines source = [] ++ (Text.lines source ++ []) := by simp
  refine List.forall_mem_append.mpr ⟨(linesRead_of_linesStep hread).origin rfl hl, ?_⟩
  exact fun t ht => .empty (kind_of_finish hfinal t ht) (text_of_finish hfinal t ht)

end StyleCheck.Token
