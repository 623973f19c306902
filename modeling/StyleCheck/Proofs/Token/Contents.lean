import StyleCheck.Proofs.Token.Coverage
import StyleCheck.Proofs.Token.Origins

namespace StyleCheck.Token

variable {source : List Char} {tokens : List Token} {before : List (List Char)}
  {head cs : List Char} {c : Char}

def byteAfter (before : List (List Char)) (head : List Char) : Nat :=
  Text.width before.flatten + Text.width head

theorem InLine.offset_eq (h : InLine source before head cs) :
    Position.offset source ⟨before.length + 1, Text.width head⟩ = byteAfter before head :=
  h.offset _

theorem InLine.source_eq (h : InLine source before head (c :: cs)) :
    ∃ rest, source = (before.flatten ++ head) ++ c :: rest := by
  obtain ⟨after, hl⟩ := h
  refine ⟨cs ++ after.flatten, ?_⟩
  rw [← Text.flatten_lines source, hl]
  simp

theorem InLine.byteAfter_lt (h : InLine source before head (c :: cs)) :
    byteAfter before head < Text.width source := by
  obtain ⟨rest, hs⟩ := h.source_eq
  have hpos := c.utf8Size_pos
  rw [hs, byteAfter]
  simp only [Text.width_append, Text.width]
  omega

theorem InLine.suffix {before' : List (List Char)} {head' cs' : List Char}
    (h : InLine source before head (c :: cs)) (h' : InLine source before' head' cs')
    (hle : byteAfter before' head' ≤ byteAfter before head)
    (hlt : byteAfter before head < byteAfter before' head' + Text.width cs') :
    before' = before ∧ ∃ m, head = head' ++ m ∧ cs' = m ++ c :: cs := by
  obtain ⟨after, hl⟩ := h
  obtain ⟨after', hl'⟩ := h'
  have hpos := c.utf8Size_pos
  unfold byteAfter at hle hlt
  have hlength : before.length = before'.length := by
    rcases Nat.lt_trichotomy before.length before'.length with hlen | hlen | hlen
    · have := Position.offset_of_line_lt hl
        (p := ⟨before'.length + 1, Text.width head'⟩) (Nat.succ_lt_succ hlen)
      rw [Position.offset_of_lines hl'] at this
      simp only [Text.width_append, Text.width] at this
      omega
    · exact hlen
    · have := Position.offset_of_line_lt hl'
        (p := ⟨before.length + 1, Text.width head⟩) (Nat.succ_lt_succ hlen)
      rw [Position.offset_of_lines hl] at this
      simp only [Text.width_append] at this
      omega
  obtain ⟨rfl, hrest⟩ := List.append_inj (hl.symm.trans hl') hlength
  have hline : head ++ c :: cs = head' ++ (cs' ++ []) := by
    rw [List.append_nil]
    exact (List.cons.inj hrest).1
  obtain ⟨m, n, rfl, rfl, rfl⟩ := Text.exists_split_of_width hline (by omega) (by omega)
  exact ⟨rfl, m, rfl, by rw [List.append_nil]⟩

def isCode (t : Token) : Bool :=
  t.kind ∈ [Kind.name, .number, .string, .op, .comment]

inductive Contents (source : List Char) (t : Token) : Prop
  | code (hk : t.isCode = true) (h : t.kind ≠ .string → ∀ c ∈ t.text, isLineEnd c = false)
  | lineBreak {before : List (List Char)} {head : List Char} (hk : t.kind = .newline ∨ t.kind = .nl)
      (hl : InLine source before head t.text) (he : startsWith isLineEnd t.text = true)
      (hs : t.start = ⟨before.length + 1, Text.width head⟩)
  | margin (hk : t.kind = .indent) (h : ∀ c ∈ t.text, isMargin c = true)
  | empty (h : t.text = [])

theorem Origin.contents {t : Token} (h : Origin source t) : Contents source t := by
  cases h with
  | lexeme hl h ht =>
    subst ht
    apply Contents.code
    · rcases kind_of_lexeme h with rfl | rfl | rfl | rfl | rfl <;> rfl
    · exact isLineEnd_of_mem_text h
  | closing hk => exact .code (by simp [isCode, hk]) (fun hne => absurd hk hne)
  | comment hk h => exact .code (by simp [isCode, hk]) (fun _ => h)
  | lineBreak hk hl he hs => exact .lineBreak hk hl he hs
  | margin hk h => exact .margin hk h
  | empty _ h => exact .empty h

structure Accounts (source : List Char) (tokens : List Token) : Prop where
  contents : ∀ t ∈ tokens, Contents source t
  disjoint : tokens.Pairwise fun t u => ∀ i, ¬ (t.Covers source i ∧ u.Covers source i)
  spelled : ∀ t ∈ tokens, t.text ≠ [] → ∃ before after, source = before ++ (t.text ++ after) ∧
    t.start.offset source = Text.width before ∧
    t.stop.offset source = Text.width before + Text.width t.text
  text_ne_nil : ∀ t ∈ tokens, ∀ i < Text.width source, t.Covers source i → t.text ≠ []
  untiled : ∀ i < Text.width source, (∀ t ∈ tokens, ¬ t.Covers source i) →
    ∃ p text, Untiled source tokens p text ∧ p.offset source ≤ i ∧
      i < p.offset source + Text.width text

theorem accounts_of_tokenize (h : tokenize source = .ok tokens) : Accounts source tokens := by
  have horigin := origin_of_tokenize h
  obtain ⟨read, s, final, hread, hfinal, rfl⟩ := tokenize_eq_ok_iff.mp h
  obtain ⟨hp, hc⟩ := closing_of_finish hfinal
  have ht := tiled_of_linesStep hread hp
  have hstart : Position.offset source ⟨1, 0⟩ = 0 := by simp [Position.offset, Text.width]
  have hempty := text_of_finish hfinal
  refine ⟨fun t hm => (horigin t hm).contents, (tilesSource_append ht hc).disjoint, ?_, ?_, ?_⟩
  · refine List.forall_mem_append.mpr ⟨?_, fun t hm hne => absurd (hempty t hm) hne⟩
    intro t hm _
    obtain ⟨before, after, hs, ho⟩ := ht.text_of_mem hm
    have hstop := (ht.placed hm).offset_stop
    rw [List.append_assoc] at hs
    exact ⟨before, after, hs, by omega, by omega⟩
  · refine List.forall_mem_append.mpr ⟨?_, ?_⟩
    · rintro t hm i - ⟨hle, hlt⟩ htext
      have hstop := (ht.placed hm).offset_stop
      rw [htext, Text.width] at hstop
      omega
    · rintro t hm i hi ⟨hle, -⟩
      rw [hc.offset_start t hm] at hle
      omega
  · intro i hi hn
    have hs : source = [] ++ (source ++ []) := by simp
    obtain ⟨hnread, -⟩ := List.forall_mem_append.mp hn
    obtain ⟨p, text, hu, -, hbounds⟩ := ht.exists_gap hs hstart (by omega) (by omega) hnread
    refine ⟨p, text, ⟨hu.gap, hu.spelled, ?_⟩, hbounds⟩
    refine List.forall_mem_append.mpr ⟨hu.apart, ?_⟩
    -- The tokens of the end come after the gap, which is in the source.
    intro t hm
    right
    obtain ⟨before, after, hsource, hbefore⟩ := hu.spelled
    have hw := congrArg Text.width hsource
    rw [Text.width_append, Text.width_append] at hw
    rw [hc.offset_start t hm]
    omega

structure Joins (source : List Char) (tokens : List Token) (before : List (List Char))
    (head tail : List Char) : Prop where
  inLine : InLine source before head ('\\' :: tail)
  isLineEnd : startsWith isLineEnd tail = true
  bare : ∀ i, byteAfter before head ≤ i → i < byteAfter before head + Text.width ('\\' :: tail) →
    ∀ t ∈ tokens, ¬ t.Covers source i

namespace Accounts

variable (h : Accounts source tokens)
include h

theorem mem_text (hl : InLine source before head (c :: cs)) {t : Token} (ht : t ∈ tokens)
    (hcov : t.Covers source (byteAfter before head)) : c ∈ t.text := by
  obtain ⟨rest, hs⟩ := hl.source_eq
  have hne := h.text_ne_nil t ht _ hl.byteAfter_lt hcov
  obtain ⟨before', after', hs', hstart, hstop⟩ := h.spelled t ht hne
  obtain ⟨hle, hlt⟩ := hcov
  rw [hstart, byteAfter, ← Text.width_append] at hle
  rw [hstop, byteAfter, ← Text.width_append] at hlt
  obtain ⟨m, n, -, htext, -⟩ := Text.exists_split_of_width (hs.symm.trans hs') hle hlt
  rw [htext]
  exact List.mem_append_right m List.mem_cons_self

theorem cases_of_lineBreak {t : Token} (ht : t ∈ tokens) (hk : t.kind = .newline ∨ t.kind = .nl) :
    t.text = [] ∨ ∃ before head, InLine source before head t.text ∧
      startsWith isLineEnd t.text = true ∧ t.start.offset source = byteAfter before head ∧
      t.stop.offset source = byteAfter before head + Text.width t.text := by
  cases h.contents t ht with
  | code hcode => rcases hk with hk | hk <;> simp [isCode, hk] at hcode
  | margin hindent =>
    rw [hindent] at hk
    rcases hk with hk | hk <;> cases hk
  | empty hempty => exact .inl hempty
  | @lineBreak before head _ hl he hs =>
    have hne : t.text ≠ [] := by
      intro hnil
      rw [hnil] at he
      cases he
    obtain ⟨_, _, _, hstart, hstop⟩ := h.spelled t ht hne
    have hplace := hl.offset_eq
    rw [← hs] at hplace
    exact .inr ⟨before, head, hl, he, hplace, by omega⟩

theorem suffix_of_lineBreak (hl : InLine source before head (c :: cs)) {t : Token} (ht : t ∈ tokens)
    (hk : t.kind = .newline ∨ t.kind = .nl) (hcov : t.Covers source (byteAfter before head)) :
    ∃ m, t.text = m ++ c :: cs := by
  have hmem := h.mem_text hl ht hcov
  cases h.cases_of_lineBreak ht hk with
  | inl hempty =>
    rw [hempty] at hmem
    cases hmem
  | inr hbreak =>
    obtain ⟨before', head', hl', -, hstart, hstop⟩ := hbreak
    obtain ⟨hle, hlt⟩ := hcov
    rw [hstart] at hle
    rw [hstop] at hlt
    obtain ⟨-, m, -, htext⟩ := hl.suffix hl' hle hlt
    exact ⟨m, htext⟩

theorem exists_joins (hl : InLine source before head (c :: cs)) (hm : isMargin c = false)
    (hn : ∀ t ∈ tokens, ¬ t.Covers source (byteAfter before head)) :
    ∃ head' tail m, Joins source tokens before head' tail ∧ head = head' ++ m ∧
      '\\' :: tail = m ++ c :: cs := by
  obtain ⟨p, text, ⟨hg, ⟨first, last, hs, hp⟩, hapart⟩, hle, hlt⟩ := h.untiled _ hl.byteAfter_lt hn
  cases hg with
  | none =>
    simp only [Text.width] at hlt
    omega
  | @blank _ d hd =>
    obtain ⟨rest, hs'⟩ := hl.source_eq
    rw [hp, byteAfter, ← Text.width_append] at hle hlt
    obtain ⟨m, n, -, hc, -⟩ := Text.exists_split_of_width (hs'.symm.trans hs) hle hlt
    have hmem : c ∈ [d] := by
      rw [hc]
      exact List.mem_append_right m List.mem_cons_self
    rw [List.mem_singleton.mp hmem, hd] at hm
    cases hm
  | @joined before' after' head' tail hl' ht =>
    have hin : InLine source before' head' ('\\' :: tail) := ⟨after', hl'⟩
    simp only [hin.offset_eq] at hle hlt hapart
    obtain ⟨rfl, m, hhead, htail⟩ := hl.suffix hin hle hlt
    refine ⟨head', tail, m, ⟨hin, ht, ?_⟩, hhead, htail⟩
    rintro i hi hi' t htm ⟨hstart, hstop⟩
    cases hapart t htm with
    | inl hapart => omega
    | inr hapart => omega

theorem covers_or_joins (hl : InLine source before head (c :: cs)) (hm : isMargin c = false) :
    (∃ t ∈ tokens, t.Covers source (byteAfter before head) ∧ c ∈ t.text) ∨
      ∃ head' tail m, Joins source tokens before head' tail ∧ '\\' :: tail = m ++ c :: cs := by
  by_cases hcov : ∃ t ∈ tokens, t.Covers source (byteAfter before head)
  · obtain ⟨t, ht, hcov⟩ := hcov
    exact .inl ⟨t, ht, hcov, h.mem_text hl ht hcov⟩
  · obtain ⟨head', tail, m, hj, -, htail⟩ :=
      h.exists_joins hl hm fun t ht hti => hcov ⟨t, ht, hti⟩
    exact .inr ⟨head', tail, m, hj, htail⟩

end Accounts

end StyleCheck.Token
