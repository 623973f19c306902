import StyleCheck.Token.Stream

namespace StyleCheck.Token

/-- What is open after some tokens: brackets, blocks, and a logical line. -/
structure Layout where
  depth : Nat
  blocks : Nat
  opened : Bool

namespace Layout

inductive Step (t : Token) : Layout → Layout → Prop
  | word {l : Layout} (h : t.kind = .name ∨ t.kind = .number ∨ t.kind = .string) :
      Step t l ⟨l.depth, l.blocks, true⟩
  | op {l : Layout} (h : t.kind = .op) : Step t l ⟨depthAfter l.depth t.text, l.blocks, true⟩
  | silent {l : Layout} (h : t.kind = .comment ∨ t.kind = .nl) : Step t l l
  | newline {n : Nat} {b : Bool} (h : t.kind = .newline) : Step t ⟨0, n, b⟩ ⟨0, n, false⟩
  | indent {n : Nat} (h : t.kind = .indent) : Step t ⟨0, n, false⟩ ⟨0, n + 1, false⟩
  | dedent {n : Nat} (h : t.kind = .dedent) : Step t ⟨0, n + 1, false⟩ ⟨0, n, false⟩

inductive Run : Layout → List Token → Layout → Prop
  | nil {l : Layout} : Run l [] l
  | cons {t : Token} {tokens : List Token} {l l' l'' : Layout} (head : Step t l l')
      (tail : Run l' tokens l'') : Run l (t :: tokens) l''

theorem Run.append {tokens others : List Token} {l l' l'' : Layout} (h : Run l tokens l')
    (h' : Run l' others l'') : Run l (tokens ++ others) l'' := by
  induction h with
  | nil => exact h'
  | cons head _ ih => exact .cons head (ih h')

theorem Run.snoc {tokens : List Token} {t : Token} {l l' l'' : Layout} (h : Run l tokens l')
    (hs : Step t l' l'') : Run l (tokens ++ [t]) l'' :=
  h.append (.cons hs .nil)

theorem Run.split {tokens others : List Token} {l l'' : Layout}
    (h : Run l (tokens ++ others) l'') : ∃ l', Run l tokens l' ∧ Run l' others l'' := by
  induction tokens generalizing l with
  | nil => exact ⟨l, .nil, h⟩
  | cons t tokens ih =>
    cases h with
    | cons head tail =>
      obtain ⟨l', hr, ho⟩ := ih tail
      exact ⟨l', .cons head hr, ho⟩

end Layout

def count (kind : Kind) (tokens : List Token) : Nat :=
  tokens.countP (·.kind == kind)

def opensBracket (t : Token) : Bool :=
  t.kind == .op && [['('], ['['], ['{']].contains t.text

def closesBracket (t : Token) : Bool :=
  t.kind == .op && [[')'], [']'], ['}']].contains t.text

def bracketStep (depth : Nat) (t : Token) : Nat :=
  if opensBracket t then depth + 1 else if closesBracket t then depth - 1 else depth

def bracketDepth (tokens : List Token) : Nat :=
  tokens.foldl bracketStep 0

def isLogical (t : Token) : Bool :=
  t.kind ∉ [Kind.comment, .nl, .indent, .dedent]

def lastLogical? (tokens : List Token) : Option Kind :=
  (tokens.filter isLogical).getLast?.map (·.kind)

theorem lastLogical?_cons (t : Token) (tokens : List Token) : lastLogical? (t :: tokens) =
    (lastLogical? tokens).or (if isLogical t then some t.kind else none) := by
  unfold lastLogical?
  by_cases h : isLogical t = true
  · rw [List.filter_cons_of_pos h, if_pos h, List.getLast?_cons]
    cases (tokens.filter isLogical).getLast? <;> rfl
  · rw [List.filter_cons_of_neg h, if_neg h, Option.or_none]

theorem depthAfter_eq (depth : Nat) (text : List Char) : depthAfter depth text =
    if text ∈ [['('], ['['], ['{']] then depth + 1
    else if text ∈ [[')'], [']'], ['}']] then depth - 1 else depth := by
  unfold depthAfter
  split <;> simp_all

theorem bracketStep_of_op {t : Token} (h : t.kind = .op) (depth : Nat) :
    bracketStep depth t = depthAfter depth t.text := by
  rw [depthAfter_eq]
  simp [bracketStep, opensBracket, closesBracket, h]

theorem bracketStep_of_not_op {t : Token} (h : t.kind ≠ .op) (depth : Nat) :
    bracketStep depth t = depth := by
  simp [bracketStep, opensBracket, closesBracket, h]

namespace Layout

variable {t : Token} {tokens : List Token} {l l' : Layout}

theorem Step.kind_ne (h : Step t l l') : t.kind ≠ .endMarker := by
  cases h with
  | word h => rcases h with h | h | h <;> simp [h]
  | silent h => rcases h with h | h <;> simp [h]
  | op h | newline h | indent h | dedent h => simp [h]

theorem Run.kind_ne (h : Run l tokens l') (t : Token) (ht : t ∈ tokens) : t.kind ≠ .endMarker := by
  induction h with
  | nil => simp at ht
  | cons head _ ih =>
    rcases List.mem_cons.1 ht with rfl | ht
    · exact head.kind_ne
    · exact ih ht

theorem Step.depth_eq (h : Step t l l') : l'.depth = bracketStep l.depth t := by
  cases h with
  | word h => rcases h with h | h | h <;> rw [bracketStep_of_not_op (by simp [h])]
  | op h => rw [bracketStep_of_op h]
  | silent h => rcases h with h | h <;> rw [bracketStep_of_not_op (by simp [h])]
  | newline h | indent h | dedent h => rw [bracketStep_of_not_op (by simp [h])]

theorem Run.depth_eq (h : Run l tokens l') : l'.depth = tokens.foldl bracketStep l.depth := by
  induction h with
  | nil => rfl
  | cons head _ ih => rw [ih, head.depth_eq, List.foldl_cons]

theorem Step.blocks_eq (h : Step t l l') : l.blocks + (if t.kind = .indent then 1 else 0) =
    l'.blocks + (if t.kind = .dedent then 1 else 0) := by
  cases h with
  | word h => rcases h with h | h | h <;> simp [h]
  | silent h => rcases h with h | h <;> simp [h]
  | op h | newline h | indent h | dedent h => simp [h]

theorem Run.blocks_eq (h : Run l tokens l') :
    l.blocks + count .indent tokens = l'.blocks + count .dedent tokens := by
  induction h with
  | nil => rfl
  | cons head _ ih =>
    have := head.blocks_eq
    simp only [count, List.countP_cons, beq_iff_eq] at ih ⊢
    omega

theorem Step.opened_eq (h : Step t l l') :
    l'.opened = if isLogical t then decide (t.kind ≠ .newline) else l.opened := by
  cases h with
  | word h => rcases h with h | h | h <;> simp [isLogical, h]
  | silent h => rcases h with h | h <;> simp [isLogical, h]
  | op h | newline h | indent h | dedent h => simp [isLogical, h]

theorem Run.opened_eq (h : Run l tokens l') :
    l'.opened = ((lastLogical? tokens).map (decide <| · ≠ .newline)).getD l.opened := by
  induction h with
  | nil => rfl
  | @cons t tokens l l' l'' head _ ih =>
    rw [ih, head.opened_eq, lastLogical?_cons]
    cases lastLogical? tokens with
    | some kind => rfl
    | none => by_cases h : isLogical t = true <;> simp [h]

theorem Run.newline_mem (h : Run l tokens l') (ho : l.opened = true) (hc : l'.opened = false) :
    ∃ t ∈ tokens, t.kind = .newline := by
  induction h with
  | nil => simp [ho] at hc
  | @cons t tokens l l' l'' head tail ih =>
    by_cases hn : t.kind = .newline
    · exact ⟨t, List.mem_cons_self, hn⟩
    · have : l'.opened = true := by
        rw [head.opened_eq, ho]
        simp [hn]
      obtain ⟨u, hu, hk⟩ := ih this hc
      exact ⟨u, List.mem_cons_of_mem t hu, hk⟩

end Layout

structure BlockStructure (tokens : List Token) : Prop where
  end_marker : ∃ body last, tokens = body ++ [last] ∧ last.kind = .endMarker ∧
    ∀ t ∈ body, t.kind ≠ .endMarker
  dedents_le : ∀ before, before <+: tokens → count .dedent before ≤ count .indent before
  dedents_eq : count .dedent tokens = count .indent tokens
  at_line_start : ∀ before t after, tokens = before ++ t :: after →
    t.kind = .indent ∨ t.kind = .dedent →
      lastLogical? before = none ∨ lastLogical? before = some .newline
  in_brackets : ∀ before t after, tokens = before ++ t :: after → 0 < bracketDepth before →
    t.kind ∉ [Kind.newline, .indent, .dedent, .endMarker]
  line_ended : ∀ before t after, tokens = before ++ t :: after →
    t.kind ∈ [Kind.name, .number, .string, .op] → ∃ u ∈ after, u.kind = .newline

namespace Layout

def start : Layout :=
  ⟨0, 0, false⟩

theorem eq_of_append_cons {α : Type} {body before after : List α} {last t : α}
    (h : body ++ [last] = before ++ t :: after) :
    (t = last ∧ before = body) ∨ ∃ rest, after = rest ++ [last] ∧ body = before ++ t :: rest := by
  rcases List.eq_nil_or_concat after with rfl | ⟨rest, u, rfl⟩
  · obtain ⟨rfl, he⟩ := List.append_inj' h rfl
    exact .inl ⟨(List.cons.inj he).1.symm, rfl⟩
  · rw [List.concat_eq_append, ← List.cons_append, ← List.append_assoc] at h
    obtain ⟨rfl, he⟩ := List.append_inj' h rfl
    refine .inr ⟨rest, ?_, rfl⟩
    rw [List.concat_eq_append, (List.cons.inj he).1]

theorem Run.around (h : Run l tokens l') {before after : List Token}
    (ht : tokens = before ++ t :: after) :
    ∃ m m', Run l before m ∧ Step t m m' ∧ Run m' after l' := by
  subst ht
  obtain ⟨m, hb, hr⟩ := h.split
  cases hr with
  | cons head tail => exact ⟨m, _, hb, head, tail⟩

theorem Step.closed_of_block (h : Step t l l') (hk : t.kind = .indent ∨ t.kind = .dedent) :
    l.opened = false := by
  cases h with
  | word h => rcases h with h | h | h <;> simp [h] at hk
  | silent h => rcases h with h | h <;> simp [h] at hk
  | op h | newline h => simp [h] at hk
  | indent | dedent => rfl

theorem Step.depth_pos (h : Step t l l') (hd : 0 < l.depth) :
    t.kind ∉ [Kind.newline, .indent, .dedent, .endMarker] := by
  cases h with
  | word h => rcases h with h | h | h <;> simp [h]
  | silent h => rcases h with h | h <;> simp [h]
  | op h => simp [h]
  | newline | indent | dedent => simp at hd

theorem Step.opened_of_word (h : Step t l l')
    (hk : t.kind ∈ [Kind.name, .number, .string, .op]) : l'.opened = true := by
  have hl : isLogical t = true := by
    simp only [List.mem_cons, List.not_mem_nil, or_false] at hk
    rcases hk with hk | hk | hk | hk <;> simp [isLogical, hk]
  have hn : t.kind ≠ .newline := by
    intro h
    simp [h] at hk
  rw [h.opened_eq, if_pos hl]
  exact decide_eq_true hn

theorem Run.prefix_dedents_le (h : Run start tokens l) {before : List Token}
    (hp : before <+: tokens) : count .dedent before ≤ count .indent before := by
  obtain ⟨after, rfl⟩ := hp
  obtain ⟨m, hb, _⟩ := h.split
  have := hb.blocks_eq
  simp only [start] at this
  omega

theorem Run.blockStructure {last : Token} (h : Run start tokens start)
    (hl : last.kind = .endMarker) : BlockStructure (tokens ++ [last]) := by
  have hcount : ∀ kind, kind ≠ .endMarker → count kind (tokens ++ [last]) = count kind tokens := by
    intro kind hk
    simp [count, hl, hk.symm]
  have hblocks := h.blocks_eq
  refine ⟨⟨tokens, last, rfl, hl, h.kind_ne⟩, ?_, ?_, ?_, ?_, ?_⟩
  · intro before hp
    rcases List.prefix_concat_iff.1 hp with rfl | hp
    · rw [hcount .dedent (by simp), hcount .indent (by simp)]
      exact h.prefix_dedents_le (List.prefix_refl _)
    · exact h.prefix_dedents_le hp
  · rw [hcount .dedent (by simp), hcount .indent (by simp)]
    omega
  · intro before t after ht hk
    rcases eq_of_append_cons ht with ⟨rfl, _⟩ | ⟨rest, _, ht⟩
    · simp [hl] at hk
    · obtain ⟨m, m', hb, hs, _⟩ := h.around ht
      have ho := hb.opened_eq
      rw [hs.closed_of_block hk] at ho
      cases hq : lastLogical? before with
      | none => exact .inl rfl
      | some kind =>
        rw [hq] at ho
        right
        simpa using ho
  · intro before t after ht hd
    rcases eq_of_append_cons ht with ⟨_, rfl⟩ | ⟨rest, _, ht⟩
    · have := h.depth_eq
      simp only [start] at this
      rw [bracketDepth, ← this] at hd
      exact absurd hd (Nat.lt_irrefl 0)
    · obtain ⟨m, m', hb, hs, _⟩ := h.around ht
      apply hs.depth_pos
      rw [hb.depth_eq]
      exact hd
  · intro before t after ht hk
    rcases eq_of_append_cons ht with ⟨rfl, _⟩ | ⟨rest, rfl, hb⟩
    · simp [hl] at hk
    · obtain ⟨m, m', _, hs, hr⟩ := h.around hb
      obtain ⟨u, hu, hn⟩ := hr.newline_mem (hs.opened_of_word hk) rfl
      exact ⟨u, List.mem_append_left _ hu, hn⟩

end Layout

end StyleCheck.Token
