import StyleCheck.Proofs.Token.LogicalBreaks

namespace StyleCheck.Token

open Text

def MeetsLine (line : Nat) (t : Token) : Prop :=
  t.start.line ≤ line ∧ line ≤ t.stop.line

def IsLineBreak (t : Token) : Prop :=
  t.kind = .nl ∨ t.kind = .newline

def StandsAlone (tokens : List Token) (t : Token) : Prop :=
  ∃ before after, tokens = before ++ t :: after ∧
    ∀ u ∈ before ++ after, MeetsLine t.start.line u → IsLineBreak u

def OpensLine (source : List Char) (t : Token) : Prop :=
  ∃ before line after, lines source = before ++ line :: after ∧
    t.start = ⟨before.length + 1, width (margin line)⟩

structure CommentRead (line column : Nat) (cs : List Char) (tokens : List Token) (t : Token)
    (head : List Char) (earlier later : List Token) : Prop where
  text : ∃ rest, head ++ '#' :: rest <+: cs ∧
    t = onLine line (column + width head) .comment ('#' :: rest)
  tokens_eq : tokens = earlier ++ t :: later
  code : ∀ u ∈ earlier, u.kind ∉ [Kind.comment, .nl, .newline]
  onlyBreaks : ∀ u ∈ later, IsLineBreak u
  first : earlier = [] ↔ ∀ c ∈ head, isMargin c = true

structure CommentLine (source : List Char) (tokens : List Token) (t : Token)
    (before : List (List Char)) (cs : List Char) (read here others : List Token) : Prop where
  lines_eq : ∃ after, lines source = before ++ cs :: after
  tokens_eq : tokens = read ++ (here ++ others)
  comment : ∃ head earlier later,
    CommentRead (before.length + 1) 0 cs here t head earlier later
  stop_read : ∀ u ∈ read, u.stop.line < before.length + 1
  stop_here : ∀ u ∈ here, u.stop.line = before.length + 1
  start_others : ∀ u ∈ others, before.length + 1 < u.start.line ∨ IsLineBreak u

variable {source : List Char} {line column : Nat} {cs head : List Char}
  {tokens earlier later : List Token} {t u : Token} {s s' : State}

theorem StandsAlone.eq_of_meets (h : StandsAlone tokens t) (hu : u ∈ tokens)
    (hline : MeetsLine t.start.line u) (hbreak : ¬IsLineBreak u) : u = t := by
  obtain ⟨before, after, rfl, hother⟩ := h
  have hnot : u ∉ before ++ after := fun hmem => hbreak (hother u hmem hline)
  rw [List.mem_append, not_or] at hnot
  rcases List.mem_append.mp hu with hu | hu
  · exact absurd hu hnot.1
  · exact (List.mem_cons.mp hu).resolve_right hnot.2

theorem not_isLineBreak_of_comment (hk : t.kind = .comment) : ¬IsLineBreak t := by
  simp [IsLineBreak, hk]

section Reading

theorem CommentRead.prepend {start : Nat} (done : List Char) (before : List Token)
    (hstart : start = column + width done)
    (h : CommentRead line start cs tokens t head earlier later)
    (hbefore : ∀ u ∈ before, u.kind ∉ [Kind.comment, .nl, .newline])
    (hfirst : before ++ earlier = [] ↔ ∀ c ∈ done ++ head, isMargin c = true) :
    CommentRead line column (done ++ cs) (before ++ tokens) t (done ++ head) (before ++ earlier)
      later := by
  obtain ⟨rest, hprefix, htext⟩ := h.text
  constructor
  · refine ⟨rest, ?_, ?_⟩
    · rw [List.append_assoc]
      exact (List.prefix_append_right_inj done).mpr hprefix
    · rw [htext, hstart, width_append, Nat.add_assoc]
  · rw [h.tokens_eq, List.append_assoc]
  · exact List.forall_mem_append.mpr ⟨hbefore, h.code⟩
  · exact h.onlyBreaks
  · exact hfirst

theorem isLineBreak_breakKind (s : State) (line column : Nat) (text : List Char) :
    IsLineBreak (onLine line column s.breakKind text) :=
  s.breakKind_cases.symm

theorem of_lexeme_comment {c : Char} {extra : Nat} (h : lexeme c cs = .token .comment extra) :
    c = '#' ∧ extra = commentLength cs := by
  have hr := h ▸ reads_lexeme c cs
  cases hr with
  | comment hc => exact ⟨hc, rfl⟩

theorem Scanned.breaks_after_comment
    (h : Scanned line column (cs.drop (commentLength cs)) s tokens s') :
    (∀ u ∈ tokens, IsLineBreak u) ∧ s'.pending = s.pending := by
  rcases h.after_comment with ⟨-, rfl, rfl⟩ | ⟨-, text, rfl, rfl⟩
  · exact ⟨List.forall_mem_nil _, rfl⟩
  · exact ⟨List.forall_mem_singleton.mpr (isLineBreak_breakKind _ _ _ _), rfl⟩

theorem Scanned.comment (h : Scanned line column cs s tokens s') (ht : t ∈ tokens)
    (hk : t.kind = .comment) : s'.pending = s.pending ∧
      ∃ head earlier later, CommentRead line column cs tokens t head earlier later := by
  induction h with
  | nil | opening | join => cases ht
  | @blank column c cs s s' tokens hl _ ih =>
    obtain ⟨hp, head, earlier, later, hread⟩ := ih ht
    have hfirst : [] ++ earlier = [] ↔ ∀ d ∈ [c] ++ head, isMargin d = true := by
      rw [List.nil_append, hread.first, List.singleton_append, List.forall_mem_cons]
      exact (and_iff_right (isMargin_of_lexeme hl)).symm
    have hstart : column + c.utf8Size = column + width [c] := by simp [width]
    exact ⟨hp, _, _, _, hread.prepend [c] [] hstart (List.forall_mem_nil _) hfirst⟩
  | @token column c cs s s' tokens kind extra hl rest ih =>
    by_cases hkind : kind = .comment
    · subst hkind
      obtain ⟨rfl, rfl⟩ := of_lexeme_comment hl
      obtain ⟨hlater, hp⟩ := rest.breaks_after_comment
      rcases List.mem_cons.mp ht with rfl | ht
      · refine ⟨hp, [], [], tokens, ?_⟩
        constructor
        · exact ⟨cs.take (commentLength cs), by simpa using List.take_prefix _ cs, rfl⟩
        · rfl
        · exact List.forall_mem_nil _
        · exact hlater
        · exact iff_of_true rfl (List.forall_mem_nil _)
      · exact absurd (hlater t ht) (not_isLineBreak_of_comment hk)
    · rcases List.mem_cons.mp ht with rfl | ht
      · exact absurd hk hkind
      · obtain ⟨hp, head, earlier, later, hread⟩ := ih ht
        have hc : c :: cs = (c :: cs.take extra) ++ cs.drop extra := by simp
        have hmargin := isMargin_false_of_lexeme hl (by simp)
        have hcode : kind ∉ [Kind.comment, .nl, .newline] := by
          rcases (kind_of_lexeme hl).resolve_left hkind with rfl | rfl | rfl | rfl <;> decide
        have hall := hread.prepend (c :: cs.take extra)
          [onLine line column kind (c :: cs.take extra)] rfl
          (List.forall_mem_singleton.mpr hcode) (by simp [hmargin])
        rw [← hc] at hall
        exact ⟨hp, _, _, _, hall⟩
  | @lineEnd column c cs s hl =>
    rw [List.mem_singleton.mp ht] at hk
    exact absurd (isLineBreak_breakKind s line column (c :: cs)) (not_isLineBreak_of_comment hk)

theorem commentRead_blankTokens (hb : startsBlankLine cs = true)
    (ht : t ∈ blankTokens line column cs) (hk : t.kind = .comment) :
    ∃ later, CommentRead line column cs (blankTokens line column cs) t [] [] later := by
  have hbreak : ∀ {start ending}, ∀ u ∈ if ending = [] then [] else [onLine line start .nl ending],
      IsLineBreak u := by
    intro start ending u hu
    split at hu
    · cases hu
    · exact .inl (List.mem_singleton.mp hu ▸ rfl)
  cases cs with
  | nil => simp [blankTokens] at ht
  | cons c cs =>
    rcases startsBlankLine_cons_iff.mp hb with rfl | hc
    · have hcomment : ('#' :: cs).takeWhile (!isLineEnd ·) =
          '#' :: cs.takeWhile (!isLineEnd ·) := rfl
      have hne : '#' :: cs.takeWhile (!isLineEnd ·) ≠ [] := List.cons_ne_nil _ _
      simp only [blankTokens, hcomment, if_neg hne, List.singleton_append] at ht ⊢
      rcases List.mem_cons.mp ht with rfl | ht
      · refine ⟨_, ⟨_, ?_, rfl⟩, rfl, List.forall_mem_nil _, hbreak, ?_⟩
        · exact hcomment ▸ List.takeWhile_prefix _
        · exact iff_of_true rfl (List.forall_mem_nil _)
      · exact absurd (hbreak t ht) (not_isLineBreak_of_comment hk)
    · have hnone : (c :: cs).takeWhile (!isLineEnd ·) = [] := by simp [hc]
      simp only [blankTokens, hnone, if_pos, List.nil_append] at ht
      exact absurd (hbreak t ht) (not_isLineBreak_of_comment hk)

theorem isMargin_false_of_isQuote {c : Char} (h : isQuote c = true) : isMargin c = false := by
  simp only [isQuote, Bool.or_eq_true, beq_iff_eq] at h
  rcases h with rfl | rfl <;> rfl

theorem State.Quoted.not_margin (h : s.Quoted) {start : Position} {close text : List Char} {n : Nat}
    (hp : s.pending = .string start close text) (hn : closing? close cs = some n) :
    ∃ c ∈ cs.take n, isMargin c = false := by
  obtain ⟨quote, rest, hq, rfl⟩ := h start close text hp
  have hlast := getLast?_closed hn (getLast?_delimiter quote rest)
  exact ⟨quote, List.mem_of_getLast? hlast, isMargin_false_of_isQuote hq⟩

theorem CommentRead.startsComment (h : CommentRead line column cs tokens t head earlier later)
    (hhead : ∀ c ∈ head, isMargin c = true) : startsComment cs = true := by
  obtain ⟨rest, ⟨tail, rfl⟩, -⟩ := h.text
  rw [Token.startsComment, List.append_assoc, body_append hhead]
  rfl

theorem Indented.code {m : List Char} (h : Indented line m s tokens s') :
    ∀ u ∈ tokens, u.kind ∉ [Kind.comment, .nl, .newline] := by
  intro u hu
  have hkind := (h.of_mem hu).2
  simp only [List.mem_cons, List.not_mem_nil, or_false] at hkind
  rcases hkind with hkind | hkind <;> simp [hkind]

theorem LineRead.comment (h : LineRead line cs s tokens s') (hs : s.Quoted) (ht : t ∈ tokens)
    (hk : t.kind = .comment) : s'.pending = .nothing ∧
      ∃ head earlier later, CommentRead line 0 cs tokens t head earlier later := by
  cases h with
  | @closing start close text n tokens s' hp hn rest =>
    rcases List.mem_cons.mp ht with rfl | ht
    · cases hk
    · obtain ⟨hpending, head, earlier, later, hread⟩ := rest.comment ht hk
      obtain ⟨c, hc, hmargin⟩ := hs.not_margin hp hn
      have hfirst : ¬∀ d ∈ cs.take n ++ head, isMargin d = true := by
        intro hall
        rw [hall c (List.mem_append_left head hc)] at hmargin
        cases hmargin
      have hall := hread.prepend (cs.take n)
        [⟨.string, text ++ cs.take n, start, ⟨line, width (cs.take n)⟩⟩] (Nat.zero_add _).symm
        (by simp) (iff_of_false (List.cons_ne_nil _ _) hfirst)
      rw [List.take_append_drop] at hall
      exact ⟨hpending, _, _, _, hall⟩
  | inside => cases ht
  | joined hp rest =>
    obtain ⟨hpending, hread⟩ := rest.comment ht hk
    exact ⟨hpending, hread⟩
  | nested hp hd rest =>
    obtain ⟨hpending, hread⟩ := rest.comment ht hk
    exact ⟨hpending.trans hp, hread⟩
  | blank hp hd hb rest =>
    rw [blankLine_eq] at rest
    cases rest
    obtain ⟨later, hread⟩ := commentRead_blankTokens hb ht hk
    have hall := hread.prepend (margin cs) [] (Nat.zero_add _).symm (List.forall_mem_nil _)
      (iff_of_true rfl (by simpa using margin_isMargin cs))
    rw [margin_append_body] at hall
    exact ⟨hp, _, _, _, hall⟩
  | @fresh indentation tokens s' s'' hp hd hb hi rest =>
    rcases List.mem_append.mp ht with ht | ht
    · have hkind := (hi.of_mem ht).2
      simp [hk] at hkind
    · obtain ⟨hpending, head, earlier, later, hread⟩ := rest.comment ht hk
      -- The line begins with something else, so that there is a token before the comment.
      have hhead : ¬∀ c ∈ head, isMargin c = true := by
        intro hall
        have hstarts := hread.startsComment hall
        rw [startsComment_body, startsComment_of_startsBlankLine hb] at hstarts
        cases hstarts
      have hearlier : indentation ++ earlier ≠ [] :=
        List.append_ne_nil_of_right_ne_nil _ (mt hread.first.mp hhead)
      have hmore : ¬∀ c ∈ margin cs ++ head, isMargin c = true :=
        fun hall => hhead (List.forall_mem_append.mp hall).2
      have hall := hread.prepend (margin cs) indentation (Nat.zero_add _).symm
        hi.code (iff_of_false hearlier hmore)
      rw [margin_append_body] at hall
      exact ⟨hpending.trans (hi.pending.trans hp), _, _, _, hall⟩

theorem LinesRead.exists_line {lines : List (List Char)} (h : LinesRead line lines s tokens s')
    (ht : t ∈ tokens) : ∃ before cs after read here others s₁ s₂, lines = before ++ cs :: after ∧
      LinesRead line before s read s₁ ∧ LineRead (line + before.length) cs s₁ here s₂ ∧
      LinesRead (line + before.length + 1) after s₂ others s' ∧ t ∈ here ∧
      tokens = read ++ (here ++ others) := by
  induction h with
  | nil => cases ht
  | @cons line cs rest s s₁ s' tokens others head tail ih =>
    rcases List.mem_append.mp ht with ht | ht
    · exact ⟨[], cs, rest, [], tokens, others, s, s₁, rfl, .nil, head, tail, ht, rfl⟩
    · obtain ⟨before, next, after, read, here, later, t₁, t₂, rfl, hread, hhere, hlater, hmem,
        rfl⟩ := ih ht
      have hline : line + (cs :: before).length = line + 1 + before.length := by
        rw [List.length_cons]
        omega
      refine ⟨cs :: before, next, after, tokens ++ read, here, later, t₁, t₂, rfl, .cons head hread,
        ?_, ?_, hmem, (List.append_assoc _ _ _).symm⟩
      · rwa [hline]
      · rwa [hline]

end Reading

section Source

theorem eq_of_prefix_of_width {a b : List Char} (h : a <+: b) (hw : width a = width b) : a = b := by
  obtain ⟨rest, rfl⟩ := h
  rw [width_append] at hw
  rw [eq_nil_of_width (by omega : width rest = 0), List.append_nil]

theorem CommentRead.opensLine_iff {before after : List (List Char)}
    (h : CommentRead (before.length + 1) 0 cs tokens t head earlier later)
    (hl : lines source = before ++ cs :: after) :
    OpensLine source t ↔ ∀ c ∈ head, isMargin c = true := by
  obtain ⟨rest, hprefix, rfl⟩ := h.text
  constructor
  · rintro ⟨before', line, after', hl', hstart⟩
    simp only [onLine, Nat.zero_add, Position.mk.injEq, Nat.add_right_cancel_iff] at hstart
    obtain ⟨hlength, hwidth⟩ := hstart
    obtain ⟨-, hline⟩ := List.append_inj (hl.symm.trans hl') hlength
    obtain rfl : cs = line := (List.cons.inj hline).1
    have hhead : head = margin cs := by
      rcases List.prefix_or_prefix_of_prefix ((List.prefix_append _ _).trans hprefix)
        (List.takeWhile_prefix isMargin : margin cs <+: cs) with hle | hle
      · exact eq_of_prefix_of_width hle hwidth
      · exact (eq_of_prefix_of_width hle hwidth.symm).symm
    rw [hhead]
    exact margin_isMargin cs
  · intro hmargin
    refine ⟨before, cs, after, hl, ?_⟩
    obtain ⟨tail, rfl⟩ := hprefix
    have hhead : margin (head ++ '#' :: rest ++ tail) = head := by
      rw [margin, List.append_assoc, List.takeWhile_append_of_pos hmargin]
      exact List.append_nil head
    rw [hhead, onLine, Nat.zero_add]

theorem LinesRead.line_le_of_idle {before lines after : List (List Char)}
    (h : LinesRead (before.length + 1) lines s tokens s')
    (hl : Text.lines source = before ++ (lines ++ after)) (hs : s.pending = .nothing)
    (hu : u ∈ tokens) : before.length + 1 ≤ u.start.line := by
  obtain ⟨hcarried, hfront⟩ := State.idle (.inl hs)
  have hreached := h.reached rfl hl (by rw [hfront]; exact Position.ble_refl _)
    (by rw [hfront, hcarried]; rfl)
  rw [hfront] at hreached
  obtain ⟨done, -, htiled, -⟩ := hreached
  have hble := (htiled.between hu).1.1
  rcases Position.ble_iff.mp hble with hlt | ⟨heq, -⟩
  · exact Nat.le_of_lt hlt
  · exact Nat.le_of_eq heq

theorem line_lt_of_finish {last : List Char} {final : List Token} {n : Nat}
    (h : finish n last s = .ok final) (hline : line ≤ n) (hu : u ∈ final) :
    line < u.start.line ∨ IsLineBreak u := by
  by_cases hk : u.kind = .newline
  · exact .inr (.inr hk)
  · have hstart := start_line_of_finish h u hu
    rw [if_neg hk] at hstart
    exact .inl (by omega)

theorem exists_commentLine (h : tokenize source = .ok tokens) (ht : t ∈ tokens)
    (hk : t.kind = .comment) :
    ∃ before cs read here others, CommentLine source tokens t before cs read here others := by
  obtain ⟨all, s, final, hall, hfinal, rfl⟩ := tokenize_eq_ok_iff.mp h
  have hmem : t ∈ all := by
    refine (List.mem_append.mp ht).resolve_right fun hmem => ?_
    have hkind := kind_of_finish hfinal t hmem
    simp [hk] at hkind
  obtain ⟨before, cs, after, read, here, others, s₁, s₂, hl, hread, hhere, hothers, hin, rfl⟩ :=
    (linesRead_of_linesStep hall).exists_line hmem
  rw [Nat.add_comm 1] at hhere hothers
  obtain ⟨hidle, hcomment⟩ := hhere.comment (hread.quoted State.quoted_start) hin hk
  refine ⟨before, cs, read, here, others ++ final, ⟨after, hl⟩, by simp, hcomment, ?_, ?_, ?_⟩
  · intro u hu
    rw [Nat.add_comm]
    exact hread.stop_line hu
  · exact fun u hu => hhere.stop_line hu
  · intro u hu
    rcases List.mem_append.mp hu with hu | hu
    · have hl' : lines source = (before ++ [cs]) ++ (after ++ []) := by simp [hl]
      have hothers' : LinesRead ((before ++ [cs]).length + 1) after s₂ others s := by
        simpa using hothers
      have hle := hothers'.line_le_of_idle hl' hidle hu
      rw [List.length_append, List.length_singleton] at hle
      exact .inl hle
    · have hle : before.length + 1 ≤ (lines source).length := by
        rw [hl, List.length_append, List.length_cons]
        omega
      exact line_lt_of_finish hfinal hle hu

theorem text_of_comment (h : tokenize source = .ok tokens) (ht : t ∈ tokens)
    (hk : t.kind = .comment) : ∃ cs, t.text = '#' :: cs := by
  obtain ⟨before, cs, read, here, others, hline⟩ := exists_commentLine h ht hk
  obtain ⟨head, earlier, later, hcomment⟩ := hline.comment
  obtain ⟨rest, -, rfl⟩ := hcomment.text
  exact ⟨rest, rfl⟩

theorem start_line_le_stop_line (h : tokenize source = .ok tokens) (hu : u ∈ tokens) :
    u.start.line ≤ u.stop.line := by
  obtain ⟨read, s, final, hread, hfinal, rfl⟩ := tokenize_eq_ok_iff.mp h
  obtain ⟨hend, hclosing⟩ := closing_of_finish hfinal
  have htiles := tilesSource_append (tiled_of_linesStep hread hend) hclosing
  have hble := htiles.start_ble_stop u hu
  rw [Position.ble_iff] at hble
  omega

theorem StandsAlone.eq_of_line (halone : StandsAlone tokens t) (h : tokenize source = .ok tokens)
    (hu : u ∈ tokens) (hk : u.kind = .comment) (hline : u.start.line = t.start.line) : u = t := by
  have hstop := start_line_le_stop_line h hu
  exact halone.eq_of_meets hu ⟨Nat.le_of_eq hline, hline ▸ hstop⟩ (not_isLineBreak_of_comment hk)

theorem standsAlone_iff (h : tokenize source = .ok tokens) (ht : t ∈ tokens)
    (hk : t.kind = .comment) : StandsAlone tokens t ↔ OpensLine source t := by
  obtain ⟨before, cs, read, here, others, hline⟩ := exists_commentLine h ht hk
  obtain ⟨after, hl⟩ := hline.lines_eq
  obtain ⟨head, earlier, later, hcomment⟩ := hline.comment
  have hstart : t.start.line = before.length + 1 := by
    obtain ⟨rest, -, rfl⟩ := hcomment.text
    rfl
  rw [hcomment.opensLine_iff hl, ← hcomment.first]
  constructor
  · intro halone
    rw [List.eq_nil_iff_forall_not_mem]
    intro u hu
    have hcode := hcomment.code u hu
    have hhere : u ∈ here := by
      rw [hcomment.tokens_eq]
      exact List.mem_append_left _ hu
    have hmem : u ∈ tokens := by
      rw [hline.tokens_eq]
      exact List.mem_append_right _ (List.mem_append_left _ hhere)
    have hbreak : ¬IsLineBreak u := by
      rintro (hk' | hk') <;> simp [hk'] at hcode
    have hstop := (hline.stop_here u hhere).trans hstart.symm
    have hmeets : MeetsLine t.start.line u :=
      ⟨hstop ▸ start_line_le_stop_line h hmem, Nat.le_of_eq hstop.symm⟩
    obtain rfl := halone.eq_of_meets hmem hmeets hbreak
    simp [hk] at hcode
  · rintro rfl
    refine ⟨read, later ++ others, by simp [hline.tokens_eq, hcomment.tokens_eq], ?_⟩
    rw [hstart]
    intro u hu hmeets
    simp only [List.mem_append] at hu
    rcases hu with hu | hu | hu
    · exact absurd hmeets.2 (Nat.not_le_of_lt (hline.stop_read u hu))
    · exact hcomment.onlyBreaks u hu
    · exact (hline.start_others u hu).resolve_left (Nat.not_lt_of_le hmeets.1)

end Source

end StyleCheck.Token
