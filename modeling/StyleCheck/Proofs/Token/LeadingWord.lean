import StyleCheck.Proofs.Token.Layout
import StyleCheck.Proofs.Token.LexemeCases
import StyleCheck.Proofs.Token.Reading
import StyleCheck.Text.Characters

namespace StyleCheck.Token

theorem code_of_isUpper {c : Char} (h : c.isUpper = true) : 65 ≤ c.toNat ∧ c.toNat ≤ 90 := by
  have hrange : 'A'.val ≤ c.val ∧ c.val ≤ 'Z'.val := of_decide_eq_true h
  exact hrange

theorem code_of_isLower {c : Char} (h : c.isLower = true) : 97 ≤ c.toNat ∧ c.toNat ≤ 122 := by
  have hrange := Bool.and_eq_true_iff.mp h
  exact ⟨of_decide_eq_true hrange.1, of_decide_eq_true hrange.2⟩

theorem code_of_isNameStart {c : Char} (h : isNameStart c = true) :
    c.toNat = 95 ∨ (65 ≤ c.toNat ∧ c.toNat ≤ 90) ∨ (97 ≤ c.toNat ∧ c.toNat ≤ 122) ∨
      128 ≤ c.toNat := by
  simp only [isNameStart, Bool.or_eq_true, beq_iff_eq, decide_eq_true_eq] at h
  rcases h with (rfl | h) | h
  · exact .inl rfl
  · rcases Bool.or_eq_true_iff.mp h with h | h
    · exact .inr (.inl (code_of_isUpper h))
    · exact .inr (.inr (.inl (code_of_isLower h)))
  · exact .inr (.inr (.inr h))

theorem code_of_isBlank {c : Char} (h : Text.isBlank c = true) :
    (9 ≤ c.toNat ∧ c.toNat ≤ 13) ∨ c.toNat = 32 ∨ 128 ≤ c.toNat := by
  have hranges := Text.CodePoints.contains_iff.mp h
  simp only [Text.blanks, List.mem_cons, List.not_mem_nil, or_false, exists_eq_or_imp,
    exists_eq_left] at hranges
  omega

theorem ne_of_isNameStart {c d : Char} (h : isNameStart c = true) (hd : isNameStart d = false) :
    c ≠ d := by
  rintro rfl
  rw [h] at hd
  cases hd

theorem isMargin_of_isNameStart {c : Char} (h : isNameStart c = true) : isMargin c = false := by
  have hspace : c ≠ ' ' := ne_of_isNameStart h rfl
  have htab : c ≠ '\t' := ne_of_isNameStart h rfl
  have hfeed : c ≠ '\x0c' := ne_of_isNameStart h rfl
  simp [isMargin, hspace, htab, hfeed]

theorem isLineEnd_of_isNameStart {c : Char} (h : isNameStart c = true) : isLineEnd c = false := by
  have hreturn : c ≠ '\r' := ne_of_isNameStart h rfl
  have hfeed : c ≠ '\n' := ne_of_isNameStart h rfl
  simp [isLineEnd, hreturn, hfeed]

theorem isQuote_of_isNameStart {c : Char} (h : isNameStart c = true) : isQuote c = false := by
  have hsingle : c ≠ '\'' := ne_of_isNameStart h rfl
  have hdouble : c ≠ '"' := ne_of_isNameStart h rfl
  simp [isQuote, hsingle, hdouble]

theorem isDigit_of_isNameStart {c : Char} (h : isNameStart c = true) : c.isDigit = false := by
  have hcode := code_of_isNameStart h
  rw [Bool.eq_false_iff]
  intro hdigit
  have hrange := Char.isDigit_iff_toNat.mp hdigit
  simp only [Char.reduceToNat] at hrange
  omega

theorem lexeme_of_isNameStart {c : Char} (h : isNameStart c = true) (cs : List Char) :
    lexeme c cs = nameLexeme c cs := by
  have hcomment : c ≠ '#' := ne_of_isNameStart h rfl
  have hjoin : c ≠ '\\' := ne_of_isNameStart h rfl
  have hdot : c ≠ '.' := ne_of_isNameStart h rfl
  simp [lexeme, isMargin_of_isNameStart h, isLineEnd_of_isNameStart h, isQuote_of_isNameStart h,
    isDigit_of_isNameStart h, hcomment, hjoin, hdot, h]

theorem isStringMark_of_code {c : Char} (h : 128 ≤ c.toNat) (cs : List Char) :
    isStringMark (c :: cs) = false := by
  have hlower : c.toLower = c := by
    unfold Char.toLower
    rw [dif_neg]
    simp only [ge_iff_le, UInt32.le_iff_toNat_le, not_and, Nat.not_le]
    intro _
    exact Nat.lt_of_lt_of_le (by decide) h
  have hmarks : ∀ mark ∈ stringMarks, ∀ d ∈ mark, d.toNat < 128 := by simp [stringMarks]
  rw [isStringMark, decide_eq_false_iff_not, List.map_cons, hlower]
  intro hmem
  have hcode := hmarks (c :: cs.map Char.toLower) hmem c List.mem_cons_self
  omega

theorem nameLexeme_of_code {c : Char} (h : 128 ≤ c.toNat) (cs : List Char) :
    nameLexeme c cs = .token .name (cs.takeWhile isNameChar).length := by
  simp only [nameLexeme, isStringMark_of_code h, Bool.and_false, Bool.false_eq_true, ↓reduceIte]
  split <;> rfl

theorem lexeme_of_isBlank {c : Char} (h : Text.isBlank c = true) (hm : isMargin c = false)
    (cs : List Char) : lexeme c cs = .lineEnd ∨
      lexeme c cs = .token .name (cs.takeWhile isNameChar).length ∨
      lexeme c cs = .stray (.invalidCharacter c) := by
  by_cases hcode : 128 ≤ c.toNat
  · have hstart : isNameStart c = true := by simp [isNameStart, hcode]
    rw [lexeme_of_isNameStart hstart, nameLexeme_of_code hcode]
    exact .inr (.inl rfl)
  · have hrange := code_of_isBlank h
    have hc : c = Char.ofNat c.toNat := (Char.ofNat_toNat c).symm
    have hcases : c.toNat = 9 ∨ c.toNat = 10 ∨ c.toNat = 11 ∨ c.toNat = 12 ∨ c.toNat = 13 ∨
        c.toNat = 32 := by omega
    rcases hcases with hn | hn | hn | hn | hn | hn <;> rw [hn] at hc <;> subst hc
    · cases hm
    · exact .inl rfl
    · exact .inr (.inr rfl)
    · cases hm
    · exact .inl rfl
    · cases hm

structure IsWord (word : List Char) (next : Char) : Prop where
  head : ∃ c cs, word = c :: cs ∧ isNameStart c = true
  chars : ∀ c ∈ word, isNameChar c = true
  next_not_char : isNameChar next = false
  next_not_quote : isQuote next = false

theorem takeWhile_append_stop {p : Char → Bool} {cs : List Char} {next : Char}
    (hcs : ∀ c ∈ cs, p c = true) (hnext : p next = false) (rest : List Char) :
    (cs ++ next :: rest).takeWhile p = cs := by
  have hstop : (next :: rest).takeWhile p = [] := List.takeWhile_cons_of_neg (by simp [hnext])
  rw [List.takeWhile_append_of_pos hcs, hstop, List.append_nil]

theorem IsWord.lexeme {c next : Char} {cs : List Char} (h : IsWord (c :: cs) next)
    (rest : List Char) : lexeme c (cs ++ next :: rest) = .token .name cs.length := by
  obtain ⟨d, ds, heq, hstart⟩ := h.head
  cases heq
  have hchars : ∀ x ∈ cs, isNameChar x = true := fun x hx => h.chars x (List.mem_cons_of_mem c hx)
  rw [lexeme_of_isNameStart hstart]
  simp only [nameLexeme, takeWhile_append_stop hchars h.next_not_char, List.drop_left,
    h.next_not_quote, Bool.false_and, Bool.false_eq_true, ↓reduceIte]

inductive Leading (line column : Nat) (blanks word : List Char) (tokens : List Token) : Prop
  | first {lead more : List Token} (hm : ∀ c ∈ blanks, isMargin c = true)
      (hl : lastLogical? lead = none)
      (h : tokens = lead ++ onLine line column .name word :: more) :
      Leading line column blanks word tokens
  | later {lead more : List Token} (hm : ∃ c ∈ blanks, isMargin c = false)
      (hl : lastLogical? lead = some .name)
      (h : tokens = lead ++ onLine line column .name word :: more) :
      Leading line column blanks word tokens
  | across {kind : Kind} {start : Nat} {text : List Char}
      (hm : ∃ c ∈ blanks, isMargin c = false) (h : onLine line start kind text ∈ tokens)
      (hb : start < column) (ha : column < start + Text.width text) :
      Leading line column blanks word tokens

theorem lastLogical?_append (tokens others : List Token) :
    lastLogical? (tokens ++ others) = (lastLogical? others).or (lastLogical? tokens) := by
  induction tokens with
  | nil => simp [lastLogical?]
  | cons t tokens ih => rw [List.cons_append, lastLogical?_cons, ih, lastLogical?_cons, Option.or_assoc]

namespace Leading

variable {line column : Nat} {blanks word : List Char} {tokens : List Token}

theorem margin {c : Char} (h : Leading line column blanks word tokens) (hc : isMargin c = true) :
    Leading line column (c :: blanks) word tokens := by
  cases h with
  | first hm hl h => exact .first (List.forall_mem_cons.mpr ⟨hc, hm⟩) hl h
  | later hm hl h =>
    obtain ⟨d, hd, hmargin⟩ := hm
    exact .later ⟨d, List.mem_cons_of_mem c hd, hmargin⟩ hl h
  | across hm h hb ha =>
    obtain ⟨d, hd, hmargin⟩ := hm
    exact .across ⟨d, List.mem_cons_of_mem c hd, hmargin⟩ h hb ha

theorem name {t : Token} (h : Leading line column blanks word tokens) (ht : t.kind = .name)
    {others : List Char} (hm : ∃ c ∈ others, isMargin c = false) :
    Leading line column others word (t :: tokens) := by
  have hlogical : isLogical t = true := by simp [isLogical, ht]
  cases h with
  | @first lead more _ hl h =>
    refine .later hm ?_ (List.cons_eq_append_iff.mpr (.inr ⟨lead, rfl, h⟩))
    rw [lastLogical?_cons, hl, if_pos hlogical, ht, Option.none_or]
  | @later lead more _ hl h =>
    refine .later hm ?_ (List.cons_eq_append_iff.mpr (.inr ⟨lead, rfl, h⟩))
    rw [lastLogical?_cons, hl, Option.some_or]
  | across _ h hb ha => exact .across hm (List.mem_cons_of_mem t h) hb ha

theorem prepend {others : List Token} (h : Leading line column blanks word tokens)
    (ho : lastLogical? others = none) : Leading line column blanks word (others ++ tokens) := by
  cases h with
  | @first lead more hm hl h =>
    refine .first hm ?_ (by rw [h, List.append_assoc])
    rw [lastLogical?_append, hl, ho, Option.none_or]
  | @later lead more hm hl h =>
    refine .later hm ?_ (by rw [h, List.append_assoc])
    rw [lastLogical?_append, hl, Option.some_or]
  | across hm h hb ha => exact .across hm (List.mem_append_right others h) hb ha

theorem through {c : Char} {rest more : List Char} {kind : Kind} {next : Char}
    (hw : IsWord word next) (hc : isMargin c = false)
    (h : onLine line column kind (c :: rest ++ word ++ more) ∈ tokens) :
    Leading line (column + Text.width (c :: rest)) (c :: rest) word tokens := by
  obtain ⟨w, ws, rfl, -⟩ := hw.head
  have hcpos := c.utf8Size_pos
  have hwpos := w.utf8Size_pos
  refine .across ⟨c, List.mem_cons_self, hc⟩ h ?_ ?_
  · simp only [Text.width]
    omega
  · simp only [Text.width_append, Text.width]
    omega

end Leading

variable {line column : Nat} {blanks word : List Char} {next : Char} {s s' : State}
  {tokens : List Token}

theorem Scanned.of_token {c : Char} {cs : List Char} {kind : Kind} {extra : Nat}
    (h : Scanned line column (c :: cs) s tokens s') (hl : lexeme c cs = .token kind extra) :
    ∃ t others, tokens = onLine line column kind (c :: cs.take extra) :: others ∧
      Scanned line (column + Text.width (c :: cs.take extra)) (cs.drop extra) t others s' := by
  cases h with
  | token h rest =>
    rw [h] at hl
    cases hl
    exact ⟨_, _, rfl, rest⟩
  | blank h | opening h | lineEnd h | join h =>
    rw [h] at hl
    cases hl

theorem Scanned.of_blank {c : Char} {cs : List Char}
    (h : Scanned line column (c :: cs) s tokens s') (hl : lexeme c cs = .blank) :
    Scanned line (column + c.utf8Size) cs s tokens s' := by
  cases h with
  | blank _ rest => exact rest
  | token h | opening h | lineEnd h | join h =>
    rw [h] at hl
    cases hl

theorem Scanned.of_lineEnd {c : Char} {cs : List Char}
    (h : Scanned line column (c :: cs) s tokens s') (hl : lexeme c cs = .lineEnd) :
    tokens = [onLine line column s.breakKind (c :: cs)] := by
  cases h with
  | lineEnd => rfl
  | token h | opening h | blank h | join h =>
    rw [h] at hl
    cases hl

theorem Scanned.not_stray {c : Char} {cs : List Char} {fault : SyntaxFault}
    (h : Scanned line column (c :: cs) s tokens s') : lexeme c cs ≠ .stray fault := by
  intro hl
  cases h with
  | token h | opening h | blank h | lineEnd h | join h =>
    rw [h] at hl
    cases hl

theorem exists_run (p : Char → Bool) (cs : List Char) : ∃ taken left, cs = taken ++ left ∧
    (∀ c ∈ taken, p c = true) ∧ (left = [] ∨ ∃ c rest, left = c :: rest ∧ p c = false) := by
  induction cs with
  | nil => exact ⟨[], [], rfl, by simp, .inl rfl⟩
  | cons c cs ih =>
    cases hc : p c with
    | false => exact ⟨[], c :: cs, rfl, by simp, .inr ⟨c, cs, rfl, hc⟩⟩
    | true =>
      obtain ⟨taken, left, rfl, htaken, hleft⟩ := ih
      exact ⟨c :: taken, left, rfl, List.forall_mem_cons.mpr ⟨hc, htaken⟩, hleft⟩

theorem takeWhile_cases (blanks : List Char) (hw : IsWord word next) (tail : List Char) :
    (blanks ++ (word ++ next :: tail)).takeWhile isNameChar = blanks ++ word ∨
    ∃ name others, blanks = name ++ others ∧
      (blanks ++ (word ++ next :: tail)).takeWhile isNameChar = name := by
  obtain ⟨name, others, rfl, hname, rfl | ⟨d, rest, rfl, hd⟩⟩ := exists_run isNameChar blanks
  · left
    rw [List.append_nil, ← List.append_assoc]
    refine takeWhile_append_stop (fun c hc => ?_) hw.next_not_char tail
    exact (List.mem_append.mp hc).elim (hname c) (hw.chars c)
  · right
    refine ⟨name, d :: rest, rfl, ?_⟩
    rw [List.append_assoc, List.cons_append]
    exact takeWhile_append_stop hname hd _

theorem Scanned.leading {tail : List Char}
    (h : Scanned line column (blanks ++ (word ++ next :: tail)) s tokens s')
    (hb : ∀ c ∈ blanks, Text.isBlank c = true) (hw : IsWord word next) :
    Leading line (column + Text.width blanks) blanks word tokens := by
  -- A name among the blanks takes several of them at once.
  induction hn : blanks.length using Nat.strongRecOn generalizing blanks column s tokens with
  | ind n ih =>
    cases blanks with
    | nil =>
      obtain ⟨w, ws, rfl, -⟩ := hw.head
      obtain ⟨t, others, rfl, -⟩ := h.of_token (hw.lexeme tail)
      have hfirst : onLine line column .name (w :: (ws.append (next :: tail)).take ws.length) ::
          others = [] ++ onLine line column .name (w :: ws) :: others := by
        rw [List.append_eq, List.take_left, List.nil_append]
      exact .first (by simp) rfl hfirst
    | cons c rest =>
      rw [List.cons_append] at h
      have hrest : ∀ x ∈ rest, Text.isBlank x = true := fun x hx => hb x (List.mem_cons_of_mem c hx)
      cases hm : isMargin c with
      | true =>
        have hblank : Token.lexeme c (rest ++ (word ++ next :: tail)) = .blank := by
          simp [Token.lexeme, hm]
        have hlt : rest.length < n := by
          rw [← hn, List.length_cons]
          exact Nat.lt_succ_self rest.length
        have hlead := ih rest.length hlt (h.of_blank hblank) hrest rfl
        rw [Nat.add_assoc] at hlead
        exact hlead.margin hm
      | false =>
        rcases lexeme_of_isBlank (hb c List.mem_cons_self) hm _ with hl | hl | hl
        · rw [h.of_lineEnd hl, ← List.append_assoc]
          exact .through hw hm List.mem_cons_self
        · obtain ⟨t, others, rfl, hothers⟩ := h.of_token hl
          rcases takeWhile_cases rest hw tail with hname | ⟨name, left, rfl, hname⟩
          · rw [hname, ← List.append_assoc, List.take_left, ← List.append_nil (rest ++ word)]
            exact .through hw hm List.mem_cons_self
          · rw [hname, List.append_assoc, List.take_left] at hothers ⊢
            rw [List.drop_left] at hothers
            have hleft : ∀ x ∈ left, Text.isBlank x = true :=
              fun x hx => hrest x (List.mem_append_right name hx)
            have hlt : left.length < n := by
              rw [← hn, List.length_cons, List.length_append]
              omega
            have hlead := ih left.length hlt hothers hleft rfl
            rw [Nat.add_assoc, ← Text.width_append, List.cons_append] at hlead
            exact hlead.name rfl ⟨c, List.mem_cons_self, hm⟩
        · exact absurd hl h.not_stray

theorem Leading.margins {m : List Char} (h : Leading line column blanks word tokens)
    (hm : ∀ c ∈ m, isMargin c = true) : Leading line column (m ++ blanks) word tokens := by
  induction m with
  | nil => exact h
  | cons c m ih =>
    obtain ⟨hc, hrest⟩ := List.forall_mem_cons.mp hm
    exact (ih hrest).margin hc

theorem startsBlankLine_of_isNameStart {c : Char} (h : isNameStart c = true) (cs : List Char) :
    startsBlankLine (c :: cs) = false := by
  have hcomment : c ≠ '#' := ne_of_isNameStart h rfl
  simp [startsBlankLine, startsWith, isLineEnd_of_isNameStart h, hcomment]

theorem margin_append {m rest : List Char} {c : Char} (hm : ∀ c ∈ m, isMargin c = true)
    (hc : isMargin c = false) : margin (m ++ c :: rest) = m ∧ body (m ++ c :: rest) = c :: rest := by
  have hmargin : margin (m ++ c :: rest) = m := takeWhile_append_stop hm hc rest
  refine ⟨hmargin, ?_⟩
  rw [body, hmargin, List.drop_left]

theorem margin_blanks (blanks : List Char) (hw : IsWord word next) (tail : List Char) :
    ∃ m others, blanks = m ++ others ∧ (∀ c ∈ m, isMargin c = true) ∧
      (others = [] ∨ ∃ c rest, others = c :: rest ∧ isMargin c = false) ∧
      margin (blanks ++ (word ++ next :: tail)) = m ∧
      body (blanks ++ (word ++ next :: tail)) = others ++ (word ++ next :: tail) := by
  obtain ⟨m, others, rfl, hm, hothers⟩ := exists_run isMargin blanks
  refine ⟨m, others, rfl, hm, hothers, ?_⟩
  rw [List.append_assoc]
  rcases hothers with rfl | ⟨c, rest, rfl, hc⟩
  · obtain ⟨w, ws, rfl, hstart⟩ := hw.head
    exact margin_append hm (isMargin_of_isNameStart hstart)
  · exact margin_append hm hc

theorem Indented.lastLogical? {m : List Char} (h : Indented line m s tokens s') :
    lastLogical? tokens = none := by
  have hnone : tokens.filter isLogical = [] := by
    rw [List.filter_eq_nil_iff]
    cases h with
    | deeper =>
      intro t ht
      rw [List.mem_singleton.mp ht]
      exact Bool.false_ne_true
    | level =>
      intro t ht
      rw [List.eq_of_mem_replicate ht]
      exact Bool.false_ne_true
  rw [Token.lastLogical?, hnone]
  rfl

theorem blankLine_of_isLineEnd {c : Char} {cs : List Char} (hc : isLineEnd c = true)
    (h : blankLine line column (c :: cs) s = .ok (tokens, s')) :
    tokens = [onLine line column .nl (c :: cs)] := by
  simp only [blankLine, List.takeWhile_cons, hc, Bool.not_true, Bool.false_eq_true, ↓reduceIte,
    List.length_nil, List.drop_zero, List.cons_ne_nil, List.nil_append, Text.width, Nat.add_zero,
    Except.ok.injEq, Prod.mk.injEq] at h
  exact h.1.symm

theorem LineRead.leading {tail : List Char}
    (h : LineRead line (blanks ++ (word ++ next :: tail)) s tokens s')
    (hs : ∀ start close text, s.pending ≠ .string start close text)
    (hb : ∀ c ∈ blanks, Text.isBlank c = true) (hw : IsWord word next) :
    Leading line (Text.width blanks) blanks word tokens := by
  cases h with
  | closing hp => exact absurd hp (hs _ _ _)
  | inside hp => exact absurd hp (hs _ _ _)
  | joined _ rest | nested _ _ rest =>
    have hlead := rest.leading hb hw
    rwa [Nat.zero_add] at hlead
  | blank hp hd hblank rest =>
    obtain ⟨m, others, rfl, hm, hothers, hmargin, hbody⟩ := margin_blanks blanks hw tail
    rw [hbody] at hblank rest
    rw [hmargin] at rest
    rcases hothers with rfl | ⟨c, left, rfl, hc⟩
    · obtain ⟨w, ws, rfl, hstart⟩ := hw.head
      rw [List.nil_append, List.cons_append, startsBlankLine_of_isNameStart hstart] at hblank
      cases hblank
    · have hend : isLineEnd c = true := by
        have hblankChar := hb c (by simp)
        have hcomment : c ≠ '#' := by
          rintro rfl
          cases hblankChar
        simpa [startsBlankLine, startsWith, hcomment] using hblank
      rw [List.cons_append] at rest
      rw [blankLine_of_isLineEnd hend rest, ← List.append_assoc, Text.width_append]
      exact (Leading.through hw hc List.mem_cons_self).margins hm
  | fresh hp hd _ hi rest =>
    obtain ⟨m, others, rfl, hm, hothers, hmargin, hbody⟩ := margin_blanks blanks hw tail
    rw [hmargin, hbody] at rest
    have hlead := rest.leading (fun c hc => hb c (List.mem_append_right m hc)) hw
    rw [← Text.width_append] at hlead
    exact (hlead.margins hm).prepend hi.lastLogical?

end StyleCheck.Token
