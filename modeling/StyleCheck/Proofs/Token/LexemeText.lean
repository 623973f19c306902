import StyleCheck.Proofs.Token.LexemeCases
import StyleCheck.Proofs.Token.Locality

namespace StyleCheck.Token

theorem take_of_closingFrom? {close cs : List Char} {escaped : Bool} {n : Nat}
    (h : closingFrom? close escaped cs = some n) : ∃ inner, cs.take n = inner ++ close := by
  fun_induction closingFrom? close escaped cs generalizing n with
  | case1 => simp at h
  | case2 c cs ih | case6 c cs _ _ _ ih =>
    obtain ⟨m, hm, rfl⟩ := Option.map_eq_some_iff.1 h
    obtain ⟨inner, hi⟩ := ih hm
    refine ⟨c :: inner, ?_⟩
    rw [List.take_succ_cons, hi]
    rfl
  | case3 cs ih =>
    obtain ⟨m, hm, rfl⟩ := Option.map_eq_some_iff.1 h
    obtain ⟨inner, hi⟩ := ih hm
    refine ⟨'\\' :: inner, ?_⟩
    rw [List.take_succ_cons, hi]
    rfl
  | case4 c cs _ hp =>
    cases h
    exact ⟨[], (List.prefix_iff_eq_take.1 (List.isPrefixOf_iff_prefix.1 hp)).symm⟩
  | case5 => simp at h

theorem take_string (mark : List Char) {rest : List Char} {quote : Char} {n : Nat}
    (hn : closing? (delimiter quote rest) (rest.drop ((delimiter quote rest).length - 1)) = some n) :
    ∃ inner, (mark ++ quote :: rest).take (mark.length + ((delimiter quote rest).length + n)) =
      mark ++ delimiter quote rest ++ inner ++ delimiter quote rest := by
  obtain ⟨inner, hi⟩ := take_of_closingFrom? hn
  refine ⟨inner, ?_⟩
  have hpos : 0 < (delimiter quote rest).length := by
    rcases length_delimiter quote rest with h | h <;> omega
  have hd : (quote :: rest).take (delimiter quote rest).length = delimiter quote rest :=
    (List.prefix_iff_eq_take.1 (delimiter_isPrefix quote rest)).symm
  have hr : (quote :: rest).drop (delimiter quote rest).length =
      rest.drop ((delimiter quote rest).length - 1) := by
    obtain ⟨k, hk⟩ : ∃ k, (delimiter quote rest).length = k + 1 := ⟨_, (Nat.sub_add_cancel hpos).symm⟩
    rw [hk]
    rfl
  rw [List.take_length_add_append, List.take_add, hd, hr, hi]
  simp

theorem getLast?_delimiter (quote : Char) (rest : List Char) :
    (delimiter quote rest).getLast? = some quote := by
  unfold delimiter
  split <;> rfl

theorem isQuote_ne_lineFeed {c : Char} (h : isQuote c = true) : c ≠ '\n' := by
  rintro rfl
  simp [isQuote] at h

theorem getLast?_closed {close cs : List Char} {quote : Char} {n : Nat}
    (h : closing? close cs = some n) (hq : close.getLast? = some quote) :
    (cs.take n).getLast? = some quote := by
  obtain ⟨inner, hi⟩ := take_of_closingFrom? h
  rw [hi, List.getLast?_append, hq, Option.some_or]

theorem getLast?_ne_of_notMem {c : Char} {cs : List Char} (h : c ∉ cs) :
    cs.getLast? ≠ some c := by
  intro hl
  exact h (List.mem_of_getLast? hl)

theorem getLast?_of_append {c : Char} {cs ds : List Char} (h : (cs ++ ds).getLast? = some c)
    (hn : cs.getLast? ≠ some c) : ds.getLast? = some c := by
  rw [List.getLast?_append] at h
  cases hd : ds.getLast? with
  | some d => rwa [hd, Option.some_or] at h
  | none =>
    rw [hd, Option.none_or] at h
    exact absurd h hn

theorem getLast?_ne_of_isMargin {cs : List Char} (h : ∀ c ∈ cs, isMargin c = true) :
    cs.getLast? ≠ some '\n' := by
  apply getLast?_ne_of_notMem
  intro hm
  exact Bool.false_ne_true (h '\n' hm)

theorem cons_take_operator {c : Char} {cs op : List Char} (h : operator? (c :: cs) = some op) :
    c :: cs.take (op.length - 1) = op := by
  obtain ⟨w, word, rfl⟩ :=
    List.exists_cons_of_ne_nil (isLineEnd_of_mem_operators op (List.mem_of_find?_eq_some h)).1
  exact (List.prefix_iff_eq_take.mp (operator?_isPrefix h)).symm

theorem isLineEnd_of_mem_succ {c d : Char} {cs : List Char} {n : Nat} (hc : isLineEnd c = false)
    (h : ∀ d ∈ (c :: cs).take n, isLineEnd d = false) (hd : d ∈ c :: cs.take (n - 1)) :
    isLineEnd d = false := by
  cases n with
  | zero =>
    have hdc : d = c := by simpa using hd
    rw [hdc]
    exact hc
  | succ n => exact h d hd

theorem isLineEnd_of_mem_text {c : Char} {cs : List Char} {kind : Kind} {extra : Nat}
    (h : lexeme c cs = .token kind extra) (hk : kind ≠ .string) :
    ∀ d ∈ c :: cs.take extra, isLineEnd d = false := by
  intro d hd
  have hr := h ▸ reads_lexeme c cs
  cases hr with
  | comment hc =>
    cases List.mem_cons.mp hd with
    | inl hd => rw [hd, hc]; rfl
    | inr hd =>
      apply isLineEnd_of_mem_take (runLength_le _) _ hd
      exact fun e he cs => runLength_append (stops_of rfl rfl) he cs
  | number hc =>
    apply isLineEnd_of_mem_succ _ _ hd
    · cases hc with
      | inl hc => exact stops_isDigit.isLineEnd hc
      | inr hc => rw [hc]; rfl
    · intro d hd
      exact isLineEnd_of_mem_take numberLength_le (fun e he cs => numberLength_append he cs) hd
  | name hc =>
    cases List.mem_cons.mp hd with
    | inl hd =>
      rw [hd]
      exact Stops.isLineEnd (stops_of rfl rfl) hc
    | inr hd =>
      apply isLineEnd_of_mem_take (runLength_le isNameChar) _ hd
      exact fun e he cs => runLength_append stops_isNameChar he cs
  | @op op ho =>
    rw [cons_take_operator ho] at hd
    exact (isLineEnd_of_mem_operators op (List.mem_of_find?_eq_some ho)).2 d hd
  | string => exact absurd rfl hk

theorem getLast?_of_lexeme {c : Char} {cs : List Char} {kind : Kind} {extra : Nat}
    (h : lexeme c cs = .token kind extra) : (c :: cs.take extra).getLast? ≠ some '\n' := by
  by_cases hk : kind = .string
  · subst hk
    have hr := h ▸ reads_lexeme c cs
    cases hr with
    | @string mark rest quote n hc hm hq hn =>
      obtain ⟨inner, hi⟩ := take_string mark hn
      have hpos := length_delimiter quote rest
      have htake : c :: cs.take (mark.length + (delimiter quote rest).length - 1 + n) =
          (c :: cs).take (mark.length + ((delimiter quote rest).length + n)) := by
        rw [← List.take_succ_cons]
        congr 1
        omega
      rw [htake, hc, hi, List.getLast?_append, getLast?_delimiter, Option.some_or]
      intro h
      exact isQuote_ne_lineFeed hq (Option.some.inj h)
  · apply getLast?_ne_of_notMem
    intro hm
    have := isLineEnd_of_mem_text h hk '\n' hm
    cases this

theorem drop_commentLength (cs : List Char) :
    cs.drop (commentLength cs) = cs.dropWhile (!isLineEnd ·) := by
  have hrest : (cs.takeWhile (!isLineEnd ·) ++ cs.dropWhile (!isLineEnd ·)).drop
      (commentLength cs) = cs.dropWhile (!isLineEnd ·) := List.drop_left
  rwa [List.takeWhile_append_dropWhile] at hrest

theorem isLineEnd_of_drop_commentLength {c : Char} {cs rest : List Char}
    (h : cs.drop (commentLength cs) = c :: rest) : isLineEnd c = true := by
  rw [drop_commentLength] at h
  have hstart := startsWith_dropWhile (h ▸ List.cons_ne_nil c rest)
  rwa [h] at hstart

theorem kind_of_lexeme {c : Char} {cs : List Char} {kind : Kind} {extra : Nat}
    (h : lexeme c cs = .token kind extra) :
    kind = .comment ∨ kind = .op ∨ kind = .name ∨ kind = .number ∨ kind = .string := by
  have hr := h ▸ reads_lexeme c cs
  cases hr <;> simp

theorem exists_delimiter {c : Char} {cs close : List Char} (h : lexeme c cs = .opening close) :
    ∃ quote rest, isQuote quote = true ∧ close = delimiter quote rest := by
  have hr := h ▸ reads_lexeme c cs
  cases hr with
  | @opening mark rest quote _ _ hq => exact ⟨quote, rest, hq, rfl⟩

theorem quote_of_lexeme {c : Char} {cs close : List Char} (h : lexeme c cs = .opening close) :
    ∃ quote, isQuote quote = true ∧ close.getLast? = some quote := by
  obtain ⟨quote, rest, hq, rfl⟩ := exists_delimiter h
  exact ⟨quote, hq, getLast?_delimiter quote rest⟩

end StyleCheck.Token
