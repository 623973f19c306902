import StyleCheck.Proofs.Text.AsciiBytes
import StyleCheck.Proofs.Token.LeadingWord
import StyleCheck.Proofs.Token.StringSpan

/-!
Where strings end. The end is looked for on one line after the other; in the whole text of the
string it is the place at which a reading from left to right first meets the delimiter.
-/

namespace StyleCheck.Token

open Text

/-- Read from the left, each backslash together with the byte after it, the bytes have `close` for
the first time behind the first `n` of them. -/
inductive MeetsFirst (close : List UInt8) : List UInt8 → Nat → Prop
  | here {bs : List UInt8} (h : close <+: bs) : MeetsFirst close bs 0
  | escape {b : UInt8} {bs : List UInt8} {n : Nat} (h : MeetsFirst close bs n) :
      MeetsFirst close (0x5C :: b :: bs) (n + 2)
  | byte {b : UInt8} {bs : List UInt8} {n : Nat} (hb : b ≠ 0x5C) (hc : ¬ close <+: b :: bs)
      (h : MeetsFirst close bs n) : MeetsFirst close (b :: bs) (n + 1)

def Opens (close after text : List Char) : Prop :=
  ∃ mark quote rest, text = mark ++ quote :: rest ∧ (mark = [] ∨ isStringMark mark = true) ∧
    isQuote quote = true ∧ close = delimiter quote rest ∧ quote :: rest = close ++ after

/-- A text that opens a string and ends where its delimiter is met again. -/
def IsLiteral (text : List Char) : Prop :=
  ∃ close body, Opens close (body ++ close) text ∧
    MeetsFirst (bytes close) (bytes (body ++ close)) (width body)

inductive Passes (close rest : List Char) : List Char → Prop
  | nil : Passes close rest []
  | escape {c : Char} {cs : List Char} (h : Passes close rest cs) :
      Passes close rest ('\\' :: c :: cs)
  | char {c : Char} {cs : List Char} (hb : c ≠ '\\') (hc : ¬ close <+: c :: (cs ++ rest))
      (h : Passes close rest cs) : Passes close rest (c :: cs)

def EndsLine (cs : List Char) : Prop :=
  ∃ body, '\n' ∉ body ∧ cs = body ++ ['\n']

variable {close rest more cs ds : List Char} {c quote : Char}

section Line

theorem endsLine_cons (h : EndsLine (c :: cs)) : c = '\n' ∧ cs = [] ∨ c ≠ '\n' ∧ EndsLine cs := by
  obtain ⟨body, hbody, heq⟩ := h
  cases body with
  | nil =>
    cases heq
    exact .inl ⟨rfl, rfl⟩
  | cons d body =>
    cases heq
    obtain ⟨hd, hbody⟩ := List.ne_and_not_mem_of_not_mem_cons hbody
    exact .inr ⟨hd.symm, body, hbody, rfl⟩

theorem EndsLine.suffix (h : EndsLine (ds ++ c :: cs)) : EndsLine (c :: cs) := by
  induction ds with
  | nil => exact h
  | cons d ds ih =>
    rcases endsLine_cons h with ⟨-, hnil⟩ | ⟨-, hrest⟩
    · simp at hnil
    · exact ih hrest

theorem endsLine_of_lines {source : List Char} {before pieces after : List (List Char)}
    (hl : lines source = before ++ (pieces ++ after)) (hafter : after ≠ []) :
    ∀ line ∈ pieces, EndsLine line := by
  intro line hline
  have hinit : line ∈ (lines source).dropLast := by
    rw [hl, ← List.append_assoc, List.dropLast_append_of_ne_nil hafter]
    exact List.mem_append_left _ (List.mem_append_right _ hline)
  have hlast := getLast?_of_mem_dropLast_lines source line hinit
  obtain ⟨body, hbody, rfl | hfeed⟩ := exists_body_of_mem_lines (List.dropLast_subset _ hinit)
  · exact absurd (List.mem_of_getLast? hlast) hbody
  · exact ⟨body, hbody, hfeed⟩

end Line

namespace Passes

theorem append (h : Passes close (ds ++ rest) cs) (h' : Passes close rest ds) :
    Passes close rest (cs ++ ds) := by
  induction h with
  | nil => exact h'
  | escape _ ih => exact .escape ih
  | @char c cs hb hc _ ih =>
    refine .char hb ?_ ih
    rwa [← List.append_assoc] at hc

end Passes

section Closing

theorem ne_of_isQuote {d : Char} (h : isQuote c = true) (hd : isQuote d = false) : c ≠ d := by
  rintro rfl
  rw [h] at hd
  cases hd

theorem exists_passes_of_closingFrom? {escaped : Bool} {n : Nat}
    (h : closingFrom? close escaped cs = some n) : ∃ body, cs.take n = body ++ close ∧
      Passes close close (if escaped then '\\' :: body else body) := by
  fun_induction closingFrom? close escaped cs generalizing n with
  | case1 => simp at h
  | case2 c cs ih =>
    obtain ⟨m, hm, rfl⟩ := Option.map_eq_some_iff.mp h
    obtain ⟨body, hbody, hp⟩ := ih hm
    exact ⟨c :: body, by rw [List.take_succ_cons, hbody]; rfl, .escape hp⟩
  | case3 cs ih =>
    obtain ⟨m, hm, rfl⟩ := Option.map_eq_some_iff.mp h
    obtain ⟨body, hbody, hp⟩ := ih hm
    exact ⟨'\\' :: body, by rw [List.take_succ_cons, hbody]; rfl, hp⟩
  | case4 c cs hb hp =>
    cases h
    exact ⟨[], (List.prefix_iff_eq_take.mp (List.isPrefixOf_iff_prefix.mp hp)).symm, .nil⟩
  | case5 => simp at h
  | case6 c cs hb hp _ ih =>
    obtain ⟨m, hm, rfl⟩ := Option.map_eq_some_iff.mp h
    obtain ⟨body, hbody, hpass⟩ := ih hm
    have htake : (c :: cs).take (m + 1) = c :: (body ++ close) := by
      rw [List.take_succ_cons, hbody]
    refine ⟨c :: body, htake, .char hb ?_ hpass⟩
    intro hclose
    apply hp
    rw [List.isPrefixOf_iff_prefix]
    exact hclose.trans (htake ▸ List.take_prefix (m + 1) (c :: cs))

theorem passes_of_closingFrom? {escaped : Bool} (hq : ∀ c ∈ close, isQuote c = true)
    (hl : EndsLine cs) (h : closingFrom? close escaped cs = none) (rest : List Char) :
    Passes close rest (if escaped then '\\' :: cs else cs) := by
  have hfeed : '\n' ∉ close := fun hm => by cases hq _ hm
  -- A delimiter does not reach beyond the end of a line, so `rest` has no part in it.
  have hcut : ∀ {ds}, EndsLine ds → close.isPrefixOf ds = false → ¬ close <+: ds ++ rest := by
    intro ds hds hp hclose
    rcases List.prefix_or_prefix_of_prefix hclose (List.prefix_append ds rest) with hd | hd
    · rw [List.isPrefixOf_iff_prefix.mpr hd] at hp
      cases hp
    · obtain ⟨body, -, rfl⟩ := hds
      exact hfeed (hd.subset (by simp))
  fun_induction closingFrom? close escaped cs with
  | case1 =>
    obtain ⟨body, -, hnil⟩ := hl
    simp at hnil
  | case2 c cs ih =>
    rw [Option.map_eq_none_iff] at h
    rcases endsLine_cons hl with ⟨-, rfl⟩ | ⟨-, hrest⟩
    · exact .escape .nil
    · exact .escape (ih hrest h)
  | case3 cs ih =>
    rw [Option.map_eq_none_iff] at h
    rcases endsLine_cons hl with ⟨hb, -⟩ | ⟨-, hrest⟩
    · cases hb
    · exact ih hrest h
  | case4 => simp at h
  | case5 c cs hb hp hc =>
    rcases endsLine_cons hl with ⟨-, rfl⟩ | ⟨hne, -⟩
    · exact .char hb (hcut hl (Bool.eq_false_iff.mpr hp)) .nil
    · exact absurd hc.2 hne
  | case6 c cs hb hp _ ih =>
    rw [Option.map_eq_none_iff] at h
    have hchar := hcut hl (Bool.eq_false_iff.mpr hp)
    rcases endsLine_cons hl with ⟨-, rfl⟩ | ⟨-, hrest⟩
    · exact .char hb hchar .nil
    · exact .char hb hchar (ih hrest h)

end Closing

section Bytes

theorem lt_of_isQuote (h : isQuote c = true) : c.toNat < 0x80 := by
  simp only [isQuote, Bool.or_eq_true, beq_iff_eq] at h
  rcases h with rfl | rfl <;> decide

theorem exists_byte_of_quotes (hq : ∀ c ∈ close, isQuote c = true) (hne : close ≠ []) :
    ∃ b bs, bytes close = b :: bs ∧ b.toNat < 0x80 := by
  obtain ⟨q, qs, rfl⟩ := List.exists_cons_of_ne_nil hne
  have hlt := lt_of_isQuote (hq q List.mem_cons_self)
  refine ⟨_, bytes qs, by rw [bytes_cons, utf8EncodeChar_of_lt hlt]; rfl, ?_⟩
  rwa [toNat_ofNat_of_lt hlt]

theorem MeetsFirst.append {first : UInt8} {others mid bs : List UInt8} {n : Nat}
    (h : MeetsFirst (first :: others) bs n) (hfirst : first.toNat < 0x80)
    (hmid : ∀ b ∈ mid, 0x80 ≤ b.toNat) :
    MeetsFirst (first :: others) (mid ++ bs) (mid.length + n) := by
  induction mid with
  | nil => simpa using h
  | cons b mid ih =>
    obtain ⟨hb, hmid⟩ := List.forall_mem_cons.mp hmid
    rw [List.length_cons, Nat.add_right_comm]
    refine .byte ?_ ?_ (ih hmid)
    · rintro rfl
      exact absurd hb (by decide)
    · intro hprefix
      rw [(List.cons_prefix_cons.mp hprefix).1] at hfirst
      omega

theorem Passes.meetsFirst (h : Passes close rest cs) (hq : ∀ c ∈ close, isQuote c = true)
    (hne : close ≠ []) (hrest : close <+: rest) :
    MeetsFirst (bytes close) (bytes (cs ++ rest)) (width cs) := by
  have hlow : ∀ c ∈ close, c.toNat < 0x80 := fun c hc => lt_of_isQuote (hq c hc)
  obtain ⟨first, others, hbytes, hfirst⟩ := exists_byte_of_quotes hq hne
  induction h with
  | nil =>
    obtain ⟨after, rfl⟩ := hrest
    exact .here (by simp)
  | @escape c cs _ ih =>
    obtain ⟨b, more, hc, hmore⟩ := exists_utf8EncodeChar c
    have hsize : c.utf8Size = more.length + 1 := by
      rw [← String.length_utf8EncodeChar, hc, List.length_cons]
    rw [hbytes] at ih ⊢
    have hbackslash : String.utf8EncodeChar '\\' = [0x5C] := rfl
    have hstep := (ih.append hfirst hmore).escape (b := b)
    simp only [List.cons_append, bytes_cons, hbackslash, hc, width, hsize, List.nil_append]
    rwa [show ('\\').utf8Size + (more.length + 1 + width cs) = more.length + width cs + 2 by
      rw [show ('\\').utf8Size = 1 from rfl]; omega]
  | @char c cs hb hc _ ih =>
    rw [List.cons_append, width]
    rcases Nat.lt_or_ge c.toNat 0x80 with hlt | hge
    · have hsize : c.utf8Size = 1 := by
        rw [← String.length_utf8EncodeChar, utf8EncodeChar_of_lt hlt]
        rfl
      rw [hsize, Nat.add_comm 1]
      have hprefix : ¬ bytes close <+: bytes (c :: (cs ++ rest)) := fun h =>
        hc (isPrefix_of_bytes hlow h)
      rw [bytes_cons, utf8EncodeChar_of_lt hlt, List.cons_append, List.nil_append] at hprefix ⊢
      refine .byte ?_ hprefix ih
      intro hbyte
      have hcode := congrArg UInt8.toNat hbyte
      rw [toNat_ofNat_of_lt hlt] at hcode
      exact hb (Char.toNat_inj.mp hcode)
    · rw [hbytes] at ih ⊢
      rw [bytes_cons, ← String.length_utf8EncodeChar]
      exact ih.append hfirst fun b hmem => le_of_mem_utf8EncodeChar hge hmem

end Bytes

section Parts

theorem delimiter_cases (quote : Char) (cs : List Char) :
    delimiter quote cs = [quote] ∧ ¬ [quote, quote] <+: cs ∨
      delimiter quote cs = [quote, quote, quote] ∧ [quote, quote] <+: cs := by
  rw [← List.isPrefixOf_iff_prefix, Bool.not_eq_true]
  unfold delimiter
  cases [quote, quote].isPrefixOf cs <;> simp

theorem quotes_delimiter (hq : isQuote quote = true) (cs : List Char) :
    ∀ c ∈ delimiter quote cs, isQuote c = true :=
  fun _ hc => isQuote_of_mem_delimiter hq hc

theorem delimiter_append_drop (quote : Char) (cs : List Char) :
    quote :: cs = delimiter quote cs ++ cs.drop ((delimiter quote cs).length - 1) := by
  rcases delimiter_cases quote cs with ⟨h, -⟩ | ⟨h, tail, hcs⟩
  · simp [h]
  · rw [h, ← hcs]
    rfl

/-- The text of a string determines its delimiter: the body does not begin with a quote that would
make a short one long. -/
theorem opens_of_passes {mark body : List Char} (hm : mark = [] ∨ isStringMark mark = true)
    (hq : isQuote quote = true) (hp : Passes (delimiter quote cs) (delimiter quote cs) body) :
    Opens (delimiter quote cs) (body ++ delimiter quote cs)
      (mark ++ (delimiter quote cs ++ (body ++ delimiter quote cs))) := by
  rcases delimiter_cases quote cs with ⟨h, -⟩ | ⟨h, -⟩
  · rw [h] at hp ⊢
    refine ⟨mark, quote, body ++ [quote], rfl, hm, hq, ?_, rfl⟩
    rcases delimiter_cases quote (body ++ [quote]) with ⟨hd, -⟩ | ⟨-, hd⟩
    · exact hd.symm
    · cases hp with
      | nil => simp at hd
      | escape => exact absurd (List.cons_prefix_cons.mp hd).1 (ne_of_isQuote hq rfl)
      | char _ hc => exact absurd ⟨_, congrArg (· :: _) (List.cons_prefix_cons.mp hd).1⟩ hc
  · rw [h] at hp ⊢
    refine ⟨mark, quote, quote :: quote :: (body ++ [quote, quote, quote]), rfl, hm, hq, ?_, rfl⟩
    simp [delimiter]

theorem isLiteral_of_passes {mark body : List Char} (hm : mark = [] ∨ isStringMark mark = true)
    (hq : isQuote quote = true) (hp : Passes (delimiter quote cs) (delimiter quote cs) body) :
    IsLiteral (mark ++ (delimiter quote cs ++ (body ++ delimiter quote cs))) := by
  have hne : delimiter quote cs ≠ [] := by
    intro hnil
    have hlength := length_delimiter quote cs
    simp [hnil] at hlength
  exact ⟨_, body, opens_of_passes hm hq hp,
    hp.meetsFirst (quotes_delimiter hq cs) hne (List.prefix_refl _)⟩

theorem exists_parts_of_token {extra : Nat} (h : lexeme c cs = .token .string extra) :
    ∃ mark quote rest body, (mark = [] ∨ isStringMark mark = true) ∧ isQuote quote = true ∧
      c :: cs.take extra = mark ++ (delimiter quote rest ++ (body ++ delimiter quote rest)) ∧
      Passes (delimiter quote rest) (delimiter quote rest) body := by
  have hr := h ▸ reads_lexeme c cs
  cases hr with
  | @string mark rest quote n hc hm hq hn =>
    obtain ⟨body, hbody, hp⟩ := exists_passes_of_closingFrom? hn
    refine ⟨mark, quote, rest, body, hm, hq, ?_, hp⟩
    have hpos := length_delimiter quote rest
    have hcount : mark.length + (delimiter quote rest).length - 1 + n + 1 =
        mark.length + ((delimiter quote rest).length + n) := by omega
    rw [← List.take_succ_cons, hcount, hc, List.take_length_add_append,
      delimiter_append_drop quote rest, List.take_length_add_append, hbody]

theorem exists_parts_of_opening (h : lexeme c cs = .opening close) :
    ∃ mark quote rest tail, (mark = [] ∨ isStringMark mark = true) ∧ isQuote quote = true ∧
      close = delimiter quote rest ∧ c :: cs = mark ++ quote :: rest ∧
      quote :: rest = delimiter quote rest ++ tail ∧
      closing? (delimiter quote rest) tail = none ∧
      continues (delimiter quote rest) rest = true := by
  have hr := h ▸ reads_lexeme c cs
  cases hr with
  | @opening mark rest quote hc hm hq hn hcontinues =>
    exact ⟨mark, quote, rest, _, hm, hq, rfl, hc, delimiter_append_drop quote rest, hn, hcontinues⟩

end Parts

section Short

def HasShortQuote (text : List Char) : Prop :=
  ∃ quote after, Opens [quote] after text

theorem toLower_of_mem_mark {mark : List Char} (hm : mark = [] ∨ isStringMark mark = true)
    {d : Char} (hd : d ∈ mark) : d.toLower ∈ ['r', 'u', 'b', 'f'] := by
  rcases hm with rfl | hm
  · cases hd
  · have hletters : ∀ word ∈ stringMarks, ∀ e ∈ word, e ∈ ['r', 'u', 'b', 'f'] := by
      simp [stringMarks]
    exact hletters _ (of_decide_eq_true hm) _ (List.mem_map_of_mem hd)

theorem isQuote_of_mem_mark {mark : List Char} (hm : mark = [] ∨ isStringMark mark = true)
    {d : Char} (hd : d ∈ mark) : isQuote d = false := by
  have hlower := toLower_of_mem_mark hm hd
  rw [Bool.eq_false_iff]
  intro hquote
  simp only [isQuote, Bool.or_eq_true, beq_iff_eq] at hquote
  rcases hquote with rfl | rfl <;> exact absurd hlower (by simp)

theorem append_cons_inj_of_first {p : Char → Bool} {head head' : List Char} {d d' : Char}
    (hh : ∀ c ∈ head, p c = false) (hh' : ∀ c ∈ head', p c = false) (hd : p d = true)
    (hd' : p d' = true) (h : head ++ d :: cs = head' ++ d' :: ds) :
    head = head' ∧ d = d' ∧ cs = ds := by
  have hcut : ∀ {m : List Char} {q : Char} {rest : List Char}, (∀ c ∈ m, p c = false) →
      p q = true → (m ++ q :: rest).takeWhile (!p ·) = m := by
    intro m q rest hm hq
    exact takeWhile_append_stop (fun c hc => by simp [hm c hc]) (by simp [hq]) rest
  have hhead : head = head' := by rw [← hcut hh hd, h, hcut hh' hd']
  subst hhead
  exact ⟨rfl, List.cons.inj (List.append_cancel_left h)⟩

theorem eq_of_marks {mark mark' : List Char} {quote' : Char}
    (hm : mark = [] ∨ isStringMark mark = true) (hm' : mark' = [] ∨ isStringMark mark' = true)
    (hq : isQuote quote = true) (hq' : isQuote quote' = true)
    (h : mark ++ quote :: cs = mark' ++ quote' :: ds) : quote = quote' ∧ cs = ds :=
  (append_cons_inj_of_first (fun _ => isQuote_of_mem_mark hm) (fun _ => isQuote_of_mem_mark hm')
    hq hq' h).2

theorem HasShortQuote.delimiter_eq {mark after : List Char}
    (hm : mark = [] ∨ isStringMark mark = true) (hq : isQuote quote = true)
    (h : HasShortQuote (mark ++ (delimiter quote cs ++ after))) : delimiter quote cs = [quote] := by
  obtain ⟨q, after', mark', quote', rest, htext, hm', hq', hshort, -⟩ := h
  rcases delimiter_cases quote cs with ⟨hd, -⟩ | ⟨hd, -⟩
  · exact hd
  · rw [hd] at htext
    obtain ⟨rfl, rfl⟩ := eq_of_marks hm hm' hq hq' htext
    simp [delimiter] at hshort

end Short

theorem passes_flatten {inner : List (List Char)} (hq : ∀ c ∈ close, isQuote c = true)
    (hl : ∀ line ∈ inner, EndsLine line) (hi : ∀ line ∈ inner, closing? close line = none)
    (rest : List Char) : Passes close rest inner.flatten := by
  induction inner with
  | nil => exact .nil
  | cons line inner ih =>
    obtain ⟨hline, hl⟩ := List.forall_mem_cons.mp hl
    obtain ⟨hopen, hi⟩ := List.forall_mem_cons.mp hi
    exact (passes_of_closingFrom? hq hline hopen _).append (ih hl hi)

theorem isLiteral_of_stringSpan {source : List Char} {t : Token} (h : StringSpan source t) :
    IsLiteral t.text := by
  cases h with
  | within _ h ht =>
    obtain ⟨mark, quote, rest, body, hm, hq, htext, hp⟩ := exists_parts_of_token h
    rw [ht, onLine, htext]
    exact isLiteral_of_passes hm hq hp
  | @across before inner after head cs close last c n hl h hi hn ht =>
    obtain ⟨mark, quote, rest, tail, hm, hq, rfl, hopen, htail, hnone, -⟩ :=
      exists_parts_of_opening h
    rw [htail] at hopen
    obtain ⟨body, hlast, hp⟩ := exists_passes_of_closingFrom? hn
    have hquotes := quotes_delimiter hq rest
    have hl : lines source = before ++ (((head ++ c :: cs) :: inner) ++ last :: after) := hl
    obtain ⟨hline, hinner⟩ := List.forall_mem_cons.mp (endsLine_of_lines hl (by simp))
    have hfirst : ∀ rest', Passes (delimiter quote rest) rest' tail := by
      cases tail with
      | nil => exact fun _ => .nil
      | cons d tail =>
        rw [hopen, ← List.append_assoc, ← List.append_assoc] at hline
        exact passes_of_closingFrom? hquotes hline.suffix hnone
    have hall := (hfirst _).append ((passes_flatten hquotes hinner hi _).append hp)
    have htext : t.text = mark ++ (delimiter quote rest ++
        ((tail ++ (inner.flatten ++ body)) ++ delimiter quote rest)) := by
      rw [ht]
      simp only [hopen, hlast, List.append_assoc]
    rw [htext]
    exact isLiteral_of_passes hm hq hall

theorem isLiteral_of_tokenize {source : List Char} {tokens : List Token}
    (h : tokenize source = .ok tokens) : ∀ t ∈ tokens, t.kind = .string → IsLiteral t.text :=
  fun _ ht hk => isLiteral_of_stringSpan (stringSpan_of_tokenize h ht hk)

/-- One backslash takes the first byte of a long character, another the first of four quotes. -/
theorem isLiteral_of_long_string : ∃ tokens t,
    tokenize "x = rB'''\\é'\n''\n\\''''\n".toList = .ok tokens ∧ t ∈ tokens ∧ t.kind = .string ∧
      t.text = "rB'''\\é'\n''\n\\''''".toList ∧ IsLiteral t.text := by
  obtain ⟨tokens, htokens, hmem⟩ : ∃ tokens,
      tokenize "x = rB'''\\é'\n''\n\\''''\n".toList = .ok tokens ∧
        ⟨.string, "rB'''\\é'\n''\n\\''''".toList, ⟨1, 4⟩, ⟨3, 5⟩⟩ ∈ tokens :=
    ⟨_, rfl, by decide⟩
  exact ⟨tokens, _, htokens, hmem, rfl, rfl, isLiteral_of_tokenize htokens _ hmem rfl⟩

end StyleCheck.Token
