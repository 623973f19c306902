import StyleCheck.Proofs.Text.AsciiBytes
import StyleCheck.Proofs.Token.NumberForm
import StyleCheck.Proofs.Token.Origins

namespace StyleCheck.Token

open Text

inductive StartsNumber : List Char → Prop
  | digit {d : Char} {rest : List Char} (h : d.isDigit = true) : StartsNumber (d :: rest)
  | dot {d : Char} {rest : List Char} (h : d.isDigit = true) : StartsNumber ('.' :: d :: rest)

structure IsNumber (text : List Char) : Prop where
  form : ∃ form : NumberForm, form.spelling = text
  starts : StartsNumber text

structure IsLongest (p : List Char → Prop) (cs text : List Char) : Prop where
  isPrefix : text <+: cs
  holds : p text
  longest : ∀ other, other <+: cs → p other → other.length ≤ text.length

def isNameByte (b : UInt8) : Bool :=
  (Char.ofUInt8 b).isAlphanum || Char.ofUInt8 b == '_' || 0x80 ≤ b.toNat

/-- A token of its kind takes as much as it can of what stands on the line. -/
structure TakesMost (cs : List Char) (t : Token) : Prop where
  number : t.kind = .number → IsLongest IsNumber cs t.text
  name : t.kind = .name → bytes t.text = (bytes cs).takeWhile isNameByte
  op : t.kind = .op → IsLongest (· ∈ operators) cs t.text
  dot : t.kind = .op → t.text = ['.'] → startsWith Char.isDigit (cs.drop 1) = false

def restOfLine (source : List Char) (p : Position) : List Char :=
  dropBytes p.column ((lines source).getD (p.line - 1) [])

variable {c : Char} {cs text op : List Char} {extra : Nat} {kind : Kind}

section Numbers

theorem startsNumber_dot (h : startsWith Char.isDigit cs = true) : StartsNumber ('.' :: cs) := by
  obtain ⟨d, rest, rfl, hd⟩ := startsWith_eq_true_iff.mp h
  exact .dot hd

theorem lexeme_dot (cs : List Char) : lexeme '.' cs =
    if startsWith Char.isDigit cs then .token .number (numberLength ('.' :: cs) - 1)
    else match operator? ('.' :: cs) with
      | some op => .token .op (op.length - 1)
      | none => .stray (.invalidCharacter '.') :=
  rfl

theorem startsNumber_of_lexeme (h : lexeme c cs = .token .number extra) :
    StartsNumber (c :: cs) := by
  have hr := h ▸ reads_lexeme c cs
  cases hr with
  | number hc =>
    rcases hc with hc | rfl
    · exact .digit hc
    · rw [lexeme_dot] at h
      split at h
      · exact startsNumber_dot ‹_›
      · split at h <;> cases h

theorem StartsNumber.extend (h : StartsNumber text) (hbegins : text <+: cs) : StartsNumber cs := by
  obtain ⟨rest, rfl⟩ := hbegins
  cases h with
  | digit hd => exact .digit hd
  | dot hd => exact .dot hd

theorem StartsNumber.exists_form (h : StartsNumber cs) :
    ∃ form : NumberForm, form.spelling <+: cs ∧ StartsNumber form.spelling := by
  cases h with
  | @digit d rest hd =>
    have hdigits : ∀ c ∈ [d], c.isDigit = true ∨ c = '_' := List.forall_mem_singleton.mpr (.inl hd)
    exact ⟨.decimal ⟨[d], none, none, none, hdigits, by simp, by simp⟩, ⟨rest, rfl⟩, .digit hd⟩
  | @dot d rest hd =>
    have hdigits : ∀ digits ∈ some [d], ∀ c ∈ digits, c.isDigit = true ∨ c = '_' := by
      simp [hd]
    exact ⟨.decimal ⟨[], some [d], none, none, by simp, hdigits, by simp⟩, ⟨rest, rfl⟩, .dot hd⟩

theorem NumberForm.length_le (form : NumberForm) (h : form.spelling <+: cs) :
    form.spelling.length ≤ numberLength cs := by
  obtain ⟨rest, rfl⟩ := h
  exact form.length_spelling_le rest

theorem StartsNumber.take (h : StartsNumber cs) : StartsNumber (cs.take (numberLength cs)) := by
  obtain ⟨form, hbegins, hstarts⟩ := h.exists_form
  exact hstarts.extend (List.prefix_take_iff.mpr ⟨hbegins, form.length_le hbegins⟩)

theorem StartsNumber.length_pos (h : StartsNumber cs) : 0 < numberLength cs := by
  apply Nat.pos_of_ne_zero
  intro hzero
  have htake := h.take
  rw [hzero, List.take_zero] at htake
  cases htake

theorem isLongest_number (h : StartsNumber cs) :
    IsLongest IsNumber cs (cs.take (numberLength cs)) := by
  constructor
  · exact List.take_prefix _ _
  · exact ⟨exists_form cs, h.take⟩
  · rintro _ hbegins ⟨⟨form, rfl⟩, -⟩
    rw [List.length_take_of_le (numberLength_le cs)]
    exact form.length_le hbegins

end Numbers

section Names

theorem isNameByte_ofNat (h : c.toNat < 0x80) : isNameByte (UInt8.ofNat c.toNat) = isNameChar c := by
  have hchar : Char.ofUInt8 (UInt8.ofNat c.toNat) = c := Char.toNat_inj.mp (toNat_ofNat_of_lt h)
  have hlow : decide (0x80 ≤ c.toNat) = false := decide_eq_false (Nat.not_le.mpr h)
  rw [isNameByte, hchar, toNat_ofNat_of_lt h, hlow, isNameChar, isNameStart, hlow, Char.isAlphanum]
  ac_rfl

theorem takeWhile_bytes (cs : List Char) :
    (bytes cs).takeWhile isNameByte = bytes (cs.takeWhile isNameChar) := by
  induction cs with
  | nil => rfl
  | cons c cs ih =>
    rw [bytes_cons]
    rcases Nat.lt_or_ge c.toNat 0x80 with hc | hc
    · rw [utf8EncodeChar_of_lt hc, List.singleton_append, List.takeWhile_cons, List.takeWhile_cons,
        isNameByte_ofNat hc]
      split
      · rw [ih, bytes_cons, utf8EncodeChar_of_lt hc, List.singleton_append]
      · rfl
    · have hbytes : ∀ b ∈ String.utf8EncodeChar c, isNameByte b = true := by
        intro b hb
        simp [isNameByte, le_of_mem_utf8EncodeChar hc hb]
      have hchar : isNameChar c = true := by simp [isNameChar, isNameStart, hc]
      rw [List.takeWhile_append_of_pos hbytes, ih, List.takeWhile_cons_of_pos hchar, bytes_cons]

end Names

section Operators

theorem operators_by_length : operators.Pairwise fun a b => b.length ≤ a.length := by
  decide

theorem isLongest_operator (h : operator? cs = some op) : IsLongest (· ∈ operators) cs op := by
  refine ⟨operator?_isPrefix h, List.mem_of_find?_eq_some h, ?_⟩
  intro other hbegins hother
  obtain ⟨-, before, after, hlist, hbefore⟩ := List.find?_eq_some_iff_append.mp h
  -- What comes before it in the list does not match, and what comes after it is not longer.
  rw [hlist, List.mem_append, List.mem_cons] at hother
  rcases hother with hother | rfl | hother
  · have hnot := hbefore other hother
    rw [List.isPrefixOf_iff_prefix.mpr hbegins] at hnot
    cases hnot
  · exact Nat.le_refl _
  · have hpairs := operators_by_length
    rw [hlist, List.pairwise_append, List.pairwise_cons] at hpairs
    exact hpairs.2.1.1 other hother

end Operators

section Lexemes

theorem cons_take_pred {n : Nat} (h : 0 < n) : c :: cs.take (n - 1) = (c :: cs).take n := by
  obtain ⟨m, rfl⟩ := Nat.exists_eq_add_one_of_ne_zero h.ne'
  rfl

theorem takesMost_of_lexeme {line column : Nat} (h : lexeme c cs = .token kind extra) :
    TakesMost (c :: cs) (onLine line column kind (c :: cs.take extra)) := by
  have hr := h ▸ reads_lexeme c cs
  constructor
  · rintro rfl
    have hstarts := startsNumber_of_lexeme h
    cases hr with
    | number =>
      have hlongest := isLongest_number hstarts
      rwa [← cons_take_pred hstarts.length_pos] at hlongest
  · rintro rfl
    cases hr with
    | name hc =>
      have hstart : isNameChar c = true := by simp [isNameChar, hc]
      have htail : cs.take (cs.takeWhile isNameChar).length = cs.takeWhile isNameChar :=
        take_runLength isNameChar cs
      rw [takeWhile_bytes, List.takeWhile_cons_of_pos hstart, htail]
      rfl
  · rintro rfl
    cases hr with
    | op ho =>
      have hlongest := isLongest_operator ho
      rwa [← cons_take_operator ho] at hlongest
  · rintro rfl htext
    obtain ⟨rfl, -⟩ := List.cons.inj htext
    rw [Bool.eq_false_iff]
    intro hdigit
    rw [List.drop_one, List.tail_cons] at hdigit
    rw [lexeme_dot, if_pos hdigit] at h
    cases h

end Lexemes

section Reading

variable {source head : List Char} {before : List (List Char)} {tokens : List Token} {t : Token}

theorem restOfLine_eq (h : InLine source before head cs) :
    restOfLine source ⟨before.length + 1, width head⟩ = cs := by
  obtain ⟨after, hl⟩ := h
  have hline : (lines source).getD before.length [] = head ++ cs := by simp [hl]
  rw [restOfLine, Nat.add_sub_cancel, hline, dropBytes_width]

theorem takesMost_of_kind (h : t.kind ∉ [Kind.name, .number, .op]) : TakesMost cs t := by
  simp only [List.mem_cons, List.not_mem_nil, or_false, not_or] at h
  obtain ⟨hname, hnumber, hop⟩ := h
  exact ⟨fun hk => absurd hk hnumber, fun hk => absurd hk hname, fun hk => absurd hk hop,
    fun hk => absurd hk hop⟩

theorem Origin.takesMost (h : Origin source t) : TakesMost (restOfLine source t.start) t := by
  cases h with
  | lexeme hl h ht =>
    rw [ht, onLine, restOfLine_eq hl]
    exact takesMost_of_lexeme h
  | closing hk | comment hk | margin hk => exact takesMost_of_kind (by simp [hk])
  | lineBreak hk => rcases hk with hk | hk <;> exact takesMost_of_kind (by simp [hk])
  | empty hk =>
    simp only [List.mem_cons, List.not_mem_nil, or_false] at hk
    rcases hk with hk | hk | hk <;> exact takesMost_of_kind (by simp [hk])

theorem isNumber_of_tokenize (h : tokenize source = .ok tokens) (ht : t ∈ tokens)
    (hk : t.kind = .number) : IsNumber t.text :=
  ((origin_of_tokenize h t ht).takesMost.number hk).holds

end Reading

theorem takesMost_of_tokenize {source : List Char} {tokens : List Token}
    (h : tokenize source = .ok tokens) : ∀ t ∈ tokens, TakesMost (restOfLine source t.start) t :=
  fun t ht => (origin_of_tokenize h t ht).takesMost

theorem takesMost_of_words_without_blanks : ∃ tokens,
    tokenize "é.x=0xFg**=1.e+5J-2e\n".toList = .ok tokens ∧
      tokens.map (fun t => String.ofList t.text) =
        ["é", ".", "x", "=", "0xF", "g", "**=", "1.e+5J", "-", "2", "e", "\n", ""] ∧
      ∀ t ∈ tokens, TakesMost (restOfLine "é.x=0xFg**=1.e+5J-2e\n".toList t.start) t :=
  ⟨_, rfl, by decide, takesMost_of_tokenize rfl⟩

end StyleCheck.Token
