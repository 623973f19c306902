import StyleCheck.Proofs.Token.Coverage
import StyleCheck.Proofs.Token.Delimiter
import StyleCheck.Proofs.Token.LeadingWord
import StyleCheck.Proofs.Token.Parallel

namespace StyleCheck.Token

variable {source : List Char} {tokens : List Token}

theorem LineRead.string {line : Nat} {cs close text : List Char} {s s' : State} {start : Position}
    (h : LineRead line cs s tokens s') (hp : s.pending = .string start close text) :
    (∃ t others n, tokens = t :: others ∧ t.kind = .string ∧ t.start = start ∧
      closing? close cs = some n ∧ t.stop = ⟨line, Text.width (cs.take n)⟩) ∨
    tokens = [] ∧ s'.pending = .string start close (text ++ cs) := by
  cases h with
  | @closing _ _ _ n others s' hp' hn =>
    rw [hp] at hp'
    cases hp'
    exact .inl ⟨_, others, n, rfl, rfl, rfl, hn, rfl⟩
  | inside hp' =>
    rw [hp] at hp'
    cases hp'
    exact .inr ⟨rfl, rfl⟩
  | joined hp' | nested hp' | blank hp' | fresh hp' =>
    rw [hp] at hp'
    cases hp'

theorem LinesRead.string {line : Nat} {cs close text : List Char} {rest : List (List Char)}
    {s s' : State} {start : Position} (h : LinesRead line (cs :: rest) s tokens s')
    (hp : s.pending = .string start close text) (hend : s'.pending = .nothing) :
    ∃ t others, tokens = t :: others ∧ t.kind = .string ∧ t.start = start ∧
      (line < t.stop.line ∨
        ∃ n, closing? close cs = some n ∧ t.stop = ⟨line, Text.width (cs.take n)⟩) := by
  induction rest generalizing line cs s tokens text with
  | nil =>
    cases h with
    | cons head tail =>
      cases tail
      rcases head.string hp with ⟨t, others, n, rfl, hkind, hstart, hn, hstop⟩ | ⟨-, hopen⟩
      · exact ⟨t, others ++ [], rfl, hkind, hstart, .inr ⟨n, hn, hstop⟩⟩
      · rw [hend] at hopen
        cases hopen
  | cons next rest ih =>
    cases h with
    | @cons _ _ _ _ _ _ first others head tail =>
      rcases head.string hp with ⟨t, more, n, rfl, hkind, hstart, hn, hstop⟩ | ⟨rfl, hopen⟩
      · exact ⟨t, more ++ others, rfl, hkind, hstart, .inr ⟨n, hn, hstop⟩⟩
      · obtain ⟨t, more, rfl, hkind, hstart, hstop⟩ := ih tail hopen
        refine ⟨t, more, rfl, hkind, hstart, .inl ?_⟩
        rcases hstop with hline | ⟨n, -, hstop⟩
        · omega
        · rw [hstop]
          exact Nat.lt_succ_self line

theorem eq_of_covers (h : tokens.Pairwise fun a b => ∀ i, ¬ (a.Covers source i ∧ b.Covers source i))
    {before after before' after' : List Token} {t u : Token} {i : Nat}
    (ht : tokens = before ++ t :: after) (hu : tokens = before' ++ u :: after')
    (hti : t.Covers source i) (hui : u.Covers source i) : before = before' ∧ t = u := by
  have hapart : ∀ {first : List Token} {a b : Token} {rest : List Token},
      tokens = first ++ a :: rest → b ∈ rest → ¬ (a.Covers source i ∧ b.Covers source i) := by
    rintro first a b rest rfl hb
    exact (List.pairwise_cons.mp (List.pairwise_append.mp h).2.1).1 b hb i
  rcases List.append_eq_append_iff.mp (ht.symm.trans hu) with
    ⟨more, rfl, hmore⟩ | ⟨more, rfl, hmore⟩
  · rcases List.cons_eq_append_iff.mp hmore with ⟨rfl, heq⟩ | ⟨between, rfl, rfl⟩
    · cases heq
      exact ⟨(List.append_nil _).symm, rfl⟩
    · exact absurd ⟨hti, hui⟩ (hapart ht (by simp))
  · rcases List.cons_eq_append_iff.mp hmore with ⟨rfl, heq⟩ | ⟨between, rfl, rfl⟩
    · cases heq
      exact ⟨List.append_nil _, rfl⟩
    · exact absurd ⟨hui, hti⟩ (hapart hu (by simp))

theorem exists_text_of_name (h : tokenize source = .ok tokens) {t : Token} (ht : t ∈ tokens)
    (hkind : t.kind = .name) :
    ∃ before after, source = before ++ (t.text ++ after) ∧
      Text.width before = t.start.offset source := by
  obtain ⟨read, s, final, hread, hfinal, rfl⟩ := tokenize_eq_ok_iff.mp h
  obtain ⟨hend, hclosing⟩ := closing_of_finish hfinal
  rcases List.mem_append.mp ht with hmem | hmem
  · obtain ⟨before, after, hsource, hstart⟩ := (tiled_of_linesStep hread hend).text_of_mem hmem
    have hfirst : Position.offset source ⟨1, 0⟩ = 0 := by simp [Position.offset, Text.width]
    rw [hfirst, Nat.zero_add] at hstart
    exact ⟨before, after, by rw [← List.append_assoc]; exact hsource, hstart.symm⟩
  · rcases hclosing.kind_mem t hmem with hk | hk | hk
    · simp [isImplied, hkind] at hk
    · rw [hkind] at hk
      cases hk
    · rw [hkind] at hk
      cases hk

/-- At this byte begins a name, one of the words, with which a statement begins. -/
structure LeadsStatement (words : List (List Char)) (source : List Char) (tokens : List Token)
    (offset : Nat) : Prop where
  leads : ∃ before t after, tokens = before ++ t :: after ∧ t.kind = .name ∧ t.text ∈ words ∧
    t.start.offset source = offset ∧
    (lastLogical? before = none ∨ lastLogical? before = some .newline)
  outside : ∀ t ∈ tokens, t.kind = .string → ¬ t.Covers source offset

theorem Spelled.covers {t : Token} (h : Spelled source t) (ht : t.text ≠ []) :
    t.Covers source (t.start.offset source) := by
  refine ⟨Nat.le_refl _, ?_⟩
  rcases Nat.lt_or_ge (t.start.offset source) (t.stop.offset source) with hlt | hge
  · exact hlt
  · have hbytes := h.1
    rw [List.extract_eq_take_drop, Nat.sub_eq_zero_of_le hge, List.take_zero] at hbytes
    have hwidth : t.text.length ≤ 0 := by
      have hlength := Text.length_le_width t.text
      rwa [← Text.length_bytes, ← hbytes] at hlength
    exact absurd (List.length_eq_zero_iff.mp (Nat.le_zero.mp hwidth)) ht

theorem TilesSource.name_covers {t : Token} (h : TilesSource source tokens) (ht : t ∈ tokens)
    (hkind : t.kind = .name) (htext : t.text ≠ []) :
    t.Covers source (t.start.offset source) := by
  have himplied : t.isImplied = false := by simp [isImplied, hkind]
  exact (h.spelled t ht (by simp [hkind]) (by simp [hkind]) himplied).covers htext

variable {words : List (List Char)} {before after : List Token} {t : Token} {i : Nat}

theorem LeadsStatement.of_covers (h : LeadsStatement words source tokens i)
    (htiles : TilesSource source tokens) (hwords : [] ∉ words)
    (ht : tokens = before ++ t :: after) (hti : t.Covers source i) :
    t.start.offset source = i ∧
      (lastLogical? before = none ∨ lastLogical? before = some .newline) := by
  obtain ⟨before', u, after', hu, hkind, htext, hstart, hlast⟩ := h.leads
  have hne : u.text ≠ [] := by
    intro hnil
    exact hwords (hnil ▸ htext)
  have hui : u.Covers source i := hstart ▸ htiles.name_covers (by simp [hu]) hkind hne
  obtain ⟨rfl, rfl⟩ := eq_of_covers htiles.disjoint ht hu hti hui
  exact ⟨hstart, hlast⟩

theorem leadsStatement_iff_of_name (htiles : TilesSource source tokens) (hwords : [] ∉ words)
    (ht : tokens = before ++ t :: after) (hkind : t.kind = .name) (htext : t.text ∈ words) :
    LeadsStatement words source tokens (t.start.offset source) ↔
      lastLogical? before = none ∨ lastLogical? before = some .newline := by
  have hne : t.text ≠ [] := by
    intro hnil
    exact hwords (hnil ▸ htext)
  have hti := htiles.name_covers (by simp [ht]) hkind hne
  constructor
  · intro h
    exact (h.of_covers htiles hwords ht hti).2
  · intro hlast
    refine ⟨⟨before, t, after, ht, hkind, htext, rfl, hlast⟩, ?_⟩
    intro u hu hstring hcovers
    obtain ⟨before', after', hu'⟩ := List.append_of_mem hu
    obtain ⟨-, rfl⟩ := eq_of_covers htiles.disjoint ht hu' hti hcovers
    rw [hkind] at hstring
    cases hstring

def StatementMayFollow (before : List (List Char)) : Prop :=
  ∃ read s, linesStep 1 before .start = .ok (read, s) ∧
    (∀ start close text, s.pending ≠ .string start close text) ∧
    (lastLogical? read = none ∨ lastLogical? read = some .newline)

section

variable {before after : List (List Char)} {blanks word tail : List Char} {next : Char}

theorem width_lt_of_closing {close : List Char} {quote : Char} {n : Nat}
    (hb : ∀ c ∈ blanks, Text.isBlank c = true) (hw : IsWord word next)
    (hn : closing? close (blanks ++ (word ++ next :: tail)) = some n) (hq : isQuote quote = true)
    (hclose : close.getLast? = some quote) :
    Text.width blanks < Text.width ((blanks ++ (word ++ next :: tail)).take n) := by
  have hquote : Text.isBlank quote = false ∧ isNameChar quote = false := by
    simp only [isQuote, Bool.or_eq_true, beq_iff_eq] at hq
    rcases hq with rfl | rfl <;> decide
  have hfree : quote ∉ blanks ++ word := by
    rw [List.mem_append]
    rintro (hmem | hmem)
    · exact absurd (hb quote hmem) (by simp [hquote.1])
    · exact absurd (hw.chars quote hmem) (by simp [hquote.2])
  -- The quote stands behind the word, so the string covers the word.
  have hlast := List.mem_of_getLast? (getLast?_closed hn hclose)
  rw [← List.append_assoc, List.take_append, List.mem_append] at hlast
  rw [← List.append_assoc, List.take_append]
  rcases Nat.lt_or_ge n (blanks ++ word).length with hlt | hge
  · rw [Nat.sub_eq_zero_of_le (Nat.le_of_lt hlt), List.take_zero] at hlast
    rcases hlast with hlast | hlast
    · exact absurd (List.mem_of_mem_take hlast) hfree
    · cases hlast
  · obtain ⟨w, ws, rfl, -⟩ := hw.head
    rw [List.take_of_length_le hge, Text.width_append, Text.width_append, Text.width]
    have hpos := w.utf8Size_pos
    omega

theorem quote_of_open {lines : List (List Char)} {read : List Token} {s : State} {start : Position}
    {close text : List Char} (hread : linesStep 1 lines .start = .ok (read, s))
    (hp : s.pending = .string start close text) :
    ∃ quote, isQuote quote = true ∧ close.getLast? = some quote := by
  obtain ⟨quote, rest, hq, rfl⟩ :=
    (linesRead_of_linesStep hread).quoted State.quoted_start start close text hp
  exact ⟨quote, hq, getLast?_delimiter quote rest⟩

theorem exists_string_covering {read others : List Token} {s s' : State} {start : Position}
    {close text : List Char}
    (hl : Text.lines source = before ++ (blanks ++ (word ++ next :: tail)) :: after)
    (hb : ∀ c ∈ blanks, Text.isBlank c = true) (hw : IsWord word next)
    (hread : linesStep 1 before .start = .ok (read, s)) (hp : s.pending = .string start close text)
    (hothers : linesStep (1 + before.length) ((blanks ++ (word ++ next :: tail)) :: after) s =
      .ok (others, s'))
    (hend : s'.pending = .nothing) :
    ∃ t ∈ others, t.kind = .string ∧
      t.Covers source (Text.width before.flatten + Text.width blanks) := by
  obtain ⟨t, more, rfl, hkind, hstart, hstop⟩ :=
    (linesRead_of_linesStep hothers).string hp hend
  have hlines : Text.lines source =
      [] ++ (before ++ (blanks ++ (word ++ next :: tail)) :: after) := hl
  have hreached := (linesRead_of_linesStep hread).reached rfl hlines (Position.ble_refl _) rfl
  obtain ⟨-, -, -, -, hoffset⟩ := hreached
  obtain ⟨-, hfront⟩ := State.inString hp
  rw [hfront, Nat.add_comm 1, Position.offset_of_lines hl] at hoffset
  refine ⟨t, List.mem_cons_self, hkind, ?_, ?_⟩
  · rw [hstart]
    omega
  · rcases hstop with hline | ⟨n, hn, hstop⟩
    · have hbeyond := Position.offset_of_line_lt hl (by omega : before.length + 1 < t.stop.line)
      obtain ⟨w, ws, rfl, -⟩ := hw.head
      have hpos := w.utf8Size_pos
      simp only [Text.width_append, Text.width] at hbeyond
      omega
    · obtain ⟨quote, hq, hclose⟩ := quote_of_open hread hp
      have hwidth := width_lt_of_closing hb hw hn hq hclose
      rw [hstop, Nat.add_comm 1, Position.offset_of_lines hl]
      omega

theorem Leading.leadsStatement_iff {words : List (List Char)} {read here rest : List Token}
    {line : List Char} (h : Leading (before.length + 1) (Text.width blanks) blanks word here)
    (htiles : TilesSource source tokens) (ht : tokens = read ++ here ++ rest)
    (hl : Text.lines source = before ++ line :: after) (hword : word ∈ words)
    (hwords : [] ∉ words) :
    LeadsStatement words source tokens (Text.width before.flatten + Text.width blanks) ↔
      (lastLogical? read = none ∨ lastLogical? read = some .newline) ∧
        ∀ c ∈ blanks, isMargin c = true := by
  have hoffset := Position.offset_of_lines hl
  have hiff : ∀ {lead more : List Token},
      here = lead ++ onLine (before.length + 1) (Text.width blanks) .name word :: more →
        (LeadsStatement words source tokens (Text.width before.flatten + Text.width blanks) ↔
          lastLogical? (read ++ lead) = none ∨ lastLogical? (read ++ lead) = some .newline) := by
    rintro lead more rfl
    have htokens : tokens = (read ++ lead) ++
        onLine (before.length + 1) (Text.width blanks) .name word :: (more ++ rest) := by
      simp [ht]
    rw [← leadsStatement_iff_of_name htiles hwords htokens rfl hword, onLine, hoffset]
  cases h with
  | @first lead more hm hlead heq =>
    rw [hiff heq, lastLogical?_append, hlead, Option.none_or]
    exact (and_iff_left hm).symm
  | @later lead more hm hlead heq =>
    rw [hiff heq, lastLogical?_append, hlead, Option.some_or]
    constructor
    · intro hlast
      simp at hlast
    · rintro ⟨-, hmargin⟩
      obtain ⟨c, hc, hother⟩ := hm
      rw [hmargin c hc] at hother
      cases hother
  | @across kind start text hm hmem hbelow habove =>
    constructor
    · intro hleads
      obtain ⟨first, last, rfl⟩ := List.append_of_mem hmem
      have htokens : tokens = (read ++ first) ++
          onLine (before.length + 1) start kind text :: (last ++ rest) := by simp [ht]
      have hcovers : (onLine (before.length + 1) start kind text).Covers source
          (Text.width before.flatten + Text.width blanks) := by
        simp only [Covers, onLine, hoffset]
        omega
      have hsame := (hleads.of_covers htiles hwords htokens hcovers).1
      rw [onLine, hoffset] at hsame
      omega
    · rintro ⟨-, hmargin⟩
      obtain ⟨c, hc, hother⟩ := hm
      rw [hmargin c hc] at hother
      cases hother

theorem statementMayFollow_iff {read : List Token} {s : State}
    (h : linesStep 1 before .start = .ok (read, s)) : StatementMayFollow before ↔
      (∀ start close text, s.pending ≠ .string start close text) ∧
        (lastLogical? read = none ∨ lastLogical? read = some .newline) := by
  constructor
  · rintro ⟨read', s', hread, hstring, hlast⟩
    rw [h] at hread
    cases hread
    exact ⟨hstring, hlast⟩
  · rintro ⟨hstring, hlast⟩
    exact ⟨read, s, h, hstring, hlast⟩

/-- A word that has only blanks before it on its line begins a statement exactly where the lines
before it are done and the blanks are such as may indent a line. -/
theorem leadsStatement_iff {words : List (List Char)} (h : tokenize source = .ok tokens)
    (hl : Text.lines source = before ++ (blanks ++ (word ++ next :: tail)) :: after)
    (hb : ∀ c ∈ blanks, Text.isBlank c = true) (hw : IsWord word next) (hword : word ∈ words)
    (hwords : [] ∉ words) :
    LeadsStatement words source tokens (Text.width before.flatten + Text.width blanks) ↔
      StatementMayFollow before ∧ ∀ c ∈ blanks, isMargin c = true := by
  obtain ⟨_, s, final, hall, hfinal, rfl⟩ := tokenize_eq_ok_iff.mp h
  obtain ⟨hend, hclosing⟩ := closing_of_finish hfinal
  have htiles := tilesSource_append (tiled_of_linesStep hall hend) hclosing
  rw [hl, linesStep_append, Step.append_eq_ok_iff] at hall
  obtain ⟨read, t, _, hbefore, hrest, rfl⟩ := hall
  rw [statementMayFollow_iff hbefore]
  by_cases hopen : ∃ start close text, t.pending = .string start close text
  · obtain ⟨start, close, text, hp⟩ := hopen
    obtain ⟨u, hu, hkind, hcovers⟩ := exists_string_covering hl hb hw hbefore hp hrest hend
    constructor
    · intro hleads
      exact absurd hcovers (hleads.outside u (by simp [hu]) hkind)
    · rintro ⟨⟨hstring, -⟩, -⟩
      exact absurd hp (hstring start close text)
  · have hstring : ∀ start close text, t.pending ≠ .string start close text := by
      intro start close text hp
      exact hopen ⟨start, close, text, hp⟩
    obtain ⟨here, t', later, hhere, -, rfl⟩ := Step.append_eq_ok_iff.mp hrest
    rw [Nat.add_comm 1] at hhere
    have hleading := (lineRead_of_lineStep hhere).leading hstring hb hw
    have htokens : read ++ (here ++ later) ++ final = read ++ here ++ (later ++ final) := by simp
    rw [hleading.leadsStatement_iff htiles htokens hl hword hwords]
    constructor
    · rintro ⟨hbegin, hmargin⟩
      exact ⟨⟨hstring, hbegin⟩, hmargin⟩
    · rintro ⟨⟨-, hbegin⟩, hmargin⟩
      exact ⟨hbegin, hmargin⟩

end

end StyleCheck.Token
