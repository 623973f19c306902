import StyleCheck.Proofs.Token.TiledReading

namespace StyleCheck.Token

def Covers (source : List Char) (t : Token) (i : Nat) : Prop :=
  t.start.offset source ≤ i ∧ i < t.stop.offset source

def Spelled (source : List Char) (t : Token) : Prop :=
  (Text.bytes source).extract (t.start.offset source) (t.stop.offset source) = Text.bytes t.text ∧
    Text.IsBoundary source (t.start.offset source) ∧ Text.IsBoundary source (t.stop.offset source)

def isImplied (t : Token) : Bool :=
  t.kind == .newline && t.text.isEmpty

def IsBlankByte (source : List Char) (i : Nat) : Prop :=
  (Text.bytes source)[i]? ∈ [some 0x20, some 0x09, some 0x0c]

/-- The byte is in a line, in the part that begins at a backslash right before `\r` or `\n`. -/
def IsJoined (source : List Char) (i : Nat) : Prop :=
  ∃ before head tail after,
    Text.lines source = before ++ (head ++ '\\' :: tail) :: after ∧
    startsWith isLineEnd tail = true ∧
    Text.width before.flatten + Text.width head ≤ i ∧
    i < Text.width before.flatten + Text.width (head ++ '\\' :: tail)

variable {source : List Char}

theorem blankByte_of_isMargin {before after : List Char} {c : Char} (h : isMargin c = true)
    (hs : source = before ++ [c] ++ after) : IsBlankByte source (Text.width before) := by
  have hb : (Text.bytes source)[Text.width before + 0]? = (Text.bytes [c])[0]? := by
    rw [hs]
    apply Text.getElem?_bytes
    simpa [Text.width] using c.utf8Size_pos
  rw [Nat.add_zero] at hb
  simp only [isMargin, Bool.or_eq_true, beq_iff_eq] at h
  unfold IsBlankByte
  rw [hb]
  rcases h with (rfl | rfl) | rfl <;> decide

theorem width_of_isMargin {c : Char} (h : isMargin c = true) : Text.width [c] = 1 := by
  simp only [isMargin, Bool.or_eq_true, beq_iff_eq] at h
  rcases h with (rfl | rfl) | rfl <;> rfl

/-- A piece of the source that no token reaches into. -/
structure Untiled (source : List Char) (tokens : List Token) (p : Position) (text : List Char) :
    Prop where
  gap : Gap source p text
  spelled : ∃ before after, source = before ++ (text ++ after) ∧
    p.offset source = Text.width before
  apart : ∀ t ∈ tokens, t.stop.offset source ≤ p.offset source ∨
    p.offset source + Text.width text ≤ t.start.offset source

theorem Tiled.exists_gap {p q : Position} {cs : List Char} {tokens : List Token}
    (h : Tiled source p cs tokens q) {before after : List Char} {i : Nat}
    (hs : source = before ++ (cs ++ after)) (hp : p.offset source = Text.width before)
    (hi : p.offset source ≤ i) (hi' : i < p.offset source + Text.width cs)
    (hn : ∀ t ∈ tokens, ¬ t.Covers source i) :
    ∃ g text, Untiled source tokens g text ∧ p.offset source ≤ g.offset source ∧
      g.offset source ≤ i ∧ i < g.offset source + Text.width text := by
  induction h generalizing before with
  | nil =>
    simp only [Text.width] at hi'
    omega
  | @gap p q r gap cs tokens hg hpq ho rest ih =>
    rw [List.append_assoc] at hs
    rw [Text.width_append] at hi'
    by_cases hgap : i < p.offset source + Text.width gap
    · refine ⟨p, gap, ⟨hg, ⟨before, cs ++ after, hs, hp⟩, ?_⟩, Nat.le_refl _, hi, hgap⟩
      intro t ht
      have := (rest.between ht).1.2
      right
      omega
    · have hs' : source = (before ++ gap) ++ (cs ++ after) := by rw [List.append_assoc]; exact hs
      have hw := Text.width_append before gap
      obtain ⟨g, text, hu, hle, hbounds⟩ := ih hs' (by omega) (by omega) (by omega) hn
      exact ⟨g, text, hu, by omega, hbounds⟩
  | @token t cs tokens r ht rest ih =>
    obtain ⟨htn, hn⟩ := List.forall_mem_cons.mp hn
    have ho := ht.offset_stop
    rw [List.append_assoc] at hs
    rw [Text.width_append] at hi'
    have hpast : t.stop.offset source ≤ i := by
      apply Nat.le_of_not_lt
      intro hlt
      exact htn ⟨hi, hlt⟩
    have hs' : source = (before ++ t.text) ++ (cs ++ after) := by rw [List.append_assoc]; exact hs
    have hw := Text.width_append before t.text
    obtain ⟨g, text, hu, hle, hbounds⟩ := ih hs' (by omega) hpast (by omega) hn
    refine ⟨g, text, ⟨hu.gap, hu.spelled, ?_⟩, by omega, hbounds⟩
    exact List.forall_mem_cons.mpr ⟨.inl hle, hu.apart⟩

theorem Tiled.covers_or {p q : Position} {tokens : List Token}
    (h : Tiled source p source tokens q) (hp : p.offset source = 0) {i : Nat}
    (hi : i < Text.width source) :
    (∃ t ∈ tokens, t.Covers source i) ∨ IsBlankByte source i ∨ IsJoined source i := by
  by_cases hc : ∃ t ∈ tokens, t.Covers source i
  · exact .inl hc
  right
  have hs : source = [] ++ (source ++ []) := by simp
  have hn : ∀ t ∈ tokens, ¬ t.Covers source i := fun t ht hti => hc ⟨t, ht, hti⟩
  obtain ⟨g, gap, ⟨hg, ⟨before, after, hs, hb⟩, _⟩, _, hle, hlt⟩ :=
    h.exists_gap hs hp (by omega) (by omega) hn
  cases hg with
  | none =>
    simp only [Text.width] at hlt
    omega
  | @blank _ c hm =>
    left
    have hw := width_of_isMargin hm
    have he : i = Text.width before := by omega
    rw [← List.append_assoc] at hs
    exact he ▸ blankByte_of_isMargin hm hs
  | @joined first last head tail hl ht =>
    right
    rw [Position.offset_of_lines hl] at hle hlt
    refine ⟨first, head, tail, last, hl, ht, hle, ?_⟩
    rw [Text.width_append]
    omega

theorem Tiled.spelled {p q : Position} {tokens : List Token} (h : Tiled source p source tokens q)
    (hp : p.offset source = 0) {t : Token} (ht : t ∈ tokens) : Spelled source t := by
  obtain ⟨before, after, hs, ho⟩ := h.text_of_mem ht
  have hstart : t.start.offset source = Text.width before := by omega
  have hstop : t.stop.offset source = Text.width before + Text.width t.text := by
    rw [(h.placed ht).offset_stop, hstart]
  refine ⟨?_, ?_, ?_⟩
  · rw [hstart, hstop]
    have := Text.extract_bytes before t.text after
    rwa [← hs] at this
  · rw [hstart]
    have := Text.isBoundary_append before (t.text ++ after)
    rwa [← List.append_assoc, ← hs] at this
  · rw [hstop, ← Text.width_append]
    have := Text.isBoundary_append (before ++ t.text) after
    rwa [← hs] at this

theorem tiled_of_linesStep {read : List Token} {s : State}
    (h : linesStep 1 (Text.lines source) .start = .ok (read, s)) (hp : s.pending = .nothing) :
    Tiled source ⟨1, 0⟩ source read ⟨(Text.lines source).length + 1, 0⟩ := by
  have hr := linesRead_of_linesStep h
  have hl : Text.lines source = [] ++ (Text.lines source ++ []) := by simp
  have hreached := hr.reached rfl hl (Position.ble_refl _) rfl
  obtain ⟨done, hd, ht, _, _⟩ := hreached
  obtain ⟨hc, hf⟩ := State.idle (.inl hp)
  rw [hc, List.append_nil] at hd
  rw [hf, ← hd, Text.flatten_lines, Nat.add_comm 1] at ht
  exact ht

theorem offset_end : Position.offset source ⟨(Text.lines source).length + 1, 0⟩ =
    Text.width source := by
  have := Position.offset_of_lines (List.append_nil (Text.lines source)).symm 0
  rw [this, Text.flatten_lines, Nat.add_zero]

structure Closing (source : List Char) (final : List Token) : Prop where
  offset_start : ∀ t ∈ final, t.start.offset source = Text.width source
  start_ble_stop : ∀ t ∈ final, t.start.ble t.stop = true
  after_text : ∀ t ∈ final, ∀ p : Position, p.line ≤ (Text.lines source).length →
    p.offset source ≤ Text.width source → p.ble t.start = true
  kind_mem : ∀ t ∈ final, t.isImplied = true ∨ t.kind = .dedent ∨ t.kind = .endMarker
  pairwise : final.Pairwise fun a b => a.start.ble b.start = true ∧
    ∀ i, ¬ (a.Covers source i ∧ b.Covers source i)
  implied_le : final.countP isImplied ≤ 1

def closingMarks (source : List Char) (n : Nat) : List Token :=
  List.replicate n (onLine ((Text.lines source).length + 1) 0 .dedent []) ++
    [onLine ((Text.lines source).length + 1) 0 .endMarker []]

theorem mem_closingMarks {n : Nat} {t : Token} (ht : t ∈ closingMarks source n) :
    ∃ kind, (kind = .dedent ∨ kind = .endMarker) ∧
      t = onLine ((Text.lines source).length + 1) 0 kind [] := by
  rcases List.mem_append.1 ht with ht | ht
  · exact ⟨.dedent, .inl rfl, List.eq_of_mem_replicate ht⟩
  · exact ⟨.endMarker, .inr rfl, List.mem_singleton.1 ht⟩

theorem not_covers_of_mem_closingMarks {n : Nat} {t : Token} (ht : t ∈ closingMarks source n)
    (i : Nat) : ¬ t.Covers source i := by
  obtain ⟨kind, _, rfl⟩ := mem_closingMarks ht
  rintro ⟨hle, hlt⟩
  simp only [onLine, Text.width, Nat.add_zero] at hle hlt
  omega

theorem countP_isImplied_closingMarks (n : Nat) :
    (closingMarks source n).countP isImplied = 0 := by
  rw [List.countP_eq_zero]
  intro t ht
  obtain ⟨kind, hk, rfl⟩ := mem_closingMarks ht
  rcases hk with rfl | rfl <;> exact Bool.false_ne_true

theorem closing_closingMarks (n : Nat) : Closing source (closingMarks source n) := by
  refine ⟨?_, ?_, ?_, ?_, ?_, ?_⟩
  · intro t ht
    obtain ⟨kind, _, rfl⟩ := mem_closingMarks ht
    exact offset_end
  · intro t ht
    obtain ⟨kind, _, rfl⟩ := mem_closingMarks ht
    exact Position.ble_refl _
  · intro t ht p hp _
    obtain ⟨kind, _, rfl⟩ := mem_closingMarks ht
    exact Position.ble_of_lt (Nat.lt_succ_of_le hp)
  · intro t ht
    obtain ⟨kind, hk, rfl⟩ := mem_closingMarks ht
    exact .inr hk
  · apply List.Pairwise.imp_of_mem (R := fun _ _ => True)
    · intro a b ha hb _
      obtain ⟨_, _, rfl⟩ := mem_closingMarks hb
      refine ⟨?_, fun i hi => not_covers_of_mem_closingMarks ha i hi.1⟩
      obtain ⟨_, _, rfl⟩ := mem_closingMarks ha
      exact Position.ble_refl _
    · exact List.pairwise_of_forall fun _ _ => trivial
  · rw [countP_isImplied_closingMarks]
    exact Nat.zero_le 1

theorem ble_last {init : List (List Char)} {last : List Char} {p : Position}
    (hl : Text.lines source = init ++ [last]) (hp : p.line ≤ (Text.lines source).length)
    (ho : p.offset source ≤ Text.width source) :
    p.ble ⟨(Text.lines source).length, Text.width last⟩ = true := by
  have hw : Text.width source = Text.width init.flatten + Text.width last := by
    rw [← Text.flatten_lines source, hl]
    simp
  have hn : (Text.lines source).length = init.length + 1 := by simp [hl]
  rw [hn] at hp ⊢
  apply Position.ble_iff.2
  by_cases hlt : p.line < init.length + 1
  · exact .inl hlt
  · right
    have he : p.line = init.length + 1 := by omega
    have hoff : p.offset source = Text.width init.flatten + p.column := by
      have := Position.offset_of_lines hl p.column
      rwa [← he] at this
    exact ⟨he, by simp only; omega⟩

theorem closing_implied {init : List (List Char)} {last : List Char} (n : Nat)
    (hl : Text.lines source = init ++ [last]) :
    Closing source (⟨.newline, [], ⟨(Text.lines source).length, Text.width last⟩,
      ⟨(Text.lines source).length, Text.width last + 1⟩⟩ :: closingMarks source n) := by
  have hm : Closing source (closingMarks source n) := closing_closingMarks n
  have hn : (Text.lines source).length = init.length + 1 := by simp [hl]
  have ho : Position.offset source ⟨(Text.lines source).length, Text.width last⟩ =
      Text.width source := by
    rw [hn, Position.offset_of_lines hl, ← Text.flatten_lines source, hl]
    simp
  refine ⟨?_, ?_, ?_, ?_, ?_, ?_⟩
  · exact List.forall_mem_cons.2 ⟨ho, hm.offset_start⟩
  · refine List.forall_mem_cons.2 ⟨?_, hm.start_ble_stop⟩
    exact Position.ble_of_le (Nat.le_succ _)
  · exact List.forall_mem_cons.2 ⟨fun p hp hpo => ble_last hl hp hpo, hm.after_text⟩
  · exact List.forall_mem_cons.2 ⟨.inl rfl, hm.kind_mem⟩
  · refine .cons ?_ hm.pairwise
    intro t ht
    refine ⟨?_, fun i hi => not_covers_of_mem_closingMarks ht i hi.2⟩
    exact hm.after_text t ht _ (Nat.le_refl _) (Nat.le_of_eq ho)
  · rw [List.countP_cons, countP_isImplied_closingMarks]
    exact Nat.le_refl 1

theorem closing_of_finish {final : List Token} {s : State}
    (h : finish (Text.lines source).length ((Text.lines source).getLast?.getD []) s = .ok final) :
    s.pending = .nothing ∧ Closing source final := by
  obtain ⟨hp, _, rfl⟩ := finish_eq_ok_iff.1 h
  refine ⟨hp, ?_⟩
  rw [List.append_assoc]
  change Closing source (impliedBreak _ _ s ++ closingMarks source s.indents.length)
  unfold impliedBreak
  split
  · exact closing_closingMarks _
  · rename_i hlast
    rcases List.eq_nil_or_concat (Text.lines source) with hl | ⟨init, last, hl⟩
    · simp [hl] at hlast
    · have hg : (Text.lines source).getLast?.getD [] = last := by simp [hl]
      rw [hg]
      exact closing_implied _ (by simpa using hl)

/-- Each token with a text stands where its text stands, no byte belongs to two tokens, and a byte
that belongs to none is blank or hidden by a backslash. -/
structure TilesSource (source : List Char) (tokens : List Token) : Prop where
  spelled : ∀ t ∈ tokens, t.kind ≠ .dedent → t.kind ≠ .endMarker → t.isImplied = false →
    Spelled source t
  implied_le_one : tokens.countP isImplied ≤ 1
  implied_at_end : ∀ t ∈ tokens, t.isImplied = true → t.start.offset source = Text.width source
  start_ble_stop : ∀ t ∈ tokens, t.start.ble t.stop = true
  in_order : tokens.Pairwise fun a b => a.start.ble b.start = true
  disjoint : tokens.Pairwise fun a b => ∀ i, ¬ (a.Covers source i ∧ b.Covers source i)
  covered : ∀ i < Text.width source,
    (∃ t ∈ tokens, t.Covers source i) ∨ IsBlankByte source i ∨ IsJoined source i

theorem tilesSource_append {read final : List Token}
    (ht : Tiled source ⟨1, 0⟩ source read ⟨(Text.lines source).length + 1, 0⟩)
    (hc : Closing source final) : TilesSource source (read ++ final) := by
  have hstart : Position.offset source ⟨1, 0⟩ = 0 := by simp [Position.offset, Text.width]
  have hnone : ∀ t ∈ read, t.isImplied = false := by
    intro t hm
    apply Bool.eq_false_iff.2
    intro hi
    simp only [isImplied, Bool.and_eq_true, beq_iff_eq, List.isEmpty_iff] at hi
    exact (ht.placed hm).text_ne_nil hi.1 hi.2
  have hend : ∀ t ∈ read, t.stop.offset source ≤ Text.width source := by
    intro t hm
    rw [← offset_end]
    exact (ht.between hm).2.2
  refine ⟨?_, ?_, ?_, ?_, ?_, ?_, ?_⟩
  · intro t hm hd he hi
    rcases List.mem_append.1 hm with hm | hm
    · exact ht.spelled hstart hm
    · rcases hc.kind_mem t hm with hk | hk | hk
      · simp [hk] at hi
      · exact absurd hk hd
      · exact absurd hk he
  · have hzero : read.countP isImplied = 0 :=
      List.countP_eq_zero.2 fun t hm => by simp [hnone t hm]
    rw [List.countP_append, hzero, Nat.zero_add]
    exact hc.implied_le
  · intro t hm hi
    rcases List.mem_append.1 hm with hm | hm
    · simp [hnone t hm] at hi
    · exact hc.offset_start t hm
  · intro t hm
    rcases List.mem_append.1 hm with hm | hm
    · exact (ht.placed hm).start_ble_stop
    · exact hc.start_ble_stop t hm
  · apply List.pairwise_append.2
    refine ⟨?_, hc.pairwise.imp And.left, ?_⟩
    · apply ht.pairwise.imp_of_mem
      intro a b ha _ hab
      exact Position.ble_trans (ht.placed ha).start_ble_stop hab.1
    · intro a ha b hb
      have hpa := ht.placed ha
      apply Position.ble_trans hpa.start_ble_stop
      exact hc.after_text b hb _ hpa.line_stop (hend a ha)
  · apply List.pairwise_append.2
    refine ⟨?_, hc.pairwise.imp And.right, ?_⟩
    · apply ht.pairwise.imp
      rintro a b hab i ⟨⟨_, hlt⟩, hle, _⟩
      omega
    · rintro a ha b hb i ⟨⟨_, hlt⟩, hle, _⟩
      have hoff := hend a ha
      have := hc.offset_start b hb
      omega
  · intro i hi
    -- The tokens after the last line cover nothing, so those that were read have to.
    rcases ht.covers_or hstart hi with
      ⟨t, hm, hcov⟩ | hr
    · exact .inl ⟨t, List.mem_append_left final hm, hcov⟩
    · exact .inr hr

theorem tokens_tile_source {tokens : List Token} (h : tokenize source = .ok tokens) :
    TilesSource source tokens := by
  obtain ⟨read, s, final, hread, hfinal, rfl⟩ := tokenize_eq_ok_iff.1 h
  obtain ⟨hp, hc⟩ := closing_of_finish hfinal
  exact tilesSource_append (tiled_of_linesStep hread hp) hc

theorem tokens_tile_string_and_join : ∃ tokens,
    tokenize " é='''\n'''+\\\n#".toList = .ok tokens ∧
    tokens.map (·.kind) =
      [.indent, .name, .op, .string, .op, .comment, .newline, .dedent, .endMarker] ∧
    TilesSource " é='''\n'''+\\\n#".toList tokens :=
  ⟨_, rfl, rfl, tokens_tile_source rfl⟩

end StyleCheck.Token
