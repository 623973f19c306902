import StyleCheck.Proofs.Token.LexemeCases
import StyleCheck.Proofs.Token.Reading
import StyleCheck.Proofs.Token.Tiling

namespace StyleCheck.Token

def State.carried (s : State) : List Char :=
  match s.pending with
  | .string _ _ text => text
  | _ => []

def State.front (s : State) (p : Position) : Position :=
  match s.pending with
  | .string start _ _ => start
  | _ => p

theorem State.idle {s : State} (h : s.pending = .nothing ∨ s.pending = .join) :
    s.carried = [] ∧ ∀ p, s.front p = p := by
  rcases h with h | h <;> simp [carried, front, h]

theorem State.inString {s : State} {start : Position} {close text : List Char}
    (h : s.pending = .string start close text) : s.carried = text ∧ ∀ p, s.front p = start := by
  simp [carried, front, h]

def Reached (source : List Char) (p : Position) (cs : List Char) (tokens : List Token) (s : State)
    (q : Position) : Prop :=
  ∃ done, cs = done ++ s.carried ∧ Tiled source p done tokens (s.front q) ∧
    (s.front q).ble q = true ∧
    q.offset source = (s.front q).offset source + Text.width s.carried

variable {source : List Char}

theorem reached_of_idle {p q : Position} {cs : List Char} {tokens : List Token} {s : State}
    (hs : s.pending = .nothing ∨ s.pending = .join) (h : Tiled source p cs tokens q) :
    Reached source p cs tokens s q := by
  obtain ⟨hc, hf⟩ := State.idle hs
  refine ⟨cs, ?_, ?_, ?_, ?_⟩
  · rw [hc, List.append_nil]
  · rw [hf]
    exact h
  · rw [hf]
    exact Position.ble_refl q
  · rw [hf, hc]
    rfl

theorem Reached.turn {p q r : Position} {cs : List Char} {tokens : List Token} {s : State}
    (h : Reached source p cs tokens s q) (hqr : q.ble r = true)
    (ho : r.offset source = q.offset source) : Reached source p cs tokens s r := by
  obtain ⟨done, hd, ht, hb, hq⟩ := h
  cases hp : s.pending with
  | string start close text =>
    obtain ⟨_, hf⟩ := State.inString hp
    rw [hf] at ht hb hq
    refine ⟨done, hd, ?_, ?_, ?_⟩ <;> rw [hf]
    · exact ht
    · exact Position.ble_trans hb hqr
    · rw [ho, hq]
  | nothing | join =>
    have hs : s.pending = .nothing ∨ s.pending = .join := by simp [hp]
    obtain ⟨hc, hf⟩ := State.idle hs
    rw [hf] at ht
    rw [hc, List.append_nil] at hd
    rw [hd]
    exact reached_of_idle hs (ht.turn hqr ho)

theorem Reached.prepend {p q r : Position} {cs ds : List Char} {tokens others : List Token}
    {s : State} (h : Tiled source p cs tokens q) (h' : Reached source q ds others s r) :
    Reached source p (cs ++ ds) (tokens ++ others) s r := by
  obtain ⟨done, rfl, ht, hb, ho⟩ := h'
  exact ⟨cs ++ done, by simp, h.append ht, hb, ho⟩

def InLine (source : List Char) (before : List (List Char)) (head cs : List Char) : Prop :=
  ∃ after, Text.lines source = before ++ (head ++ cs) :: after

namespace InLine

variable {before : List (List Char)} {head cs : List Char}

theorem offset (h : InLine source before head cs) (column : Nat) :
    Position.offset source ⟨before.length + 1, column⟩ =
      Text.width before.flatten + column := by
  obtain ⟨after, h⟩ := h
  exact Position.offset_of_lines h column

theorem line_le (h : InLine source before head cs) :
    before.length + 1 ≤ (Text.lines source).length := by
  obtain ⟨after, h⟩ := h
  rw [h, List.length_append, List.length_cons]
  omega

theorem step (text : List Char) {rest : List Char}
    (h : InLine source before head (text ++ rest)) : InLine source before (head ++ text) rest := by
  obtain ⟨after, h⟩ := h
  exact ⟨after, by rw [h, List.append_assoc]⟩

theorem placed (h : InLine source before head cs) (column : Nat) (kind : Kind) (text : List Char)
    (ht : kind = .newline → text ≠ []) :
    Placed source (onLine (before.length + 1) column kind text) := by
  refine ⟨?_, ?_, h.line_le, ht⟩
  · exact Position.ble_of_le (Nat.le_add_right _ _)
  · simp only [onLine, h.offset]
    omega

theorem tiled (h : InLine source before head cs) (column : Nat) (kind : Kind) (text : List Char)
    (ht : kind = .newline → text ≠ []) :
    Tiled source ⟨before.length + 1, column⟩ text [onLine (before.length + 1) column kind text]
      ⟨before.length + 1, column + Text.width text⟩ := by
  have := Tiled.token (h.placed column kind text ht) .nil
  rwa [show (onLine (before.length + 1) column kind text).text = text from rfl,
    List.append_nil] at this

end InLine

theorem Scanned.reached {before : List (List Char)} {column : Nat} {head cs : List Char}
    {s s' : State} {tokens : List Token} (h : Scanned (before.length + 1) column cs s tokens s')
    (hl : InLine source before head cs) (hcol : column = Text.width head)
    (hp : s.pending = .nothing) :
    Reached source ⟨before.length + 1, column⟩ cs tokens s'
      ⟨before.length + 1, Text.width (head ++ cs)⟩ := by
  induction h generalizing head with
  | @nil column s =>
    rw [List.append_nil, ← hcol]
    exact reached_of_idle (.inl hp) .nil
  | @blank column c cs s s' tokens h _ ih =>
    have hl' : InLine source before (head ++ [c]) cs := hl.step [c]
    have hw : column + c.utf8Size = Text.width (head ++ [c]) := by simp [hcol, Text.width]
    have hr := ih hl' hw hp
    rw [List.append_assoc] at hr
    have hg : Tiled source ⟨before.length + 1, column⟩ ([c] ++ []) []
        ⟨before.length + 1, column + c.utf8Size⟩ := by
      refine .gap (.blank (isMargin_of_lexeme h)) ?_ ?_ .nil
      · exact Position.ble_of_le (Nat.le_add_right _ _)
      · simp only [hl.offset, Text.width]
        omega
    exact Reached.prepend hg hr
  | @token column c cs s s' tokens kind extra h _ ih =>
    have hc : c :: cs = (c :: cs.take extra) ++ cs.drop extra := by simp
    have hw : column + Text.width (c :: cs.take extra) =
        Text.width (head ++ c :: cs.take extra) := by simp [hcol]
    have hr := ih (InLine.step _ (hc ▸ hl)) hw hp
    rw [List.append_assoc, ← hc] at hr
    have := Reached.prepend (hl.tiled column kind (c :: cs.take extra) (by simp)) hr
    rwa [← hc] at this
  | @opening column c cs s close h =>
    refine ⟨[], rfl, .nil, ?_, ?_⟩
    · apply Position.ble_of_le
      simp [hcol]
    · simp only [State.front, State.carried, hl.offset, hcol, Text.width_append]
      omega
  | @lineEnd column c cs s h =>
    have hw : Text.width (head ++ c :: cs) = column + Text.width (c :: cs) := by simp [hcol]
    rw [hw]
    exact reached_of_idle (.inl hp) (hl.tiled column s.breakKind (c :: cs) (by simp))
  | @join column c cs s h =>
    obtain ⟨rfl, he⟩ := backslash_of_lexeme h
    apply reached_of_idle (.inr rfl)
    have hg : Gap source ⟨before.length + 1, column⟩ ('\\' :: cs) := by
      obtain ⟨after, hl⟩ := hl
      rw [hcol]
      exact .joined hl he
    have ht : Tiled source ⟨before.length + 1, column⟩ (('\\' :: cs) ++ []) []
        ⟨before.length + 1, Text.width (head ++ '\\' :: cs)⟩ := by
      refine .gap hg ?_ ?_ .nil
      · apply Position.ble_of_le
        simp [hcol]
      · simp only [hl.offset, hcol, Text.width_append]
        omega
    rwa [List.append_nil] at ht

theorem InLine.tiled_piece {before : List (List Char)} {head cs : List Char}
    (h : InLine source before head cs) (column : Nat) (kind : Kind) (text : List Char) :
    Tiled source ⟨before.length + 1, column⟩ text
      (if text = [] then [] else [onLine (before.length + 1) column kind text])
      ⟨before.length + 1, column + Text.width text⟩ := by
  by_cases ht : text = []
  · rw [if_pos ht, ht]
    exact .nil
  · rw [if_neg ht]
    exact h.tiled column kind text (fun _ => ht)

theorem InLine.tiled_margin {before : List (List Char)} {head m cs : List Char}
    (h : InLine source before head (m ++ cs)) (hm : ∀ c ∈ m, isMargin c = true) :
    Tiled source ⟨before.length + 1, Text.width head⟩ m []
      ⟨before.length + 1, Text.width (head ++ m)⟩ := by
  induction m generalizing head with
  | nil =>
    rw [List.append_nil]
    exact .nil
  | cons c m ih =>
    have hs : InLine source before (head ++ [c]) (m ++ cs) := h.step [c]
    have hr := ih hs (fun d hd => hm d (List.mem_cons_of_mem c hd))
    rw [List.append_assoc] at hr
    have hw : Text.width (head ++ [c]) = Text.width head + Text.width [c] := by simp
    have hg : Tiled source ⟨before.length + 1, Text.width head⟩ ([c] ++ m) []
        ⟨before.length + 1, Text.width (head ++ ([c] ++ m))⟩ := by
      refine .gap (.blank (hm c List.mem_cons_self)) ?_ ?_ hr
      · apply Position.ble_of_le
        simp
      · simp only [h.offset]
        omega
    exact hg

theorem InLine.tiled_dedents {before : List (List Char)} {head cs : List Char}
    (h : InLine source before head cs) (column n : Nat) :
    Tiled source ⟨before.length + 1, column⟩ []
      (List.replicate n (onLine (before.length + 1) column .dedent []))
      ⟨before.length + 1, column⟩ := by
  induction n with
  | zero => exact .nil
  | succ n ih => exact (h.tiled column .dedent [] (by simp)).append ih

theorem Indented.tiled {before : List (List Char)} {m cs : List Char} {s s' : State}
    {tokens : List Token} (h : Indented (before.length + 1) m s tokens s')
    (hl : InLine source before [] (m ++ cs)) (hm : ∀ c ∈ m, isMargin c = true) :
    Tiled source ⟨before.length + 1, 0⟩ m tokens ⟨before.length + 1, Text.width m⟩ := by
  cases h with
  | deeper hd =>
    have := hl.tiled 0 .indent m (by simp)
    rwa [Nat.zero_add] at this
  | @level closed kept =>
    have := (hl.tiled_margin hm).append (hl.tiled_dedents (Text.width m) closed.length)
    rwa [List.append_nil] at this

theorem tiled_blankLine {before : List (List Char)} {head cs : List Char} {s s' : State}
    {tokens : List Token}
    (h : blankLine (before.length + 1) (Text.width head) cs s = .ok (tokens, s'))
    (hl : InLine source before head cs) :
    Tiled source ⟨before.length + 1, Text.width head⟩ cs tokens
      ⟨before.length + 1, Text.width (head ++ cs)⟩ := by
  obtain ⟨comment, ending, rfl, rfl, _⟩ := blankLine_eq_ok h
  have := (hl.tiled_piece (Text.width head) .comment comment).append
    (hl.tiled_piece (Text.width head + Text.width comment) .nl ending)
  simpa [Nat.add_assoc] using this

theorem Reached.trans {p q r : Position} {cs ds : List Char} {tokens others : List Token}
    {s s' : State} (h : Reached source p cs tokens s q)
    (h' : Reached source (s.front q) (s.carried ++ ds) others s' r) :
    Reached source p (cs ++ ds) (tokens ++ others) s' r := by
  obtain ⟨done, rfl, ht, _, _⟩ := h
  rw [List.append_assoc]
  exact Reached.prepend ht h'

theorem LineRead.reached {before : List (List Char)} {cs : List Char} {s s' : State}
    {tokens : List Token} (h : LineRead (before.length + 1) cs s tokens s')
    (hl : InLine source before [] cs)
    (hb : (s.front ⟨before.length + 1, 0⟩).ble ⟨before.length + 1, 0⟩ = true)
    (ho : Position.offset source ⟨before.length + 1, 0⟩ =
      (s.front ⟨before.length + 1, 0⟩).offset source + Text.width s.carried) :
    Reached source (s.front ⟨before.length + 1, 0⟩) (s.carried ++ cs) tokens s'
      ⟨before.length + 1, Text.width cs⟩ := by
  cases h with
  | @closing start close text n tokens s' hp hn rest =>
    obtain ⟨hc, hf⟩ := State.inString hp
    rw [hf] at hb ho ⊢
    rw [hc] at ho ⊢
    have hcs : cs = cs.take n ++ cs.drop n := (List.take_append_drop n cs).symm
    have hr := rest.reached (InLine.step _ (hcs ▸ hl)) rfl rfl
    rw [List.nil_append, ← hcs] at hr
    have ht : Placed source
        ⟨.string, text ++ cs.take n, start, ⟨before.length + 1, Text.width (cs.take n)⟩⟩ := by
      refine ⟨?_, ?_, hl.line_le, ?_⟩
      · apply Position.ble_trans hb
        exact Position.ble_of_le (Nat.zero_le _)
      · simp only [hl.offset, Text.width_append] at ho ⊢
        omega
      · simp
    have := Reached.prepend (.token ht .nil) hr
    simpa [List.append_assoc] using this
  | @inside start close text hp hn =>
    obtain ⟨hc, hf⟩ := State.inString hp
    rw [hf] at hb ho ⊢
    rw [hc] at ho ⊢
    refine ⟨[], rfl, .nil, ?_, ?_⟩
    · apply Position.ble_trans hb
      exact Position.ble_of_le (Nat.zero_le _)
    · simp only [State.front, State.carried, hl.offset, Text.width_append] at ho ⊢
      omega
  | joined hp rest =>
    obtain ⟨hc, hf⟩ := State.idle (.inr hp)
    rw [hf, hc]
    exact rest.reached hl rfl rfl
  | nested hp hd rest =>
    obtain ⟨hc, hf⟩ := State.idle (.inl hp)
    rw [hf, hc]
    exact rest.reached hl rfl hp
  | blank hp hd _ rest =>
    obtain ⟨hc, hf⟩ := State.idle (.inl hp)
    have hs : InLine source before [] (margin cs ++ body cs) := by rwa [margin_append_body]
    have hm := hs.tiled_margin (margin_isMargin cs)
    have ht := tiled_blankLine rest (hs.step _)
    obtain ⟨_, _, _, _, hs'⟩ := blankLine_eq_ok rest
    rw [hf, hc]
    have := hm.append ht
    rw [List.nil_append, margin_append_body] at this
    apply reached_of_idle _ this
    left
    rw [hs']
    exact hp
  | fresh hp hd _ hi rest =>
    obtain ⟨hc, hf⟩ := State.idle (.inl hp)
    have hs : InLine source before [] (margin cs ++ body cs) := by rwa [margin_append_body]
    have hm := hi.tiled hs (margin_isMargin cs)
    have hr := rest.reached (hs.step _) rfl (hi.pending.trans hp)
    rw [hf, hc]
    have := Reached.prepend hm hr
    rwa [List.nil_append, margin_append_body] at this

theorem LinesRead.reached {line : Nat} {before lines after : List (List Char)} {s s' : State}
    {tokens : List Token} (h : LinesRead line lines s tokens s') (hn : line = before.length + 1)
    (hl : Text.lines source = before ++ (lines ++ after))
    (hb : (s.front ⟨line, 0⟩).ble ⟨line, 0⟩ = true)
    (ho : Position.offset source ⟨line, 0⟩ =
      (s.front ⟨line, 0⟩).offset source + Text.width s.carried) :
    Reached source (s.front ⟨line, 0⟩) (s.carried ++ lines.flatten) tokens s'
      ⟨line + lines.length, 0⟩ := by
  induction h generalizing before with
  | nil =>
    refine ⟨[], ?_, .nil, hb, ho⟩
    simp
  | @cons line cs rest s s' s'' tokens others head tail ih =>
    subst hn
    have hin : InLine source before [] cs := ⟨rest ++ after, hl⟩
    have hl' : Text.lines source = (before ++ [cs]) ++ (rest ++ after) := by
      rw [hl, List.append_assoc]
      rfl
    have hn' : before.length + 1 + 1 = (before ++ [cs]).length + 1 := by simp
    have hturn : Position.offset source ⟨before.length + 1 + 1, 0⟩ =
        Position.offset source ⟨before.length + 1, Text.width cs⟩ := by
      rw [hin.offset, hn', Position.offset_of_lines hl']
      simp
    -- The end of a line and the start of the next are one byte.
    have hfirst := (head.reached hin hb ho).turn
      (Position.ble_of_lt (Nat.lt_succ_self _)) hturn
    have ⟨_, _, _, hb', ho'⟩ := hfirst
    have := hfirst.trans (ih hn' hl' hb' ho')
    rw [List.append_assoc] at this
    have hlen : before.length + 1 + 1 + rest.length = before.length + 1 + (cs :: rest).length := by
      simp only [List.length_cons]
      omega
    rwa [hlen] at this

end StyleCheck.Token
