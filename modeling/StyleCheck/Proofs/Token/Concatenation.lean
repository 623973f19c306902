import StyleCheck.Proofs.Token.Delimiter
import StyleCheck.Proofs.Token.Parallel

namespace StyleCheck

def Position.addLines (n : Nat) (p : Position) : Position :=
  { p with line := p.line + n }

def SyntaxError.addLines (n : Nat) (e : SyntaxError) : SyntaxError :=
  { e with position := e.position.addLines n }

def Token.addLines (n : Nat) (t : Token) : Token :=
  { t with start := t.start.addLines n, stop := t.stop.addLines n }

namespace Token

def Pending.addLines (n : Nat) : Pending → Pending
  | .nothing => .nothing
  | .join => .join
  | .string start close text => .string (start.addLines n) close text

abbrev Lowered (n : Nat) : State → State → Prop :=
  Alike (Pending.addLines n)

def lowering (n : Nat) : Parallel :=
  ⟨addLines n, SyntaxError.addLines n, Lowered n⟩

variable {n : Nat} {s s' : State}

theorem scan_lowered (h : Lowered n s s') (line skip column : Nat) (cs : List Char) :
    (lowering n).Steps (scan line skip column cs s) (scan (line + n) skip column cs s') := by
  induction cs generalizing skip column s s' with
  | nil =>
    cases skip
    · exact .ok h
    · exact .ok h
  | cons c cs ih =>
    cases skip with
    | succ skip => exact ih h skip (column + c.utf8Size)
    | zero =>
      simp only [scan]
      cases lexeme c cs with
      | blank => exact ih h 0 (column + c.utf8Size)
      | token kind extra => exact .cons rfl (ih (h.after kind _) extra (column + c.utf8Size))
      | opening close => exact .ok (h.withPending rfl)
      | lineEnd =>
        rw [h.breakKind_eq]
        exact .ok (h.after s.breakKind (c :: cs))
      | join => exact .ok (h.withPending rfl)
      | stray fault => exact .error

theorem blankTokens_addLines (n line column : Nat) (cs : List Char) :
    blankTokens (line + n) column cs = (blankTokens line column cs).map (addLines n) := by
  have hpiece : ∀ (kind : Kind) (column : Nat) (text : List Char),
      (if text = [] then [] else [onLine (line + n) column kind text]) =
        (if text = [] then [] else [onLine line column kind text]).map (addLines n) := by
    intro kind column text
    split <;> rfl
  simp only [blankTokens, hpiece, List.map_append]

theorem freshLine_lowered (h : Lowered n s s') (line : Nat) (cs : List Char) :
    (lowering n).Steps (freshLine line cs s) (freshLine (line + n) cs s') := by
  rw [freshLine_eq, freshLine_eq]
  split
  · apply h.steps_blankLine (blankTokens_addLines n line _ _) fun _ => rfl
    exact fun _ _ _ ht => ht
  · have hindent : (lowering n).Steps (indentStep line (cs.takeWhile isMargin) s)
        (indentStep (line + n) (cs.takeWhile isMargin) s') :=
      h.steps_indentStep rfl rfl rfl fun _ _ _ ht => ht
    apply hindent.append
    intro t t' ht
    exact scan_lowered ht line 0 _ _

theorem lineStep_lowered (h : Lowered n s s') (line : Nat) (cs : List Char) :
    (lowering n).Steps (lineStep line cs s) (lineStep (line + n) cs s') := by
  unfold lineStep
  rw [h.pending_eq]
  cases hp : s.pending with
  | nothing =>
    simp only [Pending.addLines, h.depth_eq]
    split
    · exact scan_lowered h line 0 0 cs
    · exact freshLine_lowered h line cs
  | join =>
    exact scan_lowered (h.withPending rfl) line 0 0 cs
  | string start close text =>
    simp only [Pending.addLines]
    cases closing? close cs with
    | none => exact .ok (h.withPending rfl)
    | some k =>
      apply Parallel.Steps.cons rfl
      apply scan_lowered
      exact ⟨h.indents_eq, h.depth_eq, rfl, rfl⟩

theorem linesStep_lowered (h : Lowered n s s') (line : Nat) (lines : List (List Char)) :
    (lowering n).Steps (linesStep line lines s) (linesStep (line + n) lines s') := by
  induction lines generalizing line s s' with
  | nil => exact .ok h
  | cons cs rest ih =>
    rw [linesStep_cons, linesStep_cons]
    apply (lineStep_lowered h line cs).append
    intro t t' ht
    rw [Nat.add_right_comm]
    exact ih ht (line + 1)

def IsComplete (last : List Char) : Prop :=
  last = [] ∨ last.getLast? = some '\n'

theorem impliedBreak_of_isComplete {last : List Char} (h : IsComplete last) (line : Nat)
    (s : State) : impliedBreak line last s = [] := by
  unfold impliedBreak
  rw [if_pos]
  exact h.imp id .inl

theorem impliedBreak_lowered (h : Lowered n s s') (line : Nat) (last : List Char) :
    impliedBreak (line + n) last s' = (impliedBreak line last s).map (addLines n) := by
  unfold impliedBreak
  rw [h.atLineStart_eq]
  split <;> rfl

theorem finish_lowered (h : Lowered n s s') (line : Nat) {last last' : List Char}
    (hl : last' = last ∨ IsComplete last ∧ IsComplete last') :
    finish (line + n) last' s' = (lowering n).result (finish line last s) := by
  have hbreak : impliedBreak (line + n) last' s' = (impliedBreak line last s).map (addLines n) := by
    cases hl with
    | inl hl =>
      rw [hl]
      exact impliedBreak_lowered h line last
    | inr hl =>
      rw [impliedBreak_of_isComplete hl.1, impliedBreak_of_isComplete hl.2]
      rfl
  have hline : line + n + 1 = line + 1 + n := Nat.add_right_comm line n 1
  apply h.finish_eq hbreak _ _ rfl rfl
  · intro start close text
    exact ⟨_, _, rfl, rfl⟩
  · intro kind
    rw [hline]
    rfl
  · rw [hline]
    rfl

def State.Settled (s : State) : Prop :=
  s.pending = .nothing → s.atLineStart = true

theorem State.settled_of_ne (h : s.pending ≠ .nothing) : s.Settled := by
  intro hp
  exact absurd hp h

theorem Scanned.settled {line column : Nat} {cs : List Char} {tokens : List Token}
    (h : Scanned line column cs s tokens s') (hcs : cs.getLast? = some '\n') : s'.Settled := by
  induction h with
  | nil => simp at hcs
  | @blank column c cs s s' tokens h _ ih =>
    apply ih
    have hc : ([c] ++ cs).getLast? = some '\n' := hcs
    apply getLast?_of_append hc
    apply getLast?_ne_of_isMargin
    simpa using isMargin_of_lexeme h
  | @token column c cs s s' tokens kind extra h _ ih =>
    apply ih
    have hc : c :: cs = (c :: cs.take extra) ++ cs.drop extra := by simp
    rw [hc] at hcs
    exact getLast?_of_append hcs (getLast?_of_lexeme h)
  | opening => exact State.settled_of_ne (by simp)
  | @lineEnd column c cs s =>
    intro _
    change decide (s.breakKind ∈ [Kind.newline, .nl, .indent, .dedent]) = true
    unfold State.breakKind
    split <;> rfl
  | join => exact State.settled_of_ne (by simp)

theorem settled_blankLine {line column : Nat} {cs : List Char} {tokens : List Token}
    (h : blankLine line column cs s = .ok (tokens, s')) (hcs : cs.getLast? = some '\n') :
    s'.Settled := by
  rw [blankLine_eq] at h
  cases h
  intro _
  have hend : cs.drop (cs.takeWhile (!isLineEnd ·)).length ≠ [] := by
    intro hnil
    have hall : cs.takeWhile (!isLineEnd ·) = cs := by
      have := List.prefix_iff_eq_append.mp (List.takeWhile_prefix (!isLineEnd ·) (l := cs))
      rwa [hnil, List.append_nil] at this
    rw [← hall] at hcs
    have := List.all_eq_true.mp List.all_takeWhile _ (List.mem_of_getLast? hcs)
    simp [isLineEnd] at this
  have hlast : (blankTokens line column cs).getLast?.map (·.kind) = some .nl := by
    simp only [blankTokens, if_neg hend, List.getLast?_append, List.getLast?_singleton,
      Option.some_or]
    rfl
  simp only [hlast]
  rfl

theorem LineRead.settled {line : Nat} {cs : List Char} {tokens : List Token}
    (h : LineRead line cs s tokens s') (hs : s.Quoted) (hcs : cs.getLast? = some '\n') :
    s'.Settled := by
  have hbody : (body cs).getLast? = some '\n' := by
    rw [← margin_append_body cs] at hcs
    exact getLast?_of_append hcs (getLast?_ne_of_isMargin (margin_isMargin cs))
  cases h with
  | @closing start close text n tokens s' hp hn rest =>
    apply rest.settled
    rw [← List.take_append_drop n cs] at hcs
    exact getLast?_of_append hcs (hs.getLast? hp hn)
  | inside => exact State.settled_of_ne (by simp)
  | joined _ rest => exact rest.settled hcs
  | nested _ _ rest => exact rest.settled hcs
  | blank _ _ _ rest => exact settled_blankLine rest hbody
  | fresh _ _ _ _ rest => exact rest.settled hbody

theorem LinesRead.settled {line : Nat} {lines : List (List Char)} {tokens : List Token}
    (h : LinesRead line lines s tokens s') (hq : s.Quoted) (hs : s.Settled)
    (hl : ∀ cs ∈ lines, cs.getLast? = some '\n') : s'.Settled := by
  induction h with
  | nil => exact hs
  | cons head _ ih =>
    obtain ⟨hcs, hrest⟩ := List.forall_mem_cons.mp hl
    exact ih (head.quoted hq) (head.settled hq hcs) hrest

theorem lowered_start (hp : s.pending = .nothing) (hd : s.depth = 0) (hi : s.indents = [])
    (hs : s.Settled) : Lowered n .start s :=
  ⟨hi, hd, hp, hs hp⟩

theorem indents_eq_nil {tokens others : List Token} {k line : Nat}
    (heq : tokens ++ List.replicate k (onLine line 0 .dedent []) = others)
    (hd : ∀ t ∈ others.getLast?, t.kind ≠ .dedent) : k = 0 ∧ tokens = others := by
  cases k with
  | zero => exact ⟨rfl, by simpa using heq⟩
  | succ k =>
    have hlast : others.getLast? = some (onLine line 0 .dedent []) := by
      rw [← heq, List.replicate_succ', ← List.append_assoc, List.getLast?_concat]
    exact absurd rfl (hd _ hlast)

theorem tokenize_append {a : List Char} {ta : List Token} {marker : Token}
    (ha : a = [] ∨ a.getLast? = some '\n') (h : tokenize a = .ok (ta ++ [marker]))
    (hd : ∀ t ∈ ta.getLast?, t.kind ≠ .dedent) (b : List Char) :
    (∀ tb, tokenize b = .ok tb →
      tokenize (a ++ b) = .ok (ta ++ tb.map (addLines (a.count '\n')))) ∧
    ∀ e, tokenize b = .error e → tokenize (a ++ b) = .error (e.addLines (a.count '\n')) := by
  obtain ⟨read, s, final, hread, hfinal, htokens⟩ := tokenize_eq_ok_iff.mp h
  obtain ⟨hp, hdepth, rfl⟩ := finish_eq_ok_iff.mp hfinal
  have hended : ∀ cs ∈ Text.lines a, cs.getLast? = some '\n' :=
    fun cs hcs => Text.getLast?_of_mem_lines ha hcs
  have hcomplete : IsComplete ((Text.lines a).getLast?.getD []) := by
    cases hl : (Text.lines a).getLast? with
    | none => exact .inl rfl
    | some last => exact .inr (hended last (List.mem_of_getLast? hl))
  rw [impliedBreak_of_isComplete hcomplete, List.nil_append, ← List.append_assoc] at htokens
  obtain ⟨htokens, hmarker⟩ := List.append_inj' htokens rfl
  obtain ⟨hindents, rfl⟩ := indents_eq_nil htokens.symm hd
  have hlow : Lowered (Text.lines a).length .start s := by
    apply lowered_start hp hdepth (List.length_eq_zero_iff.mp hindents)
    apply (linesRead_of_linesStep hread).settled _ _ hended
    · exact State.quoted_start
    · exact fun _ => rfl
  have hmain : tokenize (a ++ b) = ((lowering (Text.lines a).length).result (tokenize b)).map
      (read ++ ·) := by
    have hlines := Text.lines_append ha b
    rw [tokenize_eq, tokenize_eq, hlines, linesStep_append, hread, Step.complete_append_ok]
    congr 1
    rw [List.length_append, Nat.add_comm (Text.lines a).length]
    apply (linesStep_lowered hlow 1 (Text.lines b)).complete
    intro t t' ht
    apply finish_lowered ht
    cases hb : Text.lines b with
    | nil =>
      right
      rw [List.append_nil]
      exact ⟨.inl rfl, hcomplete⟩
    | cons line rest =>
      left
      rw [List.getLast?_append, List.getLast?_cons, Option.some_or]
  rw [← Text.length_lines ha]
  constructor
  · intro tb htb
    rw [hmain, htb]
    rfl
  · intro e he
    rw [hmain, he]
    rfl

theorem tokenize_append_after_block : ∃ ta marker,
    tokenize "a:\n b\nc\n".toList = .ok (ta ++ [marker]) ∧
    tokenize ("a:\n b\nc\n".toList ++ "d".toList) = .ok (ta ++
      [onLine 4 0 .name ['d'], ⟨.newline, [], ⟨4, 1⟩, ⟨4, 2⟩⟩, onLine 5 0 .endMarker []]) ∧
    tokenize ("a:\n b\nc\n".toList ++ "\n'''".toList) = .error ⟨⟨5, 0⟩, .endInString⟩ := by
  have h : tokenize "a:\n b\nc\n".toList = .ok
      ([onLine 1 0 .name ['a'], onLine 1 1 .op [':'], onLine 1 2 .newline ['\n'],
        onLine 2 0 .indent [' '], onLine 2 1 .name ['b'], onLine 2 2 .newline ['\n'],
        onLine 3 0 .dedent [], onLine 3 0 .name ['c'], onLine 3 1 .newline ['\n']] ++
        [onLine 4 0 .endMarker []]) := rfl
  have hd : ∀ t ∈ some (onLine 3 1 .newline ['\n']), t.kind ≠ .dedent := by
    intro t ht
    cases ht
    exact Kind.noConfusion
  have happend := tokenize_append (.inr rfl) h hd
  have hname := (happend "d".toList).1 _ rfl
  have hstring := (happend "\n'''".toList).2 _ rfl
  exact ⟨_, _, h, hname, hstring⟩

end Token

end StyleCheck
