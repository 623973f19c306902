import StyleCheck.Proofs.Text.Bytes
import StyleCheck.Token.Lexeme

/-!
Tokens that tile a text: one after the other they spell it, each at its own place, and what they
leave out is blank or hidden by a backslash at the end of a line.
-/

namespace StyleCheck.Token

inductive Gap (source : List Char) : Position → List Char → Prop
  | none {p : Position} : Gap source p []
  | blank {p : Position} {c : Char} (h : isMargin c = true) : Gap source p [c]
  | joined {before after : List (List Char)} {head tail : List Char}
      (hl : Text.lines source = before ++ (head ++ '\\' :: tail) :: after)
      (ht : startsWith isLineEnd tail = true) :
      Gap source ⟨before.length + 1, Text.width head⟩ ('\\' :: tail)

structure Placed (source : List Char) (t : Token) : Prop where
  start_ble_stop : t.start.ble t.stop = true
  offset_stop : t.stop.offset source = t.start.offset source + Text.width t.text
  line_stop : t.stop.line ≤ (Text.lines source).length
  text_ne_nil : t.kind = .newline → t.text ≠ []

/-- The tokens, with the gaps between them, spell a text that stands between two positions. -/
inductive Tiled (source : List Char) : Position → List Char → List Token → Position → Prop
  | nil {p : Position} : Tiled source p [] [] p
  | gap {p q r : Position} {gap cs : List Char} {tokens : List Token} (h : Gap source p gap)
      (hpq : p.ble q = true) (ho : q.offset source = p.offset source + Text.width gap)
      (rest : Tiled source q cs tokens r) : Tiled source p (gap ++ cs) tokens r
  | token {t : Token} {cs : List Char} {tokens : List Token} {r : Position} (h : Placed source t)
      (rest : Tiled source t.stop cs tokens r) :
      Tiled source t.start (t.text ++ cs) (t :: tokens) r

namespace Tiled

variable {source : List Char} {p q r : Position} {cs ds : List Char} {tokens others : List Token}

theorem append (h : Tiled source p cs tokens q) (h' : Tiled source q ds others r) :
    Tiled source p (cs ++ ds) (tokens ++ others) r := by
  induction h with
  | nil => exact h'
  | gap hg hpq ho _ ih =>
    rw [List.append_assoc]
    exact .gap hg hpq ho (ih h')
  | token ht _ ih =>
    rw [List.append_assoc]
    exact .token ht (ih h')

theorem turn (h : Tiled source p cs tokens q) (hqr : q.ble r = true)
    (ho : r.offset source = q.offset source) : Tiled source p cs tokens r := by
  have := h.append (.gap .none hqr ho .nil)
  simpa using this

theorem ble (h : Tiled source p cs tokens q) : p.ble q = true := by
  induction h with
  | nil => exact Position.ble_refl _
  | gap _ hpq _ _ ih => exact Position.ble_trans hpq ih
  | token ht _ ih => exact Position.ble_trans ht.start_ble_stop ih

theorem offset (h : Tiled source p cs tokens q) :
    q.offset source = p.offset source + Text.width cs := by
  induction h with
  | nil => rfl
  | gap _ _ ho _ ih => rw [ih, ho, Text.width_append, Nat.add_assoc]
  | token ht _ ih => rw [ih, ht.offset_stop, Text.width_append, Nat.add_assoc]

theorem placed (h : Tiled source p cs tokens q) {t : Token} (ht : t ∈ tokens) :
    Placed source t := by
  induction h with
  | nil => simp at ht
  | gap _ _ _ _ ih => exact ih ht
  | token hp _ ih =>
    rcases List.mem_cons.1 ht with rfl | ht
    · exact hp
    · exact ih ht

theorem between (h : Tiled source p cs tokens q) {t : Token} (ht : t ∈ tokens) :
    (p.ble t.start = true ∧ p.offset source ≤ t.start.offset source) ∧
      t.stop.ble q = true ∧ t.stop.offset source ≤ q.offset source := by
  induction h with
  | nil => simp at ht
  | gap _ hpq ho _ ih =>
    obtain ⟨⟨hb, hle⟩, hstop⟩ := ih ht
    exact ⟨⟨Position.ble_trans hpq hb, by omega⟩, hstop⟩
  | token hp rest ih =>
    rcases List.mem_cons.1 ht with rfl | ht
    · have ho := rest.offset
      exact ⟨⟨Position.ble_refl _, Nat.le_refl _⟩, rest.ble, by omega⟩
    · obtain ⟨⟨hb, hle⟩, hstop⟩ := ih ht
      have ho := hp.offset_stop
      exact ⟨⟨Position.ble_trans hp.start_ble_stop hb, by omega⟩, hstop⟩

theorem pairwise (h : Tiled source p cs tokens q) :
    tokens.Pairwise fun a b =>
      a.stop.ble b.start = true ∧ a.stop.offset source ≤ b.start.offset source := by
  induction h with
  | nil => exact .nil
  | gap _ _ _ _ ih => exact ih
  | token _ rest ih => exact .cons (fun b hb => (rest.between hb).1) ih

theorem text_of_mem (h : Tiled source p cs tokens q) {t : Token} (ht : t ∈ tokens) :
    ∃ before after, cs = before ++ t.text ++ after ∧
      t.start.offset source = p.offset source + Text.width before := by
  induction h with
  | nil => simp at ht
  | @gap p q r gap cs tokens _ _ ho _ ih =>
    obtain ⟨before, after, rfl, hs⟩ := ih ht
    refine ⟨gap ++ before, after, by simp, ?_⟩
    rw [hs, ho, Text.width_append, Nat.add_assoc]
  | @token u cs tokens r hp _ ih =>
    rcases List.mem_cons.1 ht with rfl | ht
    · exact ⟨[], cs, by simp, by simp [Text.width]⟩
    · obtain ⟨before, after, rfl, hs⟩ := ih ht
      refine ⟨u.text ++ before, after, by simp, ?_⟩
      rw [hs, hp.offset_stop, Text.width_append, Nat.add_assoc]

end Tiled

end StyleCheck.Token
