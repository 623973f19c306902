import StyleCheck.Proofs.Token.LexemeText
import StyleCheck.Proofs.Token.Reading

namespace StyleCheck.Token

def State.Quoted (s : State) : Prop :=
  ∀ start close text, s.pending = .string start close text →
    ∃ quote rest, isQuote quote = true ∧ close = delimiter quote rest

theorem State.quoted_of_ne {s : State}
    (h : ∀ start close text, s.pending ≠ .string start close text) : s.Quoted := by
  intro start close text hp
  exact absurd hp (h start close text)

theorem State.quoted_start : State.start.Quoted :=
  quoted_of_ne (by simp [start])

variable {line : Nat} {cs : List Char} {tokens : List Token} {s s' : State}

theorem State.Quoted.getLast? (h : s.Quoted) {start : Position} {close text : List Char} {n : Nat}
    (hp : s.pending = .string start close text) (hn : closing? close cs = some n) :
    (cs.take n).getLast? ≠ some '\n' := by
  obtain ⟨quote, rest, hq, rfl⟩ := h start close text hp
  rw [getLast?_closed hn (getLast?_delimiter quote rest)]
  intro h
  exact isQuote_ne_lineFeed hq (Option.some.inj h)

theorem Scanned.quoted {column : Nat} (h : Scanned line column cs s tokens s') (hs : s.Quoted) :
    s'.Quoted := by
  induction h with
  | nil => exact hs
  | blank _ _ ih => exact ih hs
  | token _ _ ih => exact ih hs
  | opening h =>
    intro start close text hp
    cases hp
    exact exists_delimiter h
  | lineEnd => exact hs
  | join => exact State.quoted_of_ne (by simp)

theorem Indented.quoted (h : Indented line cs s tokens s') (hs : s.Quoted) : s'.Quoted := by
  intro start close text hp
  rw [h.pending] at hp
  exact hs start close text hp

theorem LineRead.quoted (h : LineRead line cs s tokens s') (hs : s.Quoted) : s'.Quoted := by
  cases h with
  | closing _ _ rest => exact rest.quoted (State.quoted_of_ne (by simp))
  | inside hp =>
    intro start close text h
    cases h
    exact hs _ _ _ hp
  | joined _ rest => exact rest.quoted (State.quoted_of_ne (by simp))
  | nested _ _ rest => exact rest.quoted hs
  | blank _ _ _ rest =>
    obtain ⟨_, _, _, _, rfl⟩ := blankLine_eq_ok rest
    exact hs
  | fresh _ _ _ hi rest => exact rest.quoted (hi.quoted hs)

theorem LinesRead.quoted {lines : List (List Char)} (h : LinesRead line lines s tokens s')
    (hs : s.Quoted) : s'.Quoted := by
  induction h with
  | nil => exact hs
  | cons head _ ih => exact ih (head.quoted hs)

end StyleCheck.Token
