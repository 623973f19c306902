import StyleCheck.Text.Characters
import StyleCheck.Text.Lines

namespace StyleCheck

namespace Margin

open Text

def leadByte (c : Char) : Nat :=
  let n := c.toNat
  if n < 0x80 then n
  else if n < 0x800 then 0xC0 + n / 0x40
  else if n < 0x10000 then 0xE0 + n / 0x1000
  else 0xF0 + n / 0x40000

/-- The longest common start, byte by byte; `none` where it ends inside a character. -/
def common? : List Char → List Char → Option (List Char)
  | x :: xs, y :: ys =>
    if x = y then (common? xs ys).map (x :: ·)
    else if leadByte x = leadByte y then none
    else some []
  | _, _ => some []

theorem common?_isPrefix {xs ys m : List Char} (h : common? xs ys = some m) : m <+: xs ∧ m <+: ys := by
  fun_induction common? xs ys generalizing m with
  | case1 xs y ys ih =>
    obtain ⟨n, hn, rfl⟩ := Option.map_eq_some_iff.1 h
    simpa [List.cons_prefix_cons] using ih hn
  | case2 => simp at h
  | case3 => simp_all
  | case4 => simp_all

def indentation (line : List Char) : List Char :=
  line.takeWhile isBlank

def isBlankLine (line : List Char) : Bool :=
  line.all isBlank

def bare (line : List Char) : List Char :=
  match line.reverse with
  | '\n' :: '\r' :: rest => rest.reverse
  | '\n' :: rest => rest.reverse
  | _ => line

def margin? (text : List Char) : Option (List Char) :=
  match (((lines text).map bare).filter (!isBlankLine ·)).map indentation with
  | [] => some []
  | first :: rest => rest.foldlM common? first

def withoutMargin (margin line : List Char) : List Char :=
  if isBlankLine line then line.filter (· == '\n') else line.drop margin.length

end Margin

/-- The text with its common margin taken off every line and with its blank lines empty. -/
def dedent? (text : List Char) : Option (List Char) :=
  (Margin.margin? text).map fun margin => (Text.lines text).flatMap (Margin.withoutMargin margin)

end StyleCheck
