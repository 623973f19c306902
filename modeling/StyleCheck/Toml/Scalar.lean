import StyleCheck.Toml.Reader
import StyleCheck.Toml.Value

namespace StyleCheck.Toml

namespace Reader

def isSpace (c : Char) : Bool :=
  c == ' ' || c == '\t'

def spaces : Reader Unit := do
  let _ ← run isSpace

def isText (c : Char) : Bool :=
  c == '\t' || (' ' ≤ c && c ≤ '~') || 0x80 ≤ c.toNat

def lineBreak : Reader Unit :=
  word ['\n'] <|> word ['\r', '\n']

def comment : Reader Unit := do
  exactly '#'
  let _ ← run isText

def isHexDigit (c : Char) : Bool :=
  c.isDigit || ('a' ≤ c && c ≤ 'f') || ('A' ≤ c && c ≤ 'F')

def digitValue (c : Char) : Nat :=
  if c.isDigit then c.toNat - '0'.toNat
  else if 'a' ≤ c then c.toNat - 'a'.toNat + 10
  else c.toNat - 'A'.toNat + 10

def numeral (base : Nat) (digits : List Char) : Nat :=
  digits.foldl (fun n c => n * base + digitValue c) 0

def codePoint (count : Nat) : Reader Char := do
  let n := numeral 16 (← times count isHexDigit)
  if n.isValidChar then pure (Char.ofNat n) else failure

def escape : Reader Char := do
  exactly '\\'
  match ← char fun _ => true with
  | 'b' => pure '\x08'
  | 't' => pure '\t'
  | 'n' => pure '\n'
  | 'f' => pure '\x0c'
  | 'r' => pure '\r'
  | '"' => pure '"'
  | '\\' => pure '\\'
  | 'u' => codePoint 4
  | 'U' => codePoint 8
  | _ => failure

def basicString : Reader (List Char) := do
  exactly '"'
  let text ← many (char (fun c => isText c && c != '"' && c != '\\') <|> escape)
  exactly '"'
  pure text

def literalString : Reader (List Char) := do
  exactly '\''
  let text ← run fun c => isText c && c != '\''
  exactly '\''
  pure text

def joinedLines : Reader (List Char) := do
  exactly '\\'
  spaces
  lineBreak
  let _ ← many ((do let _ ← char isSpace) <|> lineBreak)
  pure []

def innerQuotes (quote : Char) : Reader (List Char) := do
  let quotes ← run1 (· == quote)
  if quotes.length < 3 then pure quotes else failure

def closingQuotes (quote : Char) : Reader (List Char) := do
  let quotes ← run1 (· == quote)
  if 3 ≤ quotes.length ∧ quotes.length ≤ 5 then pure (quotes.drop 3) else failure

def longString (quote : Char) (piece : Reader (List Char)) : Reader (List Char) := do
  word [quote, quote, quote]
  let _ ← optional lineBreak
  let pieces ← many (piece <|> (do lineBreak; pure ['\n']) <|> innerQuotes quote)
  let final ← closingQuotes quote
  pure (pieces.flatten ++ final)

def longBasicString : Reader (List Char) :=
  longString '"'
    (run1 (fun c => isText c && c != '"' && c != '\\') <|> (do pure [← escape]) <|> joinedLines)

def longLiteralString : Reader (List Char) :=
  longString '\'' (run1 fun c => isText c && c != '\'')

def string : Reader String := do
  let text ← longBasicString <|> longLiteralString <|> basicString <|> literalString
  pure (String.ofList text)

def isBareKeyChar (c : Char) : Bool :=
  c.isAlphanum || c == '_' || c == '-'

def keyPart : Reader String := do
  spaces
  let part ← basicString <|> literalString <|> run1 isBareKeyChar
  spaces
  pure (String.ofList part)

def nestingLimit : Nat := 80

def key : Reader (List String) := do
  let parts ← separated keyPart (exactly '.')
  if parts.length < nestingLimit then pure parts else failure

def sign : Reader Bool := do
  (do exactly '-'; pure true) <|> (do exactly '+'; pure false) <|> pure false

def digits (p : Char → Bool) : Reader (List Char) := do
  let groups ← separated (run1 p) (exactly '_')
  pure groups.flatten

def wholeDigits : Reader (List Char) := do
  if ← startsWith (· == '0') then times 1 (· == '0') else digits Char.isDigit

def basedNumeral (letter : Char) (base : Nat) (p : Char → Bool) : Reader Int := do
  word ['0', letter]
  pure (numeral base (← digits p))

def wholeNumeral : Reader Int := do
  let negative ← sign
  let n := numeral 10 (← wholeDigits)
  pure (if negative then -n else n)

def integer : Reader Int64 := do
  let n ← basedNumeral 'x' 16 isHexDigit <|>
    basedNumeral 'o' 8 (fun c => '0' ≤ c && c ≤ '7') <|>
    basedNumeral 'b' 2 (fun c => c == '0' || c == '1') <|> wholeNumeral
  if Int64.minValue.toInt ≤ n ∧ n ≤ Int64.maxValue.toInt then pure (.ofInt n) else failure

def fraction : Reader (List Char) := do
  exactly '.'
  digits Char.isDigit

def exponent : Reader Int := do
  let _ ← char fun c => c == 'e' || c == 'E'
  let negative ← sign
  let n : Int := numeral 10 (← digits Char.isDigit)
  pure (if negative then -n else n)

def plainFloat : Reader Decimal.Binary64 := do
  let negative ← sign
  let whole ← wholeDigits
  let (places, power) ←
    (do pure ([], ← exponent)) <|> (do pure (← fraction, (← optional exponent).getD 0))
  let value := Decimal.Binary64.ofDecimal negative (numeral 10 (whole ++ places))
    (power - places.length)
  if value = .infinite false then failure else pure value

def specialFloat : Reader Decimal.Binary64 := do
  let negative ← sign
  (do word ['i', 'n', 'f']; pure (.infinite negative)) <|> (do word ['n', 'a', 'n']; pure .nan)

def number (count least greatest : Nat) : Reader Nat := do
  let n := numeral 10 (← times count Char.isDigit)
  if least ≤ n ∧ n ≤ greatest then pure n else failure

def daysIn (year month : Nat) : Nat :=
  if month = 2 then
    if year % 4 = 0 ∧ (year % 100 ≠ 0 ∨ year % 400 = 0) then 29 else 28
  else if month ∈ [4, 6, 9, 11] then 30
  else 31

def padded (places n : Nat) : String :=
  let shown := Nat.toDigits 10 n
  String.ofList (List.replicate (places - shown.length) '0' ++ shown)

def date : Reader String := do
  let year ← number 4 0 9999
  exactly '-'
  let month ← number 2 1 12
  exactly '-'
  let day ← number 2 1 (daysIn year month)
  pure (padded 4 year ++ "-" ++ padded 2 month ++ "-" ++ padded 2 day)

def secondFraction : Reader String := do
  exactly '.'
  let places ← run1 Char.isDigit
  let kept := ((places.take 9).reverse.dropWhile (· == '0')).reverse
  pure (if kept.isEmpty then "" else "." ++ String.ofList kept)

def time : Reader String := do
  let hour ← number 2 0 23
  exactly ':'
  let minute ← number 2 0 59
  exactly ':'
  let second ← number 2 0 60
  let fraction ← optional secondFraction
  pure (padded 2 hour ++ ":" ++ padded 2 minute ++ ":" ++ padded 2 second ++ fraction.getD "")

def zoneOffset : Reader String := do
  let negative : Bool ← (do exactly '-'; pure true) <|> (do exactly '+'; pure false)
  let hour ← number 2 0 23
  exactly ':'
  let minute ← number 2 0 59
  pure ((if negative ∧ 0 < hour + minute then "-" else "+") ++ padded 2 hour ++ ":" ++
    padded 2 minute)

def zone : Reader String := do
  (do let _ ← char fun c => c == 'Z' || c == 'z'; pure "Z") <|> zoneOffset

def timeAfterDate : Reader String := do
  let _ ← char fun c => c == 'T' || c == 't' || c == ' '
  let time ← time
  let zone ← optional zone
  pure ("T" ++ time ++ zone.getD "")

def datetime : Reader String := do
  (do
    let date ← date
    let time ← optional timeAfterDate
    pure (date ++ time.getD "")) <|> time

end Reader

end StyleCheck.Toml
