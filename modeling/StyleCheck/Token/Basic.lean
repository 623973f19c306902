import StyleCheck.Position

namespace StyleCheck

namespace Token

/-- `newline` ends a logical line, `nl` is any other line break. -/
inductive Kind
  | name
  | number
  | string
  | op
  | comment
  | newline
  | nl
  | indent
  | dedent
  | endMarker
deriving DecidableEq, Repr

end Token

structure Token where
  kind : Token.Kind
  text : List Char
  start : Position
  stop : Position
deriving DecidableEq, Repr

end StyleCheck
