namespace StyleCheck.Text

def followingFrom (needle : List Char) : Nat → List Char → List (List Char)
  | _, [] => []
  | skip + 1, _ :: cs => followingFrom needle skip cs
  | 0, c :: cs =>
    if needle.isPrefixOf (c :: cs) then
      (c :: cs).drop needle.length :: followingFrom needle (needle.length - 1) cs
    else followingFrom needle 0 cs

def following (needle text : List Char) : List (List Char) :=
  followingFrom needle 0 text

def count (needle text : List Char) : Nat :=
  (following needle text).length

def replaceFrom (needle value : List Char) : Nat → List Char → List Char
  | _, [] => []
  | skip + 1, _ :: cs => replaceFrom needle value skip cs
  | 0, c :: cs =>
    if needle.isPrefixOf (c :: cs) then value ++ replaceFrom needle value (needle.length - 1) cs
    else c :: replaceFrom needle value 0 cs

def replace (needle value text : List Char) : List Char :=
  replaceFrom needle value 0 text

end StyleCheck.Text
