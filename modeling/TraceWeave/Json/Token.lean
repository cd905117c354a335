import TraceWeave.Json.Basic
/-!
# JSON tokens

Cuts a text into JSON tokens.  Blank space between tokens is the four characters that JSON allows.
A string may not hold raw control characters, and its escapes are the ones of JSON; a number has no
superfluous leading zero, and digits on both sides of its point.
-/

namespace TraceWeave.Json

/-- A token of a JSON text. -/
inductive Token where
  /-- An opening square bracket. -/
  | openArray
  /-- A closing square bracket. -/
  | closeArray
  /-- An opening brace. -/
  | openObject
  /-- A closing brace. -/
  | closeObject
  /-- A comma. -/
  | comma
  /-- A colon. -/
  | colon
  /-- The literal `null`. -/
  | null
  /-- A literal truth value. -/
  | bool (b : Bool)
  /-- A number. -/
  | number (n : Numeral)
  /-- A string; nothing if it has an unpaired surrogate. -/
  | string (s : Option String)
deriving DecidableEq, Repr

/-- Blank space between tokens. -/
def isSpace (c : Char) : Bool := c == ' ' || c == '\n' || c == '\t' || c == '\x0d'

/-- The value of a hexadecimal digit. -/
def hexValue? (c : Char) : Option Nat :=
  if c.isDigit then some (c.toNat - '0'.toNat)
  else if 'a' ≤ c && c ≤ 'f' then some (c.toNat - 'a'.toNat + 10)
  else if 'A' ≤ c && c ≤ 'F' then some (c.toNat - 'A'.toNat + 10)
  else none

/-- The value of four hexadecimal digits. -/
def hexQuad? (a b c d : Char) : Option Nat := do
  let a ← hexValue? a
  let b ← hexValue? b
  let c ← hexValue? c
  let d ← hexValue? d
  return ((a * 16 + b) * 16 + c) * 16 + d

/-- The character that a one-letter escape stands for. -/
def plainEscape? : Char → Option Char
  | '"' => some '"'
  | '\\' => some '\\'
  | '/' => some '/'
  | 'b' => some '\x08'
  | 'f' => some '\x0c'
  | 'n' => some '\n'
  | 'r' => some '\x0d'
  | 't' => some '\t'
  | _ => none

/-- A first half of a surrogate pair. -/
def isHighSurrogate (n : Nat) : Bool := 0xd800 ≤ n && n < 0xdc00

/-- A second half of a surrogate pair. -/
def isLowSurrogate (n : Nat) : Bool := 0xdc00 ≤ n && n < 0xe000

/-- The code point of a surrogate pair. -/
def pairValue (high low : Nat) : Nat := 0x10000 + (high - 0xd800) * 0x400 + (low - 0xdc00)

/-- What has been read of a string: its characters, last one first, until a surrogate turns out to
be unpaired; and a first half that still waits for its second. -/
structure Draft where
  /-- The characters so far, last one first; nothing once a surrogate was unpaired. -/
  chars : Option (List Char) := some []
  /-- A first half of a pair, read just before. -/
  waiting : Option Nat := none

namespace Draft

/-- The draft after a surrogate that stays alone. -/
def broken : Draft := { chars := none }

/-- The draft after a whole character. -/
def push (d : Draft) (c : Char) : Draft :=
  match d.waiting with
  | some _ => broken
  | none => { chars := d.chars.map (c :: ·) }

/-- The draft after an escaped UTF-16 unit. -/
def pushUnit (d : Draft) (n : Nat) : Draft :=
  match d.waiting with
  | some high =>
    if isLowSurrogate n then { chars := d.chars.map (Char.ofNat (pairValue high n) :: ·) }
    else broken
  | none =>
    if isHighSurrogate n then { d with waiting := some n }
    else if isLowSurrogate n then broken
    else d.push (Char.ofNat n)

/-- The finished string, unless a surrogate stayed alone. -/
def finish (d : Draft) : Option String :=
  match d.waiting with
  | some _ => none
  | none => d.chars.map fun l => String.ofList l.reverse

end Draft

/-- Reads the rest of a string after its opening quote; returns it with the text after its closing
quote. -/
def readString (d : Draft) : List Char → Option (Option String × List Char)
  | [] => none
  | '"' :: rest => some (d.finish, rest)
  | '\\' :: 'u' :: a :: b :: c :: e :: rest =>
    match hexQuad? a b c e with
    | some n => readString (d.pushUnit n) rest
    | none => none
  | '\\' :: c :: rest =>
    match plainEscape? c with
    | some c => readString (d.push c) rest
    | none => none
  | c :: rest => if c < ' ' || c == '\\' then none else readString (d.push c) rest

/-- The exponent at the start of a text, with what follows it; a text without one is left alone. -/
def readExponent (l : List Char) : Option (Option (ExponentSign × List Char) × List Char) :=
  match l with
  | [] => some (none, [])
  | c :: rest =>
    if c == 'e' || c == 'E' then
      let (sign, rest) := match rest with
        | '+' :: rest => (ExponentSign.plus, rest)
        | '-' :: rest => (.minus, rest)
        | rest => (.absent, rest)
      let digits := rest.takeWhile Char.isDigit
      if digits.isEmpty then none
      else some (some (sign, digits), rest.dropWhile Char.isDigit)
    else some (none, l)

/-- The digits after a point at the start of a text, with what follows them; a text without a point
is left alone. -/
def readFraction (l : List Char) : Option (List Char × List Char) :=
  match l with
  | '.' :: rest =>
    let digits := rest.takeWhile Char.isDigit
    if digits.isEmpty then none else some (digits, rest.dropWhile Char.isDigit)
  | l => some ([], l)

/-- The number at the start of a text, its sign aside, with what follows it. -/
def readUnsigned (negative : Bool) (l : List Char) : Option (Numeral × List Char) := do
  let whole := l.takeWhile Char.isDigit
  if whole.isEmpty || (1 < whole.length && whole.head? == some '0') then none
  let (fraction, rest) ← readFraction (l.dropWhile Char.isDigit)
  let (exponent, rest) ← readExponent rest
  return ({ negative, whole, fraction, exponent }, rest)

/-- The token at the start of a text that does not begin with blank space, with what follows it. -/
def readToken : List Char → Option (Token × List Char)
  | '[' :: rest => some (.openArray, rest)
  | ']' :: rest => some (.closeArray, rest)
  | '\x7b' :: rest => some (.openObject, rest)
  | '\x7d' :: rest => some (.closeObject, rest)
  | ',' :: rest => some (.comma, rest)
  | ':' :: rest => some (.colon, rest)
  | 'n' :: 'u' :: 'l' :: 'l' :: rest => some (.null, rest)
  | 't' :: 'r' :: 'u' :: 'e' :: rest => some (.bool true, rest)
  | 'f' :: 'a' :: 'l' :: 's' :: 'e' :: rest => some (.bool false, rest)
  | '"' :: rest => (readString {} rest).map fun r => (.string r.1, r.2)
  | '-' :: rest => (readUnsigned true rest).map fun r => (.number r.1, r.2)
  | l => (readUnsigned false l).map fun r => (.number r.1, r.2)

/-- Cuts a text into tokens, `done` holding the tokens before it, last one first.  Every token takes
at least one character, so the length of the text bounds the rounds. -/
def tokensFrom (done : List Token) : Nat → List Char → Option (List Token)
  | _, [] => some done.reverse
  | 0, _ :: _ => none
  | fuel + 1, c :: rest =>
    if isSpace c then tokensFrom done fuel rest
    else
      match readToken (c :: rest) with
      | some (token, rest) => tokensFrom (token :: done) fuel rest
      | none => none

/-- The tokens of a text. -/
def tokens? (l : List Char) : Option (List Token) := tokensFrom [] l.length l

end TraceWeave.Json
