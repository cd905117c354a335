/-!
# Blank characters and trimming

A character is blank when it has the Unicode property `White_Space`: 25 code points.  Every reader
of this library that skips blanks uses this one class.
-/

namespace TraceWeave.Text

/-- A character with the Unicode property `White_Space`. -/
def isBlank (c : Char) : Bool :=
  c == ' ' || ('\t' ≤ c && c ≤ '\x0d') || c == '\u0085' || c == '\u00a0' || c == '\u1680' ||
    ('\u2000' ≤ c && c ≤ '\u200a') || c == '\u2028' || c == '\u2029' || c == '\u202f' ||
    c == '\u205f' || c == '\u3000'

/-- The text without the blanks at its start. -/
def trimStart (l : List Char) : List Char := l.dropWhile isBlank

/-- The text without the blanks at its end. -/
def trimEnd (l : List Char) : List Char := (l.reverse.dropWhile isBlank).reverse

/-- The text without the blanks at both ends. -/
def trim (l : List Char) : List Char := trimEnd (trimStart l)

/-- Nothing but blanks. -/
def allBlank (l : List Char) : Bool := l.all isBlank

end TraceWeave.Text
