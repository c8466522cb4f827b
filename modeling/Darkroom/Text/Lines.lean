/-!
# Lines and blanks of a text

A text is cut at its newlines. What follows the last newline is a line only if it is not empty,
so a final newline ends the last line and begins no other.

Two character classes of Unicode give structure to the text log besides: the property White_Space,
and the category of control characters. Both are closed lists of code point ranges.
-/

namespace Darkroom.Text

/-- The lines of a text, without their newlines. An empty text has no line, and a newline alone has
one that is empty. -/
def lines : List Char → List (List Char)
  | [] => []
  | c :: rest =>
    if c = '\n' then [] :: lines rest
    else match lines rest with
      | [] => [[c]]
      | line :: others =>
        -- An empty remainder starts no line, so the first line of `rest` continues this one.
        (c :: line) :: others

/-- A line without the carriage returns at its end. There may be several; those inside the line
stay. -/
def trimReturns (line : List Char) : List Char :=
  (line.reverse.dropWhile (· == '\r')).reverse

/-- The pieces of a text between the occurrences of a separator; one more than there are of it. So
an empty text has one piece, which is empty. -/
def splitOn (separator : Char) : List Char → List (List Char)
  | [] => [[]]
  | c :: rest =>
    if c = separator then [] :: splitOn separator rest
    else match splitOn separator rest with
      | [] => [[c]]
      | piece :: others => (c :: piece) :: others

/-- The text before the first occurrence of a separator, and what follows it if there is one. What
follows may be empty, which is not the same as no separator. -/
def splitOnce (separator : Char) : List Char → List Char × Option (List Char)
  | [] => ([], none)
  | c :: rest =>
    if c = separator then ([], some rest)
    else
      let (before, after) := splitOnce separator rest
      (c :: before, after)

/-! ## Blank and control characters -/

def inRanges (ranges : List (Nat × Nat)) (n : Nat) : Bool :=
  ranges.any fun r => r.1 ≤ n && n ≤ r.2

/-- The code points with the property White_Space, ascending and apart. -/
def blankRanges : List (Nat × Nat) :=
  [(0x09, 0x0D), (0x20, 0x20), (0x85, 0x85), (0xA0, 0xA0), (0x1680, 0x1680), (0x2000, 0x200A),
   (0x2028, 0x2029), (0x202F, 0x202F), (0x205F, 0x205F), (0x3000, 0x3000)]

/-- White space in the sense of Unicode. These characters are escaped, so a word of the log looks
like one word. -/
def isBlank (c : Char) : Bool :=
  inRanges blankRanges c.toNat

/-- A control character: the code points below the space, the delete character and the 32 after it.
These are all that Unicode will ever put into this category. -/
def isControl (c : Char) : Bool :=
  inRanges [(0x00, 0x1F), (0x7F, 0x9F)] c.toNat

end Darkroom.Text
