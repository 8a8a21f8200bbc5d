/-!
# Text — blanks, trimming, words and lines

A blank is any character of the Unicode property `White_Space`. Trimming and
splitting into words are stated on lists of characters, so that the parsers
built on them can be reasoned about character by character.
-/

namespace BackgroundJobs.Text

/-- Does the character have the Unicode property `White_Space`? -/
def isBlank (c : Char) : Bool :=
  let n := c.toNat
  (0x09 ≤ n && n ≤ 0x0D) || n == 0x20 || n == 0x85 || n == 0xA0 || n == 0x1680 ||
    (0x2000 ≤ n && n ≤ 0x200A) || n == 0x2028 || n == 0x2029 || n == 0x202F ||
    n == 0x205F || n == 0x3000

/-- The text without its leading blanks. -/
def trimStart (s : List Char) : List Char :=
  s.dropWhile isBlank

/-- The text without its trailing blanks. -/
def trimEnd (s : List Char) : List Char :=
  (s.reverse.dropWhile isBlank).reverse

def trim (s : List Char) : List Char :=
  trimEnd (trimStart s)

/-- The maximal blank-free pieces of the text, in order. -/
def words : List Char → List (List Char)
  | [] => []
  | c :: rest =>
    if isBlank c then words rest
    else
      match rest.head?, words rest with
      | some d, w :: ws => if isBlank d then [c] :: w :: ws else (c :: w) :: ws
      | _, ws => [c] :: ws

/-- What follows `lead` in the text, if the text starts with it. -/
def afterPrefix? (lead s : List Char) : Option (List Char) :=
  if lead.isPrefixOf s then some (s.drop lead.length) else none

/-- The text without a carriage return at its end. -/
def dropReturn (s : String) : String :=
  let cs := s.toList
  if cs.getLast? = some '\r' then String.ofList cs.dropLast else s

/-- The lines of a text, each without the mark that ends it: a line feed, or a carriage return and
a line feed. The last line may end without one. -/
def lines (s : String) : List String :=
  let pieces := s.splitOn "\n"
  pieces.dropLast.map dropReturn ++ pieces.getLast?.toList.filter (· ≠ "")

/-- `trim` on strings. -/
def trimmed (s : String) : String :=
  String.ofList (trim s.toList)

end BackgroundJobs.Text
