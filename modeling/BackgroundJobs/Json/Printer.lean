import BackgroundJobs.Json.Basic
import BackgroundJobs.Number.Shortest

/-!
# Json — the printed document

Documents are printed over several lines, two more blanks for each level, or
without any blanks. Empty lists and objects stay on one line, and control
characters are escaped.
-/

namespace BackgroundJobs.Json

/-- The two low hexadecimal digits of a number. -/
def hexPair (n : Nat) : List Char :=
  [Nat.digitChar (n / 16 % 16), Nat.digitChar (n % 16)]

/-- A character as it stands inside a quoted text. -/
def quoteChar (c : Char) : List Char :=
  if c = '"' then ['\\', '"']
  else if c = '\\' then ['\\', '\\']
  else if c = '\n' then ['\\', 'n']
  else if c = '\r' then ['\\', 'r']
  else if c = '\t' then ['\\', 't']
  else if c.toNat = 8 then ['\\', 'b']
  else if c.toNat = 12 then ['\\', 'f']
  else if c.toNat < 32 then ['\\', 'u', '0', '0'] ++ hexPair c.toNat
  else [c]

def quoted (s : String) : String :=
  String.ofList ('"' :: s.toList.flatMap quoteChar ++ ['"'])

/-- A new line, indented by `depth` levels. -/
def newline (depth : Nat) : String :=
  String.ofList ('\n' :: List.replicate (2 * depth) ' ')

/-- The given lines between brackets, each on a line of its own, one level below `depth`. -/
def enclosed (opening closing : String) (depth : Nat) (lines : List String) : String :=
  if lines.isEmpty then opening ++ closing
  else
    opening ++ newline (depth + 1) ++ ("," ++ newline (depth + 1)).intercalate lines ++
      newline depth ++ closing

mutual

/-- The text of a value that stands at the given level. -/
def prettyAt (depth : Nat) : Json → String
  | .null => "null"
  | .bool b => if b then "true" else "false"
  | .int i => toString i
  | .float x => Number.floatText x
  | .str s => quoted s
  | .arr items => enclosed "[" "]" depth (prettyItems (depth + 1) items)
  | .obj fields => enclosed "\x7b" "\x7d" depth (prettyFields (depth + 1) fields)

/-- The texts of the elements of a list. -/
def prettyItems (depth : Nat) : List Json → List String
  | [] => []
  | j :: rest => prettyAt depth j :: prettyItems depth rest

/-- The texts of the fields of an object. -/
def prettyFields (depth : Nat) : List (String × Json) → List String
  | [] => []
  | (k, j) :: rest => (quoted k ++ ": " ++ prettyAt depth j) :: prettyFields depth rest

end

def pretty (j : Json) : String :=
  prettyAt 0 j

/-- Pieces of text between brackets on one line. -/
def inLine (opening closing : String) (pieces : List String) : String :=
  opening ++ ",".intercalate pieces ++ closing

mutual

/-- The document of a value on one line, without blanks. -/
def compact : Json → String
  | .null => "null"
  | .bool b => if b then "true" else "false"
  | .int i => toString i
  | .float x => Number.floatText x
  | .str s => quoted s
  | .arr items => inLine "[" "]" (compactItems items)
  | .obj fields => inLine "\x7b" "\x7d" (compactFields fields)

/-- The texts of the elements of a list. -/
def compactItems : List Json → List String
  | [] => []
  | j :: rest => compact j :: compactItems rest

/-- The texts of the fields of an object. -/
def compactFields : List (String × Json) → List String
  | [] => []
  | (k, j) :: rest => (quoted k ++ ":" ++ compact j) :: compactFields rest

end

end BackgroundJobs.Json
