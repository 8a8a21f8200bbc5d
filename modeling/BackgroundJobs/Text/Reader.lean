/-!
# Text — readers

A reader takes a value off the front of a text, or fails. Of two alternatives
the first one that succeeds counts, and the other is not come back to.
-/

namespace BackgroundJobs.Text

/-- Takes a value off the front of a text. -/
abbrev Reader := StateT (List Char) Option

namespace Reader

variable {α : Type}

/-- The text that is left, which stays where it is. -/
def rest : Reader (List Char) := get

/-- The next character, which must be one that `ok` holds of. -/
def char (ok : Char → Bool) : Reader Char := do
  match ← get with
  | c :: tail => if ok c then set tail; pure c else failure
  | [] => failure

/-- Takes exactly this character. -/
def mark (c : Char) : Reader Unit := do
  let _ ← char (· == c)

/-- Takes exactly this text. -/
def word (w : List Char) : Reader Unit := do
  let s ← get
  if w.isPrefixOf s then set (s.drop w.length) else failure

/-- The longest run of characters that `ok` holds of. -/
def run (ok : Char → Bool) : Reader (List Char) := do
  let s ← get
  set (s.dropWhile ok)
  pure (s.takeWhile ok)

/-- The longest run of characters that `ok` holds of; it must not be empty. -/
def runOne (ok : Char → Bool) : Reader (List Char) := do
  let cs ← run ok
  if cs.isEmpty then failure else pure cs

def atEnd : Reader Unit := do
  if (← get).isEmpty then pure () else failure

/-- The value, or none if it cannot be read. -/
def maybe (p : Reader α) : Reader (Option α) :=
  (some <$> p) <|> pure none

/-- Values one after the other until one cannot be read, no more of them than `limit` has
characters. -/
def manyUpTo (p : Reader α) : List Char → Reader (List α)
  | [] => pure []
  | _ :: limit => do
    match ← maybe p with
    | some a => pure (a :: (← manyUpTo p limit))
    | none => pure []

/-- Values one after the other until one cannot be read. Each takes something off the text, so
there are no more of them than characters. -/
def many (p : Reader α) : Reader (List α) := do
  manyUpTo p (← get)

/-- One value or more, with a separator between two of them. -/
def sepBy (p : Reader α) (separator : Reader Unit) : Reader (List α) := do
  let first ← p
  let more ← many (separator *> p)
  pure (first :: more)

/-- Reads the whole of a text. -/
def readAll? (p : Reader α) (s : List Char) : Option α :=
  match p s with
  | some (a, []) => some a
  | _ => none

end Reader

end BackgroundJobs.Text
