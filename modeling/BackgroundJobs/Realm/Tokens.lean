import BackgroundJobs.Id

/-!
# Realm — cancellation signals

Every attempt has a token of its own, through which it can be told to stop. A
token that was raised stays raised. The tokens of the runs that workers are
busy with are found by the runs' ids. Who goes through all of them comes to them
in any order.
-/

namespace BackgroundJobs

/-- The cancellation signal of one attempt. -/
structure Token where
  number : Nat
  deriving DecidableEq, Repr, Inhabited

/-- The tokens handed out so far, and those in use. -/
structure Tokens where
  /-- The number of tokens handed out. -/
  issued : Nat := 0
  raised : List Token := []
  /-- The runs that workers are busy with, each with the token of its attempt. -/
  running : List (JobId × Token) := []
  deriving DecidableEq

/-- An order in which the entries of a table are come to, each of them once. -/
structure Shuffle (α : Type) where
  arrange : List α → List α
  perm : ∀ entries, (arrange entries).Perm entries

/-- The order in which the entries are kept. -/
def Shuffle.asKept {α : Type} : Shuffle α :=
  ⟨id, fun entries => .refl entries⟩

namespace Tokens

def empty : Tokens := {}

instance : Inhabited Tokens := ⟨empty⟩

def isRaised (t : Tokens) (token : Token) : Bool :=
  t.raised.contains token

def raise (t : Tokens) (token : Token) : Tokens :=
  { t with raised := token :: t.raised }

/-- A token that was not handed out before. -/
def issue (t : Tokens) : Token × Tokens :=
  (⟨t.issued⟩, { t with issued := t.issued + 1 })

/-- Binds a run to its token, whatever it was bound to before. -/
def register (t : Tokens) (id : JobId) (token : Token) : Tokens :=
  { t with running := t.running.filter (·.1 != id) ++ [(id, token)] }

def deregister (t : Tokens) (id : JobId) : Tokens :=
  { t with running := t.running.filter (·.1 != id) }

/-- The token that a run is bound to. -/
def find? (t : Tokens) (id : JobId) : Option Token :=
  t.running.lookup id

/-- Raises the token that a run is bound to, if there is one. -/
def signal (t : Tokens) (id : JobId) : Tokens :=
  match t.find? id with
  | some token => t.raise token
  | none => t

end Tokens

end BackgroundJobs
