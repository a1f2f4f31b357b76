import Quasi.Bindings
import Quasi.Builtin
import Quasi.Failure.Cause
import Quasi.Number.Binary64

/-!
# Expressions and values

Code is data: an expression is a constant, a symbol, a call with possibly named argument slots, a
list of formals, or the marker of a missing argument. Values are what expressions evaluate to, and
an expression is itself a value; a constant may wrap any value. Values with an identity of their
own (environments, promises, closures, masks, failures) are references into a store.
-/

namespace Quasi

/-! ## References -/

structure PromiseId where
  index : Nat
deriving DecidableEq, Repr

structure ClosureId where
  index : Nat
deriving DecidableEq, Repr

structure MaskId where
  index : Nat
deriving DecidableEq, Repr

structure EvaluatorId where
  index : Nat
deriving DecidableEq, Repr

/-- An environment: the empty one, at which every chain ends; an ordinary scope; or the bottom
environment of a data mask. -/
inductive EnvId where
  | empty
  | scope (index : Nat)
  | bottom (mask : MaskId)
deriving DecidableEq, Repr

/-- A failure that occurred: its cause, and the index of what is noted while it unwinds. -/
structure FailureRef where
  index : Nat
  cause : Cause
deriving DecidableEq, Repr

/-- The handles through which code under a mask restricts a look-up. -/
inductive Pronoun where
  | data
  | env
deriving DecidableEq, Repr

def Pronoun.name : Pronoun → String
  | .data => ".data"
  | .env => ".env"

/-! ## Vectors and tables -/

/-- The elements of a vector, all of one type. Texts share a width, the largest length that the
vector has room for. -/
inductive Elements (α : Type) where
  | bools (xs : List Bool)
  | ints (xs : List Int)
  | words (xs : List Nat)
  | floats (xs : List Binary64)
  | texts (width : Nat) (xs : List String)
  | objects (xs : List α)

/-- A vector. The number tells vectors apart that hold the same elements. -/
structure Vec (α : Type) where
  id : Nat
  elements : Elements α

/-- Named columns of one length. -/
structure Table (α : Type) where
  id : Nat
  columns : List (String × Vec α)

def Elements.length {α : Type} : Elements α → Nat
  | .bools xs => xs.length
  | .ints xs => xs.length
  | .words xs => xs.length
  | .floats xs => xs.length
  | .texts _ xs => xs.length
  | .objects xs => xs.length

def Table.rowCount {α : Type} (table : Table α) : Nat :=
  match table.columns with
  | [] => 0
  | (_, column) :: _ => column.elements.length

/-! ## Expressions and values -/

mutual

inductive Expr where
  | const (value : Value)
  | symbol (name : String)
  | call (head : Expr) (slots : List (Tagged Expr))
  | formals (items : List (String × Expr))
  | missing

inductive Value where
  | null
  | absent
  | bool (b : Bool)
  | int (i : Int)
  | num (x : Binary64)
  | nan (origin : Option Nat)
  | str (s : String)
  | code (e : Expr)
  | slot (s : Tagged Expr)
  | list (items : List (Tagged Value))
  | sequence (items : List Value)
  | tuple (items : List Value)
  | mapping (entries : List (String × Value))
  | vec (v : Vec Value)
  | table (t : Table Value)
  | env (e : EnvId)
  | quosure (expr : Expr) (env : EnvId)
  | closure (c : ClosureId)
  | builtin (b : Builtin) (home : EnvId)
  | host (f : HostFunction)
  | dots (entries : List (Tagged Value))
  | promise (p : PromiseId)
  | mask (m : MaskId)
  | pronoun (p : Pronoun) (mask : MaskId)
  | failure (f : FailureRef)

end

instance : Inhabited Expr := ⟨.missing⟩
instance : Inhabited Value := ⟨.null⟩

/-- One argument slot of a call. -/
abbrev Slot := Tagged Expr

/-- A formal with its default; the missing marker stands for no default. -/
abbrev Formal := String × Expr

/-- The symbol that stands for the arguments a function passes on. -/
def dotsName : String := "..."

namespace Value

/-- The expression that stands for a value in code: an expression itself, or a constant. -/
def toExpr : Value → Expr
  | .code e => e
  | v => .const v

def isNull : Value → Bool
  | .null => true
  | .absent => true
  | _ => false

@[simp] theorem toExpr_code (e : Expr) : toExpr (.code e) = e := rfl

end Value

namespace Expr

def sym (name : String) : Expr := .symbol name

/-- The expression that evaluates to an expression. -/
def quoted (e : Expr) : Expr := .call (.symbol "quote") [⟨none, e⟩]

/-- A call without argument names. -/
def apply (head : String) (args : List Expr) : Expr := .call (.symbol head) (args.map Tagged.bare)

def isMissing : Expr → Bool
  | .missing => true
  | _ => false

def isSymbol (name : String) : Expr → Bool
  | .symbol n => n = name
  | _ => false

def symbolName? : Expr → Option String
  | .symbol name => some name
  | _ => none

/-- The name of a call's head, if the head is a symbol. -/
def headName? : Expr → Option String
  | .call (.symbol name) _ => some name
  | _ => none

/-- Whether the expression is a call of `name` with `count` arguments. -/
def isCallOf (name : String) (count : Nat) : Expr → Bool
  | .call (.symbol head) slots => head = name && slots.length = count
  | _ => false

end Expr

end Quasi
