import Quasi.Expr.Traversal
import Quasi.Quotation.Position
import Quasi.Session.Environment

/-!
# Working with code

Making expressions, reading and editing their parts, and going through them.
-/

namespace Quasi

namespace Session

/-! ## Making expressions -/

def makeSymbol (v : Value) : Run Value := do
  match v with
  | .code (.symbol name) => pure (.code (.symbol name))
  | .str name => pure (.code (.symbol name))
  | _ => Run.failHost .type

def symbol (v : Value) : Run Value := do
  match v with
  | .str name => pure (.code (.symbol name))
  | _ => Run.failHost .type

/-- The name that a value gives a slot or a formal. -/
def nameText (v : Value) : Run String := Run.plainText v

def makeArg (name v : Value) : Run Value := do
  match name with
  | .absent => pure (.slot ⟨none, v.toExpr⟩)
  | name => do pure (.slot ⟨some (← nameText name), v.toExpr⟩)

def rawCall (head args : Value) : Run Value := do
  pure (.code (.call head.toExpr ((← Library.iterate args).map Value.toSlot)))

/-- Refuse named values whose names are taken. -/
def refuseNames (named : Bindings Value) (taken : List String) : Run Unit := do
  if taken.any fun name => named.contains name then Run.failHost .type

def makeCall (head args named : Value) : Run Value := do
  let named ← match named with
    | .mapping entries => pure entries
    | .absent => pure []
    | _ => Run.failHost .type
  refuseNames named ["head", "args"]
  pure (.code (Library.makeCall head (← Library.iterate args) named))

def makeConstant (v : Value) : Run Value := do
  match v with
  | .code e => Run.failType (.constantExpression (← Run.inspect (.code e)))
  | v => pure (.code (.const v))

/-- Formals of which no name is repeated. -/
def formalsOf (items : List (String × Expr)) : Run (List (String × Expr)) := do
  match Reader.repeatedName? (items.map (·.1)) with
  | some name => Run.fail (.syntaxError (.repeatedFormal name))
  | none => pure items

/-- A formal, from its name or from a pair of its name and its default. -/
def formalOf (item : Value) : Run (String × Expr) := do
  match item with
  | .str name => pure (name, .missing)
  | .code (.symbol name) => pure (name, .missing)
  | item =>
      match ← Library.iterate item with
      | [name, default] => do pure (← nameText name, default.toExpr)
      | _ => Run.failHost (.value "")

def makeFormals (items : Value) (defaults : Bindings Value) : Run (List (String × Expr)) := do
  let items ← (← Library.iterate items).mapM formalOf
  formalsOf (items ++ defaults.map fun (name, v) => (name, v.toExpr))

def makePairlist (items named : Value) : Run Value := do
  let named ← match named with
    | .mapping entries => pure entries
    | .absent => pure []
    | _ => Run.failHost .type
  refuseNames named ["items"]
  pure (.code (.formals (← makeFormals items named)))

def makeClosure (formals body env : Value) (name : Option String) : Run Value := do
  let formals ← match formals with
    | .code (.formals items) => pure items
    | items => makeFormals items []
  let env ← envOf env
  pure (.closure (← Run.newClosure ⟨formals, body.toExpr, env, name⟩))

/-- A list with names; they are as many as the items. -/
def namedList (items names : Value) : Run Value := do
  let items ← Library.iterate items
  match names with
  | .absent => pure (.list (items.map .bare))
  | names => do
      let names ← Library.iterate names
      if names.length ≠ items.length then Run.failHost (.value "")
      else
        pure (.list ((names.zip items).map fun (name, v) =>
          ⟨match name with | .str name => some name | _ => none, v⟩))

/-! ## Parts -/

/-- The call that a value is. -/
def callOf (v : Value) : Run (Expr × List Slot) := do
  match v with
  | .code (.call head slots) => pure (head, slots)
  | _ => Run.failHost .attribute

def formalsRef (v : Value) : Run (List (String × Expr)) := do
  match v with
  | .code (.formals items) => pure items
  | _ => Run.failHost .attribute

/-- The position in a sequence of a given length. -/
def positionIn (length : Nat) (i : Int) : Run Nat := do
  match position? length i with
  | .ok n => pure n
  | .error _ => Run.failHost .index

def itemAt {α : Type} (items : List α) (i : Int) : Run α := do
  match items[← positionIn items.length i]? with
  | some item => pure item
  | none => Run.failHost .index

def index (v : Value) (i : Int) : Run Value := do
  match v with
  | .code (.call head slots) => do
      pure (.code (← itemAt (head :: slots.map (·.item)) i))
  | .code (.formals items) => do pure (.code (← itemAt items i).2)
  | .list items => do pure (← itemAt items i).item
  | .sequence items => itemAt items i
  | .tuple items => itemAt items i
  | .dots entries => do pure (← itemAt entries i).item
  | .str text => do pure (.str (String.singleton (← itemAt text.toList i)))
  | .vec v => do Run.own (← itemAt v.elements.items i)
  | .mapping _ => Run.failHost .key
  | _ => Run.failHost .type

def length (v : Value) : Run Value := do
  let n ← match v with
    | .null => pure 0
    | .code (.call _ slots) => pure (slots.length + 1)
    | .code (.formals items) => pure items.length
    | .list items => pure items.length
    | .sequence items => pure items.length
    | .tuple items => pure items.length
    | .dots entries => pure entries.length
    | .mapping entries => pure entries.length
    | .str text => pure text.length
    | .vec v => pure v.elements.length
    | _ => Run.failHost .type
  pure (.int (n : Nat))

def replace (call v : Value) (i : Int) : Run Value := do
  let (head, slots) ← callOf call
  let n ← positionIn (slots.length + 1) i
  pure (.code (Expr.setPart head slots n v.toExpr))

/-- The call without one of its parts. Without its head, its first argument becomes the head. -/
def drop (call : Value) (i : Int) : Run Value := do
  let (head, slots) ← callOf call
  match ← positionIn (slots.length + 1) i, slots with
  | n + 1, slots => pure (.code (.call head (slots.eraseIdx n)))
  | 0, [] => Run.fail (.callable .dropOnlyHead)
  | 0, first :: rest =>
      if first.tag.isSome || !first.item.isHeadLike Value.isInvocable then
        Run.fail (.callable .dropLeavesNoHead)
      else pure (.code (.call first.item rest))

def withHead (call head : Value) : Run Value := do
  let (_, slots) ← callOf call
  pure (.code (.call head.toExpr slots))

def withArgs (call args : Value) : Run Value := do
  let (head, _) ← callOf call
  let slots ← match args with
    | .list items => pure (items.map (Tagged.map Value.toExpr))
    | args => do pure ((← Library.iterate args).map Value.toSlot)
  pure (.code (.call head slots))

def headName (call : Value) : Run Value := do
  let (head, _) ← callOf call
  pure (Machine.textOrAbsent head.symbolName?)

/-- The first argument with a name. -/
def argNamed (call : Value) (name : String) : Run Value := do
  let (_, slots) ← callOf call
  match Tagged.get? slots name with
  | some e => pure (.code e)
  | none => Run.failHost .key

def argNames (call : Value) : Run Value := do
  let (_, slots) ← callOf call
  pure (.tuple (slots.map fun slot => Machine.textOrAbsent slot.tag))

def argValues (call : Value) : Run Value := do
  let (_, slots) ← callOf call
  pure (.tuple (slots.map fun slot => .code slot.item))

def formalNames (v : Value) : Run Value := do
  pure (.tuple ((← formalsRef v).map fun item => .str item.1))

def formal (v : Value) (name : String) : Run Value := do
  match Bindings.get? (← formalsRef v) name with
  | some default => pure (.code default)
  | none => Run.failHost .key

def formalGet (v : Value) (name : String) : Run Value := do
  match Bindings.get? (← formalsRef v) name with
  | some default => pure (.code default)
  | none => pure .absent

def hasFormal (v : Value) (name : String) : Run Value := do
  pure (.bool (Bindings.contains (← formalsRef v) name))

def isCall (v : Value) (name : Option String) : Value :=
  match v, name with
  | .code (.call _ _), none => .bool true
  | .code (.call head _), some name => .bool (head.isSymbol name)
  | _, _ => .bool false

/-! ## Going through code -/

def allNames (v : Value) (unique : Bool) : Value :=
  let names := v.toExpr.symbolNames
  Library.texts (if unique then Store.distinct names else names)

/-- The expression with symbols replaced by others. -/
def rename (v : Value) (names : Bindings Value) : Value :=
  .code (v.toExpr.mapLeaves fun leaf =>
    match leaf with
    | .symbol name =>
        match names.get? name with
        | some (.str other) => .symbol other
        | some v => v.toExpr
        | none => leaf
    | leaf => leaf)

/-- What a walk notes of a node: the text of a leaf, the kind and the number of parts of others. -/
def visitText : Expr × Option Nat → String
  | (.call _ _, some n) => s!"Call:{n}"
  | (_, some n) => s!"Pairlist:{n}"
  | (e, none) => e.deparse

def walk (v : Value) : Value :=
  let (depth, seen) := v.toExpr.visits
  .sequence [.int depth, Library.texts (seen.map visitText)]

def rebuild (node parts : Value) : Run Value := do
  let parts ← Library.iterate parts
  match node with
  | .code (.call head slots) =>
      match (Expr.call head slots).rebuild (parts.map Value.toExpr) with
      | some e => pure (.code e)
      | none => Run.failHost (.value "")
  | .code (.formals items) =>
      match (Expr.formals items).rebuild (parts.map Value.toExpr) with
      | some e => pure (.code e)
      | none => Run.failHost (.value "")
  | _ => Run.failHost .type

/-! ## Templates -/

/-- Edit an expression at a path; a value that is no expression has no positions. -/
def editCode (v : Value) (path : List Int) (edit : Expr → Except Cause Expr) : Run Value := do
  match v, path with
  | .code e, _ => do pure (.code (← Run.orFail id (edit e)))
  | v, i :: _ => do
      match edit (.symbol (← Run.plainText v)) with
      | .error (.template (.noSuchPosition _ _)) =>
          Run.fail (.template (.noSuchPosition i (← Run.plainText v)))
      | .error cause => Run.fail cause
      | .ok e => pure (.code e)
  | v, [] => do pure (.code (← Run.orFail id (edit v.toExpr)))

def unquote (template v : Value) (path : List Int) : Run Value :=
  editCode template path fun e => Template.unquote e path v

def unquoteSplice (template v : Value) (path : List Int) : Run Value :=
  editCode template path fun e => Template.unquoteSplice e path v

/-- The expression without accesses by bare name; a value that is no expression stays. -/
def rewriteMemberAccess : Value → Value
  | .code e => .code e.rewriteMembers
  | v => v

def containsInjection (v : Value) : Value := .bool v.toExpr.containsInjection

/-! ## Lists -/

/-- Whether a list has names, what it has under a name, and its names. -/
def listInfo (v : Value) (name : String) : Run (Bool × Option Value × Value) := do
  match v with
  | .list items =>
      pure (Tagged.anyTag items, Tagged.get? items name,
        .sequence (items.map fun t => Machine.textOrAbsent t.tag))
  | _ => Run.failHost .attribute

def listAppend (v item : Value) (name : Option String) : Run Value := do
  match v with
  | .list items => pure (.list (items ++ [⟨name, item⟩]))
  | _ => Run.failHost .attribute

/-- The truth, the length and the items of `NULL`, its equality with itself and its text. -/
def nullBehaviour : Value :=
  .sequence [.bool false, .int 0, .sequence [], .bool true, .str "NULL"]

end Session

end Quasi
