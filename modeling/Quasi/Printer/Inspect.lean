import Quasi.Printer.Layout
import Quasi.Store.Environment
import Quasi.Vector.Print

/-!
# Showing values

`inspect` is the detailed form of a value, which tells types apart; `plainText` is its plain form; and
`format` is what printing a value shows, where lists and calls read as code. Environments show
their chain of bindings. A value may lead back to itself through an environment, so these forms
give up where values are nested too deeply.
-/

namespace Quasi

/-- Items between brackets. -/
def bracketed (left right : String) (items : List String) : String :=
  left ++ ", ".intercalate items ++ right

/-- The form of a fixed number of items; a single one is followed by a comma. -/
def tupleText : List String → String
  | [item] => "(" ++ item ++ ",)"
  | items => bracketed "(" ")" items

def tagText : Option String → String
  | some tag => Text.Quoted.quote tag
  | none => "None"

/-- A text of at most `most` characters; dots stand for what is left out. -/
def abbreviate (most : Nat) (text : String) : String :=
  if text.length ≤ most then text else String.ofList (text.toList.take (most - 3)) ++ "..."

/-- The plain form of an expression: a symbol's bare name, and code for all else. -/
def Expr.plain : Expr → String
  | .symbol name => name
  | e => e.deparse

def Closure.text (closure : Closure) : String :=
  "(function " ++ (Expr.formals closure.formals).deparse ++ " " ++ closure.body.deparse ++ ")"

namespace Store

def showQuosure (s : Store) (expr : Expr) (env : EnvId) : String :=
  "<quosure: " ++ expr.deparse ++ " @ " ++ s.showEnv env ++ ">"

/-- The text of a failure: its message, after the call that failed. -/
def showFailure (s : Store) (f : FailureRef) : String :=
  match f.cause.isHost, (s.incident f).call with
  | false, some call => "Error in " ++ call.deparse ++ ": " ++ f.cause.message
  | _, _ => f.cause.message

def showPromise (p : Promise) : String :=
  let state := match p.progress with
    | .value _ => "forced"
    | .failed _ => "forced"
    | .given _ => "forced"
    | _ => "unforced"
  "<promise " ++ state ++ ": " ++ p.code.plain ++ ">"

/-- The detailed form of a value, unless it is nested deeper than `fuel`. -/
def inspect (s : Store) : Nat → Value → Option String
  | 0, _ => none
  | fuel + 1, v =>
      match v with
      | .null => some "NULL"
      | .absent => some "None"
      | .bool b => some (if b then "True" else "False")
      | .int i => some (toString i)
      | .num x => some x.text
      | .nan _ => some "nan"
      | .str t => some (Text.Quoted.quote t)
      | .code (.symbol name) => some ("Symbol(" ++ Text.Quoted.quote name ++ ")")
      | .code (.const value) => do
          some ("Constant(" ++ (← s.inspect fuel value) ++ ")")
      | .code (.call head slots) => do
          let args ← slots.mapM fun slot => s.inspect fuel (.slot slot)
          some ("Call(head=" ++ (← s.inspect fuel (.code head)) ++ ", args=" ++ tupleText args ++ ")")
      | .code (.formals items) => do
          let pairs ← items.mapM fun (name, default) => do
            some (tupleText [Text.Quoted.quote name, ← s.inspect fuel (.code default)])
          some ("Pairlist(items=" ++ tupleText pairs ++ ")")
      | .code .missing => some "<missing>"
      | .slot ⟨tag, e⟩ => do
          some ("Arg(name=" ++ tagText tag ++ ", value=" ++ (← s.inspect fuel (.code e)) ++ ")")
      | .list items => do
          if Tagged.anyTag items then
            let pairs ← items.mapM fun t => do
              some (tupleText [tagText t.tag, ← s.inspect fuel t.item])
            some (bracketed "NamedList([" "])" pairs)
          else
            some (bracketed "NamedList([" "])" (← items.mapM fun t => s.inspect fuel t.item))
      | .sequence items => do some (bracketed "[" "]" (← items.mapM (s.inspect fuel)))
      | .tuple items => do some (tupleText (← items.mapM (s.inspect fuel)))
      | .mapping entries => do
          let pairs ← entries.mapM fun (key, value) => do
            some (Text.Quoted.quote key ++ ": " ++ (← s.inspect fuel value))
          some (bracketed "\x7b" "\x7d" pairs)
      | .vec ⟨_, .objects xs⟩ => do
          let words ← xs.mapM fun x => do
            let word ← s.inspect fuel x
            some (match x with
              | .sequence _ => "list(" ++ word ++ ")"
              | _ => word)
          some (VectorPrint.inspectWords ", dtype=object" words)
      | .vec v => some (VectorPrint.inspectVector v.elements)
      | .table t => some ("<table of " ++ toString t.columns.length ++ " columns>")
      | .env e => do
          let shown ← (s.chain e).1.mapM fun env =>
            match env with
            | .empty => some "<empty>"
            | env => do
                let pairs ← (s.vars env).mapM fun (name, value) => do
                  let text ← match value with
                    | .env other =>
                        some (if other = env then "<self>" else s.showEnv other)
                    | value => (s.inspect fuel value).map (abbreviate 40)
                  some (name ++ ": " ++ text)
                some (bracketed "\x7b" "\x7d" pairs)
          some ("<Environment chain: " ++ " -> ".intercalate shown ++ ">")
      | .quosure expr env => some (s.showQuosure expr env)
      | .closure c =>
          some ("<closure " ++ (((s.closure c).name.filter (· ≠ "")).getD "anonymous") ++ ">")
      | .builtin b _ => some ((if b.isSpecial then "<special " else "<builtin ") ++ b.name ++ ">")
      | .host f => some ("<host function " ++ f.name ++ ">")
      | .dots entries => some ("<... of " ++ toString entries.length ++ ">")
      | .promise p => some (showPromise (s.promise p))
      | .mask m => some ("<data mask: " ++ ", ".intercalate (s.dataNames m) ++ ">")
      | .pronoun p _ => some ("<pronoun " ++ p.name ++ ">")
      | .failure f =>
          some (f.cause.typeName ++ "(" ++ Text.Quoted.quote f.cause.message ++ ")")

/-- The elements of a vector between brackets. -/
def displayVector (s : Store) (fuel : Nat) : Elements Value → Option String
  | .objects xs => do some (VectorPrint.displayWords (← xs.mapM fun x => do
      let word ← s.inspect fuel x
      some (match x with
        | .sequence _ => "list(" ++ word ++ ")"
        | _ => word)))
  | elements => some (VectorPrint.display elements)

/-- The plain form of a value. -/
def plainText (s : Store) (fuel : Nat) (v : Value) : Option String :=
  match v with
  | .str t => some t
  | .code e => some e.plain
  | .closure c => some (s.closure c).text
  | .env e => some (s.showEnv e)
  | .vec v => s.displayVector fuel v.elements
  | .failure f => some (s.showFailure f)
  | v => s.inspect fuel v

/-- What printing a value shows. -/
def format (s : Store) : Nat → Value → Option String
  | 0, _ => none
  | fuel + 1, v =>
      match v with
      | .code (.const value) => some value.deparseAtom
      | .code e => some (e.layOut {} 0 0)
      | .list items => do
          let parts ← items.mapM fun t => do
            let text ← s.format fuel t.item
            some (match t.tag with
              | some tag => " :" ++ Name.deparse tag ++ " " ++ text
              | none => " " ++ text)
          some ("(list" ++ String.join parts ++ ")")
      | .vec v => s.displayVector fuel v.elements
      | .failure f => some ("<" ++ f.cause.typeName ++ ": " ++ s.showFailure f ++ ">")
      | .null => some v.deparseAtom
      | .absent => some v.deparseAtom
      | .bool _ => some v.deparseAtom
      | .int _ => some v.deparseAtom
      | .num _ => some v.deparseAtom
      | .nan _ => some v.deparseAtom
      | .str _ => some v.deparseAtom
      | v => s.plainText fuel v

/-- A short label of one line: of a symbol its bare name, and of a quosure the label of its
expression. -/
def labelText (text : String) : String := abbreviate 60 (Text.collapse text)

end Store

def Expr.label : Expr → String
  | .symbol name => name
  | .const (.quosure e _) => e.label
  | e => Store.labelText e.deparse

namespace Run

/-- How deep values are shown. -/
def showDepth : Nat := 1000

def orOverflow {α : Type} : Option α → Run α
  | some a => pure a
  | none => raise .overflow

def inspect (v : Value) : Run String := do orOverflow ((← get).inspect showDepth v)

def plainText (v : Value) : Run String := do orOverflow ((← get).plainText showDepth v)

def format (v : Value) : Run String := do orOverflow ((← get).format showDepth v)

/-- A short label of a value. -/
def label (v : Value) : Run String := do
  match v with
  | .code e => pure e.label
  | .quosure e _ => pure e.label
  | v => do pure (Store.labelText (← format v))

/-- The text of what interrupts a run. -/
def signalText (signal : Signal) : Run String := do
  match signal with
  | .failure f => pure ((← get).showFailure f)
  | .returning _ _ => pure "return"
  | .overflow => pure "maximum recursion depth exceeded"

end Run

end Quasi
