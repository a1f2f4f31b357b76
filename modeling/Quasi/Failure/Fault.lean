import Quasi.Text.Quoted
import Quasi.Text.StringLiteral

/-!
# Faults

What can go wrong, by the part of the runtime that notices it, and the wording of each. A fault
carries the names, counts and texts that its message shows.
-/

namespace Quasi

/-- Faults of the reader. Offsets count characters from the start of the source. -/
inductive SyntaxFault where
  | openComment (offset : Nat)
  | character (c : Char) (offset : Nat)
  | endOfInput
  | literal (offset : Nat) (fault : Text.StringLiteral.Fault)
  | nothingToQuote (mark : String) (offset : Nat)
  | strayName (token : String) (offset : Nat)
  | strayClose (offset : Nat)
  | namedHead (offset : Nat)
  | unmatchedOpen (offset : Nat)
  | nameWithoutValue (token : String) (offset : Nat)
  | noFormals (offset : Option Nat)
  | badDefault (offset : Nat)
  | badFormal (token : String) (offset : Nat)
  | repeatedFormal (name : String)
  | noExpression
  | trailing (token : String) (offset : Nat)
  | badFormals (shown : String)
deriving DecidableEq, Repr

/-- An offset as text; the end of the input has the offset -1. -/
def SyntaxFault.offsetText : Option Nat → String
  | some offset => toString offset
  | none => "-1"

def SyntaxFault.message : SyntaxFault → String
  | .openComment offset => s!"unterminated block comment starting at offset {offset}"
  | .character c offset =>
      s!"unexpected character {Text.Quoted.quote (String.singleton c)} at offset {offset}"
  | .endOfInput => "unexpected end of input"
  | .literal offset fault => s!"invalid string literal at offset {offset}: {fault.message}"
  | .nothingToQuote mark offset =>
      s!"nothing to quote after {Text.Quoted.quote mark} at offset {offset}"
  | .strayName token offset =>
      s!"argument name {token} outside of an argument list at offset {offset}"
  | .strayClose offset => s!"unexpected ')' at offset {offset}"
  | .namedHead offset => s!"a call head cannot be named, at offset {offset}"
  | .unmatchedOpen offset => s!"unmatched '(' at offset {offset}"
  | .nameWithoutValue token offset => s!"argument name {token} has no value, at offset {offset}"
  | .noFormals offset =>
      s!"function needs a parameter list, at offset {SyntaxFault.offsetText offset}"
  | .badDefault offset =>
      s!"a formal with a default reads (name default), at offset {offset}"
  | .badFormal token offset =>
      s!"invalid formal argument {Text.Quoted.quote token} at offset {offset}"
  | .repeatedFormal name => s!"repeated formal argument '{name}'"
  | .noExpression => "no expression to read"
  | .trailing token offset =>
      s!"unexpected {Text.Quoted.quote token} after the expression, at offset {offset}"
  | .badFormals shown => s!"invalid formal argument list for function: {shown}"

/-- Faults of looking a name up or of changing a binding that is not there. -/
inductive LookupFault where
  | unbound (name : String)
  | unboundHere (name : String)
  | unboundSet (name : String)
  | noFunction (name : String)
  | parentOfRoot
deriving DecidableEq, Repr

def LookupFault.message : LookupFault → String
  | .unbound name => s!"object '{name}' not found"
  | .unboundHere name => s!"object '{name}' not found in this environment"
  | .unboundSet name => s!"cannot set unbound object '{name}'"
  | .noFunction name => s!"could not find function \"{name}\""
  | .parentOfRoot => "the empty environment has no parent"

/-- Faults of calls: heads that cannot be invoked and slots that cannot be filled. -/
inductive CallFault where
  | notFunction
  | dropOnlyHead
  | dropLeavesNoHead
  | unspliceable (type : String)
  | spliceWithoutSlot
  | spliceIntoHead
deriving DecidableEq, Repr

def CallFault.message : CallFault → String
  | .notFunction => "attempt to apply non-function"
  | .dropOnlyHead => "cannot drop the head of a call without arguments"
  | .dropLeavesNoHead => "dropping the head would leave a call whose head cannot be invoked"
  | .unspliceable type =>
      s!"cannot splice a {type} into an argument list; expected a list of expressions"
  | .spliceWithoutSlot => "splicing needs an argument slot, not a whole expression"
  | .spliceIntoHead => "cannot splice into the head of a call"

/-- Faults of promises. -/
inductive PromiseFault where
  | unforced
  | circular
  | noEvaluator
  | spent (shown : String)
deriving DecidableEq, Repr

def PromiseFault.message : PromiseFault → String
  | .unforced => "promise has not been forced yet"
  | .circular =>
      "promise already under evaluation: recursive default argument reference or earlier problems?"
  | .noEvaluator => "promise has no evaluator to force it with"
  | .spent shown =>
      s!"cannot capture the expression of argument `{shown}`: it has already been forced"

/-- Faults of matching arguments to what a function expects. -/
inductive ArityFault where
  | formalTwice (name : String)
  | ambiguousPrefix (position : Nat)
  | unused (shown : String)
  | nameTwice (name : String)
  | count (function : String) (least most got : Nat)
  | exactlyOne (form : String) (got : Nat)
  | onlyDots (form : String)
  | oneBody
  | targetAndValue
  | oneInParens
  | arms
  | twoOperands (form : String)
  | oneReturn
  | noFormals
  | oneName
  | nameAndExpression
  | targetAndName
  | noLocalExpression
  | listAndFunction
  | noHead
deriving DecidableEq, Repr

def ArityFault.message : ArityFault → String
  | .formalTwice name => s!"formal argument \"{name}\" matched by multiple actual arguments"
  | .ambiguousPrefix position => s!"argument {position} matches multiple formal arguments"
  | .unused shown => s!"unused argument ({shown})"
  | .nameTwice name => s!"argument \"{name}\" supplied more than once"
  | .count function least most got =>
      let expected := if least = most then toString least else s!"{least} to {most}"
      s!"{function} expects {expected} argument(s), got {got}"
  | .exactlyOne form got => s!"{form}() expects exactly 1 argument, got {got}"
  | .onlyDots form => s!"{form}() expects `...` as its only argument"
  | .oneBody => "tryCatch() takes a single expression to evaluate"
  | .targetAndValue => "assignment requires a target and a value"
  | .oneInParens => "( expects exactly 1 argument"
  | .arms => "if requires a condition, a consequent and an optional alternative"
  | .twoOperands form => s!"{form} expects 2 arguments"
  | .oneReturn => "multi-argument returns are not permitted"
  | .noFormals => "function requires at least a parameter list"
  | .oneName => "missing() expects the name of a single argument"
  | .nameAndExpression => "delayedAssign() needs a name and an expression"
  | .targetAndName => "$ expects a target and a name"
  | .noLocalExpression => "local() needs an expression"
  | .listAndFunction => "lapply needs a list and a function"
  | .noHead => "call2 needs a head"

/-- Faults of templates and of editing calls by position. -/
inductive TemplateFault where
  | spliceOutside
  | namedSplice (name : String)
  | nameSlot (head : String)
  | noSuchPosition (position : Int) (shown : String)
  | outOfRange (position : Int) (length : Nat)
  | badName
  | badEmbrace
  | outsideTemplate (form : String)
deriving DecidableEq, Repr

def TemplateFault.message : TemplateFault → String
  | .spliceOutside => "`!!!` can only be used inside an argument list"
  | .namedSplice name => s!"cannot name the spliced argument `{name}`"
  | .nameSlot head =>
      s!"cannot inject into the name slot of `{head}`; rewrite it as a `[[` call first"
  | .noSuchPosition position shown =>
      s!"position {position} does not exist: {shown} is not a call"
  | .outOfRange position length =>
      s!"call position {position} out of range for a call of length {length}"
  | .badName => "the left-hand side of `:=` must be a name or a string"
  | .badEmbrace => "`\x7b\x7b` must wrap the name of a function argument"
  | .outsideTemplate form => s!"`{form}` can only be used within a quasiquoted argument"

/-- Faults of creating bindings. -/
inductive BindingFault where
  | emptyEnvironment
  | badName (shown : String)
  | badTarget (shown : String)
  | noGlobal (name : String)
deriving DecidableEq, Repr

def BindingFault.message : BindingFault → String
  | .emptyEnvironment => "cannot assign values in the empty environment"
  | .badName shown => s!"invalid binding name {shown}"
  | .badTarget shown => s!"invalid assignment target: {shown}"
  | .noGlobal name =>
      s!"cannot assign '{name}': no enclosing binding and no global environment"

/-- Values of the wrong kind. -/
inductive TypeFault where
  | quosureInQuosure
  | quosureEnvironment (type : String)
  | quosureExpected
  | tableExpected
  | tableLengths (shown : String)
  | noScope (type : String)
  | constantExpression (shown : String)
  | promiseExpected (type : String)
  | argumentName (shown : String)
  | substituteSource
  | conditionLength (form : String) (length : Nat)
  | conditionMissing (form : String)
  | conditionEmpty (form : String)
  | conditionKind (form : String)
  | localEnvironment
  | notArgument (name : String)
  | delayedName
  | delayedEnvironment
  | atomicMember
  | memberName (shown : String)
  | textExpected (shown : String)
  | operand (op : String)
  | negation
  | subscript (shown : String)
  | outOfBounds (position : Int)
  | environmentExpected (argument shown : String)
  | quosureArgument (function shown : String)
deriving DecidableEq, Repr

def TypeFault.message : TypeFault → String
  | .quosureInQuosure => "a quosure cannot wrap another quosure directly"
  | .quosureEnvironment type => s!"quosure environment must be an Environment, got {type}"
  | .quosureExpected => "expected a quosure"
  | .tableExpected => "a table scope needs a structured array or a mapping of columns"
  | .tableLengths shown => s!"table columns must have equal lengths, got {shown}"
  | .noScope type => s!"cannot use a {type} as a data mask scope"
  | .constantExpression shown =>
      s!"cannot wrap expression {shown} as a constant; quote it instead"
  | .promiseExpected type => s!"expected a promise, got {type}"
  | .argumentName shown => s!"`{shown}` must be the name of an argument"
  | .substituteSource => "substitute() needs an environment or a named list"
  | .conditionLength form length =>
      s!"the condition of {form} has length {length}, expected 1"
  | .conditionMissing form => s!"missing value where TRUE/FALSE needed in {form}"
  | .conditionEmpty form => s!"argument is of length zero in {form}"
  | .conditionKind form => s!"argument is not interpretable as logical in {form}"
  | .localEnvironment => "local() needs an environment for `envir`"
  | .notArgument name => s!"'missing' can only be used for arguments, `{name}` is not one"
  | .delayedName => "delayedAssign() needs a character string for the name"
  | .delayedEnvironment => "delayedAssign() environments must be environments"
  | .atomicMember => "$ operator is invalid for atomic vectors"
  | .memberName shown => s!"invalid subscript type for `$`: {shown}"
  | .textExpected shown => s!"expected a character string, got {shown}"
  | .operand op => s!"non-numeric argument to binary operator `{op}`"
  | .negation => "invalid argument to unary operator `-`"
  | .subscript shown => s!"invalid subscript type for `[[`: {shown}"
  | .outOfBounds position => s!"subscript {position} out of bounds"
  | .environmentExpected argument shown =>
      s!"`{argument}` must be an environment, got {shown}"
  | .quosureArgument function shown => s!"{function}() expects a quosure, got {shown}"

/-- Faults of evaluation that belong to no other group. -/
inductive GeneralFault where
  | dotsContext
  | dotsCount (n : Nat)
  | noFunctionToReturn
  | rowsNeedTable
deriving DecidableEq, Repr

def GeneralFault.message : GeneralFault → String
  | .dotsContext => "'...' used in an incorrect context"
  | .dotsCount n => s!"the ... list does not contain {n} elements"
  | .noFunctionToReturn => "no function to return from, jumping to top level"
  | .rowsNeedTable => "eval_rows needs a table of columns"

/-- Faults of the host: operations that its values do not support, and failing host functions. -/
inductive HostFault where
  | type
  | value (message : String)
  | key
  | index
  | overflow
  | attribute
  | state
  | assertion
deriving DecidableEq, Repr

def HostFault.message : HostFault → String
  | .value message => message
  | .state => "frame stack out of order"
  | _ => ""

end Quasi
