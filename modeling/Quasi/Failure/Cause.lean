import Quasi.Failure.Fault

/-!
# Causes of failures

A failure has one cause. The cause decides the class names by which `tryCatch` handlers select
failures, most specific first, the name under which the host knows the failure, and its message.
-/

namespace Quasi

inductive Cause where
  | general (fault : GeneralFault)
  | lookup (fault : LookupFault)
  | callable (fault : CallFault)
  | force (fault : PromiseFault)
  | ambiguousName (column : String)
  | missingArgument (name : Option String)
  | arity (fault : ArityFault)
  | template (fault : TemplateFault)
  | syntaxError (fault : SyntaxFault)
  | binding (fault : BindingFault)
  | type (fault : TypeFault)
  | recursion
  | user (message : String) (classes : List String)
  | host (fault : HostFault)
deriving DecidableEq, Repr

namespace Cause

def message : Cause → String
  | .general fault => fault.message
  | .lookup fault => fault.message
  | .callable fault => fault.message
  | .force fault => fault.message
  | .ambiguousName column => s!"column `{column}` not found in `.data`"
  | .missingArgument (some name) => s!"argument \"{name}\" is missing, with no default"
  | .missingArgument none => "argument is missing, with no default"
  | .arity fault => fault.message
  | .template fault => fault.message
  | .syntaxError fault => fault.message
  | .binding fault => fault.message
  | .type fault => fault.message
  | .recursion => "evaluation nested too deeply: infinite recursion?"
  | .user message _ => message
  | .host fault => fault.message

/-- The name of the host's type for a failure. -/
def typeName : Cause → String
  | .general _ => "RhoError"
  | .lookup _ => "RhoLookupError"
  | .callable _ => "RhoCallableError"
  | .force _ => "RhoForceFailure"
  | .ambiguousName _ => "RhoAmbiguousName"
  | .missingArgument _ => "RhoMissingArgument"
  | .arity _ => "RhoArityError"
  | .template _ => "RhoUnquoteError"
  | .syntaxError _ => "RhoSyntaxError"
  | .binding _ => "RhoBindingError"
  | .type _ => "RhoTypeError"
  | .recursion => "RhoRecursionError"
  | .user _ _ => "RhoUserError"
  | .host .type => "TypeError"
  | .host (.value _) => "ValueError"
  | .host .key => "KeyError"
  | .host .index => "IndexError"
  | .host .overflow => "OverflowError"
  | .host .attribute => "AttributeError"
  | .host .state => "RuntimeError"
  | .host .assertion => "AssertionError"

def isHost : Cause → Bool
  | .host _ => true
  | _ => false

/-- The class names that come before the two of every failure. -/
def specificClasses : Cause → List String
  | .general _ => []
  | .lookup _ => ["lookupError"]
  | .callable _ => ["callableError"]
  | .force _ => ["forceFailure"]
  | .ambiguousName _ => ["ambiguousNameError"]
  | .missingArgument _ => ["missingArgumentError"]
  | .arity _ => ["arityError"]
  | .template _ => ["unquoteError"]
  | .syntaxError _ => ["syntaxError"]
  | .binding _ => ["bindingError"]
  | .type _ => ["typeError"]
  | .recursion => ["recursionError"]
  | .user _ classes => classes ++ ["simpleError"]
  | cause@(.host _) => [cause.typeName]

def classes (cause : Cause) : List String := cause.specificClasses ++ ["error", "condition"]

theorem error_mem_classes (cause : Cause) : "error" ∈ cause.classes := by simp [classes]

end Cause

end Quasi
