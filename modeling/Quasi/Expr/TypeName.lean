import Quasi.Expr.Basic

/-!
# Type names

The names by which messages and printed trees call the type of a value. A value that has no
written form is printed as its type name between angle brackets.
-/

namespace Quasi

def Expr.typeName : Expr → String
  | .const _ => "Constant"
  | .symbol _ => "Symbol"
  | .call _ _ => "Call"
  | .formals _ => "Pairlist"
  | .missing => "MissingArg"

def EnvId.typeName : EnvId → String
  | .empty => "EmptyEnvironment"
  | .scope _ => "Environment"
  | .bottom _ => "MaskEnvironment"

def Value.typeName : Value → String
  | .null => "NullType"
  | .absent => "NoneType"
  | .bool _ => "bool"
  | .int _ => "int"
  | .num _ => "float"
  | .nan _ => "float"
  | .str _ => "str"
  | .code e => e.typeName
  | .slot _ => "Arg"
  | .list _ => "NamedList"
  | .sequence _ => "list"
  | .tuple _ => "tuple"
  | .mapping _ => "dict"
  | .vec _ => "ndarray"
  | .table _ => "TableScope"
  | .env e => e.typeName
  | .quosure _ _ => "Quosure"
  | .closure _ => "Closure"
  | .builtin _ _ => "Builtin"
  | .host _ => "method"
  | .dots _ => "DotsList"
  | .promise _ => "Promise"
  | .mask _ => "DataMask"
  | .pronoun .data _ => "DataPronoun"
  | .pronoun .env _ => "EnvPronoun"
  | .failure f => f.cause.typeName

end Quasi
