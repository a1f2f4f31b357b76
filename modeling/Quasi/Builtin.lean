/-!
# Built-in functions

The names under which a base environment offers the functions of the runtime. A special form gets
its argument slots as they were written; a primitive gets their values. Beside them a session may
put host functions into its global environment.
-/

namespace Quasi

inductive SpecialForm where
  | quote | template | quosure | templates | quosures
  | captured | capturedQuosure | capturedDots | capturedQuosures | substitute
  | unquote | splice | embrace | nameAssign
  | function | assign | equalsAssign | superAssign
  | block | paren | ifElse | andAlso | orElse | returnFrom
  | onExit | tryCatch | missing | delayedAssign | localScope | member | slotMember
deriving DecidableEq, Repr

namespace SpecialForm

def name : SpecialForm → String
  | .quote => "quote"
  | .template => "expr"
  | .quosure => "quo"
  | .templates => "exprs"
  | .quosures => "quos"
  | .captured => "enexpr"
  | .capturedQuosure => "enquo"
  | .capturedDots => "enexprs"
  | .capturedQuosures => "enquos"
  | .substitute => "substitute"
  | .unquote => "!!"
  | .splice => "!!!"
  | .embrace => "\x7b\x7b"
  | .nameAssign => ":="
  | .function => "function"
  | .assign => "<-"
  | .equalsAssign => "="
  | .superAssign => "<<-"
  | .block => "\x7b"
  | .paren => "("
  | .ifElse => "if"
  | .andAlso => "&&"
  | .orElse => "||"
  | .returnFrom => "return"
  | .onExit => "on.exit"
  | .tryCatch => "tryCatch"
  | .missing => "missing"
  | .delayedAssign => "delayedAssign"
  | .localScope => "local"
  | .member => "$"
  | .slotMember => "@"

def all : List SpecialForm :=
  [.quote, .template, .quosure, .templates, .quosures, .captured, .capturedQuosure,
   .capturedDots, .capturedQuosures, .substitute, .unquote, .splice, .embrace, .nameAssign,
   .function, .assign, .equalsAssign, .superAssign, .block, .paren, .ifElse, .andAlso, .orElse,
   .returnFrom, .onExit, .tryCatch, .missing, .delayedAssign, .localScope, .member, .slotMember]

theorem mem_all (form : SpecialForm) : form ∈ all := by cases form <;> decide

end SpecialForm

/-- The binary operators on numbers, texts, lists and vectors. -/
inductive Operator where
  | add | sub | mul | div | pow | mod | eq | ne | lt | le | gt | ge
deriving DecidableEq, Repr

namespace Operator

def name : Operator → String
  | .add => "+"
  | .sub => "-"
  | .mul => "*"
  | .div => "/"
  | .pow => "^"
  | .mod => "%%"
  | .eq => "=="
  | .ne => "!="
  | .lt => "<"
  | .le => "<="
  | .gt => ">"
  | .ge => ">="

def all : List Operator := [.add, .sub, .mul, .div, .pow, .mod, .eq, .ne, .lt, .le, .gt, .ge]

end Operator

inductive Primitive where
  | binary (op : Operator)
  | not | identical
  | combine | list | length | names | element
  | isNull | isFunction | isEnvironment
  | sum | mean | sqrt | lapply | doCall
  | paste | paste0 | print | cat | identity | invisible | deparse | exprText
  | stop | warning | message | conditionMessage | conditionCall
  | newEnv | environment | parentFrame | parentEnv | emptyEnv | globalEnv | sysCall | sysFunction
  | assign | get | exists | rm | force | eval
  | evalTidy | newDataMask | asDataMask
  | quoGetExpr | quoGetEnv | newQuosure | quoSquash | asLabel
  | isQuosure | quoIsMissing | quoIsSymbol | quoIsCall | isSymbol | isCall
  | sym | syms | call2
deriving DecidableEq, Repr

namespace Primitive

def name : Primitive → String
  | .binary op => op.name
  | .not => "!"
  | .identical => "identical"
  | .combine => "c"
  | .list => "list"
  | .length => "length"
  | .names => "names"
  | .element => "[["
  | .isNull => "is.null"
  | .isFunction => "is.function"
  | .isEnvironment => "is.environment"
  | .sum => "sum"
  | .mean => "mean"
  | .sqrt => "sqrt"
  | .lapply => "lapply"
  | .doCall => "do.call"
  | .paste => "paste"
  | .paste0 => "paste0"
  | .print => "print"
  | .cat => "cat"
  | .identity => "identity"
  | .invisible => "invisible"
  | .deparse => "deparse"
  | .exprText => "expr_text"
  | .stop => "stop"
  | .warning => "warning"
  | .message => "message"
  | .conditionMessage => "conditionMessage"
  | .conditionCall => "conditionCall"
  | .newEnv => "new.env"
  | .environment => "environment"
  | .parentFrame => "parent.frame"
  | .parentEnv => "parent.env"
  | .emptyEnv => "emptyenv"
  | .globalEnv => "globalenv"
  | .sysCall => "sys.call"
  | .sysFunction => "sys.function"
  | .assign => "assign"
  | .get => "get"
  | .exists => "exists"
  | .rm => "rm"
  | .force => "force"
  | .eval => "eval"
  | .evalTidy => "eval_tidy"
  | .newDataMask => "new_data_mask"
  | .asDataMask => "as_data_mask"
  | .quoGetExpr => "quo_get_expr"
  | .quoGetEnv => "quo_get_env"
  | .newQuosure => "new_quosure"
  | .quoSquash => "quo_squash"
  | .asLabel => "as_label"
  | .isQuosure => "is_quosure"
  | .quoIsMissing => "quo_is_missing"
  | .quoIsSymbol => "quo_is_symbol"
  | .quoIsCall => "quo_is_call"
  | .isSymbol => "is.symbol"
  | .isCall => "is.call"
  | .sym => "sym"
  | .syms => "syms"
  | .call2 => "call2"

def all : List Primitive :=
  Operator.all.map .binary ++
  [.not, .identical, .combine, .list, .length, .names, .element, .isNull, .isFunction,
   .isEnvironment, .sum, .mean, .sqrt, .lapply, .doCall, .paste, .paste0, .print, .cat,
   .identity, .invisible, .deparse, .exprText, .stop, .warning, .message, .conditionMessage,
   .conditionCall, .newEnv, .environment, .parentFrame, .parentEnv, .emptyEnv, .globalEnv,
   .sysCall, .sysFunction, .assign, .get, .exists, .rm, .force, .eval, .evalTidy, .newDataMask,
   .asDataMask, .quoGetExpr, .quoGetEnv, .newQuosure, .quoSquash, .asLabel, .isQuosure,
   .quoIsMissing, .quoIsSymbol, .quoIsCall, .isSymbol, .isCall, .sym, .syms, .call2]

end Primitive

inductive Builtin where
  | special (form : SpecialForm)
  | primitive (fn : Primitive)
deriving DecidableEq, Repr

namespace Builtin

def name : Builtin → String
  | .special form => form.name
  | .primitive fn => fn.name

def isSpecial : Builtin → Bool
  | .special _ => true
  | .primitive _ => false

/-- All built-in functions, special forms first. -/
def all : List Builtin := SpecialForm.all.map .special ++ Primitive.all.map .primitive

end Builtin

/-- Functions of the host that a session may offer to evaluated code: `record` notes its argument,
`tick` counts, `collect` lists its arguments, `newenv` makes an environment and `nested` evaluates
in a request of its own; `fail`, `overflow` and `flaky` fail in the ways a host can. -/
inductive HostFunction where
  | record | tick | fail | overflow | flaky | collect | newenv | nested
deriving DecidableEq, Repr

namespace HostFunction

def name : HostFunction → String
  | .record => "record"
  | .tick => "tick"
  | .fail => "fail"
  | .overflow => "overflow"
  | .flaky => "flaky"
  | .collect => "collect"
  | .newenv => "newenv"
  | .nested => "nested"

def all : List HostFunction :=
  [.record, .tick, .fail, .overflow, .flaky, .collect, .newenv, .nested]

def ofName? (name : String) : Option HostFunction := all.find? (·.name = name)

end HostFunction

end Quasi
