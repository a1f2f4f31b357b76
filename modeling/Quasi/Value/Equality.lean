import Quasi.Expr.TypeName
import Quasi.Vector.Basic

/-!
# Equality

Two expressions are the same if they are built alike; two constants are the same if their values
have one type and are equal, so that `1`, `1.0` and `TRUE` are three constants. Items of lists are
compared by `Value.same`: one object is the same as itself, even a NaN or a vector. A vector of
more or less than one element has no truth value, so comparing lists that hold vectors can fail.
-/

namespace Quasi

/-- A number: an integer of any size, or a binary64 number. -/
inductive Number where
  | int (i : Int)
  | float (x : Binary64)

namespace Number

/-- How two numbers compare, exactly; no answer if one is NaN. -/
def compare? : Number → Number → Option Ordering
  | .int i, .int j => some (compare i j)
  | .int i, .float y => (y.compareInt? i).map Ordering.swap
  | .float x, .int j => x.compareInt? j
  | .float x, .float y => x.compare? y

def isNaN : Number → Bool
  | .int _ => false
  | .float x => x.isNaN

def isZero : Number → Bool
  | .int i => i = 0
  | .float x => x.isZero

end Number

namespace Value

/-- The number that a value is; truth values count as zero and one. -/
def number? : Value → Option Number
  | .bool b => some (.int b.toNat)
  | .int i => some (.int i)
  | .num x => some (.float x)
  | .nan _ => some (.float Binary64.nan)
  | _ => none

/-- Equality of values one of which has no parts. -/
def atomEqual (a b : Value) : Bool :=
  match a.number?, b.number? with
  | some x, some y => x.compare? y = some .eq
  | _, _ =>
      match a, b with
      | .null, .null => true
      | .absent, .absent => true
      | .str s, .str t => s = t
      | .table s, .table t => s.id = t.id
      | .env e, .env f => e = f
      | .closure c, .closure d => c = d
      | .builtin x home, .builtin y home' => x = y && home = home'
      | .host f, .host g => f = g
      | .promise p, .promise q => p = q
      | .mask m, .mask n => m = n
      | .pronoun p m, .pronoun q n => p = q && m = n
      | .failure f, .failure g => f.index = g.index
      | _, _ => false

/-- Whether items without parts are equal, one by one. -/
def atomsEqual : List Value → List Value → Bool
  | [], [] => true
  | a :: as, b :: bs => atomEqual a b && atomsEqual as bs
  | _, _ => false

/-- The truth of a vector of truth values, which only a vector of length one has. -/
def onlyTruth : List Bool → Except HostFault Bool
  | [b] => .ok b
  | _ => .error (.value "")

/-- The pairs of items of two vectors, the only item of a vector of length one being paired with
every item of the other. -/
def broadcast {α β : Type} (xs : List α) (ys : List β) : Except HostFault (List (α × β)) :=
  if xs.length = ys.length then .ok (xs.zip ys)
  else
    match xs, ys with
    | [x], ys => .ok (ys.map (x, ·))
    | xs, [y] => .ok (xs.map (·, y))
    | _, _ => .error (.value "")

/-- Whether elements of two types are compared as they are, not as elements of one type: texts and
numbers, and integers with and without sign. -/
def comparedApart : ElementType → ElementType → Bool
  | .text _, .text _ => false
  | .text _, .object => false
  | .object, .text _ => false
  | .text _, _ => true
  | _, .text _ => true
  | .int, .word => true
  | .word, .int => true
  | _, _ => false

/-- Which elements of two vectors, or of a vector and a value, are equal. -/
def elementsEqual (a b : Elements Value) : Except HostFault (List Bool) := do
  let type := a.type.promote b.type
  let apart := comparedApart a.type b.type
  let pairs ← broadcast (if apart then a else a.cast type).items (if apart then b else b.cast type).items
  .ok (pairs.map fun (x, y) => atomEqual x y)

/-- The elements of a list beside a vector. Arbitrary values stay what they are. -/
def listElements (items : List Value) : Elements Value :=
  if (Elements.ofList items).type = .object then .objects items else Elements.ofList items

/-- The elements of a value beside a vector. -/
def operandElements : Value → Elements Value
  | .vec v => v.elements
  | .list items => listElements (items.map (·.item))
  | .sequence items => listElements items
  | .tuple items => listElements items
  | v => Elements.single v

/-- Whether a vector and another value are equal where one truth value is needed. -/
def vectorEqual (a b : Value) : Except HostFault Bool := do
  onlyTruth (← elementsEqual a.operandElements b.operandElements)

/-- Whether two constants are the same, from whether their values are equal. Where the values
cannot be compared, they are not. -/
def sameConstant (a b : Value) (equal : Except HostFault Bool) : Bool :=
  match a, b with
  | .vec v, .vec w =>
      (v.id = w.id && v.id ≠ 0) || (v.elements.type = w.elements.type &&
        atomsEqual v.elements.items w.elements.items)
  | a, b => a.typeName = b.typeName && equal.toOption.getD false

end Value

/-! ## Expressions and compound values -/

mutual

def Expr.same : Expr → Expr → Bool
  | .const a, .const b => Value.sameConstant a b (Value.same a b)
  | .symbol a, .symbol b => a = b
  | .call head slots, .call head' slots' => head.same head' && sameSlots slots slots'
  | .formals items, .formals items' => sameFormals items items'
  | .missing, .missing => true
  | _, _ => false
termination_by structural e => e

def sameSlots : List (Tagged Expr) → List (Tagged Expr) → Bool
  | [], [] => true
  | ⟨tag, e⟩ :: rest, t :: rest' => tag = t.tag && e.same t.item && sameSlots rest rest'
  | _, _ => false
termination_by structural slots => slots

def sameFormals : List (String × Expr) → List (String × Expr) → Bool
  | [], [] => true
  | (name, e) :: rest, (name', e') :: rest' => name = name' && e.same e' && sameFormals rest rest'
  | _, _ => false
termination_by structural items => items

/-- Whether two items are one object, or equal. -/
def Value.same (a b : Value) : Except HostFault Bool :=
  match a, b with
  | .nan x, .nan y => .ok (x.isSome && x = y)
  | .vec v, .vec w =>
      if v.id = w.id ∧ v.id ≠ 0 then .ok true else Value.vectorEqual (.vec v) (.vec w)
  | .vec v, b => Value.vectorEqual (.vec v) b
  | .code e, .code e' => .ok (e.same e')
  | .slot ⟨tag, e⟩, .slot t => .ok (tag = t.tag && e.same t.item)
  | .quosure e env, .quosure e' env' => .ok (env = env' && e.same e')
  | .list items, .list items' =>
      if items.length = items'.length then do
        let same ← sameTagged items (items'.map (·.item))
        .ok (same && items.map (·.tag) = items'.map (·.tag))
      else .ok false
  | .list items, .sequence items' =>
      if items.length = items'.length then sameTagged items items' else .ok false
  | .sequence items, .sequence items' =>
      if items.length = items'.length then sameItems items items' else .ok false
  | .sequence items, .list items' =>
      if items.length = items'.length then sameItems items (items'.map (·.item)) else .ok false
  | .tuple items, .tuple items' =>
      if items.length = items'.length then sameItems items items' else .ok false
  | .mapping entries, .mapping entries' =>
      if entries.length = entries'.length then sameEntries entries entries' else .ok false
  | .dots entries, .dots entries' =>
      if entries.length = entries'.length ∧ entries.map (·.tag) = entries'.map (·.tag) then
        sameTagged entries (entries'.map (·.item))
      else .ok false
  | a, .vec w => Value.vectorEqual a (.vec w)
  | a, b => .ok (Value.atomEqual a b)
termination_by structural a

def sameItems : List Value → List Value → Except HostFault Bool
  | a :: rest, b :: rest' => do
      if ← Value.same a b then sameItems rest rest' else .ok false
  | _, _ => .ok true
termination_by structural items => items

def sameTagged : List (Tagged Value) → List Value → Except HostFault Bool
  | ⟨_, a⟩ :: rest, b :: rest' => do
      if ← Value.same a b then sameTagged rest rest' else .ok false
  | _, _ => .ok true
termination_by structural items => items

def sameEntries : List (String × Value) → List (String × Value) → Except HostFault Bool
  | (name, a) :: rest, entries => do
      match Bindings.get? entries name with
      | some b => if ← Value.same a b then sameEntries rest entries else .ok false
      | none => .ok false
  | [], _ => .ok true
termination_by structural entries => entries

end

namespace Value

/-- Equality where one truth value is needed: no NaN is equal to anything. -/
def equal (a b : Value) : Except HostFault Bool :=
  match a, b with
  | .nan _, _ => .ok false
  | a, b => same a b

/-- Inequality. Two lists differ if their items do, whatever their names. -/
def differs (a b : Value) : Except HostFault Bool :=
  match a, b with
  | .list items, .list items' => (same (.sequence (items.map (·.item)))
      (.sequence (items'.map (·.item)))).map not
  | a, b => (equal a b).map not

/-! ## Identity of contents -/

/-- The lengths that all items of a list have in common, if they do. -/
def commonShape : List (Option (List Nat)) → Option (List Nat)
  | [] => some []
  | shape :: rest => if rest.all (· = shape) then shape else none

mutual

/-- The lengths of a value along its dimensions: of a vector or a list, and then of what the list
holds. There are none if what it holds differs in its lengths. -/
def shape? : Value → Option (List Nat)
  | .vec v => some [v.elements.length]
  | .list items => (commonShape (taggedShapes items)).map (items.length :: ·)
  | .sequence items => (commonShape (itemShapes items)).map (items.length :: ·)
  | .tuple items => (commonShape (itemShapes items)).map (items.length :: ·)
  | _ => some []
termination_by structural v => v

def itemShapes : List Value → List (Option (List Nat))
  | [] => []
  | x :: rest => shape? x :: itemShapes rest
termination_by structural items => items

def taggedShapes : List (Tagged Value) → List (Option (List Nat))
  | [] => []
  | ⟨_, x⟩ :: rest => shape? x :: taggedShapes rest
termination_by structural items => items

end

/-- How many dimensions there can be. -/
def maxDimensions : Nat := 64

/-- The shape of a value as an array. What has no shape, or too many dimensions, makes none. -/
def arrayShape (v : Value) : Except HostFault (List Nat) :=
  match v.shape? with
  | some shape => if shape.length ≤ maxDimensions then .ok shape else .error (.value "")
  | none => .error (.value "")

/-- Whether a vector has the elements of another value. -/
def vectorIdentical (a b : Value) : Except HostFault Bool := do
  let shape ← a.arrayShape
  let shape' ← b.arrayShape
  if shape = shape' then
    let equal ← elementsEqual a.operandElements b.operandElements
    .ok (equal.all id)
  else .ok false

/-- Whether a value is a vector. -/
def isVector : Value → Bool
  | .vec _ => true
  | _ => false

mutual

/-- Whether two values have the same contents: the same type and, in lists, the same names. A
vector is identical to a list of its elements. -/
def identical (a b : Value) : Except HostFault Bool :=
  match a, b with
  | .nan x, .nan y => .ok (x.isSome && x = y)
  | .vec v, .vec w =>
      if v.id = w.id ∧ v.id ≠ 0 then .ok true else vectorIdentical (.vec v) (.vec w)
  | .list items, .list items' =>
      if items.length = items'.length ∧ items.map (·.tag) = items'.map (·.tag) then
        identicalTagged items (items'.map (·.item))
      else .ok false
  | .list _, .sequence _ => .ok false
  | .list _, .tuple _ => .ok false
  | .sequence items, .sequence items' =>
      if items.length = items'.length then identicalItems items items' else .ok false
  | .sequence items, .tuple items' =>
      if items.length = items'.length then identicalItems items items' else .ok false
  | .tuple items, .sequence items' =>
      if items.length = items'.length then identicalItems items items' else .ok false
  | .tuple items, .tuple items' =>
      if items.length = items'.length then identicalItems items items' else .ok false
  | a, b =>
      if a.isVector || b.isVector then vectorIdentical a b
      else if a.typeName = b.typeName then same a b
      else .ok false
termination_by structural a

def identicalItems : List Value → List Value → Except HostFault Bool
  | a :: rest, b :: rest' => do
      if ← identical a b then identicalItems rest rest' else .ok false
  | _, _ => .ok true
termination_by structural items => items

def identicalTagged : List (Tagged Value) → List Value → Except HostFault Bool
  | ⟨_, a⟩ :: rest, b :: rest' => do
      if ← identical a b then identicalTagged rest rest' else .ok false
  | _, _ => .ok true
termination_by structural items => items

end

/-! ## Truth -/

/-- The truth of a value where any value may stand: nothing, zero and what is empty are false. -/
def truth : Value → Except HostFault Bool
  | .null => .ok false
  | .absent => .ok false
  | .bool b => .ok b
  | .int i => .ok (i ≠ 0)
  | .num x => .ok !x.isZero
  | .str s => .ok (s ≠ "")
  | .code .missing => .ok false
  | .code (.formals items) => .ok !items.isEmpty
  | .list items => .ok !items.isEmpty
  | .sequence items => .ok !items.isEmpty
  | .tuple items => .ok !items.isEmpty
  | .mapping entries => .ok !entries.isEmpty
  | .dots entries => .ok !entries.isEmpty
  | .vec ⟨_, .bools xs⟩ => onlyTruth xs
  | .vec ⟨_, .ints xs⟩ => onlyTruth (xs.map (· ≠ 0))
  | .vec ⟨_, .words xs⟩ => onlyTruth (xs.map (· ≠ 0))
  | .vec ⟨_, .floats xs⟩ => onlyTruth (xs.map (!·.isZero))
  | .vec ⟨_, .texts _ xs⟩ => onlyTruth (xs.map (· ≠ ""))
  | .vec ⟨_, .objects xs⟩ => onlyTruth (xs.map fun x => !x.isNull)
  | _ => .ok true

/-- The truth value that a condition of `form` gives. -/
def condition (form : String) (value : Value) : Except TypeFault Bool :=
  match value with
  | .bool b => .ok b
  | .int i => .ok (i ≠ 0)
  | .num x => if x.isNaN then .error (.conditionMissing form) else .ok !x.isZero
  | .nan _ => .error (.conditionMissing form)
  | .vec v =>
      match truth (.vec v) with
      | .ok b => .ok b
      | .error _ => .error (.conditionLength form v.elements.length)
  | .null => .error (.conditionEmpty form)
  | .absent => .error (.conditionEmpty form)
  | _ => .error (.conditionKind form)

end Value

end Quasi
