import Quasi.Machine.Eval
import Quasi.Proofs.Tidy.Held

/-!
# Hidden promises

A value mentions the promises that it leads to without a store: itself if it is one, and those in
its items, in its entries and in the constants of its code. Of promises that are hidden nothing may
be mentioned. What is computed from values that conceal them conceals them as well.
-/

namespace Quasi

/-! ## What mentions promises -/

/-- Whether a value mentions nothing, whatever it is. -/
def Value.isSealed : Value → Bool
  | .null | .absent | .bool _ | .int _ | .num _ | .nan _ | .str _ | .env _ | .closure _
  | .builtin _ _ | .host _ | .mask _ | .pronoun _ _ | .failure _ => true
  | _ => false

mutual

/-- Code that mentions no hidden promise. -/
inductive Expr.Conceals (hidden : PromiseId → Prop) : Expr → Prop where
  | const {v : Value} (h : Value.Conceals hidden v) : Expr.Conceals hidden (.const v)
  | symbol (name : String) : Expr.Conceals hidden (.symbol name)
  | call {head : Expr} {slots : List (Tagged Expr)} (hhead : Expr.Conceals hidden head)
      (hslots : ∀ slot ∈ slots, Expr.Conceals hidden slot.item) :
      Expr.Conceals hidden (.call head slots)
  | formals {items : List (String × Expr)} (h : ∀ item ∈ items, Expr.Conceals hidden item.2) :
      Expr.Conceals hidden (.formals items)
  | missing : Expr.Conceals hidden .missing

/-- A value that mentions no hidden promise. -/
inductive Value.Conceals (hidden : PromiseId → Prop) : Value → Prop where
  | plain {v : Value} (h : v.isSealed = true) : Value.Conceals hidden v
  | code {e : Expr} (h : Expr.Conceals hidden e) : Value.Conceals hidden (.code e)
  | slot {slot : Tagged Expr} (h : Expr.Conceals hidden slot.item) :
      Value.Conceals hidden (.slot slot)
  | list {items : List (Tagged Value)} (h : ∀ t ∈ items, Value.Conceals hidden t.item) :
      Value.Conceals hidden (.list items)
  | sequence {items : List Value} (h : ∀ v ∈ items, Value.Conceals hidden v) :
      Value.Conceals hidden (.sequence items)
  | tuple {items : List Value} (h : ∀ v ∈ items, Value.Conceals hidden v) :
      Value.Conceals hidden (.tuple items)
  | mapping {entries : List (String × Value)}
      (h : ∀ entry ∈ entries, Value.Conceals hidden entry.2) :
      Value.Conceals hidden (.mapping entries)
  | vec {v : Vec Value} (h : ∀ x ∈ v.elements.items, Value.Conceals hidden x) :
      Value.Conceals hidden (.vec v)
  | table {t : Table Value}
      (h : ∀ c ∈ t.columns, ∀ x ∈ c.2.elements.items, Value.Conceals hidden x) :
      Value.Conceals hidden (.table t)
  | quosure {e : Expr} (h : Expr.Conceals hidden e) (env : EnvId) :
      Value.Conceals hidden (.quosure e env)
  | dots {entries : List (Tagged Value)} (h : ∀ t ∈ entries, Value.Conceals hidden t.item) :
      Value.Conceals hidden (.dots entries)
  | promise {p : PromiseId} (h : ¬ hidden p) : Value.Conceals hidden (.promise p)

end

/-- A type whose inhabitants may mention promises. -/
class Mention (α : Type) where
  conceals (hidden : PromiseId → Prop) (a : α) : Prop

/-- Nothing hidden is mentioned. -/
class Conceals (hidden : PromiseId → Prop) {α : Type} [Mention α] (a : α) : Prop where
  out : Mention.conceals hidden a

/-- A type whose inhabitants mention nothing. -/
class Mute (α : Type) extends Mention α where
  mute (hidden : PromiseId → Prop) (a : α) : conceals hidden a

section Types

variable {hidden : PromiseId → Prop} {α β : Type}

instance [Mute α] (a : α) : Conceals hidden a := ⟨Mute.mute hidden a⟩

/-- Nothing is mentioned. -/
@[reducible] def Mute.all : Mute α := { conceals := fun _ _ => True, mute := fun _ _ => trivial }

instance : Mute Unit := .all
instance : Mute Bool := .all
instance : Mute Nat := .all
instance : Mute Int := .all
instance : Mute Char := .all
instance : Mute String := .all
instance : Mute EnvId := .all
instance : Mute ClosureId := .all
instance : Mute MaskId := .all
instance : Mute FailureRef := .all
instance : Mute Binary64 := .all
instance : Mute Cause := .all
instance : Mute HostFault := .all
instance : Mute ArityFault := .all
instance : Mute TypeFault := .all
instance : Mute CallFault := .all
instance : Mute OperatorFault := .all

instance : Mention PromiseId := ⟨fun hidden p => ¬ hidden p⟩
instance : Mention Expr := ⟨Expr.Conceals⟩
instance : Mention Value := ⟨Value.Conceals⟩

variable [Mention α] [Mention β]

instance : Mention (List α) := ⟨fun hidden xs => ∀ x ∈ xs, Mention.conceals hidden x⟩
instance : Mention (Option α) := ⟨fun hidden o => ∀ x ∈ o, Mention.conceals hidden x⟩
instance : Mention (α × β) :=
  ⟨fun hidden p => Mention.conceals hidden p.1 ∧ Mention.conceals hidden p.2⟩
instance : Mention (Tagged α) := ⟨fun hidden t => Mention.conceals hidden t.item⟩
instance {γ : Type} [Mute γ] : Mute (List γ) where
  mute hidden _ x _ := Mute.mute hidden x
instance {γ : Type} [Mute γ] : Mute (Option γ) where
  mute hidden _ x _ := Mute.mute hidden x
instance {γ δ : Type} [Mute γ] [Mute δ] : Mute (γ × δ) where
  mute hidden p := ⟨Mute.mute hidden p.1, Mute.mute hidden p.2⟩

instance : Mention (Elements Value) := ⟨fun hidden e => Mention.conceals hidden e.items⟩
instance : Mention (Vec Value) := ⟨fun hidden v => Mention.conceals hidden v.elements⟩
instance : Mention (Table Value) := ⟨fun hidden t => Mention.conceals hidden t.columns⟩
instance : Mention (Except α β) where
  conceals hidden
    | .ok b => Mention.conceals hidden b
    | .error a => Mention.conceals hidden a

instance {γ δ : Type} [Mute γ] [Mute δ] : Mute (Except γ δ) where
  mute hidden r := by
    cases r with
    | ok a => exact Mute.mute hidden a
    | error x => exact Mute.mute hidden x

end Types

/-! ## Parts -/

section Parts

variable {hidden : PromiseId → Prop} {α β ε : Type} [Mention α] [Mention β] [Mention ε]

theorem conceals_iff {a : α} : Conceals hidden a ↔ Mention.conceals hidden a :=
  ⟨fun h => h.out, fun h => ⟨h⟩⟩

theorem conceals_list {xs : List α} : Conceals hidden xs ↔ ∀ x ∈ xs, Conceals hidden x :=
  ⟨fun h x hx => ⟨h.out x hx⟩, fun h => ⟨fun x hx => (h x hx).out⟩⟩

@[simp] theorem conceals_cons {x : α} {xs : List α} :
    Conceals hidden (x :: xs) ↔ Conceals hidden x ∧ Conceals hidden xs := by
  simp only [conceals_list, List.forall_mem_cons]

@[simp] theorem conceals_append {xs ys : List α} :
    Conceals hidden (xs ++ ys) ↔ Conceals hidden xs ∧ Conceals hidden ys := by
  simp only [conceals_list, List.forall_mem_append]

@[simp] theorem conceals_some {x : α} : Conceals hidden (some x) ↔ Conceals hidden x :=
  ⟨fun h => ⟨h.out x rfl⟩, fun h => ⟨fun _ hy => Option.some.inj hy ▸ h.out⟩⟩

@[simp] theorem conceals_pair {a : α} {b : β} :
    Conceals hidden (a, b) ↔ Conceals hidden a ∧ Conceals hidden b :=
  ⟨fun h => ⟨⟨h.out.1⟩, ⟨h.out.2⟩⟩, fun h => ⟨⟨h.1.out, h.2.out⟩⟩⟩

@[simp] theorem conceals_tagged {tag : Option String} {a : α} :
    Conceals hidden (⟨tag, a⟩ : Tagged α) ↔ Conceals hidden a := ⟨fun h => ⟨h.out⟩, fun h => ⟨h.out⟩⟩

@[simp] theorem conceals_ok {a : α} :
    Conceals hidden (.ok a : Except ε α) ↔ Conceals hidden a := ⟨fun h => ⟨h.out⟩, fun h => ⟨h.out⟩⟩

@[simp] theorem conceals_error {x : ε} :
    Conceals hidden (.error x : Except ε α) ↔ Conceals hidden x :=
  ⟨fun h => ⟨h.out⟩, fun h => ⟨h.out⟩⟩

@[simp] theorem conceals_promiseId {p : PromiseId} : Conceals hidden p ↔ ¬ hidden p :=
  conceals_iff

instance : Conceals hidden ([] : List α) := ⟨fun _ h => (List.not_mem_nil h).elim⟩

instance : Conceals hidden (none : Option α) := ⟨fun _ h => by cases h⟩

instance {x : α} {xs : List α} [hx : Conceals hidden x] [hxs : Conceals hidden xs] :
    Conceals hidden (x :: xs) := conceals_cons.mpr ⟨hx, hxs⟩

instance {xs ys : List α} [hx : Conceals hidden xs] [hy : Conceals hidden ys] :
    Conceals hidden (xs ++ ys) := conceals_append.mpr ⟨hx, hy⟩

instance {x : α} [h : Conceals hidden x] : Conceals hidden (some x) := conceals_some.mpr h

instance {a : α} {b : β} [ha : Conceals hidden a] [hb : Conceals hidden b] :
    Conceals hidden (a, b) := conceals_pair.mpr ⟨ha, hb⟩

instance {tag : Option String} {a : α} [h : Conceals hidden a] :
    Conceals hidden (⟨tag, a⟩ : Tagged α) := conceals_tagged.mpr h

instance {a : α} [h : Conceals hidden a] : Conceals hidden (Tagged.bare a) :=
  conceals_tagged.mpr h

instance {a : α} [h : Conceals hidden a] : Conceals hidden (.ok a : Except ε α) :=
  conceals_ok.mpr h

instance {x : ε} [h : Conceals hidden x] : Conceals hidden (.error x : Except ε α) :=
  conceals_error.mpr h

/-! ### Code -/

section Code

variable {e head : Expr} {slots : List Slot} {items : List (String × Expr)} {v : Value}

@[simp] theorem conceals_const : Conceals hidden (Expr.const v) ↔ Conceals hidden v :=
  ⟨fun ⟨h⟩ => by cases h; exact ⟨‹_›⟩, fun ⟨h⟩ => ⟨.const h⟩⟩

@[simp] theorem conceals_call :
    Conceals hidden (Expr.call head slots) ↔ Conceals hidden head ∧ Conceals hidden slots :=
  ⟨fun ⟨h⟩ => by cases h; exact ⟨⟨‹_›⟩, ⟨‹_›⟩⟩, fun ⟨⟨h⟩, ⟨h'⟩⟩ => ⟨.call h h'⟩⟩

@[simp] theorem conceals_formals :
    Conceals hidden (Expr.formals items) ↔ Conceals hidden items :=
  ⟨fun ⟨h⟩ => by cases h with | formals h => exact ⟨fun item hmem => ⟨trivial, h item hmem⟩⟩,
    fun ⟨h⟩ => ⟨.formals fun item hmem => (h item hmem).2⟩⟩

instance (name : String) : Conceals hidden (Expr.symbol name) := ⟨.symbol name⟩

instance : Conceals hidden Expr.missing := ⟨.missing⟩

instance [h : Conceals hidden v] : Conceals hidden (Expr.const v) := conceals_const.mpr h

instance [hhead : Conceals hidden head] [hslots : Conceals hidden slots] :
    Conceals hidden (Expr.call head slots) := conceals_call.mpr ⟨hhead, hslots⟩

instance [h : Conceals hidden items] : Conceals hidden (Expr.formals items) :=
  conceals_formals.mpr h

end Code

/-! ### Values -/

section Values

variable {e : Expr} {v : Value}

theorem conceals_sealed (h : v.isSealed = true) : Conceals hidden v := ⟨.plain h⟩

@[simp] theorem conceals_code : Conceals hidden (Value.code e) ↔ Conceals hidden e :=
  ⟨fun ⟨h⟩ => by cases h with | plain h => cases h | code h => exact ⟨h⟩, fun ⟨h⟩ => ⟨.code h⟩⟩

@[simp] theorem conceals_slot {slot : Slot} :
    Conceals hidden (Value.slot slot) ↔ Conceals hidden slot :=
  ⟨fun ⟨h⟩ => by cases h with | plain h => cases h | slot h => exact ⟨h⟩, fun ⟨h⟩ => ⟨.slot h⟩⟩

@[simp] theorem conceals_items {items : List (Tagged Value)} :
    Conceals hidden (Value.list items) ↔ Conceals hidden items :=
  ⟨fun ⟨h⟩ => by cases h with | plain h => cases h | list h => exact ⟨h⟩, fun ⟨h⟩ => ⟨.list h⟩⟩

@[simp] theorem conceals_sequence {items : List Value} :
    Conceals hidden (Value.sequence items) ↔ Conceals hidden items :=
  ⟨fun ⟨h⟩ => by cases h with | plain h => cases h | sequence h => exact ⟨h⟩,
    fun ⟨h⟩ => ⟨.sequence h⟩⟩

@[simp] theorem conceals_tuple {items : List Value} :
    Conceals hidden (Value.tuple items) ↔ Conceals hidden items :=
  ⟨fun ⟨h⟩ => by cases h with | plain h => cases h | tuple h => exact ⟨h⟩, fun ⟨h⟩ => ⟨.tuple h⟩⟩

@[simp] theorem conceals_mapping {entries : List (String × Value)} :
    Conceals hidden (Value.mapping entries) ↔ Conceals hidden entries :=
  ⟨fun ⟨h⟩ => by
    cases h with
    | plain h => cases h
    | mapping h => exact ⟨fun entry hmem => ⟨trivial, h entry hmem⟩⟩,
    fun ⟨h⟩ => ⟨.mapping fun entry hmem => (h entry hmem).2⟩⟩

@[simp] theorem conceals_vec {v : Vec Value} :
    Conceals hidden (Value.vec v) ↔ Conceals hidden v :=
  ⟨fun ⟨h⟩ => by cases h with | plain h => cases h | vec h => exact ⟨h⟩, fun ⟨h⟩ => ⟨.vec h⟩⟩

@[simp] theorem conceals_table {t : Table Value} :
    Conceals hidden (Value.table t) ↔ Conceals hidden t :=
  ⟨fun ⟨h⟩ => by
    cases h with
    | plain h => cases h
    | table h => exact ⟨fun c hc => ⟨trivial, h c hc⟩⟩,
    fun ⟨h⟩ => ⟨.table fun c hc => (h c hc).2⟩⟩

@[simp] theorem conceals_quosure {env : EnvId} :
    Conceals hidden (Value.quosure e env) ↔ Conceals hidden e :=
  ⟨fun ⟨h⟩ => by cases h with | plain h => cases h | quosure h => exact ⟨h⟩,
    fun ⟨h⟩ => ⟨.quosure h env⟩⟩

@[simp] theorem conceals_dots {entries : List (Tagged Value)} :
    Conceals hidden (Value.dots entries) ↔ Conceals hidden entries :=
  ⟨fun ⟨h⟩ => by cases h with | plain h => cases h | dots h => exact ⟨h⟩, fun ⟨h⟩ => ⟨.dots h⟩⟩

@[simp] theorem conceals_promise {p : PromiseId} :
    Conceals hidden (Value.promise p) ↔ Conceals hidden p :=
  ⟨fun ⟨h⟩ => by cases h with | plain h => cases h | promise h => exact ⟨h⟩,
    fun ⟨h⟩ => ⟨.promise h⟩⟩

instance : Conceals hidden Value.null := conceals_sealed rfl
instance : Conceals hidden Value.absent := conceals_sealed rfl
instance (b : Bool) : Conceals hidden (Value.bool b) := conceals_sealed rfl
instance (i : Int) : Conceals hidden (Value.int i) := conceals_sealed rfl
instance (x : Binary64) : Conceals hidden (Value.num x) := conceals_sealed rfl
instance (origin : Option Nat) : Conceals hidden (Value.nan origin) := conceals_sealed rfl
instance (text : String) : Conceals hidden (Value.str text) := conceals_sealed rfl
instance (env : EnvId) : Conceals hidden (Value.env env) := conceals_sealed rfl
instance (c : ClosureId) : Conceals hidden (Value.closure c) := conceals_sealed rfl
instance (b : Builtin) (home : EnvId) : Conceals hidden (Value.builtin b home) :=
  conceals_sealed rfl
instance (fn : HostFunction) : Conceals hidden (Value.host fn) := conceals_sealed rfl
instance (m : MaskId) : Conceals hidden (Value.mask m) := conceals_sealed rfl
instance (p : Pronoun) (m : MaskId) : Conceals hidden (Value.pronoun p m) := conceals_sealed rfl
instance (f : FailureRef) : Conceals hidden (Value.failure f) := conceals_sealed rfl

instance [h : Conceals hidden e] : Conceals hidden (Value.code e) := conceals_code.mpr h

instance {slot : Slot} [h : Conceals hidden slot] : Conceals hidden (Value.slot slot) :=
  conceals_slot.mpr h

instance {items : List (Tagged Value)} [h : Conceals hidden items] :
    Conceals hidden (Value.list items) := conceals_items.mpr h

instance {items : List Value} [h : Conceals hidden items] :
    Conceals hidden (Value.sequence items) := conceals_sequence.mpr h

instance {items : List Value} [h : Conceals hidden items] :
    Conceals hidden (Value.tuple items) := conceals_tuple.mpr h

instance {entries : List (String × Value)} [h : Conceals hidden entries] :
    Conceals hidden (Value.mapping entries) := conceals_mapping.mpr h

instance {v : Vec Value} [h : Conceals hidden v] : Conceals hidden (Value.vec v) :=
  conceals_vec.mpr h

instance {t : Table Value} [h : Conceals hidden t] : Conceals hidden (Value.table t) :=
  conceals_table.mpr h

instance {env : EnvId} [h : Conceals hidden e] : Conceals hidden (Value.quosure e env) :=
  conceals_quosure.mpr h

instance {entries : List (Tagged Value)} [h : Conceals hidden entries] :
    Conceals hidden (Value.dots entries) := conceals_dots.mpr h

instance {p : PromiseId} [h : Conceals hidden p] : Conceals hidden (Value.promise p) :=
  conceals_promise.mpr h

end Values

end Parts

end Quasi
