import Quasi.Proofs.Quotation.Node
import Quasi.Quotation.Rewrite

/-!
# What squashing changes

Squashing puts the expression of a quosure in the place of the quosure, at any depth. A tree in
which quosures are looked through has the same nodes as the squashed one: what each is, how many
parts it has and how they are named stays as it is.
-/

namespace Quasi

namespace Expr

variable {e x head : Expr} {slots : List Slot} {path : List Nat}

/-! ## Looking through quosures -/

/-- What an expression is once embedded quosures are looked through. -/
def unwrapped : Expr → Expr
  | .const (.quosure e _) => e.unwrapped
  | e => e

/-- The node at a position, quosures on the way being looked through. -/
def within? : Expr → List Nat → Option Expr
  | e, [] => some e
  | e, i :: path => e.unwrapped.children[i]?.bind fun part => part.within? path

/-- No quosure is embedded anywhere in the tree. -/
def IsBare (e : Expr) : Prop := ∀ path q home, e.at? path ≠ some (.const (.quosure q home))

@[simp] theorem squashSlots_eq (slots : List Slot) :
    squashSlots slots = slots.map (Tagged.map squash) := by
  induction slots with
  | nil => rfl
  | cons slot rest ih => rw [squashSlots, ih]; rfl

@[simp] theorem squashFormals_eq (items : List (String × Expr)) :
    squashFormals items = items.map fun item => (item.1, item.2.squash) := by
  induction items with
  | nil => rfl
  | cons item rest ih => rw [squashFormals, ih]; rfl

theorem unwrapped_ne_quosure (e q : Expr) (home : EnvId) :
    e.unwrapped ≠ .const (.quosure q home) := by
  fun_induction unwrapped e with
  | case1 e env ih => exact ih
  | case2 e h =>
      rintro rfl
      exact h q home rfl

theorem squash_unwrapped (e : Expr) : e.unwrapped.squash = e.squash := by
  fun_induction unwrapped e with
  | case1 e env ih => rw [ih, squash]
  | case2 e h => rfl

/-! ## One node -/

/-- A node other than a quosure stays what it is, and its parts are squashed. -/
theorem squash_node (h : ∀ q home, e ≠ .const (.quosure q home)) :
    e.squash.outline = e.outline ∧ e.squash.children = e.children.map squash := by
  cases e with
  | const v =>
      cases v with
      | quosure q home => exact absurd rfl (h q home)
      | _ => exact ⟨rfl, rfl⟩
  | call head slots => simp [squash, outline, children, Tagged.map]
  | formals items => simp [squash, outline, children]
  | symbol _ | missing => exact ⟨rfl, rfl⟩

theorem outline_squash (e : Expr) : e.squash.outline = e.unwrapped.outline := by
  rw [← squash_unwrapped]
  exact (squash_node (unwrapped_ne_quosure e)).1

theorem children_squash (e : Expr) : e.squash.children = e.unwrapped.children.map squash := by
  rw [← squash_unwrapped]
  exact (squash_node (unwrapped_ne_quosure e)).2

theorem squash_ne_quosure (e q : Expr) (home : EnvId) : e.squash ≠ .const (.quosure q home) := by
  intro h
  have houtline := outline_squash e
  rw [h] at houtline
  have hnode := unwrapped_ne_quosure e
  cases hunwrapped : e.unwrapped with
  | const v =>
      rw [hunwrapped] at houtline
      cases houtline
      exact hnode q home hunwrapped
  | _ =>
      rw [hunwrapped] at houtline
      cases houtline

/-! ## The whole tree -/

/-- At every position of the squashed tree stands what stands there with quosures looked through,
squashed. -/
theorem at?_squash (e : Expr) (path : List Nat) :
    e.squash.at? path = (e.within? path).map squash := by
  induction path generalizing e with
  | nil => rfl
  | cons i path ih =>
      rw [at?, within?, children_squash, List.getElem?_map]
      cases e.unwrapped.children[i]? with
      | none => rfl
      | some part => exact ih part

theorem isBare_squash (e : Expr) : e.squash.IsBare := by
  intro path q home h
  rw [at?_squash] at h
  obtain ⟨node, -, hnode⟩ := Option.map_eq_some_iff.mp h
  exact squash_ne_quosure node q home hnode

theorem IsBare.child (h : e.IsBare) {child : Expr} (hmem : child ∈ e.children) : child.IsBare := by
  obtain ⟨i, hi⟩ := List.mem_iff_getElem?.mp hmem
  intro path q home hchild
  refine h (i :: path) q home ?_
  rw [at?, hi]
  exact hchild

/-- Trees without quosures are left as they are. -/
theorem IsBare.squash_eq (h : e.IsBare) : e.squash = e := by
  induction e using childrenInduction with
  | step e ih =>
      have hchild (child : Expr) (hmem : child ∈ e.children) : child.squash = child :=
        ih child hmem (h.child hmem)
      have hnode : ∀ q home, e ≠ .const (.quosure q home) := fun q home he =>
        h [] q home (congrArg some he)
      obtain ⟨houtline, hchildren⟩ := squash_node hnode
      refine eq_of_node houtline ?_
      rw [hchildren, List.map_congr_left hchild, List.map_id']

end Expr

open Quasi.Expr

/-- Squashing an expression or a quosure leaves no quosure in the tree and nothing else undone: a
tree without quosures stays as it is, so that squashing twice is squashing once. All nodes stay what
they are, with the number and the names of their parts, and squashing a node is squashing its
parts. -/
theorem squashing_laws (e : Expr) (env : EnvId) :
    ((Value.code e).squash = e.squash ∧ (Value.quosure e env).squash = e.squash) ∧
    e.squash.IsBare ∧ (e.IsBare → e.squash = e) ∧ e.squash.squash = e.squash ∧
    (∀ path, e.squash.at? path = (e.within? path).map squash ∧
      (e.squash.at? path).map outline = (e.within? path).map fun node => node.unwrapped.outline) ∧
    (∀ head slots, (Expr.call head slots).squash =
      .call head.squash (slots.map (Tagged.map squash))) ∧
    (∀ items, (Expr.formals items).squash =
      .formals (items.map fun item => (item.1, item.2.squash))) ∧
    ∀ q home, (Expr.const (.quosure q home)).squash = q.squash := by
  have hbare := isBare_squash e
  refine ⟨⟨rfl, rfl⟩, hbare, IsBare.squash_eq, hbare.squash_eq, fun path => ⟨at?_squash e path, ?_⟩,
    fun head slots => ?_, fun items => ?_, fun q home => by rw [squash]⟩
  · rw [at?_squash, Option.map_map]
    exact congrFun (congrArg Option.map (funext outline_squash)) _
  · rw [squash, squashSlots_eq]
  · rw [squash, squashFormals_eq]

/-- A quosure in a quosure, and one at the head of a call. -/
theorem squashing_laws_nested :
    let inner : Expr := .call (.symbol "g") [⟨some "n", .const (.quosure (.symbol "x") .empty)⟩]
    let outer : Expr := .call (.const (.quosure (.symbol "f") .empty))
      [.bare (.const (.quosure inner (.scope 0)))]
    let bare : Expr := .call (.symbol "f") [.bare (.call (.symbol "g") [⟨some "n", .symbol "x"⟩])]
    (Value.quosure outer .empty).squash = bare ∧ bare.IsBare ∧ bare.squash = bare ∧
      bare.at? [1, 1] = (outer.within? [1, 1]).map squash := by
  intro inner outer bare
  obtain ⟨⟨-, houter⟩, hbare, -, -, hnodes, -⟩ := squashing_laws outer .empty
  have hsquash : outer.squash = bare := rfl
  rw [hsquash] at houter hbare hnodes
  exact ⟨houter, hbare, (squashing_laws bare .empty).2.2.1 hbare, (hnodes [1, 1]).1⟩

end Quasi
