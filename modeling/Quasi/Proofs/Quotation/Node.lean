import Quasi.Expr.Basic

/-!
# The nodes of a tree

The parts of a call are its head and then its arguments, those of formals their defaults. A node has
a position: a list of indices of parts, each of the part before it.
-/

namespace Quasi

namespace Expr

variable {e x y : Expr}

/-- The head and the arguments of a call, and the defaults of formals. -/
def children : Expr → List Expr
  | .call head slots => head :: slots.map (·.item)
  | .formals items => items.map (·.2)
  | _ => []

/-- The node at a position. -/
def at? : Expr → List Nat → Option Expr
  | e, [] => some e
  | e, i :: path => e.children[i]?.bind fun part => part.at? path

/-- A node without its parts: what it is, and the names of its slots or formals. -/
def outline : Expr → Expr
  | .call _ slots => .call .missing (slots.map fun slot => ⟨slot.tag, .missing⟩)
  | .formals items => .formals (items.map fun item => (item.1, .missing))
  | e => e

theorem sizeOf_child {child : Expr} (h : child ∈ e.children) : sizeOf child < sizeOf e := by
  cases e with
  | call head slots =>
      rcases List.mem_cons.mp h with rfl | h
      · simp only [call.sizeOf_spec]
        omega
      · obtain ⟨⟨tag, arg⟩, hmem, rfl⟩ := List.mem_map.mp h
        have hsize := List.sizeOf_lt_of_mem hmem
        simp only [call.sizeOf_spec, Tagged.mk.sizeOf_spec] at hsize ⊢
        omega
  | formals items =>
      obtain ⟨⟨name, default⟩, hmem, rfl⟩ := List.mem_map.mp h
      have hsize := List.sizeOf_lt_of_mem hmem
      simp only [formals.sizeOf_spec, Prod.mk.sizeOf_spec] at hsize ⊢
      omega
  | const _ | symbol _ | missing => cases h

/-- What a node has if all its parts have it, all trees have. -/
theorem childrenInduction {P : Expr → Prop} (step : ∀ e, (∀ child ∈ e.children, P child) → P e)
    (e : Expr) : P e := step e fun child _ => childrenInduction step child
termination_by sizeOf e
decreasing_by exact sizeOf_child ‹_›

/-- Lists of which two views agree are the same if their items are told apart by the views. -/
theorem eq_of_views {α β γ : Type} {f : α → β} {g : α → γ}
    (h : ∀ a b, f a = f b → g a = g b → a = b) {as bs : List α} (hf : as.map f = bs.map f)
    (hg : as.map g = bs.map g) : as = bs := by
  induction as generalizing bs with
  | nil => exact (List.map_eq_nil_iff.mp hf.symm).symm
  | cons a as ih =>
      obtain ⟨b, bs, rfl⟩ : ∃ b rest, bs = b :: rest :=
        List.exists_cons_of_ne_nil (by rintro rfl; cases hf)
      obtain ⟨hfirst, hrest⟩ := List.cons.inj hf
      obtain ⟨hfirst', hrest'⟩ := List.cons.inj hg
      rw [h a b hfirst hfirst', ih hrest hrest']

/-- A node is made of what it is and of its parts. -/
theorem eq_of_node (houtline : x.outline = y.outline) (hchildren : x.children = y.children) :
    x = y := by
  cases x with
  | call head slots =>
      cases y with
      | call head' slots' =>
          obtain ⟨rfl, hitems⟩ := List.cons.inj hchildren
          have htags := Expr.call.inj houtline
          rw [eq_of_views (fun a b htag hitem => ?_) htags.2 hitems]
          obtain ⟨tag, item⟩ := a
          cases htag
          cases hitem
          rfl
      | _ => cases houtline
  | formals items =>
      cases y with
      | formals items' =>
          have hnames := Expr.formals.inj houtline
          rw [eq_of_views (fun a b hname hdefault => ?_) hnames hchildren]
          obtain ⟨name, default⟩ := a
          cases hname
          cases hdefault
          rfl
      | _ => cases houtline
  | const _ | symbol _ | missing =>
      cases y with
      | call _ _ | formals _ => cases houtline
      | _ => exact houtline

end Expr

end Quasi
