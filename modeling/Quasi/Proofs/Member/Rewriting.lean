import Quasi.Proofs.Quotation.Node
import Quasi.Quotation.Rewrite

/-!
# What rewriting member accesses changes

Rewriting changes a node only if it is an access, or the head or the name of one. All others stay
where they are, with the names of their slots and formals.
-/

namespace Quasi

namespace Expr

variable {e x head : Expr} {slots : List Slot} {path : List Nat} {i : Nat}

/-! ## Nodes -/

/-- A call of `$` with a target and a name that is a symbol or a text. -/
def isAccess : Expr → Bool
  | .call head [_, name] => head.isSymbol "$" && name.item.bareName?.isSome
  | _ => false

/-- A position that is not in the head or the name of an access. -/
def Keeps (e : Expr) (path : List Nat) : Prop :=
  ∀ front i rest access, path = front ++ i :: rest → e.at? front = some access →
    access.isAccess = true → i = 1

theorem Keeps.first (h : e.Keeps (i :: path)) (haccess : e.isAccess = true) : i = 1 :=
  h [] i path e rfl rfl haccess

theorem Keeps.rest {part : Expr} (h : e.Keeps (i :: path)) (hpart : e.children[i]? = some part) :
    part.Keeps path := fun front j rest access hpath hfront =>
  h (i :: front) j rest access (by rw [hpath]; rfl) (by rw [at?, hpart]; exact hfront)

/-- An access is one of a target by a name that has a text. -/
theorem isAccess_eq_true_iff : e.isAccess = true ↔ ∃ target name label,
    e = .call (.symbol "$") [target, name] ∧ name.item.bareName? = some label := by
  constructor
  · intro h
    match e with
    | .call head [target, name] =>
        obtain ⟨hhead, hname⟩ := Bool.and_eq_true_iff.mp h
        obtain ⟨label, hlabel⟩ := Option.isSome_iff_exists.mp hname
        cases head with
        | symbol text => exact ⟨target, name, label, by rw [of_decide_eq_true hhead], hlabel⟩
        | const _ | call _ _ | formals _ | missing => cases hhead
  · rintro ⟨target, name, label, rfl, hname⟩
    simp [isAccess, isSymbol, hname]

/-! ## The parts of what is rewritten -/

@[simp] theorem rewriteSlots_eq (slots : List Slot) :
    rewriteSlots slots = slots.map (Tagged.map rewriteMembers) := by
  induction slots with
  | nil => rfl
  | cons slot rest ih => rw [rewriteSlots, ih]; rfl

@[simp] theorem rewriteFormals_eq (items : List (String × Expr)) :
    rewriteFormals items = items.map fun item => (item.1, item.2.rewriteMembers) := by
  induction items with
  | nil => rfl
  | cons item rest ih => rw [rewriteFormals, ih]; rfl

theorem memberByText_of_not_access (h : (Expr.call head slots).isAccess = false) :
    memberByText head slots = .call head slots := by
  unfold memberByText
  split
  next target name =>
    split
    next hhead =>
      have hname : name.item.bareName? = none := by simpa [isAccess, hhead] using h
      rw [hname]
    · rfl
  · rfl

/-- An expression stays a symbol, or stays none. -/
theorem isSymbol_rewriteMembers (e : Expr) (name : String) :
    e.rewriteMembers.isSymbol name = e.isSymbol name := by
  cases e with
  | call head slots =>
      rw [rewriteMembers]
      unfold memberByText
      split
      · split
        · split <;> rfl
        · rfl
      · rfl
  | const _ | symbol _ | formals _ | missing => rfl

theorem bareName?_rewriteMembers (e : Expr) : e.rewriteMembers.bareName? = e.bareName? := by
  cases e with
  | call head slots =>
      rw [rewriteMembers]
      unfold memberByText
      split
      · split
        · split <;> rfl
        · rfl
      · rfl
  | const _ | symbol _ | formals _ | missing => rfl

/-- A call is an access if and only if it is one once its parts are rewritten. -/
theorem isAccess_parts (head : Expr) (slots : List Slot) :
    (Expr.call head.rewriteMembers (slots.map (Tagged.map rewriteMembers))).isAccess =
      (Expr.call head slots).isAccess := by
  match slots with
  | [] | [_] | _ :: _ :: _ :: _ => rfl
  | [target, name] =>
      simp only [List.map_cons, List.map_nil, isAccess, Tagged.map, isSymbol_rewriteMembers,
        bareName?_rewriteMembers]

/-- An access becomes a call that takes the name as a text. -/
theorem rewriteMembers_access {target name : Slot} {label : String}
    (hname : name.item.bareName? = some label) :
    (Expr.call (.symbol "$") [target, name]).rewriteMembers =
      .call (.symbol "[[") [⟨target.tag, target.item.rewriteMembers⟩,
        .bare (.const (.str label))] := by
  simp [rewriteMembers, memberByText, isSymbol, Tagged.map, bareName?_rewriteMembers, hname]

theorem rewriteMembers_call (h : (Expr.call head slots).isAccess = false) :
    (Expr.call head slots).rewriteMembers =
      .call head.rewriteMembers (slots.map (Tagged.map rewriteMembers)) := by
  rw [rewriteMembers, rewriteSlots_eq]
  exact memberByText_of_not_access ((isAccess_parts head slots).trans h)

/-- What is no access keeps its place, and its parts are rewritten. -/
theorem outline_rewriteMembers (h : e.isAccess = false) :
    e.rewriteMembers.outline = e.outline ∧
      e.rewriteMembers.children = e.children.map rewriteMembers := by
  cases e with
  | call head slots =>
      rw [rewriteMembers_call h]
      simp [outline, children, Tagged.map]
  | formals items => simp [rewriteMembers, outline, children]
  | const _ | symbol _ | missing => exact ⟨rfl, rfl⟩

theorem isAccess_rewriteMembers (e : Expr) : e.rewriteMembers.isAccess = false := by
  cases haccess : e.isAccess with
  | true =>
      obtain ⟨target, name, label, rfl, hname⟩ := isAccess_eq_true_iff.mp haccess
      rw [rewriteMembers_access hname]
      rfl
  | false =>
      cases e with
      | call head slots => rw [rewriteMembers_call haccess, isAccess_parts, haccess]
      | const _ | symbol _ | formals _ | missing => exact haccess

/-! ## The whole tree -/

/-- Nothing that is rewritten holds an access. -/
theorem isAccess_at?_rewriteMembers (h : e.rewriteMembers.at? path = some x) :
    x.isAccess = false := by
  induction path generalizing e with
  | nil =>
      cases h
      exact isAccess_rewriteMembers e
  | cons i path ih =>
      obtain ⟨part, hpart, hx⟩ := Option.bind_eq_some_iff.mp h
      cases haccess : e.isAccess with
      | true =>
          obtain ⟨target, name, label, rfl, hname⟩ := isAccess_eq_true_iff.mp haccess
          rw [rewriteMembers_access hname] at hpart
          -- the new head and the new name are rewritten already
          match i with
          | 0 =>
              cases hpart
              exact ih (e := .symbol "[[") hx
          | 1 =>
              cases hpart
              exact ih hx
          | 2 =>
              cases hpart
              exact ih (e := .const (.str label)) hx
          | _ + 3 => cases hpart
      | false =>
          rw [(outline_rewriteMembers haccess).2, List.getElem?_map] at hpart
          obtain ⟨old, -, rfl⟩ := Option.map_eq_some_iff.mp hpart
          exact ih hx

/-- What stands in a tree, and not in the head or the name of an access, stands at the same position
once both are rewritten. -/
theorem at?_rewriteMembers (h : e.at? path = some x) (hkept : e.Keeps path) :
    e.rewriteMembers.at? path = some x.rewriteMembers := by
  induction path generalizing e with
  | nil =>
      cases h
      rfl
  | cons i path ih =>
      obtain ⟨part, hpart, hx⟩ := Option.bind_eq_some_iff.mp h
      have hrest := ih hx (hkept.rest hpart)
      cases haccess : e.isAccess with
      | true =>
          obtain rfl := hkept.first haccess
          obtain ⟨target, name, label, rfl, hname⟩ := isAccess_eq_true_iff.mp haccess
          cases hpart
          rw [rewriteMembers_access hname]
          exact hrest
      | false =>
          rw [at?, (outline_rewriteMembers haccess).2, List.getElem?_map, hpart]
          exact hrest

/-- Trees without an access are left as they are. -/
theorem rewriteMembers_of_no_access (h : ∀ path x, e.at? path = some x → x.isAccess = false) :
    e.rewriteMembers = e := by
  induction e using childrenInduction with
  | step e ih =>
      have hchild (child : Expr) (hmem : child ∈ e.children) : child.rewriteMembers = child := by
        obtain ⟨i, hi⟩ := List.mem_iff_getElem?.mp hmem
        exact ih child hmem fun path x hx => h (i :: path) x (by rw [at?, hi]; exact hx)
      obtain ⟨houtline, hchildren⟩ := outline_rewriteMembers (h [] e rfl)
      refine eq_of_node houtline ?_
      rw [hchildren, List.map_congr_left hchild, List.map_id']

/-- What is rewritten is not rewritten again. -/
theorem rewriteMembers_idem (e : Expr) : e.rewriteMembers.rewriteMembers = e.rewriteMembers :=
  rewriteMembers_of_no_access fun _ _ => isAccess_at?_rewriteMembers

end Expr

end Quasi
