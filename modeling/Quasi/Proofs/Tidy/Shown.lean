import Quasi.Proofs.Tidy.Alike
import Quasi.Proofs.Tidy.Held

/-!
# What values show

The texts of a value that leads to no environment depend on little of the store. They are the same in
stores that are alike but for a mask. What is said of a promise depends on its code, so that promises
may have to be avoided as well.
-/

namespace Quasi

theorem mapM_bind_congr {α β γ : Type} {f g : α → Option β} {xs : List α}
    (h : ∀ x ∈ xs, f x = g x) (k : List β → Option γ) : xs.mapM f >>= k = xs.mapM g >>= k := by
  congr 1
  induction xs with
  | nil => rfl
  | cons x xs ih =>
      rw [List.mapM_cons, List.mapM_cons, h x (List.mem_cons_self ..),
        ih fun y hy => h y (List.mem_cons_of_mem x hy)]

namespace Store

/-- Two stores that agree on all that is shown of values which lead neither to an environment nor
to anything else that is avoided. -/
structure Shown (bad : Value → Bool) (s t : Store) : Prop where
  bindings {v : Value} : v.hasBindings = true → bad v = true
  envName? (e : EnvId) : t.envName? e = s.envName? e
  closure (c : ClosureId) : t.closure c = s.closure c
  promise (p : PromiseId) : bad (.promise p) = false →
    showPromise (t.promise p) = showPromise (s.promise p)
  incident (f : FailureRef) : t.incident f = s.incident f
  dataNames (m : MaskId) : t.dataNames m = s.dataNames m

theorem Alike.shown {m : MaskId} {s t : Store} (h : s.Alike m t) :
    s.Shown Value.hasBindings t where
  bindings := id
  envName? e := by cases e <;> simp only [Store.envName?, h.scope]
  closure := h.closure
  promise p _ := congrArg showPromise (h.promise p)
  incident := h.incident
  dataNames := h.dataNames

namespace Shown

variable {bad : Value → Bool} {s t : Store}

theorem symm (h : s.Shown bad t) : t.Shown bad s where
  bindings := h.bindings
  envName? e := (h.envName? e).symm
  closure c := (h.closure c).symm
  promise p hp := (h.promise p hp).symm
  incident f := (h.incident f).symm
  dataNames m := (h.dataNames m).symm

theorem showQuosure (h : s.Shown bad t) (e : Expr) (env : EnvId) :
    t.showQuosure e env = s.showQuosure e env := by
  simp only [Store.showQuosure, Store.showEnv, Store.label, h.envName?]

theorem showFailure (h : s.Shown bad t) (f : FailureRef) : t.showFailure f = s.showFailure f := by
  simp only [Store.showFailure, h.incident]

/-- What is avoided is none of the values that have bindings. -/
theorem not_hasBindings (h : s.Shown bad t) {v : Value} (hv : bad v = false) :
    v.hasBindings = false := by
  cases hbindings : v.hasBindings with
  | false => rfl
  | true => exact absurd (h.bindings hbindings) (by simp [hv])

theorem inspect (h : s.Shown bad t) {v : Value} (hv : v.avoids bad = true) (fuel : Nat) :
    t.inspect fuel v = s.inspect fuel v := by
  induction fuel generalizing v with
  | zero => rfl
  | succ fuel ih =>
      match v with
      | .code (.const v) => simp only [Store.inspect, ih (v := v) hv]
      | .code (.call head slots) =>
          have hhead : (Value.code head).avoids bad = true :=
            avoids_part hv (List.subset_append_left ..)
          have hslots : ∀ slot ∈ slots, (Value.slot slot).avoids bad = true := fun slot hmem =>
            avoids_part hv (List.subset_append_of_subset_right _ (held_slot hmem))
          simp only [Store.inspect, ih hhead]
          exact mapM_bind_congr (fun slot hmem => ih (hslots slot hmem)) _
      | .code (.formals items) =>
          simp only [Store.inspect]
          refine mapM_bind_congr (fun item hmem => ?_) _
          rw [ih (v := .code item.2) (avoids_part hv (held_formal hmem))]
      | .slot t => simp only [Store.inspect, ih (v := .code t.item) hv]
      | .list items =>
          simp only [Store.inspect]
          split
          · refine mapM_bind_congr (fun t hmem => ?_) _
            rw [ih (avoids_part hv (held_tagged hmem))]
          · exact mapM_bind_congr (fun t hmem => ih (avoids_part hv (held_tagged hmem))) _
      | .sequence items => exact mapM_bind_congr (fun x hx => ih (avoids_part hv (held_item hx))) _
      | .tuple items => exact mapM_bind_congr (fun x hx => ih (avoids_part hv (held_item hx))) _
      | .mapping entries =>
          simp only [Store.inspect]
          refine mapM_bind_congr (fun entry hmem => ?_) _
          rw [ih (avoids_part hv (held_entry hmem))]
      | .vec ⟨_, .objects xs⟩ =>
          simp only [Store.inspect]
          refine mapM_bind_congr (fun x hx => ?_) _
          rw [ih (avoids_part hv (held_item hx))]
      | .env _ | .pronoun _ _ | .dots _ =>
          cases h.not_hasBindings (avoids_iff.mp hv _ (List.mem_singleton_self _))
      | .quosure e env => simp only [Store.inspect, h.showQuosure]
      | .closure c => simp only [Store.inspect, h.closure]
      | .promise p =>
          have hp := avoids_iff.mp hv (.promise p) (List.mem_singleton_self _)
          simp only [Store.inspect, h.promise p hp]
      | .mask k => simp only [Store.inspect, h.dataNames]
      | .code (.symbol _) | .code .missing | .vec ⟨_, .bools _⟩ | .vec ⟨_, .ints _⟩
      | .vec ⟨_, .words _⟩ | .vec ⟨_, .floats _⟩ | .vec ⟨_, .texts _ _⟩ | .null | .absent | .bool _
      | .int _ | .num _ | .nan _ | .str _ | .table _ | .builtin _ _ | .host _ | .failure _ => rfl

theorem displayVector (h : s.Shown bad t) {v : Vec Value} (hv : (Value.vec v).avoids bad = true)
    (fuel : Nat) : t.displayVector fuel v.elements = s.displayVector fuel v.elements := by
  obtain ⟨id, elements⟩ := v
  cases elements with
  | objects xs =>
      simp only [Store.displayVector]
      refine mapM_bind_congr (fun x hx => ?_) _
      rw [h.inspect (avoids_part hv (held_item hx))]
  | _ => rfl

theorem plainText (h : s.Shown bad t) {v : Value} (hv : v.avoids bad = true) (fuel : Nat) :
    t.plainText fuel v = s.plainText fuel v := by
  have hinspect := h.inspect hv fuel
  cases v with
  | vec v => exact h.displayVector hv fuel
  | closure c => simp only [Store.plainText, h.closure]
  | failure f => simp only [Store.plainText, h.showFailure]
  | env e => cases h.not_hasBindings (avoids_iff.mp hv _ (List.mem_singleton_self _))
  | code e => rfl
  | str text => rfl
  | _ => exact hinspect

theorem format (h : s.Shown bad t) {v : Value} (hv : v.avoids bad = true) (fuel : Nat) :
    t.format fuel v = s.format fuel v := by
  induction fuel generalizing v with
  | zero => rfl
  | succ fuel ih =>
      have hplain := h.plainText hv fuel
      cases v with
      | list items =>
          simp only [Store.format]
          refine mapM_bind_congr (fun t hmem => ?_) _
          rw [ih (avoids_part hv (held_tagged hmem))]
      | vec v => exact h.displayVector hv fuel
      | failure f => simp only [Store.format, h.showFailure]
      | code e => cases e <;> rfl
      | null | absent | bool _ | int _ | num _ | nan _ | str _ => rfl
      | _ => exact hplain

/-- What has bindings is shown by its label where it is not part of another value. -/
theorem plainText_of_bindings (h : s.Shown bad t) {v : Value} (hv : v.hasBindings = true)
    (fuel : Nat) : t.plainText fuel v = s.plainText fuel v := by
  cases v with
  | env e => simp only [Store.plainText, Store.showEnv, Store.label, h.envName?]
  | pronoun | dots => cases fuel <;> rfl
  | _ => cases hv

theorem format_of_bindings (h : s.Shown bad t) {v : Value} (hv : v.hasBindings = true)
    (fuel : Nat) : t.format fuel v = s.format fuel v := by
  cases fuel with
  | zero => rfl
  | succ fuel =>
      have hplain := h.plainText_of_bindings hv fuel
      cases v with
      | env | pronoun | dots => exact hplain
      | _ => cases hv

end Shown

end Store

end Quasi
