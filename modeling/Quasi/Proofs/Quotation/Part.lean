import Quasi.Quotation.Position

/-!
# Parts of templates

The part of a template at a path of positions, the template with that part replaced, and how many
injections a template contains. An edit at a path changes the call above the last position and
puts the changed call back.
-/

namespace Quasi

theorem lt_of_position? {length n : Nat} {i : Int} (h : position? length i = .ok n) :
    n < length := by
  unfold position? at h
  extract_lets j at h
  split at h
  next hj =>
    cases h
    omega
  next => cases h

namespace Expr

/-- The part of an expression that a path of positions leads to. -/
def partAt? : Expr → List Int → Option Expr
  | e, [] => some e
  | .call head slots, i :: rest =>
      match position? (slots.length + 1) i with
      | .ok n => (part? head slots n).bind fun part => part.partAt? rest
      | .error _ => none
  | _, _ :: _ => none

/-- The expression with the part at a path replaced. -/
def replaceAt : Expr → List Int → Expr → Expr
  | _, [], new => new
  | .call head slots, i :: rest, new =>
      match position? (slots.length + 1) i with
      | .ok n => setPart head slots n (((part? head slots n).getD .missing).replaceAt rest new)
      | .error _ => .call head slots
  | e, _ :: _, _ => e

mutual

/-- How many injections an expression contains, those within operands included. -/
def injectionCount : Expr → Nat
  | .call head slots =>
      (Expr.call head slots).injection?.toList.length + head.injectionCount +
        slotInjectionCount slots
  | .formals items => formalInjectionCount items
  | _ => 0

def slotInjectionCount : List Slot → Nat
  | [] => 0
  | ⟨_, e⟩ :: rest => e.injectionCount + slotInjectionCount rest

def formalInjectionCount : List Formal → Nat
  | [] => 0
  | (_, e) :: rest => e.injectionCount + formalInjectionCount rest

end

mutual

/-- Whether some slot without a name has its name injected. -/
def injectsName : Expr → Bool
  | .call head slots => head.injectsName || anyNameInjection slots
  | .formals items => anyFormalNameInjection items
  | _ => false

def anyNameInjection : List Slot → Bool
  | [] => false
  | ⟨tag, e⟩ :: rest =>
      (tag.isNone && e.nameAssign?.isSome) || e.injectsName || anyNameInjection rest

def anyFormalNameInjection : List Formal → Bool
  | [] => false
  | (_, e) :: rest => e.injectsName || anyFormalNameInjection rest

end

/-- A path leads to the bare name of a member access by the operator `name`. -/
def IsNameSlot (e : Expr) (path : List Int) (name : String) : Prop :=
  ∃ above i head slots, path = above ++ [i] ∧ e.partAt? above = some (.call head slots) ∧
    position? (slots.length + 1) i = .ok 2 ∧ head.memberHead? = some name

variable {e head part new : Expr} {slots before after : List Slot} {slot : Slot} {i : Int}
  {path : List Int} {n : Nat}

/-! ## Slots -/

theorem slotInjectionCount_append (before after : List Slot) :
    slotInjectionCount (before ++ after) =
      slotInjectionCount before + slotInjectionCount after := by
  induction before with
  | nil => rw [List.nil_append, slotInjectionCount, Nat.zero_add]
  | cons slot before ih =>
      rw [List.cons_append, slotInjectionCount, slotInjectionCount, ih, Nat.add_assoc]

theorem injectionCount_of_slot (h : slots[n]? = some slot) :
    slot.item.injectionCount ≤ slotInjectionCount slots := by
  induction slots generalizing n with
  | nil => cases h
  | cons first rest ih =>
      rw [slotInjectionCount]
      cases n with
      | zero => cases h; exact Nat.le_add_right ..
      | succ n => exact Nat.le_trans (ih h) (Nat.le_add_left ..)

/-- Another slot than the one after `before` is one of those before it or after it. -/
theorem injectionCount_of_other {other : Slot}
    (h : (before ++ slot :: after)[n]? = some other) (hn : n ≠ before.length) :
    other.item.injectionCount ≤ slotInjectionCount before + slotInjectionCount after := by
  rcases Nat.lt_or_gt_of_ne hn with hlt | hgt
  · rw [List.getElem?_append_left hlt] at h
    exact Nat.le_trans (injectionCount_of_slot h) (Nat.le_add_right ..)
  · obtain ⟨k, rfl⟩ := Nat.exists_eq_add_of_lt hgt
    rw [List.getElem?_append_right (by omega),
      show before.length + k + 1 - before.length = k + 1 by omega, List.getElem?_cons_succ] at h
    exact Nat.le_trans (injectionCount_of_slot h) (Nat.le_add_left ..)

theorem anyNameInjection_append (before after : List Slot) :
    anyNameInjection (before ++ after) = (anyNameInjection before || anyNameInjection after) := by
  induction before with
  | nil => rw [List.nil_append, anyNameInjection, Bool.false_or]
  | cons slot before ih =>
      rw [List.cons_append, anyNameInjection, anyNameInjection, ih]
      simp only [Bool.or_assoc]

/-- An argument of a call stands between those before it and those after it. -/
theorem exists_slot_of_part? (h : part? head slots (n + 1) = some part) :
    ∃ before tag after, slots = before ++ ⟨tag, part⟩ :: after ∧ before.length = n := by
  simp only [part?, Option.map_eq_some_iff] at h
  obtain ⟨slot, hslot, rfl⟩ := h
  obtain ⟨hn, rfl⟩ := List.getElem?_eq_some_iff.mp hslot
  refine ⟨slots.take n, slots[n].tag, slots.drop (n + 1), ?_, List.length_take_of_le (Nat.le_of_lt hn)⟩
  rw [← List.drop_eq_getElem_cons hn, List.take_append_drop]

theorem setPart_slot (e : Expr) :
    setPart head (before ++ slot :: after) (before.length + 1) e =
      .call head (before ++ ⟨slot.tag, e⟩ :: after) := by
  simp [setPart, List.modify_eq_take_cons_drop]

/-! ## Paths -/

theorem partAt?_cons (hn : position? (slots.length + 1) i = .ok n) :
    (Expr.call head slots).partAt? (i :: path) =
      (part? head slots n).bind fun part => part.partAt? path := by
  rw [partAt?, hn]

theorem replaceAt_cons (hn : position? (slots.length + 1) i = .ok n)
    (hpart : part? head slots n = some part) :
    (Expr.call head slots).replaceAt (i :: path) new =
      setPart head slots n (part.replaceAt path new) := by
  rw [replaceAt, hn]
  simp only [hpart, Option.getD_some]

theorem partAt?_of_cons (h : e.partAt? (i :: path) = some part) :
    ∃ head slots n inner, e = .call head slots ∧ position? (slots.length + 1) i = .ok n ∧
      part? head slots n = some inner ∧ inner.partAt? path = some part := by
  cases e with
  | call head slots =>
      unfold partAt? at h
      split at h
      next n hn =>
        obtain ⟨inner, hinner, hpart⟩ := Option.bind_eq_some_iff.mp h
        exact ⟨head, slots, n, inner, rfl, hn, hinner, hpart⟩
      next => cases h
  | _ => cases h

theorem partAt?_append {rest : List Int} (h : e.partAt? path = some part) :
    e.partAt? (path ++ rest) = part.partAt? rest := by
  induction path generalizing e with
  | nil => cases h; rfl
  | cons i path ih =>
      obtain ⟨head, slots, n, inner, rfl, hn, hinner, hpart⟩ := partAt?_of_cons h
      rw [List.cons_append, partAt?_cons hn, hinner, Option.bind_some, ih hpart]

/-- A part that is not the whole is at a position of a call that is itself a part. -/
theorem exists_call_of_partAt? (h : e.partAt? (path ++ [i]) = some part) :
    ∃ head slots n, e.partAt? path = some (.call head slots) ∧
      position? (slots.length + 1) i = .ok n ∧ part? head slots n = some part := by
  induction path generalizing e with
  | nil =>
      obtain ⟨head, slots, n, inner, rfl, hn, hinner, hpart⟩ := partAt?_of_cons h
      cases hpart
      exact ⟨head, slots, n, rfl, hn, hinner⟩
  | cons j path ih =>
      obtain ⟨head, slots, n, inner, rfl, hn, hinner, hpart⟩ := partAt?_of_cons h
      obtain ⟨head', slots', n', hcall, hrest⟩ := ih hpart
      refine ⟨head', slots', n', ?_, hrest⟩
      rw [partAt?_cons hn, hinner, Option.bind_some, hcall]

theorem replaceAt_concat (hcall : e.partAt? path = some (.call head slots))
    (hn : position? (slots.length + 1) i = .ok n) (hpart : part? head slots n = some part) :
    e.replaceAt (path ++ [i]) new = e.replaceAt path (setPart head slots n new) := by
  induction path generalizing e with
  | nil => cases hcall; exact replaceAt_cons hn hpart
  | cons j path ih =>
      obtain ⟨head', slots', n', inner, rfl, hn', hinner, hrest⟩ := partAt?_of_cons hcall
      rw [List.cons_append, replaceAt_cons hn' hinner, replaceAt_cons hn' hinner, ih hrest]

theorem not_isNameSlot_nil (name : String) : ¬ e.IsNameSlot [] name := by
  rintro ⟨above, i, -, -, hpath, -⟩
  exact List.append_ne_nil_of_right_ne_nil above (List.cons_ne_nil i []) hpath.symm

theorem isNameSlot_concat_iff (hcall : e.partAt? path = some (.call head slots))
    (hn : position? (slots.length + 1) i = .ok n) (name : String) :
    e.IsNameSlot (path ++ [i]) name ↔ n = 2 ∧ head.memberHead? = some name := by
  constructor
  · rintro ⟨above, j, head', slots', hpath, hcall', hn', hmember⟩
    obtain ⟨rfl, hij⟩ := List.append_inj' hpath rfl
    cases hij
    cases hcall.symm.trans hcall'
    cases hn.symm.trans hn'
    exact ⟨rfl, hmember⟩
  · rintro ⟨rfl, hmember⟩
    exact ⟨path, i, head, slots, rfl, hcall, hn, hmember⟩

theorem setPart_eq_call (head new : Expr) (hn : position? (slots.length + 1) i = .ok n) :
    ∃ head' slots', setPart head slots n new = .call head' slots' ∧
      slots'.length = slots.length ∧ part? head' slots' n = some new := by
  have hpart := part?_setPart head slots n new (lt_of_position? hn)
  cases n with
  | zero => exact ⟨new, slots, rfl, rfl, hpart⟩
  | succ n => exact ⟨head, _, rfl, List.length_modify .., hpart⟩

/-- What is put at a path is found there as it is. -/
theorem partAt?_replaceAt (h : e.partAt? path = some part) :
    (e.replaceAt path new).partAt? path = some new := by
  induction path generalizing e with
  | nil => rfl
  | cons i path ih =>
      obtain ⟨head, slots, n, inner, rfl, hn, hinner, hrest⟩ := partAt?_of_cons h
      obtain ⟨head', slots', hset, hlength, hpart⟩ :=
        setPart_eq_call head (inner.replaceAt path new) hn
      rw [replaceAt_cons hn hinner, hset, partAt?_cons (by rw [hlength, hn]), hpart,
        Option.bind_some, ih hrest]

/-! ## Counting -/

theorem injectionCount_call_of_part? (h : part? head slots n = some part) :
    part.injectionCount + (Expr.call head slots).injection?.toList.length ≤
      (Expr.call head slots).injectionCount := by
  rw [injectionCount]
  cases n with
  | zero =>
      cases h
      omega
  | succ n =>
      obtain ⟨before, tag, after, rfl, -⟩ := exists_slot_of_part? h
      rw [slotInjectionCount_append, slotInjectionCount]
      omega

theorem injectionCount_of_partAt? (h : e.partAt? path = some part) :
    part.injectionCount ≤ e.injectionCount := by
  induction path generalizing e with
  | nil => cases h; exact Nat.le_refl _
  | cons i path ih =>
      obtain ⟨head, slots, n, inner, rfl, -, hinner, hpart⟩ := partAt?_of_cons h
      have := injectionCount_call_of_part? hinner
      have := ih hpart
      omega

theorem injection?_eq_none_of_count (h : e.injectionCount = 0) : e.injection? = none := by
  cases e with
  | call head slots =>
      rw [injectionCount] at h
      cases hcall : (Expr.call head slots).injection? with
      | none => rfl
      | some injection => simp [hcall] at h
  | _ => rfl

/-- A call is no injection if one of its parts holds all injections that it contains. -/
theorem injection?_eq_none_of_part? (hpart : part? head slots n = some part)
    (hcount : (Expr.call head slots).injectionCount ≤ part.injectionCount) :
    (Expr.call head slots).injection? = none := by
  have hle := injectionCount_call_of_part? hpart
  cases hcall : (Expr.call head slots).injection? with
  | none => rfl
  | some injection =>
      rw [hcall, Option.toList_some, List.length_singleton] at hle
      omega

theorem injection?_eq_none_of_partAt? (h : e.partAt? path = some part)
    (hcount : e.injectionCount = part.injectionCount) (hpart : part.injection? = none) :
    e.injection? = none := by
  cases path with
  | nil => cases h; exact hpart
  | cons i path =>
      obtain ⟨head, slots, n, inner, rfl, -, hinner, hrest⟩ := partAt?_of_cons h
      have := injectionCount_of_partAt? hrest
      exact injection?_eq_none_of_part? hinner (by omega)

theorem injectsName_of_part? (hpart : part? head slots n = some part)
    (h : (Expr.call head slots).injectsName = false) : part.injectsName = false := by
  rw [injectsName, Bool.or_eq_false_iff] at h
  cases n with
  | zero => cases hpart; exact h.1
  | succ n =>
      obtain ⟨before, tag, after, rfl, -⟩ := exists_slot_of_part? hpart
      rw [anyNameInjection_append, anyNameInjection] at h
      simp only [Bool.or_eq_false_iff] at h
      exact h.2.2.1.2

theorem injectsName_of_partAt? (hpart : e.partAt? path = some part)
    (h : e.injectsName = false) : part.injectsName = false := by
  induction path generalizing e with
  | nil => cases hpart; exact h
  | cons i path ih =>
      obtain ⟨head, slots, n, inner, rfl, -, hinner, hrest⟩ := partAt?_of_cons hpart
      exact ih hrest (injectsName_of_part? hinner h)

theorem injectionCount_pos {injection : Injection} (h : e.injection? = some injection) :
    0 < e.injectionCount := by
  apply Nat.pos_of_ne_zero
  intro hzero
  rw [injection?_eq_none_of_count hzero] at h
  cases h

end Expr

/-! ## Edits -/

namespace Template

open Quasi.Expr

variable {e head : Expr} {slots : List Slot} {i : Int} {path : List Int} {n : Nat} {v : Value}

/-- An edit changes the call that holds the position and puts the new call in its place. -/
theorem edit_eq (change : Expr → List Slot → Nat → Except Cause Expr) {j : Int} {rest : List Int}
    (hpath : path ++ [i] = j :: rest) (hcall : e.partAt? path = some (.call head slots))
    (hn : position? (slots.length + 1) i = .ok n) :
    edit change e j rest = (e.replaceAt path ·) <$> change head slots n := by
  induction path generalizing e j rest with
  | nil =>
      cases hpath
      cases hcall
      rw [edit, hn]
      simp only [replaceAt, id_map']
  | cons k path ih =>
      cases hpath
      obtain ⟨head', slots', n', inner, rfl, hn', hinner, hrest⟩ := partAt?_of_cons hcall
      obtain ⟨next, last, hnext⟩ : ∃ next last, path ++ [i] = next :: last :=
        List.exists_cons_of_ne_nil (by simp)
      have hinside := ih hnext hrest
      rw [← List.append_eq] at hnext
      rw [hnext, edit, hn']
      simp only [hinner, Option.getD_some, hinside]
      cases change head slots n with
      | error cause => rfl
      | ok new => exact congrArg Except.ok (replaceAt_cons hn' hinner).symm

theorem unquote_concat (hcall : e.partAt? path = some (.call head slots))
    (hn : position? (slots.length + 1) i = .ok n) :
    unquote e (path ++ [i]) v = (do
      checkMemberSlot head n
      .ok (e.replaceAt path (setPart head slots n v.toExpr))) := by
  obtain ⟨j, rest, hpath⟩ : ∃ j rest, path ++ [i] = j :: rest :=
    List.exists_cons_of_ne_nil (by simp)
  rw [hpath, unquote, edit_eq _ hpath hcall hn]
  cases checkMemberSlot head n <;> rfl

theorem unquoteSplice_concat {items : List Slot} (hitems : v.spliceItems = .ok items)
    (hcall : e.partAt? path = some (.call head slots))
    (hn : position? (slots.length + 1) i = .ok (n + 1)) :
    unquoteSplice e (path ++ [i]) v = (do
      checkMemberSlot head (n + 1)
      .ok (e.replaceAt path (.call head (slots.take n ++ items ++ slots.drop (n + 1))))) := by
  obtain ⟨j, rest, hpath⟩ : ∃ j rest, path ++ [i] = j :: rest :=
    List.exists_cons_of_ne_nil (by simp)
  rw [hpath, unquoteSplice, hitems]
  simp only [edit_eq _ hpath hcall hn]
  cases checkMemberSlot head (n + 1) <;> rfl

theorem checkMemberSlot_eq_ok (h : ∀ name, ¬ (n = 2 ∧ head.memberHead? = some name)) :
    checkMemberSlot head n = .ok () := by
  unfold checkMemberSlot
  split
  next name hname => exact if_neg fun hn => h name ⟨hn, hname⟩
  next => rfl

end Template

end Quasi
