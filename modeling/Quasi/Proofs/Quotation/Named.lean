import Quasi.Machine.Eval
import Quasi.Proofs.Quotation.Part

/-!
# Templates that inject nothing but names

A template without injection operators may still name its arguments by `:=`. Building it evaluates
nothing: it gives the tree with the names in place, or fails at a name that is none. Each name that
is put in place makes the tree smaller, so the tree is another one unless there are no such names.
-/

namespace Quasi

namespace Expr

/-- The name that the left side of an injected argument name gives without any evaluation. -/
def givenName : Expr → Except TemplateFault String
  | .symbol name => .ok name
  | .const (.code (.symbol name)) => .ok name
  | .const (.str text) => .ok text
  | _ => .error .badName

theorem givenName_error {lhs : Expr} {fault : TemplateFault} (h : lhs.givenName = .error fault) :
    fault = .badName := by
  unfold givenName at h
  split at h <;> cases h
  rfl

mutual

/-- An expression without injection operators, with injected names in their places. -/
def named : Expr → Except TemplateFault Expr
  | .call head slots => do
      let head' ← named head
      pure (.call head' (← namedSlots slots))
  | .formals items => do pure (.formals (← namedFormals items))
  | e => pure e
termination_by structural e => e

def namedSlots : List (Tagged Expr) → Except TemplateFault (List (Tagged Expr))
  | [] => pure []
  | ⟨tag, e⟩ :: rest => do
      let slot ← match tag, e.nameAssign? with
        | none, some (lhs, _) => do
            let name ← givenName lhs
            pure ⟨some name, ← namedAssigned e⟩
        | tag, _ => do pure ⟨tag, ← named e⟩
      pure (slot :: (← namedSlots rest))
termination_by structural slots => slots

/-- The right side of an injected name. -/
def namedAssigned : Expr → Except TemplateFault Expr
  | .call _ [_, ⟨_, rhs⟩] => named rhs
  | e => pure e
termination_by structural e => e

def namedFormals : List (String × Expr) → Except TemplateFault (List (String × Expr))
  | [] => pure []
  | (name, e) :: rest => do
      let e' ← named e
      pure ((name, e') :: (← namedFormals rest))
termination_by structural items => items

end

/-! ## Injection operators -/

theorem eq_of_nameAssign? {e lhs rhs : Expr} (h : e.nameAssign? = some (lhs, rhs)) :
    ∃ tag₁ tag₂, e = .call (.symbol nameAssignName) [⟨tag₁, lhs⟩, ⟨tag₂, rhs⟩] := by
  unfold nameAssign? at h
  split at h
  · obtain ⟨hname, h⟩ := Option.ite_none_right_eq_some.mp h
    obtain ⟨rfl, rfl⟩ := Prod.mk.inj (Option.some.inj h)
    exact ⟨_, _, by rw [hname]⟩
  · cases h

mutual

/-- Nothing is injected exactly if there are no injections to count. -/
theorem containsInjection_eq_false_iff (e : Expr) :
    e.containsInjection = false ↔ e.injectionCount = 0 := by
  cases e with
  | call head slots =>
      have hhead := containsInjection_eq_false_iff head
      have hslots := anyInjection_eq_false_iff slots
      rw [containsInjection, injectionCount, Bool.or_eq_false_iff, Bool.or_eq_false_iff, hhead,
        hslots]
      cases (Expr.call head slots).injection? <;> simp
  | formals items => exact anyFormalInjection_eq_false_iff items
  | const v => simp [containsInjection, injectionCount]
  | symbol name => simp [containsInjection, injectionCount]
  | missing => simp [containsInjection, injectionCount]
termination_by structural e

theorem anyInjection_eq_false_iff (slots : List Slot) :
    anyInjection slots = false ↔ slotInjectionCount slots = 0 := by
  cases slots with
  | nil => simp [anyInjection, slotInjectionCount]
  | cons slot rest =>
      obtain ⟨tag, e⟩ := slot
      have he := containsInjection_eq_false_iff e
      have hrest := anyInjection_eq_false_iff rest
      rw [anyInjection, slotInjectionCount, Bool.or_eq_false_iff, he, hrest]
      omega
termination_by structural slots

theorem anyFormalInjection_eq_false_iff (items : List Formal) :
    anyFormalInjection items = false ↔ formalInjectionCount items = 0 := by
  cases items with
  | nil => simp [anyFormalInjection, formalInjectionCount]
  | cons item rest =>
      obtain ⟨name, e⟩ := item
      have he := containsInjection_eq_false_iff e
      have hrest := anyFormalInjection_eq_false_iff rest
      rw [anyFormalInjection, formalInjectionCount, Bool.or_eq_false_iff, he, hrest]
      omega
termination_by structural items

end

/-! ## Trees without injected names -/

/-- A slot that is given no name is looked into where it stands. -/
theorem namedSlots_cons {tag : Option String} {e : Expr}
    (hname : (tag.isNone && e.nameAssign?.isSome) = false) (rest : List Slot) :
    namedSlots (⟨tag, e⟩ :: rest) = (do
      let e' ← e.named
      let rest' ← namedSlots rest
      pure (⟨tag, e'⟩ :: rest')) := by
  rw [namedSlots]
  · simp only [pure_bind]
  · rintro lhs rhs rfl h
    simp [h] at hname

theorem namedSlots_assign {e lhs rhs : Expr} (h : e.nameAssign? = some (lhs, rhs))
    (rest : List Slot) :
    namedSlots (⟨none, e⟩ :: rest) = (do
      let name ← lhs.givenName
      let e' ← namedAssigned e
      let rest' ← namedSlots rest
      pure (⟨some name, e'⟩ :: rest')) := by
  conv => lhs; unfold namedSlots
  simp only [h, pure_bind]

mutual

theorem named_of_no_names (e : Expr) (h : e.injectsName = false) : e.named = .ok e := by
  cases e with
  | call head slots =>
      rw [injectsName, Bool.or_eq_false_iff] at h
      rw [named, named_of_no_names head h.1, namedSlots_of_no_names slots h.2]
      rfl
  | formals items =>
      rw [named, namedFormals_of_no_names items h]
      rfl
  | const v => rfl
  | symbol name => rfl
  | missing => rfl
termination_by structural e

theorem namedSlots_of_no_names (slots : List Slot) (h : anyNameInjection slots = false) :
    namedSlots slots = .ok slots := by
  cases slots with
  | nil => rfl
  | cons slot rest =>
      obtain ⟨tag, e⟩ := slot
      rw [anyNameInjection, Bool.or_eq_false_iff, Bool.or_eq_false_iff] at h
      rw [namedSlots_cons h.1.1, named_of_no_names e h.1.2, namedSlots_of_no_names rest h.2]
      rfl
termination_by structural slots

theorem namedFormals_of_no_names (items : List Formal)
    (h : anyFormalNameInjection items = false) : namedFormals items = .ok items := by
  cases items with
  | nil => rfl
  | cons item rest =>
      obtain ⟨name, e⟩ := item
      rw [anyFormalNameInjection, Bool.or_eq_false_iff] at h
      rw [namedFormals, named_of_no_names e h.1, namedFormals_of_no_names rest h.2]
      rfl
termination_by structural items

end

/-! ## Names that are none -/

theorem eq_of_bind_eq_error {ε α β : Type} {r : Except ε α} {f : α → Except ε β} {fault fault' : ε}
    (h : (r >>= f) = .error fault) (hr : ∀ fault, r = .error fault → fault = fault')
    (hf : ∀ a fault, f a = .error fault → fault = fault') : fault = fault' := by
  cases r with
  | error first =>
      cases h
      exact hr fault rfl
  | ok a => exact hf a fault h

mutual

/-- The only fault of putting names in place is a name that is none. -/
theorem named_error (e : Expr) {fault : TemplateFault} (h : e.named = .error fault) :
    fault = .badName := by
  cases e with
  | call head slots =>
      rw [named] at h
      refine eq_of_bind_eq_error h (fun _ => named_error head) fun head' _ h => ?_
      exact eq_of_bind_eq_error h (fun _ => namedSlots_error slots) nofun
  | formals items =>
      rw [named] at h
      exact eq_of_bind_eq_error h (fun _ => namedFormals_error items) nofun
  | const v => cases h
  | symbol name => cases h
  | missing => cases h
termination_by structural e

theorem namedSlots_error (slots : List Slot) {fault : TemplateFault}
    (h : namedSlots slots = .error fault) : fault = .badName := by
  cases slots with
  | nil => cases h
  | cons slot rest =>
      obtain ⟨tag, e⟩ := slot
      by_cases hname : (tag.isNone && e.nameAssign?.isSome) = true
      · obtain ⟨htag, hsome⟩ := (Bool.and_eq_true _ _).mp hname
        obtain rfl : tag = none := Option.isNone_iff_eq_none.mp htag
        obtain ⟨⟨lhs, rhs⟩, hassign⟩ := Option.isSome_iff_exists.mp hsome
        rw [namedSlots_assign hassign] at h
        refine eq_of_bind_eq_error h (fun _ => givenName_error) fun name _ h => ?_
        refine eq_of_bind_eq_error h (fun _ => namedAssigned_error e) fun e' _ h => ?_
        exact eq_of_bind_eq_error h (fun _ => namedSlots_error rest) nofun
      · rw [namedSlots_cons (Bool.not_eq_true _ |>.mp hname)] at h
        refine eq_of_bind_eq_error h (fun _ => named_error e) fun e' _ h => ?_
        exact eq_of_bind_eq_error h (fun _ => namedSlots_error rest) nofun
termination_by structural slots

theorem namedAssigned_error (e : Expr) {fault : TemplateFault}
    (h : namedAssigned e = .error fault) : fault = .badName := by
  match e with
  | .call head [first, ⟨tag, rhs⟩] => exact named_error rhs h
  | .call head [] | .call head [_] | .call head (_ :: _ :: _ :: _) => cases h
  | .const v | .symbol name | .formals items | .missing => cases h
termination_by structural e

theorem namedFormals_error (items : List Formal) {fault : TemplateFault}
    (h : namedFormals items = .error fault) : fault = .badName := by
  cases items with
  | nil => cases h
  | cons item rest =>
      obtain ⟨name, e⟩ := item
      rw [namedFormals] at h
      refine eq_of_bind_eq_error h (fun _ => named_error e) fun e' _ h => ?_
      exact eq_of_bind_eq_error h (fun _ => namedFormals_error rest) nofun
termination_by structural items

end

/-! ## Names in place make trees smaller -/

mutual

/-- How many parts an expression has, itself among them. -/
def partCount : Expr → Nat
  | .call head slots => 1 + head.partCount + slotPartCount slots
  | .formals items => 1 + formalPartCount items
  | _ => 1

def slotPartCount : List (Tagged Expr) → Nat
  | [] => 0
  | ⟨_, e⟩ :: rest => e.partCount + slotPartCount rest

def formalPartCount : List (String × Expr) → Nat
  | [] => 0
  | (_, e) :: rest => e.partCount + formalPartCount rest

end

theorem exists_of_bind_eq_ok {ε α β : Type} {r : Except ε α} {f : α → Except ε β} {b : β}
    (h : (r >>= f) = .ok b) : ∃ a, r = .ok a ∧ f a = .ok b := by
  cases r with
  | error fault => cases h
  | ok a => exact ⟨a, rfl, h⟩

mutual

/-- Putting names in place makes a tree no larger, and smaller if there are names to put. -/
theorem partCount_named (e : Expr) {e' : Expr} (h : e.named = .ok e') :
    e'.partCount ≤ e.partCount ∧ (e.injectsName = true → e'.partCount < e.partCount) := by
  cases e with
  | call head slots =>
      rw [named] at h
      obtain ⟨head', hhead, h⟩ := exists_of_bind_eq_ok h
      obtain ⟨slots', hslots, h⟩ := exists_of_bind_eq_ok h
      cases h
      obtain ⟨hle, hlt⟩ := partCount_named head hhead
      obtain ⟨hle', hlt'⟩ := slotPartCount_named slots hslots
      rw [partCount, partCount, injectsName, Bool.or_eq_true]
      refine ⟨by omega, ?_⟩
      rintro (hnames | hnames)
      · have := hlt hnames
        omega
      · have := hlt' hnames
        omega
  | formals items =>
      rw [named] at h
      obtain ⟨items', hitems, h⟩ := exists_of_bind_eq_ok h
      cases h
      obtain ⟨hle, hlt⟩ := formalPartCount_named items hitems
      rw [partCount, partCount, injectsName]
      refine ⟨by omega, fun hnames => ?_⟩
      have := hlt hnames
      omega
  | const v => cases h; simp [injectsName]
  | symbol name => cases h; simp [injectsName]
  | missing => cases h; simp [injectsName]
termination_by structural e

theorem slotPartCount_named (slots : List Slot) {slots' : List Slot}
    (h : namedSlots slots = .ok slots') :
    slotPartCount slots' ≤ slotPartCount slots ∧
      (anyNameInjection slots = true → slotPartCount slots' < slotPartCount slots) := by
  cases slots with
  | nil =>
      cases h
      simp [anyNameInjection]
  | cons slot rest =>
      obtain ⟨tag, e⟩ := slot
      rw [anyNameInjection, Bool.or_eq_true, Bool.or_eq_true]
      by_cases hname : (tag.isNone && e.nameAssign?.isSome) = true
      · obtain ⟨htag, hsome⟩ := (Bool.and_eq_true _ _).mp hname
        obtain rfl : tag = none := Option.isNone_iff_eq_none.mp htag
        obtain ⟨⟨lhs, rhs⟩, hassign⟩ := Option.isSome_iff_exists.mp hsome
        rw [namedSlots_assign hassign] at h
        obtain ⟨name, -, h⟩ := exists_of_bind_eq_ok h
        obtain ⟨e', he, h⟩ := exists_of_bind_eq_ok h
        obtain ⟨rest', hrest, h⟩ := exists_of_bind_eq_ok h
        cases h
        have hlt := partCount_namedAssigned e he hsome
        have hle := (slotPartCount_named rest hrest).1
        rw [slotPartCount, slotPartCount]
        exact ⟨by omega, fun _ => by omega⟩
      · rw [namedSlots_cons (Bool.not_eq_true _ |>.mp hname)] at h
        obtain ⟨e', he, h⟩ := exists_of_bind_eq_ok h
        obtain ⟨rest', hrest, h⟩ := exists_of_bind_eq_ok h
        cases h
        obtain ⟨hle, hlt⟩ := partCount_named e he
        obtain ⟨hle', hlt'⟩ := slotPartCount_named rest hrest
        rw [slotPartCount, slotPartCount]
        refine ⟨by omega, ?_⟩
        rintro ((hnames | hnames) | hnames)
        · exact absurd hnames hname
        · have := hlt hnames
          omega
        · have := hlt' hnames
          omega
termination_by structural slots

/-- The right side of an injected name is smaller than the whole. -/
theorem partCount_namedAssigned (e : Expr) {e' : Expr} (h : namedAssigned e = .ok e')
    (hassign : e.nameAssign?.isSome = true) : e'.partCount < e.partCount := by
  match e with
  | .call head [first, ⟨tag, rhs⟩] =>
      have hle := (partCount_named rhs h).1
      simp only [partCount, slotPartCount]
      omega
  | .call head [] | .call head [_] | .call head (_ :: _ :: _ :: _) =>
      cases head <;> cases hassign
  | .const v | .symbol name | .formals items | .missing => cases hassign
termination_by structural e

theorem formalPartCount_named (items : List Formal) {items' : List Formal}
    (h : namedFormals items = .ok items') :
    formalPartCount items' ≤ formalPartCount items ∧
      (anyFormalNameInjection items = true → formalPartCount items' < formalPartCount items) := by
  cases items with
  | nil =>
      cases h
      simp [anyFormalNameInjection]
  | cons item rest =>
      obtain ⟨name, e⟩ := item
      rw [namedFormals] at h
      obtain ⟨e', he, h⟩ := exists_of_bind_eq_ok h
      obtain ⟨rest', hrest, h⟩ := exists_of_bind_eq_ok h
      cases h
      obtain ⟨hle, hlt⟩ := partCount_named e he
      obtain ⟨hle', hlt'⟩ := formalPartCount_named rest hrest
      rw [formalPartCount, formalPartCount, anyFormalNameInjection, Bool.or_eq_true]
      refine ⟨by omega, ?_⟩
      rintro (hnames | hnames)
      · have := hlt hnames
        omega
      · have := hlt' hnames
        omega
termination_by structural items

end

/-- Putting names in place gives another tree, unless there are no names to put. -/
theorem named_ne {e e' : Expr} (h : e.named = .ok e') (hnames : e.injectsName = true) :
    e' ≠ e := by
  rintro rfl
  exact Nat.lt_irrefl _ ((partCount_named e' h).2 hnames)

end Expr

open Quasi.Expr

/-! ## Building the tree -/

namespace Run

variable {ε α β : Type} {toCause : ε → Cause}

theorem orFail_bind (r : Except ε α) (f : α → Except ε β) :
    orFail toCause (r >>= f) = (do let a ← orFail toCause r; orFail toCause (f a)) := by
  cases r with
  | error fault => rfl
  | ok a => exact (pure_bind a fun a => orFail toCause (f a)).symm

@[simp] theorem orFail_pure (a : α) : orFail toCause (pure a) = pure a := rfl

end Run

namespace Machine

variable {m : Machine} {ctx : EvaluatorId} {env : EnvId} {head e : Expr} {tag : Option String}
  {rest slots : List Slot}

/-- A slot that is neither spliced nor given a name is expanded where it stands. -/
theorem expandSlots_cons (hsplice : ∀ operand, e.injection? ≠ some (.splice operand))
    (hname : (tag.isNone && e.nameAssign?.isSome) = false) :
    expandSlots m ctx env head (⟨tag, e⟩ :: rest) = (do
      let e' ← expandTemplate m ctx env e
      let rest' ← expandSlots m ctx env head rest
      pure (⟨tag, e'⟩ :: rest')) := by
  rw [expandSlots]
  · simp only [pure_bind, List.singleton_append]
  · exact fun operand _ h _ => hsplice operand h
  · exact fun operand h _ => hsplice operand h
  · rintro lhs rhs rfl h
    simp [h] at hname

/-- A slot that is given a name is expanded to the right side of the injection. -/
theorem expandSlots_assign {lhs rhs : Expr} (hname : e.nameAssign? = some (lhs, rhs)) :
    expandSlots m ctx env head (⟨none, e⟩ :: rest) = (do
      let name ← injectedName m ctx lhs env
      let e' ← expandAssigned m ctx env e
      let rest' ← expandSlots m ctx env head rest
      pure (⟨some name, e'⟩ :: rest')) := by
  have hnone : e.injection? = none := by
    obtain ⟨tag₁, tag₂, rfl⟩ := eq_of_nameAssign? hname
    rfl
  conv => lhs; unfold expandSlots
  simp only [hnone, hname, pure_bind, List.singleton_append]

/-- A call passes if nothing is injected into its bare name and its head is not spliced. -/
theorem checkCall_eq_pure (hhead : ∀ operand, head.injection? ≠ some (.splice operand))
    (hname : ∀ name slot, head.memberHead? = some name → slots[1]? = some slot →
      slot.item.injection? = none) :
    checkCall head slots = pure () := by
  unfold checkCall
  extract_lets checkHead
  have hcheck : checkHead () = pure () := by
    unfold checkHead
    split
    next operand h => exact absurd h (hhead operand)
    next => rfl
  split
  next name _ second _ hmember =>
    rw [hname name second hmember rfl, Option.isSome_none, if_neg Bool.false_ne_true, hcheck]
  next => exact hcheck

/-- The name that is given without an evaluation. -/
theorem injectedName_given (lhs : Expr) (hcount : lhs.injectionCount = 0) :
    injectedName m ctx lhs env = Run.orFail .template lhs.givenName := by
  have hnone := injection?_eq_none_of_count hcount
  unfold injectedName
  simp only [hnone]
  cases lhs with
  | const v => cases v with
    | code e => cases e <;> rfl
    | _ => rfl
  | _ => rfl

section Named

variable (m ctx env)

mutual

/-- Where there are no injection operators building a template puts names in place. -/
theorem expandTemplate_named (e : Expr) (hcount : e.injectionCount = 0) :
    expandTemplate m ctx env e = Run.orFail .template e.named := by
  cases e with
  | call head slots =>
      have hcall := injection?_eq_none_of_count hcount
      rw [injectionCount] at hcount
      have hhead := injection?_eq_none_of_count (e := head) (by omega)
      have hslot (slot : Slot) (h : slots[1]? = some slot) : slot.item.injection? = none :=
        injection?_eq_none_of_count (by have := injectionCount_of_slot h; omega)
      have hcheck : checkCall head slots = pure () :=
        checkCall_eq_pure (by simp [hhead]) fun _ slot _ => hslot slot
      rw [expandTemplate, hcall]
      simp only [hcheck, pure_bind]
      rw [expandTemplate_named head (by omega), expandSlots_named head slots (by omega), named]
      simp only [Run.orFail_bind, Run.orFail_pure]
  | formals items =>
      rw [expandTemplate, expandFormals_named items hcount, named]
      simp only [Run.orFail_bind, Run.orFail_pure]
  | const v => rfl
  | symbol name => rfl
  | missing => rfl
termination_by structural e

theorem expandSlots_named (head : Expr) (slots : List Slot)
    (hcount : slotInjectionCount slots = 0) :
    expandSlots m ctx env head slots = Run.orFail .template (namedSlots slots) := by
  cases slots with
  | nil => rfl
  | cons slot rest =>
      obtain ⟨tag, e⟩ := slot
      rw [slotInjectionCount, Nat.add_eq_zero_iff] at hcount
      have he := injection?_eq_none_of_count hcount.1
      have hrest := expandSlots_named head rest hcount.2
      by_cases hname : (tag.isNone && e.nameAssign?.isSome) = true
      · obtain ⟨htag, hsome⟩ := (Bool.and_eq_true _ _).mp hname
        obtain rfl : tag = none := Option.isNone_iff_eq_none.mp htag
        obtain ⟨⟨lhs, rhs⟩, hassign⟩ := Option.isSome_iff_exists.mp hsome
        have hassigned := expandAssigned_named e hcount.1
        have hlhs : lhs.injectionCount = 0 := by
          obtain ⟨tag₁, tag₂, rfl⟩ := eq_of_nameAssign? hassign
          simp only [injectionCount, slotInjectionCount] at hcount
          omega
        rw [expandSlots_assign hassign, namedSlots_assign hassign, hassigned, hrest,
          injectedName_given lhs hlhs]
        simp only [Run.orFail_bind, Run.orFail_pure]
      · have hplain := Bool.not_eq_true _ |>.mp hname
        rw [expandSlots_cons (by simp [he]) hplain, namedSlots_cons hplain,
          expandTemplate_named e hcount.1, hrest]
        simp only [Run.orFail_bind, Run.orFail_pure]
termination_by structural slots

theorem expandAssigned_named (e : Expr) (hcount : e.injectionCount = 0) :
    expandAssigned m ctx env e = Run.orFail .template (namedAssigned e) := by
  match e with
  | .call head [first, ⟨tag, rhs⟩] =>
      simp only [injectionCount, slotInjectionCount] at hcount
      exact expandTemplate_named rhs (by omega)
  | .call head [] | .call head [_] | .call head (_ :: _ :: _ :: _) => rfl
  | .const v | .symbol name | .formals items | .missing => rfl
termination_by structural e

theorem expandFormals_named (items : List Formal) (hcount : formalInjectionCount items = 0) :
    expandFormals m ctx env items = Run.orFail .template (namedFormals items) := by
  cases items with
  | nil => rfl
  | cons item rest =>
      obtain ⟨name, e⟩ := item
      rw [formalInjectionCount, Nat.add_eq_zero_iff] at hcount
      rw [expandFormals, expandTemplate_named e hcount.1, expandFormals_named rest hcount.2,
        namedFormals]
      simp only [Run.orFail_bind, Run.orFail_pure]
termination_by structural items

end

end Named

end Machine

end Quasi
