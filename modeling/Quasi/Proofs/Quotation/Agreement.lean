import Mathlib.Data.List.Forall2
import Quasi.Proofs.Flow.Steps
import Quasi.Proofs.Quotation.Named

/-!
# Expanding a template and editing it

Where a template contains a single injection, building it anew and putting the injected value at
its position come to the same.
-/

namespace Quasi

namespace Machine

open Quasi.Expr

variable {m : Machine} {ctx : EvaluatorId} {env : EnvId} {head e : Expr} {tag : Option String}
  {rest slots : List Slot}

/-! ## Parts without injections -/

theorem checkCall_eq_fail {name : String} {slot : Slot} (hmember : head.memberHead? = some name)
    (hslot : slots[1]? = some slot) (hinjection : slot.item.injection?.isSome) :
    checkCall head slots = Run.fail (.template (.nameSlot name)) := by
  obtain ⟨first, rest, rfl⟩ : ∃ first rest, slots = first :: slot :: rest := by
    match slots, hslot with
    | first :: _ :: rest, rfl => exact ⟨first, rest, rfl⟩
  unfold checkCall
  simp only [hmember, if_pos hinjection]
  rfl

section Plain

variable (m ctx env)

/-- Where nothing is injected a template stands for itself. -/
theorem expandTemplate_plain (e : Expr) (hcount : e.injectionCount = 0)
    (hnames : e.injectsName = false) : expandTemplate m ctx env e = pure e := by
  rw [expandTemplate_named m ctx env e hcount, named_of_no_names e hnames]
  rfl

theorem expandSlots_plain (head : Expr) (slots : List Slot)
    (hcount : slotInjectionCount slots = 0)
    (hnames : anyNameInjection slots = false) : expandSlots m ctx env head slots = pure slots := by
  rw [expandSlots_named m ctx env head slots hcount, namedSlots_of_no_names slots hnames]
  rfl

end Plain

theorem expandSlots_append {before after : List Slot} (hcount : slotInjectionCount before = 0)
    (hnames : anyNameInjection before = false) :
    expandSlots m ctx env head (before ++ after) =
      (before ++ ·) <$> expandSlots m ctx env head after := by
  induction before with
  | nil => simp only [List.nil_append, id_map']
  | cons slot before ih =>
      obtain ⟨tag, e⟩ := slot
      rw [slotInjectionCount, Nat.add_eq_zero_iff] at hcount
      rw [anyNameInjection, Bool.or_eq_false_iff, Bool.or_eq_false_iff] at hnames
      have he := injection?_eq_none_of_count hcount.1
      rw [List.cons_append, expandSlots_cons (by simp [he]) hnames.1.1,
        expandTemplate_plain m ctx env e hcount.1 hnames.1.2, ih hcount.2 hnames.2]
      simp only [pure_bind, map_eq_pure_bind, bind_assoc, List.cons_append]

/-! ## The only part with injections -/

variable {part call : Expr} {n : Nat} {path : List Int}

/-- A call with injections in one slot only passes, unless that slot is a bare name. -/
theorem checkCall_around {before after : List Slot} (hhead : head.injectionCount = 0)
    (hbefore : slotInjectionCount before = 0) (hafter : slotInjectionCount after = 0)
    (hslot : before.length = 1 → head.memberHead? = none ∨ part.injection? = none) :
    checkCall head (before ++ ⟨tag, part⟩ :: after) = pure () := by
  have hinjection := injection?_eq_none_of_count hhead
  refine checkCall_eq_pure (by simp [hinjection]) fun name slot hname hsecond => ?_
  by_cases hone : before.length = 1
  · rw [List.getElem?_append_right (by omega), hone] at hsecond
    cases hsecond
    simpa [hname] using hslot hone
  · have := injectionCount_of_other hsecond (Ne.symm hone)
    exact injection?_eq_none_of_count (by omega)

/-- If one part of a call holds all injections, expanding the call is expanding that part. -/
theorem expandTemplate_setPart (hpart : part? head slots n = some part)
    (hcount : (Expr.call head slots).injectionCount = part.injectionCount)
    (hnames : (Expr.call head slots).injectsName = false)
    (hsplice : ∀ operand, part.injection? ≠ some (.splice operand))
    (hslot : n = 2 → head.memberHead? = none ∨ part.injection? = none) :
    expandTemplate m ctx env (.call head slots) =
      (setPart head slots n ·) <$> expandTemplate m ctx env part := by
  have hcall := injection?_eq_none_of_part? hpart (Nat.le_of_eq hcount)
  rw [injectionCount, hcall, Option.toList_none, List.length_nil] at hcount
  rw [injectsName, Bool.or_eq_false_iff] at hnames
  rw [expandTemplate, hcall]
  cases n with
  | zero =>
      cases hpart
      have hcheck : checkCall head slots = pure () := by
        refine checkCall_eq_pure hsplice fun name slot _ hslot => ?_
        have := injectionCount_of_slot hslot
        exact injection?_eq_none_of_count (by omega)
      have hslots := expandSlots_plain m ctx env head slots (by omega)
        hnames.2
      simp only [hcheck, hslots, pure_bind, map_eq_pure_bind, setPart]
  | succ n =>
      obtain ⟨before, tag, after, rfl, rfl⟩ := exists_slot_of_part? hpart
      rw [slotInjectionCount_append, slotInjectionCount] at hcount
      rw [anyNameInjection_append, anyNameInjection] at hnames
      simp only [Bool.or_eq_false_iff] at hnames
      obtain ⟨hhead, hbefore, ⟨htag, -⟩, hafter⟩ := hnames
      have hcheck : checkCall head (before ++ ⟨tag, part⟩ :: after) = pure () :=
        checkCall_around (by omega) (by omega) (by omega) fun h => hslot (congrArg (· + 1) h)
      have hhead := expandTemplate_plain m ctx env head (by omega) hhead
      have hafter := expandSlots_plain m ctx env head after (by omega)
        hafter
      rw [hcheck, hhead, expandSlots_append (by omega) hbefore, expandSlots_cons hsplice htag,
        hafter]
      simp only [pure_bind, map_eq_pure_bind, bind_assoc, setPart_slot]

/-- If a part that is no injection holds all injections, expanding the whole is expanding that
part. -/
theorem expandTemplate_replaceAt (hpart : e.partAt? path = some part)
    (hcount : e.injectionCount = part.injectionCount) (hinjection : part.injection? = none)
    (hnames : e.injectsName = false) :
    expandTemplate m ctx env e = (e.replaceAt path ·) <$> expandTemplate m ctx env part := by
  induction path generalizing e with
  | nil =>
      cases hpart
      simp only [replaceAt, id_map']
  | cons i path ih =>
      obtain ⟨head, slots, n, inner, rfl, hn, hinner, hrest⟩ := partAt?_of_cons hpart
      have hle := injectionCount_call_of_part? hinner
      have hge := injectionCount_of_partAt? hrest
      have hplain := injection?_eq_none_of_partAt? hrest (by omega) hinjection
      rw [expandTemplate_setPart hinner (by omega) hnames (by simp [hplain]) fun _ => .inr hplain,
        ih hrest (by omega) (injectsName_of_part? hinner hnames)]
      simp only [replaceAt_cons hn hinner, Functor.map_map]

/-! ## The injected value -/

variable {operand node : Expr} {name : String} {v : Value} {items : List Slot} {s s' : Store}

theorem expandTemplate_unquote (h : node.injection? = some (.unquote operand)) :
    expandTemplate m ctx env node = Value.toExpr <$> m.eval ctx operand env := by
  cases node with
  | call head slots => rw [expandTemplate, h, map_eq_pure_bind]
  | _ => cases h

theorem expandTemplate_nameSlot {slot : Slot} (hcall : (Expr.call head slots).injection? = none)
    (hmember : head.memberHead? = some name) (hslot : slots[1]? = some slot)
    (hinjection : slot.item.injection?.isSome) :
    expandTemplate m ctx env (.call head slots) = Run.fail (.template (.nameSlot name)) := by
  rw [expandTemplate, hcall]
  simp only [checkCall_eq_fail hmember hslot hinjection]
  rfl

/-- A slot, or the same slot with a NaN of its own for one that has no identity. -/
inductive Renewed : Slot → Slot → Prop
  | same (slot : Slot) : Renewed slot slot
  | nan (tag : Option String) (id : Nat) :
      Renewed ⟨tag, .const (.nan none)⟩ ⟨tag, .const (.nan (some id))⟩

theorem renewed_eq {items' : List Slot} (h : List.Forall₂ Renewed items items')
    (hnan : ∀ slot ∈ items, slot.item ≠ .const (.nan none)) : items' = items := by
  induction h with
  | nil => rfl
  | cons hslot _ ih =>
      rw [List.forall_mem_cons] at hnan
      cases hslot with
      | same slot => rw [ih hnan.2]
      | nan tag id => exact absurd rfl hnan.1

theorem mapM_renewed {f : Slot → Run Slot}
    (hf : ∀ slot s, ∃ slot' id, f slot s = .ok slot' { s with nextId := id } ∧
      Renewed slot slot') (items : List Slot) (s : Store) :
    ∃ items' id, items.mapM f s = .ok items' { s with nextId := id } ∧
      List.Forall₂ Renewed items items' := by
  induction items generalizing s with
  | nil => exact ⟨[], s.nextId, rfl, .nil⟩
  | cons slot items ih =>
      obtain ⟨slot', id, hslot, hrenewed⟩ := hf slot s
      obtain ⟨items', id', hitems, hrest⟩ := ih { s with nextId := id }
      refine ⟨slot' :: items', id', ?_, .cons hrenewed hrest⟩
      rw [List.mapM_cons, Run.bind_of_ok hslot, Run.bind_of_ok hitems]
      rfl

/-- Splicing gives the items of a value and takes nothing but identities from the store. -/
theorem splicedItems_apply (h : v.spliceItems = .ok items) (s : Store) :
    ∃ items' id, splicedItems v s = .ok items' { s with nextId := id } ∧
      List.Forall₂ Renewed items items' := by
  unfold splicedItems
  rw [h]
  refine mapM_renewed (fun slot s => ?_) items s
  obtain ⟨tag, item⟩ := slot
  dsimp only
  split
  next =>
    exact ⟨_, s.nextId + 1, rfl, .nan tag s.nextId⟩
  next => exact ⟨_, s.nextId, rfl, .same _⟩

theorem expandSlots_splice (hnode : node.injection? = some (.splice operand)) :
    expandSlots m ctx env head (⟨none, node⟩ :: rest) = (do
      let items ← splicedItems (← m.eval ctx operand env)
      Run.trace fun _ => s!"spliced {items.length} argument(s) into " ++ head.plain
      let rest' ← expandSlots m ctx env head rest
      pure (items ++ rest')) := by
  conv_lhs => unfold expandSlots
  simp only [hnode, pure_bind]

/-- Splicing into an argument list puts the items between the slots before and after it. -/
theorem expandTemplate_spliced {before after : List Slot}
    (hnode : node.injection? = some (.splice operand))
    (hcount : (Expr.call head (before ++ ⟨none, node⟩ :: after)).injectionCount =
      node.injectionCount)
    (hnames : (Expr.call head (before ++ ⟨none, node⟩ :: after)).injectsName = false)
    (hslot : before.length = 1 → head.memberHead? = none) :
    expandTemplate m ctx env (.call head (before ++ ⟨none, node⟩ :: after)) = (do
      let items ← splicedItems (← m.eval ctx operand env)
      Run.trace fun _ => s!"spliced {items.length} argument(s) into " ++ head.plain
      pure (.call head (before ++ items ++ after))) := by
  have hpart : part? head (before ++ ⟨none, node⟩ :: after) (before.length + 1) = some node := by
    simp [part?]
  have hcall := injection?_eq_none_of_part? hpart (Nat.le_of_eq hcount)
  rw [injectionCount, hcall, Option.toList_none, List.length_nil, slotInjectionCount_append,
    slotInjectionCount] at hcount
  rw [injectsName, Bool.or_eq_false_iff, anyNameInjection_append, anyNameInjection] at hnames
  simp only [Bool.or_eq_false_iff] at hnames
  obtain ⟨hhead, hbefore, -, hafter⟩ := hnames
  have hcheck : checkCall head (before ++ ⟨none, node⟩ :: after) = pure () :=
    checkCall_around (by omega) (by omega) (by omega) fun h => .inl (hslot h)
  have hhead := expandTemplate_plain m ctx env head (by omega) hhead
  have hafter := expandSlots_plain m ctx env head after (by omega)
    hafter
  rw [expandTemplate, hcall]
  simp only [hcheck, hhead, pure_bind]
  rw [expandSlots_append (by omega) hbefore, expandSlots_splice hnode, hafter]
  simp only [map_eq_pure_bind, bind_assoc, pure_bind, List.append_assoc]

/-! ## Templates with one injection -/

variable {t : Expr} {above : List Int} {i : Int} {injection : Injection}

/-- The call around the only injection of a template, to which expanding the template comes down. -/
theorem exists_call_around (m : Machine) (ctx : EvaluatorId) (env : EnvId)
    (hnode : t.partAt? (above ++ [i]) = some node)
    (hsole : t.injectionCount = 1) (hnames : t.injectsName = false)
    (hinjection : node.injection? = some injection) :
    ∃ head slots n, t.partAt? above = some (.call head slots) ∧
      position? (slots.length + 1) i = .ok n ∧ part? head slots n = some node ∧
      (Expr.call head slots).injectionCount = node.injectionCount ∧
      (Expr.call head slots).injectsName = false ∧
      expandTemplate m ctx env t =
        (t.replaceAt above ·) <$> expandTemplate m ctx env (.call head slots) := by
  obtain ⟨head, slots, n, hcall, hn, hpart⟩ := exists_call_of_partAt? hnode
  have hpos := injectionCount_pos hinjection
  have hle := injectionCount_call_of_part? hpart
  have hcount := injectionCount_of_partAt? hcall
  have hplain := injection?_eq_none_of_part? hpart (by omega)
  exact ⟨head, slots, n, hcall, hn, hpart, by omega, injectsName_of_partAt? hcall hnames,
    expandTemplate_replaceAt hcall (by omega) hplain hnames⟩

/-- Nothing is injected into the bare name of a member access. -/
theorem injection_into_name_slot (hnode : t.partAt? path = some node)
    (hsole : t.injectionCount = 1) (hnames : t.injectsName = false)
    (hinjection : node.injection? = some injection) (hslot : t.IsNameSlot path name) :
    expandTemplate m ctx env t s = Run.fail (.template (.nameSlot name)) s ∧
      Template.unquote t path v = .error (.template (.nameSlot name)) := by
  rcases List.eq_nil_or_concat path with rfl | ⟨above, i, rfl⟩
  · exact absurd hslot (not_isNameSlot_nil name)
  rw [List.concat_eq_append] at *
  obtain ⟨head, slots, n, hcall, hn, hpart, hcount, -, hexpand⟩ :=
    exists_call_around m ctx env hnode hsole hnames hinjection
  obtain ⟨rfl, hmember⟩ := (isNameSlot_concat_iff hcall hn name).mp hslot
  have hplain := injection?_eq_none_of_part? hpart (Nat.le_of_eq hcount)
  constructor
  · obtain ⟨slot, hslot, rfl⟩ := Option.map_eq_some_iff.mp hpart
    rw [hexpand, expandTemplate_nameSlot hplain hmember hslot (by rw [hinjection]; rfl)]
    rfl
  · rw [Template.unquote_concat hcall hn, Template.checkMemberSlot, hmember]
    rfl

theorem unquoted_part (hnode : t.partAt? path = some node)
    (hsole : t.injectionCount = 1) (hnames : t.injectsName = false)
    (hinjection : node.injection? = some (.unquote operand))
    (hslot : ∀ name, ¬ t.IsNameSlot path name) (hv : m.eval ctx operand env s = .ok v s') :
    expandTemplate m ctx env t s = .ok (t.replaceAt path v.toExpr) s' ∧
      Template.unquote t path v = .ok (t.replaceAt path v.toExpr) := by
  have hrun : expandTemplate m ctx env node s = .ok v.toExpr s' := by
    rw [expandTemplate_unquote hinjection, map_eq_pure_bind, Run.bind_of_ok hv]
    rfl
  rcases List.eq_nil_or_concat path with rfl | ⟨above, i, rfl⟩
  · cases hnode
    exact ⟨hrun, rfl⟩
  rw [List.concat_eq_append] at *
  obtain ⟨head, slots, n, hcall, hn, hpart, hcount, hnames', hexpand⟩ :=
    exists_call_around m ctx env hnode hsole hnames hinjection
  have hname (name : String) : ¬ (n = 2 ∧ head.memberHead? = some name) := fun h =>
    hslot name ((isNameSlot_concat_iff hcall hn name).mpr h)
  rw [replaceAt_concat hcall hn hpart]
  constructor
  · have hmember (h : n = 2) : head.memberHead? = none ∨ node.injection? = none := by
      refine .inl (Option.eq_none_iff_forall_ne_some.mpr fun name hsome => hname name ⟨h, hsome⟩)
    rw [hexpand, expandTemplate_setPart hpart hcount hnames' (by simp [hinjection]) hmember]
    simp only [map_eq_pure_bind, bind_assoc, Run.bind_of_ok hrun]
    rfl
  · rw [Template.unquote_concat hcall hn, Template.checkMemberSlot_eq_ok hname]
    rfl

section Splice

variable {k : Nat} (hcall : t.partAt? above = some (.call head slots))
  (hn : position? (slots.length + 1) i = .ok (k + 1)) (hslot : slots[k]? = some ⟨none, node⟩)
  (hsole : t.injectionCount = 1) (hnames : t.injectsName = false)
  (hinjection : node.injection? = some (.splice operand))
  (hname : ∀ name, ¬ t.IsNameSlot (above ++ [i]) name)

include hcall hn hslot hsole hnames hinjection hname

theorem expandTemplate_splice :
    expandTemplate m ctx env t = (do
      let items ← splicedItems (← m.eval ctx operand env)
      Run.trace fun _ => s!"spliced {items.length} argument(s) into " ++ head.plain
      pure (t.replaceAt above (.call head (slots.take k ++ items ++ slots.drop (k + 1))))) := by
  have hpart : part? head slots (k + 1) = some node := by simp [part?, hslot]
  have hnode : t.partAt? (above ++ [i]) = some node := by
    rw [partAt?_append hcall, partAt?_cons hn, hpart]
    rfl
  obtain ⟨head', slots', n, hcall', hn', hpart', hcount, hnames', hexpand⟩ :=
    exists_call_around m ctx env hnode hsole hnames hinjection
  cases hcall.symm.trans hcall'
  have hmember (h : (slots.take k).length = 1) : head.memberHead? = none := by
    refine Option.eq_none_iff_forall_ne_some.mpr fun name hsome => hname name ?_
    have hk : k < slots.length := (List.getElem?_eq_some_iff.mp hslot).1
    rw [List.length_take_of_le (Nat.le_of_lt hk)] at h
    exact (isNameSlot_concat_iff hcall hn name).mpr ⟨by omega, hsome⟩
  have hslots : slots = slots.take k ++ ⟨none, node⟩ :: slots.drop (k + 1) := by
    obtain ⟨hk, hget⟩ := List.getElem?_eq_some_iff.mp hslot
    rw [← hget, ← List.drop_eq_getElem_cons hk, List.take_append_drop]
  rw [hexpand]
  rw [hslots] at hcount hnames'
  conv_lhs => rw [hslots]
  rw [expandTemplate_spliced hinjection hcount hnames' hmember]
  simp only [map_eq_pure_bind, bind_assoc, pure_bind]

theorem spliced_slot (hv : m.eval ctx operand env s = .ok v s')
    (hitems : v.spliceItems = .ok items) :
    ∃ items' u, expandTemplate m ctx env t s = .ok (t.replaceAt above
        (.call head (slots.take k ++ items' ++ slots.drop (k + 1)))) u ∧
      Template.unquoteSplice t (above ++ [i]) v = .ok (t.replaceAt above
        (.call head (slots.take k ++ items ++ slots.drop (k + 1)))) ∧
      List.Forall₂ Renewed items items' ∧ u = { s' with nextId := u.nextId, log := u.log } := by
  obtain ⟨renewed, id, hrun, hrenewed⟩ := splicedItems_apply hitems s'
  obtain ⟨log, htrace⟩ := Flow.trace_eq_log
    (fun _ => s!"spliced {renewed.length} argument(s) into " ++ head.plain) { s' with nextId := id }
  refine ⟨renewed, { s' with nextId := id, log := log }, ?_, ?_, hrenewed, rfl⟩
  · rw [expandTemplate_splice hcall hn hslot hsole hnames hinjection hname]
    rw [Run.bind_of_ok hv, Run.bind_of_ok hrun, Run.bind_of_ok htrace]
    rfl
  · rw [Template.unquoteSplice_concat hitems hcall hn, Template.checkMemberSlot_eq_ok]
    · rfl
    · exact fun name h => hname name ((isNameSlot_concat_iff hcall hn name).mpr h)

theorem unspliceable_slot {fault : CallFault} (hv : m.eval ctx operand env s = .ok v s')
    (hfault : v.spliceItems = .error fault) :
    expandTemplate m ctx env t s = Run.fail (.callable fault) s' ∧
      Template.unquoteSplice t (above ++ [i]) v = .error (.callable fault) := by
  constructor
  · rw [expandTemplate_splice hcall hn hslot hsole hnames hinjection hname]
    have hrun : splicedItems v = Run.fail (.callable fault) := by
      rw [splicedItems, hfault]
      rfl
    rw [Run.bind_of_ok hv, hrun]
    rfl
  · obtain ⟨j, rest, hpath⟩ : ∃ j rest, above ++ [i] = j :: rest :=
      List.exists_cons_of_ne_nil (by simp)
    rw [hpath, Template.unquoteSplice, hfault]

end Splice

/-- A template with a single injection, at a path of positions, is expanded to what an edit at that
path makes of it. An injected value stands there as it is, and no name is injected into a member
access. What is spliced are the items of the value, a NaN without identity being a new one each
time; a value without items is refused in both ways. -/
theorem expanding_agrees_with_editing (m : Machine) (ctx : EvaluatorId) (env : EnvId)
    {t node : Expr} {path : List Int} (hnode : t.partAt? path = some node)
    (hsole : t.injectionCount = 1) (hnames : t.injectsName = false) (s : Store) :
    (∀ operand, node.injection? = some (.unquote operand) →
      (∀ name v, t.IsNameSlot path name →
        expandTemplate m ctx env t s = Run.fail (.template (.nameSlot name)) s ∧
          Template.unquote t path v = .error (.template (.nameSlot name))) ∧
      (∀ v s', (∀ name, ¬ t.IsNameSlot path name) → m.eval ctx operand env s = .ok v s' →
        ∃ r, expandTemplate m ctx env t s = .ok r s' ∧ Template.unquote t path v = .ok r ∧
          r = t.replaceAt path v.toExpr ∧ r.partAt? path = some v.toExpr)) ∧
    (∀ operand, node.injection? = some (.splice operand) →
      ∀ above i head slots k, path = above ++ [i] → t.partAt? above = some (.call head slots) →
      position? (slots.length + 1) i = .ok (k + 1) → slots[k]? = some ⟨none, node⟩ →
      (∀ name, ¬ t.IsNameSlot path name) → ∀ v s', m.eval ctx operand env s = .ok v s' →
      (∀ fault, v.spliceItems = .error fault →
        expandTemplate m ctx env t s = Run.fail (.callable fault) s' ∧
          Template.unquoteSplice t path v = .error (.callable fault)) ∧
      (∀ items, v.spliceItems = .ok items →
        ∃ items' u, expandTemplate m ctx env t s = .ok (t.replaceAt above
            (.call head (slots.take k ++ items' ++ slots.drop (k + 1)))) u ∧
          Template.unquoteSplice t path v = .ok (t.replaceAt above
            (.call head (slots.take k ++ items ++ slots.drop (k + 1)))) ∧
          u = { s' with nextId := u.nextId, log := u.log } ∧
          List.Forall₂ Renewed items items' ∧
          ((∀ slot ∈ items, slot.item ≠ .const (.nan none)) → items' = items))) := by
  constructor
  · intro operand hinjection
    constructor
    · exact fun name v hslot => injection_into_name_slot hnode hsole hnames hinjection hslot
    · intro v s' hslot hv
      obtain ⟨hexpand, hunquote⟩ := unquoted_part hnode hsole hnames hinjection hslot hv
      exact ⟨_, hexpand, hunquote, rfl, partAt?_replaceAt hnode⟩
  · rintro operand hinjection above i head slots k rfl hcall hn hslot hname v s' hv
    constructor
    · intro fault hfault
      exact unspliceable_slot hcall hn hslot hsole hnames hinjection hname hv hfault
    · intro items hitems
      obtain ⟨items', u, hexpand, hsplice, hrenewed, hstore⟩ :=
        spliced_slot hcall hn hslot hsole hnames hinjection hname hv hitems
      exact ⟨items', u, hexpand, hsplice, hstore, hrenewed, renewed_eq hrenewed⟩

theorem expanding_agrees_with_editing_head_and_slot :
    (let t : Expr := .call (.symbol "g") [⟨some "a", .call (.call (.symbol "!!")
      [⟨none, .const (.int 7)⟩]) [⟨none, .symbol "x"⟩]⟩]
     ∃ r, expandTemplate (ofLevel 1) ⟨0⟩ .empty t {} = .ok r {} ∧
      Template.unquote t [-1, 0] (.int 7) = .ok r) ∧
    (let v : Value := .list [⟨some "b", .bool true⟩, ⟨none, .code (.symbol "y")⟩]
     let t : Expr := .call (.symbol "$") [⟨none, .call (.symbol "f") [⟨none,
      .call (.symbol "!!!") [⟨none, .const v⟩]⟩]⟩]
     ∃ r u, expandTemplate (ofLevel 1) ⟨0⟩ .empty t {} = .ok r u ∧
      Template.unquoteSplice t [1, -1] v = .ok r) := by
  constructor
  · intro t
    have hnode : t.partAt? [-1, 0] = some (.call (.symbol "!!") [⟨none, .const (.int 7)⟩]) := rfl
    have hname (name : String) : ¬ t.IsNameSlot [-1, 0] name := fun h => by
      have := (@isNameSlot_concat_iff t _ _ 0 [-1] 0 rfl rfl name).mp h
      omega
    obtain ⟨r, hexpand, hunquote, -⟩ := ((expanding_agrees_with_editing (ofLevel 1) ⟨0⟩ .empty
      hnode rfl rfl {}).1 _ rfl).2 (.int 7) {} hname rfl
    exact ⟨r, hexpand, hunquote⟩
  · intro v t
    have hnode : t.partAt? [1, -1] = some (.call (.symbol "!!!") [⟨none, .const v⟩]) := rfl
    have hname (name : String) : ¬ t.IsNameSlot [1, -1] name := fun h => by
      have := (@isNameSlot_concat_iff t _ _ (-1) [1] 1 rfl rfl name).mp h
      omega
    obtain ⟨items, u, hexpand, hsplice, -, -, hsame⟩ := ((expanding_agrees_with_editing (ofLevel 1)
      ⟨0⟩ .empty hnode rfl rfl {}).2 _ rfl [1] (-1) _ _ 0 rfl rfl rfl rfl hname v {} rfl).2 _ rfl
    rw [hsame (by simp [Tagged.map, Value.toExpr])] at hexpand
    exact ⟨_, u, hexpand, hsplice⟩

/-- A NaN that comes out of a vector is another one each time it is taken out. -/
theorem spliced_nan_is_another :
    let v : Value := .vec ⟨1, .floats [.nan]⟩
    let t : Expr := .call (.symbol "f") [⟨none, .call (.symbol "!!!") [⟨none, .const v⟩]⟩]
    t.partAt? [1] = some (.call (.symbol "!!!") [⟨none, .const v⟩]) ∧ t.injectionCount = 1 ∧
      t.injectsName = false ∧ (ofLevel 1).eval ⟨0⟩ (.const v) .empty {} = .ok v {} ∧
      ∃ r u r', expandTemplate (ofLevel 1) ⟨0⟩ .empty t {} = .ok r u ∧
        Template.unquoteSplice t [1] v = .ok r' ∧ r.same r' = false :=
  ⟨rfl, rfl, rfl, rfl, _, _, _, rfl,
    @Template.unquoteSplice_concat _ _ _ 1 [] 0 _ _ rfl rfl rfl, rfl⟩

end Machine

end Quasi
