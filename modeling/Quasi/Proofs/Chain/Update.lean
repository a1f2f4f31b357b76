import Quasi.Proofs.Chain.Flow
import Quasi.Session.Environment

/-!
# Updates along chains

A name stands for what the first environment on a chain that binds it shows. To make a binding, to
remove one, or to change the nearest one is to change what one environment shows under one name. It
is seen from the environments whose chains come to that environment before any other that binds the
name, and from nowhere else. Chains share environments, so that one update is seen from many.
-/

namespace Quasi

open Run (bind_of_ok)

namespace Store

variable {s s' : Store} {e f p t u : EnvId} {name : String} {v : Value}

/-! ## The nearest binding -/

/-- The first environment on a chain that binds a name, with what it binds the name to. -/
def nearest? (s : Store) (e : EnvId) (name : String) : Option (EnvId × Value) :=
  (s.chain e).1.findSome? fun f => (s.slot? f name).map (f, ·)

/-- The first environment on a chain that binds a name. -/
def binder? (s : Store) (e : EnvId) (name : String) : Option EnvId := (s.nearest? e name).map (·.1)

theorem Leads.of_some (h : s.Leads e .empty) (hp : s.parent? e = some p) : s.Leads p .empty := by
  cases h with
  | refl => cases hp
  | step hp' rest =>
      cases hp.symm.trans hp'
      exact rest

theorem chain_of_some (h : s.Leads e .empty) (hp : s.parent? e = some p) :
    (s.chain e).1 = e :: (s.chain p).1 := by
  have hends := chain_ends_iff.mpr h
  rw [chain, walk_of_some _ hp] at hends
  have hwalk : s.walk (s.environmentCount + 2) p = s.walk (s.environmentCount + 1) p :=
    walk_eq_of_le hends (Nat.le_succ _)
  rw [chain, walk_of_some _ hp, chain, hwalk]

theorem nearest?_of_slot (h : s.slot? e name = some v) : s.nearest? e name = some (e, v) := by
  cases hp : s.parent? e with
  | none => rw [nearest?, chain, walk_of_none _ hp, List.findSome?_cons, h]; rfl
  | some p => rw [nearest?, chain, walk_of_some _ hp, List.findSome?_cons, h]; rfl

theorem nearest?_of_parent (hends : s.Leads e .empty) (hslot : s.slot? e name = none)
    (hp : s.parent? e = some p) : s.nearest? e name = s.nearest? p name := by
  rw [nearest?, chain_of_some hends hp, List.findSome?_cons, hslot]
  rfl

theorem slot?_of_nearest? (h : s.nearest? e name = some (f, v)) : s.slot? f name = some v := by
  obtain ⟨g, -, hg⟩ := List.exists_of_findSome?_eq_some h
  obtain ⟨w, hw, heq⟩ := Option.map_eq_some_iff.mp hg
  cases heq
  exact hw

/-! ## Where a search comes to -/

/-- A search for a name from the first environment comes to the second: no environment before it
on the chain binds the name. -/
inductive Comes (s : Store) (name : String) : EnvId → EnvId → Prop where
  | here (e : EnvId) : Comes s name e e
  | up {e p f : EnvId} (hslot : s.slot? e name = none) (hp : s.parent? e = some p)
      (rest : Comes s name p f) : Comes s name e f

namespace Comes

theorem leads (h : s.Comes name e f) : s.Leads e f := by
  induction h with
  | here => exact .refl _
  | up hslot hp rest ih => exact .step hp ih

theorem nearest?_eq (h : s.Comes name e f) (hends : s.Leads e .empty) :
    s.nearest? e name = s.nearest? f name := by
  induction h with
  | here => rfl
  | up hslot hp rest ih =>
      rw [nearest?_of_parent hends hslot hp]
      exact ih (hends.of_some hp)

/-- What the environment that it is about shows does not matter. -/
theorem congr (hparent : ∀ e, s'.parent? e = s.parent? e)
    (hslot : ∀ e, e ≠ t → s'.slot? e name = s.slot? e name) (h : s.Comes name u t) :
    s'.Comes name u t := by
  induction h with
  | here => exact .here _
  | @up e p t hnone hp rest ih =>
      by_cases he : e = t
      · exact he ▸ .here e
      · exact .up ((hslot e he).trans hnone) ((hparent e).trans hp) (ih hslot)

end Comes

theorem comes_binder (hends : s.Leads u .empty) (h : s.nearest? u name = some (e, v)) :
    s.Comes name u e := by
  generalize hg : EnvId.empty = g at hends
  induction hends with
  | refl => cases hg; cases h
  | @step u p g hp rest ih =>
      subst hg
      cases hslot : s.slot? u name with
      | some w =>
          cases h.symm.trans (nearest?_of_slot hslot)
          exact .here _
      | none =>
          rw [nearest?_of_parent (.step hp rest) hslot hp] at h
          exact .up hslot hp (ih h rfl)

/-- The binder of a name is where a search for it comes to that shows it. -/
theorem binder?_eq_some_iff (hends : s.Leads u .empty) :
    s.binder? u name = some e ↔ s.Comes name u e ∧ (s.slot? e name).isSome = true := by
  rw [binder?, Option.map_eq_some_iff]
  constructor
  · rintro ⟨⟨f, v⟩, h, rfl⟩
    exact ⟨comes_binder hends h, by simp [slot?_of_nearest? h]⟩
  · rintro ⟨hcomes, hslot⟩
    obtain ⟨v, hv⟩ := Option.isSome_iff_exists.mp hslot
    exact ⟨(e, v), (hcomes.nearest?_eq hends).trans (nearest?_of_slot hv), rfl⟩

/-! ## One environment shows something else under one name -/

/-- Two stores with the same chains, in which one environment shows something else under one name. -/
structure Differs (s s' : Store) (t : EnvId) (name : String) : Prop where
  parent (e : EnvId) : s'.parent? e = s.parent? e
  slot (e : EnvId) (other : String) : (e = t → other ≠ name) → s'.slot? e other = s.slot? e other

namespace Differs

variable {other : String}

theorem leads_iff (h : s.Differs s' t name) : s'.Leads e f ↔ s.Leads e f := leads_congr h.parent

theorem comes_iff (h : s.Differs s' t name) : s'.Comes name u t ↔ s.Comes name u t :=
  ⟨.congr (fun e => (h.parent e).symm) fun e he => (h.slot e name fun ht => absurd ht he).symm,
    .congr h.parent fun e he => h.slot e name fun ht => absurd ht he⟩

/-- Where no search for the name comes to the environment, nothing changes. -/
theorem nearest?_eq (h : s.Differs s' t name) (hends : s.Leads u .empty)
    (hcomes : other = name → ¬ s.Comes name u t) : s'.nearest? u other = s.nearest? u other := by
  generalize hg : EnvId.empty = g at hends
  induction hends with
  | refl => cases hg; rfl
  | @step u p g hp rest ih =>
      subst hg
      have hslot : s'.slot? u other = s.slot? u other :=
        h.slot u other fun hu hname => hcomes hname (hu ▸ .here u)
      have hends : s.Leads u .empty := .step hp rest
      cases hv : s.slot? u other with
      | some v => rw [nearest?_of_slot hv, nearest?_of_slot (hslot.trans hv)]
      | none =>
          rw [nearest?_of_parent hends hv hp, nearest?_of_parent (h.leads_iff.mpr hends)
            (hslot.trans hv) ((h.parent u).trans hp)]
          exact ih (fun hname hcomes' => hcomes hname (.up (hname ▸ hv) hp hcomes')) rfl

/-- Beyond the environment itself nothing changes. -/
theorem parent_nearest?_eq (h : s.Differs s' t name) (hends : s.Leads t .empty)
    (hp : s.parent? t = some p) : s'.nearest? p other = s.nearest? p other :=
  h.nearest?_eq (hends.of_some hp) fun _ hcomes => hends.not_back hp hcomes.leads

end Differs

/-! ## What environments show -/

/-- What the sources of data of an environment have under a name. -/
def carried (s : Store) (e : EnvId) (name : String) : Option Value :=
  match e with
  | .bottom m => s.data? m name
  | _ => none

/-- What is seen from an environment under a name once its own binding is gone: what its sources of
data have, or else what its parent sees. -/
def beneath? (s : Store) (e : EnvId) (name : String) : Option (EnvId × Value) :=
  ((s.carried e name).map (e, ·)).or ((s.parent? e).bind fun p => s.nearest? p name)

/-- Chains end, and the sources of data of masks are no environments. -/
structure Forest (s : Store) : Prop where
  ends (e : EnvId) : (s.chain e).2 = true
  sources (m : MaskId) (e : EnvId) : .env e ∉ (s.mask m).scopes

namespace Forest

theorem leads (h : s.Forest) (e : EnvId) : s.Leads e .empty := chain_ends_iff.mp (h.ends e)

/-- An environment shows its own bindings, and what they leave free of what its sources have. -/
theorem slot?_eq (h : s.Forest) (e : EnvId) (name : String) :
    s.slot? e name = ((s.vars e).get? name).or (s.carried e name) := by
  cases e with
  | empty => rfl
  | scope i => exact (Option.or_none ..).symm
  | bottom m =>
      rw [slot?, maskSlot?, vars, carried, data?]
      cases (s.mask m).vars.get? name with
      | some v => rfl
      | none =>
          refine findSome?_congr fun source hsource => ?_
          cases source with
          | env e => exact absurd hsource (h.sources m e)
          | _ => rfl

end Forest

/-- The bindings of one environment change. -/
theorem vars_setVars (ht : t ∈ s.environments) (f : Bindings Value → Bindings Value) (e : EnvId) :
    (s.setVars t f).vars e = if e = t then f (s.vars e) else s.vars e := by
  cases t with
  | empty => simp [environments] at ht
  | scope i =>
      have hi : i < s.scopes.size := by simpa [environments] using ht
      cases e with
      | scope j =>
          simp only [vars, setVars, scope_setScope, hi, and_true, EnvId.scope.injEq]
          split <;> rfl
      | _ => rfl
  | bottom m =>
      have hm : m.index < s.masks.size := by
        simp only [environments, List.mem_append, List.mem_map, List.mem_range] at ht
        obtain ⟨i, -, hi⟩ | ⟨i, hi, heq⟩ := ht
        · cases hi
        · cases heq; exact hi
      cases e with
      | bottom n =>
          have hindex : n.index = m.index ↔ n = m := by
            cases n
            cases m
            simp
          simp only [vars, setVars, mask_setMask, hm, and_true, EnvId.bottom.injEq, hindex]
          split <;> rfl
      | _ => rfl

theorem scopes_setVars (t : EnvId) (f : Bindings Value → Bindings Value) (m : MaskId) :
    ((s.setVars t f).mask m).scopes = (s.mask m).scopes := by
  cases t with
  | bottom n =>
      simp only [setVars, mask_setMask]
      split <;> rfl
  | _ => rfl

theorem carried_setVars (h : s.Forest) (t : EnvId) (f : Bindings Value → Bindings Value)
    (e : EnvId) (name : String) : (s.setVars t f).carried e name = s.carried e name := by
  cases e with
  | bottom m =>
      rw [carried, carried, data?, data?, scopes_setVars]
      refine findSome?_congr fun source hsource => ?_
      cases source with
      | env e => exact absurd hsource (h.sources m e)
      | _ => rfl
  | _ => rfl

theorem parent?_setVars (t : EnvId) (f : Bindings Value → Bindings Value) (e : EnvId) :
    (s.setVars t f).parent? e = s.parent? e := (sameChains_setVars s t f).parent?_eq e

theorem Forest.setVars (h : s.Forest) (t : EnvId) (f : Bindings Value → Bindings Value) :
    (s.setVars t f).Forest where
  ends e := chain_ends_iff.mpr ((leads_congr (parent?_setVars t f)).mpr (h.leads e))
  sources m e := by
    rw [scopes_setVars]
    exact h.sources m e

/-- A change of one binding is a change of what one environment shows under its name. -/
theorem differs_setVars (h : s.Forest) (ht : t ∈ s.environments)
    {f : Bindings Value → Bindings Value}
    (hf : ∀ bindings other, other ≠ name → (f bindings).get? other = bindings.get? other) :
    s.Differs (s.setVars t f) t name where
  parent := parent?_setVars t f
  slot e other hother := by
    rw [(h.setVars t f).slot?_eq, h.slot?_eq, carried_setVars h, vars_setVars ht]
    split
    next he => rw [hf _ _ (hother he)]
    next => rfl

/-! ## Updates -/

/-- The new binding is seen from where its environment is the nearest that binds the name, and all
else is seen as before. -/
def Overwritten (s s' : Store) (t : EnvId) (name : String) (v : Value) : Prop :=
  ∀ u other, s'.nearest? u other =
    if other = name ∧ s'.binder? u name = some t then some (t, v) else s.nearest? u other

/-- What lies beneath the binding is seen from where it was the nearest, and all else is seen as
before. -/
def Uncovered (s s' : Store) (t : EnvId) (name : String) : Prop :=
  ∀ u other, s'.nearest? u other =
    if other = name ∧ s.binder? u name = some t then s.beneath? t name else s.nearest? u other

theorem overwritten_setVars (h : s.Forest) (ht : t ∈ s.environments) (name : String) (v : Value) :
    Overwritten s (s.setVars t fun vars => vars.set name v) t name v := by
  intro u other
  have h' := h.setVars t fun vars => vars.set name v
  have hdiffers : s.Differs (s.setVars t fun vars => vars.set name v) t name :=
    differs_setVars h ht fun bindings other hother => Bindings.get?_set_of_ne bindings v hother
  have hslot : (s.setVars t fun vars => vars.set name v).slot? t name = some v := by
    rw [h'.slot?_eq, vars_setVars ht, if_pos rfl, Bindings.get?_set_self]
    rfl
  by_cases hseen : other = name ∧ s.Comes name u t
  · obtain ⟨rfl, hcomes⟩ := hseen
    have hcomes := hdiffers.comes_iff.mpr hcomes
    rw [if_pos ⟨rfl, (binder?_eq_some_iff (h'.leads u)).mpr ⟨hcomes, by simp [hslot]⟩⟩,
      hcomes.nearest?_eq (h'.leads u), nearest?_of_slot hslot]
  · rw [hdiffers.nearest?_eq (h.leads u) fun hname hcomes => hseen ⟨hname, hcomes⟩, if_neg]
    rintro ⟨hname, hbinder⟩
    exact hseen ⟨hname, hdiffers.comes_iff.mp ((binder?_eq_some_iff (h'.leads u)).mp hbinder).1⟩

theorem uncovered_setVars (h : s.Forest) (ht : t ∈ s.environments)
    (hbound : (s.vars t).contains name = true) :
    Uncovered s (s.setVars t fun vars => vars.erase name) t name := by
  intro u other
  have h' := h.setVars t fun vars => vars.erase name
  have hdiffers : s.Differs (s.setVars t fun vars => vars.erase name) t name :=
    differs_setVars h ht fun bindings other hother => Bindings.get?_erase_of_ne bindings hother
  have hslot : (s.setVars t fun vars => vars.erase name).slot? t name = s.carried t name := by
    rw [h'.slot?_eq, vars_setVars ht, if_pos rfl, Bindings.get?_erase_self, carried_setVars h]
    rfl
  have hown : (s.slot? t name).isSome = true := by
    rw [h.slot?_eq, Option.isSome_or, Bool.or_eq_true]
    exact .inl hbound
  have hbeneath : (s.setVars t fun vars => vars.erase name).nearest? t name = s.beneath? t name := by
    rw [beneath?]
    cases hv : s.carried t name with
    | some v => exact nearest?_of_slot (hslot.trans hv)
    | none =>
        cases hp : s.parent? t with
        | none =>
            cases t with
            | empty => rfl
            | _ => cases hp
        | some p =>
            rw [nearest?_of_parent (h'.leads t) (hslot.trans hv) ((parent?_setVars t _ t).trans hp),
              hdiffers.parent_nearest?_eq (h.leads t) hp]
            rfl
  by_cases hseen : other = name ∧ s.Comes name u t
  · obtain ⟨rfl, hcomes⟩ := hseen
    rw [if_pos ⟨rfl, (binder?_eq_some_iff (h.leads u)).mpr ⟨hcomes, hown⟩⟩,
      (hdiffers.comes_iff.mpr hcomes).nearest?_eq (h'.leads u), hbeneath]
  · rw [hdiffers.nearest?_eq (h.leads u) fun hname hcomes => hseen ⟨hname, hcomes⟩, if_neg]
    rintro ⟨hname, hbinder⟩
    exact hseen ⟨hname, ((binder?_eq_some_iff (h.leads u)).mp hbinder).1⟩

/-- Only an environment that exists shows anything. -/
theorem mem_environments_of_slot (h : s.Forest) (hslot : s.slot? t name = some v) :
    t ∈ s.environments := by
  rw [environments, List.mem_append, List.mem_map, List.mem_map]
  cases t with
  | empty => cases hslot
  | scope i =>
      by_cases hi : i < s.scopes.size
      · exact .inl ⟨i, List.mem_range.mpr hi, rfl⟩
      · simp [slot?, scope, Array.getD, hi, Inhabited.default] at hslot
  | bottom m =>
      by_cases hm : m.index < s.masks.size
      · exact .inr ⟨m.index, List.mem_range.mpr hm, rfl⟩
      · rw [h.slot?_eq] at hslot
        simp [vars, carried, data?, mask, Array.getD, hm, Inhabited.default] at hslot

theorem slot?_of_binder? (h : s.Forest) (hbinder : s.binder? u name = some e) :
    ∃ v, s.slot? e name = some v :=
  Option.isSome_iff_exists.mp ((binder?_eq_some_iff (h.leads u)).mp hbinder).2

end Store

/-! ## The operations -/

namespace Run

variable {α : Type} {s : Store} {t u : EnvId} {name : String} {v : Value} {cause : Cause}

/-- A run fails and leaves the store as it is, but for the record of the failure. -/
def Refuses (action : Run α) (s : Store) (cause : Cause) : Prop :=
  ∃ f t, action s = .error (.failure ⟨f, cause⟩) t ∧ t = { s with failures := t.failures }

theorem refuses_fail (cause : Cause) (s : Store) : Refuses (fail cause : Run α) s cause :=
  ⟨_, _, rfl, rfl⟩

theorem Refuses.of_eq {action other : Run α} (h : Refuses other s cause)
    (heq : action s = other s) : Refuses action s cause := by
  obtain ⟨f, t, hother, ht⟩ := h
  exact ⟨f, t, heq.trans hother, ht⟩

theorem find_eq_binder? (h : s.Forest) (u : EnvId) (name : String) :
    find u name s = .ok (s.binder? u name) s := by
  have hbinder : (s.chain u).1.find? (fun env => (s.slot? env name).isSome) = s.binder? u name := by
    rw [Store.binder?, Store.nearest?, List.map_findSome?, List.find?_eq_findSome?_guard]
    refine findSome?_congr fun e _ => ?_
    cases hslot : s.slot? e name <;> simp [hslot, Option.guard]
  rw [find, search, get_bind, hbinder]
  cases s.binder? u name with
  | some e => rfl
  | none =>
      have hends : reachEnd u s = .ok () s := by rw [Flow.reachEnd_apply, h.ends]
      exact bind_of_ok hends

theorem binding_eq_nearest? (h : s.Forest) (u : EnvId) (name : String) :
    binding u name s = (match s.nearest? u name with
      | some (_, v) => own v
      | none => fail (.lookup (.unbound name))) s := by
  rw [binding, bind_of_ok (find_eq_binder? h u name), Store.binder?]
  cases hnearest : s.nearest? u name with
  | none => rfl
  | some found =>
      obtain ⟨e, v⟩ := found
      dsimp only [Option.map_some]
      rw [get_bind, Store.slot?_of_nearest? hnearest]

theorem unbind_refuses (h : (s.vars t).contains name = false) :
    Refuses (unbind t name) s (.lookup (.unboundHere name)) := by
  refine (refuses_fail _ s).of_eq ?_
  rw [unbind, get_bind, if_neg (by simp [h])]

theorem rebind_refuses (h : s.Forest) (hnone : s.binder? t name = none) (v : Value) :
    Refuses (rebind t name v) s (.lookup (.unboundSet name)) := by
  refine (refuses_fail _ s).of_eq ?_
  rw [rebind, bind_of_ok (find_eq_binder? h t name), hnone]

theorem define_eq_ok (ht : t ∈ s.environments) (name : String) (v : Value) :
    define t name v s = .ok () (s.setVars t fun vars => vars.set name v) := by
  cases t with
  | empty => simp [Store.environments] at ht
  | _ => rfl

theorem unbind_eq_ok (h : (s.vars t).contains name = true) :
    unbind t name s = .ok () (s.setVars t fun vars => vars.erase name) := by
  rw [unbind, get_bind, if_pos h]
  rfl

theorem rebind_eq_ok (h : s.Forest) (hbinder : s.binder? t name = some u) (v : Value) :
    rebind t name v s = .ok () (s.setVars u fun vars => vars.set name v) := by
  obtain ⟨w, hw⟩ := Store.slot?_of_binder? h hbinder
  rw [rebind, bind_of_ok (find_eq_binder? h t name), hbinder]
  exact define_eq_ok (Store.mem_environments_of_slot h hw) name v

end Run

/-- The operations that resolve a name agree on the environment that binds it. -/
structure Store.NamesAgree (s : Store) (m : Machine) (u : EnvId) (name : String) : Prop where
  find : Run.find u name s = .ok (s.binder? u name) s
  binding : Run.binding u name s = (match s.nearest? u name with
    | some (_, v) => Run.own v
    | none => Run.fail (.lookup (.unbound name))) s
  lookup : m.lookup u name s = (match s.nearest? u name with
    | some (_, .code .missing) => Run.fail (.missingArgument (some name))
    | some (_, v) => Run.own v >>= m.forceValue none
    | none => Run.fail (.lookup (.unbound name))) s
  contains (key : Value) : key = .str name ∨ key = .code (.symbol name) →
    ∃ found, Session.contains (.env u) key s = .ok (.bool found) s ∧
      (found = true ↔ s.binder? u name = some u)

namespace Store

variable {s : Store}

theorem Forest.binder?_eq_self_iff (h : s.Forest) (u : EnvId) (name : String) :
    s.binder? u name = some u ↔ (s.slot? u name).isSome = true := by
  rw [binder?_eq_some_iff (h.leads u)]
  exact and_iff_right (.here u)

theorem Forest.lookup_eq_nearest? (h : s.Forest) (m : Machine) (u : EnvId) (name : String) :
    m.lookup u name s = (match s.nearest? u name with
      | some (_, .code .missing) => Run.fail (.missingArgument (some name))
      | some (_, v) => Run.own v >>= m.forceValue none
      | none => Run.fail (.lookup (.unbound name))) s := by
  rw [Machine.lookup, Run.bind_of_eq (Run.binding_eq_nearest? h u name)]
  cases s.nearest? u name with
  | none => rfl
  | some found =>
      obtain ⟨e, v⟩ := found
      -- what gets an identity of its own is no missing marker
      cases v with
      | code e => cases e <;> rfl
      | nan origin => cases origin <;> rfl
      | vec w =>
          obtain ⟨id, elements⟩ := w
          cases id <;> rfl
      | _ => rfl

theorem Forest.namesAgree (h : s.Forest) (m : Machine) (u : EnvId) (name : String) :
    s.NamesAgree m u name where
  find := Run.find_eq_binder? h u name
  binding := Run.binding_eq_nearest? h u name
  lookup := h.lookup_eq_nearest? m u name
  contains key hkey := by
    refine ⟨(s.slot? u name).isSome, ?_, (h.binder?_eq_self_iff u name).symm⟩
    rcases hkey with rfl | rfl <;> rfl

/-- What updates of environments do: all operations that resolve a name go by the nearest binding,
an update acts on one binding and is seen from where that is the nearest, and an operation that
fails changes nothing. -/
theorem updates_act_on_nearest (h : s.Forest) (m : Machine) :
    (∀ u name, s.NamesAgree m u name) ∧
    (∀ t ∈ s.environments, ∀ name v, ∃ s', Run.define t name v s = .ok () s' ∧
      s'.Forest ∧ Overwritten s s' t name v) ∧
    (∀ t ∈ s.environments, ∀ name, (s.vars t).contains name = true →
      ∃ s', Run.unbind t name s = .ok () s' ∧ s'.Forest ∧ Uncovered s s' t name) ∧
    (∀ t name v u, s.binder? t name = some u → ∃ s', Run.rebind t name v s = .ok () s' ∧
      s'.Forest ∧ Overwritten s s' u name v) ∧
    (∀ t name, (s.vars t).contains name = false →
      (Run.unbind t name).Refuses s (.lookup (.unboundHere name))) ∧
    (∀ t name v, s.binder? t name = none →
      (Run.rebind t name v).Refuses s (.lookup (.unboundSet name))) ∧
    (∀ name v, (Run.define .empty name v).Refuses s (.binding .emptyEnvironment)) ∧
    ∀ name, s.slot? .empty name = none := by
  refine ⟨h.namesAgree m, fun t ht name v => ?_, fun t ht name hbound => ?_,
    fun t name v u hbinder => ?_, fun t name => Run.unbind_refuses,
    fun t name v hnone => Run.rebind_refuses h hnone v, fun name v => Run.refuses_fail _ s,
    fun name => rfl⟩
  · exact ⟨_, Run.define_eq_ok ht name v, h.setVars t _, overwritten_setVars h ht name v⟩
  · exact ⟨_, Run.unbind_eq_ok hbound, h.setVars t _, uncovered_setVars h ht hbound⟩
  · obtain ⟨w, hw⟩ := slot?_of_binder? h hbinder
    exact ⟨_, Run.rebind_eq_ok h hbinder v, h.setVars u _,
      overwritten_setVars h (mem_environments_of_slot h hw) name v⟩

/-- Below a mask, `x` is the mask's own binding; once that is gone it is what the data has, and not
the binding of the environment that the mask falls back to. -/
theorem updates_act_on_nearest_mask :
    let s : Store := {
      scopes := #[⟨[("x", .int 1)], .empty, none⟩, ⟨[], .bottom ⟨0⟩, none⟩]
      masks := #[⟨[("x", .int 3)], [.mapping [("x", .int 2)]], .scope 0⟩] }
    s.Forest ∧ s.nearest? (.scope 1) "x" = some (.bottom ⟨0⟩, .int 3) ∧
      ∃ s', Run.unbind (.bottom ⟨0⟩) "x" s = .ok () s' ∧
        s'.nearest? (.scope 1) "x" = some (.bottom ⟨0⟩, .int 2) := by
  intro s
  have hglobal : s.Leads (.scope 0) .empty := .of_parent rfl
  have hmask : s.Leads (.bottom ⟨0⟩) .empty := .step rfl hglobal
  have hbelow : s.Leads (.scope 1) .empty := .step rfl hmask
  have hforest : s.Forest := by
    refine ⟨fun e => chain_ends_iff.mpr ?_, fun m e => ?_⟩
    · match e with
      | .empty => exact .refl _
      | .scope 0 => exact hglobal
      | .scope 1 => exact hbelow
      | .scope (_ + 2) | .bottom ⟨_ + 1⟩ => exact .of_parent rfl
      | .bottom ⟨0⟩ => exact hmask
    · match m with
      | ⟨0⟩ => simp [s, mask]
      | ⟨_ + 1⟩ => exact List.not_mem_nil
  have hslot : s.slot? (.bottom ⟨0⟩) "x" = some (.int 3) := hforest.slot?_eq _ _
  have hnearest : s.nearest? (.scope 1) "x" = some (.bottom ⟨0⟩, .int 3) :=
    (nearest?_of_parent hbelow rfl rfl).trans (nearest?_of_slot hslot)
  obtain ⟨s', hunbind, -, huncovered⟩ := (updates_act_on_nearest hforest (Machine.ofLevel 0)).2.2.1
    (.bottom ⟨0⟩) (by simp [environments, s]) "x" rfl
  refine ⟨hforest, hnearest, s', hunbind, ?_⟩
  rw [huncovered, if_pos ⟨rfl, by rw [binder?, hnearest]; rfl⟩]
  rfl

end Store

end Quasi
