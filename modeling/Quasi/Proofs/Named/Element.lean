import Quasi.Proofs.Footing.Calls

/-!
# Elements of lists by their names

The elements of a list can be read by member access, by subscript, by substitution, and by
evaluation with the list as data, in a child environment or in a mask. Member access goes through
the list, and the others look a name up in bindings that are made from it. They find the same
element if all elements with the name are the same one, and if the name does not stand for
something else where it is evaluated: for an argument, or for a pronoun of the mask.
-/

namespace Quasi

open Run (bind_of_ok)
open Machine (ofLevel)

/-! ## Names in lists -/

theorem Bindings.get?_foldl_set {α : Type} {name : String} {item : α} {bindings : Bindings α}
    {pairs : List (String × α)} (honly : ∀ pair ∈ pairs, pair.1 = name → pair.2 = item)
    (h : get? bindings name = some item ∨ ∃ pair ∈ pairs, pair.1 = name) :
    get? (pairs.foldl (fun bindings pair => set bindings pair.1 pair.2) bindings) name =
      some item := by
  induction pairs generalizing bindings with
  | nil => simpa using h
  | cons pair rest ih =>
      obtain ⟨hpair, hrest⟩ := List.forall_mem_cons.mp honly
      refine ih hrest ?_
      by_cases hname : pair.1 = name
      · left
        change get? (set bindings pair.1 pair.2) name = some item
        rw [hname, get?_set_self, hpair hname]
      · refine h.imp (fun h => (get?_set_of_ne _ _ (Ne.symm hname)).trans h) fun ⟨other, hmem, hother⟩ =>
          ⟨other, (List.mem_cons.mp hmem).resolve_left fun heq => hname (heq ▸ hother), hother⟩

namespace Tagged

variable {α : Type} {items : List (Tagged α)} {name : String} {v : α}

/-- Some item has the name, and all items that have it are this one. -/
structure Picks (items : List (Tagged α)) (name : String) (v : α) : Prop where
  exists_tag : ∃ t ∈ items, t.tag = some name
  only (t : Tagged α) : t ∈ items → t.tag = some name → t.item = v

namespace Picks

theorem get?_eq (h : Picks items name v) : get? items name = some v := by
  obtain ⟨⟨t, hmem, htag⟩, honly⟩ := h
  induction items with
  | nil => cases hmem
  | cons first rest ih =>
      rw [get?]
      split
      next hfirst => rw [honly first List.mem_cons_self hfirst]
      next hfirst =>
        have hrest : t ∈ rest := (List.mem_cons.mp hmem).resolve_left fun heq => hfirst (heq ▸ htag)
        exact ih (fun other hother => honly other (List.mem_cons_of_mem _ hother)) hrest

theorem get?_toBindings (h : Picks items name v) : (toBindings items).get? name = some v := by
  obtain ⟨⟨t, hmem, htag⟩, honly⟩ := h
  refine Bindings.get?_foldl_set (fun pair hpair hname => ?_) (.inr ⟨(name, t.item), ?_, rfl⟩)
  · obtain ⟨other, hother, hsome⟩ := List.mem_filterMap.mp hpair
    obtain ⟨tag, htag, rfl⟩ := Option.map_eq_some_iff.mp hsome
    exact honly other hother (htag.trans (congrArg some hname))
  · exact List.mem_filterMap.mpr ⟨t, hmem, by rw [htag]; rfl⟩

end Picks

end Tagged

/-- A value that names are looked up to as it is: it was made before, and is neither forced nor
missing nor what `...` stands for. -/
structure Value.IsPlain (v : Value) : Prop where
  own : Run.own v = pure v
  ne_promise (p : PromiseId) : v ≠ .promise p
  ne_missing : v ≠ .code .missing
  ne_dots (entries : List (Tagged Value)) : v ≠ .dots entries

namespace Machine

variable {m : Machine} {ctx : EvaluatorId} {env : EnvId} {s t : Store} {name : String} {v : Value}

theorem lookup_of_slot (h : s.slot? env name = some v) (hv : v.IsPlain) :
    m.lookup env name s = .ok v s := by
  rw [lookup, bind_of_ok (binding_of_slot h hv.own)]
  cases v with
  | code e =>
      cases e with
      | missing => exact absurd rfl hv.ne_missing
      | _ => rfl
  | promise p => exact absurd rfl (hv.ne_promise p)
  | _ => rfl

theorem eval_symbol_of_slot (hdots : name ≠ dotsName) (hposition : dotsPosition? name = none)
    (h : s.slot? env name = some v) (hv : v.IsPlain) (n : Nat) :
    (ofLevel (n + 1)).eval ctx (.symbol name) env s = .ok v s := by
  change evalSymbol (ofLevel n) ctx name env s = _
  rw [evalSymbol, if_neg hdots, hposition]
  exact lookup_of_slot h hv

theorem inTarget_of_ok {body : Run Value} (h : body (Flow.targeted s ctx env) = .ok v t) :
    inTarget ctx env body s = .ok v (Flow.untargeted t ctx) := by
  have hattempt : Run.attempt body (Flow.targeted s ctx env) = .ok (.ok v) t := by
    simp only [Run.attempt, h]
  rw [inTarget, Run.modify_bind]
  exact bind_of_ok hattempt

/-- A run under a mask, which is put back afterwards. -/
theorem exists_under {mask : MaskId} {home : EnvId} {body : EnvId → Run Value}
    (h : ∀ log, ∃ u, body (.bottom mask) { s.rechain mask home with log := log } = .ok v u) :
    ∃ u, Run.under mask home body s = .ok v u := by
  obtain ⟨log, hopen⟩ := Flow.rechain_eq_log mask home s
  obtain ⟨u, hu⟩ := h log
  have hattempt : Run.attempt (body (.bottom mask)) { s.rechain mask home with log := log } =
      .ok (.ok v) u := by
    simp only [Run.attempt, hu]
  obtain ⟨log', hclose⟩ := Flow.rechain_eq_log mask (s.mask mask).home u
  refine ⟨{ u.rechain mask (s.mask mask).home with log := log' }, ?_⟩
  rw [Run.under, bind_of_ok hopen, Run.andFinally, bind_of_ok hattempt]
  exact bind_of_ok (bind_of_ok hclose)

/-- An expression has a value. -/
def Gives (m : Machine) (ctx : EvaluatorId) (env : EnvId) (s : Store) (e : Expr) (v : Value) : Prop :=
  ∃ t, m.eval ctx e env s = .ok v t

/-! ## Evaluation with a list as data -/

section Data

variable {items : List (Tagged Value)} (hv : v.IsPlain) (hdots : name ≠ dotsName)
  (hposition : dotsPosition? name = none)

include hv hdots hposition

/-- A name is read in a child environment that binds the elements. -/
theorem evalCode_of_picks (hname : Tagged.Picks items name v) (n : Nat) : ∃ u,
    Library.evalCode (ofLevel (n + 1)) ctx [.code (.symbol name), .list items] [] env t =
      .ok v u := by
  let child : EnvId := .scope t.scopes.size
  let made := t.addScope ⟨Tagged.toBindings items, env, none⟩
  have hscope : (Flow.targeted made ctx child).scope t.scopes.size =
      ⟨Tagged.toBindings items, t.known env, none⟩ :=
    (t.scope_addScope _ _).trans (if_pos rfl)
  have hslot : (Flow.targeted made ctx child).slot? child name = some v :=
    (congrArg (fun scope => scope.vars.get? name) hscope).trans hname.get?_toBindings
  exact ⟨_, inTarget_of_ok (s := made) (eval_symbol_of_slot hdots hposition hslot hv n)⟩

/-- A name is read in a mask over the elements. -/
theorem evalTidy_of_slot (n : Nat) (hslot : ∀ (u : Store) home, u.mask ⟨t.masks.size⟩ =
      { (Twin.next t (Tagged.toBindings items) env).freshMask with home := home } →
      u.slot? (.bottom ⟨t.masks.size⟩) name = some v) : ∃ u,
    Library.evalTidy (ofLevel (n + 1)) ctx [.code (.symbol name), .list items] [] env t =
      .ok v u := by
  let mask : MaskId := ⟨t.masks.size⟩
  let fresh := (Twin.next t (Tagged.toBindings items) env).freshMask
  have hmade : asMask (.list items) none t = .ok mask (t.addMask fresh) :=
    Twin.asMask_eq (d := .list items) rfl t env
  obtain ⟨u, hu⟩ : ∃ u, Run.under mask env (evalIn (ofLevel (n + 1)) ctx (.symbol name))
      (t.addMask fresh) = .ok v u := by
    refine exists_under fun log => ⟨_, inTarget_of_ok (eval_symbol_of_slot hdots hposition
      (hslot _ ((t.addMask fresh).known env) ?_) hv n)⟩
    change ((t.addMask fresh).rechain mask env).mask mask = _
    rw [Store.mask_rechain, if_pos ⟨rfl, by simp [mask, Store.addMask]⟩, Store.mask_addMask,
      if_pos rfl]
  have hstart : Library.evalTidy (ofLevel (n + 1)) ctx [.code (.symbol name), .list items] [] env =
      (asMask (.list items) none >>= fun mask =>
        Run.under mask env (evalIn (ofLevel (n + 1)) ctx (.symbol name))) := rfl
  exact ⟨u, (congrFun hstart t).trans ((bind_of_ok hmade).trans hu)⟩

theorem evalTidy_of_picks (hname : Tagged.Picks items name v) (hpronoun : isPronoun name = false)
    (n : Nat) : ∃ u,
    Library.evalTidy (ofLevel (n + 1)) ctx [.code (.symbol name), .list items] [] env t =
      .ok v u := by
  refine evalTidy_of_slot hv hdots hposition n fun u home hmask => ?_
  simp only [isPronoun, Bool.or_eq_false_iff, decide_eq_false_iff_not] at hpronoun
  change u.maskSlot? t.masks.size name = _
  unfold Store.maskSlot?
  rw [hmask]
  simp [Twin.freshMask, Twin.next, Bindings.get?, Ne.symm hpronoun.1, Ne.symm hpronoun.2,
    hname.get?_toBindings]

end Data

/-- The pronouns of a mask are in front of the elements. -/
theorem evalTidy_pronoun (ctx : EvaluatorId) (env : EnvId) (t : Store) (items : List (Tagged Value))
    (p : Pronoun) (n : Nat) : ∃ u,
    Library.evalTidy (ofLevel (n + 1)) ctx [.code (.symbol p.name), .list items] [] env t =
      .ok (.pronoun p ⟨t.masks.size⟩) u := by
  have hplain : (Value.pronoun p ⟨t.masks.size⟩).IsPlain := ⟨rfl, nofun, nofun, nofun⟩
  have hdots : p.name ≠ dotsName := by cases p <;> decide
  have hposition : dotsPosition? p.name = none := by cases p <;> decide
  refine evalTidy_of_slot hplain hdots hposition n fun u home hmask => ?_
  change u.maskSlot? t.masks.size p.name = _
  unfold Store.maskSlot?
  rw [hmask]
  cases p <;> rfl

theorem substitute_of_picks {items : List (Tagged Value)} (hname : Tagged.Picks items name v)
    (hv : v.IsPlain) : substituteFrom ctx (.list items) (.symbol name) s = .ok v.toExpr s := by
  have hvalue : Substitution.substitute s (Bindings.get? (Tagged.toBindings items)) (.symbol name) =
      v.toExpr := by
    rw [Substitution.substitute, Substitution.symbolValue, hname.get?_toBindings]
    cases v with
    | code e =>
        cases e with
        | missing => exact absurd rfl hv.ne_missing
        | _ => rfl
    | promise p => exact absurd rfl (hv.ne_promise p)
    | dots entries => exact absurd rfl (hv.ne_dots entries)
    | _ => rfl
  change EStateM.Result.ok _ s = _
  rw [hvalue]

/-! ## Reading an element -/

section Read

variable {items : List (Tagged Value)} {l : Expr} {levels n : Nat}

/-- A name that is bound to a value has it as long as the store grows. -/
theorem yields_bound (hs : s.Whole) (henv : s.known env = env) (hdots : name ≠ dotsName)
    (hposition : dotsPosition? name = none) (h : s.slot? env name = some v) (hv : v.IsPlain) :
    (Footing.grown s).Yields ctx 1 env (.symbol name) v := by
  intro n hn t ht
  obtain ⟨n, rfl, -⟩ := Footing.exists_level hn
  have hslot : t.slot? env name = some v := (Store.Grows.slot? hs ht henv name).trans h
  exact Footing.ends_of_ok (eval_symbol_of_slot hdots hposition hslot hv n) (.refl ht) rfl

/-- Code that stands for a name. -/
def quoted (name : String) : Expr := .apply "quote" [.symbol name]

theorem yields_quoted (hs : s.Whole) (henv : s.known env = env)
    (hquote : s.Offers env (.special .quote)) (name : String) :
    (Footing.grown s).Yields ctx 1 env (quoted name) (.code (.symbol name)) := by
  intro n hn t ht
  obtain ⟨n, rfl, -⟩ := Footing.exists_level hn
  obtain ⟨home, hname⟩ := hquote.grow hs ht henv
  exact Footing.ends_of_ok (eval_call_of_calls hname ctx _) (.refl ht) rfl

theorem gives_primitive {fn : Primitive} {a b : Expr} {x y : Value} (henv : s.known env = env)
    (hname : s.Offers env (.primitive fn)) (hfirst : (Footing.grown s).Yields ctx levels env a x)
    (hsecond : (Footing.grown s).Yields ctx levels env b y) (hn : levels ≤ n)
    (hvalue : ∀ t, ∃ u, applyPrimitive (ofLevel n) ctx fn [x, y] [] env t = .ok v u) :
    (ofLevel (n + 1)).Gives ctx env s (.apply fn.name [a, b]) v := by
  obtain ⟨t, heval⟩ := Footing.exists_primitive (Store.Grows.refl s) henv hname hfirst hsecond hn
  obtain ⟨u, hu⟩ := hvalue t
  exact ⟨u, heval.trans hu⟩

section List

variable (hlist : (Footing.grown s).Yields ctx levels env l (.list items)) (hn : levels ≤ n)

include hlist hn

theorem gives_member (hmember : s.Offers env (.special .member)) (hname : Tagged.Picks items name v) :
    (ofLevel (n + 1)).Gives ctx env s (.apply "$" [l, .symbol name]) v := by
  obtain ⟨home, hcalls⟩ := hmember
  obtain ⟨t, ht, -⟩ := (hlist n hn s (.refl s)).value
  have hget : getMember (ofLevel n) (.list items) name t = .ok v t := by
    change EStateM.Result.ok ((Tagged.get? items name).getD .null) t = _
    rw [hname.get?_eq]
    rfl
  exact ⟨t, (eval_call_of_calls hcalls ctx _).trans ((bind_of_ok ht).trans hget)⟩

theorem gives_substitute {pm : Bool} (hpm : s.settings.partialMatching = .ok pm)
    (hsubstitute : s.Offers env (.special .substitute)) (hname : Tagged.Picks items name v)
    (hv : v.IsPlain) : (ofLevel (n + 1)).Gives ctx env s (.apply "substitute" [.symbol name, l])
      (.code v.toExpr) := by
  obtain ⟨home, hcalls⟩ := hsubstitute
  obtain ⟨t, ht, -⟩ := (hlist n hn s (.refl s)).value
  have hmatched : matchSlots ["expr", "env"] [.bare (.symbol name), .bare l] s =
      .ok [("expr", .symbol name), ("env", l)] s := by
    have hmatch := matchFormals_eq hpm ["expr", "env"] Expr.deparse
      [.bare (.symbol name), .bare l] none
    have hbound : matchArguments ["expr", "env"] Expr.deparse pm
        [.bare (.symbol name), .bare l] = .ok ⟨[("expr", .symbol name), ("env", l)], []⟩ := by
      cases pm <;> rfl
    rw [hbound] at hmatch
    exact bind_of_ok hmatch
  have hsource : substituteForm (ofLevel n) ctx [.bare (.symbol name), .bare l] env s = (do
      let source ← (ofLevel n).eval ctx l env
      pure (.code (← substituteFrom ctx source (.symbol name))) : Run Value) s := by
    rw [substituteForm, bind_of_ok hmatched]
    have hl := (hlist.isArgument (.refl s)).1
    cases l with
    | missing => cases hl
    | _ => rfl
  refine ⟨t, (eval_call_of_calls hcalls ctx _).trans (hsource.trans ?_)⟩
  rw [bind_of_ok ht]
  exact bind_of_ok (substitute_of_picks hname hv)

end List

/-- The functions that read elements of lists by their names. -/
def readers : List Builtin :=
  [.special .member, .special .substitute, .special .quote, .primitive .element, .primitive .eval,
    .primitive .evalTidy]

/-- A name of a list stands for the same element in whichever way it is read, if all elements with
this name are the same value. It is found by member access, by subscript and by substitution. It is
found too by evaluation of the name with the list as data, in a child environment unless the name
stands for arguments, and in a mask unless it stands for arguments or a pronoun. -/
theorem named_element_agrees {pm : Bool} (hs : s.Whole) (henv : s.known env = env)
    (hpm : s.settings.partialMatching = .ok pm) (hreaders : ∀ b ∈ readers, s.Offers env b)
    (hlist : (Footing.grown s).Yields ctx levels env l (.list items)) (hn : levels + 1 ≤ n)
    (hname : Tagged.Picks items name v) (hv : v.IsPlain) :
    (ofLevel (n + 1)).Gives ctx env s (.apply "$" [l, .symbol name]) v ∧
    (ofLevel (n + 1)).Gives ctx env s (.apply "[[" [l, .const (.str name)]) v ∧
    (ofLevel (n + 1)).Gives ctx env s (.apply "substitute" [.symbol name, l]) (.code v.toExpr) ∧
    (name ≠ dotsName → dotsPosition? name = none →
      (ofLevel (n + 1)).Gives ctx env s (.apply "eval" [quoted name, l]) v ∧
      (isPronoun name = false →
        (ofLevel (n + 1)).Gives ctx env s (.apply "eval_tidy" [quoted name, l]) v)) := by
  obtain ⟨k, rfl, -⟩ := Footing.exists_level hn
  have hlater := hlist.mono (Nat.le_succ levels)
  have hquoted : (Footing.grown s).Yields ctx (levels + 1) env (quoted name) (.code (.symbol name)) :=
    (yields_quoted hs henv (hreaders _ (by decide)) name).mono (by omega)
  have htext : (Footing.grown s).Yields ctx (levels + 1) env (.const (.str name)) (.str name) :=
    (Footing.yields_const (fun _ _ h => by cases h) env).mono (by omega)
  refine ⟨gives_member hlater hn (hreaders _ (by decide)) hname, ?_,
    gives_substitute hlater hn hpm (hreaders _ (by decide)) hname hv,
    fun hdots hposition => ⟨?_, fun hpronoun => ?_⟩⟩
  · refine gives_primitive henv (hreaders (.primitive .element) (by decide)) hlater htext hn
      fun t => ⟨t, ?_⟩
    change EStateM.Result.ok ((Tagged.get? items name).getD .null) t = _
    rw [hname.get?_eq]
    rfl
  · exact gives_primitive henv (hreaders (.primitive .eval) (by decide)) hquoted hlater hn fun t =>
      evalCode_of_picks hv hdots hposition hname k
  · exact gives_primitive henv (hreaders (.primitive .evalTidy) (by decide)) hquoted hlater hn
      fun t => evalTidy_of_picks hv hdots hposition hname hpronoun k

end Read

/-- An environment with the functions that read elements, and a list. -/
def listStore (items : List (Tagged Value)) : Store where
  scopes := #[⟨("l", .list items) :: readers.map fun b => (b.name, .builtin b .empty), .empty, none⟩]

theorem whole_listStore (items : List (Tagged Value)) : (listStore items).Whole :=
  Store.whole_of_single rfl rfl rfl rfl

theorem offers_listStore (items : List (Tagged Value)) :
    ∀ b ∈ readers, (listStore items).Offers (.scope 0) b := by
  simp only [readers, List.forall_mem_cons]
  refine ⟨?_, ?_, ?_, ?_, ?_, ?_, nofun⟩ <;> exact ⟨.empty, .here rfl rfl rfl⟩

/-- The list is read as it is. -/
theorem yields_listStore (items : List (Tagged Value)) :
    (Footing.grown (listStore items)).Yields ⟨0⟩ 1 (.scope 0) (.symbol "l") (.list items) :=
  yields_bound (whole_listStore items) rfl (by decide) (by decide) rfl ⟨rfl, nofun, nofun, nofun⟩

/-- An expression has a value where the list is. -/
def ListGives (items : List (Tagged Value)) (e : Expr) (v : Value) : Prop :=
  (ofLevel 4).Gives ⟨0⟩ (.scope 0) (listStore items) e v

/-- An element is found beside another one with a name and one without. -/
theorem named_element_agrees_pair : ∃ items : List (Tagged Value),
    items = [⟨some "a", .int 1⟩, ⟨some "b", .str "x"⟩, .bare (.int 2)] ∧
    Tagged.Picks items "b" (.str "x") ∧
    ListGives items (.apply "$" [.symbol "l", .symbol "b"]) (.str "x") ∧
    ListGives items (.apply "eval_tidy" [quoted "b", .symbol "l"]) (.str "x") := by
  let items : List (Tagged Value) := [⟨some "a", .int 1⟩, ⟨some "b", .str "x"⟩, .bare (.int 2)]
  have hpicks : Tagged.Picks items "b" (.str "x") :=
    ⟨⟨⟨some "b", .str "x"⟩, by simp [items], rfl⟩, by simp [items, Tagged.bare]⟩
  obtain ⟨hmember, -, -, hevaluated⟩ := named_element_agrees (n := 3) (whole_listStore items) rfl rfl
    (offers_listStore items) (yields_listStore items) (by decide) hpicks ⟨rfl, nofun, nofun, nofun⟩
  exact ⟨items, rfl, hpicks, hmember, (hevaluated (by decide) (by decide)).2 (by decide)⟩

/-- Elements one of which has the name of an argument, one the name of a pronoun, and two the same
name. -/
def clashing : List (Tagged Value) :=
  [⟨some "..1", .int 0⟩, ⟨some ".data", .int 1⟩, ⟨some "a", .int 2⟩, ⟨some "a", .int 3⟩]

/-- Of two elements with one name member access finds the first one and evaluation the last one. A
name that stands for an argument is not looked up among elements, and a mask has its pronouns in
front of them. -/
theorem named_element_differs :
    (ListGives clashing (.apply "$" [.symbol "l", .symbol "a"]) (.int 2) ∧
      ListGives clashing (.apply "eval" [quoted "a", .symbol "l"]) (.int 3)) ∧
    (ListGives clashing (.apply "$" [.symbol "l", .symbol "..1"]) (.int 0) ∧
      ∀ v, ¬ ListGives clashing (.apply "eval" [quoted "..1", .symbol "l"]) v) ∧
    ListGives clashing (.apply "$" [.symbol "l", .symbol ".data"]) (.int 1) ∧
      ∃ mask, ListGives clashing (.apply "eval_tidy" [quoted ".data", .symbol "l"])
        (.pronoun .data mask) := by
  refine ⟨⟨⟨_, rfl⟩, _, rfl⟩, ⟨⟨_, rfl⟩, ?_⟩, ⟨_, rfl⟩, ?_⟩
  · rintro v ⟨t, h⟩
    cases h
  · have hquoted : (Footing.grown (listStore clashing)).Yields ⟨0⟩ 1 (.scope 0) (quoted ".data")
        (.code (.symbol ".data")) :=
      yields_quoted (whole_listStore _) rfl (offers_listStore _ _ (by decide)) ".data"
    have hknown : (listStore clashing).known (.scope 0) = .scope 0 := rfl
    obtain ⟨t, ht⟩ := Footing.exists_primitive (F := Footing.grown (listStore clashing)) (n := 3)
      (Store.Grows.refl _) hknown (offers_listStore _ (.primitive .evalTidy) (by decide)) hquoted
      (yields_listStore _) (by decide)
    obtain ⟨u, hu⟩ := evalTidy_pronoun ⟨0⟩ (.scope 0) t clashing .data 2
    exact ⟨_, u, ht.trans hu⟩

end Machine

end Quasi
