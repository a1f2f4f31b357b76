import Quasi.Proofs.Hidden.Machine
import Quasi.Quotation.Template

/-!
# Calls to which hidden promises do not matter

Matching and binding arguments, calling closures, and evaluation under a mask. How an argument is
shown that nothing takes is the same in veiled stores. The code that is captured of arguments, and
that templates are expanded with, is that of promises which were mentioned.
-/

namespace Quasi

open Run (Discreet)
open Run.Discreet (andThen read update of_value of_modify search mapM)

variable {hidden : PromiseId → Prop} {α : Type} [Mention α]

namespace Machine

variable {m : Machine} [m.IsDiscreet hidden] (ctx : EvaluatorId)

/-! ## Matching -/

theorem matchFormals_congr {describe describe' : α → String}
    (hd : ∀ a, Conceals hidden a → describe a = describe' a) (formals : List String)
    (supplied : List (Tagged α)) (call : Option Expr) [Conceals hidden supplied] :
    matchFormals formals describe supplied call = matchFormals formals describe' supplied call := by
  have hexact : Conceals hidden
      (Matching.exactRound formals [] (Matching.number supplied)) :=
    conceals_exactRound formals inferInstance inferInstance
  unfold matchFormals
  generalize Matching.exactRound formals [] (Matching.number supplied) = r at hexact
  cases r with
  | error fault => rfl
  | ok state =>
      simp only [pure_bind, finish_congr hd formals _ (conceals_ok.mp hexact)]

instance (formals : List String) (describe : α → String) (supplied : List (Tagged α))
    (call : Option Expr) [Conceals hidden supplied] [Conceals hidden call] :
    Discreet hidden (matchFormals formals describe supplied call) := by
  have htoFailure {β : Type} [Mention β] (r : Except ArityFault β) : Conceals hidden r →
      Discreet hidden (match r with
        | .ok b => pure b
        | .error fault => Run.failWith (.arity fault) call : Run β) := fun hr => by
    cases r with
    | ok b =>
        have hb := conceals_ok.mp hr
        infer_instance
    | error fault => infer_instance
  have hexact : Conceals hidden
      (Matching.exactRound formals [] (Matching.number supplied)) :=
    conceals_exactRound formals inferInstance inferInstance
  unfold matchFormals
  refine .bind (htoFailure _ hexact) fun state hstate => read (fun h => by rw [h.settings]) fun s _ => ?_
  split
  · infer_instance
  · exact htoFailure _ (conceals_finish formals describe _ hstate)

instance (names : List String) (slots : List Slot) [Conceals hidden slots] :
    Discreet hidden (matchSlots names slots) := by
  unfold matchSlots
  refine andThen fun matched hmatched => ?_
  have hbound : Conceals hidden matched.bound := ⟨hmatched.out.1⟩
  infer_instance

/-! ## Arguments -/

instance (env : EnvId) (slots : List Slot) [hslots : Conceals hidden slots] :
    Discreet hidden (promiseArgs ctx env slots) := by
  revert hslots
  induction slots with
  | nil =>
      intro _
      unfold promiseArgs
      infer_instance
  | cons slot rest ih =>
      intro hslots
      obtain ⟨hslot, hrest⟩ := conceals_cons.mp hslots
      have he := conceals_item.mpr hslot
      unfold promiseArgs
      split
      · exact andThen fun supplied _ => inferInstance
      · split
        · exact andThen fun entries _ => andThen fun supplied _ => inferInstance
        · exact andThen fun p _ => andThen fun supplied _ => inferInstance

instance (call : Expr) (supplied : List (Tagged Value)) (positional : List Value)
    (named : Bindings Value) [Conceals hidden call] [hsupplied : Conceals hidden supplied]
    [hpositional : Conceals hidden positional] [hnamed : Conceals hidden named] :
    Discreet hidden (m.forceArgs ctx call supplied positional named) := by
  revert hsupplied hpositional hnamed
  induction supplied generalizing positional named with
  | nil =>
      intro _ _ _
      unfold forceArgs
      infer_instance
  | cons t rest ih =>
      intro hsupplied _ _
      obtain ⟨ht, hrest⟩ := conceals_cons.mp hsupplied
      have hitem := conceals_item.mpr ht
      unfold forceArgs
      split
      · infer_instance
      · refine andThen fun v _ => ?_
        split <;> infer_instance

instance (slots : List Slot) (env : EnvId) (call : Expr) [Conceals hidden slots]
    [Conceals hidden call] : Discreet hidden (m.evalArgs ctx slots env call) := by
  unfold evalArgs
  exact andThen fun supplied _ => inferInstance

/-! ## Closures -/

instance (env : EnvId) (name : String) (default : Expr) [Conceals hidden default] :
    Discreet hidden (bindFormals.bindDefault ctx env name default) := by
  unfold bindFormals.bindDefault
  exact andThen fun p _ => inferInstance

instance (env : EnvId) (matched : Matched Value) (formals : List (String × Expr))
    [hmatched : Conceals hidden matched] [hformals : Conceals hidden formals] :
    Discreet hidden (bindFormals ctx env matched formals) := by
  have hbound : Conceals hidden matched.bound := ⟨hmatched.out.1⟩
  have hdots : Conceals hidden matched.dots := ⟨hmatched.out.2⟩
  revert hformals
  induction formals with
  | nil =>
      intro _
      unfold bindFormals
      infer_instance
  | cons formal rest ih =>
      intro hformals
      obtain ⟨name, default⟩ := formal
      obtain ⟨hformal, hrest⟩ := conceals_cons.mp hformals
      have hdefault : Conceals hidden default := (conceals_pair.mp hformal).2
      have hgiven : Conceals hidden (matched.bound.get? name) := inferInstance
      unfold bindFormals
      extract_lets last
      have hlast (x : Unit) : Discreet hidden (last x) := ih
      split
      · infer_instance
      · split
        case h_5 v _ hfound _ =>
          have hv : Conceals hidden v := .of_some hfound
          infer_instance
        all_goals infer_instance

instance (c : ClosureId) : Discreet hidden (useClosure c) :=
  of_value (v := fun s => s.closure c) (f := fun s => s.use (.closure c) (some (s.closure c).env))
    (fun _ => rfl) (fun h => by rw [h.closure]) (fun h => h.conceals.out.closure c) fun h => by
      simp only [Store.use_eq]
      exact h.history _ _

instance (c : ClosureId) (supplied : List (Tagged Value)) (call : Expr) (caller : EnvId)
    [Conceals hidden supplied] [Conceals hidden call] :
    Discreet hidden (m.applyClosure ctx c supplied call caller) := by
  unfold applyClosure
  refine andThen fun closure _ => andThen fun env _ => read (fun h => ?_) fun s _ =>
    andThen fun matched _ => inferInstance
  rw [matchFormals_congr fun v hv => h.describe hv]

instance (v : Value) [hv : Conceals hidden v] : Discreet hidden (givenPromise v) := by
  unfold givenPromise
  cases v with
  | code e =>
      have he := conceals_code.mp hv
      exact andThen fun p _ => inferInstance
  | _ => exact andThen fun p _ => inferInstance

/-! ## Masks -/

instance (v : Value) [hv : Conceals hidden v] : Conceals hidden v.asScope := by
  unfold Value.asScope
  split
  next t =>
    have ht := conceals_table.mp hv
    exact conceals_ok.mpr ⟨ht.out⟩
  · exact conceals_ok.mpr ⟨trivial⟩
  · infer_instance
  next entries =>
    have hentries := conceals_mapping.mp hv
    exact conceals_ok.mpr ⟨hentries.out⟩
  next items =>
    have hitems := conceals_items.mp hv
    have hentries : Conceals hidden (Tagged.toBindings items) := inferInstance
    exact conceals_ok.mpr ⟨hentries.out⟩
  next items =>
    have hitems := conceals_formals.mp (conceals_code.mp hv)
    have hentries : Conceals hidden (items.map fun (name, default) =>
        (name, Value.tuple [.str name, .code default])) := conceals_map fun item hitem => by
      have hdefault := (conceals_pair.mp hitem).2
      infer_instance
    exact conceals_ok.mpr ⟨hentries.out⟩
  · infer_instance

instance (sources : List Value) (home : EnvId) [Conceals hidden sources] :
    Discreet hidden (maskOver sources home) := by
  unfold maskOver
  have hscopes : Discreet hidden (sources.mapM fun v => Run.orFail .type v.asScope) :=
    mapM fun v _ => inferInstance
  exact andThen fun scopes _ => inferInstance

instance (data : Value) (home : Option EnvId) [hdata : Conceals hidden data] :
    Discreet hidden (asMask data home) := by
  have hover (sources : List Value) (_ : Conceals hidden sources) (home : EnvId) :
      Discreet hidden (maskOver sources home) := inferInstance
  unfold asMask
  split
  · infer_instance
  · infer_instance
  · infer_instance
  next sources => exact hover sources (conceals_sequence.mp hdata) _
  next sources => exact hover sources (conceals_tuple.mp hdata) _
  · infer_instance

instance (e : Expr) (home env : EnvId) [Conceals hidden e] :
    Discreet hidden (m.evalQuosure ctx e home env) := by
  unfold evalQuosure
  refine andThen fun mask _ => ?_
  split <;> infer_instance

instance (code : Value) (mask : MaskId) (env : Option EnvId) [hcode : Conceals hidden code] :
    Discreet hidden (m.evalUnder ctx code mask env) := by
  unfold evalUnder
  extract_lets last
  have hlast (part : Expr × EnvId) (hpart : Conceals hidden part) : Discreet hidden (last part) := by
    have hbody : Conceals hidden part.1 := (conceals_pair.mp hpart).1
    unfold last
    infer_instance
  clear_value last
  split
  next e home =>
    have he := conceals_quosure.mp hcode
    exact andThen hlast
  · exact andThen hlast
  · exact andThen fun home _ => andThen hlast

instance (code data : Value) (env : Option EnvId) [Conceals hidden code] [Conceals hidden data] :
    Discreet hidden (m.evalTidy ctx code data env) := by
  unfold evalTidy
  infer_instance

end Machine

instance {α : Type} [Mention α] {t : Tagged α} [h : Conceals hidden t] : Conceals hidden t.item :=
  conceals_item.mpr h

namespace Machine

variable {m : Machine} [m.IsDiscreet hidden] (ctx : EvaluatorId) (env : EnvId)

/-! ## Capturing -/

instance (p : PromiseId) [hp : Conceals hidden p] : Discreet hidden (capturedCode p) := by
  unfold capturedCode
  refine read (fun h => by rw [h.promise p (conceals_promiseId.mp hp)]) fun s hs => ?_
  have hpromise := hs.out.promise p (conceals_promiseId.mp hp)
  have hprogress : Conceals hidden (s.promise p).progress := ⟨hpromise.out.2⟩
  dsimp only
  split
  next v hfound =>
    have hv : Conceals hidden v := conceals_given.mp (hfound ▸ hprogress)
    infer_instance
  · infer_instance
  · infer_instance
  · infer_instance

instance (arg : Expr) : Discreet hidden (argumentBinding arg env) := by
  unfold argumentBinding
  split <;> infer_instance

instance (home : Option EnvId) (code : Expr) [Conceals hidden code] :
    Discreet hidden (m.expandIn ctx home code) := by
  unfold expandIn
  split <;> infer_instance

instance (v : Value) [hv : Conceals hidden v] : Discreet hidden (m.codeOf ctx v) := by
  unfold codeOf
  split
  next p =>
    have hp := conceals_promise.mp hv
    refine andThen fun code _ => read (fun h => by rw [h.promise p (conceals_promiseId.mp hp)])
      fun s _ => inferInstance
  · infer_instance

instance (v : Value) [hv : Conceals hidden v] : Discreet hidden (m.quosureOf ctx v) := by
  unfold quosureOf
  split
  next p =>
    have hp := conceals_promise.mp hv
    refine andThen fun code _ => read (fun h => by rw [h.promise p (conceals_promiseId.mp hp)])
      fun s _ => andThen fun code hcode => ?_
    split
    next e home =>
      have he := conceals_quosure.mp (conceals_const.mp hcode)
      infer_instance
    · infer_instance
  · infer_instance

instance (arg : Expr) : Discreet hidden (m.captureCode ctx arg env) := by
  unfold captureCode
  exact andThen fun v _ => inferInstance

instance (arg : Expr) : Discreet hidden (m.captureQuosure ctx arg env) := by
  unfold captureQuosure
  exact andThen fun v _ => inferInstance

theorem discreet_captureDots {capture : Value → Run Value}
    (hcapture : ∀ v, Conceals hidden v → Discreet hidden (capture v))
    {entries : List (Tagged Value)} (hentries : Conceals hidden entries) :
    Discreet hidden (captureDots capture entries) := by
  induction entries with
  | nil => unfold captureDots; infer_instance
  | cons t rest ih =>
      obtain ⟨ht, hrest⟩ := conceals_cons.mp hentries
      have hlast := ih hrest
      have hitem := hcapture t.item inferInstance
      unfold captureDots
      split
      · infer_instance
      · exact andThen fun captured _ => andThen fun others _ => inferInstance

instance (source : Value) (e : Expr) [hsource : Conceals hidden source] [he : Conceals hidden e] :
    Discreet hidden (substituteFrom ctx source e) := by
  unfold substituteFrom
  refine read (fun h => ?_) fun s hs => ?_
  · have hsubstitute (bound : String → Option Value) :=
      @Store.substitute_congr _ _ _ bound h.toHiddenApart e
    simp only [hsubstitute, h.evaluator, h.slot?]
  · have hsubstitute {bound : String → Option Value} (hbound : ∀ name, Conceals hidden (bound name)) :
        Conceals hidden (Substitution.substitute s bound e) := Store.conceals_substitute hbound he
    split
    next home =>
      have hresult := hsubstitute fun name => (inferInstance : Conceals hidden (s.slot? home name))
      infer_instance
    next entries =>
      have hentries := conceals_mapping.mp hsource
      have hresult := hsubstitute fun name =>
        (inferInstance : Conceals hidden (Bindings.get? entries name))
      infer_instance
    next items =>
      have hitems := conceals_items.mp hsource
      have hresult := hsubstitute fun name =>
        (inferInstance : Conceals hidden (Bindings.get? (Tagged.toBindings items) name))
      infer_instance
    · infer_instance

/-! ## Templates -/

instance (v : Value) [Conceals hidden v] : Discreet hidden (splicedItems v) := by
  unfold splicedItems
  refine andThen fun items _ => mapM fun slot _ => ?_
  split
  · exact andThen fun v _ => inferInstance
  · infer_instance

instance (arg : Expr) : Discreet hidden (m.embrace ctx arg env) := by
  unfold embrace
  split <;> infer_instance

instance (lhs : Expr) [hlhs : Conceals hidden lhs] : Discreet hidden (m.injectedName ctx lhs env) := by
  unfold injectedName
  extract_lets last
  have hlast (v : Value) : Discreet hidden (last v) := by unfold last; split <;> infer_instance
  clear_value last
  have hinjection : Conceals hidden lhs.injection? := inferInstance
  split
  next operand hfound =>
    have hoperand : Conceals hidden operand := conceals_unquote.mp (.of_some hfound)
    exact andThen fun v _ => inferInstance
  · split
    next v =>
      have hv := conceals_const.mp hlhs
      exact andThen fun v _ => inferInstance
    · exact andThen fun v _ => inferInstance

instance (head : Expr) (slots : List Slot) : Discreet hidden (checkCall head slots) := by
  unfold checkCall
  extract_lets last
  have hlast (x : Unit) : Discreet hidden (last x) := by unfold last; split <;> infer_instance
  clear_value last
  split <;> infer_instance

omit [m.IsDiscreet hidden] in
mutual

theorem discreet_expandTemplate [m.IsDiscreet hidden] {e : Expr} (he : Conceals hidden e) :
    Discreet hidden (m.expandTemplate ctx env e) := by
  match e with
  | .call head slots =>
      obtain ⟨hhead, hslots⟩ := conceals_call.mp he
      have hinjection : Conceals hidden (Expr.call head slots).injection? := inferInstance
      have hexpanded := discreet_expandTemplate hhead
      have hitems : Discreet hidden (m.expandSlots ctx env head slots) :=
        discreet_expandSlots hslots
      unfold expandTemplate
      split
      next operand hfound =>
        have hoperand : Conceals hidden operand := conceals_unquote.mp (.of_some hfound)
        exact andThen fun v _ => inferInstance
      · exact andThen fun v _ => inferInstance
      · infer_instance
      · exact andThen fun _ _ => andThen fun head' _ => andThen fun slots' _ => inferInstance
  | .formals items =>
      have hitems := discreet_expandFormals (conceals_formals.mp he)
      unfold expandTemplate
      exact andThen fun items' _ => inferInstance
  | .const _ | .symbol _ | .missing =>
      unfold expandTemplate
      infer_instance
termination_by structural e

theorem discreet_expandSlots [m.IsDiscreet hidden] {head : Expr} {slots : List (Tagged Expr)}
    (hslots : Conceals hidden slots) : Discreet hidden (m.expandSlots ctx env head slots) := by
  match slots with
  | [] =>
      unfold expandSlots
      infer_instance
  | ⟨tag, e⟩ :: rest =>
      obtain ⟨hslot, hrest⟩ := conceals_cons.mp hslots
      have he := conceals_tagged.mp hslot
      have hinjection : Conceals hidden e.injection? := inferInstance
      have hnames : Conceals hidden e.nameAssign? := inferInstance
      have hitem := discreet_expandTemplate he
      have hassigned := discreet_expandAssigned he
      have hlater : Discreet hidden (m.expandSlots ctx env head rest) :=
        discreet_expandSlots hrest
      unfold expandSlots
      extract_lets last
      have hlast (here : List Slot) (hhere : Conceals hidden here) :
          Discreet hidden (last here) := andThen fun others _ => inferInstance
      clear_value last
      split
      · exact andThen hlast
      next operand hfound =>
        have hoperand : Conceals hidden operand := conceals_splice.mp (.of_some hfound)
        exact andThen fun v _ => andThen fun items hitems =>
          andThen fun _ _ => hlast items hitems
      next lhs rhs hfound _ =>
        have hsides : Conceals hidden (lhs, rhs) := .of_some hfound
        have hlhs := (conceals_pair.mp hsides).1
        exact andThen fun name _ => andThen fun rhs' _ => andThen hlast
      · exact andThen fun e' _ => andThen hlast
termination_by structural slots

theorem discreet_expandAssigned [m.IsDiscreet hidden] {e : Expr} (he : Conceals hidden e) :
    Discreet hidden (m.expandAssigned ctx env e) := by
  match e with
  | .call _ [_, ⟨_, rhs⟩] =>
      have hslots := (conceals_call.mp he).2
      have hrhs := discreet_expandTemplate
        (conceals_tagged.mp (conceals_cons.mp (conceals_cons.mp hslots).2).1)
      unfold expandAssigned
      infer_instance
  | .call _ [] | .call _ [_] | .call _ (_ :: _ :: _ :: _) | .const _ | .symbol _ | .formals _
  | .missing =>
      unfold expandAssigned
      infer_instance
termination_by structural e

theorem discreet_expandFormals [m.IsDiscreet hidden] {items : List (String × Expr)}
    (hitems : Conceals hidden items) : Discreet hidden (m.expandFormals ctx env items) := by
  match items with
  | [] =>
      unfold expandFormals
      infer_instance
  | (name, e) :: rest =>
      obtain ⟨hitem, hrest⟩ := conceals_cons.mp hitems
      have hexpanded := discreet_expandTemplate (conceals_pair.mp hitem).2
      have hlater := discreet_expandFormals hrest
      unfold expandFormals
      exact andThen fun e' _ => andThen fun others _ => inferInstance
termination_by structural items

end

end Machine

end Quasi
