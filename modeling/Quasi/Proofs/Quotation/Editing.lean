import Quasi.Proofs.Quotation.Part

/-!
# Laws of editing by position

A template is edited one part at a time. What is put at a path is read there, putting a part where
it already is changes nothing, and of two edits at one path the later counts. Neither of two
disjoint paths leads into the part that the other one leads to: an edit at one of them is not seen
at the other, and edits at both can be made in any order.
-/

namespace Quasi

namespace Expr

/-- Whether the second of two paths leads to the part that the first one leads to, or into it. One
position may be counted from either end. -/
def leadsInto : Expr → List Int → List Int → Bool
  | _, [], _ => true
  | .call head slots, i :: p, j :: q =>
      match position? (slots.length + 1) i, position? (slots.length + 1) j with
      | .ok m, .ok n => m = n && ((part? head slots m).getD .missing).leadsInto p q
      | _, _ => false
  | _, _ :: _, _ => false

/-- Whether neither of two paths leads into the part that the other one leads to. -/
def disjoint (e : Expr) (p q : List Int) : Bool := !e.leadsInto p q && !e.leadsInto q p

/-- The names of the arguments of the call that a path leads to. -/
def tagsAt? (e : Expr) (path : List Int) : Option (List (Option String)) :=
  match e.partAt? path with
  | some (.call _ slots) => some (slots.map (·.tag))
  | _ => none

/-- A path leads to the head of a call. -/
def EndsAtHead (e : Expr) (path : List Int) : Prop :=
  ∃ above i head slots, path = above ++ [i] ∧ e.partAt? above = some (.call head slots) ∧
    position? (slots.length + 1) i = .ok 0

variable {e head head' part inner new a b : Expr} {slots slots' : List Slot} {i j : Int}
  {p q path : List Int} {k m n : Nat} {name : String}

/-! ## Parts of a call -/

theorem exists_part (hn : position? (slots.length + 1) i = .ok n) :
    ∃ part, part? head slots n = some part := by
  have hlt := lt_of_position? hn
  cases n with
  | zero => exact ⟨head, rfl⟩
  | succ n =>
      have hslot : n < slots.length := by omega
      exact ⟨slots[n].item, by simp [part?, hslot]⟩

theorem tags_of_setPart (h : setPart head slots n new = .call head' slots') :
    slots'.map (·.tag) = slots.map (·.tag) := by
  cases n with
  | zero =>
      cases h
      rfl
  | succ n =>
      cases h
      apply List.ext_getElem?
      intro k
      by_cases hk : n = k <;> cases hslot : slots[k]? <;> simp [hk, hslot]

theorem length_of_setPart (h : setPart head slots n new = .call head' slots') :
    slots'.length = slots.length := by
  simpa using congrArg List.length (tags_of_setPart h)

theorem head_of_setPart (h : setPart head slots n new = .call head' slots') (hn : n ≠ 0) :
    head' = head := by
  cases n with
  | zero => exact absurd rfl hn
  | succ n =>
      cases h
      rfl

theorem part?_of_setPart (h : setPart head slots n new = .call head' slots') (hk : k ≠ n) :
    part? head' slots' k = part? head slots k := by
  cases n with
  | zero =>
      cases h
      cases k with
      | zero => exact absurd rfl hk
      | succ k => rfl
  | succ n =>
      cases h
      cases k with
      | zero => rfl
      | succ k =>
          have hne : n ≠ k := by omega
          simp [part?, hne]

theorem setPart_of_setPart (h : setPart head slots n a = .call head' slots') :
    setPart head' slots' n b = setPart head slots n b := by
  cases n with
  | zero =>
      cases h
      rfl
  | succ n =>
      cases h
      simp only [setPart, List.modify_modify_eq]
      rfl

theorem setPart_same (h : part? head slots n = some part) :
    setPart head slots n part = .call head slots := by
  cases n with
  | zero =>
      cases h
      rfl
  | succ n =>
      obtain ⟨before, tag, after, rfl, rfl⟩ := exists_slot_of_part? h
      exact setPart_slot part

/-- Two parts of a call can be put there in any order. -/
theorem setPart_comm {head₁ head₂ : Expr} {slots₁ slots₂ : List Slot}
    (ha : setPart head slots m a = .call head₁ slots₁)
    (hb : setPart head slots n b = .call head₂ slots₂) (hmn : m ≠ n) :
    setPart head₁ slots₁ n b = setPart head₂ slots₂ m a := by
  cases m with
  | zero =>
      cases n with
      | zero => exact absurd rfl hmn
      | succ n =>
          cases ha
          cases hb
          rfl
  | succ m =>
      cases n with
      | zero =>
          cases ha
          cases hb
          rfl
      | succ n =>
          cases ha
          cases hb
          have hne : m ≠ n := by omega
          simp only [setPart, List.modify_modify_ne _ _ _ hne]

/-! ## Reading after writing -/

/-- Two paths through one part of a call. -/
theorem leadsInto_cons (hi : position? (slots.length + 1) i = .ok n)
    (hj : position? (slots.length + 1) j = .ok n) (hpart : part? head slots n = some part) :
    (Expr.call head slots).leadsInto (i :: p) (j :: q) = part.leadsInto p q := by
  rw [leadsInto, hi, hj]
  simp [hpart]

/-- The call above a part once the part is replaced. -/
theorem exists_replaceAt_cons (hn : position? (slots.length + 1) i = .ok n)
    (hpart : part? head slots n = some inner) (p : List Int) (new : Expr) :
    ∃ head' slots', (Expr.call head slots).replaceAt (i :: p) new = .call head' slots' ∧
      setPart head slots n (inner.replaceAt p new) = .call head' slots' ∧
      part? head' slots' n = some (inner.replaceAt p new) := by
  obtain ⟨head', slots', hset, -, hread⟩ := setPart_eq_call head (inner.replaceAt p new) hn
  exact ⟨head', slots', (replaceAt_cons hn hpart).trans hset, hset, hread⟩

/-- Putting a part where it already is changes nothing. -/
theorem replaceAt_same (h : e.partAt? p = some part) : e.replaceAt p part = e := by
  induction p generalizing e with
  | nil =>
      cases h
      rfl
  | cons i p ih =>
      obtain ⟨head, slots, n, inner, rfl, hn, hinner, hrest⟩ := partAt?_of_cons h
      rw [replaceAt_cons hn hinner, ih hrest, setPart_same hinner]

/-- Of two edits at one path the later counts. -/
theorem replaceAt_replaceAt (h : e.partAt? p = some part) :
    (e.replaceAt p a).replaceAt p b = e.replaceAt p b := by
  induction p generalizing e with
  | nil => rfl
  | cons i p ih =>
      obtain ⟨head, slots, n, inner, rfl, hn, hinner, hrest⟩ := partAt?_of_cons h
      obtain ⟨head', slots', hedit, hset, hread⟩ := exists_replaceAt_cons hn hinner p a
      have hn' : position? (slots'.length + 1) i = .ok n := by rw [length_of_setPart hset, hn]
      rw [hedit, replaceAt_cons hn' hread, ih hrest, setPart_of_setPart hset,
        ← replaceAt_cons hn hinner]

/-- An edit is not seen at a disjoint path. -/
theorem partAt?_replaceAt_of_disjoint (h : e.partAt? p = some part)
    (hpq : e.leadsInto p q = false) (hqp : e.leadsInto q p = false) :
    (e.replaceAt p new).partAt? q = e.partAt? q := by
  induction p generalizing e q with
  | nil => rw [leadsInto] at hpq; cases hpq
  | cons i p ih =>
      obtain ⟨head, slots, n, inner, rfl, hn, hinner, hrest⟩ := partAt?_of_cons h
      obtain ⟨head', slots', hedit, hset, hread⟩ := exists_replaceAt_cons hn hinner p new
      cases q with
      | nil => rw [leadsInto] at hqp; cases hqp
      | cons j q =>
          rw [hedit, partAt?, partAt?, length_of_setPart hset]
          cases hj : position? (slots.length + 1) j with
          | error k => rfl
          | ok m =>
              by_cases hnm : n = m
              · subst hnm
                rw [leadsInto_cons hn hj hinner] at hpq
                rw [leadsInto_cons hj hn hinner] at hqp
                simp only [hread, hinner, Option.bind_some]
                exact ih hrest hpq hqp
              · simp only [part?_of_setPart hset (Ne.symm hnm)]

/-- An edit keeps the names of the arguments of all calls but those that it puts there. -/
theorem tagsAt?_replaceAt (h : e.partAt? p = some part) (hpq : e.leadsInto p q = false) :
    (e.replaceAt p new).tagsAt? q = e.tagsAt? q := by
  induction p generalizing e q with
  | nil => rw [leadsInto] at hpq; cases hpq
  | cons i p ih =>
      obtain ⟨head, slots, n, inner, rfl, hn, hinner, hrest⟩ := partAt?_of_cons h
      obtain ⟨head', slots', hedit, hset, hread⟩ := exists_replaceAt_cons hn hinner p new
      cases q with
      | nil =>
          rw [hedit, tagsAt?, tagsAt?, partAt?, partAt?]
          simp only [tags_of_setPart hset]
      | cons j q =>
          rw [hedit, tagsAt?, tagsAt?, partAt?, partAt?, length_of_setPart hset]
          cases hj : position? (slots.length + 1) j with
          | error k => rfl
          | ok m =>
              by_cases hnm : n = m
              · subst hnm
                rw [leadsInto_cons hn hj hinner] at hpq
                simp only [hread, hinner, Option.bind_some]
                exact ih hrest hpq
              · simp only [part?_of_setPart hset (Ne.symm hnm)]

/-- Edits at disjoint paths can be made in any order. -/
theorem replaceAt_comm (hp : e.partAt? p = some part) {other : Expr}
    (hq : e.partAt? q = some other) (hpq : e.leadsInto p q = false)
    (hqp : e.leadsInto q p = false) :
    (e.replaceAt p a).replaceAt q b = (e.replaceAt q b).replaceAt p a := by
  induction p generalizing e q with
  | nil => rw [leadsInto] at hpq; cases hpq
  | cons i p ih =>
      obtain ⟨head, slots, n, inner, rfl, hn, hinner, hrest⟩ := partAt?_of_cons hp
      cases q with
      | nil => rw [leadsInto] at hqp; cases hqp
      | cons j q =>
          obtain ⟨_, _, m, inner', heq, hm, hinner', hrest'⟩ := partAt?_of_cons hq
          cases heq
          obtain ⟨head₁, slots₁, hedit₁, hset₁, hread₁⟩ := exists_replaceAt_cons hn hinner p a
          obtain ⟨head₂, slots₂, hedit₂, hset₂, hread₂⟩ := exists_replaceAt_cons hm hinner' q b
          have hm₁ : position? (slots₁.length + 1) j = .ok m := by
            rw [length_of_setPart hset₁, hm]
          have hn₂ : position? (slots₂.length + 1) i = .ok n := by
            rw [length_of_setPart hset₂, hn]
          rw [hedit₁, hedit₂]
          by_cases hnm : n = m
          · subst hnm
            cases hinner.symm.trans hinner'
            rw [leadsInto_cons hn hm hinner] at hpq
            rw [leadsInto_cons hm hn hinner] at hqp
            rw [replaceAt_cons hm₁ hread₁, replaceAt_cons hn₂ hread₂, setPart_of_setPart hset₁,
              setPart_of_setPart hset₂, ih hrest hrest' hpq hqp]
          · have hread₁' : part? head₁ slots₁ m = some inner' := by
              rw [part?_of_setPart hset₁ (Ne.symm hnm), hinner']
            have hread₂' : part? head₂ slots₂ n = some inner := by
              rw [part?_of_setPart hset₂ hnm, hinner]
            rw [replaceAt_cons hm₁ hread₁', replaceAt_cons hn₂ hread₂',
              setPart_comm hset₁ hset₂ hnm]

/-! ## Bare names -/

theorem isNameSlot_cons_iff (hn : position? (slots.length + 1) i = .ok n)
    (hpart : part? head slots n = some inner) :
    (Expr.call head slots).IsNameSlot (i :: j :: q) name ↔ inner.IsNameSlot (j :: q) name := by
  constructor
  · rintro ⟨above, k, head', slots', hpath, hcall, hk, hmember⟩
    cases above with
    | nil => cases hpath
    | cons i' above =>
        obtain ⟨rfl, hrest⟩ := List.cons.inj hpath
        rw [partAt?_cons hn, hpart, Option.bind_some] at hcall
        exact ⟨above, k, head', slots', hrest, hcall, hk, hmember⟩
  · rintro ⟨above, k, head', slots', hpath, hcall, hk, hmember⟩
    refine ⟨i :: above, k, head', slots', by rw [hpath, List.cons_append], ?_, hk, hmember⟩
    rw [partAt?_cons hn, hpart, Option.bind_some, hcall]

theorem endsAtHead_cons (hn : position? (slots.length + 1) i = .ok n)
    (hpart : part? head slots n = some inner) (h : inner.EndsAtHead p) :
    (Expr.call head slots).EndsAtHead (i :: p) := by
  obtain ⟨above, k, head', slots', rfl, hcall, hk⟩ := h
  refine ⟨i :: above, k, head', slots', rfl, ?_, hk⟩
  rw [partAt?_cons hn, hpart, Option.bind_some, hcall]

/-- An edit of a part of the head does not make the head an operator of member access. -/
theorem memberHead?_replaceAt_cons (h : e.partAt? (i :: p) = some part) :
    (e.replaceAt (i :: p) new).memberHead? = none := by
  obtain ⟨head, slots, n, inner, rfl, hn, hinner, -⟩ := partAt?_of_cons h
  obtain ⟨head', slots', hedit, -, -⟩ := exists_replaceAt_cons hn hinner p new
  rw [hedit]
  rfl

/-- An edit elsewhere than at a head makes no other part a bare name. -/
theorem isNameSlot_of_replaceAt (hp : e.partAt? p = some part) {other : Expr}
    (hq : e.partAt? q = some other) (hpq : e.leadsInto p q = false) (hhead : ¬ e.EndsAtHead p)
    (h : (e.replaceAt p new).IsNameSlot q name) : e.IsNameSlot q name := by
  induction p generalizing e q with
  | nil => rw [leadsInto] at hpq; cases hpq
  | cons i p ih =>
      obtain ⟨head, slots, n, inner, rfl, hn, hinner, hrest⟩ := partAt?_of_cons hp
      obtain ⟨head', slots', hedit, hset, hread⟩ := exists_replaceAt_cons hn hinner p new
      rw [hedit] at h
      cases q with
      | nil => exact absurd h (not_isNameSlot_nil name)
      | cons j q =>
          obtain ⟨_, _, m, inner', heq, hm, hinner', hrest'⟩ := partAt?_of_cons hq
          cases heq
          have hm' : position? (slots'.length + 1) j = .ok m := by
            rw [length_of_setPart hset, hm]
          cases q with
          | nil =>
              have hroot (head : Expr) (slots : List Slot) :
                  (Expr.call head slots).partAt? [] = some (.call head slots) := rfl
              obtain ⟨rfl, hmember⟩ := (isNameSlot_concat_iff (hroot head' slots') hm' name).mp h
              refine (isNameSlot_concat_iff (hroot head slots) hm name).mpr ⟨rfl, ?_⟩
              by_cases hzero : n = 0
              · subst hzero
                cases hinner
                cases hread
                cases p with
                | nil => exact absurd ⟨[], i, head, slots, rfl, rfl, hn⟩ hhead
                | cons i' p =>
                    rw [memberHead?_replaceAt_cons hrest] at hmember
                    cases hmember
              · rw [← head_of_setPart hset hzero]
                exact hmember
          | cons j' q =>
              rw [isNameSlot_cons_iff hm hinner']
              by_cases hnm : n = m
              · subst hnm
                cases hinner.symm.trans hinner'
                rw [leadsInto_cons hn hm hinner] at hpq
                have hinside : ¬ inner.EndsAtHead p :=
                  fun hends => hhead (endsAtHead_cons hn hinner hends)
                exact ih hrest hrest' hpq hinside ((isNameSlot_cons_iff hm' hread).mp h)
              · have hread' : part? head' slots' m = some inner' := by
                  rw [part?_of_setPart hset (Ne.symm hnm), hinner']
                exact (isNameSlot_cons_iff hm' hread').mp h

/-- The part at a path is a bare name afterwards only if it was one before. -/
theorem isNameSlot_of_replaceAt_same (hp : e.partAt? p = some part)
    (h : (e.replaceAt p new).IsNameSlot p name) : e.IsNameSlot p name := by
  rcases List.eq_nil_or_concat p with rfl | ⟨above, i, rfl⟩
  · exact absurd h (not_isNameSlot_nil name)
  · rw [List.concat_eq_append] at hp h ⊢
    obtain ⟨head, slots, n, hcall, hn, hpart⟩ := exists_call_of_partAt? hp
    rw [replaceAt_concat hcall hn hpart] at h
    obtain ⟨head', slots', hset, hlength, -⟩ := setPart_eq_call head new hn
    have hcall' : (e.replaceAt above (setPart head slots n new)).partAt? above =
        some (.call head' slots') := hset ▸ partAt?_replaceAt hcall
    have hn' : position? (slots'.length + 1) i = .ok n := by rw [hlength, hn]
    obtain ⟨rfl, hmember⟩ := (isNameSlot_concat_iff hcall' hn' name).mp h
    refine (isNameSlot_concat_iff hcall hn name).mpr ⟨rfl, ?_⟩
    rw [← head_of_setPart hset (by omega), hmember]

end Expr

/-! ## Edits -/

namespace Template

open Quasi.Expr

variable {t head part : Expr} {slots items : List Slot} {i : Int} {p q above : List Int}
  {k : Nat} {v : Value}

/-- A value is put in the place of any part that is no bare name. -/
theorem unquote_eq (hpart : t.partAt? p = some part) (hname : ∀ name, ¬ t.IsNameSlot p name) :
    unquote t p v = .ok (t.replaceAt p v.toExpr) := by
  rcases List.eq_nil_or_concat p with rfl | ⟨above, i, rfl⟩
  · rfl
  · rw [List.concat_eq_append] at hpart hname ⊢
    obtain ⟨head, slots, n, hcall, hn, hpart⟩ := exists_call_of_partAt? hpart
    have hcheck : checkMemberSlot head n = .ok () :=
      checkMemberSlot_eq_ok fun name h => hname name ((isNameSlot_concat_iff hcall hn name).mpr h)
    rw [unquote_concat hcall hn, hcheck, replaceAt_concat hcall hn hpart]
    rfl

/-- Items are put in the place of any argument that is no bare name. -/
theorem unquoteSplice_eq (hcall : t.partAt? above = some (.call head slots))
    (hn : position? (slots.length + 1) i = .ok (k + 1))
    (hname : ∀ name, ¬ t.IsNameSlot (above ++ [i]) name) (hitems : v.spliceItems = .ok items) :
    unquoteSplice t (above ++ [i]) v = .ok (t.replaceAt above
      (.call head (slots.take k ++ items ++ slots.drop (k + 1)))) := by
  have hcheck : checkMemberSlot head (k + 1) = .ok () :=
    checkMemberSlot_eq_ok fun name h => hname name ((isNameSlot_concat_iff hcall hn name).mpr h)
  rw [unquoteSplice_concat hitems hcall hn, hcheck]
  rfl

/-- Only a call has parts to edit. -/
theorem edit_of_not_call (change : Expr → List Slot → Nat → Except Cause Expr) (i : Int)
    (rest : List Int) (h : ∀ head slots, t ≠ .call head slots) :
    ∃ cause, edit change t i rest = .error cause ∧ cause.typeName = "RhoUnquoteError" := by
  cases rest <;> exact ⟨_, by rw [edit]; exact h, rfl⟩

/-- An edit at a path that leads to no part is refused. -/
theorem edit_of_partAt?_none (change : Expr → List Slot → Nat → Except Cause Expr)
    {rest : List Int} (h : t.partAt? (i :: rest) = none) :
    ∃ cause, edit change t i rest = .error cause ∧ cause.typeName = "RhoUnquoteError" := by
  induction rest generalizing t i with
  | nil =>
      cases t with
      | call head slots =>
          cases hn : position? (slots.length + 1) i with
          | error j => exact ⟨_, by rw [edit, hn], rfl⟩
          | ok n =>
              obtain ⟨part, hpart⟩ : ∃ part, part? head slots n = some part := exists_part hn
              rw [partAt?_cons hn, hpart] at h
              cases h
      | _ => exact edit_of_not_call change _ _ (by intro head slots h; cases h)
  | cons j rest ih =>
      cases t with
      | call head slots =>
          cases hn : position? (slots.length + 1) i with
          | error k => exact ⟨_, by rw [edit, hn], rfl⟩
          | ok n =>
              obtain ⟨part, hpart⟩ : ∃ part, part? head slots n = some part := exists_part hn
              rw [partAt?_cons hn, hpart, Option.bind_some] at h
              obtain ⟨cause, hcause, hname⟩ := ih h
              refine ⟨cause, ?_, hname⟩
              rw [edit, hn]
              simp only [hpart, Option.getD_some, hcause]
              rfl
      | _ => exact edit_of_not_call change _ _ (by intro head slots h; cases h)

/-- Reading and writing by position obey the laws of an editor of trees. A value that is put at a
path is read there as it is, and nothing changes but what the path leads to. Items that are spliced
stand in the place of one argument. A path that leads to no part is refused. -/
theorem editing_laws (t : Expr) {p : List Int} (hne : p ≠ []) :
    (∀ part, t.partAt? p = some part → (∀ name, ¬ t.IsNameSlot p name) →
      unquote t p (.code part) = .ok t ∧
      ∀ v, ∃ r, unquote t p v = .ok r ∧ r.partAt? p = some v.toExpr ∧
        (∀ w, unquote r p w = unquote t p w) ∧
        (∀ q, t.disjoint p q = true → r.partAt? q = t.partAt? q) ∧
        (∀ q, t.leadsInto p q = false → r.tagsAt? q = t.tagsAt? q) ∧
        ∀ q other w, t.partAt? q = some other → (∀ name, ¬ t.IsNameSlot q name) →
          t.disjoint p q = true → ¬ t.EndsAtHead p → ¬ t.EndsAtHead q →
          ∃ u z, unquote t q w = .ok u ∧ unquote r q w = .ok z ∧ unquote u p v = .ok z) ∧
    (∀ above i head slots k v items, p = above ++ [i] → t.partAt? above = some (.call head slots) →
      position? (slots.length + 1) i = .ok (k + 1) → (∀ name, ¬ t.IsNameSlot p name) →
      v.spliceItems = .ok items →
      ∃ r, unquoteSplice t p v = .ok r ∧
        r.partAt? above = some (.call head (slots.take k ++ items ++ slots.drop (k + 1))) ∧
        (∀ q, t.disjoint above q = true → r.partAt? q = t.partAt? q) ∧
        ∀ q, t.leadsInto above q = false → r.tagsAt? q = t.tagsAt? q) ∧
    (t.partAt? p = none → ∀ v,
      (∃ cause, unquote t p v = .error cause ∧ cause.typeName = "RhoUnquoteError") ∧
      ∀ items, v.spliceItems = .ok items →
        ∃ cause, unquoteSplice t p v = .error cause ∧ cause.typeName = "RhoUnquoteError") := by
  have happart {q r : List Int} (h : t.disjoint q r = true) :
      t.leadsInto q r = false ∧ t.leadsInto r q = false := by
    simpa [Expr.disjoint] using h
  refine ⟨fun part hpart hname => ⟨?_, fun v => ?_⟩, ?_, ?_⟩
  · rw [unquote_eq hpart hname, Value.toExpr_code, replaceAt_same hpart]
  · have hread : (t.replaceAt p v.toExpr).partAt? p = some v.toExpr := partAt?_replaceAt hpart
    have hstill (name : String) : ¬ (t.replaceAt p v.toExpr).IsNameSlot p name :=
      fun h => hname name (isNameSlot_of_replaceAt_same hpart h)
    refine ⟨_, unquote_eq hpart hname, hread, fun w => ?_, fun q hq => ?_,
      fun q hq => tagsAt?_replaceAt hpart hq, fun q other w hother hfree hq hp hhead => ?_⟩
    · rw [unquote_eq hread hstill, unquote_eq hpart hname, replaceAt_replaceAt hpart]
    · obtain ⟨hpq, hqp⟩ := happart hq
      exact partAt?_replaceAt_of_disjoint hpart hpq hqp
    · obtain ⟨hpq, hqp⟩ := happart hq
      have hother' : (t.replaceAt p v.toExpr).partAt? q = some other := by
        rw [partAt?_replaceAt_of_disjoint hpart hpq hqp, hother]
      have hpart' : (t.replaceAt q w.toExpr).partAt? p = some part := by
        rw [partAt?_replaceAt_of_disjoint hother hqp hpq, hpart]
      refine ⟨_, _, unquote_eq hother hfree, unquote_eq hother' fun name h =>
        hfree name (isNameSlot_of_replaceAt hpart hother hpq hp h), ?_⟩
      rw [replaceAt_comm hpart hother hpq hqp]
      exact unquote_eq hpart' fun name h =>
        hname name (isNameSlot_of_replaceAt hother hpart hqp hhead h)
  · rintro above i head slots k v items rfl hcall hn hname hitems
    refine ⟨_, unquoteSplice_eq hcall hn hname hitems, partAt?_replaceAt hcall, fun q hq => ?_,
      fun q hq => tagsAt?_replaceAt hcall hq⟩
    obtain ⟨hpq, hqp⟩ := happart hq
    exact partAt?_replaceAt_of_disjoint hcall hpq hqp
  · intro hnone v
    obtain ⟨i, rest, rfl⟩ : ∃ i rest, p = i :: rest := List.exists_cons_of_ne_nil hne
    refine ⟨edit_of_partAt?_none _ hnone, fun items hitems => ?_⟩
    rw [unquoteSplice, hitems]
    exact edit_of_partAt?_none _ hnone

/-- An argument of an argument, counted from the end, and the last argument, which is edited as
well, replaced by two or missed. -/
theorem editing_laws_nested :
    let t : Expr := .call (.symbol "f")
      [⟨some "a", .call (.symbol "$") [⟨none, .symbol "x"⟩, ⟨none, .symbol "n"⟩]⟩,
        ⟨some "b", .symbol "y"⟩]
    let v : Value := .list [⟨some "c", .int 1⟩, ⟨none, .code (.symbol "z")⟩]
    (∃ r u z, unquote t [1, -2] (.int 7) = .ok r ∧ r.partAt? [-1] = some (.symbol "y") ∧
      r.tagsAt? [] = some [some "a", some "b"] ∧ unquote t [2] (.bool true) = .ok u ∧
      unquote r [2] (.bool true) = .ok z ∧ unquote u [1, -2] (.int 7) = .ok z) ∧
    (∃ r, unquoteSplice t [-1] v = .ok r ∧ r = .call (.symbol "f")
      [⟨some "a", .call (.symbol "$") [⟨none, .symbol "x"⟩, ⟨none, .symbol "n"⟩]⟩,
        ⟨some "c", .const (.int 1)⟩, ⟨none, .symbol "z"⟩]) ∧
    ∃ cause, unquote t [2, 0] v = .error cause ∧ cause.typeName = "RhoUnquoteError" := by
  intro t v
  have hinner (name : String) : ¬ t.IsNameSlot [1, -2] name := fun h => by
    have := (@isNameSlot_concat_iff t _ _ (-2) [1] 1 rfl rfl name).mp h
    omega
  have houter (i : Int) (hi : position? 3 i = .ok 2) (name : String) : ¬ t.IsNameSlot [i] name :=
    fun h => by
      obtain ⟨-, hmember⟩ := (@isNameSlot_concat_iff t _ _ i [] 2 rfl hi name).mp h
      cases hmember
  have hends (path : List Int) (i : Int) (n : Nat) {head : Expr} {slots : List Slot}
      (hcall : t.partAt? path = some (.call head slots))
      (hn : position? (slots.length + 1) i = .ok (n + 1)) : ¬ t.EndsAtHead (path ++ [i]) := by
    rintro ⟨above, j, head', slots', hpath, hcall', hj⟩
    obtain ⟨rfl, hij⟩ := List.append_inj' hpath rfl
    cases hij
    cases hcall.symm.trans hcall'
    cases hn.symm.trans hj
  refine ⟨?_, ?_, ?_⟩
  · obtain ⟨r, hr, -, -, hread, htags, hcomm⟩ :=
      ((editing_laws t (p := [1, -2]) (by decide)).1 _ rfl hinner).2 (.int 7)
    obtain ⟨u, z, hu, hz, hz'⟩ := hcomm [2] _ (.bool true) rfl (houter 2 rfl) rfl
      (hends [1] (-2) 0 rfl rfl) (hends [] 2 1 rfl rfl)
    exact ⟨r, u, z, hr, hread [-1] rfl, htags [] rfl, hu, hz, hz'⟩
  · obtain ⟨r, hr, hwhole, -⟩ := (editing_laws t (p := [-1]) (by decide)).2.1 [] (-1) _ _ 1 v _
      rfl rfl rfl (houter (-1) rfl) rfl
    exact ⟨r, hr, Option.some.inj hwhole⟩
  · exact ((editing_laws t (p := [2, 0]) (by decide)).2.2 rfl v).1

end Template

end Quasi
