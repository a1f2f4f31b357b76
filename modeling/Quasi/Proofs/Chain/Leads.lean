import Quasi.Store.Environment

/-!
# Chains that end

An environment leads to those that come after it on its chain of parents. A chain that reaches the
empty environment passes no environment twice, so that the search along it, which takes no more
steps than there are environments, comes to its end.
-/

namespace Quasi

namespace Store

/-- Following parents from the first environment comes to the second one. -/
inductive Leads (s : Store) : EnvId → EnvId → Prop where
  | refl (e : EnvId) : s.Leads e e
  | step {e f g : EnvId} (h : s.parent? e = some f) (rest : s.Leads f g) : s.Leads e g

namespace Leads

variable {s t : Store} {e f g p : EnvId}

theorem trans (h : s.Leads e f) (h' : s.Leads f g) : s.Leads e g := by
  induction h with
  | refl => exact h'
  | step hp rest ih => exact .step hp (ih h')

theorem of_parent (h : s.parent? e = some p) : s.Leads e p := .step h (.refl p)

/-- A chain that reaches the empty environment does not come back to where it started. -/
theorem not_back (h : s.Leads e .empty) (hp : s.parent? e = some p) : ¬ s.Leads p e := by
  generalize hg : EnvId.empty = g at h
  induction h generalizing p with
  | refl => simp [← hg, parent?] at hp
  | @step e f g hf rest ih =>
      rw [hp, Option.some.injEq] at hf
      subst hf
      intro hback
      cases hback with
      | refl => exact ih hp hg (.refl _)
      | step hq hback => exact ih hq hg (hback.trans (.of_parent hp))

/-- A chain stays as it is where the only environment that changes is not on it afterwards. -/
theorem of_avoids (h : s.Leads e g) (hsame : ∀ x, x ≠ f → t.parent? x = s.parent? x)
    (havoid : ¬ t.Leads e f) : t.Leads e g := by
  induction h with
  | refl => exact .refl _
  | @step e p g hp rest ih =>
      have he : e ≠ f := fun he => havoid (he ▸ .refl e)
      have hp' : t.parent? e = some p := (hsame e he).trans hp
      exact .step hp' (ih fun h => havoid (.step hp' h))

/-- Chains still end where the only environment that changes has a chain that ends. -/
theorem of_changed (h : s.Leads e .empty) (hsame : ∀ x, x ≠ f → t.parent? x = s.parent? x)
    (hf : t.Leads f .empty) : t.Leads e .empty := by
  generalize hg : EnvId.empty = g at h
  induction h with
  | refl => exact hg ▸ .refl _
  | @step e p g hp rest ih =>
      subst hg
      by_cases he : e = f
      · exact he ▸ hf
      · exact .step ((hsame e he).trans hp) (ih rfl)

/-- Nothing but itself leads to an environment that is no parent. -/
theorem not_of_no_child (hchild : ∀ x, s.parent? x ≠ some f) (he : e ≠ f) : ¬ s.Leads e f := by
  intro h
  induction h with
  | refl => exact he rfl
  | @step e p f hp rest ih =>
      refine ih hchild fun hpf => hchild e (hpf ▸ hp)

end Leads

variable {s t : Store} {e f p : EnvId}

/-- All chains still end after one environment got a parent that does not lead back to it. -/
theorem leads_empty_of_parent (h : ∀ e, s.Leads e .empty)
    (hsame : ∀ x, x ≠ f → t.parent? x = s.parent? x) (hp : t.parent? f = some p)
    (havoid : ¬ t.Leads p f) (e : EnvId) : t.Leads e .empty :=
  (h e).of_changed hsame (.step hp ((h p).of_avoids hsame havoid))

/-! ## Walking along a chain -/

@[simp] theorem parent?_empty (s : Store) : s.parent? .empty = none := rfl

theorem walk_of_none (n : Nat) (hp : s.parent? e = none) : s.walk (n + 1) e = ([e], true) := by
  simp [walk, hp]

theorem walk_of_some (n : Nat) (hp : s.parent? e = some p) :
    s.walk (n + 1) e = (e :: (s.walk n p).1, (s.walk n p).2) := by
  simp [walk, hp]

/-- A walk that comes to its end stays the same with more steps. -/
theorem walk_eq_of_le {m n : Nat} (h : (s.walk m e).2 = true) (hmn : m ≤ n) :
    s.walk n e = s.walk m e := by
  induction m generalizing e n with
  | zero => simp [walk] at h
  | succ m ih =>
      obtain ⟨n, rfl⟩ := Nat.exists_eq_add_of_lt hmn
      cases hp : s.parent? e with
      | none => rw [walk_of_none _ hp, walk_of_none _ hp]
      | some p =>
          rw [walk_of_some _ hp] at h
          rw [walk_of_some _ hp, walk_of_some _ hp, ih h (by omega)]

theorem leads_of_walk {n : Nat} (h : (s.walk n e).2 = true) : s.Leads e .empty := by
  induction n generalizing e with
  | zero => simp [walk] at h
  | succ n ih =>
      cases hp : s.parent? e with
      | none => cases e <;> simp_all [parent?, Leads.refl]
      | some p =>
          rw [walk_of_some _ hp] at h
          exact .step hp (ih h)

/-- The environments other than the empty one. -/
def environments (s : Store) : List EnvId :=
  (List.range s.scopes.size).map .scope ++ (List.range s.masks.size).map fun m => .bottom ⟨m⟩

theorem length_environments (s : Store) : s.environments.length = s.environmentCount := by
  simp [environments, environmentCount]

/-- What does not exist hangs off the empty environment. -/
theorem parent_of_not_mem (he : e ∉ s.environments) (hp : s.parent? e = some p) : p = .empty := by
  cases e with
  | empty => simp [parent?] at hp
  | scope i =>
      have hi : s.scopes.size ≤ i := by simpa [environments] using he
      simpa [parent?, scope, Array.getD, Nat.not_lt.mpr hi, Inhabited.default] using hp.symm
  | bottom m =>
      have hm : s.masks.size ≤ m.index := by
        simp only [environments, List.mem_append, List.mem_map, List.mem_range] at he
        exact Nat.le_of_not_lt fun hm => he (.inr ⟨m.index, hm, rfl⟩)
      simpa [parent?, mask, Array.getD, Nat.not_lt.mpr hm, Inhabited.default] using hp.symm

/-- A chain that ends goes through environments that exist, each once, and needs two steps more. -/
theorem exists_path (h : s.Leads e .empty) : ∃ path : List EnvId, path.Nodup ∧
    path ⊆ s.environments ∧ (∀ x ∈ path, s.Leads e x) ∧ (s.walk (path.length + 2) e).2 = true := by
  generalize hg : EnvId.empty = g at h
  induction h with
  | refl => exact ⟨[], by simp, by simp, by simp, by simp [walk, ← hg]⟩
  | @step e p g hp rest ih =>
      subst hg
      by_cases he : e ∈ s.environments
      · obtain ⟨path, hnodup, hmem, hleads, hwalk⟩ := ih rfl
        have hback := (Leads.step hp rest).not_back hp
        refine ⟨e :: path, List.nodup_cons.mpr ⟨fun h => hback (hleads e h), hnodup⟩,
          List.cons_subset.mpr ⟨he, hmem⟩, ?_, ?_⟩
        · intro x hx
          rcases List.mem_cons.mp hx with rfl | hx
          · exact .refl x
          · exact .step hp (hleads x hx)
        · rw [List.length_cons, Nat.add_right_comm, walk_of_some _ hp]
          exact hwalk
      · have hempty := parent_of_not_mem he hp
        subst hempty
        have hwalk : (s.walk 2 e).2 = true := by
          rw [walk_of_some 1 hp, walk_of_none 0 (parent?_empty s)]
        exact ⟨[], by simp, by simp, by simp, hwalk⟩

/-- A search along a chain ends exactly if the chain does. -/
theorem chain_ends_iff : (s.chain e).2 = true ↔ s.Leads e .empty := by
  refine ⟨leads_of_walk, ?_⟩
  intro h
  obtain ⟨path, hnodup, hmem, -, hwalk⟩ := exists_path h
  have hlength : path.length + 2 ≤ s.environmentCount + 2 := by
    rw [← length_environments]
    exact Nat.add_le_add_right (hnodup.length_le_of_subset hmem) 2
  rw [chain, walk_eq_of_le hwalk hlength, hwalk]

/-! ## Equal walks -/

theorem parent?_eq_walk (s : Store) (e : EnvId) : s.parent? e = (s.walk 2 e).1[1]? := by
  cases hp : s.parent? e with
  | none => simp [walk_of_none 1 hp]
  | some p =>
      rw [walk_of_some 1 hp]
      cases hq : s.parent? p with
      | none => simp [walk_of_none 0 hq]
      | some q => simp [walk_of_some 0 hq]

/-- A walk is the same in two stores exactly if all that it comes by has the same parents. -/
theorem walk_eq_iff : (∀ n, t.walk n e = s.walk n e) ↔
    ∀ x, s.Leads e x → t.parent? x = s.parent? x := by
  constructor
  · intro h x hx
    induction hx with
    | refl e => rw [parent?_eq_walk, parent?_eq_walk, h]
    | @step e p x hp rest ih =>
        have hp' : t.parent? e = some p := by rw [parent?_eq_walk, h, ← parent?_eq_walk, hp]
        apply ih
        intro n
        have hn := h (n + 1)
        rw [walk_of_some n hp, walk_of_some n hp', Prod.mk.injEq, List.cons.injEq] at hn
        exact Prod.ext hn.1.2 hn.2
  · intro h n
    induction n generalizing e with
    | zero => rfl
    | succ n ih =>
        cases hp : s.parent? e with
        | none => rw [walk_of_none n hp, walk_of_none n ((h e (.refl e)).trans hp)]
        | some p =>
            rw [walk_of_some n hp, walk_of_some n ((h e (.refl e)).trans hp),
              ih fun x hx => h x (.step hp hx)]

end Store

end Quasi
