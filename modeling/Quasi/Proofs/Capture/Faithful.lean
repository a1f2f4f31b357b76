import Quasi.Proofs.Store

/-!
# Code that keeps its environment

A promise and a closure keep their code together with an environment, and whenever the code is taken
up it is evaluated with that environment. What the environment leads to is another matter: the masks
on its chain may fall back elsewhere by then.
-/

namespace Quasi

/-- Whether an event is about code that is kept with an environment. -/
def Event.isOfCode : Event → Bool
  | .captured _ _ _ => true
  | .used _ _ _ => true
  | _ => false

/-- Masks as they were at one time and later: none is gone, and all have the data they had. -/
structure Elder (masks later : Array Mask) : Prop where
  size : masks.size ≤ later.size
  scopes : ∀ i < masks.size, (later.getD i default).scopes = (masks.getD i default).scopes

namespace Elder

variable {masks later last : Array Mask}

theorem refl (masks : Array Mask) : Elder masks masks := ⟨Nat.le_refl _, fun _ _ => rfl⟩

theorem trans (h : Elder masks later) (h' : Elder later last) : Elder masks last where
  size := Nat.le_trans h.size h'.size
  scopes i hi := (h'.scopes i (Nat.lt_of_lt_of_le hi h.size)).trans (h.scopes i hi)

theorem push (masks : Array Mask) (mask : Mask) : Elder masks (masks.push mask) where
  size := by simp
  scopes i hi := by rw [getD_push, if_neg (Nat.ne_of_lt hi)]

theorem modify (masks : Array Mask) (i : Nat) {f : Mask → Mask}
    (hf : ∀ mask, (f mask).scopes = mask.scopes) : Elder masks (masks.modify i f) where
  size := Nat.le_of_eq Array.size_modify.symm
  scopes j _ := by
    rw [getD_modify]
    split
    · exact hf _
    · rfl

end Elder

namespace Store

/-- All that was kept and taken up so far, latest first. -/
def codeEvents (s : Store) : List Event := s.history.filter Event.isOfCode

/-- Whether what keeps code exists. -/
def Has (s : Store) : Holder → Prop
  | .promise p => p.index < s.promises.size
  | .closure c => c.index < s.closures.size

/-- The environment that code is kept with. A promise that is settled has given it up. -/
def envOf? (s : Store) : Holder → Option EnvId
  | .promise p => (s.promise p).env
  | .closure c => some (s.closure c).env

/-- All code that is kept was captured with its environment, and whatever was captured is used with
the environment it was captured with. -/
structure Faithful (s : Store) : Prop where
  kept : ∀ holder, s.Has holder → ∀ e, s.envOf? holder = some e →
    ∃ masks, .captured holder e masks ∈ s.codeEvents
  captured : ∀ holder e masks, .captured holder e masks ∈ s.codeEvents →
    s.Has holder ∧ Elder masks s.masks ∧ ∀ e', s.envOf? holder = some e' → e' = e
  used : ∀ holder e masks e' masks',
    [.used holder e' masks', .captured holder e masks].Sublist s.codeEvents →
      e' = e ∧ Elder masks masks'

/-- What goes on being kept: with its environment, unless that is given up. -/
structure Retains (s t : Store) : Prop where
  has : ∀ holder, s.Has holder → t.Has holder
  env : ∀ holder, s.Has holder → ∀ e, t.envOf? holder = some e → s.envOf? holder = some e
  elder : Elder s.masks t.masks

variable {s t : Store} {holder : Holder} {e : EnvId} {masks : Array Mask}

namespace Faithful

theorem captured_of_retains (hs : s.Faithful) (h : s.Retains t)
    (hmem : .captured holder e masks ∈ s.codeEvents) :
    t.Has holder ∧ Elder masks t.masks ∧ ∀ e', t.envOf? holder = some e' → e' = e := by
  obtain ⟨hhas, helder, henv⟩ := hs.captured holder e masks hmem
  exact ⟨h.has holder hhas, helder.trans h.elder, fun e' he' => henv e' (h.env holder hhas e' he')⟩

/-- Nothing with an environment is new. -/
theorem of_retains (hs : s.Faithful) (h : s.Retains t)
    (hold : ∀ holder e, t.Has holder → t.envOf? holder = some e → s.Has holder)
    (hevents : t.codeEvents = s.codeEvents) : t.Faithful where
  kept holder hholder e he := by
    have hhas := hold holder e hholder he
    exact hevents ▸ hs.kept holder hhas e (h.env holder hhas e he)
  captured holder e masks hmem := captured_of_retains hs h (hevents ▸ hmem)
  used holder e masks e' masks' hsub := hs.used holder e masks e' masks' (hevents ▸ hsub)

/-- One thing with an environment is new, and it was captured. -/
theorem of_captured (hs : s.Faithful) (h : s.Retains t) (hhas : t.Has holder)
    (henv : t.envOf? holder = some e)
    (hold : ∀ other e', t.Has other → t.envOf? other = some e' → other = holder ∨ s.Has other)
    (hevents : t.codeEvents = .captured holder e s.masks :: s.codeEvents) : t.Faithful where
  kept other hother e' he' := by
    rw [hevents]
    rcases hold other e' hother he' with rfl | hsome
    · rw [henv, Option.some.injEq] at he'
      exact ⟨s.masks, he' ▸ List.mem_cons_self ..⟩
    · obtain ⟨masks, hmem⟩ := hs.kept other hsome e' (h.env other hsome e' he')
      exact ⟨masks, List.mem_cons_of_mem _ hmem⟩
  captured other e' masks hmem := by
    rw [hevents] at hmem
    rcases List.mem_cons.mp hmem with heq | hmem
    · cases heq
      refine ⟨hhas, h.elder, ?_⟩
      intro e' he'
      rw [henv, Option.some.injEq] at he'
      exact he'.symm
    · exact captured_of_retains hs h hmem
  used other e' masks e'' masks' hsub := by
    rw [hevents] at hsub
    cases hsub with
    | cons _ hsub => exact hs.used other e' masks e'' masks' hsub

/-- Code is taken up with the environment that it is kept with. -/
theorem use (hs : s.Faithful) (h : s.Has holder → s.envOf? holder = some e) :
    (s.use holder (some e)).Faithful where
  kept other hother e' he' := by
    have hhas : s.Has other := by cases other <;> exact hother
    have henv : s.envOf? other = some e' := by cases other <;> exact he'
    obtain ⟨masks, hmem⟩ := hs.kept other hhas e' henv
    exact ⟨masks, List.mem_cons_of_mem _ hmem⟩
  captured other e' masks hmem := by
    rcases List.mem_cons.mp hmem with heq | hmem
    · cases heq
    · have hsame := hs.captured other e' masks hmem
      cases other <;> exact hsame
  used other e' masks e'' masks' hsub := by
    cases hsub with
    | cons _ hsub => exact hs.used other e' masks e'' masks' hsub
    | cons_cons _ hsub =>
        obtain ⟨hhas, helder, henv⟩ := hs.captured _ e' masks (List.singleton_sublist.mp hsub)
        exact ⟨henv e (h hhas), helder⟩

/-- Nothing that keeps code changes. -/
theorem of_elder (hs : s.Faithful) (hpromises : t.promises = s.promises)
    (hclosures : t.closures = s.closures) (helder : Elder s.masks t.masks)
    (hevents : t.codeEvents = s.codeEvents) : t.Faithful := by
  have hhas (holder : Holder) : t.Has holder ↔ s.Has holder := by
    cases holder <;> simp only [Has, hpromises, hclosures]
  have henv (holder : Holder) : t.envOf? holder = s.envOf? holder := by
    cases holder <;> simp only [envOf?, promise, closure, hpromises, hclosures]
  refine hs.of_retains ⟨fun h => (hhas h).mpr, fun h _ e he => henv h ▸ he, helder⟩
    (fun h e hh _ => (hhas h).mp hh) hevents

end Faithful

end Store

end Quasi
