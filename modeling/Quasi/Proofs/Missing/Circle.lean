import Quasi.Proofs.Call.Growth
import Quasi.Proofs.Missing.Stable

/-!
# What closes a circle

`missing` is at a loss about a promise that relays itself. Where nothing refers to what does not
exist, a change can close such a circle only by binding a name, and binding a value closes one
exactly if the value relays itself from then on.
-/

namespace Quasi

open Relation (ReflTransGen TransGen)

theorem findSome?_cases {α β : Type} {f g : α → Option β} {b : β} {xs : List α}
    (h : ∀ x ∈ xs, f x = g x ∨ f x = some b) :
    xs.findSome? f = xs.findSome? g ∨ xs.findSome? f = some b := by
  induction xs with
  | nil => exact .inl rfl
  | cons x xs ih =>
      rw [List.findSome?_cons, List.findSome?_cons]
      rcases h x List.mem_cons_self with hx | hx
      · rw [hx]
        cases g x with
        | some c => exact .inl rfl
        | none => exact ih fun y hy => h y (List.mem_cons_of_mem x hy)
      · rw [hx]
        exact .inr rfl

theorem Promise.env_of_place {promise : Promise} {place : EnvId × String}
    (h : promise.place? = some place) : promise.env = some place.1 := by
  unfold Promise.place? at h
  split at h
  next henv _ =>
    cases h
    exact henv
  next => cases h

namespace Store

variable {s t : Store} {v w x : Value} {p : PromiseId} {e : EnvId} {name : String}

/-- A store in which nothing relays itself. -/
def Straight (s : Store) : Prop := ∀ v, ¬ s.Circles v

/-- Whatever is referred to exists. -/
structure Complete (s : Store) : Prop where
  whole : s.Whole
  shown (e : EnvId) (name : String) (p : PromiseId) :
    s.slot? e name = some (.promise p) → p.index < s.promises.size

/-- A change that closes a circle. -/
structure Closes (s t : Store) : Prop where
  change : s.Change t
  before : s.Straight
  after : ¬ t.Straight

/-! ## Circles -/

/-- What follows on a circle is on a circle. -/
theorem Circles.next (hv : s.Circles v) (h : s.Passes v w) : s.Circles w := by
  obtain ⟨x, hx, hback⟩ := circles_iff.mp hv
  obtain rfl := Option.some.inj (h.symm.trans hx)
  exact .tail' hback h

/-- What is on a circle is relayed by something on it. -/
theorem Circles.previous (hv : s.Circles v) : ∃ x, s.Circles x ∧ s.Passes x v := by
  obtain ⟨x, hback, hx⟩ := TransGen.tail'_iff.mp hv
  exact ⟨x, .head' hx hback, hx⟩

/-- A circle was there before if all of it was. -/
theorem Circles.mono (h : ∀ v w, t.Circles v → t.Passes v w → s.Passes v w) (hv : t.Circles v) :
    s.Circles v := by
  have hway {w : Value} (hw : TransGen t.Passes v w) : TransGen s.Passes v w ∧ t.Circles w := by
    induction hw with
    | single hw => exact ⟨.single (h _ _ hv hw), hv.next hw⟩
    | tail _ hw ih => exact ⟨ih.1.tail (h _ _ ih.2 hw), ih.2.next hw⟩
  exact (hway hv).1

theorem Straight.of_passes (hs : s.Straight)
    (h : ∀ v w, t.Circles v → t.Passes v w → s.Passes v w) : t.Straight :=
  fun v hv => hs v (hv.mono h)

/-- If all that is relayed anew is relayed from or to one value, a new circle passes that value. -/
theorem Straight.iff_not_circles (hs : s.Straight)
    (h : ∀ x w, t.Passes x w → s.Passes x w ∨ x = v ∨ w = v) : t.Straight ↔ ¬ t.Circles v := by
  refine ⟨fun ht => ht v, fun hv => hs.of_passes fun x w hx hw => ?_⟩
  rcases h x w hw with hold | rfl | rfl
  · exact hold
  · exact absurd hx hv
  · exact absurd (hx.next hw) hv

theorem passes_iff : s.Passes (.promise p) w ↔
    ∃ e name, (s.promise p).place? = some (e, name) ∧ s.slot? e name = some w := by
  simp only [Passes, relayed?, Option.bind_eq_some_iff, Prod.exists]

/-! ## What a change shows -/

theorem slot?_of_eq (hscopes : t.scopes = s.scopes) (hmasks : t.masks = s.masks) (e : EnvId)
    (name : String) : t.slot? e name = s.slot? e name :=
  slot?_congr (funext fun _ => by simp only [scope, hscopes]) (fun _ => by simp only [mask, hmasks])
    (fun _ => by simp only [mask, hmasks]) e name

theorem slot?_addMask (mask : Mask) (he : s.known e = e) (name : String) :
    (s.addMask mask).slot? e name = s.slot? e name := by
  have hold (n : Nat) (hn : n < s.masks.size) (m : MaskId) (hm : m.index ≤ n) :
      (s.addMask mask).mask m = s.mask m := by
    rw [mask_addMask, if_neg (Nat.ne_of_lt (Nat.lt_of_le_of_lt hm hn))]
  cases e with
  | empty | scope i => rfl
  | bottom m =>
      have hm := hold m.index (known_eq_bottom.mp he)
      exact maskSlot?_congr (s := s) (t := s.addMask mask) rfl (fun k hk => by rw [hm k hk])
        (fun k hk => by rw [hm k hk]) name

/-- Only a binding changes what an environment shows that exists. -/
theorem Change.slot (h : s.Change t) (hs : s.Whole) (he : s.known e = e) (name : String) :
    t.slot? e name = s.slot? e name ∨ ∃ e f, t = s.setVars e f := by
  cases h with
  | other hscopes hmasks _ => exact .inl (slot?_of_eq hscopes hmasks e name)
  | scope scope => exact .inl ((Grows.addScope s scope).slot? hs he name)
  | mask mask => exact .inl (slot?_addMask mask he name)
  | promise promise _ =>
      exact .inl (slot?_of_eq (s.scopes_addPromise promise) (s.masks_addPromise promise) e name)
  | vars e f => exact .inr ⟨e, f, rfl⟩
  | rechain m home => exact .inl (((Alike.refl s).rechain_left home).slot? e name).symm
  | begin p _ =>
      exact .inl (slot?_of_eq (s := s) (t := s.begin p) (by simp only [Store.begin, use_eq]; rfl)
        (by simp only [Store.begin, use_eq]; rfl) e name)
  | abandon p x _ => exact .inl (slot?_of_eq (s := s) (t := s.abandon p x) rfl rfl e name)
  | settle p progress _ _ =>
      exact .inl (slot?_of_eq (s := s) (t := s.settle p progress) rfl rfl e name)

/-- A promise that was not there before is a new one, with an environment that exists. -/
theorem Change.new (h : s.Change t) (hp : ¬ p.index < s.promises.size) : t.promise p = s.promise p ∨
    ∃ promise : Promise, t.promise p = { promise with env := promise.env.map s.known } := by
  have hset (q : PromiseId) (f : Promise → Promise) :
      (s.setPromise q f).promise p = s.promise p := by
    rw [promise_setPromise, if_neg]
    rintro ⟨hpq, hq⟩
    exact hp (hpq ▸ hq)
  cases h with
  | other _ _ hpromises => exact .inl (by simp only [Store.promise, hpromises])
  | scope | mask | rechain => exact .inl rfl
  | promise promise _ =>
      rw [promise_addPromise]
      split
      · exact .inr ⟨promise, rfl⟩
      · exact .inl rfl
  | vars e f => cases e <;> exact .inl rfl
  | begin q _ =>
      rw [Store.begin, promise_use]
      exact .inl (hset q _)
  | abandon q x _ => exact .inl (hset q _)
  | settle q progress _ _ => exact .inl (hset q _)

/-- Promises stand for names in environments that existed before. -/
theorem Change.known_place (h : s.Change t) (hs : s.Whole)
    (hp : (t.promise p).place? = some (e, name)) : s.known e = e := by
  by_cases hold : p.index < s.promises.size
  · obtain ⟨-, honward⟩ := h.onward hold
    rw [honward.place?] at hp
    split at hp
    · cases hp
    · exact hs.promise p e (Promise.env_of_place hp)
  · rcases h.new hold with heq | ⟨promise, heq⟩
    · rw [heq] at hp
      exact hs.promise p e (Promise.env_of_place hp)
    · have henv : promise.env.map s.known = some e := (heq ▸ Promise.env_of_place hp :)
      obtain ⟨e', -, rfl⟩ := Option.map_eq_some_iff.mp henv
      exact known_known e'

/-- Where everything exists, a change that is no binding closes no circle. -/
theorem Change.straight (h : s.Change t) (hs : s.Complete) (hstraight : s.Straight) :
    t.Straight ∨ ∃ e f, t = s.setVars e f := by
  by_cases hvars : ∃ e f, t = s.setVars e f
  · exact .inr hvars
  · have hslot {p : PromiseId} {e : EnvId} {name : String}
        (hp : (t.promise p).place? = some (e, name)) : t.slot? e name = s.slot? e name :=
      (h.slot hs.whole (h.known_place hs.whole hp) name).resolve_right hvars
    refine .inl (hstraight.of_passes fun v w hv hvw => ?_)
    -- something on the circle relays the promise, so it was there before
    obtain ⟨x, -, hxv⟩ := hv.previous
    obtain ⟨q, rfl⟩ := exists_promise_of_relayed hxv
    obtain ⟨p, rfl⟩ := exists_promise_of_relayed hvw
    obtain ⟨e, name, hplace, hshows⟩ := passes_iff.mp hxv
    have hold := hs.shown e name p ((hslot hplace).symm.trans hshows)
    obtain ⟨e, name, hplace, hshows⟩ := passes_iff.mp hvw
    have hplace' := hplace
    rw [(h.onward hold).2.place?] at hplace'
    split at hplace'
    · cases hplace'
    · exact passes_iff.mpr ⟨e, name, hplace', (hslot hplace).symm.trans hshows⟩

theorem Closes.binds (h : s.Closes t) (hs : s.Complete) : ∃ e f, t = s.setVars e f :=
  (h.change.straight hs h.before).resolve_left h.after

/-- Where there is a circle, some change has closed one. -/
theorem exists_closes (h : s.Later t) (hs : s.Straight) (ht : ¬ t.Straight) :
    ∃ u w, s.Later u ∧ u.Closes w ∧ w.Later t := by
  induction h with
  | refl => exact absurd hs ht
  | @tail u w hsu hchange ih =>
      by_cases hu : u.Straight
      · exact ⟨u, w, hsu, ⟨hchange, hu, ht⟩, .refl⟩
      · obtain ⟨x, y, hsx, hxy, hyu⟩ := ih hu
        exact ⟨x, y, hsx, hxy, hyu.tail hchange⟩

end Store

end Quasi
