import Mathlib.Data.List.Perm.Basic
import Quasi.Library.Apply
import Quasi.Library.Data
import Quasi.Proofs.Forward.Matching

/-!
# Grouping

Arguments that are kept apart by whether they carry a name come back grouped: first those without a
name and then those with one, each group in its order. Nothing is lost as long as no name occurs
twice, and the order is kept only if the list was grouped before.
-/

namespace Quasi

variable {α : Type}

namespace Bindings

/-- A name that is not bound yet is bound last. -/
theorem set_of_absent {bindings : Bindings α} {name : String} (h : bindings.get? name = none)
    (item : α) : bindings.set name item = bindings ++ [(name, item)] := by
  induction bindings with
  | nil => rfl
  | cons binding rest ih =>
      by_cases hname : binding.1 = name
      · simp [get?, hname] at h
      · simp only [get?, if_neg hname] at h
        simp [set, hname, ih h]

theorem get?_eq_none {bindings : Bindings α} {name : String} :
    bindings.get? name = none ↔ name ∉ bindings.names := by
  induction bindings with
  | nil => simp [names]
  | cons binding rest ih =>
      by_cases hname : binding.1 = name
      · simp [get?, names, hname]
      · simpa [get?, names, hname, Ne.symm hname] using ih

theorem foldl_set {bindings : Bindings α} {pairs : List (String × α)}
    (h : (bindings.names ++ pairs.map (·.1)).Nodup) :
    pairs.foldl (fun bindings pair => bindings.set pair.1 pair.2) bindings = bindings ++ pairs := by
  induction pairs generalizing bindings with
  | nil => simp
  | cons pair rest ih =>
      have habsent : bindings.get? pair.1 = none :=
        get?_eq_none.mpr fun hmem =>
          (List.nodup_append.mp h).2.2 _ hmem _ (List.mem_cons_self ..) rfl
      have hnext : ((bindings ++ [pair]).names ++ rest.map (·.1)).Nodup := by
        simpa [names] using h
      rw [List.foldl_cons, set_of_absent habsent, ih hnext, List.append_assoc]
      rfl

/-- Pairs under distinct names are kept as they are. -/
theorem ofPairs_of_nodup {pairs : List (String × α)} (h : (pairs.map (·.1)).Nodup) :
    ofPairs pairs = pairs := foldl_set h

/-- One binding remains of every name. -/
theorem nodup_names_set {bindings : Bindings α} (h : bindings.names.Nodup) (name : String)
    (item : α) : (bindings.set name item).names.Nodup := by
  induction bindings with
  | nil => simp [set, names]
  | cons binding rest ih =>
      obtain ⟨hnot, hrest⟩ := List.nodup_cons.mp h
      by_cases hname : binding.1 = name
      · simpa [set, hname, names] using h
      · have hmem : binding.1 ∉ names (set rest name item) := by
          refine get?_eq_none.mp ?_
          rw [get?_set_of_ne rest item hname]
          exact get?_eq_none.mpr hnot
        have hset : names (set (binding :: rest) name item) =
            binding.1 :: names (set rest name item) := by
          simp [set, hname, names]
        rw [hset]
        exact List.nodup_cons.mpr ⟨hmem, ih hrest⟩

theorem nodup_names_ofPairs (pairs : List (String × α)) : (ofPairs pairs).names.Nodup := by
  have hfold (bindings : Bindings α) (h : bindings.names.Nodup) :
      (pairs.foldl (fun bindings pair => bindings.set pair.1 pair.2) bindings).names.Nodup := by
    induction pairs generalizing bindings with
    | nil => exact h
    | cons pair rest ih => exact ih _ (nodup_names_set h _ _)
  exact hfold [] List.nodup_nil

theorem mem_names_set {bindings : Bindings α} {name other : String} {item : α}
    (h : other ∈ (bindings.set name item).names) : other = name ∨ other ∈ bindings.names := by
  by_cases hname : other = name
  · exact .inl hname
  · refine .inr (Decidable.byContradiction fun hnot => ?_)
    have habsent := get?_eq_none.mpr hnot
    rw [← get?_set_of_ne bindings item hname] at habsent
    exact get?_eq_none.mp habsent h

theorem mem_names_foldl_set {pairs : List (String × α)} {bindings : Bindings α} {name : String}
    (h : name ∈ (pairs.foldl (fun bindings pair => bindings.set pair.1 pair.2) bindings).names) :
    name ∈ bindings.names ∨ name ∈ pairs.map (·.1) := by
  induction pairs generalizing bindings with
  | nil => exact .inl h
  | cons pair rest ih =>
      rcases ih h with hset | hrest
      · rcases mem_names_set hset with rfl | hold
        · exact .inr (List.mem_cons_self ..)
        · exact .inl hold
      · exact .inr (List.mem_cons_of_mem _ hrest)

theorem mem_names_ofPairs {pairs : List (String × α)} {name : String}
    (h : name ∈ (ofPairs pairs).names) : name ∈ pairs.map (·.1) :=
  (mem_names_foldl_set h).resolve_left (by simp [names])

end Bindings

namespace Tagged

/-- A name that an item carries is one on any other item. -/
theorem name?_of_some {β : Type} {t : Tagged α} {name : String} (h : t.name? = some name)
    (item : β) : (⟨some name, item⟩ : Tagged β).name? = some name := by
  have hne : name ≠ "" := by simpa using (Option.filter_eq_some_iff.mp h).2
  simp [name?, hne]

/-- The names that items carry. -/
def carried (items : List (Tagged α)) : List String := items.filterMap name?

/-- The items without a name, and after them the items with one. -/
def grouped (items : List (Tagged α)) : List (Tagged α) :=
  items.filter (·.name?.isNone) ++ items.filter (·.name?.isSome)

/-- The items without a name, on their own. -/
def unnamed (items : List (Tagged α)) : List α :=
  items.filterMap fun t => if t.name?.isNone then some t.item else none

/-- The items with a name, under it. -/
def pairs (items : List (Tagged α)) : Bindings α := items.filterMap fun t => t.name?.map (·, t.item)

section Cons

variable {t : Tagged α} {name : String} (rest : List (Tagged α))

theorem unnamed_cons_of_none (h : t.name? = none) :
    unnamed (t :: rest) = t.item :: unnamed rest := by
  simp [unnamed, h]

theorem unnamed_cons_of_some (h : t.name? = some name) : unnamed (t :: rest) = unnamed rest := by
  simp [unnamed, h]

theorem pairs_cons_of_none (h : t.name? = none) : pairs (t :: rest) = pairs rest := by
  simp [pairs, h]

theorem pairs_cons_of_some (h : t.name? = some name) :
    pairs (t :: rest) = (name, t.item) :: pairs rest := by
  simp [pairs, h]

end Cons

/-- No item without a name comes after one with a name. -/
def UnnamedFirst (items : List (Tagged α)) : Prop :=
  items.Pairwise fun a b => b.name? = none → a.name? = none

theorem grouped_perm (items : List (Tagged α)) : (grouped items).Perm items := by
  have hnot : (fun t : Tagged α => t.name?.isSome) = fun t => !t.name?.isNone := by
    funext t
    cases t.name? <;> rfl
  rw [grouped, hnot]
  exact List.filter_append_perm _ _

/-- Grouping changes nothing exactly where the items are grouped already. -/
theorem grouped_eq_self_iff {items : List (Tagged α)} :
    grouped items = items ↔ UnnamedFirst items := by
  induction items with
  | nil => simp [grouped, UnnamedFirst]
  | cons t rest ih =>
      rw [UnnamedFirst, List.pairwise_cons, ← UnnamedFirst]
      cases hname : t.name? with
      | none => simp [grouped, hname, ← ih]
      | some name =>
          have hgrouped : grouped (t :: rest) =
              rest.filter (·.name?.isNone) ++ t :: rest.filter (·.name?.isSome) := by
            simp [grouped, hname]
          have hall : (∀ b ∈ rest, b.name? = none → some name = none) ↔
              rest.filter (·.name?.isNone) = [] := by
            simp [List.filter_eq_nil_iff]
          rw [hgrouped, hall]
          constructor
          · intro h
            cases hfirst : rest.filter (·.name?.isNone) with
            | nil =>
                rw [hfirst] at h
                refine ⟨rfl, ih.mp ?_⟩
                rw [grouped, hfirst]
                exact (List.cons.inj h).2
            | cons a more =>
                rw [hfirst] at h
                have ha : a ∈ rest.filter (·.name?.isNone) := hfirst ▸ List.mem_cons_self ..
                have hnone := (List.mem_filter.mp ha).2
                rw [(List.cons.inj h).1, hname] at hnone
                cases hnone
          · rintro ⟨hnil, hrest⟩
            have hkept := ih.mpr hrest
            rw [grouped, hnil] at hkept
            rw [hnil, List.nil_append]
            exact congrArg (t :: ·) hkept

theorem grouped_normal (items : List (Tagged α)) :
    grouped (items.map normal) = (grouped items).map normal := by
  simp only [grouped, List.map_append, List.filter_map, Function.comp_def, name?_normal]

theorem unnamedFirst_normal {items : List (Tagged α)} :
    UnnamedFirst (items.map normal) ↔ UnnamedFirst items := by
  simp only [UnnamedFirst, List.pairwise_map, name?_normal]

theorem carried_normal (items : List (Tagged α)) : carried (items.map normal) = carried items := by
  simp only [carried, List.filterMap_map, Function.comp_def, name?_normal]

theorem names_pairs (items : List (Tagged α)) : (pairs items).map (·.1) = carried items := by
  rw [pairs, carried, List.map_filterMap]
  congr 1
  funext t
  cases t.name? <;> rfl

/-- The two groups, put together again. -/
theorem tagged_groups (items : List (Tagged Value)) :
    Library.tagged (unnamed items) (pairs items) = (grouped items).map normal := by
  rw [Library.tagged, grouped, List.map_append]
  congr 1
  · induction items with
    | nil => rfl
    | cons t rest ih =>
        cases hname : t.name? with
        | none => simpa [unnamed, hname, normal, bare] using ih
        | some name => simpa [unnamed, hname] using ih
  · induction items with
    | nil => rfl
    | cons t rest ih =>
        cases hname : t.name? with
        | none => simpa [pairs, hname] using ih
        | some name => simpa [pairs, hname, normal] using ih

/-! ## Lists that are taken apart and put together again -/

/-- The grouped items, where of those with one name the last is left, in the place of the first. -/
def merged (items : List (Tagged Value)) : List (Tagged Value) :=
  Library.tagged (unnamed items) (Bindings.ofPairs (pairs items))

theorem ne_empty_of_carried {items : List (Tagged α)} {name : String} (h : name ∈ carried items) :
    name ≠ "" := by
  obtain ⟨t, -, hname⟩ := List.mem_filterMap.mp h
  simpa using (Option.filter_eq_some_iff.mp hname).2

section Taken

variable {bare : List Value} {named : Bindings Value}

theorem unnamed_tagged (h : ∀ name ∈ named.names, name ≠ "") :
    unnamed (Library.tagged bare named) = bare := by
  have hbare : unnamed (bare.map Tagged.bare) = bare := by
    induction bare with
    | nil => rfl
    | cons v rest ih => rw [List.map_cons, unnamed_cons_of_none _ rfl, ih]; rfl
  have hnamed : unnamed (named.map fun entry => (⟨some entry.1, entry.2⟩ : Tagged Value)) = [] := by
    refine List.filterMap_eq_nil_iff.mpr fun t ht => ?_
    obtain ⟨entry, hentry, rfl⟩ := List.mem_map.mp ht
    simp [name?, h entry.1 (List.mem_map_of_mem hentry)]
  calc unnamed (Library.tagged bare named)
      = unnamed (bare.map Tagged.bare) ++
          unnamed (named.map fun entry => (⟨some entry.1, entry.2⟩ : Tagged Value)) :=
        List.filterMap_append
    _ = bare := by rw [hbare, hnamed, List.append_nil]

theorem pairs_tagged (h : ∀ name ∈ named.names, name ≠ "") :
    pairs (Library.tagged bare named) = named := by
  have hbare : pairs (bare.map Tagged.bare) = [] := by
    refine List.filterMap_eq_nil_iff.mpr fun t ht => ?_
    obtain ⟨v, -, rfl⟩ := List.mem_map.mp ht
    rfl
  have hnamed :
      pairs (named.map fun entry => (⟨some entry.1, entry.2⟩ : Tagged Value)) = named := by
    induction named with
    | nil => rfl
    | cons entry rest ih =>
        have hname : (⟨some entry.1, entry.2⟩ : Tagged Value).name? = some entry.1 := by
          simp [name?, h entry.1 (List.mem_cons_self ..)]
        rw [List.map_cons, pairs_cons_of_some _ hname,
          ih fun name hmem => h name (List.mem_cons_of_mem _ hmem)]
  calc pairs (Library.tagged bare named)
      = pairs (bare.map Tagged.bare) ++
          pairs (named.map fun entry => (⟨some entry.1, entry.2⟩ : Tagged Value)) :=
        List.filterMap_append
    _ = named := by rw [hbare, hnamed, List.nil_append]

end Taken

section Merged

variable (items : List (Tagged Value))

theorem ne_empty_of_ofPairs : ∀ name ∈ (Bindings.ofPairs (pairs items)).names, name ≠ "" :=
  fun _ hname => ne_empty_of_carried (names_pairs items ▸ Bindings.mem_names_ofPairs hname)

theorem unnamed_merged : unnamed (merged items) = unnamed items :=
  unnamed_tagged (ne_empty_of_ofPairs items)

theorem pairs_merged : pairs (merged items) = Bindings.ofPairs (pairs items) :=
  pairs_tagged (ne_empty_of_ofPairs items)

/-- No name is left twice. -/
theorem nodup_carried_merged : (carried (merged items)).Nodup := by
  rw [← names_pairs, pairs_merged]
  exact Bindings.nodup_names_ofPairs _

theorem splitArgs_merged : Library.splitArgs (merged items) = Library.splitArgs items := by
  have hpairs : Bindings.ofPairs (Bindings.ofPairs (pairs items)) =
      Bindings.ofPairs (pairs items) :=
    Bindings.ofPairs_of_nodup (Bindings.nodup_names_ofPairs _)
  have hsplit (l : List (Tagged Value)) :
      Library.splitArgs l = (unnamed l, Bindings.ofPairs (pairs l)) := rfl
  rw [hsplit, hsplit, unnamed_merged, pairs_merged, hpairs]

theorem merged_eq_grouped : merged items = grouped ((merged items).map normal) := by
  have hgroups := tagged_groups (merged items)
  rw [unnamed_merged, pairs_merged] at hgroups
  exact hgroups.trans (grouped_normal _).symm

theorem normal_merged : (merged items).map normal = merged items := by
  conv_lhs => rw [merged_eq_grouped, ← grouped_normal, List.map_map]
  have hnormal : normal ∘ normal = (normal : Tagged Value → Tagged Value) :=
    funext normal_normal
  rw [hnormal, ← merged_eq_grouped]

theorem unnamedFirst_merged : UnnamedFirst (merged items) := by
  have hgrouped := merged_eq_grouped items
  rw [normal_merged] at hgrouped
  exact grouped_eq_self_iff.mp hgrouped.symm

variable {items}

theorem merged_of_nodup (h : (carried items).Nodup) :
    merged items = (grouped items).map normal := by
  rw [merged, Bindings.ofPairs_of_nodup (names_pairs items ▸ h), tagged_groups]

/-- Nothing is lost exactly where no name occurs twice. -/
theorem merged_perm_iff : (merged items).Perm (items.map normal) ↔ (carried items).Nodup := by
  constructor
  · intro hperm
    have hnames := (hperm.filterMap name?).nodup_iff.mp (nodup_carried_merged items)
    rwa [← carried, carried_normal] at hnames
  · intro h
    rw [merged_of_nodup h]
    exact (grouped_perm items).map _

/-- The list stays as it is exactly where no name occurs twice and it was grouped before. -/
theorem merged_eq_iff :
    merged items = items.map normal ↔ (carried items).Nodup ∧ UnnamedFirst items := by
  constructor
  · intro heq
    have hnames := merged_perm_iff.mp (.of_eq heq)
    rw [merged_of_nodup hnames, ← grouped_normal] at heq
    exact ⟨hnames, unnamedFirst_normal.mp (grouped_eq_self_iff.mp heq)⟩
  · rintro ⟨hnames, hfirst⟩
    rw [merged_of_nodup hnames, grouped_eq_self_iff.mpr hfirst]

end Merged

end Tagged

end Quasi
