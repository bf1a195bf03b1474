import Mathlib.Data.List.AList
import Mathlib.Algebra.BigOperators.Ring.Finset
import Mathlib.Data.List.Sort

/-!
# Association lists as Go maps

Go maps are modelled by `AList`: one entry per key, with iteration order
left unspecified.  These lemmas cover the map operations the modelled code
uses beyond a single insert or delete: deleting a list of keys in a loop
(`lookup_foldl_erase`); changing every value in place (`mapVal`,
`lookup_mapVal`); the values of a map of lists joined (`allValues`),
which an insert or a delete changes only at its key (`allValues_insert`,
`perm_allValues_erase`); and a map counting the elements of a list by key,
whose values sum to the list's length (`sum_values_of_counts`). A map over
`ℕ` read through a heap of its keys gives its entries sorted by key, which
are then strictly increasing (`pairwise_lt_insertionSort`).
-/

namespace AssocMap

variable {α : Type} {β : α → Type} [DecidableEq α]

/-- Deleting the keys `ks` one after another empties exactly those keys. -/
theorem lookup_foldl_erase (ks : List α) (m : AList β) (k : α) :
    (ks.foldl (fun m k => m.erase k) m).lookup k = if k ∈ ks then none else m.lookup k := by
  induction ks generalizing m with
  | nil => simp
  | cons a ks ih =>
    rw [List.foldl_cons, ih]
    by_cases hka : k = a
    · subst hka
      simp [AList.lookup_erase]
    · simp [hka, AList.lookup_erase_ne hka]

section Values

variable {γ : Type}

/-- The values of a map of lists, joined. -/
def allValues (m : AList fun _ : α => List γ) : List γ := m.entries.flatMap (·.2)

omit [DecidableEq α] in
@[simp] theorem allValues_empty : allValues (∅ : AList fun _ : α => List γ) = [] := rfl

theorem allValues_insert (m : AList fun _ : α => List γ) (k : α) (v : List γ) :
    allValues (m.insert k v) = v ++ allValues (m.erase k) := by
  have herase : (m.erase k).entries = m.entries.kerase k := rfl
  simp [allValues, AList.entries_insert, herase]

/-- The lists an entry list projects to are those of the first entry for `k`
and those of the rest. -/
theorem perm_flatMap_kerase_map {δ : Type} (g : δ → List γ) (l : List (Sigma fun _ : α => δ))
    (k : α) :
    (l.flatMap fun e => g e.2).Perm
      (((l.dlookup k).map g).getD [] ++ (l.kerase k).flatMap fun e => g e.2) := by
  induction l with
  | nil => simp
  | cons s l ih =>
    obtain ⟨k', v'⟩ := s
    by_cases hk : k = k'
    · subst hk
      simp [List.kerase_cons_eq]
    · rw [List.kerase_cons_ne hk, List.dlookup_cons_ne l _ hk, List.flatMap_cons, List.flatMap_cons]
      -- the entry for `k'` moves past the lists of `k`
      exact (ih.append_left (g v')).trans (List.perm_append_comm_assoc _ _ _)

/-- The values of an entry list are those of the first entry for `k`
and those of the rest. -/
theorem perm_flatMap_kerase (l : List (Sigma fun _ : α => List γ)) (k : α) :
    (l.flatMap (·.2)).Perm ((l.dlookup k).getD [] ++ (l.kerase k).flatMap (·.2)) := by
  simpa using perm_flatMap_kerase_map id l k

theorem perm_allValues_erase (m : AList fun _ : α => List γ) (k : α) :
    (allValues m).Perm ((m.lookup k).getD [] ++ allValues (m.erase k)) :=
  perm_flatMap_kerase m.entries k

theorem mem_allValues {m : AList fun _ : α => List γ} {x : γ} :
    x ∈ allValues m ↔ ∃ k v, m.lookup k = some v ∧ x ∈ v := by
  simp only [allValues, List.mem_flatMap]
  constructor
  · rintro ⟨s, hs, hx⟩
    exact ⟨s.1, s.2, AList.mem_lookup_iff.mpr hs, hx⟩
  · rintro ⟨k, v, hkv, hx⟩
    exact ⟨⟨k, v⟩, AList.mem_lookup_iff.mp hkv, hx⟩

end Values

section MapVal

variable {γ : α → Type}

/-- Every value changed by `f`, the keys and their order kept: Go's loop
`for k, v := range m` writing through the pointers `v`. -/
def mapVal (f : ∀ a, β a → γ a) (m : AList β) : AList γ :=
  ⟨m.entries.map fun e => ⟨e.1, f e.1 e.2⟩, by
    have hkeys : (m.entries.map fun e => (⟨e.1, f e.1 e.2⟩ : Sigma γ)).keys = m.keys := by
      simp [List.keys, AList.keys]
    rw [List.NodupKeys, hkeys]
    exact m.keys_nodup⟩

omit [DecidableEq α] in
@[simp] theorem entries_mapVal (f : ∀ a, β a → γ a) (m : AList β) :
    (mapVal f m).entries = m.entries.map fun e => ⟨e.1, f e.1 e.2⟩ := rfl

theorem lookup_mapVal (f : ∀ a, β a → γ a) (m : AList β) (a : α) :
    (mapVal f m).lookup a = (m.lookup a).map (f a) := by
  obtain ⟨entries, hnd⟩ := m
  simp only [AList.lookup, mapVal]
  clear hnd
  induction entries with
  | nil => rfl
  | cons e entries ih =>
    obtain ⟨k, v⟩ := e
    by_cases hk : a = k
    · subst hk
      simp
    · rw [List.map_cons, List.dlookup_cons_ne _ ⟨k, _⟩ hk, List.dlookup_cons_ne _ ⟨k, v⟩ hk]
      exact ih

end MapVal

/-- **Counting map.**  A map holding, for each key, how many elements of `L`
have that image sums its values to the length of `L`. -/
theorem sum_values_of_counts {γ : Type} {m : AList fun _ : α => Int} {L : List γ} {f : γ → α}
    (hm : ∀ a, (m.lookup a).getD 0 = (L.countP fun x => f x = a : Nat)) :
    (m.entries.map (·.2)).sum = L.length := by
  have hkeys : ∀ a ∈ (L.map f : Multiset α), a ∈ m.keys.toFinset := by
    intro a ha
    obtain ⟨x, hx, rfl⟩ := List.mem_map.mp (Multiset.mem_coe.mp ha)
    have hpos : 0 < L.countP fun y => f y = f x := List.countP_pos_iff.mpr ⟨x, hx, by simp⟩
    have hsome : m.lookup (f x) ≠ none := by
      intro hnone
      have := hm (f x)
      rw [hnone, Option.getD_none] at this
      omega
    exact List.mem_toFinset.mpr (AList.mem_keys.mp (AList.lookup_isSome.mp (Option.isSome_iff_ne_none.mpr hsome)))
  have hvals : m.entries.map (·.2) = m.keys.map fun a => ((L.countP fun x => f x = a : Nat) : Int) := by
    rw [AList.keys, List.keys, List.map_map]
    refine List.map_congr_left fun s hs => ?_
    rw [Function.comp_apply, ← hm, AList.mem_lookup_iff.mpr hs, Option.getD_some]
  have hcount : ∀ a, (L.countP fun x => f x = a) = Multiset.count a (L.map f : Multiset α) := by
    intro a
    rw [Multiset.coe_count, List.count, List.countP_map]
    congr
  have hcast : (m.keys.map fun a => ((L.countP fun x => f x = a : Nat) : Int)) =
      (m.keys.map fun a => L.countP fun x => f x = a).map Nat.cast := by
    rw [List.map_map]
    rfl
  rw [hvals, hcast, ← Nat.cast_list_sum, ← List.sum_toFinset _ m.keys_nodup]
  simp only [hcount]
  rw [Multiset.sum_count_eq_card hkeys, Multiset.coe_card, List.length_map]

/-! ## Key order -/

/-- The entries of a map over `ℕ` sorted by key, as a heap of its keys pops
them, are strictly increasing in key. -/
theorem pairwise_lt_insertionSort {γ : Type} (m : AList fun _ : ℕ => γ) :
    (m.entries.insertionSort fun a b => a.1 ≤ b.1).Pairwise fun a b => a.1 < b.1 := by
  have : Std.Total fun a b : (Sigma fun _ : ℕ => γ) => a.1 ≤ b.1 := ⟨fun a b => le_total a.1 b.1⟩
  have : IsTrans (Sigma fun _ : ℕ => γ) fun a b => a.1 ≤ b.1 := ⟨fun _ _ _ => le_trans⟩
  have hsorted := List.pairwise_insertionSort (fun a b : Sigma fun _ : ℕ => γ => a.1 ≤ b.1) m.entries
  -- the keys are distinct, so the order is strict
  have hne : (m.entries.insertionSort fun a b => a.1 ≤ b.1).Pairwise fun a b => a.1 ≠ b.1 :=
    List.pairwise_map.mp (((List.perm_insertionSort _ m.entries).map Sigma.fst).nodup_iff.mpr
      m.keys_nodup)
  exact (hsorted.and hne).imp fun h => lt_of_le_of_ne h.1 h.2

/-- In a strictly increasing list, the elements below the `i`-th are the
first `i`. -/
theorem filter_lt_getElem {l : List ℕ} (hl : l.Pairwise (· < ·)) {i : ℕ} (hi : i < l.length) :
    l.filter (· < l[i]) = l.take i := by
  induction l generalizing i with
  | nil => cases hi
  | cons a l ih =>
    obtain ⟨ha, hl⟩ := List.pairwise_cons.mp hl
    cases i with
    | zero =>
      rw [List.getElem_cons_zero, List.take_zero, List.filter_eq_nil_iff]
      intro b hb
      rcases List.mem_cons.mp hb with rfl | hb
      · simp
      · have := ha b hb
        simp only [decide_eq_true_eq]
        omega
    | succ i =>
      have hi' : i < l.length := Nat.lt_of_succ_lt_succ hi
      have hlt : a < l[i] := ha _ (List.getElem_mem hi')
      rw [List.getElem_cons_succ, List.filter_cons_of_pos (by simpa using hlt), List.take_succ_cons,
        ih hl hi']

end AssocMap
