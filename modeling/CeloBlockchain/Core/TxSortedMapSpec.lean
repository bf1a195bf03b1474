import CeloBlockchain.Core.TxList
import CeloBlockchain.Lib.AssocMap

/-!
# The sorted map reads its transactions by nonce

`txSortedMap` keeps a heap of its nonces. `Ready`, `Forward` and `Cap` read
the transactions through it, lowest nonce first: the entries sorted by nonce
(`byNonce`), which are strictly increasing (`byNonce_pairwise`). The `i`-th
of them has `i` nonces below it (`rank_byNonce`).

* `ready_takes_gapless_run`: `Ready` returns the transactions at nonces
  `first, first + 1, ...` up to the first missing nonce, where `first` is the
  lowest nonce, and only when `first` is not above `start`. It deletes
  exactly those. The run stops at a gap (`consecutive_gap`).
* `forward_takes_below`: `Forward` returns the transactions below the
  threshold, lowest nonce first, and deletes exactly those.
* `cap_keeps_lowest`: `Cap` keeps the `threshold` lowest nonces and returns
  the others, highest nonce first.
-/

namespace CeloBlockchain.Core

namespace TxSortedMap

/-- The sorted entries are the map's entries, strictly increasing in nonce. -/
theorem byNonce_pairwise (m : TxSortedMap) : m.byNonce.Pairwise fun a b => a.1 < b.1 :=
  AssocMap.pairwise_lt_insertionSort m

theorem mem_byNonce {m : TxSortedMap} {e : Sigma fun _ : Nat => Transaction} :
    e ∈ m.byNonce ↔ e ∈ m.entries :=
  (List.perm_insertionSort _ m.entries).mem_iff

/-- The run's nonces are `next, next + 1, ...`. -/
theorem consecutive_keys (next : Nat) (l : List (Sigma fun _ : Nat => Transaction)) :
    (consecutive next l).map (·.1) = List.range' next (consecutive next l).length := by
  induction l generalizing next with
  | nil => rfl
  | cons e l ih =>
    unfold consecutive
    split
    · rename_i he
      rw [List.map_cons, List.length_cons, List.range'_succ, he, ih (next + 1)]
    · rfl

theorem isPrefix_consecutive (next : Nat) (l : List (Sigma fun _ : Nat => Transaction)) :
    consecutive next l <+: l := by
  induction l generalizing next with
  | nil => exact List.prefix_refl _
  | cons e l ih =>
    unfold consecutive
    split
    · exact (List.prefix_cons_inj e).mpr (ih (next + 1))
    · exact List.nil_prefix

/-- **The gap.** In entries strictly increasing in nonce, none below `next`,
no entry has the nonce right after the run. -/
theorem consecutive_gap {l : List (Sigma fun _ : Nat => Transaction)}
    (hl : l.Pairwise fun a b => a.1 < b.1) :
    ∀ {next : Nat}, (∀ e ∈ l, next ≤ e.1) → ∀ e ∈ l, e.1 ≠ next + (consecutive next l).length := by
  induction l with
  | nil =>
    intro next _ e he
    cases he
  | cons x l ih =>
    intro next hnext e he
    obtain ⟨hx, hl⟩ := List.pairwise_cons.mp hl
    have hxnext := hnext x List.mem_cons_self
    unfold consecutive
    split
    · -- the run goes on from `next + 1`
      rename_i hxeq
      have hrest : ∀ y ∈ l, next + 1 ≤ y.1 := fun y hy => by
        have := hx y hy
        omega
      rw [List.length_cons]
      rcases List.mem_cons.mp he with rfl | he
      · omega
      · have := ih hl hrest e he
        omega
    · -- the run stops before `x`
      rename_i hxne
      rw [List.length_nil, Nat.add_zero]
      rcases List.mem_cons.mp he with rfl | he
      · exact hxne
      · have := hx e he
        omega

theorem lookup_deleteAll_eq (m : TxSortedMap) (removed : List (Sigma fun _ : Nat => Transaction))
    (n : Nat) :
    (m.deleteAll removed).lookup n = if n ∈ removed.map (·.1) then none else m.lookup n := by
  unfold deleteAll
  rw [← List.foldl_map (g := fun m k => AList.erase k m), AssocMap.lookup_foldl_erase]

theorem exists_mem_byNonce {m : TxSortedMap} {n : Nat} (hn : n ∈ m.keys) :
    ∃ e ∈ m.byNonce, e.1 = n := by
  obtain ⟨tx, htx⟩ := Option.isSome_iff_exists.mp (AList.lookup_isSome.mpr (AList.mem_keys.mp hn))
  exact ⟨⟨n, tx⟩, mem_byNonce.mpr (AList.mem_lookup_iff.mp htx), rfl⟩

theorem lookup_eq_none_of_forall {m : TxSortedMap} {n : Nat} (h : ∀ e ∈ m.byNonce, e.1 ≠ n) :
    m.lookup n = none := by
  cases hl : m.lookup n with
  | none => rfl
  | some tx => exact absurd rfl (h ⟨n, tx⟩ (mem_byNonce.mpr (AList.mem_lookup_iff.mp hl)))

/-- The first sorted entry has the lowest nonce. -/
theorem le_of_byNonce_eq_cons {m : TxSortedMap} {first : Sigma fun _ : Nat => Transaction}
    {rest : List (Sigma fun _ : Nat => Transaction)} (h : m.byNonce = first :: rest) :
    ∀ e ∈ m.byNonce, first.1 ≤ e.1 := by
  have hsorted := byNonce_pairwise m
  rw [h] at hsorted ⊢
  intro e he
  rcases List.mem_cons.mp he with rfl | he
  · exact le_rfl
  · exact Nat.le_of_lt ((List.pairwise_cons.mp hsorted).1 e he)

/-- The `i`-th transaction of the run is the map's at nonce `next + i`. -/
theorem lookup_consecutive {m : TxSortedMap} {next : Nat} {i : Nat}
    (hi : i < (consecutive next m.byNonce).length) :
    m.lookup (next + i) = ((consecutive next m.byNonce).map (·.2))[i]? := by
  have hmem : (consecutive next m.byNonce)[i] ∈ m.byNonce :=
    (isPrefix_consecutive next m.byNonce).subset (List.getElem_mem hi)
  have hkey : (consecutive next m.byNonce)[i].1 = next + i := by
    have h := congrArg (·[i]?) (consecutive_keys next m.byNonce)
    simp only [List.getElem?_map, List.getElem?_eq_getElem hi, List.getElem?_range' hi,
      Option.map_some, Option.some.injEq, Nat.one_mul] at h
    exact h
  rw [List.getElem?_map, List.getElem?_eq_getElem hi, Option.map_some, ← hkey]
  exact AList.mem_lookup_iff.mpr (mem_byNonce.mp hmem)

/-- What `Ready` does: nothing on an empty map or when the lowest nonce is
above `start`, else it takes the run from the lowest nonce. -/
theorem ready_cases (m : TxSortedMap) (start : Nat) :
    (m.byNonce = [] ∧ m.ready start = ([], m)) ∨
    (∃ first rest, m.byNonce = first :: rest ∧ start < first.1 ∧ m.ready start = ([], m)) ∨
    (∃ first rest, m.byNonce = first :: rest ∧ first.1 ≤ start ∧
      m.ready start = ((consecutive first.1 m.byNonce).map (·.2),
        m.deleteAll (consecutive first.1 m.byNonce))) := by
  unfold ready
  cases hcons : m.byNonce with
  | nil => exact Or.inl ⟨rfl, rfl⟩
  | cons first rest =>
    dsimp only
    by_cases habove : first.1 > start
    · exact Or.inr (Or.inl ⟨first, rest, rfl, habove, by rw [if_pos habove]⟩)
    · refine Or.inr (Or.inr ⟨first, rest, rfl, Nat.le_of_not_lt habove, ?_⟩)
      rw [if_neg habove]

/-- **`Ready`.** It returns the transactions at nonces `first, first + 1, ...`
up to the first missing nonce, where `first` is the lowest nonce, and only
when `first` is not above `start`. It deletes exactly those. -/
theorem ready_takes_gapless_run (m : TxSortedMap) (start : Nat) :
    ∃ first,
      (∀ i < (m.ready start).1.length, m.lookup (first + i) = (m.ready start).1[i]?) ∧
      m.lookup (first + (m.ready start).1.length) = none ∧
      ((m.ready start).1 ≠ [] → first ≤ start ∧ ∀ n ∈ m.keys, first ≤ n) ∧
      ((m.ready start).1 = [] → ∀ n ∈ m.keys, start < n) ∧
      ∀ n, (m.ready start).2.lookup n =
        if first ≤ n ∧ n < first + (m.ready start).1.length then none else m.lookup n := by
  rcases ready_cases m start with ⟨hnil, hready⟩ | ⟨first, rest, hcons, habove, hready⟩ |
    ⟨first, rest, hcons, hle, hready⟩
  · -- an empty map
    rw [hready]
    have hnone : ∀ n, m.lookup n = none := fun n =>
      lookup_eq_none_of_forall fun e he => by
        rw [hnil] at he
        cases he
    refine ⟨start, fun i hi => absurd hi (Nat.not_lt_zero i), hnone _, fun h => absurd rfl h,
      fun _ n hn => ?_, fun n => by simp⟩
    obtain ⟨e, he, -⟩ := exists_mem_byNonce hn
    rw [hnil] at he
    cases he
  · -- the lowest nonce is above `start`
    rw [hready]
    dsimp only
    have hlow := le_of_byNonce_eq_cons hcons
    refine ⟨start, fun i hi => absurd hi (Nat.not_lt_zero i), ?_, fun h => absurd rfl h,
      fun _ n hn => ?_, fun n => by simp⟩
    · rw [List.length_nil, Nat.add_zero]
      exact lookup_eq_none_of_forall fun e he => by
        have := hlow e he
        omega
    · obtain ⟨e, he, rfl⟩ := exists_mem_byNonce hn
      have := hlow e he
      omega
  · -- the run starts at the lowest entry
    rw [hready]
    have hlow := le_of_byNonce_eq_cons hcons
    have hrun : consecutive first.1 m.byNonce ≠ [] := by
      rw [hcons, consecutive, if_pos rfl]
      exact List.cons_ne_nil _ _
    refine ⟨first.1, fun i hi => ?_, ?_, fun _ => ⟨hle, fun n hn => ?_⟩,
      fun h => absurd (List.map_eq_nil_iff.mp h) hrun, fun n => ?_⟩
    · rw [List.length_map] at hi
      exact lookup_consecutive hi
    · rw [List.length_map]
      exact lookup_eq_none_of_forall (consecutive_gap (byNonce_pairwise m) hlow)
    · obtain ⟨e, he, rfl⟩ := exists_mem_byNonce hn
      exact hlow e he
    · simp only [lookup_deleteAll_eq, consecutive_keys, List.mem_range'_1, List.length_map]

/-! ## `Cap` and `Forward` -/

/-- The map's nonces are the sorted entries' nonces, reordered. -/
theorem keys_perm_byNonce (m : TxSortedMap) : m.keys.Perm (m.byNonce.map (·.1)) :=
  ((List.perm_insertionSort _ m.entries).map Sigma.fst).symm

/-- The `i`-th sorted entry has `i` nonces below it. -/
theorem rank_byNonce {m : TxSortedMap} {i : Nat} (hi : i < m.byNonce.length) :
    (m.keys.filter (· < m.byNonce[i].1)).length = i := by
  have hsorted : (m.byNonce.map (·.1)).Pairwise (· < ·) := List.pairwise_map.mpr (byNonce_pairwise m)
  have hi' : i < (m.byNonce.map (·.1)).length := by
    rw [List.length_map]
    exact hi
  have hrank := AssocMap.filter_lt_getElem hsorted hi'
  rw [List.getElem_map] at hrank
  rw [((keys_perm_byNonce m).filter _).length_eq, hrank, List.length_take, List.length_map]
  omega

/-- Entries of the map, read back through their nonces. -/
theorem map_snd_eq_filterMap_lookup {m : TxSortedMap} {l : List (Sigma fun _ : Nat => Transaction)}
    (hl : ∀ e ∈ l, e ∈ m.entries) : l.map (·.2) = (l.map (·.1)).filterMap m.lookup := by
  induction l with
  | nil => rfl
  | cons e l ih =>
    have he : m.lookup e.1 = some e.2 := AList.mem_lookup_iff.mpr (hl e List.mem_cons_self)
    simp only [List.map_cons, List.filterMap_cons, he, ih fun x hx => hl x (List.mem_cons_of_mem _ hx)]

/-- **`Cap`.** It drops the transactions whose nonces have at least
`threshold` nonces below them, the highest nonce first, and keeps the rest. -/
theorem cap_keeps_lowest (m : TxSortedMap) (threshold : Nat) :
    ∃ dropped : List Nat, dropped.Pairwise (· > ·) ∧
      (∀ n, n ∈ dropped ↔ n ∈ m.keys ∧ threshold ≤ (m.keys.filter (· < n)).length) ∧
      (m.cap threshold).1 = dropped.filterMap m.lookup ∧
      ∀ n, (m.cap threshold).2.lookup n = if n ∈ dropped then none else m.lookup n := by
  unfold cap
  split
  · -- under the limit nothing is dropped: every rank is below the size
    rename_i hle
    refine ⟨[], List.Pairwise.nil, fun n => ⟨fun h => absurd h List.not_mem_nil, ?_⟩, rfl,
      fun n => by simp⟩
    rintro ⟨hn, hrank⟩
    have hlt : (m.keys.filter (· < n)).length < m.keys.length :=
      List.length_filter_lt_length_iff_exists.mpr ⟨n, hn, by simp⟩
    have hlen : m.keys.length = m.entries.length := List.length_map _
    omega
  · dsimp only
    refine ⟨((m.byNonce.drop threshold).reverse).map (·.1), ?_, fun n => ⟨?_, ?_⟩, ?_, fun n => ?_⟩
    · exact List.pairwise_map.mpr (List.pairwise_reverse.mpr (byNonce_pairwise m).drop)
    · intro hn
      obtain ⟨e, he, rfl⟩ := List.mem_map.mp hn
      obtain ⟨j, hj, rfl⟩ := List.mem_drop_iff_getElem.mp (List.mem_reverse.mp he)
      refine ⟨(keys_perm_byNonce m).mem_iff.mpr (List.mem_map_of_mem (List.getElem_mem _)), ?_⟩
      rw [rank_byNonce]
      omega
    · rintro ⟨hn, hrank⟩
      obtain ⟨e, he, rfl⟩ := List.mem_map.mp ((keys_perm_byNonce m).mem_iff.mp hn)
      obtain ⟨i, hi, rfl⟩ := List.getElem_of_mem he
      rw [rank_byNonce hi] at hrank
      refine List.mem_map_of_mem (List.mem_reverse.mpr (List.mem_drop_iff_getElem.mpr
        ⟨i - threshold, by omega, ?_⟩))
      congr 1
      omega
    · exact map_snd_eq_filterMap_lookup fun e he =>
        mem_byNonce.mp (List.mem_of_mem_drop (List.mem_reverse.mp he))
    · rw [lookup_deleteAll_eq]

/-- In entries strictly increasing in nonce, those before the first at or
above the threshold are all those below it. -/
theorem mem_takeWhile_lt {l : List (Sigma fun _ : Nat => Transaction)}
    (hl : l.Pairwise fun a b => a.1 < b.1) (threshold : Nat) (e : Sigma fun _ : Nat => Transaction) :
    e ∈ l.takeWhile (fun e => e.1 < threshold) ↔ e ∈ l ∧ e.1 < threshold := by
  induction l with
  | nil => simp
  | cons x l ih =>
    obtain ⟨hx, hl⟩ := List.pairwise_cons.mp hl
    by_cases hlt : x.1 < threshold
    · rw [List.takeWhile_cons_of_pos (by simpa using hlt), List.mem_cons, List.mem_cons, ih hl]
      constructor
      · rintro (rfl | ⟨he, helt⟩)
        · exact ⟨Or.inl rfl, hlt⟩
        · exact ⟨Or.inr he, helt⟩
      · rintro ⟨rfl | he, helt⟩
        · exact Or.inl rfl
        · exact Or.inr ⟨he, helt⟩
    · -- every later entry is above `x`, so none is below the threshold
      rw [List.takeWhile_cons_of_neg (by simpa using hlt)]
      simp only [List.not_mem_nil, false_iff, not_and]
      intro he helt
      rcases List.mem_cons.mp he with rfl | he
      · exact hlt helt
      · have := hx e he
        omega

/-- **`Forward`.** It returns the transactions below the threshold, lowest
nonce first, and deletes exactly those. -/
theorem forward_takes_below (m : TxSortedMap) (threshold : Nat) :
    ∃ removed : List Nat, removed.Pairwise (· < ·) ∧
      (∀ n, n ∈ removed ↔ n ∈ m.keys ∧ n < threshold) ∧
      (m.forward threshold).1 = removed.filterMap m.lookup ∧
      ∀ n, (m.forward threshold).2.lookup n = if n < threshold then none else m.lookup n := by
  have hmem := mem_takeWhile_lt (byNonce_pairwise m) threshold
  have hremoved : ∀ n, n ∈ (m.byNonce.takeWhile fun e => e.1 < threshold).map (·.1) ↔
      n ∈ m.keys ∧ n < threshold := by
    intro n
    rw [List.mem_map, (keys_perm_byNonce m).mem_iff, List.mem_map]
    constructor
    · rintro ⟨e, he, rfl⟩
      obtain ⟨he, hlt⟩ := (hmem e).mp he
      exact ⟨⟨e, he, rfl⟩, hlt⟩
    · rintro ⟨⟨e, he, rfl⟩, hlt⟩
      exact ⟨e, (hmem e).mpr ⟨he, hlt⟩, rfl⟩
  refine ⟨(m.byNonce.takeWhile fun e => e.1 < threshold).map (·.1), ?_, hremoved, ?_, fun n => ?_⟩
  · exact List.pairwise_map.mpr ((byNonce_pairwise m).sublist (List.takeWhile_prefix _).sublist)
  · exact map_snd_eq_filterMap_lookup fun e he => mem_byNonce.mp ((hmem e).mp he).1
  · -- a nonce below the threshold that is not removed is not in the map
    unfold forward
    rw [lookup_deleteAll_eq]
    by_cases hlt : n < threshold
    · rw [if_pos hlt]
      split
      · rfl
      · rename_i hn
        cases hl : m.lookup n with
        | none => rfl
        | some tx =>
          have hkey : n ∈ m.keys := AList.mem_keys.mpr (AList.lookup_isSome.mp (by rw [hl]; rfl))
          exact absurd ((hremoved n).mpr ⟨hkey, hlt⟩) hn
    · rw [if_neg hlt, if_neg fun hn => hlt ((hremoved n).mp hn).2]

end TxSortedMap

end CeloBlockchain.Core
