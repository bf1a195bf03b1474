import Mathlib.Data.List.Sort

/-!
# Priority queues held in pop order

A max-priority queue is held as the list of its elements in the order they
pop: no element has a greater priority than one before it (`Sorted`).
`push` inserts an element before the first one whose priority it reaches, so
it keeps the order (`sorted_push`) and adds exactly that element
(`perm_push`); pushing back the element just popped restores the queue
(`push_of_head`).  Equal priorities pop in some order; nothing below depends
on which.

A consumer pops until an element passes a test and pushes that one back:
what is left is `dropWhile` of the failures.  When passing is closed
downwards in priority (an element that passes makes every element of no
greater priority pass), everything left passes (`forall_dropWhile`).

The loop that keeps the element `le` the one kept so far (`selectMin`)
selects a minimum when `le` is total and transitive on the list
(`selectMin_spec`).
-/

namespace PopOrder

variable {α κ : Type} [LinearOrder κ] (key : α → κ)

/-- `a` may pop before `b`: its priority is not smaller. -/
def Before (a b : α) : Prop := key b ≤ key a

instance : DecidableRel (Before key) := fun a b => inferInstanceAs (Decidable (key b ≤ key a))

instance : Std.Total (Before key) := ⟨fun a b => le_total (key b) (key a)⟩

instance : IsTrans α (Before key) := ⟨fun _ _ _ hab hbc => le_trans hbc hab⟩

/-- The queue is listed in pop order. -/
def Sorted (q : List α) : Prop := q.Pairwise (Before key)

/-- `Push`: the queue with `x` added, in pop order. -/
def push (x : α) (q : List α) : List α := q.orderedInsert (Before key) x

variable {key}

theorem sorted_push {q : List α} (hq : Sorted key q) (x : α) : Sorted key (push key x q) :=
  hq.orderedInsert x q

theorem perm_push (x : α) (q : List α) : (push key x q).Perm (x :: q) :=
  List.perm_orderedInsert _ x q

theorem mem_push {x y : α} {q : List α} : y ∈ push key x q ↔ y = x ∨ y ∈ q :=
  List.mem_orderedInsert _

/-- Pushing back the head just popped gives the queue it was popped from. -/
theorem push_of_head {x : α} {q : List α} (h : Sorted key (x :: q)) : push key x q = x :: q := by
  cases q with
  | nil => rfl
  | cons y q => exact List.orderedInsert_cons_of_le _ _ (List.rel_of_pairwise_cons h List.mem_cons_self)

theorem Sorted.tail {x : α} {q : List α} (h : Sorted key (x :: q)) : Sorted key q :=
  List.Pairwise.of_cons h

theorem Sorted.dropWhile {q : List α} (h : Sorted key q) (p : α → Bool) :
    Sorted key (q.dropWhile p) :=
  List.Pairwise.sublist (List.dropWhile_suffix p).sublist h

/-- **Stopping at the first pass.**  If passing is closed downwards in
priority among the queue's elements, every element left after the failures
at the front pass. -/
theorem forall_dropWhile {q : List α} (hq : Sorted key q) {P : α → Bool}
    (hP : ∀ a ∈ q, ∀ b ∈ q, Before key a b → P a → P b) :
    ∀ x ∈ q.dropWhile (fun a => !P a), P x := by
  induction q with
  | nil => simp
  | cons a q ih =>
    intro x hx
    by_cases ha : P a
    · -- the front passes: it stays, and bounds what follows it
      rw [List.dropWhile_cons_of_neg (by simpa using ha)] at hx
      rcases List.mem_cons.mp hx with rfl | hx
      · exact ha
      · exact hP a List.mem_cons_self x (List.mem_cons_of_mem a hx)
          (List.rel_of_pairwise_cons hq hx) ha
    · rw [List.dropWhile_cons_of_pos (by simpa using ha)] at hx
      exact ih hq.tail (fun a' ha' b hb => hP a' (List.mem_cons_of_mem a ha') b
        (List.mem_cons_of_mem a hb)) x hx

/-! ## Selecting a minimum by a loop -/

section SelectMin

variable {β : Type}

/-- One round of the loop `if m == nil || le(x, m) { m = x }`. -/
def selectStep (le : β → β → Bool) : Option β → β → Option β
  | none, x => some x
  | some m, x => if le x m then some x else some m

/-- The loop over a list, from nothing selected. -/
def selectMin (le : β → β → Bool) (l : List β) : Option β := l.foldl (selectStep le) none

/-- From a selected `m`, the loop ends at an element of `m :: l` that is `le`
every element of it, when `le` is total and transitive there. -/
theorem foldl_selectStep_some (le : β → β → Bool) :
    ∀ (l : List β) (m : β),
      (∀ x ∈ m :: l, ∀ y ∈ m :: l, le x y = true ∨ le y x = true) →
      (∀ x ∈ m :: l, ∀ y ∈ m :: l, ∀ z ∈ m :: l, le x y = true → le y z = true → le x z = true) →
      ∃ m' ∈ m :: l, l.foldl (selectStep le) (some m) = some m' ∧ ∀ x ∈ m :: l, le m' x = true := by
  intro l
  induction l with
  | nil =>
    intro m htot _
    refine ⟨m, List.mem_singleton_self m, rfl, ?_⟩
    intro x hx
    rw [List.mem_singleton.mp hx]
    exact (htot m List.mem_cons_self m List.mem_cons_self).elim id id
  | cons x l ih =>
    intro m htot htrans
    -- the element kept by this round, and the one it drops
    set m₁ := if le x m then x else m with hm₁
    have hsub : ∀ y ∈ m₁ :: l, y ∈ m :: x :: l := by
      intro y hy
      rcases List.mem_cons.mp hy with rfl | hy
      · by_cases h : le x m = true
        · simp [hm₁, h]
        · simp [hm₁, h]
      · simp [hy]
    obtain ⟨m', hm', hfold, hmin⟩ := ih m₁ (fun a ha b hb => htot a (hsub a ha) b (hsub b hb))
      (fun a ha b hb c hc => htrans a (hsub a ha) b (hsub b hb) c (hsub c hc))
    have hstep : selectStep le (some m) x = some m₁ := by
      simp only [selectStep, hm₁]
      split <;> rfl
    refine ⟨m', hsub m' hm', by rw [List.foldl_cons, hstep, hfold], ?_⟩
    have hm'S : m' ∈ m :: x :: l := hsub m' hm'
    intro y hy
    rcases List.mem_cons.mp hy with rfl | hy
    · -- `m` was dropped only for an `x` below it
      by_cases h : le x y = true
      · have := hmin x (by simp [hm₁, h])
        exact htrans m' hm'S x (by simp) y List.mem_cons_self this h
      · exact hmin y (by simp [hm₁, h])
    · rcases List.mem_cons.mp hy with rfl | hy
      · -- `y` was dropped only when `m` is below it
        by_cases h : le y m = true
        · exact hmin y (by simp [hm₁, h])
        · have hmy : le m y = true := (htot y (by simp) m List.mem_cons_self).resolve_left h
          have := hmin m (by simp [hm₁, h])
          exact htrans m' hm'S m List.mem_cons_self y (by simp) this hmy
      · exact hmin y (List.mem_cons_of_mem _ hy)

/-- **The loop selects a minimum.** On a nonempty list on which `le` is total
and transitive, `selectMin` returns an element that is `le` every element. -/
theorem selectMin_spec (le : β → β → Bool) {l : List β} (hne : l ≠ [])
    (htot : ∀ x ∈ l, ∀ y ∈ l, le x y = true ∨ le y x = true)
    (htrans : ∀ x ∈ l, ∀ y ∈ l, ∀ z ∈ l, le x y = true → le y z = true → le x z = true) :
    ∃ m ∈ l, selectMin le l = some m ∧ ∀ x ∈ l, le m x = true := by
  obtain ⟨a, l, rfl⟩ := List.exists_cons_of_ne_nil hne
  exact foldl_selectStep_some le l a htot htrans

theorem foldl_selectStep_mem (le : β → β → Bool) :
    ∀ (l : List β) (acc : Option β) {m : β}, l.foldl (selectStep le) acc = some m →
      m ∈ l ∨ acc = some m := by
  intro l
  induction l with
  | nil => intro acc m h; exact .inr h
  | cons x l ih =>
    intro acc m h
    rcases ih _ h with hm | hm
    · exact .inl (List.mem_cons_of_mem x hm)
    · -- the round kept `x` or what it had
      cases acc with
      | none => exact .inl (by cases hm; exact List.mem_cons_self)
      | some a =>
        simp only [selectStep] at hm
        split at hm
        · cases hm
          exact .inl List.mem_cons_self
        · exact .inr hm

/-- The loop selects an element of the list. -/
theorem selectMin_mem (le : β → β → Bool) {l : List β} {m : β} (h : selectMin le l = some m) :
    m ∈ l :=
  (foldl_selectStep_mem le l none h).resolve_right (by simp)

theorem selectMin_eq_none_iff (le : β → β → Bool) (l : List β) :
    selectMin le l = none ↔ l = [] := by
  cases l with
  | nil => simp [selectMin]
  | cons a l =>
    have : ∀ (l : List β) (m : β), l.foldl (selectStep le) (some m) ≠ none := by
      intro l
      induction l with
      | nil => intro m; simp
      | cons x l ih =>
        intro m
        rw [List.foldl_cons]
        by_cases h : le x m = true
        · rw [show selectStep le (some m) x = some x by simp [selectStep, h]]
          exact ih x
        · rw [show selectStep le (some m) x = some m by simp [selectStep, h]]
          exact ih m
    simpa [selectMin, selectStep] using this l a

end SelectMin

end PopOrder
