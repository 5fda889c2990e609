/-!
Buckets. A list whose items are put into buckets by a key, the buckets joined in order of their keys, is
the stable sort of the list by the key. Watch lists are such buckets, and a scan of them joins them.
-/
namespace ClauseFeatures

variable {α β : Type}

/-- The items of a list with the key `0`, then those with the key `1` and so on below a bound; items with
the same key keep their order. -/
def buckets (key : α → Nat) (bound : Nat) (items : List α) : List α :=
  (List.range bound).flatMap fun k => items.filter fun x => key x = k

def sortByKey (key : α → Nat) (items : List α) : List α :=
  items.mergeSort fun a b => decide (key a ≤ key b)

private theorem mem_iff_of_filter_key {key : α → Nat} {as bs : List α}
    (h : ∀ k, as.filter (fun x => key x = k) = bs.filter fun x => key x = k) (x : α) :
    x ∈ as ↔ x ∈ bs := by
  have hx := congrArg (x ∈ ·) (h (key x))
  simpa using hx

/-- A list in order of its keys is determined by what it holds of each key. -/
theorem eq_of_filter_key (key : α → Nat) {as bs : List α}
    (ha : as.Pairwise fun a b => key a ≤ key b) (hb : bs.Pairwise fun a b => key a ≤ key b)
    (h : ∀ k, as.filter (fun x => key x = k) = bs.filter fun x => key x = k) : as = bs := by
  have mem := mem_iff_of_filter_key h
  induction as generalizing bs with
  | nil =>
      cases bs with
      | nil => rfl
      | cons b bs => exact absurd ((mem b).mpr List.mem_cons_self) List.not_mem_nil
  | cons a as ih =>
      cases bs with
      | nil => exact absurd ((mem a).mp List.mem_cons_self) List.not_mem_nil
      | cons b bs =>
          rw [List.pairwise_cons] at ha hb
          -- Both heads have the least key, so each is the first item of that key.
          have hab : key a ≤ key b := by
            rcases List.mem_cons.mp ((mem b).mpr List.mem_cons_self) with rfl | hm
            · exact Nat.le_refl _
            · exact ha.1 b hm
          have hba : key b ≤ key a := by
            rcases List.mem_cons.mp ((mem a).mp List.mem_cons_self) with rfl | hm
            · exact Nat.le_refl _
            · exact hb.1 a hm
          have heads := h (key a)
          simp only [List.filter_cons, Nat.le_antisymm hba hab, decide_true, ite_true,
            List.cons.injEq] at heads
          obtain ⟨rfl, tails⟩ := heads
          have rest (k : Nat) :
              as.filter (fun x => key x = k) = bs.filter fun x => key x = k := by
            by_cases hk : key a = k
            · exact hk ▸ tails
            · simpa only [List.filter_cons, hk, decide_false, Bool.false_eq_true, ite_false]
                using h k
          rw [ih ha.2 hb.2 rest (mem_iff_of_filter_key rest)]

theorem mem_buckets {key : α → Nat} {bound : Nat} {items : List α} {x : α} :
    x ∈ buckets key bound items ↔ x ∈ items ∧ key x < bound := by
  simp only [buckets, List.mem_flatMap, List.mem_range, List.mem_filter, decide_eq_true_eq]
  constructor
  · rintro ⟨k, hk, hx, rfl⟩
    exact ⟨hx, hk⟩
  · intro ⟨hx, hk⟩
    exact ⟨key x, hk, hx, rfl⟩

theorem pairwise_buckets (key : α → Nat) (bound : Nat) (items : List α) :
    (buckets key bound items).Pairwise fun a b => key a ≤ key b := by
  induction bound with
  | zero => exact List.Pairwise.nil
  | succ k ih =>
      rw [buckets, List.range_succ, List.flatMap_append, List.pairwise_append]
      refine ⟨ih, ?_, ?_⟩
      · rw [List.flatMap_singleton]
        refine List.Pairwise.imp_of_mem (R := fun _ _ => True) ?_ (List.pairwise_of_forall (by simp))
        intro a b ha hb _
        simp only [List.mem_filter, decide_eq_true_eq] at ha hb
        omega
      · intro a ha b hb
        have hk := (mem_buckets.mp ha).2
        simp only [List.flatMap_singleton, List.mem_filter, decide_eq_true_eq] at hb
        omega

theorem filter_buckets (key : α → Nat) (bound : Nat) (items : List α) (k : Nat) :
    (buckets key bound items).filter (fun x => key x = k) =
      if k < bound then items.filter (fun x => key x = k) else [] := by
  induction bound with
  | zero => simp [buckets]
  | succ n ih =>
      rw [buckets, List.range_succ, List.flatMap_append, List.filter_append,
        List.flatMap_singleton, List.filter_filter]
      rw [buckets] at ih
      rw [ih]
      by_cases hk : k = n
      · subst hk
        simp
      · have none : items.filter (fun x => decide (key x = k) && decide (key x = n)) = [] := by
          rw [List.filter_eq_nil_iff]
          intro x _
          simp only [Bool.and_eq_true, decide_eq_true_eq]
          omega
        rw [none, List.append_nil]
        have : k < n + 1 ↔ k < n := by omega
        simp only [this]

private theorem key_trans (key : α → Nat) (a b c : α) (hab : decide (key a ≤ key b) = true)
    (hbc : decide (key b ≤ key c) = true) : decide (key a ≤ key c) = true := by
  simp only [decide_eq_true_eq] at *
  exact Nat.le_trans hab hbc

private theorem key_total (key : α → Nat) (a b : α) :
    (decide (key a ≤ key b) || decide (key b ≤ key a)) = true := by
  simp only [Bool.or_eq_true, decide_eq_true_eq]
  exact Nat.le_total _ _

private theorem pairwise_sortByKey (key : α → Nat) (items : List α) :
    (sortByKey key items).Pairwise fun a b => key a ≤ key b := by
  have h := List.pairwise_mergeSort (key_trans key) (key_total key) items
  simpa only [sortByKey, decide_eq_true_eq] using h

/-- Sorting keeps the items of one key in their order. -/
theorem filter_sortByKey (key : α → Nat) (items : List α) (k : Nat) :
    (sortByKey key items).filter (fun x => key x = k) = items.filter fun x => key x = k := by
  have sorted : (items.filter fun x => key x = k).Pairwise
      fun a b => decide (key a ≤ key b) = true := by
    refine List.Pairwise.imp_of_mem (R := fun _ _ => True) ?_ (List.pairwise_of_forall (by simp))
    intro a b ha hb _
    simp only [List.mem_filter, decide_eq_true_eq] at ha hb ⊢
    omega
  have sub : (items.filter fun x => key x = k).Sublist (sortByKey key items) :=
    List.sublist_mergeSort (key_trans key) (key_total key) sorted List.filter_sublist
  have kept := sub.filter fun x => decide (key x = k)
  rw [List.filter_filter] at kept
  simp only [Bool.and_self] at kept
  refine (kept.eq_of_length ?_).symm
  exact (((List.mergeSort_perm items _).filter _).length_eq).symm

/-- Joining buckets sorts, if there is a bucket for each key. -/
theorem buckets_eq_sortByKey (key : α → Nat) {bound : Nat} {items : List α}
    (h : ∀ x ∈ items, key x < bound) : buckets key bound items = sortByKey key items := by
  apply eq_of_filter_key key (pairwise_buckets key bound items) (pairwise_sortByKey key items)
  intro k
  rw [filter_buckets, filter_sortByKey]
  split
  · rfl
  · symm
    rw [List.filter_eq_nil_iff]
    intro x hx
    have := h x hx
    simp only [decide_eq_true_eq]
    omega

theorem length_buckets {key : α → Nat} {bound : Nat} {items : List α}
    (h : ∀ x ∈ items, key x < bound) : (buckets key bound items).length = items.length := by
  rw [buckets_eq_sortByKey key h, sortByKey, List.length_mergeSort]

/-- A step that keeps keys can be made before the items are put into buckets. -/
theorem filterMap_buckets {key : α → Nat} {key' : β → Nat} {f : α → Option β} (bound : Nat)
    {items : List α} (h : ∀ x ∈ items, ∀ y, f x = some y → key' y = key x) :
    (buckets key bound items).filterMap f = buckets key' bound (items.filterMap f) := by
  rw [buckets, buckets, List.filterMap_flatMap]
  congr 1
  funext k
  induction items with
  | nil => rfl
  | cons x items ih =>
      have hx := h x List.mem_cons_self
      have ih := ih fun z hz => h z (List.mem_cons_of_mem x hz)
      rw [List.filterMap_cons]
      by_cases hk : key x = k
      · cases hf : f x with
        | none => simp [hk, hf, ih]
        | some y => simp [hk, hf, ih, hx y hf]
      · cases hf : f x with
        | none => simp [hk, ih]
        | some y => simp [hk, ih, hx y hf]

theorem sortByKey_map (key : β → Nat) (f : α → β) (items : List α) :
    sortByKey key (items.map f) = (sortByKey (fun x => key (f x)) items).map f := by
  rw [sortByKey, sortByKey, List.map_mergeSort]
  intro a _ b _
  rfl

end ClauseFeatures
