import ClauseFeatures.Literal

/-!
The order of literals. It is the order of their codes, so the lesser, the greater and the sorted list of
literals are determined by the codes, and a variable exists if the code is below twice their number.
-/
namespace ClauseFeatures.Literal

theorem lt_iff_code {a b : Literal} : a < b ↔ a.code < b.code := Iff.rfl

theorem le_iff_code {a b : Literal} : a ≤ b ↔ a.code ≤ b.code := Iff.rfl

theorem eq_iff_code {a b : Literal} : a = b ↔ a.code = b.code :=
  ⟨congrArg code, fun h => congrArg Literal.mk h⟩

theorem code_min (a b : Literal) : (min a b).code = min a.code b.code := by
  change (if b < a then b else a).code = _
  split <;> rename_i h <;> rw [lt_iff_code] at h <;> omega

theorem code_max (a b : Literal) : (max a b).code = max a.code b.code := by
  change (if a < b then b else a).code = _
  split <;> rename_i h <;> rw [lt_iff_code] at h <;> omega

theorem min_lt_max {a b : Literal} (h : a ≠ b) : min a b < max a b := by
  rw [Ne, eq_iff_code] at h
  rw [lt_iff_code, code_min, code_max]
  omega

theorem min_comm (a b : Literal) : min a b = min b a := by
  rw [eq_iff_code, code_min, code_min, Nat.min_comm]

theorem max_comm (a b : Literal) : max a b = max b a := by
  rw [eq_iff_code, code_max, code_max, Nat.max_comm]

theorem min_of_lt {a b : Literal} (h : a < b) : min a b = a := by
  rw [lt_iff_code] at h
  rw [eq_iff_code, code_min]
  omega

theorem max_of_lt {a b : Literal} (h : a < b) : max a b = b := by
  rw [lt_iff_code] at h
  rw [eq_iff_code, code_max]
  omega

theorem lt_or_gt_of_ne {a b : Literal} (h : a ≠ b) : a < b ∨ b < a := by
  rw [Ne, eq_iff_code] at h
  rw [lt_iff_code, lt_iff_code]
  omega

theorem not_lt_of_lt {a b : Literal} (h : a < b) : ¬ b < a := by
  rw [lt_iff_code] at *
  omega

theorem code_lt_iff_var {l : Literal} {vars : Nat} : l.code < 2 * vars ↔ l.var < vars := by
  unfold var
  omega

theorem pairwise_sort (ls : List Literal) : (sort ls).Pairwise (· ≤ ·) := by
  have trans (a b c : Literal) (hab : decide (a ≤ b) = true) (hbc : decide (b ≤ c) = true) :
      decide (a ≤ c) = true := by
    simp only [decide_eq_true_eq, le_iff_code] at *
    omega
  have total (a b : Literal) : (decide (a ≤ b) || decide (b ≤ a)) = true := by
    simp only [Bool.or_eq_true, decide_eq_true_eq, le_iff_code]
    omega
  simpa only [sort, decide_eq_true_eq] using List.pairwise_mergeSort trans total ls

theorem sort_eq_of_perm {as bs : List Literal} (h : as.Perm bs) (hb : bs.Pairwise (· ≤ ·)) :
    sort as = bs := by
  refine List.Perm.eq_of_pairwise ?_ (pairwise_sort as) hb ((List.mergeSort_perm as _).trans h)
  intro a b _ _ hab hba
  rw [le_iff_code] at hab hba
  exact eq_iff_code.mpr (Nat.le_antisymm hab hba)

theorem sort_perm {as bs : List Literal} (h : as.Perm bs) : sort as = sort bs :=
  sort_eq_of_perm (h.trans (List.mergeSort_perm bs _).symm) (pairwise_sort bs)

theorem perm_min_max (a b : Literal) : [a, b].Perm [min a b, max a b] := by
  change [a, b].Perm [if b < a then b else a, if a < b then b else a]
  by_cases hab : a < b
  · have hba : ¬ b < a := by
      rw [lt_iff_code] at *
      omega
    simp only [hab, hba, ite_true, ite_false, List.Perm.refl]
  · by_cases hba : b < a
    · simp only [hab, hba, ite_true, ite_false]
      exact List.Perm.swap b a []
    · have : a = b := by
        rw [lt_iff_code] at hab hba
        exact eq_iff_code.mpr (by omega)
      simp only [this, ite_self, List.Perm.refl]

theorem sort_pair (a b : Literal) : sort [a, b] = [min a b, max a b] := by
  refine sort_eq_of_perm (perm_min_max a b) ?_
  simp only [List.pairwise_pair, le_iff_code, code_min, code_max]
  omega

theorem sort_triple {a b c : Literal} (h : a ≤ min b c) : sort [a, b, c] = [a, min b c, max b c] := by
  refine sort_eq_of_perm ((perm_min_max b c).cons a) ?_
  rw [le_iff_code, code_min] at h
  simp only [List.pairwise_cons, List.mem_cons, List.not_mem_nil, or_false, forall_eq_or_imp,
    forall_eq, false_implies, implies_true, List.Pairwise.nil, and_true, le_iff_code, code_min, code_max]
  omega

/-- The least of three literals comes first when they are sorted, and then the two others in order. -/
theorem sort_triple_cases (a b c : Literal) :
    (a ≤ min b c ∧ sort [a, b, c] = [a, min b c, max b c]) ∨
      (b ≤ min a c ∧ sort [a, b, c] = [b, min a c, max a c]) ∨
      (c ≤ min a b ∧ sort [a, b, c] = [c, min a b, max a b]) := by
  have second : [a, b, c].Perm [b, a, c] := .swap b a [c]
  have third : [a, b, c].Perm [c, a, b] := ((List.Perm.swap c b []).cons a).trans (.swap c a [b])
  have least : a ≤ min b c ∨ b ≤ min a c ∨ c ≤ min a b := by
    simp only [le_iff_code, code_min]
    omega
  rcases least with h | h | h
  · exact .inl ⟨h, sort_triple h⟩
  · exact .inr (.inl ⟨h, (sort_perm second).trans (sort_triple h)⟩)
  · exact .inr (.inr ⟨h, (sort_perm third).trans (sort_triple h)⟩)

end ClauseFeatures.Literal
