import ClauseFeatures.Proofs.Computation

/-!
The stages of an extraction. Its first passes give the extremes and the means, its second passes only fill in
the deviations, and a record shows what the second passes leave.
-/
namespace ClauseFeatures

variable {K E : Type}

/-- A summary that differs from another one in its deviation at most. -/
structure Summary.Keeps (s t : Summary K) : Prop where
  min : t.min = s.min
  max : t.max = s.max
  spread : t.spread = s.spread
  mean : t.mean = s.mean

theorem Summary.Keeps.refl (s : Summary K) : s.Keeps s := ⟨rfl, rfl, rfl, rfl⟩

theorem Summary.Keeps.agree {s t u : Summary K} (h : s.Keeps t) (h' : s.Keeps u) : t.Keeps u :=
  ⟨h'.min.trans h.min.symm, h'.max.trans h.max.symm, h'.spread.trans h.spread.symm, h'.mean.trans h.mean.symm⟩

theorem Summary.Keeps.eq {s t : Summary K} (h : s.Keeps t) (std : t.std = s.std) : t = s := by
  cases s
  cases t
  rw [Summary.mk.injEq]
  exact ⟨h.min, h.max, h.spread, h.mean, std⟩

structure ClauseMoments.Keeps (m m' : ClauseMoments K) : Prop where
  binary : m'.binary = m.binary
  ternary : m'.ternary = m.ternary
  horn : m'.horn = m.horn
  density : m.density.Keeps m'.density
  polarity : m.polarity.Keeps m'.polarity

structure VariableMoments.Keeps (n n' : VariableMoments K) : Prop where
  density : n.density.Keeps n'.density
  polarity : n.polarity.Keeps n'.polarity
  horn : n.horn.Keeps n'.horn

structure FeatureRecord.Shows (f : FeatureRecord K) (m : ClauseMoments K) (n : VariableMoments K) : Prop where
  binary : f.binary = m.binary
  ternary : f.ternary = m.ternary
  horn : f.horn = m.horn
  clauseDensity : f.clauseDensity = m.density
  clausePolarity : f.clausePolarity = m.polarity
  varDensity : f.varDensity = n.density
  varPolarity : f.varPolarity = n.polarity
  varHorn : f.varHorn = n.horn

section Passes

variable [Arithmetic K E] {db : Database K} {m m' : ClauseMoments K} {vars clauses eps : K}

theorem ClauseMoments.second_keeps (h : m.second db vars clauses eps = .ok m') : m.Keeps m' := by
  rw [second] at h
  split at h
  · cases h
    exact ⟨rfl, rfl, rfl, .refl _, .refl _⟩
  · obtain ⟨sums, -, h⟩ := bind_eq_ok h
    obtain ⟨density, -, h⟩ := bind_eq_ok h
    obtain ⟨polarity, -, h⟩ := bind_eq_ok h
    cases h
    exact ⟨rfl, rfl, rfl, ⟨rfl, rfl, rfl, rfl⟩, ⟨rfl, rfl, rfl, rfl⟩⟩

variable [Element E] {occ : Occurrences} {n n' : VariableMoments K}

theorem VariableMoments.withDeviation_keeps {s t : Summary K} {ratios : List E}
    (h : withDeviation s ratios vars eps = .ok t) : s.Keeps t := by
  obtain ⟨mean, -, h⟩ := bind_eq_ok h
  obtain ⟨std, -, h⟩ := bind_eq_ok h
  cases h
  exact ⟨rfl, rfl, rfl, rfl⟩

theorem VariableMoments.second_keeps (h : second occ n vars clauses eps = .ok n') : n.Keeps n' := by
  rw [second] at h
  split at h
  · cases h
    exact ⟨.refl _, .refl _, .refl _⟩
  · obtain ⟨ratios, -, h⟩ := bind_eq_ok h
    obtain ⟨density, hdensity, h⟩ := bind_eq_ok h
    obtain ⟨polarity, hpolarity, h⟩ := bind_eq_ok h
    obtain ⟨horn, hhorn, h⟩ := bind_eq_ok h
    cases h
    exact ⟨withDeviation_keeps hdensity, withDeviation_keeps hpolarity, withDeviation_keeps hhorn⟩

end Passes

variable [Element E] [Arithmetic K E]

structure FirstStage (db : Database K) (occ : Occurrences) (m : ClauseMoments K) (n : VariableMoments K) :
    Prop where
  counted : Occurrences.ofDatabase db = .ok occ
  clauseSide : ClauseMoments.first db (Quantity.ofInt occ.activeCount) (Quantity.ofInt db.irredCount)
    (Quantity.ofInt occ.hornClauses) = .ok m
  varSide : VariableMoments.first occ (Quantity.ofInt occ.activeCount) (Quantity.ofInt db.irredCount) = .ok n

theorem FirstStage.unique {db : Database K} {occ occ' : Occurrences} {m m' : ClauseMoments K}
    {n n' : VariableMoments K} (h : FirstStage db occ m n) (h' : FirstStage db occ' m' n') :
    m = m' ∧ n = n' := by
  cases Except.ok.inj (h.counted.symm.trans h'.counted)
  exact ⟨Except.ok.inj (h.clauseSide.symm.trans h'.clauseSide), Except.ok.inj (h.varSide.symm.trans h'.varSide)⟩

/-- What the second passes of an extraction make of the moments of the first ones. -/
structure SecondStage (db : Database K) (occ : Occurrences) (eps : K) (m m' : ClauseMoments K)
    (n n' : VariableMoments K) : Prop where
  clauseSide : m.second db (Quantity.ofInt occ.activeCount) (Quantity.ofInt db.irredCount) eps = .ok m'
  varSide : VariableMoments.second occ n (Quantity.ofInt occ.activeCount) (Quantity.ofInt db.irredCount) eps =
    .ok n'

theorem SecondStage.unique {db : Database K} {occ : Occurrences} {eps : K} {m m₁ m₂ : ClauseMoments K}
    {n n₁ n₂ : VariableMoments K} (h : SecondStage db occ eps m m₁ n n₁) (h' : SecondStage db occ eps m m₂ n n₂) :
    m₁ = m₂ ∧ n₁ = n₂ :=
  ⟨Except.ok.inj (h.clauseSide.symm.trans h'.clauseSide), Except.ok.inj (h.varSide.symm.trans h'.varSide)⟩

namespace Database

variable {db : Database K} {eps : K} {f : FeatureRecord K}

theorem stages_of_core (h : db.core eps = .ok f) :
    ∃ occ m n m' n', FirstStage db occ m n ∧ SecondStage db occ eps m m' n n' ∧ f.Shows m' n' := by
  rw [core_eq] at h
  obtain ⟨occ, counted, h⟩ := bind_eq_ok h
  obtain ⟨ratio, -, h⟩ := bind_eq_ok h
  obtain ⟨m, first, h⟩ := bind_eq_ok h
  obtain ⟨n, varFirst, h⟩ := bind_eq_ok h
  obtain ⟨m', second, h⟩ := bind_eq_ok h
  obtain ⟨n', varSecond, h⟩ := bind_eq_ok h
  cases h
  exact ⟨occ, m, n, m', n', ⟨counted, first, varFirst⟩, ⟨second, varSecond⟩, rfl, rfl, rfl, rfl, rfl, rfl, rfl,
    rfl⟩

/-- The moments that a record shows are those of the stages. -/
theorem stages_of_extract {tier : Number} (h : db.extract eps tier = .ok f) :
    ∃ occ m n m' n', FirstStage db occ m n ∧ SecondStage db occ eps m m' n n' ∧ f.Shows m' n' := by
  obtain ⟨core, redundant, irredundant, hcore, -, rfl⟩ := parts_of_extract h
  obtain ⟨occ, m, n, m', n', first, second, shows⟩ := stages_of_core hcore
  exact ⟨occ, m, n, m', n', first, second, shows.binary, shows.ternary, shows.horn, shows.clauseDensity,
    shows.clausePolarity, shows.varDensity, shows.varPolarity, shows.varHorn⟩

end Database

end ClauseFeatures
