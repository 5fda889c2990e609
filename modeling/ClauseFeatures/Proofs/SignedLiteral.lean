import Mathlib.Data.List.Nodup
import ClauseFeatures.Database.Candidate
import ClauseFeatures.Proofs.Effect

/-!
Clauses written as signed numbers. A number other than zero is a literal, each literal is a single number, and
a list of numbers is a clause if the list of its literals is one.
-/
namespace ClauseFeatures

namespace Literal

/-- A literal and the signed number that stands for it: the variable is counted from one, and a sign negates. -/
structure Denotes (l : Literal) (v : Int) : Prop where
  var : l.var + 1 = v.natAbs
  negated : l.negated = decide (v < 0)

/-- The literal of a signed number other than zero. -/
def ofSigned (v : Int) : Literal := ⟨2 * (v.natAbs - 1) + if v < 0 then 1 else 0⟩

variable {v w : Int}

theorem denotes_ofSigned (h : v ≠ 0) : (ofSigned v).Denotes v := by
  by_cases negative : v < 0
  · have code : (ofSigned v).code = 2 * (v.natAbs - 1) + 1 := by rw [ofSigned, if_pos negative]
    constructor
    · rw [Literal.var, code]
      omega
    · rw [Literal.negated, code, decide_eq_true negative, beq_iff_eq]
      omega
  · have code : (ofSigned v).code = 2 * (v.natAbs - 1) := by rw [ofSigned, if_neg negative]; rfl
    constructor
    · rw [Literal.var, code]
      omega
    · rw [Literal.negated, code, decide_eq_false negative, beq_eq_false_iff_ne]
      omega

theorem Denotes.eq_of_eq {l : Literal} (h : l.Denotes v) (h' : l.Denotes w) : v = w := by
  have magnitude := h.var.symm.trans h'.var
  have sign := h.negated.symm.trans h'.negated
  rw [decide_eq_decide] at sign
  omega

theorem ofSigned_inj (hv : v ≠ 0) (hw : w ≠ 0) (h : ofSigned v = ofSigned w) : v = w :=
  (denotes_ofSigned hv).eq_of_eq (h ▸ denotes_ofSigned hw)

theorem ofDimacs_eq (h : v ≠ 0) : ofDimacs v = .ok (ofSigned v) := by
  have natural : ¬ ((v.natAbs - 1 : Int) + (v.natAbs - 1) + if v < 0 then 1 else 0) < 0 := by
    split <;> omega
  rw [ofDimacs, if_neg h, make, ofCode, if_neg natural, ofSigned]
  congr 2
  split <;> omega

namespace Candidate

variable {clause : List Int}

theorem mapM_ofDimacs (nonzero : 0 ∉ clause) :
    (clause.map Number.int).mapM ofDimacs = .ok (clause.map fun v => ofLiteral (ofSigned v)) := by
  induction clause with
  | nil => rfl
  | cons v clause ih =>
      rw [List.mem_cons, not_or] at nonzero
      have first : ofDimacs (.int v) = .ok (ofLiteral (ofSigned v)) := by
        change (Literal.ofDimacs v).map ofLiteral = _
        rw [ofDimacs_eq (Ne.symm nonzero.1)]
        rfl
      rw [List.map_cons, List.mapM_cons, first, ok_bind, ih nonzero.2]
      rfl

/-- What comes before a zero is converted, and the zero is refused. -/
theorem mapM_ofDimacs_zero (zero : 0 ∈ clause) :
    (clause.map Number.int).mapM ofDimacs = .error .zeroLiteral := by
  induction clause with
  | nil => cases zero
  | cons v clause ih =>
      rw [List.map_cons, List.mapM_cons]
      change ((Literal.ofDimacs v).map ofLiteral >>= _) = _
      by_cases first : v = 0
      · rw [first]
        rfl
      · rw [ofDimacs_eq first, ih ((List.mem_cons.mp zero).resolve_left (Ne.symm first))]
        rfl

theorem mapM_literal? (lits : List Literal) : (lits.map ofLiteral).mapM literal? = some lits := by
  induction lits with
  | nil => rfl
  | cons l lits ih =>
      rw [List.map_cons, List.mapM_cons, ih]
      rfl

end Candidate

end Literal

/-- A list of signed numbers that is a clause; over how many variables may be left open. -/
structure IsSignedClause (vars : Option Int) (clause : List Int) : Prop where
  size : 2 ≤ clause.length
  nonzero : 0 ∉ clause
  distinct : clause.Nodup
  existing : ∀ n ∈ vars, ∀ v ∈ clause, v.natAbs ≤ n

instance (vars : Option Int) (clause : List Int) : Decidable (IsSignedClause vars clause) :=
  decidable_of_iff (2 ≤ clause.length ∧ 0 ∉ clause ∧ clause.Nodup ∧ ∀ n ∈ vars, ∀ v ∈ clause, (v.natAbs : Int) ≤ n)
    ⟨fun ⟨size, nonzero, distinct, existing⟩ => ⟨size, nonzero, distinct, existing⟩,
      fun ⟨size, nonzero, distinct, existing⟩ => ⟨size, nonzero, distinct, existing⟩⟩

theorem nodup_ofSigned {clause : List Int} (nonzero : 0 ∉ clause) :
    (clause.map Literal.ofSigned).Nodup ↔ clause.Nodup := by
  have ne {v : Int} (hv : v ∈ clause) : v ≠ 0 := fun zero => nonzero (zero ▸ hv)
  exact ⟨List.Nodup.of_map _, fun distinct => distinct.map_on fun v hv w hw =>
    Literal.ofSigned_inj (ne hv) (ne hw)⟩

theorem isClause_iff {clause : List Int} (nonzero : 0 ∉ clause) {vars : Nat} :
    IsClause (clause.map Literal.ofSigned) vars ↔ IsSignedClause (some vars) clause := by
  have ne {v : Int} (hv : v ∈ clause) : v ≠ 0 := fun zero => nonzero (zero ▸ hv)
  have below {v : Int} (hv : v ∈ clause) : (Literal.ofSigned v).var < vars ↔ (v.natAbs : Int) ≤ vars := by
    have := (Literal.denotes_ofSigned (ne hv)).var
    omega
  constructor
  · rintro ⟨size, distinct, existing⟩
    refine ⟨by rwa [List.length_map] at size, nonzero, (nodup_ofSigned nonzero).mp distinct, ?_⟩
    rintro _ ⟨⟩ v hv
    exact (below hv).mp (existing _ (List.mem_map_of_mem hv))
  · rintro ⟨size, -, distinct, existing⟩
    refine ⟨by rwa [List.length_map], (nodup_ofSigned nonzero).mpr distinct, fun l hl => ?_⟩
    obtain ⟨v, hv, rfl⟩ := List.mem_map.mp hl
    exact (below hv).mpr (existing vars rfl v hv)

end ClauseFeatures
