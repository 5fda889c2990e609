import ClauseFeatures.Proofs.Effect
import ClauseFeatures.Proofs.Told
import ClauseFeatures.Value.Arithmetic

/-!
How calls are refused. The failures of a call come from its checks; none of them is a failure of attaching
an entry to a watch list.
-/
namespace ClauseFeatures

/-- The failures of attaching: a list that does not exist, or a ternary entry out of form. -/
def Failure.isAttaching : Failure → Bool
  | outsideList | ternaryIncomplete | ternaryUnordered _ _ => true
  | _ => false

abbrev NeverAttaching {α : Type} (x : Except Failure α) : Prop :=
  FailsOnly (fun e => e.isAttaching = false) x

theorem Value.isBelow_fails (orEqual : Bool) (v w : Value) :
    FailsOnly (· = .wrongType) (isBelow orEqual v w) := by
  refine Value.isBelow.induct (fun v w => FailsOnly (· = .wrongType) (isBelow orEqual v w))
    (fun as bs => FailsOnly (· = .wrongType) (itemsBelow orEqual as bs)) ?_ ?_ ?_ ?_ ?_ ?_ ?_ ?_ ?_ v w
  case refine_1 =>
    intro a b
    rw [isBelow]
    exact .ok _
  case refine_2 =>
    intro as bs ih
    rw [isBelow]
    exact ih
  case refine_3 =>
    intro v w hn hl as bs hw hv
    rw [isBelow.eq_3 _ _ _ hn hl, hv, hw]
    exact .ok _
  case refine_4 =>
    intro v w hn hl ht
    rw [isBelow.eq_3 _ _ _ hn hl]
    split
    · exact .ok _
    · exact .error rfl
  case refine_5 =>
    rw [itemsBelow]
    exact .ok _
  case refine_6 | refine_7 =>
    intro _ _
    rw [itemsBelow]
    exact .ok _
  case refine_8 | refine_9 =>
    intro a as b bs heq ih
    simp only [itemsBelow, heq, ite_true, Bool.false_eq_true, ite_false]
    exact ih

theorem bothHold_fails {P : Failure → Prop} {a b : Except Failure Bool} (ha : FailsOnly P a)
    (hb : FailsOnly P b) : FailsOnly P (bothHold a b) := by
  refine ha.bind fun first => ?_
  cases first with
  | false => exact .ok _
  | true => exact hb

private theorem wrongType_isAttaching (e : Failure) (h : e = .wrongType) : e.isAttaching = false :=
  h ▸ rfl

namespace Check

theorem count_neverAttaching (v : Value) (name : String) : NeverAttaching (count v name) := by
  unfold count
  split
  · exact .ok _
  · exact .telling rfl (Value.quoted_fails v) fun _ => .error rfl

theorem existing_neverAttaching (l : Literal) (vars : Nat) (name : String) :
    NeverAttaching (existing l vars name) := by
  unfold existing
  split
  · exact .ok _
  · refine .telling rfl (Failure.integerText_fails _) fun _ => ?_
    exact .telling rfl (Failure.integerText_fails _) fun _ => .error rfl

theorem positive_neverAttaching (x : Value) (name : String) : NeverAttaching (positive x name) := by
  refine ((Value.isBelow_fails false _ _).imp wrongType_isAttaching).bind fun isNegative => ?_
  split
  · exact .telling rfl (Value.told_fails x) fun _ => .error rfl
  · exact .ok _

theorem nonNegative_neverAttaching (x : Value) (name : String) :
    NeverAttaching (nonNegative x name) := by
  refine ((Value.isBelow_fails false _ _).imp wrongType_isAttaching).bind fun isNegative => ?_
  split
  · exact .telling rfl (Value.told_fails x) fun _ => .error rfl
  · exact .ok _

theorem distinct_neverAttaching {α : Type} [DecidableEq α] (items : List α) (name : String) :
    NeverAttaching (distinct items name) := by
  unfold distinct
  split
  · exact .ok _
  · exact .error rfl

theorem forM_existing_neverAttaching (lits : List Literal) (vars : Nat) (name : String) :
    NeverAttaching (lits.forM fun l => existing l vars name) := by
  induction lits with
  | nil => exact .ok _
  | cons l ls ih => exact (existing_neverAttaching l vars name).bind fun _ => ih

end Check

namespace Database

theorem checkTier_neverAttaching (tier : Value) : NeverAttaching (checkTier tier) := by
  have compared := (bothHold_fails (Value.isBelow_fails true (.int 0) tier)
    (Value.isBelow_fails false tier (.int tierCount))).imp wrongType_isAttaching
  refine compared.bind fun isInside => ?_
  cases isInside with
  | true => exact .ok _
  | false => exact .telling rfl (Value.told_fails tier) fun _ => .error rfl

theorem check_neverAttaching (db : Database Value) (p : Proposal Value) :
    NeverAttaching (db.check p) := by
  unfold check
  split
  · exact .error rfl
  · refine (Check.distinct_neverAttaching _ _).bind fun _ => ?_
    refine (Check.forM_existing_neverAttaching _ _ _).bind fun _ => ?_
    refine (Check.count_neverAttaching _ _).bind fun _ => ?_
    exact (Check.nonNegative_neverAttaching _ _).bind fun _ => .ok _

theorem planLong_neverAttaching (db : Database Value) (c : Clause Value) (tier : Value) :
    NeverAttaching (db.planLong c tier).2 := by
  unfold planLong
  cases c.red with
  | false => exact .ok _
  | true =>
      simp only [ite_true]
      cases h : checkTier tier with
      | error e => exact .error (checkTier_neverAttaching tier e h)
      | ok _ =>
          cases tier.number?.bind Number.int? with
          | none => exact .error rfl
          | some _ => exact .ok _

/-- No call fails while it attaches. -/
theorem plan_neverAttaching (db : Database Value) (c : Call Value) : NeverAttaching (db.plan c).2 := by
  cases c with
  | newVar => exact .ok _
  | newVars n =>
      simp only [plan]
      cases h : Check.count n "n" with
      | ok _ => exact .ok _
      | error e => exact .error (Check.count_neverAttaching _ _ e h)
  | setIncrement x =>
      simp only [plan]
      cases h : Check.positive x "cla_inc" with
      | ok _ => exact .ok _
      | error e => exact .error (Check.positive_neverAttaching _ _ e h)
  | addClause p =>
      simp only [plan]
      cases h : db.check p with
      | error e => exact .error (check_neverAttaching _ _ e h)
      | ok c =>
          by_cases hl : c.lits.length < 4
          · simp only [hl, ite_true]
            exact .ok _
          · simp only [hl, ite_false]
            exact planLong_neverAttaching _ _ _
  | addMarker l index =>
      simp only [plan]
      cases h : Check.existing l db.vars "literal" with
      | error e => exact .error (Check.existing_neverAttaching _ _ _ e h)
      | ok _ =>
          by_cases missing : index = .null
          · simp only [Watch.marker, missing, ite_true]
            exact .error rfl
          · simp only [Watch.marker, missing, ite_false]
            exact .ok _

end Database

end ClauseFeatures
