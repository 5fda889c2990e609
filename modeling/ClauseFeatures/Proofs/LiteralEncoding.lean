import Mathlib.Data.Bool.Basic
import Mathlib.Data.Prod.Lex
import ClauseFeatures.Proofs.Negation
import ClauseFeatures.Proofs.SignedLiteral

/-!
The encoding of literals. A code is twice the variable plus the sign, so literals are ordered by variable and
then by sign, and the codes of the literals of some variables are all numbers below twice that many. A signed
number and the literal that it is converted to stand for the same variable and sign; since both conversions are
told by this one relation, each undoes the other, and opposite numbers are opposite literals.
-/
namespace ClauseFeatures

namespace Literal

variable {l a b : Literal} {v : ℤ}

/-! Codes. -/

theorem code_eq (l : Literal) : l.code = 2 * l.var + l.negated.toNat := by
  have sign : l.negated.toNat = l.code % 2 := by
    rw [negated]
    rcases Nat.mod_two_eq_zero_or_one l.code with even | odd
    · rw [even]
      rfl
    · rw [odd]
      rfl
  rw [sign, var]
  omega

theorem eq_iff_parts : a = b ↔ a.var = b.var ∧ a.negated = b.negated := by
  constructor
  · rintro rfl
    exact ⟨rfl, rfl⟩
  · rintro ⟨var, negated⟩
    rw [eq_iff_code, code_eq, code_eq, var, negated]

theorem lt_iff_lex : a < b ↔ toLex (a.var, a.negated) < toLex (b.var, b.negated) := by
  rw [lt_iff_code, Prod.Lex.toLex_lt_toLex, Bool.lt_iff, code_eq, code_eq]
  cases a.negated <;> cases b.negated <;> simp <;> omega

theorem negate_ne (l : Literal) : l.negate ≠ l := by
  intro same
  have sign := negated_negate l
  rw [same] at sign
  exact Bool.not_ne_self l.negated sign.symm

theorem ofCode_natCast (n : ℕ) : ofCode n = .ok ⟨n⟩ := if_neg (Int.not_lt.mpr (Int.natCast_nonneg n))

/-- A literal is made again of its variable and sign. -/
theorem make_parts (l : Literal) : make l.var l.negated.toInt = .ok l := by
  have code : (l.var + l.var + l.negated.toInt : ℤ) = l.code := by
    have parts := l.code_eq
    cases h : l.negated with
    | false | true =>
        rw [h] at parts
        simp only [Bool.toInt, Bool.toNat, cond] at parts ⊢
        omega
  rw [make, code, ofCode_natCast]

/-- What callers give as literals is compared as literals are. -/
theorem Candidate.lt_ofLiteral (a b : Literal) : (ofLiteral a).lt (ofLiteral b) = decide (a < b) := by
  change (some (compare (a.code : ℤ) b.code) == some .lt) = decide (a.code < b.code)
  rw [Bool.eq_iff_iff, beq_iff_eq, Option.some.injEq, compare_lt_iff_lt, decide_eq_true_eq, Int.ofNat_lt]

theorem Candidate.equal_ofLiteral (a b : Literal) : (ofLiteral a).equal (ofLiteral b) = decide (a = b) := by
  change (some (compare (a.code : ℤ) b.code) == some .eq) = decide (a = b)
  rw [Bool.eq_iff_iff, beq_iff_eq, Option.some.injEq, compare_eq_iff_eq, decide_eq_true_eq, Int.ofNat_inj,
    eq_iff_code]

/-! Signed numbers. -/

theorem Denotes.ne_zero (h : l.Denotes v) : v ≠ 0 := by
  have := h.var
  omega

theorem denotes_toDimacs (l : Literal) : l.Denotes l.toDimacs := by
  unfold toDimacs
  cases h : l.negated with
  | true => exact ⟨by rw [if_pos rfl]; omega, by rw [h, if_pos rfl]; exact (decide_eq_true (by omega)).symm⟩
  | false => exact ⟨by rw [if_neg nofun]; omega, by rw [h, if_neg nofun]; exact (decide_eq_false (by omega)).symm⟩

theorem toDimacs_eq_iff : l.toDimacs = v ↔ l.Denotes v :=
  ⟨fun h => h ▸ denotes_toDimacs l, fun h => (denotes_toDimacs l).eq_of_eq h⟩

theorem Denotes.unique (ha : a.Denotes v) (hb : b.Denotes v) : a = b :=
  eq_iff_parts.mpr ⟨Nat.succ.inj (ha.var.trans hb.var.symm), ha.negated.trans hb.negated.symm⟩

theorem ofDimacs_eq_ok_iff : ofDimacs v = .ok l ↔ l.Denotes v := by
  by_cases zero : v = 0
  · rw [zero]
    exact ⟨nofun, fun h => absurd rfl h.ne_zero⟩
  · rw [ofDimacs_eq zero, Except.ok.injEq]
    exact ⟨fun h => h ▸ denotes_ofSigned zero, fun h => (denotes_ofSigned zero).unique h⟩

theorem Denotes.negate (h : l.Denotes v) : l.negate.Denotes (-v) := by
  have nonzero := h.ne_zero
  refine ⟨by rw [var_negate, h.var, Int.natAbs_neg], ?_⟩
  rw [negated_negate, h.negated, ← decide_not, decide_eq_decide]
  omega

/-- The opposite number is converted to the opposite literal; zero and its opposite are refused. -/
theorem ofDimacs_neg (v : ℤ) : ofDimacs (-v) = (ofDimacs v).map Literal.negate := by
  by_cases zero : v = 0
  · rw [zero]
    rfl
  · rw [ofDimacs_eq zero]
    exact ofDimacs_eq_ok_iff.mpr (denotes_ofSigned zero).negate

end Literal

/-! Watch lists. -/

namespace WatchLists

variable {ws : WatchLists} {l : Literal}

theorem exists_attach_iff (w : Watch) : (∃ ws', ws.attach l w = .ok ws') ↔ l.code < ws.size := by
  unfold attach
  split
  · rename_i inside
    exact ⟨fun _ => inside, fun _ => ⟨_, rfl⟩⟩
  · rename_i outside
    exact ⟨nofun, fun inside => absurd inside outside⟩

theorem exists_get_iff : (∃ entries, ws.get l = .ok entries) ↔ l.code < ws.size := by
  unfold get size
  cases found : ws.lists[l.code]? with
  | none => exact ⟨nofun, fun inside => absurd inside (Nat.not_lt.mpr (Array.getElem?_eq_none_iff.mp found))⟩
  | some entries => exact ⟨fun _ => (Array.getElem?_eq_some_iff.mp found).1, fun _ => ⟨entries, rfl⟩⟩

end WatchLists

namespace Literal

/-- How codes, pairs of a variable and a sign, and signed numbers stand for literals, and how their order and
range agree. A literal whose variable passes the check against a number of variables is exactly one that has a
list among the lists for these variables. -/
theorem encoding_lawful :
    (∀ v : ℤ, v ≠ 0 → ∃ l, ofDimacs v = .ok l ∧ l.toDimacs = v) ∧
    (∀ x : ℤ, 0 ≤ x → ∃ l, ofCode x = .ok l ∧ (l.code : ℤ) = x ∧ ofDimacs l.toDimacs = .ok l) ∧
    (∀ v : ℤ, ofDimacs (-v) = (ofDimacs v).map negate) ∧
    (∀ l : Literal, l.negate.negate = l ∧ l.negate ≠ l ∧ l.negate.var = l.var ∧ l.negate.negated = !l.negated ∧
      make l.var l.negated.toInt = .ok l) ∧
    (∀ a b : Literal, (a < b ↔ toLex (a.var, a.negated) < toLex (b.var, b.negated)) ∧
      (a = b ↔ a.var = b.var ∧ a.negated = b.negated) ∧
      (Candidate.ofLiteral a).lt (.ofLiteral b) = decide (a < b) ∧
      (Candidate.ofLiteral a).equal (.ofLiteral b) = decide (a = b)) ∧
    (∀ (l : Literal) (n : ℤ), (l.var : ℤ) < n ↔ (l.code : ℤ) < 2 * n) ∧
    ∀ (l : Literal) (vars : ℕ) (name : String) (ws : WatchLists) (w : Watch), ws.size = 2 * vars →
      (Check.existing l vars name = .ok () ↔ ∃ ws', ws.attach l w = .ok ws') ∧
      (Check.existing l vars name = .ok () ↔ ∃ entries, ws.get l = .ok entries) := by
  refine ⟨fun v nonzero => ?_, fun x natural => ?_, ofDimacs_neg, fun l => ?_,
    fun a b => ⟨lt_iff_lex, eq_iff_parts, Candidate.lt_ofLiteral a b, Candidate.equal_ofLiteral a b⟩,
    fun l n => ?_, fun l vars name ws w sized => ?_⟩
  · have denotes := denotes_ofSigned nonzero
    exact ⟨ofSigned v, ofDimacs_eq_ok_iff.mpr denotes, toDimacs_eq_iff.mpr denotes⟩
  · obtain ⟨n, rfl⟩ := Int.eq_ofNat_of_zero_le natural
    exact ⟨⟨n⟩, ofCode_natCast n, rfl, ofDimacs_eq_ok_iff.mpr (denotes_toDimacs _)⟩
  · exact ⟨negate_involutive l, negate_ne l, var_negate l, negated_negate l, make_parts l⟩
  · rw [var]
    omega
  · rw [Check.existing_eq_ok, WatchLists.exists_attach_iff, WatchLists.exists_get_iff, sized, code_lt_iff_var]
    exact ⟨Iff.rfl, Iff.rfl⟩

/-- The third variable, negated: the last literal that the lists of three variables have. -/
theorem encoding_lawful_last :
    (∃ l, ofDimacs (-3) = .ok l ∧ l.toDimacs = -3) ∧
      (∃ l, ofCode 5 = .ok l ∧ (l.code : ℤ) = 5 ∧ ofDimacs l.toDimacs = .ok l) ∧
      (Check.existing ⟨5⟩ 3 "literal" = .ok () ↔
        ∃ entries, (WatchLists.ofVars 3).get ⟨5⟩ = .ok entries) :=
  ⟨encoding_lawful.1 (-3) (by decide), encoding_lawful.2.1 5 (by decide),
    (encoding_lawful.2.2.2.2.2.2 ⟨5⟩ 3 "literal" (.ofVars 3) (.long 0) rfl).2⟩

end Literal

end ClauseFeatures
