import ClauseFeatures.Proofs.Built
import ClauseFeatures.Value.Arithmetic

/-!
Which failed calls are atomic. A call that fails leaves its database as it was, with one exception: a
redundant long clause whose tier is a double in range passes every check, is stored and watched, and only
then its tier turns out to be no index.
-/
namespace ClauseFeatures.Database

variable {K : Type}

/-- A redundant long clause that would be accepted but for its tier, which is a double in range. -/
structure IsStranding [Quantity K] (db : Database K) (p : Proposal K) : Prop where
  red : p.red = true
  long : 4 ≤ p.lits.length
  checked : ∃ c, db.check p = .ok c
  tier : ∃ x : Float, p.tier = .real x ∧ Number.le (.int 0) (.real x) = true ∧
    (Number.real x).lt (.int tierCount) = true

/-- What a stranded clause leaves behind: its body and two watch entries, but no place in a tier. -/
def stranded (db : Database K) (c : Clause K) : Database K :=
  { db with
    watches := db.watches.place (placementsOf c.lits c.red (some db.store.size))
    store := db.store.push c }

theorem stranded_ne (db : Database K) (c : Clause K) : db.stranded c ≠ db := by
  intro h
  have : db.store.bodies.size + 1 = db.store.bodies.size := by
    have := congrArg (fun db : Database K => db.store.bodies.size) h
    simpa only [stranded, ClauseStore.push, Array.size_push] using this
  omega

variable [Quantity K] {db : Database K}

theorem exists_strands_iff {p : Proposal K} : (∃ c, db.Strands p c) ↔ db.IsStranding p := by
  constructor
  · rintro ⟨c, hs⟩
    obtain ⟨n, hn, low, high⟩ := checkTier_eq_ok.mp hs.tier
    refine ⟨hs.red, hs.long, ⟨c, hs.checked⟩, ?_⟩
    cases n with
    | real x => exact ⟨x, hn, low, high⟩
    | int n =>
        have := hs.noIndex
        rw [hn] at this
        cases this
    | truth b =>
        have := hs.noIndex
        rw [hn] at this
        cases this
  · rintro ⟨red, long, ⟨c, checked⟩, x, hx, low, high⟩
    exact ⟨c, checked, red, long, checkTier_eq_ok.mpr ⟨.real x, hx, low, high⟩, by rw [hx]; rfl⟩

theorem Strands.plan_eq {p : Proposal K} {c : Clause K} (h : db.Strands p c) :
    db.plan (.addClause p) = (some (.long c db.store.size none), .error .wrongType) := by
  obtain ⟨-, lits, -⟩ := fits_of_check h.checked
  have long : ¬ c.lits.length < 4 := Nat.not_lt.mpr (lits ▸ h.long)
  simp only [plan, h.checked, long, ite_false, planLong, h.body_red, ite_true, h.tier, h.noIndex]

theorem Strands.call_eq {p : Proposal K} {c : Clause K} (hs : db.Shaped) (h : db.Strands p c) :
    db.call (.addClause p) = (db.stranded c, .error .wrongType) := by
  rw [Database.call_eq hs, h.plan_eq]
  simp only [carryOut, Option.elim_some, apply, h.body_red, ite_true, stranded]

/-- After every run a failed call leaves something behind exactly if it strands a clause, and then the
body and two watch entries of the clause stay, while everything else is as it was. -/
theorem failed_call_iff (vars : Nat) (calls : List (Call K)) (c : Call K) :
    let db := (empty vars).run calls
    (((∃ e, (db.call c).2 = .error e) ∧ (db.call c).1 ≠ db) ↔
        ∃ p, c = .addClause p ∧ db.IsStranding p) ∧
      ∀ p, db.IsStranding p →
        ∃ b, db.check p = .ok b ∧ db.call (.addClause p) = (db.stranded b, .error .wrongType) := by
  intro db
  have hs : db.Shaped := (built_run vars calls).shaped
  have strands (p : Proposal K) (h : db.IsStranding p) :
      ∃ b, db.check p = .ok b ∧ db.call (.addClause p) = (db.stranded b, .error .wrongType) := by
    obtain ⟨b, h⟩ := exists_strands_iff.mpr h
    exact ⟨b, h.checked, h.call_eq hs⟩
  refine ⟨⟨?_, ?_⟩, strands⟩
  · rintro ⟨⟨e, failed⟩, changed⟩
    have hp := planned db c
    rw [call_eq hs] at failed changed
    generalize db.plan c = p at hp failed changed
    cases hp with
    | refused _ _ => exact absurd rfl changed
    | accepted _ _ => cases failed
    | stranded h => exact ⟨_, rfl, exists_strands_iff.mp ⟨_, h⟩⟩
  · rintro ⟨p, rfl, h⟩
    obtain ⟨b, -, call⟩ := strands p h
    rw [call]
    exact ⟨⟨_, rfl⟩, stranded_ne db b⟩

def halfTier : Proposal Value :=
  { lits := [⟨0⟩, ⟨2⟩, ⟨4⟩, ⟨6⟩], red := true, activity := .int 0, tier := .real 0.5 }

/-- The call fails on an empty database, but the body and a watch entry are there afterwards. -/
theorem failed_call_half :
    ((empty 4).call (.addClause halfTier)).2 = .error .wrongType ∧
      ((empty 4).call (.addClause halfTier)).1.store.size = 1 ∧
      ((empty 4).call (.addClause halfTier)).1.watches.get ⟨0⟩ = .ok [.long 0] := by
  refine ⟨?_, ?_, ?_⟩
  · rfl
  · decide +kernel
  · rfl

end ClauseFeatures.Database
