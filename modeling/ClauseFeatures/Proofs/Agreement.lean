import ClauseFeatures.Extraction
import ClauseFeatures.Proofs.TraversalOrder

/-!
What extraction reads of a database. Effects that look the same, apart from offsets in the store and from
redundant clauses outside one tier, lead to databases that agree in everything the features of irredundant
clauses are computed from, and in that tier.
-/
namespace ClauseFeatures

variable {K E : Type}

/-! Extraction in three parts. -/

section Extraction

variable [Element E] [Arithmetic K E]

/-- The distribution of clauses that were looked up. -/
def Distribution.ofPopulation (bodies : List (Clause K)) (increment : K) :
    Except Failure (Distribution K) := do
  Check.positive increment "cla_inc"
  if bodies.isEmpty then pure zero else ofBodies bodies increment

theorem Distribution.ofOffsets_eq {store : ClauseStore K} {ps : List (Clause K × Nat)}
    (h : ∀ p ∈ ps, store.bodies[p.2]? = some p.1) (increment : K) :
    ofOffsets store (ps.map fun p => .int p.2) increment =
      ofPopulation (ps.map Prod.fst) increment := by
  have found : (ps.map fun p => Value.int p.2).mapM store.get = .ok (ps.map Prod.fst) := by
    induction ps with
    | nil => rfl
    | cons p ps ih =>
        have ih := ih fun q hq => h q (List.mem_cons_of_mem p hq)
        simp only [List.map_cons, List.mapM_cons, ClauseStore.get_eq_ok (h p List.mem_cons_self), ih,
          ok_bind]
        rfl
  simp only [ofOffsets, ofPopulation, found, ok_bind, List.isEmpty_map]

namespace Database

/-- The features of the irredundant clauses, without any distribution. -/
def core (db : Database K) (eps : K) : Except Failure (FeatureRecord K) := do
  let occ ← Occurrences.ofDatabase db
  let vars : K := Quantity.ofInt occ.activeCount
  let clauses : K := Quantity.ofInt db.irredCount
  let ratio ←
    if 0 < occ.activeCount ∧ 0 < db.irredCount then Arithmetic.div vars clauses
    else pure Arithmetic.zero
  let clauseFirst ← ClauseMoments.first db vars clauses (Quantity.ofInt occ.hornClauses)
  let varFirst ← VariableMoments.first occ vars clauses
  let clauseSide ← clauseFirst.second db vars clauses eps
  let varSide ← VariableMoments.second occ varFirst vars clauses eps
  pure {
    numVars := vars
    numClauses := clauses
    varClauseRatio := ratio
    binary := clauseSide.binary
    ternary := clauseSide.ternary
    horn := clauseSide.horn
    clauseDensity := clauseSide.density
    clausePolarity := clauseSide.polarity
    varDensity := varSide.density
    varPolarity := varSide.polarity
    varHorn := varSide.horn
    redundant := .zero
    irredundant := .zero }

/-- The number of variables over the number of clauses, if there are some of both. -/
def variableRatio (vars : Nat) (clauses : Int) : Except Failure K :=
  if 0 < vars ∧ 0 < clauses then Arithmetic.div (Quantity.ofInt vars) (Quantity.ofInt clauses)
  else .ok Arithmetic.zero

theorem core_eq (db : Database K) (eps : K) :
    db.core eps = (do
      let occ ← Occurrences.ofDatabase db
      let vars : K := Quantity.ofInt occ.activeCount
      let clauses : K := Quantity.ofInt db.irredCount
      let varClauseRatio ← variableRatio occ.activeCount db.irredCount
      let clauseFirst ← ClauseMoments.first db vars clauses (Quantity.ofInt occ.hornClauses)
      let varFirst ← VariableMoments.first occ vars clauses
      let clauseSide ← clauseFirst.second db vars clauses eps
      let varSide ← VariableMoments.second occ varFirst vars clauses eps
      pure {
        numVars := vars, numClauses := clauses, varClauseRatio
        binary := clauseSide.binary, ternary := clauseSide.ternary, horn := clauseSide.horn
        clauseDensity := clauseSide.density, clausePolarity := clauseSide.polarity
        varDensity := varSide.density, varPolarity := varSide.polarity, varHorn := varSide.horn
        redundant := .zero, irredundant := .zero }) := by
  unfold core variableRatio
  congr 1
  funext occ
  split <;> rfl

def tierDistribution (db : Database K) (tier : Number) : Except Failure (Distribution K) := do
  Distribution.ofOffsets db.store (← db.tierOffsets tier) db.increment

def irredDistribution (db : Database K) : Except Failure (Distribution K) :=
  Distribution.ofOffsets db.store db.longIrred db.increment

theorem record_eq (db : Database K) (eps : K) (tier : Number) :
    db.record eps tier = (do
      let r ← db.core eps
      let redundant ← db.tierDistribution tier
      let irredundant ← db.irredDistribution
      pure { r with redundant, irredundant }) := by
  simp only [record, core, tierDistribution, irredDistribution, bind_assoc, pure_bind]
  congr 1
  funext occ
  split <;> simp only [bind_assoc, pure_bind]

/-- Databases that give the same answers wherever irredundant clauses are looked at. -/
structure Agree (db db' : Database K) : Prop where
  vars : db.vars = db'.vars
  increment : db.increment = db'.increment
  traversal : db.traversal = db'.traversal
  irredBinary : db.inline.irredBinary = db'.inline.irredBinary
  irredTernary : db.inline.irredTernary = db'.inline.irredTernary
  irredCount : db.irredCount = db'.irredCount
  irredDistribution : db.irredDistribution = db'.irredDistribution

theorem Agree.core_eq {db db' : Database K} (h : Agree db db') (eps : K) :
    db.core eps = db'.core eps := by
  have occurrences : Occurrences.ofDatabase db = Occurrences.ofDatabase db' := by
    rw [Occurrences.ofDatabase, Occurrences.ofDatabase, h.traversal, h.vars]
  have first (vars clauses horn : K) :
      ClauseMoments.first db vars clauses horn = ClauseMoments.first db' vars clauses horn := by
    rw [ClauseMoments.first, ClauseMoments.first, h.traversal, h.irredBinary, h.irredTernary]
  have second (m : ClauseMoments K) (vars clauses : K) :
      m.second db vars clauses eps = m.second db' vars clauses eps := by
    rw [ClauseMoments.second, ClauseMoments.second, h.traversal]
  simp only [core, occurrences, first, second, h.irredCount]

/-- A record that was extracted consists of the features of the irredundant clauses and two distributions. -/
theorem parts_of_extract {db : Database K} {eps : K} {tier : Number} {r : FeatureRecord K}
    (h : db.extract eps tier = .ok r) :
    ∃ core redundant irredundant, db.core eps = .ok core ∧ db.irredDistribution = .ok irredundant ∧
      { core with redundant, irredundant } = r := by
  obtain ⟨_, hrecord, h⟩ := bind_eq_ok h
  obtain ⟨_, -, h⟩ := bind_eq_ok h
  obtain ⟨_, -, h⟩ := bind_eq_ok h
  cases h
  rw [record_eq] at hrecord
  obtain ⟨core, hcore, hrecord⟩ := bind_eq_ok hrecord
  obtain ⟨redundant, -, hrecord⟩ := bind_eq_ok hrecord
  obtain ⟨irredundant, hirred, hrecord⟩ := bind_eq_ok hrecord
  exact ⟨core, redundant, irredundant, hcore, hirred, Except.ok.inj hrecord⟩

theorem tierDistribution_of_extract {db : Database K} {eps : K} {tier : Number} {r : FeatureRecord K}
    (h : db.extract eps tier = .ok r) : db.tierDistribution tier = .ok r.redundant := by
  obtain ⟨_, hrecord, h⟩ := bind_eq_ok h
  obtain ⟨_, -, h⟩ := bind_eq_ok h
  obtain ⟨_, -, h⟩ := bind_eq_ok h
  cases h
  rw [record_eq] at hrecord
  obtain ⟨_, -, hrecord⟩ := bind_eq_ok hrecord
  obtain ⟨_, hredundant, hrecord⟩ := bind_eq_ok hrecord
  obtain ⟨_, -, hrecord⟩ := bind_eq_ok hrecord
  cases hrecord
  exact hredundant

/-- Records with the same parts apart from redundant clauses differ in the distribution of these at most. -/
theorem extract_eq_of_ok {db db' : Database K} {eps : K} (core : db.core eps = db'.core eps)
    (irredundant : db.irredDistribution = db'.irredDistribution) {tier tier' : Number}
    {r r' : FeatureRecord K} (hr : db.extract eps tier = .ok r) (hr' : db'.extract eps tier' = .ok r') :
    { r with redundant := r'.redundant } = r' := by
  obtain ⟨given, _, distribution, hcore, hirred, rfl⟩ := parts_of_extract hr
  obtain ⟨given', _, distribution', hcore', hirred', rfl⟩ := parts_of_extract hr'
  rw [core, hcore'] at hcore
  rw [irredundant, hirred'] at hirred
  cases hcore
  cases hirred
  rfl

theorem Agree.extract_eq_of_ok {db db' : Database K} (h : Agree db db') {eps : K} {tier : Number}
    {r r' : FeatureRecord K} (hr : db.extract eps tier = .ok r) (hr' : db'.extract eps tier = .ok r') :
    { r with redundant := r'.redundant } = r' :=
  Database.extract_eq_of_ok (h.core_eq eps) h.irredDistribution hr hr'

theorem extract_congr {db db' : Database K} {eps : K} {tier : Number} (core : db.core eps = db'.core eps)
    (redundant : db.tierDistribution tier = db'.tierDistribution tier)
    (irredundant : db.irredDistribution = db'.irredDistribution) :
    db.extract eps tier = db'.extract eps tier := by
  rw [extract, extract, record_eq, record_eq, core, redundant, irredundant]

theorem Agree.extract_eq {db db' : Database K} (h : Agree db db') {tier : Number}
    (ht : db.tierDistribution tier = db'.tierDistribution tier) (eps : K) :
    db.extract eps tier = db'.extract eps tier :=
  extract_congr (h.core_eq eps) ht h.irredDistribution

end Database

end Extraction

/-! What a scan for irredundant clauses and for one tier can see of an effect. -/

namespace Effect

/-- Whether an effect adds a redundant clause that is not listed in a tier. -/
def isHidden (t : Option Nat) : Effect K → Bool
  | inline _ red => red
  | long c _ tier => c.red && !(tier.isSome && tier == t)
  | _ => false

def unplaced : Effect K → Effect K
  | long c _ tier => long c 0 tier
  | e => e

def seen? (t : Option Nat) (e : Effect K) : Option (Effect K) :=
  if e.isHidden t then none else some e.unplaced

/-- A reading of effects that no offset changes and that hidden effects leave at a default. -/
structure Reads {β : Type} (t : Option Nat) (f : Effect K → β) (d : β) : Prop where
  unplaced : ∀ e, f e.unplaced = f e
  hidden : ∀ e, e.isHidden t = true → f e = d

theorem Reads.seen {β : Type} {t : Option Nat} {f : Effect K → β} {d : β} (h : Reads t f d)
    (e : Effect K) : (e.seen? t).elim d f = f e := by
  unfold seen?
  split
  · rename_i hidden
    exact (h.hidden e hidden).symm
  · exact h.unplaced e

theorem reads_grown (t : Option Nat) (vars : Nat) : Reads t (grown (K := K) vars) vars := by
  refine ⟨?_, ?_⟩
  · intro e
    cases e <;> rfl
  · intro e he
    cases e with
    | grow _ => cases he
    | scale _ | mark _ _ | inline _ _ | long _ _ _ => rfl

theorem reads_scaled (t : Option Nat) (x : K) : Reads t (scaled x) x := by
  refine ⟨?_, ?_⟩
  · intro e
    cases e <;> rfl
  · intro e he
    cases e with
    | scale _ => cases he
    | grow _ | mark _ _ | inline _ _ | long _ _ _ => rfl

theorem reads_isInline (t : Option Nat) (size : Nat) :
    Reads t (isInline (K := K) size false) false := by
  refine ⟨?_, ?_⟩
  · intro e
    cases e <;> rfl
  · intro e he
    cases e with
    | inline lits red =>
        change red = true at he
        simp [isInline, he]
    | grow _ | scale _ | mark _ _ | long _ _ _ => rfl

theorem reads_irredundant (t : Option Nat) : Reads t (irredundant? (K := K)) none := by
  refine ⟨?_, ?_⟩
  · intro e
    cases e <;> rfl
  · intro e he
    cases e with
    | grow _ | scale _ | mark _ _ => rfl
    | inline lits red => exact if_pos he
    | long c _ tier => exact if_pos (Bool.and_eq_true_iff.mp he).1

theorem reads_irredLong (t : Option Nat) :
    Reads t (fun e : Effect K => e.irredLong?.map Prod.fst) none := by
  refine ⟨?_, ?_⟩
  · intro e
    cases e with
    | grow _ | scale _ | mark _ _ | inline _ _ => rfl
    | long c _ _ => cases hr : c.red <;> simp [Effect.unplaced, irredLong?, hr]
  · intro e he
    cases e with
    | grow _ | scale _ | mark _ _ | inline _ _ => rfl
    | long c _ tier => simp [irredLong?, (Bool.and_eq_true_iff.mp he).1]

theorem reads_tierLong (t : Nat) :
    Reads (some t) (fun e : Effect K => (e.tierLong? t).map Prod.fst) none := by
  refine ⟨?_, ?_⟩
  · intro e
    cases e with
    | grow _ | scale _ | mark _ _ | inline _ _ => rfl
    | long c _ tier => by_cases ht : tier = some t <;> simp [Effect.unplaced, tierLong?, ht]
  · intro e he
    cases e with
    | grow _ | scale _ | mark _ _ | inline _ _ => rfl
    | long c _ tier =>
        have other : tier ≠ some t := by
          rintro rfl
          simp [isHidden] at he
        simp [tierLong?, other]

end Effect

section Seen

open Effect

variable {es es' : List (Effect K)} {t : Option Nat}

theorem filterMap_of_seen {β : Type} {f : Effect K → Option β} (hf : Reads t f none)
    (h : es.filterMap (seen? t) = es'.filterMap (seen? t)) : es.filterMap f = es'.filterMap f := by
  have step (e : Effect K) : (e.seen? t).bind f = f e := by
    rw [← hf.seen e]
    cases e.seen? t <;> rfl
  have := congrArg (List.filterMap f) h
  simpa only [List.filterMap_filterMap, step] using this

theorem countP_of_seen {f : Effect K → Bool} (hf : Reads t f false)
    (h : es.filterMap (seen? t) = es'.filterMap (seen? t)) : es.countP f = es'.countP f := by
  have step (e : Effect K) : ((e.seen? t).map f).getD false = f e := by
    rw [← hf.seen e]
    cases e.seen? t <;> rfl
  have := congrArg (List.countP f) h
  simpa only [List.countP_filterMap, step] using this

theorem foldl_of_seen {β : Type} {f : β → Effect K → β} (hf : ∀ b, Reads t (f b) b)
    (h : es.filterMap (seen? t) = es'.filterMap (seen? t)) (b : β) : es.foldl f b = es'.foldl f b := by
  have fold (es : List (Effect K)) (b : β) : (es.filterMap (seen? t)).foldl f b = es.foldl f b := by
    induction es generalizing b with
    | nil => rfl
    | cons e es ih =>
        rw [List.filterMap_cons, List.foldl_cons, ← (hf b).seen e]
        cases e.seen? t with
        | none => exact ih b
        | some d => exact ih (f b d)
  rw [← fold es, ← fold es', h]

end Seen

section Built

open Effect

variable [Element E] [Arithmetic K E] {vars : Nat} {es es' : List (Effect K)} {db db' : Database K}
  {t : Option Nat}

theorem Built.irredDistribution_eq (h : Built vars es db) :
    db.irredDistribution =
      Distribution.ofPopulation (es.filterMap fun e => e.irredLong?.map Prod.fst) db.increment := by
  rw [Database.irredDistribution, h.longIrred_eq,
    Distribution.ofOffsets_eq (h.stored fun _ _ => eq_long_of_irredLong), List.map_filterMap]

theorem Built.tierDistribution_eq (h : Built vars es db) {tier : Number} {k : Nat}
    (hk : tier.int? = some (k : Int)) (inside : k < tierCount) :
    db.tierDistribution tier =
      Distribution.ofPopulation (es.filterMap fun e => (e.tierLong? k).map Prod.fst) db.increment := by
  simp only [Database.tierDistribution, Database.tierOffsets, hk, itemAt?_natCast, h.longRed_eq inside,
    ok_bind]
  rw [Distribution.ofOffsets_eq (h.stored fun _ _ => eq_long_of_tierLong), List.map_filterMap]

/-- Effects that look the same lead to databases that agree. -/
theorem Built.agree (h : Built vars es db) (h' : Built vars es' db')
    (unmarked : ∀ e ∈ es, e.isMark = false) (unmarked' : ∀ e ∈ es', e.isMark = false)
    (seen : es.filterMap (seen? t) = es'.filterMap (seen? t)) : db.Agree db' := by
  have increment : db.increment = db'.increment := by
    rw [h.increment_eq, h'.increment_eq]
    exact foldl_of_seen (reads_scaled t) seen _
  have binary : db.inline.irredBinary = db'.inline.irredBinary := by
    rw [h.inline_eq, h'.inline_eq]
    exact congrArg Nat.cast (countP_of_seen (reads_isInline t 2) seen)
  have ternary : db.inline.irredTernary = db'.inline.irredTernary := by
    rw [h.inline_eq, h'.inline_eq]
    exact congrArg Nat.cast (countP_of_seen (reads_isInline t 3) seen)
  have long : (es.filterMap fun e => e.irredLong?.map Prod.fst) =
      es'.filterMap fun e => e.irredLong?.map Prod.fst :=
    filterMap_of_seen (reads_irredLong t) seen
  have longLength : db.longIrred.length = db'.longIrred.length := by
    have := congrArg List.length long
    simpa only [h.longIrred_eq, h'.longIrred_eq, List.length_map, ← List.map_filterMap] using this
  refine ⟨?_, increment, ?_, binary, ternary, ?_, ?_⟩
  · rw [h.vars_eq, h'.vars_eq]
    exact foldl_of_seen (reads_grown t) seen _
  · rw [h.traversal_eq unmarked, h'.traversal_eq unmarked',
      filterMap_of_seen (reads_irredundant t) seen]
  · rw [Database.irredCount, Database.irredCount, longLength, binary, ternary]
  · rw [h.irredDistribution_eq, h'.irredDistribution_eq, long, increment]

theorem Built.agree_tier (h : Built vars es db) (h' : Built vars es' db') {tier : Number} {k : Nat}
    (hk : tier.int? = some (k : Int)) (inside : k < tierCount)
    (seen : es.filterMap (seen? (some k)) = es'.filterMap (seen? (some k))) :
    db.tierDistribution tier = db'.tierDistribution tier := by
  have increment : db.increment = db'.increment := by
    rw [h.increment_eq, h'.increment_eq]
    exact foldl_of_seen (reads_scaled _) seen _
  rw [h.tierDistribution_eq hk inside, h'.tierDistribution_eq hk inside, increment,
    filterMap_of_seen (reads_tierLong k) seen]

end Built

end ClauseFeatures
