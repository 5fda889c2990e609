import Mathlib.Data.List.Nodup
import Mathlib.Data.Set.Function
import ClauseFeatures.Proofs.ActiveVariables
import ClauseFeatures.Proofs.Correspondence

/-!
Renaming of variables. If the clauses of one traversal are those of another with their variables renamed and
their signs kept, then the rows of counts of the variables that occur are the same in another order: each row
stands where its variable was moved to, and no two of them fall together.
-/
namespace ClauseFeatures

namespace Literal

def rename (σ : Nat → Nat) (l : Literal) : Literal := ⟨2 * σ l.var + l.code % 2⟩

variable (σ : Nat → Nat) (l : Literal)

@[simp]
theorem var_rename : (l.rename σ).var = σ l.var := by
  change (2 * σ l.var + l.code % 2) / 2 = σ l.var
  omega

@[simp]
theorem negated_rename : (l.rename σ).negated = l.negated := by
  have sign : (2 * σ l.var + l.code % 2) % 2 = l.code % 2 := by omega
  rw [rename, negated, sign, negated]

end Literal

variable {σ : Nat → Nat}

/-- A clause and the same clause with its variables renamed, in another order of literals. -/
def ClauseView.Renamed (σ : Nat → Nat) (v w : ClauseView) : Prop :=
  (v.lits.map (Literal.rename σ)).Perm w.lits

namespace ClauseView.Renamed

variable {v w : ClauseView}

theorem size_eq (h : Renamed σ v w) : v.size = w.size := by
  rw [size, size, ← h.length_eq, List.length_map]

theorem pos_eq (h : Renamed σ v w) : v.pos = w.pos := by
  rw [pos, pos, ← h.countP_eq, List.countP_map]
  refine List.countP_congr fun l _ => ?_
  rw [Function.comp_apply, Literal.negated_rename]

theorem isHorn_eq (h : Renamed σ v w) : v.isHorn = w.isHorn := by
  rw [isHorn, isHorn, h.pos_eq]

end ClauseView.Renamed

section Rows

variable {views views' : List ClauseView}

theorem literals_perm (same : Corresponds (ClauseView.Renamed σ) views views') :
    ((literalsOf views).map (Literal.rename σ)).Perm (literalsOf views') := by
  rw [literalsOf, List.map_flatMap]
  exact same.flatMap_perm fun _ _ h => h

/-- A renamed variable occurs among renamed literals as often as it did before. -/
theorem countP_renamed {ls ms : List Literal} (perm : (ls.map (Literal.rename σ)).Perm ms)
    {S : Set Nat} (injective : Set.InjOn σ S) (inside : ∀ l ∈ ls, l.var ∈ S) {v : Nat} (hv : v ∈ S) :
    (ms.countP fun m => m.var = σ v) = ls.countP fun l => l.var = v := by
  rw [← perm.countP_eq, List.countP_map]
  refine List.countP_congr fun l hl => ?_
  simp only [Function.comp_apply, Literal.var_rename, decide_eq_true_eq]
  exact injective.eq_iff (inside l hl) hv

variable (same : Corresponds (ClauseView.Renamed σ) views views')
  (injective : Set.InjOn σ {v | ∃ l ∈ literalsOf views, l.var = v})

include same injective

theorem VariableCounts.ofViews_renamed {v : Nat} (hv : ∃ l ∈ literalsOf views, l.var = v) :
    ofViews views' (σ v) = ofViews views v := by
  have occurs : ∀ l ∈ literalsOf views, l.var ∈ {v | ∃ l ∈ literalsOf views, l.var = v} :=
    fun l hl => ⟨l, hl, rfl⟩
  have kept : (((literalsOf views).filter fun l => !l.negated).map (Literal.rename σ)).Perm
      ((literalsOf views').filter fun l => !l.negated) := by
    have kept := (literals_perm same).filter fun l => !l.negated
    rwa [List.filter_map, Function.comp_def, funext fun l => congrArg (! ·) (Literal.negated_rename σ l)]
      at kept
  have all := countP_renamed (literals_perm same) injective occurs hv
  have pos := countP_renamed kept injective (fun l hl => occurs l (List.mem_of_mem_filter hl)) hv
  have horn := countP_renamed (literals_perm (same.filter fun _ _ h => h.isHorn_eq)) injective
    (fun l hl => occurs l (mem_literalsOf_of_filter hl)) hv
  rw [ofViews, ofViews, all, pos, horn]

variable {vars vars' : Nat} (existing : ∀ l ∈ literalsOf views, l.var < vars)
  (existing' : ∀ l ∈ literalsOf views', l.var < vars')

include existing existing'

theorem activeVariables_renamed :
    ((activeVariables vars views).map σ).Perm (activeVariables vars' views') := by
  have literals := literals_perm same
  have active {v : Nat} (hv : v ∈ activeVariables vars views) :
      v ∈ {v | ∃ l ∈ literalsOf views, l.var = v} := (mem_activeVariables.mp hv).2
  have nodup : ((activeVariables vars views).map σ).Nodup :=
    (nodup_activeVariables vars views).map_on fun v hv w hw => injective (active hv) (active hw)
  rw [List.perm_ext_iff_of_nodup nodup (nodup_activeVariables vars' views')]
  intro w
  rw [List.mem_map, mem_activeVariables]
  constructor
  · rintro ⟨v, hv, rfl⟩
    obtain ⟨l, hl, rfl⟩ := active hv
    have moved : l.rename σ ∈ literalsOf views' :=
      literals.mem_iff.mp (List.mem_map_of_mem hl)
    have inside := existing' _ moved
    rw [Literal.var_rename] at inside
    exact ⟨inside, _, moved, Literal.var_rename σ l⟩
  · rintro ⟨-, m, hm, rfl⟩
    obtain ⟨l, hl, rfl⟩ := List.mem_map.mp (literals.mem_iff.mpr hm)
    refine ⟨l.var, mem_activeVariables.mpr ⟨existing l hl, l, hl, rfl⟩, ?_⟩
    rw [Literal.var_rename]

/-- The rows of counts stay the same in another order. -/
theorem activeRows_renamed : (activeRows vars views).Perm (activeRows vars' views') := by
  have moved : (activeVariables vars views).map (VariableCounts.ofViews views' ∘ σ) =
      activeRows vars views :=
    List.map_congr_left fun v hv =>
      VariableCounts.ofViews_renamed same injective (mem_activeVariables.mp hv).2
  rw [← moved, ← List.map_map, activeRows]
  exact (activeVariables_renamed same injective existing existing').map _

end Rows

end ClauseFeatures
