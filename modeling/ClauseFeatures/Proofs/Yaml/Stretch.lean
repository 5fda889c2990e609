import Mathlib.Data.List.Basic
import ClauseFeatures.Yaml.Style

/-!
Text as it is laid out: words with gaps between them. Cutting a text into stretches loses nothing, and a text
in which no space stands beside a line break has words and gaps in turn.
-/
namespace ClauseFeatures.Yaml

def isBare (c : Char) : Bool := c != ' ' && c != '\n'

namespace Stretch

def chars : Stretch → List Char
  | word w => w
  | spaces n => List.replicate n ' '
  | breaks n => List.replicate n '\n'

def isWord : Stretch → Bool
  | word _ => true
  | _ => false

/-- Whether something follows that is a word, or nothing. -/
def LeadsToWord (rest : List Stretch) : Prop := ∀ s ∈ rest.head?, s.isWord = true

/-- Whether something follows that is a gap, or nothing. -/
def LeadsToGap (rest : List Stretch) : Prop := ∀ s ∈ rest.head?, s.isWord = false

/-- Words with gaps between them. -/
inductive Alternate : List Stretch → Prop
  | nil : Alternate []
  | word {w : List Char} {rest : List Stretch} (some : w ≠ []) (bare : ∀ c ∈ w, isBare c = true)
      (gap : LeadsToGap rest) (next : Alternate rest) : Alternate (.word w :: rest)
  | spaces {n : Nat} {rest : List Stretch} (some : 0 < n) (word : LeadsToWord rest) (next : Alternate rest) :
      Alternate (.spaces n :: rest)
  | breaks {n : Nat} {rest : List Stretch} (some : 0 < n) (word : LeadsToWord rest) (next : Alternate rest) :
      Alternate (.breaks n :: rest)

end Stretch

open Stretch

/-- How a character joins the stretches after it. -/
inductive Joins : Char → List Stretch → List Stretch → Prop
  | space {rest : List Stretch} (other : ∀ n rest', rest ≠ .spaces n :: rest') :
      Joins ' ' rest (.spaces 1 :: rest)
  | moreSpaces {n : Nat} {rest : List Stretch} : Joins ' ' (.spaces n :: rest) (.spaces (n + 1) :: rest)
  | lineBreak {rest : List Stretch} (other : ∀ n rest', rest ≠ .breaks n :: rest') :
      Joins '\n' rest (.breaks 1 :: rest)
  | moreBreaks {n : Nat} {rest : List Stretch} : Joins '\n' (.breaks n :: rest) (.breaks (n + 1) :: rest)
  | word {c : Char} {rest : List Stretch} (bare : isBare c = true) (other : ∀ w rest', rest ≠ .word w :: rest') :
      Joins c rest (.word [c] :: rest)
  | moreWord {c : Char} {w : List Char} {rest : List Stretch} (bare : isBare c = true) :
      Joins c (.word w :: rest) (.word (c :: w) :: rest)

theorem joins_stretches (c : Char) (cs : List Char) : Joins c (stretches cs) (stretches (c :: cs)) := by
  have bare (space : c = ' ' → False) (lineBreak : c = '\n' → False) : isBare c = true :=
    Bool.and_eq_true_iff.mpr ⟨bne_iff_ne.mpr space, bne_iff_ne.mpr lineBreak⟩
  conv =>
    arg 3
    unfold stretches
  generalize stretches cs = st
  split
  · exact .moreSpaces
  · rename_i other
    exact .space other
  · exact .moreBreaks
  · rename_i other
    exact .lineBreak other
  · rename_i space lineBreak
    exact .moreWord (bare space lineBreak)
  · rename_i space lineBreak other _ _
    exact .word (bare space lineBreak) other

theorem chars_stretches (cs : List Char) : (stretches cs).flatMap chars = cs := by
  induction cs with
  | nil => rfl
  | cons c cs ih =>
      have joins := joins_stretches c cs
      generalize stretches cs = st at ih joins
      generalize stretches (c :: cs) = st' at joins
      cases joins <;> exact congrArg (_ :: ·) ih

/-- A stretch of spaces or of line breaks begins with one. -/
theorem head_of_stretches {cs : List Char} {s : Stretch} {rest : List Stretch} (h : stretches cs = s :: rest) :
    (∀ n, s = .spaces n → cs.head? = some ' ') ∧ ∀ n, s = .breaks n → cs.head? = some '\n' := by
  cases cs with
  | nil => cases h
  | cons c cs =>
      have joins := joins_stretches c cs
      rw [h] at joins
      generalize stretches cs = st at joins
      cases joins with
      | space | moreSpaces => exact ⟨fun _ _ => rfl, nofun⟩
      | lineBreak | moreBreaks => exact ⟨nofun, fun _ _ => rfl⟩
      | word | moreWord => exact ⟨nofun, nofun⟩

theorem hasPair_cons {a b c : Char} {cs : List Char} (h : hasPair a b (c :: cs) = false) :
    hasPair a b cs = false ∧ (c = a → cs.head? ≠ some b) := by
  cases cs with
  | nil => exact ⟨rfl, fun _ => nofun⟩
  | cons d cs =>
      obtain ⟨pair, rest⟩ := Bool.or_eq_false_iff.mp h
      refine ⟨rest, ?_⟩
      rintro rfl same
      cases same
      simp at pair

theorem alternate_stretches {cs : List Char} (before : hasPair ' ' '\n' cs = false)
    (after : hasPair '\n' ' ' cs = false) : Alternate (stretches cs) := by
  induction cs with
  | nil => exact .nil
  | cons c cs ih =>
      obtain ⟨before, noBreak⟩ := hasPair_cons before
      obtain ⟨after, noSpace⟩ := hasPair_cons after
      have next := ih before after
      have joins := joins_stretches c cs
      generalize ht : stretches cs = st at next joins
      generalize stretches (c :: cs) = st' at joins
      cases joins with
      | space other =>
          refine .spaces Nat.one_pos (fun s hs => ?_) next
          cases st with
          | nil => cases hs
          | cons t rest =>
              cases hs
              cases s with
              | word _ => rfl
              | spaces n => exact absurd rfl (other n rest)
              | breaks n => exact absurd ((head_of_stretches ht).2 n rfl) (noBreak rfl)
      | moreSpaces =>
          cases next with
          | spaces _ word next => exact .spaces (Nat.succ_pos _) word next
      | lineBreak other =>
          refine .breaks Nat.one_pos (fun s hs => ?_) next
          cases st with
          | nil => cases hs
          | cons t rest =>
              cases hs
              cases s with
              | word _ => rfl
              | spaces n => exact absurd ((head_of_stretches ht).1 n rfl) (noSpace rfl)
              | breaks n => exact absurd rfl (other n rest)
      | moreBreaks =>
          cases next with
          | breaks _ word next => exact .breaks (Nat.succ_pos _) word next
      | word bare other =>
          refine .word (List.cons_ne_nil _ _) (List.forall_mem_singleton.mpr bare) (fun s hs => ?_) next
          cases st with
          | nil => cases hs
          | cons t rest =>
              cases hs
              cases s with
              | word w => exact absurd rfl (other w rest)
              | spaces _ | breaks _ => rfl
      | moreWord bare =>
          cases next with
          | word _ bares gap next =>
              exact .word (List.cons_ne_nil _ _) (List.forall_mem_cons.mpr ⟨bare, bares⟩) gap next

end ClauseFeatures.Yaml
