import Mathlib.Data.List.Count
import ClauseFeatures.Proofs.Yaml.Quoted
import ClauseFeatures.Yaml.Token

/-!
Places in streams of characters that are shown as they are: how many characters and lines came before, and the
column after the last line break.
-/
namespace ClauseFeatures.Yaml

/-! Characters. -/

theorem shown_cases {c : Char} (shown : isSpecial c = false) : c = '\n' ∨ 0x20 ≤ c.toNat ∧ c.toNat ≤ 0x7E := by
  by_cases lineBreak : c = '\n'
  · exact .inl lineBreak
  · exact .inr (range_of_shown shown lineBreak)

theorem isBreak_of_shown {c : Char} (shown : isSpecial c = false) (other : c ≠ '\n') : isBreak c = false := by
  by_cases space : c = ' '
  · rw [space]
    rfl
  · exact (isInk_iff.mp (isInk_of_range (range_of_shown shown other) space)).2

theorem ne_of_shown {c d : Char} (shown : isSpecial c = false) (special : isSpecial d = true) : c ≠ d := by
  rintro rfl
  rw [shown] at special
  cases special

theorem allShown_replicate {c : Char} (shown : isSpecial c = false) (n : Nat) : AllShown (List.replicate n c) :=
  fun _ hd => List.eq_of_mem_replicate hd ▸ shown

/-! Places. -/

def columnAfter (column : Nat) : List Char → Nat
  | [] => column
  | c :: cs => if c = '\n' then columnAfter 0 cs else columnAfter (column + 1) cs

theorem columnAfter_append (column : Nat) (cs ds : List Char) :
    columnAfter column (cs ++ ds) = columnAfter (columnAfter column cs) ds := by
  induction cs generalizing column with
  | nil => rfl
  | cons c cs ih =>
      rw [List.cons_append, columnAfter, columnAfter]
      split
      · exact ih 0
      · exact ih (column + 1)

theorem columnAfter_line (column : Nat) {cs : List Char} (oneLine : '\n' ∉ cs) :
    columnAfter column cs = column + cs.length := by
  induction cs generalizing column with
  | nil => rfl
  | cons c cs ih =>
      obtain ⟨first, rest⟩ := List.ne_and_not_mem_of_not_mem_cons oneLine
      rw [columnAfter, if_neg (Ne.symm first), ih _ rest, List.length_cons]
      omega

namespace Place

theorem next_shown {p : Place} {c : Char} {rest : List Char} (h : p.rest = c :: rest) (shown : isSpecial c = false) :
    p.next = ⟨rest, p.index + 1, p.line + [c].count '\n', columnAfter p.column [c]⟩ := by
  unfold next
  rw [h]
  by_cases lineBreak : c = '\n'
  · rw [lineBreak]
    rfl
  · have mark : (c == byteOrderMark) = false := beq_eq_false_iff_ne.mpr (ne_of_shown shown (by decide))
    simp only [isBreak_of_shown shown lineBreak, mark, columnAfter, if_neg lineBreak, Bool.false_eq_true, ite_false,
      List.count_singleton, beq_eq_false_iff_ne.mpr lineBreak]
    rfl

theorem forward_shown {p : Place} {cs rest : List Char} (h : p.rest = cs ++ rest) (shown : AllShown cs) :
    p.forward cs.length =
      ⟨rest, p.index + cs.length, p.line + cs.count '\n', columnAfter p.column cs⟩ := by
  induction cs generalizing p with
  | nil =>
      rw [List.nil_append] at h
      rw [← h]
      rfl
  | cons c cs ih =>
      obtain ⟨first, shown⟩ := List.forall_mem_cons.mp shown
      rw [List.length_cons, forward, next_shown h first, ih rfl shown]
      have lines : (c :: cs).count '\n' = [c].count '\n' + cs.count '\n' := by
        rw [← List.singleton_append, List.count_append]
      have column : columnAfter (columnAfter p.column [c]) cs = columnAfter p.column (c :: cs) :=
        (columnAfter_append p.column [c] cs).symm
      rw [column, lines, Nat.add_assoc, Nat.add_assoc, Nat.add_comm 1]

theorem skipTo_shown {p : Place} {cs rest : List Char} (h : p.rest = cs ++ rest) (shown : AllShown cs) :
    p.skipTo rest = ⟨rest, p.index + cs.length, p.line + cs.count '\n', columnAfter p.column cs⟩ := by
  have length : p.rest.length - rest.length = cs.length := by
    rw [h, List.length_append, Nat.add_sub_cancel]
  rw [skipTo, length, forward_shown h shown]

end Place

/-- The column of a line that has been begun. -/
theorem columnAfter_indentation (column : Nat) (cs : List Char) (indent : Nat) :
    columnAfter column (cs ++ '\n' :: indentation indent) = indent := by
  have oneLine : '\n' ∉ indentation indent := fun mem => by cases List.eq_of_mem_replicate mem
  rw [columnAfter_append, columnAfter, if_pos rfl, columnAfter_line 0 oneLine, indentation, List.length_replicate,
    Nat.zero_add]

/-! Tokens. -/

/-- Whether a token can begin at the start of a stream, or the stream ends. -/
def StartsToken (cs : List Char) : Prop := ∀ c ∈ cs.head?, isInk c = true ∧ c ≠ '#'

namespace Scan

theorem skipIdle_token {cs : List Char} (h : StartsToken cs) : skipIdle false cs = (cs, false) := by
  cases cs with
  | nil => rfl
  | cons c cs =>
      obtain ⟨ink, comment⟩ := h c rfl
      obtain ⟨space, lineBreak⟩ := isInk_iff.mp ink
      rw [skipIdle, lineBreak, (Bool.or_eq_false_iff.mp space).1, beq_eq_false_iff_ne.mpr comment]
      rfl

theorem skipIdle_spaces {cs : List Char} (h : StartsToken cs) (n : Nat) :
    skipIdle false (indentation n ++ cs) = (cs, false) := by
  induction n with
  | zero => exact skipIdle_token h
  | succ n ih => exact ih

theorem skipIdle_line {cs : List Char} (h : StartsToken cs) (n : Nat) :
    skipIdle false ('\n' :: (indentation n ++ cs)) = (cs, true) := by
  have step (cs : List Char) : skipIdle false ('\n' :: cs) = ((skipIdle false cs).1, true) := rfl
  rw [step, skipIdle_spaces h]

section Idle

variable {s : Scan} {cs : List Char} (starts : StartsToken cs)

include starts

theorem toNextToken_token (h : s.place.rest = cs) : s.toNextToken = s := by
  have here : s.place.skipTo cs = s.place := by
    rw [Place.skipTo, h, Nat.sub_self]
    rfl
  unfold toNextToken
  rw [h, skipIdle_token starts]
  simp only [here, Bool.false_and, Bool.or_false]

theorem toNextToken_space (h : s.place.rest = ' ' :: cs) :
    s.toNextToken = { s with place := ⟨cs, s.place.index + 1, s.place.line, s.place.column + 1⟩ } := by
  have idle := skipIdle_spaces starts 1
  have there := Place.skipTo_shown (show s.place.rest = [' '] ++ cs from h) (allShown_replicate rfl 1)
  unfold toNextToken
  rw [h]
  rw [indentation, List.replicate_one, List.singleton_append] at idle
  simp only [idle, there, Bool.false_and, Bool.or_false]
  rfl

theorem toNextToken_line {indent : Nat} (h : s.place.rest = '\n' :: (indentation indent ++ cs)) (block : s.depth = 0) :
    ∃ index line, s.toNextToken = { s with place := ⟨cs, index, line, indent⟩, allowsKey := true } := by
  have shown : AllShown ('\n' :: indentation indent) := List.forall_mem_cons.mpr ⟨rfl, allShown_replicate rfl indent⟩
  have there := Place.skipTo_shown (h.trans (List.cons_append).symm) shown
  have column := columnAfter_indentation s.place.column [] indent
  rw [List.nil_append] at column
  rw [column] at there
  have skipped : s.toNextToken = { s with place := s.place.skipTo cs, allowsKey := true } := by
    unfold toNextToken
    rw [h, skipIdle_line starts]
    simp only [block, beq_self_eq_true, Bool.and_self, Bool.or_true]
  rw [skipped, there]
  exact ⟨_, _, rfl⟩

end Idle

end Scan

end ClauseFeatures.Yaml
