import TagLint.Text.Blank
import Mathlib.Data.List.Basic
import Mathlib.Data.List.TakeWhile

/-!
What trimming leaves of texts that are put together.

Each end is trimmed as far as the text next to it, and farther only if that text is blank; so blanks
put around a text change nothing, and it does not matter which end comes first.
-/
namespace TagLint.Text

theorem trimStart_eq_nil {t : Text} (blank : t.isBlank = true) : t.trimStart = [] :=
  List.dropWhile_eq_nil_iff.2 (List.all_eq_true.1 blank)

theorem trimStart_append (s t : Text) :
    trimStart (s ++ t) = if s.isBlank then t.trimStart else s.trimStart ++ t := by
  have whole : (s.dropWhile isBlankChar).isEmpty = s.isBlank := by
    rw [Bool.eq_iff_iff, List.isEmpty_iff, List.dropWhile_eq_nil_iff, isBlank, List.all_eq_true]
  rw [trimStart, List.dropWhile_append, whole]
  rfl

theorem trimEnd_append (s t : Text) :
    trimEnd (s ++ t) = if t.isBlank then s.trimEnd else s ++ t.trimEnd := by
  have reversed := trimStart_append t.reverse s.reverse
  rw [isBlank, List.all_reverse, ← List.reverse_append] at reversed
  rw [trimEnd]
  unfold trimStart at reversed
  rw [reversed]
  split
  next blank =>
    rw [isBlank, if_pos blank]
    rfl
  next other =>
    rw [isBlank, if_neg other, List.reverse_append, List.reverse_reverse]
    rfl

/-- Blanks around a text are trimmed away. -/
theorem trim_append {s u : Text} (t : Text) (lead : s.isBlank = true) (tail : u.isBlank = true) :
    trim (s ++ t ++ u) = trim t := by
  rw [trim, List.append_assoc, trimStart_append, if_pos lead, trimStart_append, trim]
  split
  next blank => rw [trimStart_eq_nil tail, trimStart_eq_nil blank]
  · rw [trimEnd_append, if_pos tail]

/-- It does not matter which end is trimmed first. -/
theorem trimStart_trimEnd (t : Text) : t.trimEnd.trimStart = t.trim := by
  induction t with
  | nil => rfl
  | cons c t ih =>
    have stop : trimEnd (c :: t) = if isBlank t then trimEnd [c] else c :: trimEnd t :=
      trimEnd_append [c] t
    cases blank : isBlankChar c with
    | true =>
      have start (u : Text) : trimStart (c :: u) = u.trimStart := List.dropWhile_cons_of_pos blank
      rw [trim, start, stop]
      split
      next empty =>
        have alone : trimEnd [c] = [] := by simp [trimEnd, blank]
        rw [trimStart_eq_nil empty, alone]
        rfl
      · rw [start]
        exact ih
    | false =>
      have start (u : Text) : trimStart (c :: u) = c :: u :=
        List.dropWhile_cons_of_neg (Bool.eq_false_iff.1 blank)
      have alone : trimEnd [c] = [c] := by simp [trimEnd, blank]
      rw [trim, start, stop, alone]
      split <;> exact start _

theorem trim_subset (t : Text) : t.trim ⊆ t := by
  intro c member
  have kept := (List.dropWhile_sublist _).mem (List.mem_reverse.1 member)
  exact (List.dropWhile_sublist _).mem (List.mem_reverse.1 kept)

end TagLint.Text
