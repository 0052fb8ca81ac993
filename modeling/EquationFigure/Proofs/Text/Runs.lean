import EquationFigure.Text.Basic
import Mathlib.Data.List.Basic

/-!
# Runs of characters

Readers take the longest run of characters of a kind.  `Text.HeadNot p t` says that a run of `p`
ends in front of `t`; with it, a run is read back exactly (`takeWhile_append_of_headNot`,
`dropWhile_append_of_headNot`).
-/

set_option autoImplicit false

namespace EquationFigure
namespace Text

variable {p q : Char → Bool} {run rest t : Text} {c : Char}

/-- A character of a kind is none that is not of that kind. -/
theorem ne_of_kind {d : Char} (hc : p c = true) (hd : p d = false) : c ≠ d := by
  rintro rfl
  rw [hc] at hd
  cases hd

theorem beq_of_kind {d : Char} (hc : p c = true) (hd : p d = false) : (c == d) = false :=
  beq_eq_false_iff_ne.2 (ne_of_kind hc hd)

/-- The text does not start with a character that satisfies `p`. -/
def HeadNot (p : Char → Bool) (t : Text) : Prop := ∀ c ∈ t.head?, p c = false

@[simp] theorem headNot_nil : HeadNot p [] := by
  intro c hc
  cases hc

@[simp] theorem headNot_cons : HeadNot p (c :: t) ↔ p c = false := by
  simp [HeadNot]

theorem HeadNot.mono (hpq : ∀ c, q c = true → p c = true) (h : HeadNot p t) : HeadNot q t := by
  intro c hc
  have := h c hc
  cases hq : q c with
  | false => rfl
  | true => rw [hpq c hq] at this; exact this

/-- Nothing of the text satisfies `p`, so nothing at its head does. -/
theorem headNot_of_forall (h : ∀ c ∈ t, p c = false) : HeadNot p t := by
  cases t with
  | nil => exact headNot_nil
  | cons c t => exact headNot_cons.2 (h c List.mem_cons_self)

theorem headNot_append (h : HeadNot p run) (hrest : HeadNot p rest) : HeadNot p (run ++ rest) := by
  cases run with
  | nil => exact hrest
  | cons c run => exact headNot_cons.2 (headNot_cons.1 h)

theorem headNot_append_of_ne_nil (h : HeadNot p run) (hne : run ≠ []) :
    HeadNot p (run ++ rest) := by
  cases run with
  | nil => exact absurd rfl hne
  | cons c run => exact headNot_cons.2 (headNot_cons.1 h)

theorem headNot_dropWhile (p : Char → Bool) (t : Text) : HeadNot p (t.dropWhile p) := by
  intro c hc
  have h := List.head?_dropWhile_not p t
  rw [Option.mem_def.1 hc] at h
  simpa using h

theorem dropWhile_of_headNot (h : HeadNot p t) : t.dropWhile p = t := by
  cases t with
  | nil => rfl
  | cons c t => exact List.dropWhile_cons_of_neg (by simpa using h)

theorem takeWhile_of_headNot (h : HeadNot p t) : t.takeWhile p = [] := by
  cases t with
  | nil => rfl
  | cons c t => exact List.takeWhile_cons_of_neg (by simpa using h)

theorem takeWhile_append_of_headNot (hrun : ∀ c ∈ run, p c = true) (hrest : HeadNot p rest) :
    (run ++ rest).takeWhile p = run := by
  rw [List.takeWhile_append_of_pos hrun, takeWhile_of_headNot hrest, List.append_nil]

theorem dropWhile_append_of_headNot (hrun : ∀ c ∈ run, p c = true) (hrest : HeadNot p rest) :
    (run ++ rest).dropWhile p = rest := by
  rw [List.dropWhile_append_of_pos hrun, dropWhile_of_headNot hrest]

theorem of_mem_takeWhile (h : c ∈ t.takeWhile p) : p c = true :=
  List.all_eq_true.1 (List.all_takeWhile (l := t) (p := p)) c h

end Text
end EquationFigure
