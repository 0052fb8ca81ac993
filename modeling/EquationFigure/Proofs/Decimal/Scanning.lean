import EquationFigure.Decimal.Numeral
import EquationFigure.Proofs.Text.Runs

/-!
# Reading numerals where they stand

`Numeral.scan` reads as many characters as it can, so whether it reads a given numeral depends on
what follows.

* `Numeral.WellFormed` — at least one digit before the point, and nothing but digits besides.
* `Numeral.StopsAt` — the text cannot go on with the numeral.
* `scan_eq_some_iff` — exactly a well-formed numeral is read, in front of a text that cannot go on
  with it.
-/

set_option autoImplicit false

namespace EquationFigure
namespace Numeral

open Text

variable {n : Numeral} {t rest : Text} {negative : Bool}

/-! ## Well-formed numerals -/

/-- The numeral is written as equations write it. -/
structure WellFormed (n : Numeral) : Prop where
  /-- There is a digit before the point. -/
  whole_ne_nil : n.whole ≠ []
  /-- Only digits stand before the point. -/
  isDigit_whole : ∀ c ∈ n.whole, c.isDigit = true
  /-- Only digits stand behind the point. -/
  isDigit_fraction : ∀ c ∈ n.fraction, c.isDigit = true

/-- The text cannot go on with the numeral: it starts with no digit, and with no point in front of
a digit unless the numeral has a point already. -/
structure StopsAt (n : Numeral) (rest : Text) : Prop where
  /-- No further digit follows. -/
  digit : HeadNot Char.isDigit rest
  /-- No fraction follows. -/
  point : n.fraction = [] → ∀ t, rest = '.' :: t → HeadNot Char.isDigit t

/-- Whether the character is a digit or a point. -/
def isNumeralPart (c : Char) : Bool := c.isDigit || c == '.'

/-- Where neither a digit nor a point follows, every numeral stops. -/
theorem stopsAt_of_headNot (h : HeadNot isNumeralPart rest) : n.StopsAt rest := by
  refine ⟨h.mono fun c hc => ?_, fun _ t ht => ?_⟩
  · rw [isNumeralPart, hc, Bool.true_or]
  · subst ht
    exact absurd (headNot_cons.1 h) (by decide)

/-! ## Scanning -/

/-- What is written of a numeral besides its sign. -/
def unsignedText (n : Numeral) : Text :=
  n.whole ++ if n.fraction = [] then [] else '.' :: n.fraction

theorem text_eq (n : Numeral) : n.text = (if n.negative then ['-'] else []) ++ n.unsignedText := by
  rw [text, unsignedText, List.append_assoc]

theorem digits_eq {run : Text} (hrun : ∀ c ∈ run, c.isDigit = true)
    (hrest : HeadNot Char.isDigit rest) : digits (run ++ rest) = (run, rest) := by
  rw [digits, takeWhile_append_of_headNot hrun hrest, dropWhile_append_of_headNot hrun hrest]

theorem scanUnsigned_of_wellFormed (hn : n.WellFormed) (hrest : n.StopsAt rest) :
    scanUnsigned n.negative (n.unsignedText ++ rest) = some (n, rest) := by
  obtain ⟨negative, whole, fraction⟩ := n
  obtain ⟨c, whole, rfl⟩ : ∃ c w, whole = c :: w := List.exists_cons_of_ne_nil hn.whole_ne_nil
  by_cases hf : fraction = []
  · subst hf
    rw [unsignedText, if_pos rfl, List.append_nil, scanUnsigned,
      digits_eq hn.isDigit_whole hrest.digit]
    cases rest with
    | nil => rfl
    | cons d rest =>
      by_cases hd : d = '.'
      · subst hd
        have hnil : digits ([] ++ rest) = ([], rest) :=
          digits_eq (by simp) (hrest.point rfl rest rfl)
        rw [List.nil_append] at hnil
        simp only [hnil]
      · split
        · rename_i h; simp at h
        · rename_i h; simp_all
        · rename_i h; simp_all
  · obtain ⟨d, fraction, rfl⟩ : ∃ d f, fraction = d :: f := List.exists_cons_of_ne_nil hf
    have htext : unsignedText ⟨negative, c :: whole, d :: fraction⟩ ++ rest =
        (c :: whole) ++ '.' :: ((d :: fraction) ++ rest) := by
      simp [unsignedText]
    have hpoint : HeadNot Char.isDigit ('.' :: ((d :: fraction) ++ rest)) := by simp
    rw [htext, scanUnsigned, digits_eq hn.isDigit_whole hpoint]
    simp only [digits_eq hn.isDigit_fraction hrest.digit]

theorem wellFormed_of_scanUnsigned (h : scanUnsigned negative t = some (n, rest)) :
    n.negative = negative ∧ n.WellFormed ∧ n.StopsAt rest := by
  have hwhole : ∀ c ∈ (digits t).1, c.isDigit = true := fun c hc => of_mem_takeWhile hc
  have hafter : HeadNot Char.isDigit (digits t).2 := headNot_dropWhile _ _
  rw [scanUnsigned] at h
  split at h
  · simp at h
  · rename_i whole after hw heq
    have hfraction : ∀ c ∈ (digits after).1, c.isDigit = true := fun c hc => of_mem_takeWhile hc
    have hlast : HeadNot Char.isDigit (digits after).2 := headNot_dropWhile _ _
    rw [heq] at hwhole
    split at h
    · rename_i last heq'
      simp only [Option.some.injEq, Prod.mk.injEq] at h
      obtain ⟨rfl, rfl⟩ := h
      have hempty : HeadNot Char.isDigit after := by
        have happend := digits_append after
        rw [heq'] at happend hlast
        rwa [← happend]
      refine ⟨rfl, ⟨hw, hwhole, by simp⟩, by simp, fun _ t ht => ?_⟩
      cases ht
      exact hempty
    · rename_i fraction last hf heq'
      simp only [Option.some.injEq, Prod.mk.injEq] at h
      obtain ⟨rfl, rfl⟩ := h
      rw [heq'] at hfraction hlast
      exact ⟨rfl, ⟨hw, hwhole, hfraction⟩, hlast, fun h0 => absurd h0 hf⟩
  · rename_i whole after hw hpoint heq
    simp only [Option.some.injEq, Prod.mk.injEq] at h
    obtain ⟨rfl, rfl⟩ := h
    rw [heq] at hwhole hafter
    exact ⟨rfl, ⟨hw, hwhole, by simp⟩, hafter, fun _ t ht => absurd ht (hpoint t)⟩

theorem scan_minus (t : Text) : scan ('-' :: t) = scanUnsigned true t := rfl

theorem scan_of_headNot_minus (h : HeadNot (· == '-') t) : scan t = scanUnsigned false t := by
  cases t with
  | nil => rfl
  | cons c t =>
    rw [scan]
    rintro _ ⟨⟩
    exact absurd (headNot_cons.1 h) (by decide)

theorem scan_eq_scanUnsigned (t : Text) :
    ∃ negative unsigned, scan t = scanUnsigned negative unsigned := by
  cases t with
  | nil => exact ⟨false, [], rfl⟩
  | cons c t =>
    by_cases hc : c = '-'
    · subst hc
      exact ⟨_, _, scan_minus t⟩
    · exact ⟨_, _, scan_of_headNot_minus (headNot_cons.2 (by simpa using hc))⟩

theorem headNot_unsignedText (hn : n.WellFormed) {p : Char → Bool}
    (hp : ∀ c, c.isDigit = true → p c = false) : HeadNot p (n.unsignedText ++ rest) := by
  obtain ⟨c, whole, hc⟩ := List.exists_cons_of_ne_nil hn.whole_ne_nil
  rw [unsignedText, hc]
  exact headNot_cons.2 (hp c (hn.isDigit_whole c (by rw [hc]; exact List.mem_cons_self)))

/-- **Exactly the well-formed numerals are read, where they stop.** -/
theorem scan_eq_some_iff :
    scan t = some (n, rest) ↔ n.WellFormed ∧ n.StopsAt rest ∧ t = n.text ++ rest := by
  constructor
  · intro h
    obtain ⟨negative, unsigned, heq⟩ := scan_eq_scanUnsigned t
    obtain ⟨-, hn, hrest⟩ := wellFormed_of_scanUnsigned (heq ▸ h)
    exact ⟨hn, hrest, scan_eq_some h⟩
  · rintro ⟨hn, hrest, rfl⟩
    have h := scanUnsigned_of_wellFormed hn hrest
    rw [text_eq]
    cases hneg : n.negative with
    | true => rwa [hneg] at h
    | false =>
      rw [hneg] at h
      rw [if_neg (by decide), List.nil_append, scan_of_headNot_minus, h]
      exact headNot_unsignedText hn fun _ hc => beq_of_kind hc (by decide)

end Numeral
end EquationFigure
