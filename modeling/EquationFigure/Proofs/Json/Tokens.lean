import EquationFigure.Json.Quoted
import EquationFigure.Proofs.Decimal.Scanning
import EquationFigure.Proofs.Json.Writing

/-!
# Reading numbers and strings back

A number and a string are scanned exactly as they are written, whatever follows that does not go on
with them.  A string ends at its quote, so anything may follow it.

* `Stops` — no number goes on with the text.
* `scan_of_spells` — a number is scanned part by part, each of which stops where the next begins.
* `scanQuotedAfter_of_quotes` — a string is scanned character by character; the induction is on how
  it is written, one case for each way of writing a character.
-/

set_option autoImplicit false

namespace EquationFigure.Json

open Text

/-! ## Numbers -/

/-- Whether a number may go on with the character. -/
def goesOn (c : Char) : Bool := c.isDigit || c == '.' || c == 'e' || c == 'E'

/-- No number goes on with the text. -/
def Stops (rest : Text) : Prop := HeadNot goesOn rest

section Number

variable {n : Number} {t rest w f e : Text} {exponent? : Option Exponent}

theorem digits_append_of_areDigits (ht : AreDigits t) (hrest : HeadNot Char.isDigit rest) :
    Numeral.digits (t ++ rest) = (t, rest) :=
  Numeral.digits_eq ht hrest

theorem digits_of_headNot (hrest : HeadNot Char.isDigit rest) :
    Numeral.digits rest = ([], rest) :=
  Numeral.digits_eq (List.forall_mem_nil _) hrest

theorem scanWhole_of_isWhole (hw : IsWhole w) (hrest : HeadNot Char.isDigit rest) :
    Number.scanWhole (w ++ rest) = .ok (w, rest) := by
  cases hw with
  | zero =>
    change Number.scanWhole ('0' :: rest) = _
    rw [Number.scanWhole, digits_of_headNot hrest]
  | @positive c t hc ht =>
    rw [List.cons_append, Number.scanWhole, ← List.cons_append, digits_append_of_areDigits ht hrest]
    · nofun
    · rintro t' ⟨⟩
      exact hc rfl

theorem scanDigits_of_areDigits (ht : AreDigits t) (hne : t ≠ [])
    (hrest : HeadNot Char.isDigit rest) : Number.scanDigits (t ++ rest) = .ok (t, rest) := by
  rw [Number.scanDigits, digits_append_of_areDigits ht hrest]
  obtain ⟨c, t, rfl⟩ := List.exists_cons_of_ne_nil hne
  rfl

theorem scanFraction_of_areDigits (hf : AreDigits f) (hrest : HeadNot Char.isDigit rest)
    (hpoint : HeadNot (· == '.') rest) :
    Number.scanFraction ((if f = [] then [] else '.' :: f) ++ rest) = .ok (f, rest) := by
  split
  · rename_i hnil
    subst hnil
    rw [List.nil_append, Number.scanFraction]
    rintro t rfl
    exact absurd (headNot_cons.1 hpoint) (by decide)
  · rename_i hne
    exact scanDigits_of_areDigits hf hne hrest

theorem scanExponent_of_spells (he : SpellsExponent exponent? e) (hrest : Stops rest) :
    Number.scanExponent (e ++ rest) = .ok (exponent?, rest) := by
  have hdigit : HeadNot Char.isDigit rest := hrest.mono fun c hc => by simp [goesOn, hc]
  cases he with
  | none =>
    cases rest with
    | nil => rfl
    | cons c rest =>
      have hc : ¬ (c = 'e' ∨ c = 'E') := by
        rintro (rfl | rfl) <;> exact absurd (headNot_cons.1 hrest) (by decide)
      simp only [List.nil_append, Number.scanExponent, if_neg hc]
  | @some e letter sign hletter hsign hne hdigits =>
    obtain ⟨negative, digits⟩ := e
    have hscan := scanDigits_of_areDigits hdigits hne hdigit
    dsimp only at hscan
    cases hsign with
    | minus =>
      simp only [List.cons_append, List.nil_append, Number.scanExponent, if_pos hletter, hscan]
      rfl
    | plus =>
      simp only [List.cons_append, List.nil_append, Number.scanExponent, if_pos hletter, hscan]
      rfl
    | none =>
      -- The first digit is no sign.
      have hsign : ∀ c, c.isDigit = false → ∀ t, digits ++ rest = c :: t → False := by
        intro c hc t heq
        obtain ⟨d, digits, rfl⟩ := List.exists_cons_of_ne_nil hne
        cases heq
        rw [hdigits c List.mem_cons_self] at hc
        cases hc
      rw [List.nil_append, List.cons_append, Number.scanExponent, if_pos hletter]
      · dsimp only
        rw [hscan]
        rfl
      · exact hsign '-' (by decide)
      · exact hsign '+' (by decide)

theorem SpellsExponent.headNot (he : SpellsExponent exponent? e) {p : Char → Bool}
    (hp : p 'e' = false ∧ p 'E' = false) (hrest : HeadNot p rest) : HeadNot p (e ++ rest) := by
  cases he with
  | none => exact hrest
  | some hletter =>
    rcases hletter with rfl | rfl
    · exact headNot_cons.2 hp.1
    · exact headNot_cons.2 hp.2

/-- **A number is scanned as it is written.** -/
theorem scan_of_spells (h : n.Spells t) (hrest : Stops rest) :
    Number.scan (t ++ rest) = .ok (n, rest) := by
  cases h with
  | @mk exponent hwhole hfraction hexponent =>
    obtain ⟨negative, whole, fraction, exponent?⟩ := n
    dsimp only at *
    have hdigit : HeadNot Char.isDigit (exponent ++ rest) :=
      hexponent.headNot (by decide) (hrest.mono fun c hc => by simp [goesOn, hc])
    have hpoint : HeadNot (· == '.') (exponent ++ rest) :=
      hexponent.headNot (by decide) (hrest.mono fun c hc => by simp_all [goesOn])
    have hbehind : HeadNot Char.isDigit
        ((if fraction = [] then [] else '.' :: fraction) ++ (exponent ++ rest)) := by
      split
      · exact hdigit
      · exact headNot_cons.2 (by decide)
    have hunsigned : Number.scanUnsigned negative
        (whole ++ ((if fraction = [] then [] else '.' :: fraction) ++ (exponent ++ rest))) =
          .ok (⟨negative, whole, fraction, exponent?⟩, rest) := by
      rw [Number.scanUnsigned, scanWhole_of_isWhole hwhole hbehind]
      change (Number.scanFraction _ >>= _) = _
      rw [scanFraction_of_areDigits hfraction hdigit hpoint]
      change (Number.scanExponent _ >>= _) = _
      rw [scanExponent_of_spells hexponent hrest]
      rfl
    simp only [List.append_assoc]
    cases negative with
    | true => exact hunsigned
    | false =>
      rw [if_neg (by decide), List.nil_append, Number.scan]
      · exact hunsigned
      · -- What is not negative begins with a digit.
        intro t heq
        cases hwhole with
        | zero => cases heq
        | positive _ hdigits =>
          cases heq
          exact absurd (hdigits '-' List.mem_cons_self) (by decide)

end Number

/-! ## Strings -/

section Quoted

variable {n : Nat} {c : Char} {digits s t rest : Text}

theorem hexValue?_of_isHexDigit (h : IsHexDigit n c) : hexValue? c = some n := by
  have hall : ∀ n < 16,
      hexValue? n.digitChar = some n ∧ hexValue? n.digitChar.toUpper = some n := by
    decide
  obtain ⟨hn, rfl | rfl⟩ := h
  · exact (hall n hn).1
  · exact (hall n hn).2

/-- A digit to the base sixteen takes one byte. -/
theorem length_lineEnds_of_isHexDigit (h : IsHexDigit n c) : (Place.lineEnds [c]).length = 1 := by
  have hall : ∀ n < 16, (Place.lineEnds [n.digitChar]).length = 1 ∧
      (Place.lineEnds [n.digitChar.toUpper]).length = 1 := by
    decide
  obtain ⟨hn, rfl | rfl⟩ := h
  · exact (hall n hn).1
  · exact (hall n hn).2

theorem length_lineEnds_cons (c : Char) (t : Text) :
    (Place.lineEnds (c :: t)).length =
      (Place.lineEnds [c]).length + (Place.lineEnds t).length := by
  have happend : Place.lineEnds ([c] ++ t) = Place.lineEnds [c] ++ Place.lineEnds t :=
    List.flatMap_append
  rw [← List.length_append, ← happend, List.singleton_append]

theorem IsHex.length_eq (h : IsHex n digits) : digits.length = 4 := by
  cases h
  rfl

theorem scanHex_of_isHex (h : IsHex n digits) (rest : Text) :
    scanHex (digits ++ rest) = .ok n := by
  have htake : (digits ++ rest).take 4 = digits := by
    rw [← h.length_eq, List.take_left']
    rfl
  have hbytes : (Place.lineEnds digits).length = 4 := by
    cases h with
    | @mk c₃ c₂ c₁ c₀ h₃ h₂ h₁ h₀ =>
      rw [length_lineEnds_cons c₃ [c₂, c₁, c₀], length_lineEnds_cons c₂ [c₁, c₀],
        length_lineEnds_cons c₁ [c₀], length_lineEnds_of_isHexDigit h₃,
        length_lineEnds_of_isHexDigit h₂, length_lineEnds_of_isHexDigit h₁,
        length_lineEnds_of_isHexDigit h₀]
  have hnumber : hexNumber? 0 digits = some n := by
    obtain ⟨h₃, h₂, h₁, h₀⟩ := h
    have hn := h₃.1
    simp only [hexNumber?, hexValue?_of_isHexDigit h₃, hexValue?_of_isHexDigit h₂,
      hexValue?_of_isHexDigit h₁, hexValue?_of_isHexDigit h₀, Option.bind_some, Option.some.injEq]
    omega
  rw [scanHex, htake, hbytes, hnumber, h.length_eq]
  rfl

/-- The number of a character is no half of a pair of surrogates. -/
theorem not_surrogate (c : Char) :
    isHighSurrogate c.toNat = false ∧ isLowSurrogate c.toNat = false := by
  have hvalid := c.valid
  simp only [isHighSurrogate, isLowSurrogate, Bool.and_eq_false_iff, decide_eq_false_iff_not]
  rcases hvalid with h | ⟨h, -⟩
  · have : c.toNat < 0xD800 := h
    omega
  · have : 0xDFFF < c.toNat := h
    omega

theorem scanEscape_number (h : IsHex c.toNat digits) (rest : Text) :
    scanEscape ('u' :: (digits ++ rest)) = .ok (c, 5) := by
  rw [scanEscape, scanNumberEscape, scanHex_of_isHex h]
  change (if isLowSurrogate c.toNat then _ else _ : Except Stop (Char × Nat)) = _
  rw [(not_surrogate c).1, (not_surrogate c).2, Char.ofNat_toNat]
  rfl

theorem scanEscape_surrogates {m : Nat} {high low : Text} (hm : isHighSurrogate m = true)
    (hn : isLowSurrogate n = true) (hhigh : IsHex m high) (hlow : IsHex n low) (rest : Text) :
    scanEscape ('u' :: (high ++ '\\' :: 'u' :: (low ++ rest))) =
      .ok (Char.ofNat (0x10000 + (m - 0xD800) * 0x400 + (n - 0xDC00)), 11) := by
  have hdrop : (high ++ '\\' :: 'u' :: (low ++ rest)).drop 4 = '\\' :: 'u' :: (low ++ rest) := by
    rw [← hhigh.length_eq, List.drop_left']
    rfl
  have hscan : scanLowSurrogate ('\\' :: 'u' :: (low ++ rest)) = .ok n := by
    rw [scanLowSurrogate, scanHex_of_isHex hlow]
    exact if_pos hn
  have hnot : isLowSurrogate m = false := by
    simp only [isHighSurrogate, isLowSurrogate, Bool.and_eq_true, Bool.and_eq_false_iff,
      decide_eq_true_eq, decide_eq_false_iff_not] at hm ⊢
    omega
  rw [scanEscape, scanNumberEscape, scanHex_of_isHex hhigh]
  change (if isLowSurrogate m then _ else _ : Except Stop (Char × Nat)) = _
  rw [hnot, hm, hdrop, hscan]
  rfl

theorem scanEscape_pair {high low : Text} (hc : 0x10000 ≤ c.toNat)
    (hhigh : IsHex (0xD800 + (c.toNat - 0x10000) / 0x400) high)
    (hlow : IsHex (0xDC00 + (c.toNat - 0x10000) % 0x400) low) (rest : Text) :
    scanEscape ('u' :: (high ++ '\\' :: 'u' :: (low ++ rest))) = .ok (c, 11) := by
  have hlt : c.toNat < 0x110000 := by
    rcases c.valid with h | ⟨-, h⟩
    · exact Nat.lt_trans h (by decide)
    · exact h
  have hm : isHighSurrogate (0xD800 + (c.toNat - 0x10000) / 0x400) = true := by
    simp only [isHighSurrogate, Bool.and_eq_true, decide_eq_true_eq]
    omega
  have hn : isLowSurrogate (0xDC00 + (c.toNat - 0x10000) % 0x400) = true := by
    simp only [isLowSurrogate, Bool.and_eq_true, decide_eq_true_eq]
    omega
  have hnumber : 0x10000 + (0xD800 + (c.toNat - 0x10000) / 0x400 - 0xD800) * 0x400 +
      (0xDC00 + (c.toNat - 0x10000) % 0x400 - 0xDC00) = c.toNat := by omega
  rw [scanEscape_surrogates hm hn hhigh hlow, hnumber, Char.ofNat_toNat]

theorem scanEscape_letter {letter : Char} (h : (letter, c) ∈ escapeLetters) (rest : Text) :
    scanEscape (letter :: rest) = .ok (c, 1) := by
  simp only [escapeLetters, List.mem_cons, Prod.mk.injEq, List.not_mem_nil, or_false] at h
  rcases h with ⟨rfl, rfl⟩ | ⟨rfl, rfl⟩ | ⟨rfl, rfl⟩ | ⟨rfl, rfl⟩ | ⟨rfl, rfl⟩ | ⟨rfl, rfl⟩ |
    ⟨rfl, rfl⟩ | ⟨rfl, rfl⟩ <;> rfl

/-- An escape takes the characters that stand for it. -/
theorem scanQuotedAfter_escape {escape : Text} {n : Nat} (hlength : escape.length = n)
    (hescape : scanEscape (escape ++ rest) = .ok (c, n))
    (h : scanQuotedAfter 0 rest = .ok (s, t)) :
    scanQuotedAfter 0 ('\\' :: (escape ++ rest)) = .ok (c :: s, t) := by
  rw [scanQuotedAfter, hescape]
  change (scanQuotedAfter n _ >>= _) = _
  have hle : n ≤ (escape ++ rest).length := by
    rw [List.length_append]
    omega
  rw [scanQuotedAfter_eq_drop hle, ← hlength, List.drop_left, h]
  rfl

/-- **A string is scanned as it is written.** -/
theorem scanQuotedAfter_of_quotes (h : Quotes s t) (rest : Text) :
    scanQuotedAfter 0 (t ++ '"' :: rest) = .ok (s, rest) := by
  induction h with
  | nil => rfl
  | @plain c s t hcontrol hquote hbackslash _ ih =>
    rw [List.cons_append, scanQuotedAfter, if_neg (by simpa using hcontrol), ih]
    · rfl
    · exact hquote
    · exact hbackslash
  | @letter letter c s t hletter _ ih =>
    have hlength : [letter].length = 1 := List.length_singleton
    have h := scanQuotedAfter_escape hlength (scanEscape_letter hletter (t ++ '"' :: rest)) ih
    exact h
  | @number c digits s t hdigits _ ih =>
    have hlength : ('u' :: digits).length = 5 := by rw [List.length_cons, hdigits.length_eq]
    have h := scanQuotedAfter_escape hlength (scanEscape_number hdigits _) ih
    simpa only [List.cons_append, List.append_assoc] using h
  | @pair c high low s t hc hhigh hlow _ ih =>
    have hlength : ('u' :: (high ++ '\\' :: 'u' :: low)).length = 11 := by
      simp only [List.length_cons, List.length_append, hhigh.length_eq, hlow.length_eq]
    have hscan := scanEscape_pair hc hhigh hlow (t ++ '"' :: rest)
    have h := scanQuotedAfter_escape hlength
      (by simpa only [List.cons_append, List.append_assoc] using hscan) ih
    simpa only [List.cons_append, List.append_assoc] using h

end Quoted

end EquationFigure.Json
