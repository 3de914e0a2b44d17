import ChatTint.Legacy.HexCode
import ChatTint.Proofs.Color.Digits

/-!
# Reading and writing hex codes

A hex code is read back as the colour it was written for, whatever text stands
behind it.  Its digits, each behind a section sign, are legacy codes too, which
is why a text without legacy codes holds no hex code.

## Main definitions

* `HexCode.Spells` — the hex codes of a colour.
* `HexCode.IsCode`, `HoldsHexCode` — the texts that are hex codes, and those in which one
  occurs.

## Main results

* `isCodeChar_of_isHexDigit` — every hexadecimal digit makes a legacy code.
* `HexCode.read?_ofRgb` — a written hex code is read back.
* `HexCode.read?_eq_some_iff` — a colour is read where a hex code of it stands.
* `HexCode.toRgb?_eq_some_iff` — the texts of which a colour is decoded.
* `HexCode.isSome_read?_iff` — a hex code is read where one stands.
-/

namespace ChatTint

/-! ### Digits -/

/-- Every hexadecimal digit makes a legacy code behind a section sign. -/
theorem isCodeChar_of_isHexDigit {c : Char} (h : isHexDigit c = true) : isCodeChar c = true := by
  -- both are functions of the character, so the few that can be digits are tried
  have hascii : ∀ n < 128, isHexDigit (Char.ofNat n) = true → isCodeChar (Char.ofNat n) = true := by
    decide
  have hc := hascii c.toNat (toNat_lt_of_isHexDigit h)
  rw [Char.ofNat_toNat] at hc
  exact hc h

/-! ### Reading -/

namespace HexCode

/-- Digits behind section signs are read back, whatever stands behind them. -/
theorem readDigits?_spaced : ∀ (ds : List Char), (∀ d ∈ ds, isHexDigit d = true) →
    ∀ rest : List Char, readDigits? ds.length (spaced ds ++ rest) = some (ds, rest) := by
  intro ds
  induction ds with
  | nil => intro _ rest; rfl
  | cons d ds ih =>
    intro h rest
    have hd : isHexDigit d = true := h d List.mem_cons_self
    have hds : ∀ e ∈ ds, isHexDigit e = true := fun e he => h e (List.mem_cons_of_mem d he)
    show readDigits? (ds.length + 1) (sectionSign :: d :: (spaced ds ++ rest)) = _
    rw [readDigits?, if_pos ⟨rfl, hd⟩, ih hds rest]
    rfl

/-- A written hex code is read back as its colour, whatever stands behind it. -/
theorem read?_ofRgb (c : Rgb) (rest : List Char) : read? (ofRgb c ++ rest) = some (c, rest) := by
  have hdigits : readDigits? 6 (spaced c.digits ++ rest) = some (c.digits, rest) :=
    readDigits?_spaced c.digits (fun d hd => Rgb.isHexDigit_of_mem_digits hd) rest
  show read? (sectionSign :: 'x' :: (spaced c.digits ++ rest)) = _
  rw [read?, if_pos ⟨rfl, Or.inl rfl⟩, hdigits]
  simp [Rgb.ofDigits?_digits]

/-- Where digits are read, they stand behind section signs in front of the rest. -/
theorem readDigits?_eq_some : ∀ {n : Nat} {s ds rest : List Char},
    readDigits? n s = some (ds, rest) →
      s = spaced ds ++ rest ∧ ds.length = n ∧ ∀ d ∈ ds, isHexDigit d = true := by
  intro n
  induction n with
  | zero =>
    intro s ds rest h
    rw [readDigits?, Option.some.injEq, Prod.mk.injEq] at h
    obtain ⟨rfl, rfl⟩ := h
    exact ⟨rfl, rfl, fun d hd => absurd hd List.not_mem_nil⟩
  | succ n ih =>
    intro s ds rest h
    rcases s with _ | ⟨mark, _ | ⟨d, s⟩⟩
    · simp [readDigits?] at h
    · simp [readDigits?] at h
    · rw [readDigits?] at h
      by_cases hd : mark = sectionSign ∧ isHexDigit d = true
      · rw [if_pos hd, Option.map_eq_some_iff] at h
        obtain ⟨⟨ds', rest'⟩, h', he⟩ := h
        obtain ⟨hs, hlength, hdigits⟩ := ih h'
        rw [Prod.mk.injEq] at he
        obtain ⟨rfl, rfl⟩ := he
        refine ⟨by rw [hs, hd.1]; rfl, by rw [List.length_cons, hlength], fun e he => ?_⟩
        rcases List.mem_cons.mp he with rfl | he
        · exact hd.2
        · exact hdigits e he
      · rw [if_neg hd] at h
        simp at h

/-- A hex code of a colour: a mark of either case and six hexadecimal digits that spell the
colour, each of the seven behind a section sign. -/
def Spells (m : List Char) (c : Rgb) : Prop :=
  ∃ x ds, (x = 'x' ∨ x = 'X') ∧ ds.length = 6 ∧ (∀ d ∈ ds, isHexDigit d = true) ∧
    Rgb.ofDigits? ds = some c ∧ m = sectionSign :: x :: spaced ds

theorem Spells.length_eq {m : List Char} {c : Rgb} (h : Spells m c) : m.length = size := by
  obtain ⟨x, ds, -, hlength, -, -, rfl⟩ := h
  obtain ⟨r, r', g, g', b, b', rfl⟩ := Rgb.exists_pairs hlength
  rfl

/-- **A colour is read where a hex code of it stands.** -/
theorem read?_eq_some_iff {s rest : List Char} {c : Rgb} :
    read? s = some (c, rest) ↔ ∃ m, Spells m c ∧ s = m ++ rest := by
  constructor
  · intro h
    match s, h with
    | [], h => simp [read?] at h
    | [_], h => simp [read?] at h
    | mark :: x :: s, h =>
      rw [read?] at h
      by_cases hx : mark = sectionSign ∧ (x = 'x' ∨ x = 'X')
      · rw [if_pos hx] at h
        cases hd : readDigits? 6 s with
        | none => simp [hd] at h
        | some p =>
          obtain ⟨ds, rest'⟩ := p
          obtain ⟨hs, hlength, hdigits⟩ := readDigits?_eq_some hd
          cases hc : Rgb.ofDigits? ds with
          | none => simp [hd, hc] at h
          | some c' =>
            simp only [hd, hc, Option.bind_eq_bind, Option.bind_some, Option.pure_def,
              Option.some.injEq, Prod.mk.injEq] at h
            obtain ⟨rfl, rfl⟩ := h
            exact ⟨_, ⟨x, ds, hx.2, hlength, hdigits, hc, rfl⟩, by rw [hs, hx.1]; rfl⟩
      · rw [if_neg hx] at h
        simp at h
  · rintro ⟨m, ⟨x, ds, hx, hlength, hdigits, hc, rfl⟩, rfl⟩
    have hread : readDigits? 6 (spaced ds ++ rest) = some (ds, rest) := by
      rw [← hlength]
      exact readDigits?_spaced ds hdigits rest
    show read? (sectionSign :: x :: (spaced ds ++ rest)) = _
    rw [read?, if_pos ⟨rfl, hx⟩, hread]
    simp [hc]

/-- Where a hex code is read, its mark and six digits stand in front of the rest. -/
theorem read?_eq_some {s rest : List Char} {c : Rgb} (h : read? s = some (c, rest)) :
    ∃ x ds, (x = 'x' ∨ x = 'X') ∧ ds.length = 6 ∧ (∀ d ∈ ds, isHexDigit d = true) ∧
      s = sectionSign :: x :: (spaced ds ++ rest) := by
  obtain ⟨m, ⟨x, ds, hx, hlength, hdigits, -, rfl⟩, rfl⟩ := read?_eq_some_iff.mp h
  exact ⟨x, ds, hx, hlength, hdigits, rfl⟩

/-- Behind a hex code stands what its length leaves of the text. -/
theorem drop_of_read? {s rest : List Char} {c : Rgb} (h : read? s = some (c, rest)) :
    s.drop size = rest := by
  obtain ⟨m, hm, rfl⟩ := read?_eq_some_iff.mp h
  exact List.drop_left' hm.length_eq

/-- A hex code stays one, whatever is appended. -/
theorem read?_append {s rest : List Char} {c : Rgb} (h : read? s = some (c, rest))
    (t : List Char) : read? (s ++ t) = some (c, rest ++ t) := by
  obtain ⟨m, hm, rfl⟩ := read?_eq_some_iff.mp h
  exact read?_eq_some_iff.mpr ⟨m, hm, List.append_assoc m rest t⟩

/-- Digits are read of a text if it is nothing but those, each behind a section sign. -/
theorem spacedDigits?_eq_some_iff {s ds : List Char} :
    spacedDigits? s = some ds ↔ s = spaced ds ∧ ∀ d ∈ ds, isHexDigit d = true := by
  constructor
  · intro h
    fun_induction spacedDigits? s generalizing ds with
    | case1 =>
      rw [← Option.some.inj h]
      exact ⟨rfl, List.forall_mem_nil _⟩
    | case2 => exact absurd h.symm (Option.some_ne_none ds)
    | case3 mark d s hd ih =>
      obtain ⟨ds, hds, rfl⟩ := Option.map_eq_some_iff.mp h
      obtain ⟨rfl, hdigits⟩ := ih hds
      exact ⟨by rw [hd.1]; rfl, List.forall_mem_cons.mpr ⟨hd.2, hdigits⟩⟩
    | case4 => exact absurd h.symm (Option.some_ne_none ds)
  · rintro ⟨rfl, hdigits⟩
    induction ds with
    | nil => rfl
    | cons d ds ih =>
      obtain ⟨hd, hds⟩ := List.forall_mem_cons.mp hdigits
      show spacedDigits? (sectionSign :: d :: spaced ds) = _
      rw [spacedDigits?, if_pos ⟨rfl, hd⟩, ih hds, Option.map_some]

/-- The texts of which a colour is decoded are its hex codes. -/
theorem toRgb?_eq_some_iff {m : List Char} {c : Rgb} : toRgb? m = some c ↔ Spells m c := by
  constructor
  · intro h
    match m, h with
    | [], h => exact absurd h.symm (Option.some_ne_none c)
    | [_], h => exact absurd h.symm (Option.some_ne_none c)
    | mark :: x :: s, h =>
      rw [toRgb?] at h
      by_cases hx : mark = sectionSign ∧ (x = 'x' ∨ x = 'X')
      · rw [if_pos hx] at h
        obtain ⟨ds, hread, hc⟩ := Option.bind_eq_some_iff.mp h
        obtain ⟨rfl, hdigits⟩ := spacedDigits?_eq_some_iff.mp hread
        by_cases hlength : ds.length = 6
        · rw [if_pos hlength] at hc
          exact ⟨x, ds, hx.2, hlength, hdigits, hc, by rw [hx.1]⟩
        · rw [if_neg hlength] at hc
          exact absurd hc.symm (Option.some_ne_none c)
      · rw [if_neg hx] at h
        exact absurd h.symm (Option.some_ne_none c)
  · rintro ⟨x, ds, hx, hlength, hdigits, hc, rfl⟩
    have hread : spacedDigits? (spaced ds) = some ds := spacedDigits?_eq_some_iff.mpr ⟨rfl, hdigits⟩
    rw [toRgb?, if_pos ⟨rfl, hx⟩, hread]
    show (if ds.length = 6 then Rgb.ofDigits? ds else none) = some c
    rw [if_pos hlength, hc]

/-- A hex code is read at the beginning of a text if the text's first characters are one. -/
theorem read?_eq_some_iff_take {s rest : List Char} {c : Rgb} :
    read? s = some (c, rest) ↔ toRgb? (s.take size) = some c ∧ s.drop size = rest := by
  rw [toRgb?_eq_some_iff]
  constructor
  · intro h
    refine ⟨?_, drop_of_read? h⟩
    obtain ⟨m, hm, rfl⟩ := read?_eq_some_iff.mp h
    rw [List.take_left' hm.length_eq]
    exact hm
  · rintro ⟨hm, rfl⟩
    exact read?_eq_some_iff.mpr ⟨_, hm, (List.take_append_drop size s).symm⟩

/-- No hex code is read where the text's first characters are none. -/
theorem read?_of_take {s : List Char} (h : toRgb? (s.take size) = none) : read? s = none := by
  cases hread : read? s with
  | none => rfl
  | some p =>
    rw [(read?_eq_some_iff_take.mp hread).1] at h
    exact absurd h (Option.some_ne_none _)

/-- A hex code begins with a section sign. -/
theorem read?_of_ne {c : Char} (h : c ≠ sectionSign) (s : List Char) : read? (c :: s) = none := by
  cases hr : read? (c :: s) with
  | none => rfl
  | some p =>
    obtain ⟨x, ds, -, -, -, hs⟩ := read?_eq_some hr
    exact absurd (List.cons.inj hs).1 h

/-- No hex code begins with a legacy code. -/
theorem read?_code {d : Char} (hd : isCodeChar d = true) (s : List Char) :
    read? (sectionSign :: d :: s) = none := by
  rw [read?, if_neg]
  rintro ⟨-, rfl | rfl⟩
  · exact absurd hd (by decide)
  · exact absurd hd (by decide)

/-! ### Texts with hex codes -/

/-- The texts that are hex codes: a mark of either case and six hexadecimal digits, each of
the seven behind a section sign. -/
def IsCode (m : List Char) : Prop :=
  ∃ x ds, (x = 'x' ∨ x = 'X') ∧ ds.length = 6 ∧ (∀ d ∈ ds, isHexDigit d = true) ∧
    m = sectionSign :: x :: spaced ds

/-- Digits do not go on with a section sign, nor behind it with another character. -/
theorem readDigits?_append_mark {y : Char} (hy : isHexDigit y = false) {n : Nat} {s t : List Char}
    (h : readDigits? n s = none) : readDigits? n (s ++ sectionSign :: y :: t) = none := by
  have hsection : isHexDigit sectionSign = false := by decide
  induction n generalizing s with
  | zero => exact absurd h (Option.some_ne_none _)
  | succ n ih =>
    match s, h with
    | [], _ => rw [List.nil_append, readDigits?, if_neg (by simp [hy])]
    | [c], _ =>
      show readDigits? (n + 1) (c :: sectionSign :: y :: t) = none
      rw [readDigits?, if_neg (by simp [hsection])]
    | mark :: d :: s, h =>
      rw [readDigits?] at h
      rw [List.cons_append, List.cons_append, readDigits?]
      split at h
      · next hd => rw [if_pos hd, ih (Option.map_eq_none_iff.mp h), Option.map_none]
      · next hd => rw [if_neg hd]

/-- A hex code is read behind a mark if six digits are. -/
theorem isSome_read?_cons {mark x : Char} {s : List Char} :
    (read? (mark :: x :: s)).isSome = true ↔
      (mark = sectionSign ∧ (x = 'x' ∨ x = 'X')) ∧ (readDigits? 6 s).isSome = true := by
  rw [read?]
  by_cases hx : mark = sectionSign ∧ (x = 'x' ∨ x = 'X')
  · rw [if_pos hx, and_iff_right hx]
    cases hd : readDigits? 6 s with
    | none => simp
    | some p =>
      obtain ⟨-, hlength, hdigits⟩ := readDigits?_eq_some hd
      obtain ⟨c, hc⟩ := Rgb.exists_ofDigits? hlength hdigits
      simp [hc]
  · rw [if_neg hx]
    simp [hx]

/-- **No hex code begins in a text and ends behind it**, if a section sign stands there before
a character that is no digit. -/
theorem read?_append_mark {y : Char} (hy : isHexDigit y = false) {s t : List Char} (hs : s ≠ [])
    (h : read? s = none) : read? (s ++ sectionSign :: y :: t) = none := by
  match s, hs with
  | [c], _ =>
    show read? (c :: sectionSign :: y :: t) = none
    rw [read?, if_neg]
    rintro ⟨-, hx | hx⟩
    · exact absurd hx (by decide)
    · exact absurd hx (by decide)
  | mark :: x :: s, _ =>
    rw [← Option.not_isSome_iff_eq_none, isSome_read?_cons, not_and] at h
    rw [List.cons_append, List.cons_append, ← Option.not_isSome_iff_eq_none, isSome_read?_cons,
      not_and]
    intro hx
    have hdigits := Option.not_isSome_iff_eq_none.mp (h hx)
    rw [readDigits?_append_mark hy hdigits]
    exact Bool.false_ne_true

/-- A text that is a hex code is read as one, whatever stands behind it. -/
theorem read?_of_isCode {m : List Char} (h : IsCode m) (rest : List Char) :
    ∃ c, read? (m ++ rest) = some (c, rest) := by
  obtain ⟨x, ds, hx, hlength, hdigits, hm⟩ := h
  obtain ⟨c, hc⟩ := Rgb.exists_ofDigits? hlength hdigits
  exact ⟨c, read?_eq_some_iff.mpr ⟨m, ⟨x, ds, hx, hlength, hdigits, hc, hm⟩, rfl⟩⟩

/-- **A hex code is read where one stands.** -/
theorem isSome_read?_iff {s : List Char} :
    (read? s).isSome = true ↔ ∃ m, IsCode m ∧ m <+: s := by
  constructor
  · intro h
    obtain ⟨⟨c, rest⟩, hread⟩ := Option.isSome_iff_exists.mp h
    obtain ⟨x, ds, hx, hlength, hdigits, rfl⟩ := read?_eq_some hread
    exact ⟨_, ⟨x, ds, hx, hlength, hdigits, rfl⟩, rest, rfl⟩
  · rintro ⟨m, hm, rest, rfl⟩
    obtain ⟨c, hread⟩ := read?_of_isCode hm rest
    rw [hread]
    rfl

end HexCode

/-- A hex code occurs in the text. -/
def HoldsHexCode (s : List Char) : Prop := ∃ m, HexCode.IsCode m ∧ m <:+: s

theorem not_holdsHexCode_nil : ¬ HoldsHexCode [] := by
  rintro ⟨m, ⟨x, ds, -, -, -, rfl⟩, hm⟩
  exact absurd (List.infix_nil.mp hm) (List.cons_ne_nil _ _)

/-- A hex code occurs in a text where one is read. -/
theorem holdsHexCode_cons_iff {c : Char} {s : List Char} :
    HoldsHexCode (c :: s) ↔ (HexCode.read? (c :: s)).isSome = true ∨ HoldsHexCode s := by
  rw [HexCode.isSome_read?_iff]
  unfold HoldsHexCode
  simp only [List.infix_cons_iff, and_or_left, exists_or]

end ChatTint
