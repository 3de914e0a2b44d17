import ChatTint.Proofs.Legacy.Rendering
import ChatTint.Proofs.Text.Pattern

/-!
# Hex codes written, read and searched for

A hex code is told in three ways: it is what is written for a colour, it is what can be read
pair by pair, and it is what a pattern matches.  The three agree on every text.  A text is
read as a colour if and only if it matches the pattern and the values of its digits are the
halves of the colour's channels, and then the colour is written as the same text in small
letters.  So whatever the pattern finds can be read, and a search for it need not say what
becomes of a match that cannot.

## Main definitions

* `HexCode.pattern` — the pattern of hex codes.
* `renderMatches` — the step that renders hex codes, as a search for the pattern.

## Main results

* `HexCode.spells_iff` — the hex codes of a colour, by the values of their digits.
* `HexCode.isCode_iff_mem_pattern` — the pattern matches the hex codes.
* `HexCode.toRgb?_eq_some_iff_lowercase` — a text is read as the colour for which its small
  form is written.
* `renderMatches_eq` — a search for the pattern renders the hex codes.
* `hexCode_codec` — writing, reading and searching agree.
-/

namespace ChatTint

/-! ### The pattern -/

namespace HexCode

section Pattern

open RegularExpression

/-- The pattern of hex codes: a mark of either case and six hexadecimal digits, each of the
seven behind a section sign. -/
def pattern : RegularExpression Char :=
  char sectionSign * oneOf ['x', 'X'] * (char sectionSign * oneOf hexDigitChars) ^ 6

/-- A section sign and a character of a class. -/
theorem mem_section_oneOf_iff {chars w : List Char} :
    w ∈ (char sectionSign * oneOf chars).matches' ↔ ∃ c ∈ chars, w = [sectionSign, c] := by
  rw [matches'_mul, Language.mem_mul, matches'_char]
  constructor
  · rintro ⟨_, rfl, u, hu, rfl⟩
    obtain ⟨c, hc, rfl⟩ := mem_oneOf_iff.mp hu
    exact ⟨c, hc, rfl⟩
  · rintro ⟨c, hc, rfl⟩
    exact ⟨[sectionSign], rfl, [c], mem_oneOf_iff.mpr ⟨c, hc, rfl⟩, rfl⟩

/-- A number of digits, each behind a section sign. -/
theorem mem_spaced_pow_iff {n : Nat} {s : List Char} :
    s ∈ ((char sectionSign * oneOf hexDigitChars) ^ n).matches' ↔
      ∃ ds, ds.length = n ∧ (∀ d ∈ ds, isHexDigit d = true) ∧ s = spaced ds := by
  rw [matches'_pow]
  induction n generalizing s with
  | zero =>
    rw [pow_zero, Language.mem_one]
    constructor
    · rintro rfl
      exact ⟨[], rfl, List.forall_mem_nil _, rfl⟩
    · rintro ⟨ds, hlength, -, rfl⟩
      rw [List.eq_nil_of_length_eq_zero hlength]
      rfl
  | succ n ih =>
    rw [pow_succ', Language.mem_mul]
    constructor
    · rintro ⟨w, hw, u, hu, rfl⟩
      obtain ⟨d, hd, rfl⟩ := mem_section_oneOf_iff.mp hw
      obtain ⟨ds, rfl, hdigits, rfl⟩ := ih.mp hu
      exact ⟨d :: ds, rfl, List.forall_mem_cons.mpr ⟨isHexDigit_iff_mem.mpr hd, hdigits⟩, rfl⟩
    · rintro ⟨ds, hlength, hdigits, rfl⟩
      obtain ⟨d, ds, rfl⟩ := List.exists_cons_of_length_eq_add_one hlength
      obtain ⟨hd, hds⟩ := List.forall_mem_cons.mp hdigits
      exact ⟨[sectionSign, d], mem_section_oneOf_iff.mpr ⟨d, isHexDigit_iff_mem.mp hd, rfl⟩,
        spaced ds, ih.mpr ⟨ds, Nat.succ.inj hlength, hds, rfl⟩, rfl⟩

/-- **The pattern matches the hex codes.** -/
theorem isCode_iff_mem_pattern {m : List Char} : IsCode m ↔ m ∈ pattern.matches' := by
  rw [pattern, matches'_mul, Language.mem_mul]
  constructor
  · rintro ⟨x, ds, hx, hlength, hdigits, rfl⟩
    have hmark : x ∈ ['x', 'X'] := by simpa using hx
    exact ⟨[sectionSign, x], mem_section_oneOf_iff.mpr ⟨x, hmark, rfl⟩, spaced ds,
      mem_spaced_pow_iff.mpr ⟨ds, hlength, hdigits, rfl⟩, rfl⟩
  · rintro ⟨w, hw, u, hu, rfl⟩
    obtain ⟨x, hx, rfl⟩ := mem_section_oneOf_iff.mp hw
    obtain ⟨ds, hlength, hdigits, rfl⟩ := mem_spaced_pow_iff.mp hu
    exact ⟨x, ds, by simpa using hx, hlength, hdigits, rfl⟩

end Pattern

/-! ### Reading what was written -/

/-- The hex codes of a colour, by the values of their digits. -/
theorem spells_iff {m : List Char} {c : Rgb} :
    Spells m c ↔ ∃ x ds, (x = 'x' ∨ x = 'X') ∧ ds.map hexValue? = c.halves.map some ∧
      m = sectionSign :: x :: spaced ds := by
  constructor
  · rintro ⟨x, ds, hx, hlength, -, hc, rfl⟩
    exact ⟨x, ds, hx, (Rgb.ofDigits?_eq_some_iff hlength).mp hc, rfl⟩
  · rintro ⟨x, ds, hx, hvalues, rfl⟩
    have hlength : ds.length = 6 := by simpa [Rgb.halves] using congrArg List.length hvalues
    exact ⟨x, ds, hx, hlength, isHexDigit_of_map_hexValue? hvalues,
      (Rgb.ofDigits?_eq_some_iff hlength).mpr hvalues, rfl⟩

theorem Spells.isCode {m : List Char} {c : Rgb} (h : Spells m c) : IsCode m := by
  obtain ⟨x, ds, hx, hlength, hdigits, -, rfl⟩ := h
  exact ⟨x, ds, hx, hlength, hdigits, rfl⟩

/-- Of every hex code a colour is decoded. -/
theorem exists_toRgb?_of_isCode {m : List Char} (h : IsCode m) : ∃ c, toRgb? m = some c := by
  obtain ⟨x, ds, hx, hlength, hdigits, rfl⟩ := h
  obtain ⟨c, hc⟩ := Rgb.exists_ofDigits? hlength hdigits
  exact ⟨c, toRgb?_eq_some_iff.mpr ⟨x, ds, hx, hlength, hdigits, hc, rfl⟩⟩

theorem toRgb?_ofRgb (c : Rgb) : toRgb? (ofRgb c) = some c :=
  toRgb?_eq_some_iff.mpr ⟨'x', c.digits, Or.inl rfl, c.length_digits,
    fun _ hd => Rgb.isHexDigit_of_mem_digits hd, Rgb.ofDigits?_digits c, rfl⟩

theorem lowercase_spaced (ds : List Char) : lowercase (spaced ds) = spaced (lowercase ds) := by
  have hsection : sectionSign.toLower = sectionSign := by decide
  induction ds with
  | nil => rfl
  | cons d ds ih =>
    show sectionSign.toLower :: d.toLower :: lowercase (spaced ds) = _
    rw [hsection, ih]
    rfl

/-- A hex code of a colour in small letters is what is written for the colour. -/
theorem Spells.lowercase_eq {m : List Char} {c : Rgb} (h : Spells m c) :
    lowercase m = ofRgb c := by
  obtain ⟨x, ds, hx, hvalues, rfl⟩ := spells_iff.mp h
  have hmark : x.toLower = 'x' := by
    rcases hx with rfl | rfl
    · decide
    · decide
  have hsection : sectionSign.toLower = sectionSign := by decide
  rw [lowercase_cons, lowercase_cons, lowercase_spaced, hmark, hsection,
    lowercase_of_map_hexValue? hvalues, ← Rgb.digits_eq_map_halves]
  rfl

/-- **A text is read as the colour for which its small form is written**, if it is a hex
code. -/
theorem toRgb?_eq_some_iff_lowercase {m : List Char} {c : Rgb} :
    toRgb? m = some c ↔ m ∈ pattern.matches' ∧ lowercase m = ofRgb c := by
  rw [← isCode_iff_mem_pattern]
  constructor
  · intro h
    have hm := toRgb?_eq_some_iff.mp h
    exact ⟨hm.isCode, hm.lowercase_eq⟩
  · rintro ⟨hcode, hlower⟩
    obtain ⟨c', hc'⟩ := exists_toRgb?_of_isCode hcode
    -- what is written for the two colours is the same text, which is read as one of them
    have hsame : ofRgb c' = ofRgb c := ((toRgb?_eq_some_iff.mp hc').lowercase_eq).symm.trans hlower
    have hread := toRgb?_ofRgb c'
    rw [hsame, toRgb?_ofRgb] at hread
    rw [hc', hread]

end HexCode

/-! ### Searching -/

/-- The step that renders hex codes, as a search for the pattern from the left.  A match has
the length of a hex code; what it is read as is sent, and `keep` says what becomes of a match
that cannot be read. -/
def renderMatches (keep : List Char → List Char) : List Char → List Char
  | [] => []
  | c :: s =>
    if (c :: s).take HexCode.size ∈ HexCode.pattern.matches' then
      (match HexCode.toRgb? ((c :: s).take HexCode.size) with
        | some color => (Rendition.trueColor color).escape
        | none => keep ((c :: s).take HexCode.size)) ++
          renderMatches keep (s.drop (HexCode.size - 1))
    else c :: renderMatches keep s
termination_by s => s.length
decreasing_by
  · simp only [List.length_drop, List.length_cons]
    omega
  · simp

/-- **A search for the pattern renders the hex codes**, and never meets a match that cannot
be read. -/
theorem renderMatches_eq (keep : List Char → List Char) (s : List Char) :
    renderMatches keep s = renderHexCodes s := by
  fun_induction renderMatches keep s with
  | case1 => rw [renderHexCodes_nil]
  | case2 c s hmatch ih =>
    obtain ⟨color, hcolor⟩ :=
      HexCode.exists_toRgb?_of_isCode (HexCode.isCode_iff_mem_pattern.mpr hmatch)
    have hread : HexCode.read? (c :: s) = some (color, s.drop (HexCode.size - 1)) :=
      HexCode.read?_eq_some_iff_take.mpr ⟨hcolor, rfl⟩
    rw [hcolor, renderHexCodes_of_read? hread, ih]
  | case3 c s hmatch ih =>
    have hnone : HexCode.toRgb? ((c :: s).take HexCode.size) = none := by
      rw [Option.eq_none_iff_forall_ne_some]
      intro color hcolor
      exact hmatch (HexCode.toRgb?_eq_some_iff_lowercase.mp hcolor).1
    rw [renderHexCodes_cons (HexCode.read?_of_take hnone), ih]

/-- **Writing, reading and searching for hex codes agree.**  What is written for a colour is
read as that colour.  A text is read as a colour if and only if all of it matches the pattern
and the values of its digits are the halves of the colour's channels, and if and only if it
matches the pattern and its small form is what is written for the colour.  Every match is
read as some colour, so that a search for the pattern renders the hex codes whatever would
become of a match that cannot be read. -/
theorem hexCode_codec :
    (∀ c, HexCode.toRgb? (HexCode.ofRgb c) = some c) ∧
    (∀ s c, HexCode.toRgb? s = some c ↔ s ∈ HexCode.pattern.matches' ∧
      ∃ x ds, s = sectionSign :: x :: HexCode.spaced ds ∧
        ds.map hexValue? = c.halves.map some) ∧
    (∀ s c, HexCode.toRgb? s = some c ↔
      s ∈ HexCode.pattern.matches' ∧ HexCode.ofRgb c = lowercase s) ∧
    (∀ s, (HexCode.toRgb? s).isSome = true ↔ s ∈ HexCode.pattern.matches') ∧
    ∀ keep s, renderMatches keep s = renderHexCodes s := by
  refine ⟨HexCode.toRgb?_ofRgb, fun s c => ?_, fun s c => ?_, fun s => ?_, renderMatches_eq⟩
  · rw [HexCode.toRgb?_eq_some_iff, ← HexCode.isCode_iff_mem_pattern]
    constructor
    · intro h
      obtain ⟨x, ds, -, hvalues, hs⟩ := HexCode.spells_iff.mp h
      exact ⟨h.isCode, x, ds, hs, hvalues⟩
    · rintro ⟨⟨y, es, hy, -, -, hs⟩, x, ds, hs', hvalues⟩
      -- the mark is the one of the match
      have hmark : x = y := (List.cons.inj (List.cons.inj (hs'.symm.trans hs)).2).1
      exact HexCode.spells_iff.mpr ⟨x, ds, hmark ▸ hy, hvalues, hs'⟩
  · exact HexCode.toRgb?_eq_some_iff_lowercase.trans (and_congr_right fun _ => eq_comm)
  · rw [Option.isSome_iff_exists]
    constructor
    · rintro ⟨c, hc⟩
      exact (HexCode.toRgb?_eq_some_iff_lowercase.mp hc).1
    · intro h
      exact HexCode.exists_toRgb?_of_isCode (HexCode.isCode_iff_mem_pattern.mpr h)

/-- Of a run that is too long, or of which one pair is none, no colour is decoded. -/
example : HexCode.toRgb? "§X§A§b§C§0§0§f".toList = some ⟨171, 192, 15⟩ ∧
    HexCode.toRgb? "§x§1§2§3§4§5§6§7".toList = none ∧
    HexCode.toRgb? "§x§1§2§3§4§5§g".toList = none := by decide

end ChatTint
