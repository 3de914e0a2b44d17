import ChatTint.Markup.Tag

/-!
# What the keys of tags keep

A key has every choice of spelling taken out of a tag text.  What it keeps of the name is
enough to tell whether the name is one that opens something.  A closing tag of an unknown
name therefore fits no tag that opens anything, although the two questions are asked
of different texts: whether a tag fits, of its key, and whether its name is known, of
the name as it was written.

## Main definitions

* `isKnownName` — the small names that open something to close.

## Main results

* `isKnownName_spellName` — a name is known if its one spelling is.
* `isKnown_of_effect` — every tag that changes the look of text has a known name.
* `isKnown_eq_of_fits` — of two tags that fit both names are known, or neither is.
-/

namespace ChatTint

/-- Whether a small name is that of a tag that opens something to close. -/
def isKnownName (name : List Char) : Bool :=
  isColorTagName name || name.head? == some '#' ||
    (Decoration.ofName? name).isSome || (PaletteColor.ofName? name).isSome

theorem isKnown_eq (tag : List Char) :
    Tag.isKnown tag = isKnownName (lowercase (splitArgument tag).1) := rfl

/-! ### Spellings of known names -/

/-- A text that names a colour is a known name, or begins as one. -/
theorem isKnownName_of_color {s : List Char} {c : Color} (h : Color.ofText? s = some c) :
    isKnownName s = true := by
  unfold Color.ofText? at h
  split at h
  · simp [isKnownName]
  · obtain ⟨c', hc', -⟩ := Option.map_eq_some_iff.mp h
    simp [isKnownName, hc']

/-- The one spelling of a colour is a known name. -/
theorem isKnownName_colorName (c : Color) : isKnownName c.name = true := by
  cases c with
  | palette c => cases c <;> decide
  | rgb c => simp [isKnownName, Color.name, Rgb.text]

/-- **A name is known if its one spelling is.** -/
theorem isKnownName_spellName (name : List Char) :
    isKnownName (Key.spellName name) = isKnownName name := by
  unfold Key.spellName
  split
  · next hcolor =>
    have hname : isKnownName name = true := by simp [isKnownName, hcolor]
    rw [hname]
    decide
  · split
    · next d hd =>
      have hname : isKnownName name = true := by simp [isKnownName, hd]
      rw [hname]
      cases d <;> decide
    · cases hspelling : colorSpelling? name with
      | none => rfl
      | some spelling =>
        obtain ⟨c, hc, rfl⟩ := Option.map_eq_some_iff.mp hspelling
        rw [isKnownName_of_color hc]
        exact isKnownName_colorName c

/-! ### Tags that open something, and tags that fit them -/

/-- A small name that changes the look of text without an argument is known. -/
theorem isKnownName_of_effect {name : List Char} {e : Effect}
    (h : Tag.ofName? name = some (.effect e)) : isKnownName name = true := by
  unfold Tag.ofName? at h
  split at h
  · exact absurd h (by simp)
  · split at h
    · exact absurd h (by simp)
    · split at h
      · next d hd => simp [isKnownName, hd]
      · obtain ⟨c, hc, -⟩ := Option.map_eq_some_iff.mp h
        simp [isKnownName, hc]

/-- **Every tag that changes the look of text has a known name.** -/
theorem isKnown_of_effect {tag : List Char} {e : Effect}
    (h : Tag.ofText tag = .ok (some (.effect e))) : Tag.isKnown tag = true := by
  rw [isKnown_eq]
  simp only [Tag.ofText] at h
  split at h
  · next hcolor => simp [isKnownName, hcolor]
  · split at h
    · next hnumber => simp [isKnownName, hnumber]
    · split at h
      · exact absurd h (by simp)
      · exact isKnownName_of_effect (Except.ok.inj h)

/-- A closing tag that fits has the same name in its key. -/
theorem name_eq_of_fits {close opened : Key} (h : close.fits opened = true) :
    opened.name = close.name := by
  rw [Key.fits, Bool.or_eq_true, Bool.and_eq_true, beq_iff_eq, beq_iff_eq] at h
  rcases h with rfl | ⟨-, hname⟩
  · rfl
  · exact hname

/-- **Of two tags that fit both names are known, or neither is.** -/
theorem isKnown_eq_of_fits {close opened : List Char}
    (h : (Key.ofText close).fits (Key.ofText opened) = true) :
    Tag.isKnown close = Tag.isKnown opened := by
  have hname : Key.spellName (lowercase (splitArgument opened).1) =
      Key.spellName (lowercase (splitArgument close).1) := name_eq_of_fits h
  rw [isKnown_eq, isKnown_eq, ← isKnownName_spellName, ← hname, isKnownName_spellName]

end ChatTint
