import ChatTint.Proofs.Markup.Pairing
import ChatTint.Proofs.Markup.PlainText

/-!
# Closing tags of unknown tags

An unknown tag is kept as text.  Its closing tag fits no open tag, whatever is open, since
every open tag changes the look of text and only tags that do so fit one another.  What
becomes of the closing tag is then a question of its name alone.  A tag may be unknown
because its name is, and then the closing tag is kept as text too.  But it may also be
unknown because of its argument, which the name of a decoration or of a palette colour does
not take.  Such a closing tag is one of a known name with nothing to close, and is rejected.

## Main definitions

* `Tag.HasStrayArgument` — a known name with an argument that it does not take.

## Main results

* `isKnown_iff_of_unknown` — the unknown tags of known names.
* `OpenTag.OpenedBy.not_fits_unknown` — an unknown tag closes nothing.
* `Parser.read_closing_of_unknown` — an unknown closing tag, in any state.
* `parse_unknown` — an unknown tag around a text.
* `unknown_tag_closing` — the two kinds of unknown closing tags.
-/

namespace ChatTint

/-! ### Unknown tags of known names -/

/-- A name of a decoration or of a palette colour, with an argument that it does not
take. -/
def Tag.HasStrayArgument (tag : List Char) : Prop :=
  ∃ name argument, tag = name ++ ':' :: argument ∧ ':' ∉ name ∧
    ((Decoration.ofName? name).isSome = true ∨ (PaletteColor.ofName? name).isSome = true)

theorem Decoration.ofName?_lowercase (s : List Char) : ofName? (lowercase s) = ofName? s := by
  rw [ofName?, ofName?, lowercase_lowercase]

/-- The name of an unknown tag is neither that of the colour tag nor digits, and it is itself
unknown if there is no argument. -/
theorem name_of_unknown {tag : List Char} (h : Tag.ofText tag = .ok none) :
    isColorTagName (lowercase (splitArgument tag).1) = false ∧
      (lowercase (splitArgument tag).1).head? ≠ some '#' ∧
      ((splitArgument tag).2 = none → Tag.ofName? (lowercase (splitArgument tag).1) = none) := by
  simp only [Tag.ofText] at h
  split at h
  · split at h <;> exact absurd h (by simp)
  · next hcolor =>
    split at h
    · split at h <;> exact absurd h (by simp)
    · next hhead =>
      refine ⟨Bool.eq_false_iff.mpr hcolor, hhead, fun hbare => ?_⟩
      rw [hbare] at h
      exact Except.ok.inj h

/-- Of an unknown tag the name is known if it is that of a decoration or of a palette
colour. -/
theorem isKnown_of_unknown {tag : List Char} (h : Tag.ofText tag = .ok none) :
    Tag.isKnown tag = true ↔ (Decoration.ofName? (splitArgument tag).1).isSome = true ∨
      (PaletteColor.ofName? (splitArgument tag).1).isSome = true := by
  obtain ⟨hcolor, hhead, -⟩ := name_of_unknown h
  rw [isKnown_eq, isKnownName, hcolor, beq_eq_false_iff_ne.mpr hhead,
    Decoration.ofName?_lowercase, PaletteColor.ofName?_lowercase]
  simp

/-- An unknown small name is that of no decoration and no palette colour. -/
theorem of_ofName?_eq_none {name : List Char} (h : Tag.ofName? name = none) :
    Decoration.ofName? name = none ∧ PaletteColor.ofName? name = none := by
  unfold Tag.ofName? at h
  split at h
  · exact absurd h (Option.some_ne_none _)
  · split at h
    · exact absurd h (Option.some_ne_none _)
    · split at h
      · exact absurd h (Option.some_ne_none _)
      · next hd => exact ⟨hd, Option.map_eq_none_iff.mp h⟩

/-- **The unknown tags of known names** are those with an argument that the name does not
take. -/
theorem isKnown_iff_of_unknown {tag : List Char} (h : Tag.ofText tag = .ok none) :
    Tag.isKnown tag = true ↔ Tag.HasStrayArgument tag := by
  rw [isKnown_of_unknown h]
  constructor
  · intro hname
    by_cases hcolon : ':' ∈ tag
    · obtain ⟨name, argument, rfl, hfree⟩ := List.eq_append_cons_of_mem hcolon
      rw [splitArgument_argument hfree] at hname
      exact ⟨name, argument, rfl, hfree, hname⟩
    · -- a known name without an argument is no unknown tag
      have hnone := (name_of_unknown h).2.2 (by rw [splitArgument_bare hcolon])
      obtain ⟨hd, hc⟩ := of_ofName?_eq_none hnone
      rw [Decoration.ofName?_lowercase] at hd
      rw [PaletteColor.ofName?_lowercase] at hc
      rw [hd, hc] at hname
      exact absurd hname (by simp)
  · rintro ⟨name, argument, rfl, hfree, hname⟩
    rw [splitArgument_argument hfree]
    exact hname

/-! ### An unknown closing tag -/

/-- **An unknown tag closes nothing.** -/
theorem OpenTag.OpenedBy.not_fits_unknown {frame : OpenTag} {tag close : List Char}
    (h : frame.OpenedBy tag) (hclose : Tag.ofText close = .ok none) :
    (Key.ofText close).fits frame.key = false := by
  rw [h.key, Bool.eq_false_iff, ne_eq, fits_iff h.effect, hclose,
    isColorTagName_of_ofText hclose]
  simp

namespace Parser

/-- **An unknown closing tag, in any state that a parse can reach.** -/
theorem read_closing_of_unknown {tag : List Char} (hunknown : Tag.ofText tag = .ok none)
    {tokens : List Token} {p : Parser} (hread : start.readAll tokens = .ok p) :
    p.read (.closeTag tag) =
      if Tag.isKnown tag then .error (.unmatchedClose tag)
      else .ok (p.write (Token.closeTag tag).source) := by
  obtain ⟨tags, -, htags⟩ := exists_tags_of_readAll hread
  have hnone : closeInnermost? (Key.ofText tag) p.opened = none := by
    apply closeInnermost?_eq_none
    intro frame hframe
    obtain ⟨opening, -, hopened⟩ := exists_openedBy_of_mem htags hframe
    exact hopened.not_fits_unknown hunknown
  rw [read, onClose, hnone]

end Parser

/-! ### An unknown tag around a text -/

/-- An unknown tag around a text, as it is written. -/
def Tag.around (tag text : List Char) : List Char :=
  (Token.openTag tag).source ++ text ++ (Token.closeTag tag).source

/-- **An unknown tag around a text** without tags is kept as it is written, or its closing
tag is rejected. -/
theorem parse_unknown {tag : List Char} (htag : isTagText tag = true)
    (hunknown : Tag.ofText tag = .ok none) {s : List Char} (hopen : '<' ∉ s)
    (hlast : s.getLast? ≠ some '\\') :
    parse (Tag.around tag s) =
      if Tag.isKnown tag then .error (.unmatchedClose tag)
      else .ok ⟨[⟨Tag.around tag s, .plain⟩]⟩ := by
  have hpieces : pieces (Tag.around tag s) =
      (Token.openTag tag :: s.map fun c => Token.text [c]) ++ [Token.closeTag tag] := by
    have hclose := pieces_closeTag htag []
    rw [List.append_nil, pieces_nil] at hclose
    rw [Tag.around, List.append_assoc, pieces_openTag htag, pieces_append hopen fun _ => hlast,
      hclose]
    rfl
  have hfront : Parser.start.readAll (Token.openTag tag :: s.map fun c => Token.text [c]) =
      .ok (Parser.start.write ((Token.openTag tag).source ++ s)) := by
    have hfirst : Parser.start.read (.openTag tag) =
        .ok (Parser.start.write (Token.openTag tag).source) := by
      rw [Parser.read, Parser.onOpen, hunknown]
    rw [Parser.readAll_cons, hfirst, Except.bind, Parser.readAll_chars, ← Parser.write_append]
  rw [parse_eq_pieces, hpieces, Parser.readAll_append, hfront, Except.bind,
    Parser.readAll_singleton, Parser.read_closing_of_unknown hunknown hfront]
  by_cases hknown : Tag.isKnown tag = true
  · rw [if_pos hknown, if_pos hknown]
    rfl
  · rw [if_neg hknown, if_neg hknown, ← Parser.write_append]
    rfl

/-- **The two kinds of unknown closing tags.**  An unknown tag may be one of an unknown name.
Then its closing tag is kept as text in every state that a parse can reach and leaves what is
open as it is, so that the tag around a text is one plain span.  Or it is a known name with an
argument that the name does not take.  Then its closing tag is rejected in every state. -/
theorem unknown_tag_closing {tag : List Char} (htag : isTagText tag = true)
    (hunknown : Tag.ofText tag = .ok none) :
    (¬ Tag.HasStrayArgument tag →
      (∀ tokens p, Parser.start.readAll tokens = .ok p →
        p.read (.closeTag tag) = .ok
          { opened := p.opened
            document := p.document.push (Token.closeTag tag).source p.style }) ∧
      ∀ s, '<' ∉ s → s.getLast? ≠ some '\\' →
        parse (Tag.around tag s) = .ok ⟨[⟨Tag.around tag s, .plain⟩]⟩) ∧
    (Tag.HasStrayArgument tag →
      (∀ tokens p, Parser.start.readAll tokens = .ok p →
        p.read (.closeTag tag) = .error (.unmatchedClose tag)) ∧
      ∀ s, '<' ∉ s → s.getLast? ≠ some '\\' →
        parse (Tag.around tag s) = .error (.unmatchedClose tag)) := by
  rw [← isKnown_iff_of_unknown hunknown]
  refine ⟨fun hname => ⟨fun tokens p hread => ?_, fun s hopen hlast => ?_⟩,
    fun hname => ⟨fun tokens p hread => ?_, fun s hopen hlast => ?_⟩⟩
  · rw [Parser.read_closing_of_unknown hunknown hread, if_neg hname]
    rfl
  · rw [parse_unknown htag hunknown hopen hlast, if_neg hname]
  · rw [Parser.read_closing_of_unknown hunknown hread, if_pos hname]
  · rw [parse_unknown htag hunknown hopen hlast, if_pos hname]

theorem unknown_tag_closing_inside_red :
    let hover := "hover:#12".toList
    let bold := "bOLD:1".toList
    let red : Style := { color := some (.palette .red) }
    let tokens : List Token := [.openTag "red".toList, .text ['a']]
    let p : Parser := {
      opened := [⟨Key.ofText "red".toList, .color (.palette .red)⟩]
      document := ⟨[⟨['a'], red⟩]⟩ }
    ¬ Tag.HasStrayArgument hover ∧ Tag.HasStrayArgument bold ∧
      Parser.start.readAll tokens = .ok p ∧
      p.read (.closeTag hover) = .ok { p with document := ⟨[⟨"a</hover:#12>".toList, red⟩]⟩ } ∧
      p.read (.closeTag bold) = .error (.unmatchedClose bold) ∧
      parse "<hover:#12>\\>x</hover:#12>".toList =
        .ok ⟨[⟨"<hover:#12>\\>x</hover:#12>".toList, .plain⟩]⟩ ∧
      parse "<bOLD:1>x</bOLD:1>".toList = .error (.unmatchedClose bold) := by
  intro hover bold red tokens p
  have hhover : Tag.ofText hover = .ok none := rfl
  have hbold : Tag.ofText bold = .ok none := rfl
  have hread : Parser.start.readAll tokens = .ok p := rfl
  have hplain : ¬ Tag.HasStrayArgument hover := by
    rw [← isKnown_iff_of_unknown hhover]
    decide
  have hstray : Tag.HasStrayArgument bold := (isKnown_iff_of_unknown hbold).mp (by decide)
  obtain ⟨hkept, hall⟩ := (unknown_tag_closing (by decide) hhover).1 hplain
  obtain ⟨hrejected, hnone⟩ := (unknown_tag_closing (by decide) hbold).2 hstray
  exact ⟨hplain, hstray, hread, hkept tokens p hread, hrejected tokens p hread,
    hall "\\>x".toList (by decide) (by decide), hnone ['x'] (by decide) (by decide)⟩

/-- **A closing tag may be rejected whose opening tag is kept as text.**  The name of a
decoration takes no argument: with one it opens nothing and is text, but its closing tag is
one of a known name. -/
theorem stray_argument_closing_rejected :
    let tag := "bold:1".toList
    isTagText tag = true ∧ Tag.ofText tag = .ok none ∧
      Parser.start.read (.openTag tag) = .ok (Parser.start.write "<bold:1>".toList) ∧
      Parser.start.read (.closeTag tag) = .error (.unmatchedClose tag) ∧
      parse "<bold:1>x</bold:1>".toList = .error (.unmatchedClose tag) ∧
      ¬ ∀ tag, isTagText tag = true → Tag.ofText tag = .ok none →
        ∀ tokens p, Parser.start.readAll tokens = .ok p →
          p.read (.closeTag tag) = .ok (p.write (Token.closeTag tag).source) := by
  intro tag
  have hread : Parser.start.read (.closeTag tag) = .error (.unmatchedClose tag) := rfl
  refine ⟨by decide, rfl, rfl, hread, by decide +kernel, fun h => ?_⟩
  have hkept := h tag (by decide) rfl [] Parser.start rfl
  rw [hread] at hkept
  exact absurd hkept (by simp)

end ChatTint
