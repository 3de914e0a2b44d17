import ChatTint.Proofs.Color.Spelling
import ChatTint.Proofs.Markup.Keys

/-!
# Which closing tags fit

What a tag means and what its key is are told by two readings of the tag text, which go by
different tables.  Yet the key of a tag that changes the look of text tells the change, and
whether the tag has an argument; and no other tag text has that key.  So a closing tag fits
an open one if and only if it would open the same in the same form, or is the bare name of
the colour tag where the open one is a colour tag.

## Main definitions

* `Effect.name` — the one spelling of a change.
* `effectOfName?` — what a small name without an argument changes.

## Main results

* `ofText_bare_iff`, `ofText_argument_iff` — the tags that change the look of text.
* `spellName_eq_name_iff`, `spellArgument_eq_name_iff` — the names and arguments of keys.
* `fits_iff` — the closing tags that fit an open one.
* `fits_iff_same_meaning` — a closing tag fits if it has the same meaning and form.
-/

namespace ChatTint

/-! ### The names of changes -/

/-- The one spelling of a change: the full name of a decoration, or the spelling of a
colour. -/
def Effect.name : Effect → List Char
  | .color c => c.name
  | .decoration d => d.name

/-- What a small name without an argument changes. -/
def effectOfName? (name : List Char) : Option Effect :=
  match Decoration.ofName? name with
  | some d => some (.decoration d)
  | none => (Color.ofText? name).map .color

/-- No decoration has a name that begins with a number sign. -/
theorem Decoration.ofName?_of_head? {s : List Char} (h : s.head? = some '#') :
    ofName? s = none := by
  obtain ⟨s, rfl⟩ := List.head?_eq_some_iff.mp h
  rw [ofName?, List.find?_eq_none]
  intro d _
  cases d <;> simp [names, lowercase]

/-- No colour has the name of a decoration. -/
theorem Decoration.ofName?_colorName (c : Color) : ofName? c.name = none := by
  cases c with
  | palette c => cases c <;> decide
  | rgb c => exact ofName?_of_head? rfl

namespace Effect

/-- A change is told by its one spelling. -/
theorem effectOfName?_name (e : Effect) : effectOfName? e.name = some e := by
  unfold effectOfName?
  cases e with
  | color c =>
    rw [name, Decoration.ofName?_colorName]
    simp only [Color.ofText?_name, Option.map_some]
  | decoration d => rw [name, Decoration.ofName?_name]

theorem name_injective {e e' : Effect} (h : e.name = e'.name) : e = e' := by
  have he := effectOfName?_name e
  rw [h, effectOfName?_name] at he
  exact (Option.some.inj he).symm

/-- The colour tag has no name that spells a change. -/
theorem name_ne_color (e : Effect) : e.name ≠ "color".toList := by
  cases e with
  | color c =>
    cases c with
    | palette c => cases c <;> decide
    | rgb c =>
      intro h
      exact absurd (List.cons.inj h).1 (by decide)
  | decoration d => cases d <;> decide

end Effect

/-! ### Tags with an argument, and tags without -/

theorem splitArgument_bare {tag : List Char} (h : ':' ∉ tag) : splitArgument tag = (tag, none) :=
  cutAt_of_notMem h

theorem splitArgument_argument {name : List Char} (h : ':' ∉ name) (argument : List Char) :
    splitArgument (name ++ ':' :: argument) = (name, some argument) := cutAt_append h

/-- The names of the colour tag have no colon. -/
theorem notMem_of_isColorTagName {tag : List Char} (h : isColorTagName (lowercase tag) = true) :
    ':' ∉ tag := by
  intro hmem
  have hlower : ':' ∈ lowercase tag := List.mem_map_of_mem (f := Char.toLower) hmem
  simp only [isColorTagName, Bool.or_eq_true, beq_iff_eq] at h
  rcases h with (h | h) | h
  · exact absurd (h ▸ hlower) (by decide)
  · exact absurd (h ▸ hlower) (by decide)
  · exact absurd (h ▸ hlower) (by decide)

/-- The bare name of the colour tag lacks a colour. -/
theorem ofText_of_isColorTagName {tag : List Char} (h : isColorTagName (lowercase tag) = true) :
    Tag.ofText tag = .error (.invalidColor tag) := by
  simp only [Tag.ofText, splitArgument_bare (notMem_of_isColorTagName h), h, if_true]
  rfl

theorem isColorTagName_of_ofText {tag : List Char} {meaning : Option Tag}
    (h : Tag.ofText tag = .ok meaning) : isColorTagName (lowercase tag) = false := by
  refine Bool.eq_false_iff.mpr fun hname => ?_
  rw [ofText_of_isColorTagName hname] at h
  exact absurd h (by simp)

/-- A small name that is no number sign with digits changes what its table says. -/
theorem ofName?_eq_effect_iff {name : List Char} (hhead : name.head? ≠ some '#') {e : Effect} :
    Tag.ofName? name = some (.effect e) ↔ effectOfName? name = some e := by
  unfold Tag.ofName?
  split
  · next h =>
    rw [h, show effectOfName? "reset".toList = none by decide]
    simp
  · split
    · next h =>
      have hnone : effectOfName? name = none := by
        rcases h with rfl | rfl
        · decide
        · decide
      rw [hnone]
      simp
    · unfold effectOfName?
      rw [Color.ofText?_of_head?_ne hhead]
      cases Decoration.ofName? name with
      | some d => simp
      | none => simp [Option.map_eq_some_iff]

/-- **The bare tags that change the look of text.** -/
theorem ofText_bare_iff {tag : List Char} (h : ':' ∉ tag) {e : Effect} :
    Tag.ofText tag = .ok (some (.effect e)) ↔
      isColorTagName (lowercase tag) = false ∧ effectOfName? (lowercase tag) = some e := by
  cases hname : isColorTagName (lowercase tag) with
  | true =>
    rw [ofText_of_isColorTagName hname]
    exact iff_of_false (by simp) (by simp)
  | false =>
    simp only [Tag.ofText, splitArgument_bare h, hname, Bool.false_eq_true, if_false, true_and]
    by_cases hhead : (lowercase tag).head? = some '#'
    · rw [if_pos hhead]
      simp only [effectOfName?, Decoration.ofName?_of_head? hhead]
      cases Color.ofText? (lowercase tag) with
      | none => simp
      | some c => simp
    · rw [if_neg hhead]
      simp only [Option.isSome_none, Bool.false_eq_true, if_false, Except.ok.injEq]
      exact ofName?_eq_effect_iff hhead

/-- **The tags with an argument that change the look of text.** -/
theorem ofText_argument_iff {name : List Char} (h : ':' ∉ name) {argument : List Char}
    {e : Effect} :
    Tag.ofText (name ++ ':' :: argument) = .ok (some (.effect e)) ↔
      isColorTagName (lowercase name) = true ∧
        ∃ c, Color.ofText? argument = some c ∧ e = .color c := by
  simp only [Tag.ofText, splitArgument_argument h]
  cases hname : isColorTagName (lowercase name) with
  | true =>
    rw [if_pos rfl]
    cases hcolor : Color.ofText? argument with
    | none => simp [hcolor]
    | some c => simp [hcolor, eq_comm]
  | false =>
    simp only [Bool.false_eq_true, if_false, false_and, iff_false]
    split
    · simp
    · simp

/-! ### Keys -/

theorem key_bare {tag : List Char} (h : ':' ∉ tag) :
    Key.ofText tag = ⟨Key.spellName (lowercase tag), none⟩ := by
  rw [Key.ofText, splitArgument_bare h]
  rfl

theorem key_argument {name : List Char} (h : ':' ∉ name) (argument : List Char) :
    Key.ofText (name ++ ':' :: argument) =
      ⟨Key.spellName (lowercase name), some (Key.spellArgument argument)⟩ := by
  rw [Key.ofText, splitArgument_argument h]
  rfl

/-- **A name is spelled like a change if it brings the change about.** -/
theorem spellName_eq_name_iff {name : List Char} {e : Effect} :
    Key.spellName name = e.name ↔ isColorTagName name = false ∧ effectOfName? name = some e := by
  unfold Key.spellName
  split
  · next h =>
    rw [h]
    exact iff_of_false (Ne.symm e.name_ne_color) (by simp)
  · next h =>
    rw [Bool.eq_false_iff.mpr h, eq_self, true_and]
    unfold effectOfName?
    cases hd : Decoration.ofName? name with
    | some d =>
      show (Effect.decoration d).name = e.name ↔ some (Effect.decoration d) = some e
      rw [Option.some.injEq]
      exact ⟨Effect.name_injective, congrArg Effect.name⟩
    | none =>
      unfold colorSpelling?
      cases hc : Color.ofText? name with
      | some c =>
        show (Effect.color c).name = e.name ↔ some (Effect.color c) = some e
        rw [Option.some.injEq]
        exact ⟨Effect.name_injective, congrArg Effect.name⟩
      | none =>
        -- an unknown name spells itself, and a change is told by its spelling
        refine iff_of_false ?_ (by simp)
        intro hself
        obtain rfl : name = e.name := hself
        have he := e.effectOfName?_name
        rw [effectOfName?, hd, hc] at he
        exact absurd he (by simp)

/-- A name is spelled like the colour tag if it is a name of it. -/
theorem spellName_eq_color_iff {name : List Char} :
    Key.spellName name = "color".toList ↔ isColorTagName name = true := by
  cases h : isColorTagName name with
  | true => simp [Key.spellName, h]
  | false =>
    refine iff_of_false ?_ Bool.false_ne_true
    unfold Key.spellName
    rw [if_neg (by simp [h])]
    split
    · next d _ => exact (Effect.decoration d).name_ne_color
    · cases hspelling : colorSpelling? name with
      | some spelling =>
        obtain ⟨c, -, rfl⟩ := Option.map_eq_some_iff.mp hspelling
        exact (Effect.color c).name_ne_color
      | none =>
        rintro (rfl : name = "color".toList)
        exact absurd h (by decide)

/-- **An argument is spelled like a colour if it spells the colour.** -/
theorem spellArgument_eq_name_iff {argument : List Char} {c : Color} :
    Key.spellArgument argument = c.name ↔ Color.ofText? argument = some c := by
  rw [← colorSpelling?_eq_some_iff]
  unfold Key.spellArgument
  cases h : colorSpelling? argument with
  | some spelling => simp
  | none =>
    -- the small form of an argument spells what the argument does
    refine iff_of_false ?_ (by simp)
    intro hlower
    have hcolor : Color.ofText? argument = some c := by
      rw [← Color.ofText?_lowercase]
      exact (congrArg Color.ofText? hlower).trans c.ofText?_name
    rw [colorSpelling?_eq_some_iff.mpr hcolor] at h
    exact absurd h (Option.some_ne_none _)

/-! ### Closing tags -/

theorem fits_eq_true_iff {close opened : Key} :
    close.fits opened = true ↔
      close = opened ∨ close.argument = none ∧ close.name = opened.name := by
  rw [Key.fits, Bool.or_eq_true, Bool.and_eq_true, beq_iff_eq, beq_iff_eq,
    Option.isNone_iff_eq_none, eq_comm (a := opened), eq_comm (a := opened.name)]

/-- **The closing tags that fit an open one.** -/
theorem fits_iff {opening close : List Char} {e : Effect}
    (hopening : Tag.ofText opening = .ok (some (.effect e))) :
    (Key.ofText close).fits (Key.ofText opening) = true ↔
      Tag.ofText close = .ok (some (.effect e)) ∧ (':' ∈ opening ↔ ':' ∈ close) ∨
        ':' ∈ opening ∧ isColorTagName (lowercase close) = true := by
  rw [fits_eq_true_iff]
  by_cases ho : ':' ∈ opening
  · obtain ⟨name, argument, rfl, hname⟩ := List.eq_append_cons_of_mem ho
    obtain ⟨hcolor, c, hc, rfl⟩ := (ofText_argument_iff hname).mp hopening
    rw [key_argument hname, spellName_eq_color_iff.mpr hcolor, spellArgument_eq_name_iff.mpr hc]
    by_cases hclose : ':' ∈ close
    · have hbare : isColorTagName (lowercase close) = false :=
        Bool.eq_false_iff.mpr fun h => notMem_of_isColorTagName h hclose
      obtain ⟨name', argument', rfl, hname'⟩ := List.eq_append_cons_of_mem hclose
      rw [key_argument hname', ofText_argument_iff hname', hbare]
      simp only [Key.mk.injEq, Option.some.injEq, spellName_eq_color_iff,
        spellArgument_eq_name_iff, reduceCtorEq, false_and, or_false, ho, hclose, and_false,
        Bool.false_eq_true, and_true, Effect.color.injEq, exists_eq_right']
    · -- a bare closing tag fits by its name alone
      rw [key_bare hclose]
      simp only [Key.mk.injEq, reduceCtorEq, and_false, true_and, false_or,
        spellName_eq_color_iff, ho, hclose, iff_false, not_true_eq_false]
  · rw [key_bare ho, spellName_eq_name_iff.mpr ((ofText_bare_iff ho).mp hopening)]
    by_cases hclose : ':' ∈ close
    · obtain ⟨name, argument, rfl, hname⟩ := List.eq_append_cons_of_mem hclose
      rw [key_argument hname]
      simp only [Key.mk.injEq, reduceCtorEq, and_false, false_and, ho, hclose, or_false,
        iff_true]
    · rw [key_bare hclose, ofText_bare_iff hclose, ← spellName_eq_name_iff]
      simp only [Key.mk.injEq, and_true, true_and, or_self, ho, hclose, false_and, or_false]

/-- **A closing tag fits if it has the same meaning and the same form.**  Let an opening tag
change the look of text.  A closing tag that would itself bring about a change fits it if and
only if the two changes are the same and both have an argument or neither has.  The bare name
of the colour tag fits if and only if the opening tag has an argument.  Nothing else fits. -/
theorem fits_iff_same_meaning {opening close : List Char} {e : Effect}
    (hopening : Tag.ofText opening = .ok (some (.effect e))) :
    (∀ e', Tag.ofText close = .ok (some (.effect e')) →
      ((Key.ofText close).fits (Key.ofText opening) = true ↔
        e' = e ∧ (':' ∈ opening ↔ ':' ∈ close))) ∧
    (isColorTagName (lowercase close) = true →
      ((Key.ofText close).fits (Key.ofText opening) = true ↔ ':' ∈ opening)) ∧
    ((∀ e', Tag.ofText close ≠ .ok (some (.effect e'))) →
      isColorTagName (lowercase close) = false →
      (Key.ofText close).fits (Key.ofText opening) = false) := by
  refine ⟨fun e' hclose => ?_, fun hname => ?_, fun hnone hname => ?_⟩
  · rw [fits_iff hopening, hclose, isColorTagName_of_ofText hclose]
    simp only [Bool.false_eq_true, and_false, or_false, Except.ok.injEq, Option.some.injEq,
      Tag.effect.injEq]
  · rw [fits_iff hopening, ofText_of_isColorTagName hname]
    simp only [hname, and_true, reduceCtorEq, false_and, false_or]
  · rw [Bool.eq_false_iff, ne_eq, fits_iff hopening, hname]
    simp only [hnone e, false_and, Bool.false_eq_true, and_false, or_self, not_false_eq_true]

theorem fits_iff_same_meaning_short_digits :
    let opening := "c:#F80".toList
    Tag.ofText opening = .ok (some (.effect (.color (.rgb ⟨255, 136, 0⟩)))) ∧
      (Key.ofText "cOLOUR:#fF8800".toList).fits (Key.ofText opening) = true ∧
      (Key.ofText "#f80".toList).fits (Key.ofText opening) = false ∧
      (Key.ofText "C".toList).fits (Key.ofText opening) = true ∧
      (Key.ofText "c:#f8".toList).fits (Key.ofText opening) = false := by
  intro opening
  have hopening : Tag.ofText opening = .ok (some (.effect (.color (.rgb ⟨255, 136, 0⟩)))) := rfl
  have hlong : Tag.ofText "cOLOUR:#fF8800".toList =
      .ok (some (.effect (.color (.rgb ⟨255, 136, 0⟩)))) := rfl
  have hbare : Tag.ofText "#f80".toList = .ok (some (.effect (.color (.rgb ⟨255, 136, 0⟩)))) :=
    rfl
  have hbad : Tag.ofText "c:#f8".toList = .error (.invalidColor "c:#f8".toList) := rfl
  refine ⟨hopening, ?_, ?_, ?_, ?_⟩
  · exact ((fits_iff_same_meaning hopening).1 _ hlong).mpr ⟨rfl, by decide⟩
  · rw [Bool.eq_false_iff, ne_eq, (fits_iff_same_meaning hopening).1 _ hbare]
    decide
  · exact ((fits_iff_same_meaning hopening).2.1 (by decide)).mpr (by decide)
  · refine (fits_iff_same_meaning hopening).2.2 (fun e' h => ?_) (by decide)
    rw [hbad] at h
    exact absurd h (by simp)

end ChatTint
