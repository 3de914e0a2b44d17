import ChatTint.Proofs.Legacy.Rendering

/-!
# The items of a text

How the items of a text are found from its beginning, and of which texts they are
plain characters: a text without codes stays one in front of another text, unless
the other goes on with what the first one left unfinished.  It may leave the mark
of a hex code, or a section sign.

## Main definitions

* `Item.text` — the text of an item, as it is written.
* `Separate` — a text that goes on with nothing that a text without codes leaves
  unfinished.
* `itemCells` — the characters among items, each with the look that the items
  before it have brought about.

## Main results

* `items_append` — the items of two texts, one after the other.
* `items_marks` — written codes are read back.
* `items_plain` — a text without codes is its characters, in front of a separate
  text.
-/

namespace ChatTint

/-! ### The first item -/

theorem items_nil : items [] = [] := by rw [items]

theorem items_hex {s rest : List Char} {color : Rgb} (h : HexCode.read? s = some (color, rest)) :
    items s = .hex color :: items rest := by
  cases s with
  | nil => exact absurd h.symm (Option.some_ne_none _)
  | cons c s =>
    rw [items]
    split
    · next color' rest' h' =>
      rw [h, Option.some.injEq, Prod.mk.injEq] at h'
      rw [h'.1, h'.2]
    · next h' =>
      rw [h] at h'
      exact absurd h' (Option.some_ne_none _)

theorem items_code {d : Char} (hd : isCodeChar d = true) (s : List Char) :
    items (sectionSign :: d :: s) = .code (.ofSymbol d) :: items s := by
  rw [items]
  split
  · next h =>
    rw [HexCode.read?_code hd] at h
    exact absurd h.symm (Option.some_ne_none _)
  · exact if_pos ⟨rfl, hd⟩

theorem items_char {c : Char} {s : List Char} (hread : HexCode.read? (c :: s) = none)
    (hcode : c = sectionSign → ∀ d ∈ s.head?, isCodeChar d = false) :
    items (c :: s) = .char c :: items s := by
  rw [items]
  split
  · next h =>
    rw [hread] at h
    exact absurd h.symm (Option.some_ne_none _)
  · cases s with
    | nil => rw [items_nil]
    | cons d s =>
      simp only
      rw [if_neg]
      rintro ⟨hc, hd⟩
      rw [hcode hc d rfl] at hd
      exact absurd hd Bool.false_ne_true

theorem items_singleton (c : Char) : items [c] = [.char c] := by
  rw [items_char rfl, items_nil]
  intro _ d hd
  exact absurd hd (by simp)

/-! ### Text in front of text -/

/-- **The items of two texts, one after the other, are those of both**, if no hex code begins
in the first text and ends in the second, and the second begins with no character that
makes a legacy code. -/
theorem items_append {s t : List Char}
    (hhex : ∀ u, u <:+ s → u ≠ [] → HexCode.read? u = none → HexCode.read? (u ++ t) = none)
    (hhead : ∀ d ∈ t.head?, isCodeChar d = false) : items (s ++ t) = items s ++ items t := by
  fun_induction items s with
  | case1 => rfl
  | case2 c s color rest hread ih =>
    have hrest : rest <:+ c :: s := by
      obtain ⟨m, -, hs⟩ := HexCode.read?_eq_some_iff.mp hread
      exact ⟨m, hs.symm⟩
    rw [items_hex (HexCode.read?_append hread t), ih fun u hu => hhex u (hu.trans hrest)]
    rfl
  | case3 c hread =>
    have hnone : HexCode.read? (c :: t) = none :=
      hhex [c] List.suffix_rfl (List.cons_ne_nil c []) hread
    rw [List.singleton_append, items_char hnone fun _ => hhead]
    rfl
  | case4 c d rest hread hcode ih =>
    obtain ⟨rfl, hd⟩ := hcode
    have hrest : rest <:+ sectionSign :: d :: rest := ⟨[sectionSign, d], rfl⟩
    rw [List.cons_append, List.cons_append, items_code hd,
      ih fun u hu => hhex u (hu.trans hrest)]
    rfl
  | case5 c d rest hread hcode ih =>
    have hnone : HexCode.read? (c :: (d :: rest ++ t)) = none :=
      hhex (c :: d :: rest) List.suffix_rfl (List.cons_ne_nil c _) hread
    rw [List.cons_append, items_char hnone,
      ih fun u hu => hhex u (hu.trans (List.suffix_cons c _))]
    · rfl
    · intro hc e he
      rw [← Option.some.inj he]
      exact Bool.eq_false_iff.mpr fun hd => hcode ⟨hc, hd⟩

/-! ### Written codes -/

/-- The text of an item, as it is written. -/
def Item.text : Item → List Char
  | hex c => HexCode.ofRgb c
  | code k => k.text
  | char c => [c]

/-- A hex code or a legacy code, and no character. -/
def Item.IsMark (item : Item) : Prop := item.char? = none

/-- Written codes are read back, whatever stands behind them. -/
theorem items_marks {marks : List Item} (h : ∀ item ∈ marks, item.IsMark) (s : List Char) :
    items (marks.flatMap Item.text ++ s) = marks ++ items s := by
  induction marks with
  | nil => rfl
  | cons item marks ih =>
    have hrest := ih fun i hi => h i (List.mem_cons_of_mem item hi)
    rw [List.flatMap_cons, List.append_assoc, List.cons_append, ← hrest]
    cases item with
    | hex c => exact items_hex (HexCode.read?_ofRgb c _)
    | code k =>
      have hcode := items_code (isCodeChar_symbol k) (marks.flatMap Item.text ++ s)
      rw [Code.ofSymbol_symbol] at hcode
      exact hcode
    | char c => exact absurd (h _ List.mem_cons_self) (Option.some_ne_none c)

/-! ### Text without codes -/

/-- A text that begins with a section sign, if with anything, and not with two digits
behind section signs. -/
structure Separate (s : List Char) : Prop where
  head : ∀ c ∈ s.head?, c = sectionSign
  digits : HexCode.readDigits? 2 s = none

theorem separate_nil : Separate [] where
  head := fun c hc => absurd hc (by simp)
  digits := rfl

theorem not_isHexDigit_sectionSign : isHexDigit sectionSign = false := by decide

/-- No hex code begins in a text without codes and ends in a separate text. -/
theorem read?_plain {c : Char} {text s : List Char} (hcode : hasCode (c :: text) = false)
    (hs : Separate s) : HexCode.read? (c :: (text ++ s)) = none := by
  cases hread : HexCode.read? (c :: (text ++ s)) with
  | none => rfl
  | some p =>
    obtain ⟨x, ds, hx, hlength, hdigits, heq⟩ := HexCode.read?_eq_some hread
    obtain ⟨d, e, ds, rfl⟩ : ∃ d e ds', ds = d :: e :: ds' := by
      match ds, hlength with
      | d :: e :: ds', _ => exact ⟨d, e, ds', rfl⟩
    obtain ⟨hc, heq⟩ := List.cons.inj heq
    exfalso
    -- how much of the hex code is in the text: its first, its first two or three
    -- characters, or a digit too
    match text, heq with
    | [], heq =>
      have hhead : x = sectionSign := hs.head x (by rw [← List.nil_append s, heq]; rfl)
      rcases hx with rfl | rfl
      · exact absurd hhead (by decide)
      · exact absurd hhead (by decide)
    | [_], heq =>
      have htail : s = HexCode.spaced [d, e] ++ (HexCode.spaced ds ++ p.2) :=
        (List.cons.inj heq).2
      have hread2 := HexCode.readDigits?_spaced [d, e] (fun a ha => hdigits a (by
        rcases List.mem_cons.mp ha with rfl | ha
        · exact List.mem_cons_self
        · rw [List.mem_singleton.mp ha]
          exact List.mem_cons_of_mem _ List.mem_cons_self)) (HexCode.spaced ds ++ p.2)
      rw [← htail] at hread2
      exact absurd (hs.digits.symm.trans hread2).symm (Option.some_ne_none _)
    | [_, _], heq =>
      have htail : s = d :: (HexCode.spaced (e :: ds) ++ p.2) :=
        (List.cons.inj (List.cons.inj heq).2).2
      have hhead : d = sectionSign := hs.head d (by rw [htail]; rfl)
      have hd := hdigits d List.mem_cons_self
      rw [hhead, not_isHexDigit_sectionSign] at hd
      exact absurd hd Bool.false_ne_true
    | _ :: y :: d' :: text, heq =>
      obtain ⟨hy, heq⟩ := List.cons.inj (List.cons.inj heq).2
      have hd' : d' = d := (List.cons.inj heq).1
      have htail := (hasCode_cons_eq_false (hasCode_cons_eq_false hcode).2).2
      have hnot := (hasCode_cons_eq_false htail).1 hy d' rfl
      rw [hd', isCodeChar_of_isHexDigit (hdigits d List.mem_cons_self)] at hnot
      exact absurd hnot.symm Bool.false_ne_true

/-- A text without codes is its characters. -/
theorem items_of_not_hasCode {text : List Char} (hcode : hasCode text = false) :
    items text = text.map Item.char := by
  induction text with
  | nil => exact items_nil
  | cons c text ih =>
    obtain ⟨hc, htext⟩ := hasCode_cons_eq_false hcode
    rw [items_char (read?_of_not_hasCode hcode) hc, ih htext]
    rfl

/-- **A text without codes in front of a separate text is its characters.** -/
theorem items_plain {text s : List Char} (hcode : hasCode text = false) (hs : Separate s) :
    items (text ++ s) = text.map Item.char ++ items s := by
  rw [items_append, items_of_not_hasCode hcode]
  · intro u hu hne _
    cases u with
    | nil => exact absurd rfl hne
    | cons c u => exact read?_plain (hasCode_of_isSuffix hu hcode) hs
  · -- a section sign at the end of the text meets another one
    intro d hd
    rw [hs.head d hd]
    exact not_isCodeChar_sectionSign

/-! ### The look of characters -/

section Look

variable {α : Type} (step : α → Item → α)

/-- The characters among some items, each with the look that the items before it have
made of a first one. -/
def itemCells (look : α) : List Item → List (Cell α)
  | [] => []
  | item :: rest =>
    match item.char? with
    | some c => (c, look) :: itemCells (step look item) rest
    | none => itemCells (step look item) rest

theorem itemCells_append (look : α) (a b : List Item) :
    itemCells step look (a ++ b) =
      itemCells step look a ++ itemCells step (a.foldl step look) b := by
  induction a generalizing look with
  | nil => rfl
  | cons item a ih => cases item <;> simp [itemCells, Item.char?, ih]

theorem itemCells_marks {marks : List Item} (h : ∀ item ∈ marks, item.IsMark) (look : α) :
    itemCells step look marks = [] := by
  induction marks generalizing look with
  | nil => rfl
  | cons item marks ih =>
    have hitem : item.char? = none := h item List.mem_cons_self
    rw [itemCells, hitem]
    exact ih (fun i hi => h i (List.mem_cons_of_mem item hi)) _

variable (hchar : ∀ (look : α) (c : Char), step look (.char c) = look)
include hchar

theorem foldl_chars (look : α) (text : List Char) :
    (text.map Item.char).foldl step look = look := by
  induction text with
  | nil => rfl
  | cons c text ih => rw [List.map_cons, List.foldl_cons, hchar, ih]

theorem itemCells_chars (look : α) (text : List Char) :
    itemCells step look (text.map Item.char) = cellsOf text look := by
  induction text with
  | nil => rfl
  | cons c text ih =>
    rw [List.map_cons, itemCells, Item.char?, hchar]
    simp only [ih]
    rfl

end Look

end ChatTint
