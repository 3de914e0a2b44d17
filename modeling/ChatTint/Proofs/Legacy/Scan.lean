import ChatTint.Proofs.Legacy.Items

/-!
# Rendering in one scan

The two steps of rendering come to the same as one scan from the left, which at each place
takes a hex code if one stands there, or else a legacy code, or else one character.  So
what a text becomes can be told place by place.  A hex code in the middle of a text is one
of these places, whatever the text in front of it leaves unfinished: that text may end in
a section sign, in a mark or in some digits, but a hex code goes on with none of them, as
its section sign is neither a mark nor a digit and its own mark is no digit.

## Main definitions

* `codeChars` — the characters that make a legacy code.
* `renderAtOnce` — rendering in one scan.

## Main results

* `isCodeChar_iff_ofSymbol` — the characters that make a code are those with one, and `r`.
* `render_single_scan` — the two steps of rendering are one scan.
* `items_append_hexCode` — a hex code between two texts is an item of its own.
* `render_append_hexCode` — a hex code is rendered alike between any two texts.
-/

namespace ChatTint

/-! ### Characters that make a code -/

/-- The characters that make a legacy code behind a section sign. -/
def codeChars : List Char := "0123456789abcdefABCDEFklmnoKLMNOrR".toList

/-- A character that makes a code is one of ASCII. -/
theorem toNat_lt_of_isCodeChar {c : Char} (h : isCodeChar c = true) : c.toNat < 128 := by
  apply toNat_lt_of_toLower
  unfold isCodeChar at h
  simp only [Bool.or_eq_true, Bool.and_eq_true, decide_eq_true_eq, beq_iff_eq, Char.le_def,
    UInt32.le_iff_toNat_le] at h
  have hval : c.toLower.toNat = c.toLower.val.toNat := rfl
  have h9 : '9'.val.toNat = 57 := rfl
  have hf : 'f'.val.toNat = 102 := rfl
  have ho : 'o'.val.toNat = 111 := rfl
  rcases h with ((h | h) | h) | h
  · omega
  · omega
  · omega
  · rw [h]
    decide

theorem isCodeChar_iff_mem {c : Char} : isCodeChar c = true ↔ c ∈ codeChars := by
  constructor
  · apply mem_of_ascii
    · intro d hd
      exact toNat_lt_of_isCodeChar hd
    · decide +kernel
  · have hall : codeChars.all isCodeChar = true := by decide +kernel
    exact List.all_eq_true.mp hall c

namespace Code

/-- A character has the code whose own character it is in either case, or the reset. -/
theorem ofSymbol_cases (c : Char) :
    (ofSymbol c ∈ all ∧ (ofSymbol c).symbol = c.toLower) ∨
      ofSymbol c = reset ∧ ∀ code ∈ all, code.symbol ≠ c.toLower := by
  unfold ofSymbol
  cases h : all.find? fun code => code.symbol == c.toLower with
  | some code =>
    have hsymbol := List.find?_some h
    exact Or.inl ⟨List.mem_of_find?_eq_some h, beq_iff_eq.mp hsymbol⟩
  | none =>
    refine Or.inr ⟨rfl, fun code hcode hsymbol => ?_⟩
    exact List.find?_eq_none.mp h code hcode (beq_iff_eq.mpr hsymbol)

end Code

theorem isCodeChar_toLower (c : Char) : isCodeChar c.toLower = isCodeChar c := by
  unfold isCodeChar
  rw [toLower_toLower]

/-- **The characters that make a code** are those that have a code of their own in either
case, and the two that stand for the reset. -/
theorem isCodeChar_iff_ofSymbol {c : Char} : isCodeChar c = true ↔
    (Code.ofSymbol c ∈ Code.all ∧ (Code.ofSymbol c).symbol = c.toLower) ∨ c = 'r' ∨ c = 'R' := by
  constructor
  · intro h
    have hall : codeChars.all fun d =>
        (Code.ofSymbol d ∈ Code.all ∧ (Code.ofSymbol d).symbol = d.toLower) ∨
          d = 'r' ∨ d = 'R' := by
      decide +kernel
    exact of_decide_eq_true (List.all_eq_true.mp hall c (isCodeChar_iff_mem.mp h))
  · rintro (⟨-, hsymbol⟩ | rfl | rfl)
    · rw [← isCodeChar_toLower, ← hsymbol]
      exact isCodeChar_symbol _
    · decide
    · decide

/-- Of the characters whose code is the reset, only the two of that code make one. -/
theorem isCodeChar_iff_ne_reset {c : Char} :
    isCodeChar c = true ↔ Code.ofSymbol c ≠ .reset ∨ c = 'r' ∨ c = 'R' := by
  have hreset : Code.reset ∉ Code.all := by decide
  rw [isCodeChar_iff_ofSymbol]
  refine or_congr_left ?_
  constructor
  · rintro ⟨hmem, -⟩ hc
    rw [hc] at hmem
    exact hreset hmem
  · intro hc
    rcases Code.ofSymbol_cases c with hown | ⟨hnone, -⟩
    · exact hown
    · exact absurd hnone hc

/-! ### One scan -/

/-- The text with its codes replaced in one scan.  At each place a hex code becomes the
sequence of its colour, or else a legacy code that of its rendition, or else one character
is copied. -/
def renderAtOnce : List Char → List Char
  | [] => []
  | c :: s =>
    match HexCode.toRgb? ((c :: s).take HexCode.size) with
    | some color =>
      (Rendition.trueColor color).escape ++ renderAtOnce (s.drop (HexCode.size - 1))
    | none =>
      match s with
      | [] => [c]
      | d :: rest =>
        if c = sectionSign ∧ isCodeChar d then
          (Code.ofSymbol d).rendition.escape ++ renderAtOnce rest
        else c :: renderAtOnce (d :: rest)
termination_by s => s.length
decreasing_by
  · simp only [List.length_drop, List.length_cons]
    omega
  · simp only [List.length_cons]
    omega
  · simp

/-- The scan sends what each item of the text asks for. -/
theorem renderAtOnce_eq_items (s : List Char) :
    renderAtOnce s = (items s).flatMap Item.escape := by
  fun_induction renderAtOnce s with
  | case1 =>
    rw [items_nil]
    rfl
  | case2 c s color h ih =>
    -- the first character is gone already, and with thirteen more all of the hex code
    have hread : HexCode.read? (c :: s) = some (color, s.drop (HexCode.size - 1)) :=
      HexCode.read?_eq_some_iff_take.mpr ⟨h, rfl⟩
    rw [ih, items_hex hread]
    rfl
  | case3 c h =>
    rw [items_singleton]
    rfl
  | case4 c d rest hcode h ih =>
    obtain ⟨rfl, hd⟩ := hcode
    rw [ih, items_code hd]
    rfl
  | case5 c d rest hcode h ih =>
    rw [ih, items_char (HexCode.read?_of_take h)]
    · rfl
    · intro hc e he
      rw [← Option.some.inj he]
      exact Bool.eq_false_iff.mpr fun hd => hcode ⟨hc, hd⟩

/-- **Rendering is one scan.**  The scan takes a hex code where the next characters are one,
that is, a mark of either case and six digits, each behind a section sign.  It takes a legacy
code where a section sign stands before one of the characters that make one; of these, all
but the two of the reset have a code of their own. -/
theorem render_single_scan :
    (∀ s, render s = renderAtOnce s) ∧
    (∀ m color, HexCode.toRgb? m = some color ↔ HexCode.Spells m color) ∧
    ∀ c, (isCodeChar c = true ↔ c ∈ codeChars) ∧
      (isCodeChar c = true ↔ Code.ofSymbol c ≠ .reset ∨ c = 'r' ∨ c = 'R') ∧
      (isCodeChar c = true ↔
        (Code.ofSymbol c ∈ Code.all ∧ (Code.ofSymbol c).symbol = c.toLower) ∨
          c = 'r' ∨ c = 'R') := by
  refine ⟨fun s => ?_, fun m color => HexCode.toRgb?_eq_some_iff, fun c => ?_⟩
  · rw [render_eq_items, renderAtOnce_eq_items]
  · exact ⟨isCodeChar_iff_mem, isCodeChar_iff_ne_reset, isCodeChar_iff_ofSymbol⟩

/-- The digits of a hex code that is cut short are legacy codes, and so is nothing else. -/
example : renderAtOnce "§x§1§2§X§0§A§1§b§2§C§3§§r§z".toList =
    "§x\x1b[34m\x1b[32m\x1b[38;2;10;27;44m\x1b[36m§\x1b[0m§z".toList := by decide +kernel

/-! ### A hex code between two texts -/

/-- **A hex code between two texts is an item of its own**, whatever the first text leaves
unfinished. -/
theorem items_append_hexCode (a : List Char) (color : Rgb) (b : List Char) :
    items (a ++ HexCode.ofRgb color ++ b) = items a ++ .hex color :: items b := by
  have hhex := items_hex (HexCode.read?_ofRgb color b)
  rw [List.append_assoc, items_append, hhex]
  · -- the hex code begins with a section sign before a mark, which is no digit
    intro u _ hne hread
    exact HexCode.read?_append_mark (by decide) hne hread
  · intro d hd
    rw [← Option.some.inj hd]
    exact not_isCodeChar_sectionSign

/-- **A hex code is rendered alike between any two texts.** -/
theorem render_append_hexCode (a : List Char) (color : Rgb) (b : List Char) :
    render (a ++ HexCode.ofRgb color ++ b) =
      render a ++ (Rendition.trueColor color).escape ++ render b := by
  simp only [render_eq_items]
  rw [items_append_hexCode, List.flatMap_append, List.flatMap_cons, List.append_assoc]
  rfl

/-- The text in front lacks one digit of a hex code, and one stands behind. -/
example : render ("§x§1§2§3§4§5".toList ++ HexCode.ofRgb ⟨1, 2, 255⟩ ++ "§6".toList) =
    render "§x§1§2§3§4§5".toList ++ "\x1b[38;2;1;2;255m".toList ++ render "§6".toList := by
  decide +kernel

end ChatTint
