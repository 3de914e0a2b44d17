import ChatTint.Proofs.Compile.Palette
import ChatTint.Proofs.Compile.Visible

/-!
# Two ranges of colours

A text may be compiled for all colours or for the palette only.  The two results differ
in nothing but the way in which colours outside the palette are written: as hex codes,
or as the codes of the nearest palette colours.  Without such a colour they are the
same.  With one they show the same characters, unless a span holds the mark of a hex
code, which might be completed by the codes behind it in the one range and not in the
other.

## Main definitions

* `dropCodes` — a text without its legacy codes.

## Main results

* `compile_depth_of_palette` — without colours outside the palette the results agree.
* `items_append_of_markFree` — a text in which no hex code begins, in front of a section
  sign.
* `visible_spansToCodes` — what is seen of spans written in either range.
* `depth_changes_colors_only` — what the range of colours can change.
-/

namespace ChatTint

/-! ### Colours of the palette -/

/-- No span has a colour outside the palette. -/
def Document.InPalette (doc : Document) : Prop :=
  ∀ span ∈ doc.spans, ∀ c, span.style.color ≠ some (.rgb c)

theorem toCodes_of_palette {s : Style} (h : ∀ c, s.color ≠ some (.rgb c)) (depth : Depth) :
    s.toCodes depth = s.toCodes .palette := by
  unfold Style.toCodes
  cases hcolor : s.color with
  | none => rfl
  | some color =>
    cases color with
    | palette c => rfl
    | rgb c => exact absurd hcolor (h c)

theorem spansToCodes_of_palette {spans : List Span}
    (h : ∀ span ∈ spans, ∀ c, span.style.color ≠ some (.rgb c)) (depth : Depth)
    (current : Style) : spansToCodes depth current spans = spansToCodes .palette current spans := by
  induction spans generalizing current with
  | nil => rfl
  | cons span spans ih =>
    have hspan := toCodes_of_palette (h span List.mem_cons_self) depth
    have hrest := ih (fun s hs => h s (List.mem_cons_of_mem span hs)) span.style
    rw [spansToCodes, spansToCodes, switchStyle, switchStyle, hspan, hrest]

/-- **Without colours outside the palette the results agree.** -/
theorem compile_depth_of_palette {text : List Char}
    (h : ∀ doc, parse text = .ok doc → doc.InPalette) (depth : Depth) (maxPasses : Nat) :
    compile depth maxPasses text = compile .palette maxPasses text := by
  cases hparse : parse text with
  | ok doc =>
    have hcodes : doc.toCodes depth = doc.toCodes .palette :=
      spansToCodes_of_palette (h doc hparse) depth .plain
    rw [compile_of_parse hparse, compile_of_parse hparse, hcodes]
  | error e =>
    -- a text that is no markup is rendered as it is
    rcases Nat.lt_or_ge maxPasses 2 with hmax | hmax
    · have honce : maxPasses ≤ 1 := by omega
      rw [compile_of_rejected_once hparse depth honce,
        compile_of_rejected_once hparse .palette honce]
    · rw [compile_of_rejected_twice hparse depth hmax,
        compile_of_rejected_twice hparse .palette hmax]

/-! ### Texts in which no hex code begins -/

/-- A text without its legacy codes. -/
def dropCodes : List Char → List Char
  | [] => []
  | [c] => [c]
  | c :: d :: s => if c = sectionSign ∧ isCodeChar d then dropCodes s else c :: dropCodes (d :: s)

/-- No hex code begins without a mark. -/
theorem read?_of_noMark {c d : Char} (h : c = sectionSign → d ≠ 'x' ∧ d ≠ 'X') (s : List Char) :
    HexCode.read? (c :: d :: s) = none := by
  rw [HexCode.read?, if_neg]
  rintro ⟨hc, hx | hx⟩
  · exact (h hc).1 hx
  · exact (h hc).2 hx

/-- A character is an item if it begins neither a hex code nor a legacy code with the next
one. -/
theorem items_of_noMark {c d : Char} (hmark : c = sectionSign → d ≠ 'x' ∧ d ≠ 'X')
    (hcode : ¬ (c = sectionSign ∧ isCodeChar d = true)) (s : List Char) :
    items (c :: d :: s) = .char c :: items (d :: s) := by
  apply items_char (read?_of_noMark hmark s)
  intro hc e he
  obtain rfl := Option.some.inj he
  exact Bool.eq_false_iff.mpr fun hd => hcode ⟨hc, hd⟩

/-- What is seen of a text in which no hex code begins is all but its legacy codes. -/
theorem visible_items_of_markFree {s : List Char} (h : MarkFree s) :
    visible (items s) = dropCodes s := by
  fun_induction dropCodes s with
  | case1 =>
    rw [items_nil]
    rfl
  | case2 c =>
    rw [items_singleton]
    rfl
  | case3 c d s hcode ih =>
    obtain ⟨rfl, hd⟩ := hcode
    rw [items_code hd, ← ih h.tail.tail]
    rfl
  | case4 c d s hcode ih =>
    obtain ⟨hmark, hrest⟩ := List.isChain_cons_cons.mp h
    rw [items_of_noMark hmark hcode, ← ih hrest]
    rfl

/-- **A text in which no hex code begins in front of a section sign** keeps its items: what
it leaves unfinished is not gone on with. -/
theorem items_append_of_markFree {s t : List Char} (hs : MarkFree s)
    (ht : ∀ c ∈ t.head?, c = sectionSign) : items (s ++ t) = items s ++ items t := by
  apply items_append
  · intro u hu hne _
    have hfree : MarkFree u := hs.suffix hu
    match u, hne with
    | [c], _ =>
      cases t with
      | nil => rfl
      | cons d t =>
        -- a section sign is no mark behind another one
        obtain rfl := ht d rfl
        exact read?_of_noMark (fun _ => by decide) t
    | c :: d :: u, _ => exact read?_of_noMark (List.isChain_cons_cons.mp hfree).1 (u ++ t)
  · intro d hd
    rw [ht d hd]
    exact not_isCodeChar_sectionSign

/-! ### What is seen -/

theorem visible_append (a b : List Item) : visible (a ++ b) = visible a ++ visible b :=
  List.filterMap_append

/-- Codes show nothing. -/
theorem visible_marks {marks : List Item} (h : ∀ item ∈ marks, item.IsMark) :
    visible marks = [] := List.filterMap_eq_nil_iff.mpr h

/-- **What is seen of spans in which no hex code begins**, written in either range, is their
text without its legacy codes. -/
theorem visible_spansToCodes (depth : Depth) {spans : List Span} (current : Style)
    (hfree : ∀ span ∈ spans, MarkFree span.text)
    (hstyles : (spans.map Span.style).IsChain (· ≠ ·)) :
    visible (items (spansToCodes depth current spans)) =
      spans.flatMap fun span => dropCodes span.text := by
  induction spans generalizing current with
  | nil =>
    rw [spansToCodes, items_nil]
    rfl
  | cons span spans ih =>
    have hspan := hfree span List.mem_cons_self
    have hrest := ih span.style (fun s hs => hfree s (List.mem_cons_of_mem span hs)) hstyles.tail
    have hmarks := isMark_switchItems depth current span.style
    rw [spansToCodes, List.append_assoc, ← text_switchItems, items_marks hmarks,
      items_append_of_markFree hspan (head?_spansToCodes depth hstyles), visible_append,
      visible_append, visible_marks hmarks, visible_items_of_markFree hspan, hrest,
      List.flatMap_cons]
    rfl

/-- Stripped of its sequences, compiled text is what is seen of the text that was
rendered. -/
theorem stripEscapes_output (depth : Depth) (maxPasses : Nat) {text : List Char}
    (hescape : escapeChar ∉ text) (hcontrol : controlIntroducer ∉ text) :
    stripEscapes (compile depth maxPasses text).output =
      visible (items (lower depth text).text) := by
  have hcontrol' : Item.char controlIntroducer ∉ sentItems depth maxPasses text :=
    char_notMem_sentItems depth maxPasses hcontrol (by decide) (by decide)
  rw [output_eq_sentItems,
    stripEscapes_items (escapeChar_notMem_sentItems depth maxPasses hescape) hcontrol',
    visible_sentItems]

/-! ### The result -/

/-- **The range of colours changes colours only.**  For a text that is no markup, or has no
colour outside the palette, it changes nothing.  For a text that holds no character that
starts a sequence, and no mark of a hex code in a span, it does not change what is left
when the sequences are taken out: of markup, the text of the spans without its legacy
codes. -/
theorem depth_changes_colors_only (maxPasses : Nat) (text : List Char) :
    ((∀ doc, parse text = .ok doc → doc.InPalette) →
      compile .full maxPasses text = compile .palette maxPasses text) ∧
    (escapeChar ∉ text → controlIntroducer ∉ text →
      (∀ doc, parse text = .ok doc → ∀ span ∈ doc.spans, MarkFree span.text) →
      stripEscapes (compile .full maxPasses text).output =
        stripEscapes (compile .palette maxPasses text).output ∧
      ∀ doc, parse text = .ok doc → ∀ depth,
        stripEscapes (compile depth maxPasses text).output =
          doc.spans.flatMap fun span => dropCodes span.text) := by
  constructor
  · intro h
    exact compile_depth_of_palette h .full maxPasses
  · intro hescape hcontrol hfree
    have hseen : ∀ doc, parse text = .ok doc → ∀ depth,
        stripEscapes (compile depth maxPasses text).output =
          doc.spans.flatMap fun span => dropCodes span.text := by
      intro doc hparse depth
      have hstyles := (List.isChain_map Span.style).mpr (isMerged_of_parse hparse).style_ne
      rw [stripEscapes_output depth maxPasses hescape hcontrol, lower_of_parse hparse]
      exact visible_spansToCodes depth .plain (hfree doc hparse) hstyles
    refine ⟨?_, hseen⟩
    cases hparse : parse text with
    | ok doc => rw [hseen doc hparse .full, hseen doc hparse .palette]
    | error e =>
      have hsame : compile .full maxPasses text = compile .palette maxPasses text := by
        apply compile_depth_of_palette
        intro doc hdoc
        rw [hparse] at hdoc
        exact absurd hdoc (by simp)
      rw [hsame]

theorem depth_changes_colors_only_split_marks :
    let text := "§<b>x§1</b><#0a64FF>§c§§<i>1</i></#0a64ff>y§".toList
    let doc : Document := ⟨[⟨"§".toList, {}⟩,
      ⟨"x§1".toList, { decorations := { bold := true } }⟩,
      ⟨"§c§§".toList, { color := some (.rgb ⟨10, 100, 255⟩) }⟩,
      ⟨"1".toList, { color := some (.rgb ⟨10, 100, 255⟩), decorations := { italic := true } }⟩,
      ⟨"y§".toList, {}⟩]⟩
    (escapeChar ∉ text ∧ controlIntroducer ∉ text ∧ parse text = .ok doc ∧
      (∀ span ∈ doc.spans, MarkFree span.text) ∧
      (compile .full 8 text).output ≠ (compile .palette 8 text).output ∧
      stripEscapes (compile .full 8 text).output =
        stripEscapes (compile .palette 8 text).output ∧
      stripEscapes (compile .full 8 text).output = "§x§§1y§".toList) ∧
    parse "§x<red>§1§2§3§4§5".toList = .ok ⟨[⟨"§x".toList, {}⟩,
      ⟨"§1§2§3§4§5".toList, { color := some (.palette .red) }⟩]⟩ ∧
    compile .full 3 "§x<red>§1§2§3§4§5".toList = compile .palette 3 "§x<red>§1§2§3§4§5".toList := by
  intro text doc
  have hescape : escapeChar ∉ text := by decide +kernel
  have hcontrol : controlIntroducer ∉ text := by decide +kernel
  have hparse : parse text = .ok doc := by decide +kernel
  have hfree : ∀ span ∈ doc.spans, MarkFree span.text := by decide +kernel
  obtain ⟨hsame, hseen⟩ := (depth_changes_colors_only 8 text).2 hescape hcontrol (by
    intro doc' hdoc
    rw [← Except.ok.inj (hparse.symm.trans hdoc)]
    exact hfree)
  have hred : parse "§x<red>§1§2§3§4§5".toList = .ok ⟨[⟨"§x".toList, {}⟩,
      ⟨"§1§2§3§4§5".toList, { color := some (.palette .red) }⟩]⟩ := by decide +kernel
  refine ⟨⟨hescape, hcontrol, hparse, hfree, by decide +kernel, hsame, ?_⟩, hred, ?_⟩
  · exact (hseen doc hparse .full).trans (by decide +kernel)
  · apply (depth_changes_colors_only 3 _).1
    intro doc' hdoc span hspan c
    rw [← Except.ok.inj (hred.symm.trans hdoc)] at hspan
    rcases List.mem_cons.mp hspan with rfl | hspan
    · simp
    · rw [List.mem_singleton.mp hspan]
      simp

end ChatTint
