import ChatTint.Proofs.Markup.Pieces

/-!
# Printing and parsing trees of markup

Well-nested markup is a list of nodes: texts, line breaks, and elements, which stand
between a tag that opens and one that closes it.  A tree is printed with a backslash
before every opening bracket of its texts.  Reading it back finds the same tree, if
no text ends in a backslash in front of a tag, which it would make plain text: the
parser reads one mark after another, and behind a node the same tags are open as in
front of it.

## Main definitions

* `TagText`, `LineBreak`, `TagPair`, `Node` — tags that do what a tree needs, and trees.
* `Mark`, `Node.marks`, `printAll` — a tree as characters and tags, and its text.
* `inheritedStyle`, `Node.cells` — what a tree means.
* `TagsUnescaped` — no character of a text is a backslash in front of a tag.

## Main results

* `pieces_marks` — the marks of a text are read back.
* `Parser.readAll_marks` — reading a node writes its cells and leaves the open tags alone.
* `parse_print` — parsing undoes printing.
-/

namespace ChatTint

/-! ### Trees -/

/-- A text that can stand in a tag. -/
structure TagText where
  text : List Char
  valid : isTagText text = true := by decide +kernel

/-- A tag that ends the line. -/
structure LineBreak where
  tag : TagText
  means : Tag.ofText tag.text = .ok (some .newline) := by decide +kernel

/-- A tag that changes the look of text, and one that closes it.  Both may be spelled in
any way. -/
structure TagPair where
  opening : TagText
  closing : TagText
  effect : Effect
  means : Tag.ofText opening.text = .ok (some (.effect effect)) := by decide +kernel
  fits : (Key.ofText closing.text).fits (Key.ofText opening.text) = true := by decide +kernel

/-- A node of a tree of markup. -/
inductive Node where
  /-- Any characters. -/
  | text (s : List Char)
  /-- A line end. -/
  | lineBreak (tag : LineBreak)
  /-- Nodes between two tags. -/
  | element (tags : TagPair) (children : List Node)

/-! ### Printing -/

/-- A character of a text, or a tag. -/
inductive Mark where
  /-- A character that means itself. -/
  | char (c : Char)
  /-- A tag that opens. -/
  | openTag (tag : TagText)
  /-- A tag that closes. -/
  | closeTag (tag : TagText)

namespace Mark

/-- The token of a mark. -/
def token : Mark → Token
  | char c => if c = '<' then .escapedBracket else .text [c]
  | openTag tag => .openTag tag.text
  | closeTag tag => .closeTag tag.text

/-- How a mark is printed: brackets of the text are escaped. -/
def source (mark : Mark) : List Char := mark.token.source

/-- Whether a mark is a backslash of the text. -/
def isBackslash : Mark → Bool
  | char c => c == '\\'
  | _ => false

/-- Whether a mark is a tag. -/
def isTag : Mark → Bool
  | char _ => false
  | _ => true

end Mark

mutual

/-- The marks of a node. -/
def Node.marks : Node → List Mark
  | .text s => s.map Mark.char
  | .lineBreak tag => [.openTag tag.tag]
  | .element tags children =>
    .openTag tags.opening :: (marksOfAll children ++ [.closeTag tags.closing])

/-- The marks of a row of nodes. -/
def marksOfAll : List Node → List Mark
  | [] => []
  | node :: nodes => node.marks ++ marksOfAll nodes

end

/-- The text of a tree. -/
def printAll (nodes : List Node) : List Char := (marksOfAll nodes).flatMap Mark.source

/-- No character of a text is a backslash directly before a tag. -/
def TagsUnescaped (marks : List Mark) : Prop :=
  marks.IsChain fun mark next => ¬ (mark.isBackslash = true ∧ next.isTag = true)

instance (marks : List Mark) : Decidable (TagsUnescaped marks) :=
  inferInstanceAs (Decidable (List.IsChain _ marks))

/-! ### Meaning -/

/-- The colour that an effect sets. -/
def Effect.color? : Effect → Option Color
  | color c => some c
  | decoration _ => none

/-- The style inside elements of some effects, the innermost first: the colour of the
innermost one that has a colour, and the decorations of all. -/
def inheritedStyle (effects : List Effect) : Style where
  color := effects.findSome? Effect.color?
  decorations := {
    obfuscated := effects.contains (.decoration .obfuscated)
    bold := effects.contains (.decoration .bold)
    strikethrough := effects.contains (.decoration .strikethrough)
    underlined := effects.contains (.decoration .underlined)
    italic := effects.contains (.decoration .italic) }

mutual

/-- The characters of a node inside elements of some effects, each with its style. -/
def Node.cells (effects : List Effect) : Node → List (Cell Style)
  | .text s => cellsOf s (inheritedStyle effects)
  | .lineBreak _ => [('\n', inheritedStyle effects)]
  | .element tags children => cellsOfAll (tags.effect :: effects) children

/-- The characters of a row of nodes, each with its style. -/
def cellsOfAll (effects : List Effect) : List Node → List (Cell Style)
  | [] => []
  | node :: nodes => node.cells effects ++ cellsOfAll effects nodes

end

/-! ### The marks of a text are read back -/

theorem source_char_of_ne {c : Char} (h : c ≠ '<') : (Mark.char c).source = [c] := by
  rw [Mark.source, Mark.token, if_neg h]
  rfl

/-- Behind a backslash that stands before no tag, no bracket is printed. -/
theorem head?_marks {marks : List Mark} (h : ∀ mark ∈ marks.head?, mark.isTag = false) :
    (marks.flatMap Mark.source).head? ≠ some '<' := by
  cases marks with
  | nil => exact fun hhead => absurd hhead (by simp)
  | cons mark marks =>
    cases mark with
    | char c =>
      by_cases hc : c = '<'
      · subst hc
        exact fun hhead => absurd (Option.some.inj hhead) (by decide)
      · rw [List.flatMap_cons, source_char_of_ne hc]
        exact fun hhead => hc (Option.some.inj hhead)
    | openTag tag => exact absurd (h _ rfl) Bool.noConfusion
    | closeTag tag => exact absurd (h _ rfl) Bool.noConfusion

/-- **The marks of a text are read back.** -/
theorem pieces_marks {marks : List Mark} (h : TagsUnescaped marks) :
    pieces (marks.flatMap Mark.source) = marks.map Mark.token := by
  induction marks with
  | nil => exact pieces_nil
  | cons mark marks ih =>
    have hrest := ih h.tail
    rw [List.flatMap_cons, List.map_cons, ← hrest]
    cases mark with
    | openTag tag => exact pieces_openTag tag.valid _
    | closeTag tag => exact pieces_closeTag tag.valid _
    | char c =>
      by_cases hc : c = '<'
      · subst hc
        exact pieces_escaped _
      -- a backslash of the text meets neither a tag nor an unescaped bracket
      have hstands : StandsFor c (marks.flatMap Mark.source) := by
        refine ⟨hc, fun hslash => head?_marks (fun next hnext => ?_) hslash.2⟩
        have hboth := List.isChain_cons.mp h |>.1 next hnext
        rw [not_and, Bool.not_eq_true] at hboth
        exact hboth (beq_iff_eq.mpr hslash.1)
      rw [source_char_of_ne hc, Mark.token, if_neg hc]
      exact pieces_char hstands

/-! ### Reading a tree -/

namespace Parser

/-- What the open tags do to text, the innermost first. -/
def effects (p : Parser) : List Effect := p.opened.map OpenTag.effect

/-- The state after writing styled characters. -/
def writeCells (p : Parser) (cells : List (Cell Style)) : Parser :=
  { p with document := p.document.pushCells cells }

/-- Text is written in the style that the open tags pass on. -/
theorem style_eq (p : Parser) : p.style = inheritedStyle p.effects := by
  unfold style effects
  induction p.opened with
  | nil => rfl
  | cons tag opened ih =>
    rw [List.foldr_cons, ih, List.map_cons]
    cases tag.effect with
    | color c => rfl
    | decoration d => cases d <;> rfl

theorem writeCells_append (p : Parser) (a b : List (Cell Style)) :
    p.writeCells (a ++ b) = (p.writeCells a).writeCells b := by
  rw [writeCells, Document.pushCells_append]
  rfl

theorem writeCells_cellsOf (p : Parser) (s : List Char) :
    p.writeCells (cellsOf s (inheritedStyle p.effects)) = p.write s := by
  rw [writeCells, Document.pushCells_cellsOf, ← style_eq]
  rfl

theorem read_char (p : Parser) (c : Char) : p.read (Mark.char c).token = .ok (p.write [c]) := by
  rw [Mark.token]
  split
  · next h =>
    rw [h]
    rfl
  · rfl

theorem readAll_text (p : Parser) (s : List Char) :
    p.readAll ((s.map Mark.char).map Mark.token) = .ok (p.write s) := by
  induction s generalizing p with
  | nil => rfl
  | cons c s ih =>
    rw [List.map_cons, List.map_cons, readAll_cons, read_char]
    show (p.write [c]).readAll _ = _
    rw [ih, ← write_append]
    rfl

theorem read_lineBreak (p : Parser) (tag : LineBreak) :
    p.read (Mark.openTag tag.tag).token = .ok (p.write ['\n']) := by
  show p.onOpen tag.tag.text = _
  rw [onOpen, tag.means]

/-- The state inside an element. -/
def openElement (p : Parser) (tags : TagPair) : Parser :=
  { p with opened := ⟨Key.ofText tags.opening.text, tags.effect⟩ :: p.opened }

theorem read_opening (p : Parser) (tags : TagPair) :
    p.read (Mark.openTag tags.opening).token = .ok (p.openElement tags) := by
  show p.onOpen tags.opening.text = _
  rw [onOpen, tags.means]
  rfl

/-- A closing tag closes its own element, whatever is open around it. -/
theorem read_closing (p : Parser) (tags : TagPair) (cells : List (Cell Style)) :
    ((p.openElement tags).writeCells cells).read (Mark.closeTag tags.closing).token =
      .ok (p.writeCells cells) := by
  show onClose _ tags.closing.text = _
  -- the element's own tag is the innermost one that is open, and it fits
  have hinner : closeInnermost? (Key.ofText tags.closing.text) (p.openElement tags).opened =
      some p.opened := by
    rw [openElement, closeInnermost?, if_pos tags.fits]
  rw [onClose, writeCells, hinner]
  rfl

mutual

/-- **Reading a node writes its cells and leaves the open tags alone.** -/
theorem readAll_marks (p : Parser) (node : Node) :
    p.readAll (node.marks.map Mark.token) = .ok (p.writeCells (node.cells p.effects)) := by
  cases node with
  | text s => rw [Node.marks, readAll_text, Node.cells, writeCells_cellsOf]
  | lineBreak tag =>
    have hcells : p.writeCells [('\n', inheritedStyle p.effects)] = p.write ['\n'] :=
      writeCells_cellsOf p ['\n']
    rw [Node.marks, List.map_singleton, readAll_singleton, read_lineBreak, Node.cells, hcells]
  | element tags children =>
    -- behind the children the same tags are open as in front of them
    have hchildren := readAll_marksOfAll (p.openElement tags) children
    rw [Node.marks, List.map_cons, List.map_append, readAll_cons, read_opening]
    show (p.openElement tags).readAll _ = _
    rw [readAll_append, hchildren]
    show readAll _ _ = _
    rw [List.map_singleton, readAll_singleton, read_closing]
    rfl

/-- Reading a row of nodes does the same for all of them. -/
theorem readAll_marksOfAll (p : Parser) (nodes : List Node) :
    p.readAll ((marksOfAll nodes).map Mark.token) =
      .ok (p.writeCells (cellsOfAll p.effects nodes)) := by
  cases nodes with
  | nil => rfl
  | cons node nodes =>
    have hnodes := readAll_marksOfAll (p.writeCells (node.cells p.effects)) nodes
    rw [marksOfAll, List.map_append, readAll_append, readAll_marks p node]
    show readAll _ _ = _
    rw [hnodes, cellsOfAll, writeCells_append]
    rfl

end

end Parser

/-! ### Parsing undoes printing -/

theorem parse_marks {nodes : List Node} (h : TagsUnescaped (marksOfAll nodes)) :
    parse (printAll nodes) = .ok (Document.ofCells (cellsOfAll [] nodes)) := by
  rw [parse_eq_pieces, printAll, pieces_marks h, Parser.readAll_marksOfAll]
  rfl

theorem tagsUnescaped_text (s : List Char) : TagsUnescaped (marksOfAll [.text s]) := by
  rw [marksOfAll, marksOfAll, List.append_nil, Node.marks]
  induction s with
  | nil => exact List.IsChain.nil
  | cons c s ih =>
    refine List.isChain_cons.mpr ⟨fun next hnext htag => ?_, ih⟩
    obtain ⟨d, -, rfl⟩ := List.mem_map.mp (List.mem_of_mem_head? hnext)
    exact absurd htag.2 Bool.false_ne_true

/-- **Parsing undoes printing.**  The text of a tree is markup, and its document holds the
tree's characters in order, each in the style that it inherits; and any text at all is
one plain span if its brackets are escaped. -/
theorem parse_print :
    (∀ nodes : List Node, TagsUnescaped (marksOfAll nodes) →
      ∃ doc, parse (printAll nodes) = .ok doc ∧ doc.cells = cellsOfAll [] nodes ∧ doc.IsMerged) ∧
    ∀ s : List Char,
      parse (printAll [.text s]) = .ok (if s = [] then .empty else ⟨[⟨s, .plain⟩]⟩) := by
  refine ⟨?_, ?_⟩
  · intro nodes h
    have hparse := parse_marks h
    exact ⟨_, hparse, Document.cells_ofCells _, isMerged_of_parse hparse⟩
  · intro s
    have hcells : cellsOfAll [] [.text s] = cellsOf s .plain := by
      rw [cellsOfAll, cellsOfAll, List.append_nil]
      rfl
    have hpush : Document.ofCells (cellsOf s .plain) = Document.empty.push s .plain :=
      Document.pushCells_cellsOf .empty s .plain
    rw [parse_marks (tagsUnescaped_text s), hcells, hpush]
    by_cases hs : s = []
    · rw [hs, Document.push_nil, if_pos rfl]
    · rw [if_neg hs, Document.empty, Document.push_to_none _ hs]

/-- Elements of one key inside each other and after each other, in different spellings. -/
def boldTree : List Node :=
  [.text "a>\\<".toList,
    .element { opening := { text := "b".toList }, closing := { text := "bOLD".toList },
               effect := .decoration .bold }
      [.text "x\\".toList, .text " ".toList,
        .element { opening := { text := "bold".toList }, closing := { text := "b".toList },
                   effect := .decoration .bold } [.text "y".toList],
        .lineBreak { tag := { text := "br".toList } },
        .element { opening := { text := "c:#0AaA1c".toList },
                   closing := { text := "colour:#0aaa1C".toList },
                   effect := .color (.rgb ⟨10, 170, 28⟩) }
          [.element { opening := { text := "gREY".toList }, closing := { text := "gray".toList },
                      effect := .color (.palette .gray) } [],
            .text "z".toList]],
    .element { opening := { text := "b".toList }, closing := { text := "b".toList },
               effect := .decoration .bold } [.text "</b>".toList]]

theorem parse_print_boldTree :
    TagsUnescaped (marksOfAll boldTree) ∧
    printAll boldTree =
      "a>\\\\<<b>x\\ <bold>y</b><br>".toList ++
        "<c:#0AaA1c><gREY></gray>z</colour:#0aaa1C></bOLD><b>\\</b></b>".toList ∧
    ∃ doc, parse (printAll boldTree) = .ok doc ∧
      doc.cells = cellsOf "a>\\<".toList .plain ++
        cellsOf "x\\ y\n".toList { decorations := { bold := true } } ++
        cellsOf "z".toList
          { color := some (.rgb ⟨10, 170, 28⟩), decorations := { bold := true } } ++
        cellsOf "</b>".toList { decorations := { bold := true } } ∧ doc.IsMerged := by
  have hunescaped : TagsUnescaped (marksOfAll boldTree) := by decide +kernel
  obtain ⟨doc, hparse, hcells, hmerged⟩ := parse_print.1 boldTree hunescaped
  exact ⟨hunescaped, by decide +kernel, doc, hparse, hcells.trans (by decide +kernel), hmerged⟩

end ChatTint
