import ChatTint.Command.Source

/-!
# The lines of a row and the lines of a source

A row of characters or of bytes is cut at every line feed.  A line that has its
end loses it, with one carriage return directly in front; what stands behind the
last line feed is a line too, unless it is empty, and keeps all that it has.  A
source hands out just the lines of all its bytes, in whatever chunks they come: it
has a complete line at hand, or it asks for a chunk, or it is at its end.  An empty
chunk is its end too.

## Main definitions

* `LineMarks` — the two marks of line ends, with `LineMarks.complete`,
  `LineMarks.rest` and `LineMarks.lines` of a row.

## Main results

* `LineMarks.row_induction`, `LineMarks.stream_induction` — rows line by line, and
  streams by what a reader has at hand.
* `Source.readLine_line`, `Source.readLine_ask`, `Source.readLine_stop`,
  `Source.readLine_last` — what a source does in the four cases.
* `lineFeed_notMem_encodeUtf8`, `dropCarriageReturn_encodeUtf8`, `lines_encodeUtf8` — the
  marks of a text are the marks of its bytes, and so are its lines.
-/

namespace ChatTint

/-! ### Rows -/

/-- The marks of line ends in a row. -/
structure LineMarks (α : Type) where
  /-- Ends a line. -/
  feed : α
  /-- May stand in front of the end of a line, and belongs to it then. -/
  ret : α

/-- The marks in a text. -/
def textMarks : LineMarks Char := ⟨'\n', '\r'⟩

/-- The marks among bytes. -/
def byteMarks : LineMarks UInt8 := ⟨lineFeed, carriageReturn⟩

namespace LineMarks

variable {α : Type} [DecidableEq α] (m : LineMarks α)

/-- A line without the mark that belongs to its end. -/
def dropReturn (line : List α) : List α :=
  if line.getLast? = some m.ret then line.dropLast else line

/-- The lines of a row that have their end, without it. -/
def complete (row : List α) : List (List α) := (row.splitOn m.feed).dropLast.map m.dropReturn

/-- What stands behind the last line end of a row. -/
def rest (row : List α) : List α := (row.splitOn m.feed).getLastD []

/-- The lines of a row. -/
def lines (row : List α) : List (List α) :=
  m.complete row ++ if m.rest row = [] then [] else [m.rest row]

variable {m}

theorem dropReturn_concat (line : List α) : m.dropReturn (line ++ [m.ret]) = line := by
  rw [dropReturn, List.getLast?_concat, if_pos rfl, List.dropLast_concat]

theorem dropReturn_of_ne {line : List α} (h : line.getLast? ≠ some m.ret) :
    m.dropReturn line = line := if_neg h

theorem complete_of_notMem {row : List α} (h : m.feed ∉ row) : m.complete row = [] := by
  rw [complete, List.splitOn_eq_singleton h]
  rfl

theorem rest_of_notMem {row : List α} (h : m.feed ∉ row) : m.rest row = row := by
  rw [rest, List.splitOn_eq_singleton h]
  rfl

theorem complete_line {line : List α} (h : m.feed ∉ line) (row : List α) :
    m.complete (line ++ m.feed :: row) = m.dropReturn line :: m.complete row := by
  have hne : row.splitOn m.feed ≠ [] := List.splitOn_ne_nil m.feed row
  rw [complete, List.splitOn_append_cons_self_of_not_mem h, List.dropLast_cons_of_ne_nil hne,
    List.map_cons, complete]

theorem rest_line {line : List α} (h : m.feed ∉ line) (row : List α) :
    m.rest (line ++ m.feed :: row) = m.rest row := by
  have hne : row.splitOn m.feed ≠ [] := List.splitOn_ne_nil m.feed row
  obtain ⟨piece, pieces, hpieces⟩ := List.exists_cons_of_ne_nil hne
  rw [rest, rest, List.splitOn_append_cons_self_of_not_mem h, hpieces]
  rfl

theorem lines_line {line : List α} (h : m.feed ∉ line) (row : List α) :
    m.lines (line ++ m.feed :: row) = m.dropReturn line :: m.lines row := by
  rw [lines, complete_line h, rest_line h]
  rfl

theorem lines_of_notMem {row : List α} (h : m.feed ∉ row) :
    m.lines row = if row = [] then [] else [row] := by
  rw [lines, complete_of_notMem h, rest_of_notMem h]
  rfl

/-- A row has no line end, or it is a line, its end and a row. -/
theorem row_induction (m : LineMarks α) {motive : List α → Prop}
    (last : ∀ row, m.feed ∉ row → motive row)
    (line : ∀ line row, m.feed ∉ line → motive row → motive (line ++ m.feed :: row))
    (row : List α) : motive row := by
  -- the row behind a line end is shorter
  induction hn : row.length using Nat.strongRecOn generalizing row with
  | ind n ih =>
    by_cases h : m.feed ∈ row
    · obtain ⟨first, behind, rfl, hfirst⟩ := List.eq_append_cons_of_mem h
      have hlt : behind.length < n := by
        simp only [List.length_append, List.length_cons] at hn
        omega
      exact line first behind hfirst (ih behind.length hlt behind rfl)
    · exact last row h

/-- A reader that holds a row, with pieces of it still to come, has a line at hand, or it
asks for the next piece, or it holds the end of the row.  An empty piece is the end. -/
theorem stream_induction (m : LineMarks α) {motive : List α → List (List α) → Prop}
    (last : ∀ held, m.feed ∉ held → motive held [])
    (stop : ∀ held pieces, m.feed ∉ held → motive held [] → motive held ([] :: pieces))
    (ask : ∀ held piece pieces, m.feed ∉ held → piece ≠ [] → motive (held ++ piece) pieces →
      motive held (piece :: pieces))
    (line : ∀ line held pieces, m.feed ∉ line → motive held pieces →
      motive (line ++ m.feed :: held) pieces)
    (held : List α) (pieces : List (List α)) : motive held pieces := by
  induction pieces generalizing held with
  | nil => exact m.row_induction last (fun l row hl => line l row [] hl) held
  | cons piece pieces ih =>
    refine m.row_induction (fun row hrow => ?_)
      (fun l row hl => line l row (piece :: pieces) hl) held
    by_cases hpiece : piece = []
    · subst hpiece
      exact stop row pieces hrow (last row hrow)
    · exact ask row piece pieces hrow hpiece (ih (row ++ piece))

/-- The complete lines of the beginning of a row are the first of its complete lines. -/
theorem complete_prefix_append (m : LineMarks α) (row more : List α) :
    m.complete row <+: m.complete (row ++ more) := by
  induction row using m.row_induction with
  | last row h =>
    rw [complete_of_notMem h]
    exact List.nil_prefix
  | line line row h ih =>
    rw [List.append_assoc, List.cons_append, complete_line h, complete_line h]
    exact List.prefix_cons_inj _ |>.mpr ih

theorem complete_prefix_lines (m : LineMarks α) (row : List α) : m.complete row <+: m.lines row :=
  List.prefix_append _ _

end LineMarks

/-! ### Sources -/

theorem dropReturn_byteMarks (line : List UInt8) :
    byteMarks.dropReturn line = dropCarriageReturn line := rfl

theorem splitLine?_of_notMem {bytes : List UInt8} (h : lineFeed ∉ bytes) :
    splitLine? bytes = none := by
  induction bytes with
  | nil => rfl
  | cons b bytes ih =>
    rw [List.mem_cons, not_or] at h
    rw [splitLine?, if_neg (Ne.symm h.1), ih h.2]
    rfl

theorem splitLine?_line {line : List UInt8} (h : lineFeed ∉ line) (bytes : List UInt8) :
    splitLine? (line ++ lineFeed :: bytes) = some (line, bytes) := by
  induction line with
  | nil =>
    rw [List.nil_append, splitLine?, if_pos rfl]
  | cons b line ih =>
    rw [List.mem_cons, not_or] at h
    rw [List.cons_append, splitLine?, if_neg (Ne.symm h.1), ih h.2]
    rfl

namespace Source

theorem readHeld?_of_notMem {held : List UInt8} (h : lineFeed ∉ held)
    (chunks : List (List UInt8)) (broken : Bool) : readHeld? ⟨held, chunks, broken⟩ = none := by
  rw [readHeld?, splitLine?_of_notMem h, Option.map_none]

theorem readHeld?_line {line : List UInt8} (h : lineFeed ∉ line) (held : List UInt8)
    (chunks : List (List UInt8)) (broken : Bool) :
    readHeld? ⟨line ++ lineFeed :: held, chunks, broken⟩ =
      some (.ofBytes (dropCarriageReturn line) 0 ⟨held, chunks, broken⟩) := by
  rw [readHeld?, splitLine?_line h, Option.map_some]

/-- A complete line is handed out without a request. -/
theorem readLine_line {line : List UInt8} (h : lineFeed ∉ line) (held : List UInt8)
    (chunks : List (List UInt8)) (broken : Bool) :
    readLine ⟨line ++ lineFeed :: held, chunks, broken⟩ =
      .ofBytes (dropCarriageReturn line) 0 ⟨held, chunks, broken⟩ := by
  cases chunks with
  | nil => rw [readLine, readFrom, readHeld?_line h, Option.getD_some]
  | cons chunk chunks => rw [readLine, readFrom, readHeld?_line h, Option.getD_some]

/-- Without a complete line the next chunk is asked for. -/
theorem readLine_ask {held chunk : List UInt8} (h : lineFeed ∉ held) (hchunk : chunk ≠ [])
    (chunks : List (List UInt8)) (broken : Bool) :
    readLine ⟨held, chunk :: chunks, broken⟩ =
      (readLine ⟨held ++ chunk, chunks, broken⟩).afterRequest := by
  rw [readLine, readFrom, readHeld?_of_notMem h, Option.getD_none,
    if_neg (by simpa using hchunk), readLine]

/-- At the end of the input what is held is handed out. -/
theorem readLine_last {held : List UInt8} (h : lineFeed ∉ held) (broken : Bool) :
    readLine ⟨held, [], broken⟩ = readEnd broken held := by
  rw [readLine, readFrom, readHeld?_of_notMem h, Option.getD_none]

/-- An empty chunk is the end of the input, and nothing breaks. -/
theorem readLine_stop {held : List UInt8} (h : lineFeed ∉ held) (chunks : List (List UInt8))
    (broken : Bool) : readLine ⟨held, [] :: chunks, broken⟩ = readLine ⟨held, [], false⟩ := by
  rw [readLine_last h, readLine, readFrom, readHeld?_of_notMem h, Option.getD_none,
    if_pos List.isEmpty_nil]

/-- An unfinished line is handed out with all its bytes. -/
theorem readEnd_of_ne_nil {held : List UInt8} (h : held ≠ []) :
    readEnd false held = .ofBytes held 1 ⟨[], [], false⟩ := by
  rw [readEnd, if_neg Bool.false_ne_true, if_neg (by simpa using h)]

end Source

/-! ### The marks of a text and of its bytes -/

/-- A byte of ASCII belongs to the character of the same number. -/
theorem toNat_of_mem_utf8EncodeChar {c : Char} {b : UInt8} (h : b ∈ String.utf8EncodeChar c)
    (hb : b.toNat < 128) : c.toNat = b.toNat := by
  have hval : c.toNat = c.val.toNat := rfl
  revert h
  fun_cases String.utf8EncodeChar c with
  | case1 v hv =>
    intro h
    rw [List.mem_singleton.mp h, UInt8.toNat_ofNat']
    omega
  | case2 v h1 h2 =>
    -- every byte of a longer form is at least 128
    intro h
    simp only [List.mem_cons, List.not_mem_nil, or_false] at h
    rcases h with rfl | rfl <;> simp only [UInt8.toNat_ofNat'] at hb <;> omega
  | case3 v h1 h2 h3 =>
    intro h
    simp only [List.mem_cons, List.not_mem_nil, or_false] at h
    rcases h with rfl | rfl | rfl <;> simp only [UInt8.toNat_ofNat'] at hb <;> omega
  | case4 v h1 h2 h3 =>
    intro h
    simp only [List.mem_cons, List.not_mem_nil, or_false] at h
    rcases h with rfl | rfl | rfl | rfl <;> simp only [UInt8.toNat_ofNat'] at hb <;> omega

/-- A byte of ASCII is found in the form of one character only. -/
theorem eq_of_mem_utf8EncodeChar {c : Char} {b : UInt8} (h : b ∈ String.utf8EncodeChar c)
    (hb : b.toNat < 128) : c = Char.ofNat b.toNat := by
  rw [← toNat_of_mem_utf8EncodeChar h hb, Char.ofNat_toNat]

theorem lineFeed_notMem_encodeUtf8 {text : List Char} (h : '\n' ∉ text) :
    lineFeed ∉ encodeUtf8 text := by
  intro hmem
  obtain ⟨c, hc, hbyte⟩ := List.mem_flatMap.mp hmem
  have heq : c = '\n' := eq_of_mem_utf8EncodeChar hbyte (by decide)
  exact h (heq ▸ hc)

theorem encodeUtf8_line (line text : List Char) :
    encodeUtf8 (line ++ '\n' :: text) = encodeUtf8 line ++ lineFeed :: encodeUtf8 text := by
  rw [encodeUtf8_append]
  rfl

theorem encodeUtf8_eq_nil_iff {text : List Char} : encodeUtf8 text = [] ↔ text = [] := by
  cases text with
  | nil => simp
  | cons c text => simp [encodeUtf8, String.utf8EncodeChar_ne_nil]

theorem dropCarriageReturn_encodeUtf8 (line : List Char) :
    dropCarriageReturn (encodeUtf8 line) = encodeUtf8 (textMarks.dropReturn line) := by
  rw [← dropReturn_byteMarks]
  rcases List.eq_nil_or_concat line with rfl | ⟨line, c, rfl⟩
  · rfl
  rw [List.concat_eq_append]
  have hsplit : encodeUtf8 (line ++ [c]) = encodeUtf8 line ++ String.utf8EncodeChar c := by
    rw [encodeUtf8_append, encodeUtf8, encodeUtf8, List.flatMap_singleton]
  by_cases hc : c = '\r'
  · subst hc
    have htext : textMarks.dropReturn (line ++ ['\r']) = line := LineMarks.dropReturn_concat line
    rw [htext, hsplit]
    exact LineMarks.dropReturn_concat (encodeUtf8 line)
  · have htext : textMarks.dropReturn (line ++ [c]) = line ++ [c] := by
      refine LineMarks.dropReturn_of_ne ?_
      rw [List.getLast?_concat]
      exact fun h => hc (Option.some.inj h)
    rw [htext]
    refine LineMarks.dropReturn_of_ne ?_
    -- the last byte belongs to the last character
    intro hlast
    have hne : String.utf8EncodeChar c ≠ [] := String.utf8EncodeChar_ne_nil
    rw [hsplit, List.getLast?_append, List.getLast?_eq_some_getLast hne, Option.some_or,
      Option.some.injEq] at hlast
    exact hc (eq_of_mem_utf8EncodeChar (hlast ▸ List.getLast_mem hne) (by decide))

/-- The lines of the bytes of a text are the bytes of its lines. -/
theorem lines_encodeUtf8 (text : List Char) :
    byteMarks.lines (encodeUtf8 text) = (textMarks.lines text).map encodeUtf8 := by
  induction text using textMarks.row_induction with
  | last text h =>
    have hbytes : byteMarks.feed ∉ encodeUtf8 text := lineFeed_notMem_encodeUtf8 h
    rw [LineMarks.lines_of_notMem h, LineMarks.lines_of_notMem hbytes]
    by_cases htext : text = []
    · rw [if_pos htext, if_pos (encodeUtf8_eq_nil_iff.mpr htext), List.map_nil]
    · rw [if_neg htext, if_neg (mt encodeUtf8_eq_nil_iff.mp htext), List.map_singleton]
  | line line text h ih =>
    have hbytes : byteMarks.feed ∉ encodeUtf8 line := lineFeed_notMem_encodeUtf8 h
    have hline : encodeUtf8 (line ++ textMarks.feed :: text) =
        encodeUtf8 line ++ byteMarks.feed :: encodeUtf8 text := encodeUtf8_line line text
    rw [hline, LineMarks.lines_line h, LineMarks.lines_line hbytes, dropReturn_byteMarks,
      dropCarriageReturn_encodeUtf8, List.map_cons, ih]

end ChatTint
