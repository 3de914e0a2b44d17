import ChatTint.Proofs.Command.Failures
import ChatTint.Proofs.Legacy.Rendering
import Mathlib.Order.Bounds.Basic

/-!
# The search for codes stops at the first line that has one

A search goes through the lines of its source.  A text without codes leaves it
undecided; a text with a code decides it, and so does a line that is no text.  So what
it finds is the finding of the first line that has one, and of the end of the input if
there is none, in whatever chunks the input comes.  It asks for no chunk that it does
not need: the number of its requests is the least by which such a line is known.

A code does not go over a line end, for neither of its marks belongs to a code.  So a
text has a code if one of its lines has one.

## Main definitions

* `IsText`, `HoldsCode` — a line of bytes that is a text, and one with a code.
* `finding?` — what a line decides.
* `Source.linesBy` — the lines that are known after so many requests.

## Main results

* `Source.search_line`, `Source.search_ask`, `Source.search_stop`, `Source.search_last` —
  a search by what its source has at hand.
* `Source.found_search`, `Source.isLeast_requests_search` — what a search finds, and
  its requests.
* `hasCode_eq_any_lines` — a text has a code if one of its lines has.
* `Source.found_search_text` — what a search finds in a text.
* `run_check_stops_at_first_code` — the command, asked for codes.
-/

namespace ChatTint

/-! ### What a line decides -/

/-- A line of bytes is a text. -/
def IsText (line : List UInt8) : Prop := ∃ text, line = encodeUtf8 text

/-- A line of bytes is a text with a legacy code. -/
def HoldsCode (line : List UInt8) : Prop := ∃ text, line = encodeUtf8 text ∧ hasCode text = true

/-- What a line decides in a search, unless it is a text without codes. -/
def finding? (line : List UInt8) : Option (Except Failure Bool) :=
  match decodeUtf8? line with
  | some text => if hasCode text then some (.ok true) else none
  | none => some (.error ⟨"reading standard input", .notUtf8⟩)

theorem holdsCode_encodeUtf8_iff {text : List Char} :
    HoldsCode (encodeUtf8 text) ↔ hasCode text = true := by
  constructor
  · rintro ⟨other, hbytes, hcode⟩
    -- bytes are read as one text only
    have hread := congrArg decodeUtf8? hbytes
    rw [decodeUtf8?_encodeUtf8, decodeUtf8?_encodeUtf8, Option.some.injEq] at hread
    rwa [hread]
  · exact fun hcode => ⟨text, rfl, hcode⟩

theorem finding?_encodeUtf8 (text : List Char) :
    finding? (encodeUtf8 text) = if hasCode text then some (.ok true) else none := by
  rw [finding?, decodeUtf8?_encodeUtf8]

theorem finding?_of_not_isText {line : List UInt8} (h : ¬ IsText line) :
    finding? line = some (.error ⟨"reading standard input", .notUtf8⟩) := by
  cases hline : decodeUtf8? line with
  | none => rw [finding?, hline]
  | some text => exact absurd ⟨text, encodeUtf8_of_decodeUtf8? hline⟩ h

theorem finding?_of_holdsCode {line : List UInt8} (h : HoldsCode line) :
    finding? line = some (.ok true) := by
  obtain ⟨text, rfl, hcode⟩ := h
  rw [finding?_encodeUtf8, if_pos hcode]

theorem finding?_of_plain {line : List UInt8} (htext : IsText line) (hcode : ¬ HoldsCode line) :
    finding? line = none := by
  obtain ⟨text, rfl⟩ := htext
  rw [finding?_encodeUtf8, if_neg (mt holdsCode_encodeUtf8_iff.mpr hcode)]

theorem holdsCode_of_finding? {line : List UInt8} (h : finding? line = some (.ok true)) :
    HoldsCode line := by
  by_contra hcode
  by_cases htext : IsText line
  · rw [finding?_of_plain htext hcode] at h
    exact absurd h (by simp)
  · rw [finding?_of_not_isText htext] at h
    exact absurd h (by simp)

/-- Behind texts a line with a code settles what is found, whatever follows it. -/
theorem findSome?_of_holdsCode {before after : List (List UInt8)} {line : List UInt8}
    (hbefore : ∀ l ∈ before, IsText l) (hline : HoldsCode line) :
    (before ++ line :: after).findSome? finding? = some (.ok true) := by
  induction before with
  | nil => rw [List.nil_append, List.findSome?_cons, finding?_of_holdsCode hline]
  | cons first before ih =>
    rw [List.forall_mem_cons] at hbefore
    rw [List.cons_append, List.findSome?_cons]
    by_cases hcode : HoldsCode first
    · rw [finding?_of_holdsCode hcode]
    · rw [finding?_of_plain hbefore.1 hcode]
      exact ih hbefore.2

/-! ### One line after another -/

/-- A search that went on after requests. -/
def Search.after (requests : Nat) (s : Search) : Search :=
  { s with requests := requests + s.requests }

namespace Source

/-- What a search does with the outcome of reading a line. -/
def searchFrom (reading : Reading) : Search :=
  match answer? reading.line with
  | some found => ⟨found, 0⟩
  | none => reading.source.search

/-- **A search reads a line and goes on from it.** -/
theorem search_eq (source : Source) :
    source.search = (searchFrom source.readLine).after source.readLine.requests := by
  rw [search, searchFrom]
  split
  · next found h => simp [Search.after, h]
  · next h => simp [Search.after, h]

/-- A search stops at a line that decides it. -/
theorem searchFrom_ofBytes (line : List UInt8) (requests : Nat) (source : Source) :
    searchFrom (.ofBytes line requests source) =
      match finding? line with
      | some found => ⟨found, 0⟩
      | none => source.search := by
  rw [searchFrom, Reading.ofBytes, finding?]
  cases decodeUtf8? line with
  | none => rfl
  | some text => rfl

/-- A complete line takes no request. -/
theorem search_line {line : List UInt8} (h : lineFeed ∉ line) (held : List UInt8)
    (chunks : List (List UInt8)) (broken : Bool) :
    search ⟨line ++ lineFeed :: held, chunks, broken⟩ =
      match finding? (dropCarriageReturn line) with
      | some found => ⟨found, 0⟩
      | none => search ⟨held, chunks, broken⟩ := by
  rw [search_eq, readLine_line h, searchFrom_ofBytes, Reading.requests_ofBytes, Search.after]
  simp only [Nat.zero_add]

/-- Without one a chunk is asked for, and the search goes on with it at hand. -/
theorem search_ask {held chunk : List UInt8} (h : lineFeed ∉ held) (hchunk : chunk ≠ [])
    (chunks : List (List UInt8)) (broken : Bool) :
    search ⟨held, chunk :: chunks, broken⟩ =
      (search ⟨held ++ chunk, chunks, broken⟩).after 1 := by
  rw [search_eq, search_eq ⟨held ++ chunk, chunks, broken⟩, readLine_ask h hchunk]
  simp only [Search.after, Reading.afterRequest, searchFrom, Nat.add_comm 1, Nat.add_right_comm]

/-- An empty chunk is the end of the input. -/
theorem search_stop {held : List UInt8} (h : lineFeed ∉ held) (chunks : List (List UInt8))
    (broken : Bool) : search ⟨held, [] :: chunks, broken⟩ = search ⟨held, [], false⟩ := by
  rw [search_eq, search_eq ⟨held, [], false⟩, readLine_stop h]

/-- At the end of the input an unfinished line is looked at, and then the end is met
again. -/
theorem search_last {held : List UInt8} (h : lineFeed ∉ held) (broken : Bool) :
    search ⟨held, [], broken⟩ =
      if broken then ⟨.error ⟨"reading standard input", .streamBroke⟩, 1⟩
      else if held = [] then ⟨.ok false, 1⟩
      else match finding? held with
        | some found => ⟨found, 1⟩
        | none => ⟨.ok false, 2⟩ := by
  have hend : search ⟨[], [], false⟩ = ⟨.ok false, 1⟩ := by
    rw [search_eq, readLine_last List.not_mem_nil]
    rfl
  rw [search_eq, readLine_last h]
  cases broken with
  | true => rfl
  | false =>
    by_cases hne : held = []
    · simp only [hne]
      rfl
    · rw [readEnd_of_ne_nil hne, if_neg Bool.false_ne_true, if_neg hne, searchFrom_ofBytes,
        Reading.requests_ofBytes, hend]
      cases finding? held <;> rfl

/-! ### What is found, and by which request -/

/-- What a search finds at the end of the input. -/
def foundAtEnd (source : Source) : Except Failure Bool :=
  if source.breaks then .error ⟨"reading standard input", .streamBroke⟩ else .ok false

/-- **What a search finds** is the finding of the first line that has one, or else of the
end of the input. -/
theorem found_search (held : List UInt8) (chunks : List (List UInt8)) (broken : Bool) :
    (search ⟨held, chunks, broken⟩).found =
      ((lines ⟨held, chunks, broken⟩).findSome? finding?).getD
        (foundAtEnd ⟨held, chunks, broken⟩) := by
  induction held, chunks using byteMarks.stream_induction generalizing broken with
  | stop held chunks h ih =>
    rw [search_stop h, lines_stop, foundAtEnd, breaks_stop]
    exact ih false
  | ask held chunk chunks h hchunk ih =>
    rw [search_ask h hchunk, lines_ask held chunks broken hchunk, foundAtEnd,
      breaks_ask held chunks broken hchunk]
    exact ih broken
  | line line held chunks h ih =>
    show (search ⟨line ++ lineFeed :: held, chunks, broken⟩).found =
      ((lines ⟨line ++ lineFeed :: held, chunks, broken⟩).findSome? finding?).getD _
    rw [search_line h, lines_line held chunks broken h, List.findSome?_cons]
    cases finding? (dropCarriageReturn line) with
    | some found => rfl
    | none => exact ih broken
  | last held h =>
    rw [search_last h, lines_last broken h]
    cases broken with
    | true => rfl
    | false =>
      by_cases hne : held = []
      · subst hne
        rfl
      · rw [if_neg Bool.false_ne_true, if_neg hne, if_neg (by simp [hne]),
          List.findSome?_singleton]
        cases finding? held <;> rfl

/-- The lines of a source that are known after so many requests: those that have their
end in the chunks received, and from the request on that meets the end of the input,
all. -/
def linesBy (source : Source) (requests : Nat) : List (List UInt8) :=
  if requests ≤ source.received.length then
    byteMarks.complete (source.buffer ++ (source.received.take requests).flatten)
  else source.lines

theorem linesBy_line {line : List UInt8} (h : lineFeed ∉ line) (held : List UInt8)
    (chunks : List (List UInt8)) (broken : Bool) (requests : Nat) :
    linesBy ⟨line ++ lineFeed :: held, chunks, broken⟩ requests =
      dropCarriageReturn line :: linesBy ⟨held, chunks, broken⟩ requests := by
  have hline : byteMarks.feed ∉ line := h
  have hreceived : received ⟨line ++ lineFeed :: held, chunks, broken⟩ =
      received ⟨held, chunks, broken⟩ := rfl
  rw [linesBy, linesBy, lines_line held chunks broken h, hreceived]
  split
  · simp only [List.append_assoc, List.cons_append]
    exact LineMarks.complete_line hline _
  · rfl

/-- What is held without a line end makes no line known. -/
theorem linesBy_zero {held : List UInt8} (h : lineFeed ∉ held) (chunks : List (List UInt8))
    (broken : Bool) : linesBy ⟨held, chunks, broken⟩ 0 = [] := by
  have hheld : byteMarks.feed ∉ held := h
  rw [linesBy, if_pos (Nat.zero_le _), List.take_zero, List.flatten_nil, List.append_nil]
  exact LineMarks.complete_of_notMem hheld

theorem linesBy_stop (held : List UInt8) (chunks : List (List UInt8)) (broken : Bool)
    (requests : Nat) :
    linesBy ⟨held, [] :: chunks, broken⟩ requests = linesBy ⟨held, [], false⟩ requests := by
  rw [linesBy, lines_stop]
  rfl

theorem linesBy_succ {chunk : List UInt8} (hchunk : chunk ≠ []) (held : List UInt8)
    (chunks : List (List UInt8)) (broken : Bool) (requests : Nat) :
    linesBy ⟨held, chunk :: chunks, broken⟩ (requests + 1) =
      linesBy ⟨held ++ chunk, chunks, broken⟩ requests := by
  simp only [linesBy, received_ask held chunks broken hchunk, lines_ask held chunks broken hchunk,
    List.length_cons, Nat.add_le_add_iff_right, List.take_succ_cons, List.flatten_cons,
    List.append_assoc]

/-- The lines that are known are the first of all. -/
theorem linesBy_prefix_lines (source : Source) (requests : Nat) :
    source.linesBy requests <+: source.lines := by
  rw [linesBy]
  split
  · have hsplit : source.bytes = source.buffer ++ (source.received.take requests).flatten ++
        (source.received.drop requests).flatten := by
      rw [bytes, List.append_assoc, ← List.flatten_append, List.take_append_drop]
    have hcomplete : byteMarks.complete source.bytes <+: source.lines := by
      rw [lines]
      split
      · exact List.prefix_rfl
      · exact byteMarks.complete_prefix_lines _
    rw [hsplit] at hcomplete
    exact (byteMarks.complete_prefix_append _ _).trans hcomplete
  · exact List.prefix_rfl

/-- A line is known that decides a search. -/
def DecidedBy (source : Source) (requests : Nat) : Prop :=
  ∃ line ∈ source.linesBy requests, (finding? line).isSome

theorem decidedBy_line_iff {line : List UInt8} (h : lineFeed ∉ line) {held : List UInt8}
    {chunks : List (List UInt8)} {broken : Bool} {requests : Nat} :
    DecidedBy ⟨line ++ lineFeed :: held, chunks, broken⟩ requests ↔
      (finding? (dropCarriageReturn line)).isSome ∨
        DecidedBy ⟨held, chunks, broken⟩ requests := by
  simp only [DecidedBy, linesBy_line h, List.mem_cons, exists_eq_or_imp]

/-- What is held without a line end decides nothing. -/
theorem not_decidedBy_zero {held : List UInt8} (h : lineFeed ∉ held) (chunks : List (List UInt8))
    (broken : Bool) : ¬ DecidedBy ⟨held, chunks, broken⟩ 0 := by
  rintro ⟨line, hmem, -⟩
  rw [linesBy_zero h] at hmem
  exact absurd hmem List.not_mem_nil

/-- What is held at the end of the input is one line at most, which is known when the end
is met. -/
theorem isLeast_requests_search_last {held : List UInt8} (hheld : lineFeed ∉ held) (broken : Bool)
    (h : ∃ line ∈ lines ⟨held, [], broken⟩, (finding? line).isSome) :
    IsLeast {k | DecidedBy ⟨held, [], broken⟩ k} (search ⟨held, [], broken⟩).requests := by
  obtain ⟨line, hmem, hdecides⟩ := h
  have hend : DecidedBy ⟨held, [], broken⟩ 1 := by
    refine ⟨line, ?_, hdecides⟩
    rw [linesBy, if_neg (by simp [received])]
    exact hmem
  have hleast : ∀ k, DecidedBy ⟨held, [], broken⟩ k → 1 ≤ k := by
    rintro (- | k) hk
    · exact absurd hk (not_decidedBy_zero hheld _ _)
    · exact Nat.succ_le_succ (Nat.zero_le k)
  have hone : (search ⟨held, [], broken⟩).requests = 1 := by
    rw [lines_last broken hheld] at hmem
    split at hmem
    · exact absurd hmem List.not_mem_nil
    · next hlast =>
      obtain rfl := List.mem_singleton.mp hmem
      rw [not_or] at hlast
      obtain ⟨found, hfound⟩ := Option.isSome_iff_exists.mp hdecides
      rw [search_last hheld, if_neg hlast.1, if_neg hlast.2, hfound]
  rw [hone]
  exact ⟨hend, hleast⟩

/-- **A search that a line decides** asks just as often as it takes to know such a
line. -/
theorem isLeast_requests_search (held : List UInt8) (chunks : List (List UInt8)) (broken : Bool)
    (h : ∃ line ∈ lines ⟨held, chunks, broken⟩, (finding? line).isSome) :
    IsLeast {k | DecidedBy ⟨held, chunks, broken⟩ k} (search ⟨held, chunks, broken⟩).requests := by
  induction held, chunks using byteMarks.stream_induction generalizing broken with
  | stop held chunks hheld ih =>
    rw [lines_stop] at h
    simp only [search_stop hheld, DecidedBy, linesBy_stop]
    exact ih false h
  | ask held chunk chunks hheld hchunk ih =>
    -- nothing is known before the chunk, and behind it one request less is needed
    rw [lines_ask held chunks broken hchunk] at h
    obtain ⟨⟨line, hmem, hline⟩, hleast⟩ := ih broken h
    rw [search_ask hheld hchunk, Search.after, Nat.add_comm]
    refine ⟨⟨line, ?_, hline⟩, ?_⟩
    · rwa [linesBy_succ hchunk]
    · rintro k ⟨other, hother, hdecides⟩
      cases k with
      | zero => exact absurd ⟨other, hother, hdecides⟩ (not_decidedBy_zero hheld _ _)
      | succ k =>
        rw [linesBy_succ hchunk] at hother
        exact Nat.succ_le_succ (hleast ⟨other, hother, hdecides⟩)
  | line line held chunks hline ih =>
    show IsLeast {k | DecidedBy ⟨line ++ lineFeed :: held, chunks, broken⟩ k}
      (search ⟨line ++ lineFeed :: held, chunks, broken⟩).requests
    simp only [decidedBy_line_iff hline]
    rw [search_line hline]
    cases hfinding : finding? (dropCarriageReturn line) with
    | some found => exact ⟨Or.inl rfl, fun k _ => Nat.zero_le k⟩
    | none =>
      have hrest : ∃ line ∈ lines ⟨held, chunks, broken⟩, (finding? line).isSome := by
        have hlines := lines_line held chunks broken hline
        obtain ⟨decisive, hmem, hdecides⟩ := h
        rcases List.mem_cons.mp (hlines ▸ hmem) with rfl | hmem
        · rw [hfinding] at hdecides
          exact absurd hdecides Bool.false_ne_true
        · exact ⟨decisive, hmem, hdecides⟩
      simpa using ih broken hrest
  | last held hheld => exact isLeast_requests_search_last hheld broken h

/-- **Behind texts a line with a code** decides a search, and the requests are the fewest
by which a line with a code is known. -/
theorem search_of_holdsCode {source : Source} {before after : List (List UInt8)}
    {line : List UInt8} (hlines : source.lines = before ++ line :: after)
    (hbefore : ∀ l ∈ before, IsText l) (hline : HoldsCode line) :
    source.search.found = .ok true ∧
      IsLeast {k | ∃ line ∈ source.linesBy k, HoldsCode line} source.search.requests := by
  have hfirst : source.lines.findSome? finding? = some (.ok true) := by
    rw [hlines, findSome?_of_holdsCode hbefore hline]
  obtain ⟨⟨decisive, hmem, hdecides⟩, hleast⟩ :=
    isLeast_requests_search source.buffer source.chunks source.broken
      ⟨line, hlines ▸ List.mem_append_right _ List.mem_cons_self, by
        rw [finding?_of_holdsCode hline]; rfl⟩
  refine ⟨?_, ?_, ?_⟩
  · rw [found_search source.buffer source.chunks source.broken, hfirst]
    rfl
  · -- the first line known that decides the search is the first of all that does
    obtain ⟨rest, hrest⟩ := source.linesBy_prefix_lines source.search.requests
    rw [← hrest, List.findSome?_append] at hfirst
    have hknown : ((source.linesBy source.search.requests).findSome? finding?).isSome := by
      rw [List.findSome?_isSome_iff]
      exact ⟨decisive, hmem, hdecides⟩
    obtain ⟨found, hfound⟩ := Option.isSome_iff_exists.mp hknown
    rw [hfound, Option.some_or] at hfirst
    obtain ⟨first, hfirstMem, hfinding⟩ := List.exists_of_findSome?_eq_some (hfound.trans hfirst)
    exact ⟨first, hfirstMem, holdsCode_of_finding? hfinding⟩
  · rintro k ⟨other, hother, hcode⟩
    exact hleast ⟨other, hother, by rw [finding?_of_holdsCode hcode]; rfl⟩

/-- **Texts without codes** leave a search to the end of the input. -/
theorem found_search_of_plain {source : Source}
    (h : ∀ line ∈ source.lines, IsText line ∧ ¬ HoldsCode line) :
    source.search.found = source.foundAtEnd := by
  have hnone : source.lines.findSome? finding? = none := by
    rw [List.findSome?_eq_none_iff]
    exact fun line hmem => finding?_of_plain (h line hmem).1 (h line hmem).2
  rw [found_search source.buffer source.chunks source.broken, hnone]
  rfl

/-- **Behind texts without codes a line that is no text** ends a search. -/
theorem found_search_of_not_isText {source : Source} {before after : List (List UInt8)}
    {line : List UInt8} (hlines : source.lines = before ++ line :: after)
    (hbefore : ∀ l ∈ before, IsText l ∧ ¬ HoldsCode l) (hline : ¬ IsText line) :
    source.search.found = .error ⟨"reading standard input", .notUtf8⟩ := by
  have hnone : before.findSome? finding? = none := by
    rw [List.findSome?_eq_none_iff]
    exact fun l hmem => finding?_of_plain (hbefore l hmem).1 (hbefore l hmem).2
  rw [found_search source.buffer source.chunks source.broken]
  show (source.lines.findSome? finding?).getD _ = _
  rw [hlines, List.findSome?_append, hnone, Option.none_or, List.findSome?_cons,
    finding?_of_not_isText hline]
  rfl

end Source

/-! ### Codes and line ends -/

theorem not_isCodeChar_lineMarks : isCodeChar '\n' = false ∧ isCodeChar '\r' = false := by decide

theorem hasCode_dropReturn (line : List Char) :
    hasCode (textMarks.dropReturn line) = hasCode line := by
  rw [LineMarks.dropReturn]
  split
  · next hlast =>
    obtain ⟨front, rfl⟩ := List.getLast?_eq_some_iff.mp hlast
    have hhead : ∀ d ∈ ['\r'].head?, isCodeChar d = false := by
      rintro d ⟨⟩
      exact not_isCodeChar_lineMarks.2
    rw [List.dropLast_concat]
    exact ((hasCode_append_of_head hhead).trans (Bool.or_false _)).symm
  · rfl

/-- **A text has a code if one of its lines has.** -/
theorem hasCode_eq_any_lines (text : List Char) :
    hasCode text = (textMarks.lines text).any hasCode := by
  induction text using textMarks.row_induction with
  | last text h =>
    rw [LineMarks.lines_of_notMem h]
    split
    · next hempty => rw [hempty]; rfl
    · rw [List.any_cons, List.any_nil, Bool.or_false]
  | line line text h ih =>
    have hhead : ∀ d ∈ (textMarks.feed :: text).head?, isCodeChar d = false := by
      rintro d ⟨⟩
      exact not_isCodeChar_lineMarks.1
    have hfeed : hasCode (textMarks.feed :: text) = hasCode text :=
      hasCode_cons fun hsection => absurd hsection (by decide)
    rw [LineMarks.lines_line h, List.any_cons, hasCode_dropReturn, ← ih,
      hasCode_append_of_head hhead, hfeed]

theorem isText_of_mem_lines {text : List Char} :
    ∀ line ∈ byteMarks.lines (encodeUtf8 text), IsText line := by
  intro line hmem
  rw [lines_encodeUtf8] at hmem
  obtain ⟨part, -, rfl⟩ := List.mem_map.mp hmem
  exact ⟨part, rfl⟩

/-- A code of a text stands in one of its lines. -/
theorem exists_holdsCode_iff {text : List Char} :
    (∃ line ∈ byteMarks.lines (encodeUtf8 text), HoldsCode line) ↔ hasCode text = true := by
  simp only [lines_encodeUtf8, List.mem_map, exists_exists_and_eq_and, holdsCode_encodeUtf8_iff,
    hasCode_eq_any_lines text, List.any_eq_true]

/-- **A search through a text**, in whatever chunks, tells whether the text has a code. -/
theorem Source.found_search_text {source : Source} {text : List Char}
    (hbytes : source.bytes = encodeUtf8 text) (hbreaks : source.breaks = false) :
    source.search.found = .ok (hasCode text) := by
  have hlines : source.lines = byteMarks.lines (encodeUtf8 text) := by
    rw [Source.lines, hbreaks, if_neg Bool.false_ne_true, hbytes]
  have htexts : ∀ line ∈ source.lines, IsText line := hlines ▸ isText_of_mem_lines
  by_cases hcode : ∃ line ∈ source.lines, HoldsCode line
  · have hwhole : hasCode text = true := exists_holdsCode_iff.mp (hlines ▸ hcode)
    obtain ⟨line, hmem, hline⟩ := hcode
    obtain ⟨before, after, hsplit⟩ := List.append_of_mem hmem
    have hbefore : ∀ l ∈ before, IsText l := fun l hl =>
      htexts l (hsplit ▸ List.mem_append_left _ hl)
    rw [hwhole, (search_of_holdsCode hsplit hbefore hline).1]
  · have hwhole : hasCode text = false :=
      Bool.eq_false_iff.mpr fun h => hcode (hlines ▸ exists_holdsCode_iff.mpr h)
    have hplain : ∀ line ∈ source.lines, IsText line ∧ ¬ HoldsCode line := fun line hmem =>
      ⟨htexts line hmem, fun hline => hcode ⟨line, hmem, hline⟩⟩
    rw [hwhole, found_search_of_plain hplain, foundAtEnd, hbreaks, if_neg Bool.false_ne_true]

/-! ### The command -/

namespace Settings

/-- **A run that is asked for codes** asks as often as its search and writes the answer,
for which there has to be room. -/
theorem run_of_search {settings : Settings} (hcheck : settings.check = true)
    (hwords : settings.words = []) (terminalColors : Bool) (source : Source) {limits : Limits}
    (hroom : ∀ room ∈ limits.room, (encodeUtf8 "legacy codes found\n".toList).length ≤ room) :
    (settings.run terminalColors source limits.sink).outcome =
        source.search.found.map verdictCode ∧
      (settings.run terminalColors source limits.sink).output =
        (match source.search.found with
          | .ok found => encodeUtf8 (verdict found) ++ [lineFeed]
          | .error _ => []) ∧
      (settings.run terminalColors source limits.sink).requests =
        List.replicate source.search.requests 0 := by
  rw [run, if_pos hcheck, runCheck, search, text?_of_words_nil hwords]
  cases source.search.found with
  | error f => exact ⟨rfl, rfl, rfl⟩
  | ok found =>
    have hlonger : (encodeUtf8 (verdict found) ++ [lineFeed]).length ≤
        (encodeUtf8 "legacy codes found\n".toList).length := by
      cases found <;> decide
    have hfits : (Operation.write (encodeUtf8 (verdict found) ++ [lineFeed])).failure? limits [] =
        none := by
      rw [Operation.failure?, if_pos]
      refine (Option.all_eq_true _ _).mpr fun room hmem => decide_eq_true ?_
      exact (Nat.zero_add _).trans_le (hlonger.trans (hroom room hmem))
    have hwrite := (attempt_write hfits).1
    rw [Limits.sinkAfter_nil] at hwrite
    simp only [Sink.writeText_eq, hwrite]
    exact ⟨rfl, List.append_nil _, List.append_nil _⟩

end Settings

/-- **A search for codes answers for the whole input and reads no further than it
must.**  Without text on the command line, from any chunks of bytes and a stream that
may break behind them, to an output with room for the answer: if a line with a code
stands behind lines that are texts, the run succeeds and says so, and its requests are
the fewest by which a line with a code is known, so what follows is never met.  If all
lines are texts without codes, a stream that breaks is reported with nothing written,
and at the end of one that does not the answer is that there are no codes.  A line
that is no text is reported if no code stands before it.  So for a text in whatever
chunks, behind which the stream does not break, the exit code tells whether the text
as a whole has a code.  An empty chunk is the end of the input; where there is none, all
chunks are received, and the stream breaks if it is to break behind them. -/
theorem run_check_stops_at_first_code {settings : Settings} (hcheck : settings.check = true)
    (hwords : settings.words = []) (terminalColors : Bool) {limits : Limits}
    (hroom : ∀ room ∈ limits.room, (encodeUtf8 "legacy codes found\n".toList).length ≤ room)
    (chunks : List (List UInt8)) (broken : Bool) :
    let source : Source := { chunks := chunks, broken := broken }
    let report := settings.run terminalColors source limits.sink
    (∀ before line after, source.lines = before ++ line :: after → (∀ l ∈ before, IsText l) →
      HoldsCode line →
        report.outcome = .ok 0 ∧ report.output = encodeUtf8 "legacy codes found\n".toList ∧
        ∃ k, report.requests = List.replicate k 0 ∧
          IsLeast {k | ∃ line ∈ source.linesBy k, HoldsCode line} k) ∧
    ((∀ line ∈ source.lines, IsText line ∧ ¬ HoldsCode line) →
      if source.breaks then
        report.outcome = .error ⟨"reading standard input", .streamBroke⟩ ∧ report.output = []
      else report.outcome = .ok 1 ∧ report.output = encodeUtf8 "no legacy codes\n".toList) ∧
    (∀ before line after, source.lines = before ++ line :: after →
      (∀ l ∈ before, IsText l ∧ ¬ HoldsCode l) → ¬ IsText line →
        report.outcome = .error ⟨"reading standard input", .notUtf8⟩ ∧ report.output = []) ∧
    (∀ text, source.bytes = encodeUtf8 text → source.breaks = false →
      (report.exitCode = 0 ↔ hasCode text = true)) ∧
    ((∀ chunk ∈ chunks, chunk ≠ []) →
      source.received = chunks ∧ source.bytes = chunks.flatten ∧ source.breaks = broken) := by
  intro source report
  obtain ⟨houtcome, houtput, hrequests⟩ :
      report.outcome = source.search.found.map verdictCode ∧ _ ∧ _ :=
    Settings.run_of_search hcheck hwords terminalColors source hroom
  refine ⟨?_, ?_, ?_, ?_, ?_⟩
  · intro before line after hlines hbefore hline
    obtain ⟨hfound, hleast⟩ := Source.search_of_holdsCode hlines hbefore hline
    rw [hfound] at houtcome houtput
    exact ⟨houtcome, houtput, _, hrequests, hleast⟩
  · intro hlines
    rw [Source.found_search_of_plain hlines, Source.foundAtEnd] at houtcome houtput
    cases hbreaks : source.breaks with
    | true =>
      rw [hbreaks] at houtcome houtput
      exact ⟨houtcome, houtput⟩
    | false =>
      rw [hbreaks] at houtcome houtput
      exact ⟨houtcome, houtput⟩
  · intro before line after hlines hbefore hline
    rw [Source.found_search_of_not_isText hlines hbefore hline] at houtcome houtput
    exact ⟨houtcome, houtput⟩
  · intro text hbytes hbreaks
    rw [Source.found_search_text hbytes hbreaks] at houtcome
    rw [Report.exitCode, houtcome]
    cases hasCode text with
    | true => exact iff_of_true rfl rfl
    | false => exact iff_of_false Nat.one_ne_zero Bool.false_ne_true
  · intro hchunks
    have hreceived : source.received = chunks := Source.received_of_ne_nil hchunks
    have hbytes : source.bytes = chunks.flatten := by
      rw [Source.bytes, hreceived, List.nil_append]
    exact ⟨hreceived, hbytes, Source.breaks_of_ne_nil hchunks⟩

theorem run_check_stops_before_break :
    let settings : Settings := { check := true }
    let limits : Limits := { room := some 19 }
    let chunks : List (List UInt8) := [encodeUtf8 "plain\r".toList, [10, 194],
      167 :: encodeUtf8 "lbold\r\nun".toList, encodeUtf8 "finished".toList]
    let report := settings.run false { chunks := chunks, broken := true } limits.sink
    settings.check = true ∧ settings.words = [] ∧
      (∀ room ∈ limits.room, (encodeUtf8 "legacy codes found\n".toList).length ≤ room) ∧
      report.outcome = .ok 0 ∧ report.output = encodeUtf8 "legacy codes found\n".toList ∧
      report.requests = [0, 0, 0] := by
  intro settings limits chunks report
  have hcheck : settings.check = true := rfl
  have hwords : settings.words = [] := rfl
  have hroom : ∀ room ∈ limits.room,
      (encodeUtf8 "legacy codes found\n".toList).length ≤ room := by decide
  have hplain : ∀ l ∈ [encodeUtf8 "plain".toList], IsText l := by
    intro l hl
    exact ⟨"plain".toList, List.mem_singleton.mp hl⟩
  have hcode : HoldsCode (encodeUtf8 "§lbold".toList) := ⟨_, rfl, by decide⟩
  obtain ⟨houtcome, houtput, -⟩ :=
    (run_check_stops_at_first_code hcheck hwords false hroom chunks true).1
      [encodeUtf8 "plain".toList] (encodeUtf8 "§lbold".toList) [] (by decide +kernel) hplain hcode
  exact ⟨hcheck, hwords, hroom, houtcome, houtput, by decide +kernel⟩

end ChatTint
