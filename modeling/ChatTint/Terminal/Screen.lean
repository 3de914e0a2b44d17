import ChatTint.Document.Cells
import ChatTint.Terminal.Rendition

/-!
# A terminal

What a terminal does with text that holds escape sequences.  It keeps a pen: the
foreground colour, if one is set, and five switches.  A sequence that it knows
changes the pen; every other character is put on the screen in the look of the
pen.

* `Pen`, `Pen.take` — the pen, and what a rendition does to it.
* `readParameters?`, `TerminalColor.ofNumber?`, `Rendition.ofParameters?` — the
  sequences that the terminal knows.
* `display` — the characters on the screen, and the pen at the end.
-/

namespace ChatTint

/-! ### The pen -/

/-- The look in which characters are put on the screen. -/
structure Pen where
  /-- The foreground colour, if one is set. -/
  foreground : Option Rendition := none
  /-- Heavy letters. -/
  bold : Bool := false
  /-- Slanted letters. -/
  italic : Bool := false
  /-- A line under the letters. -/
  underline : Bool := false
  /-- A line through the letters. -/
  strikethrough : Bool := false
  /-- Foreground and background exchanged. -/
  reverse : Bool := false
deriving DecidableEq

/-- The pen after a rendition.  A colour leaves the switches alone; only the reset
takes anything back. -/
def Pen.take (pen : Pen) : Rendition → Pen
  | .foreground c => { pen with foreground := some (.foreground c) }
  | .trueColor c => { pen with foreground := some (.trueColor c) }
  | .bold => { pen with bold := true }
  | .italic => { pen with italic := true }
  | .underline => { pen with underline := true }
  | .strikethrough => { pen with strikethrough := true }
  | .reverse => { pen with reverse := true }
  | .reset => {}

/-! ### Sequences -/

/-- The number that decimal digits spell, if there are any and nothing else. -/
def numberOf? (digits : List Char) : Option Nat :=
  if digits.isEmpty || digits.any (fun c => !c.isDigit) then none
  else some (digits.foldl (fun n c => 10 * n + (c.toNat - '0'.toNat)) 0)

/-- Decimal numbers with semicolons between them, and the text behind the letter m
that ends them. -/
def readParameters? (digits : List Char) : List Char → Option (List Nat × List Char)
  | [] => none
  | c :: s =>
    if c = 'm' then (numberOf? digits).map fun n => ([n], s)
    else if c = ';' then do
      let n ← numberOf? digits
      let (ns, rest) ← readParameters? [] s
      return (n :: ns, rest)
    else readParameters? (digits ++ [c]) s

theorem length_readParameters?_lt {digits s rest : List Char} {ns : List Nat}
    (h : readParameters? digits s = some (ns, rest)) : rest.length < s.length := by
  induction s generalizing digits ns with
  | nil => simp [readParameters?] at h
  | cons c s ih =>
    simp only [readParameters?] at h
    split at h
    · obtain ⟨n, -, he⟩ := Option.map_eq_some_iff.mp h
      simp only [Prod.mk.injEq] at he
      simp [← he.2]
    · split at h
      · cases hn : numberOf? digits with
        | none => simp [hn] at h
        | some n =>
          cases hr : readParameters? [] s with
          | none => simp [hn, hr] at h
          | some p =>
            obtain ⟨ns', rest'⟩ := p
            simp only [hn, hr, Option.bind_eq_bind, Option.bind_some, Option.pure_def,
              Option.some.injEq, Prod.mk.injEq] at h
            obtain ⟨-, rfl⟩ := h
            have := ih hr
            simp only [List.length_cons]
            omega
      · have := ih h
        simp only [List.length_cons]
        omega

/-- The foreground colour that a number asks for: 30 to 37 the eight dark ones, 90 to 97
the eight bright ones. -/
def TerminalColor.ofNumber? : Nat → Option TerminalColor
  | 30 => some .black
  | 31 => some .red
  | 32 => some .green
  | 33 => some .yellow
  | 34 => some .blue
  | 35 => some .magenta
  | 36 => some .cyan
  | 37 => some .white
  | 90 => some .brightBlack
  | 91 => some .brightRed
  | 92 => some .brightGreen
  | 93 => some .brightYellow
  | 94 => some .brightBlue
  | 95 => some .brightMagenta
  | 96 => some .brightCyan
  | 97 => some .brightWhite
  | _ => none

/-- The rendition that some numbers ask for. -/
def Rendition.ofParameters? : List Nat → Option Rendition
  | [0] => some .reset
  | [1] => some .bold
  | [3] => some .italic
  | [4] => some .underline
  | [7] => some .reverse
  | [9] => some .strikethrough
  | [n] => (TerminalColor.ofNumber? n).map .foreground
  | [38, 2, r, g, b] =>
    if r < 256 ∧ g < 256 ∧ b < 256 then
      some (.trueColor ⟨UInt8.ofNat r, UInt8.ofNat g, UInt8.ofNat b⟩)
    else none
  | _ => none

/-- A sequence at the start of a text, as a rendition, with the text behind it. -/
def readSequence? : List Char → Option (Rendition × List Char)
  | c :: d :: s =>
    if c = escapeChar ∧ d = '[' then do
      let (ns, rest) ← readParameters? [] s
      return (← Rendition.ofParameters? ns, rest)
    else none
  | _ => none

theorem length_readSequence?_lt {s rest : List Char} {r : Rendition}
    (h : readSequence? s = some (r, rest)) : rest.length < s.length := by
  match s, h with
  | [], h => simp [readSequence?] at h
  | [_], h => simp [readSequence?] at h
  | c :: d :: s, h =>
    simp only [readSequence?] at h
    split at h
    · cases hp : readParameters? [] s with
      | none => simp [hp] at h
      | some p =>
        obtain ⟨ns, rest'⟩ := p
        cases hr : Rendition.ofParameters? ns with
        | none => simp [hp, hr] at h
        | some r' =>
          simp only [hp, hr, Option.bind_eq_bind, Option.bind_some, Option.pure_def,
            Option.some.injEq, Prod.mk.injEq] at h
          obtain ⟨-, rfl⟩ := h
          have := length_readParameters?_lt hp
          simp only [List.length_cons]
          omega
    · simp at h

/-! ### The screen -/

/-- What a terminal shows of a text, and the pen that it is left with. -/
def display (pen : Pen) : List Char → List (Cell Pen) × Pen
  | [] => ([], pen)
  | c :: s =>
    match _h : readSequence? (c :: s) with
    | some (r, rest) => display (pen.take r) rest
    | none => ((c, pen) :: (display pen s).1, (display pen s).2)
termination_by s => s.length
decreasing_by
  · exact length_readSequence?_lt _h
  · simp

end ChatTint
