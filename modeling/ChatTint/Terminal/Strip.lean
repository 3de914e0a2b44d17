import ChatTint.Terminal.Rendition

/-!
# Taking escape sequences out of a text

What a terminal would obey rather than show is removed, and everything else is
kept.  Three kinds of sequence are known:

* a **command string**, from the escape character and a closing bracket to a
  bell or a string terminator;
* a **device string**, from the escape character and a capital P to a string
  terminator;
* a **control sequence**, from the escape character or its one-character form,
  which is told by a small automaton (`Control.step`).  The longest stretch that
  the automaton accepts is removed; if it accepts none, nothing is.

## Main definitions

* `Control` — the states of the automaton, with `Control.step` and
  `Control.accepting`.
* `Control.run?` — what is left behind the longest accepted stretch.
* `skipString` — what is left behind a string.
* `stripEscapes` — the text without its escape sequences.
-/

namespace ChatTint

/-! ### Control sequences -/

/-- How much of a control sequence has been read. -/
inductive Control where
  /-- Only the introducer. -/
  | start
  /-- One parenthesis, which may designate a character set. -/
  | charset
  /-- The character set that a parenthesis designates. -/
  | designated
  /-- Brackets and other characters that come before the first number. -/
  | leading
  /-- A number of this many digits. -/
  | number (digits : Nat)
  /-- A semicolon behind a number. -/
  | separator
  /-- The letter that ends the sequence. -/
  | final
deriving DecidableEq

namespace Control

/-- The number of digits at which a sequence ends, whatever follows. -/
def maxDigits : Nat := 5

/-- Whether a sequence may end here. -/
def accepting : Control → Bool
  | designated => true
  | number _ => true
  | final => true
  | _ => false

/-- Whether a character may end a control sequence. -/
def isFinal (c : Char) : Bool :=
  ('A' ≤ c && c ≤ 'P') || c == 'R' || c == 'Z' || c == 'c' || ('f' ≤ c && c ≤ 'n') ||
    c == 'q' || c == 'r' || c == 'y' || c == '=' || c == '>' || c == '<'

/-- Reads one digit. -/
def onDigit (c : Char) : Control → Option Control
  | start => some (number 1)
  | charset => some (if c ≤ '2' then designated else number 1)
  | leading => some (number 1)
  | number n => if n < maxDigits then some (number (n + 1)) else none
  | separator => some (number 1)
  | designated => none
  | final => none

/-- Reads one semicolon, which separates numbers; before the first of them it counts
as a leading character. -/
def onSemicolon : Control → Option Control
  | start => some leading
  | charset => some leading
  | leading => some leading
  | number n => if n < maxDigits then some separator else none
  | separator => some separator
  | designated => none
  | final => none

/-- Reads one leading character. -/
def onLeading : Control → Option Control
  | start => some leading
  | charset => some leading
  | leading => some leading
  | _ => none

/-- Reads one parenthesis, which directly behind the introducer designates a
character set. -/
def onParenthesis : Control → Option Control
  | start => some charset
  | charset => some leading
  | leading => some leading
  | _ => none

/-- Reads one ending character. -/
def onFinal : Control → Option Control
  | number n => if n < maxDigits then some final else none
  | designated => none
  | final => none
  | _ => some final

/-- Reads one character, if the sequence may go on with it. -/
def step (state : Control) (c : Char) : Option Control :=
  if c.isDigit then onDigit c state
  else if c = ';' then onSemicolon state
  else if c = '(' ∨ c = ')' then onParenthesis state
  else if c = '[' ∨ c = '#' ∨ c = '?' then onLeading state
  else if isFinal c then onFinal state
  else none

/-- Reads as long as the sequence may go on, and returns what is behind the last place
where it may end, if there was one. -/
def run? (state : Control) : List Char → Option (List Char)
  | [] => none
  | c :: s =>
    match state.step c with
    | none => none
    | some next =>
      match next.run? s with
      | some rest => some rest
      | none => if next.accepting then some s else none

theorem length_of_run? {state : Control} {s rest : List Char} (h : state.run? s = some rest) :
    rest.length < s.length := by
  induction s generalizing state with
  | nil => simp [run?] at h
  | cons c s ih =>
    simp only [run?] at h
    split at h
    · simp at h
    · next next hstep =>
      split at h
      · next r hr =>
        obtain rfl := Option.some.inj h
        have := ih hr
        simp only [List.length_cons]
        omega
      · split at h
        · obtain rfl := Option.some.inj h
          simp
        · simp at h

end Control

/-! ### Strings -/

/-- The bell, which ends a command string. -/
def bell : Char := '\x07'

/-- The one-character form of the string terminator. -/
def stringTerminator : Char := '\u009c'

/-- The one-character form of the control sequence introducer. -/
def controlIntroducer : Char := '\u009b'

/-- The two kinds of string. -/
inductive StringKind where
  /-- Ended by a bell or a string terminator. -/
  | command
  /-- Ended by a string terminator only; two escape characters in a row are read as
  a pair, so that the second cannot begin a terminator. -/
  | device
deriving DecidableEq

/-- What is behind the terminator of a string, or nothing if it has none. -/
def skipString (kind : StringKind) : List Char → List Char
  | [] => []
  | [_] => []
  | c :: d :: s =>
    if c = stringTerminator ∨ (c = bell ∧ kind = .command) then d :: s
    else if c = escapeChar ∧ d = '\\' then s
    else if c = escapeChar ∧ d = escapeChar ∧ kind = .device then skipString kind s
    else skipString kind (d :: s)

theorem length_skipString_le (kind : StringKind) (s : List Char) :
    (skipString kind s).length ≤ s.length := by
  fun_induction skipString kind s with
  | case1 => simp
  | case2 => simp
  | case3 => simp
  | case4 =>
    simp only [List.length_cons]
    omega
  | case5 c d s h1 h2 h3 ih =>
    simp only [List.length_cons]
    omega
  | case6 c d s h1 h2 h3 ih =>
    simp only [List.length_cons] at ih ⊢
    omega

/-! ### Stripping -/

/-- The text without its escape sequences. -/
def stripEscapes : List Char → List Char
  | [] => []
  | c :: s =>
    if c = escapeChar ∧ s.head? = some ']' then stripEscapes (skipString .command s.tail)
    else if c = escapeChar ∧ s.head? = some 'P' then stripEscapes (skipString .device s.tail)
    else if c = escapeChar ∨ c = controlIntroducer then
      match _h : Control.start.run? s with
      | some rest => stripEscapes rest
      | none => c :: stripEscapes s
    else c :: stripEscapes s
termination_by s => s.length
decreasing_by
  · have := length_skipString_le .command s.tail
    simp only [List.length_tail] at this
    simp only [List.length_cons]
    omega
  · have := length_skipString_le .device s.tail
    simp only [List.length_tail] at this
    simp only [List.length_cons]
    omega
  · have := Control.length_of_run? _h
    simp only [List.length_cons]
    omega
  · simp
  · simp

end ChatTint
