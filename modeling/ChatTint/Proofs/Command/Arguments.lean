import Mathlib.Data.List.Nodup
import ChatTint.Command.Arguments
import ChatTint.Proofs.Terminal.Rendition

/-!
# Command lines and the settings that they ask for

Settings can be asked for in many ways.  A flag has its full name or stands in a group of short
ones, a value stands behind an equals sign or in an argument of its own, and an option may be
left out if its value is the usual one.  These parts come in any order, with words of the text
between them that no reader takes for an option.  Behind two dashes all that is left of the
words may look like anything.  Every such command line is read as the settings it was made for.

The reader puts off the look at a value in an argument of its own.  So what it has read is said
of the reader that it settles to: there the words, the flags and the values so far are in place.
Each part of a command line adds its own to them, whatever the part in front of it was.

## Main definitions

* `IsPlainWord`, `ShortFlag` — words that may stand between options, and flags with short names.
* `CommandPart`, `CommandLine` — the parts of a command line, and the whole of it.
* `CommandLine.Spells` — a command line asks for some settings, in whatever spelling.
* `Settings.readerOf` — a reader to which words, flags and options have been given.

## Main results

* `passCount?_decimal` — a number of passes is read back from its digits.
* `ArgumentReader.read_part`, `ArgumentReader.read_parts` — what the reader makes of one part, and
  of several.
* `CommandLine.exists_spells` — all settings can be asked for.
* `ofArguments_of_spells` — a command line is read as the settings that it spells.
-/

namespace ChatTint

/-! ### Command lines -/

/-- A word that is not taken for an option: it does not begin with a dash, or it is one. -/
def IsPlainWord (w : List Char) : Prop := w.head? ≠ some '-' ∨ w = ['-']

instance (w : List Char) : Decidable (IsPlainWord w) :=
  inferInstanceAs (Decidable (w.head? ≠ some '-' ∨ w = ['-']))

/-- A flag and its short name. -/
structure ShortFlag where
  flag : Flag
  letter : Char
  named : flag.letter? = some letter := by decide

/-- A part of a command line. -/
inductive CommandPart where
  /-- A word of the text. -/
  | word (w : List Char) (plain : IsPlainWord w := by decide)
  /-- A flag, by its full name. -/
  | flag (flag : Flag)
  /-- Flags by their short names, in one group. -/
  | group (first : ShortFlag) (more : List ShortFlag)
  /-- An option with its value behind an equals sign. -/
  | joined (option : ValueOption)
  /-- An option, and its value as the next argument. -/
  | apart (option : ValueOption)

namespace Settings

/-- Whether a flag is set. -/
def hasFlag (settings : Settings) : Flag → Bool
  | .legacy => settings.depth == .palette
  | .check => settings.check
  | .verbose => settings.verbose
  | .help => false
  | .version => false

/-- The value of an option, as it is written. -/
def valueText (settings : Settings) : ValueOption → List Char
  | .output => settings.escapes.name
  | .maxPasses => decimal settings.maxPasses

end Settings

namespace CommandPart

/-- The arguments that a part consists of. -/
def arguments (settings : Settings) : CommandPart → List (List Char)
  | word w _ => [w]
  | flag f => ['-' :: '-' :: f.name]
  | group first more => ['-' :: first.letter :: more.map ShortFlag.letter]
  | joined option => ['-' :: '-' :: (option.name ++ '=' :: settings.valueText option)]
  | apart option => ['-' :: '-' :: option.name, settings.valueText option]

/-- The words in a part. -/
def words : CommandPart → List (List Char)
  | word w _ => [w]
  | _ => []

/-- The flags in a part. -/
def flags : CommandPart → List Flag
  | flag f => [f]
  | group first more => first.flag :: more.map ShortFlag.flag
  | _ => []

/-- The option in a part whose value it gives. -/
def options : CommandPart → List ValueOption
  | joined option => [option]
  | apart option => [option]
  | _ => []

end CommandPart

/-- A command line: its parts, and the words behind two dashes. -/
structure CommandLine where
  parts : List CommandPart
  behind : List (List Char)

namespace CommandLine

/-- The arguments of a command line. -/
def arguments (settings : Settings) (line : CommandLine) : List (List Char) :=
  line.parts.flatMap (CommandPart.arguments settings) ++ ['-', '-'] :: line.behind

/-- A command line asks for some settings: it has the words in order, each flag that is set
once and no other, and no option twice; the options without a value have their usual one. -/
structure Spells (line : CommandLine) (settings : Settings) : Prop where
  words : line.parts.flatMap CommandPart.words ++ line.behind = settings.words
  flags_nodup : (line.parts.flatMap CommandPart.flags).Nodup
  mem_flags : ∀ flag,
    flag ∈ line.parts.flatMap CommandPart.flags ↔ settings.hasFlag flag = true
  options_nodup : (line.parts.flatMap CommandPart.options).Nodup
  omitted : ∀ option, option ∉ line.parts.flatMap CommandPart.options →
    settings.valueText option = ({} : Settings).valueText option

end CommandLine

/-! ### Values -/

/-- **A number of passes is read back from its digits**, if it is in the range. -/
theorem passCount?_decimal {n : Nat} (h : n < passBound) : passCount? (decimal n) = some n := by
  -- no number begins with a plus sign
  have hhead : (decimal n).head? ≠ some '+' := fun hplus =>
    absurd (isDigit_of_mem_decimal (List.mem_of_mem_head? hplus)) (by decide)
  simp only [passCount?, if_neg hhead, isEmpty_decimal, any_not_isDigit_decimal, natOfDigits,
    foldl_decimal, if_pos h]
  rfl

theorem decimal_injective {m n : Nat} (h : decimal m = decimal n) : m = n := by
  rw [← foldl_decimal m, h, foldl_decimal]

theorem EscapePolicy.name_injective {p q : EscapePolicy} (h : p.name = q.name) : p = q := by
  have hp := ofName?_name p
  rw [h, ofName?_name] at hp
  exact (Option.some.inj hp).symm

/-- The text of a value is not taken for an option. -/
theorem Settings.isPlainWord_valueText (settings : Settings) (option : ValueOption) :
    IsPlainWord (settings.valueText option) := by
  refine Or.inl ?_
  cases option with
  | output =>
    show settings.escapes.name.head? ≠ some '-'
    cases settings.escapes <;> decide
  | maxPasses =>
    intro hdash
    exact absurd (isDigit_of_mem_decimal (List.mem_of_mem_head? hdash)) (by decide)

/-! ### Names -/

theorem Flag.name_ne_nil (flag : Flag) : flag.name ≠ [] := by cases flag <;> decide

theorem ValueOption.name_ne_nil (option : ValueOption) : option.name ≠ [] := by
  cases option <;> decide

theorem ShortFlag.ofLetter?_letter (member : ShortFlag) :
    Flag.ofLetter? member.letter = some member.flag := by
  obtain ⟨flag, letter, named⟩ := member
  cases flag <;> cases named <;> decide

/-- A group of short names does not begin with a second dash. -/
theorem ShortFlag.letter_ne_dash (member : ShortFlag) : member.letter ≠ '-' := by
  intro hletter
  have hdash : Flag.ofLetter? '-' = none := rfl
  rw [← hletter, member.ofLetter?_letter] at hdash
  exact absurd hdash (Option.some_ne_none _)

namespace ArgumentReader

/-! ### Arguments, kind by kind -/

theorem read_long (r : ArgumentReader) {body : List Char} (h : body ≠ [])
    (rest : List (List Char)) :
    r.read (('-' :: '-' :: body) :: rest) = (r.long body).bind fun q => q.read rest := by
  have hdashes : ('-' :: '-' :: body : List Char) ≠ ['-', '-'] := by simpa using h
  rw [read, if_neg hdashes]
  rfl

theorem read_group (r : ArgumentReader) {c : Char} (h : c ≠ '-') (s : List Char)
    (rest : List (List Char)) :
    r.read (('-' :: c :: s) :: rest) =
      ((c :: s).foldlM short r).bind fun q => q.read rest := by
  have hdashes : ('-' :: c :: s : List Char) ≠ ['-', '-'] := by simp [h]
  rw [read, if_neg hdashes]
  · rfl
  · exact h

theorem read_plain (r : ArgumentReader) {w : List Char} (h : IsPlainWord w)
    (rest : List (List Char)) :
    r.read (w :: rest) = (r.plain w).bind fun q => q.read rest := by
  have hdash : ∀ c s, w ≠ '-' :: c :: s := by
    rintro c s rfl
    rcases h with h | h
    · exact h rfl
    · exact absurd (List.cons.inj h).2 (List.cons_ne_nil _ _)
  rw [read, if_neg (hdash '-' [])]
  · rfl
  · exact hdash '-'
  · exact hdash

theorem read_dashes (r : ArgumentReader) (rest : List (List Char)) :
    r.read (['-', '-'] :: rest) = (rest.foldlM word r).bind settle := by
  rw [read, if_pos rfl]
  rfl

/-! ### Flags, options and words by their names -/

theorem long_flag (r : ArgumentReader) (flag : Flag) : r.long flag.name = r.set flag := by
  cases flag <;> rfl

theorem long_joined (r : ArgumentReader) (option : ValueOption) (value : List Char) :
    r.long (option.name ++ '=' :: value) = r.settle.bind fun q => q.assign value option := by
  have hname : '=' ∉ option.name := by cases option <;> decide
  rw [long, cutAt_append hname]
  cases option <;> rfl

theorem long_apart (r : ArgumentReader) (option : ValueOption) :
    r.long option.name = r.settle.map fun q => { q with waiting := some (option, none) } := by
  cases option <;> cases h : r.settle <;> simp [long, h] <;> rfl

/-- A short name stands for its flag. -/
theorem short_letter (r : ArgumentReader) (member : ShortFlag) :
    r.short member.letter = r.set member.flag := by
  rw [short, member.ofLetter?_letter]

theorem foldlM_short (r : ArgumentReader) (members : List ShortFlag) :
    (members.map ShortFlag.letter).foldlM short r = (members.map ShortFlag.flag).foldlM set r := by
  rw [List.foldlM_map, List.foldlM_map]
  simp only [short_letter]

/-- Where no option waits for its value, a word that is not taken for an option is one of the
text. -/
theorem plain_of_settle {r s : ArgumentReader} (h : r.settle = .ok s) (w : List Char) :
    r.plain w = .ok { s with words := s.words ++ [w] } := by
  rw [plain]
  split
  · next hwaiting =>
    rw [settle, hwaiting] at h
    exact absurd h (by simp)
  · rw [word, h]
    rfl

end ArgumentReader

/-! ### What has been read -/

/-- The reader to which words, flags and options of some settings have been given, and nothing
else. -/
def Settings.readerOf (settings : Settings) (words : List (List Char)) (flags : List Flag)
    (options : List ValueOption) : ArgumentReader where
  words := words
  palette := flags.contains .legacy
  check := flags.contains .check
  verbose := flags.contains .verbose
  escapes := if .output ∈ options then some settings.escapes else none
  maxPasses := if .maxPasses ∈ options then some settings.maxPasses else none

/-- What is given once has not been given before. -/
theorem notMem_of_nodup_append {α : Type} {given more : List α} {a : α}
    (h : (given ++ a :: more).Nodup) : a ∉ given := fun hmem =>
  List.disjoint_of_nodup_append h hmem List.mem_cons_self

namespace ArgumentReader

variable {settings : Settings} {words : List (List Char)} {flags : List Flag}
  {options : List ValueOption} {r : ArgumentReader}

theorem settle_readerOf : (settings.readerOf words flags options).settle =
    .ok (settings.readerOf words flags options) := rfl

/-- A flag that has not been given is set. -/
theorem set_readerOf (h : r.settle = .ok (settings.readerOf words flags options)) {flag : Flag}
    (hset : settings.hasFlag flag = true) (hnew : flag ∉ flags) :
    r.set flag = .ok (settings.readerOf words (flags ++ [flag]) options) := by
  rw [set, h]
  cases flag with
  | legacy => simp [Settings.readerOf, hnew, bind, Except.bind]
  | check => simp [Settings.readerOf, hnew, bind, Except.bind]
  | verbose => simp [Settings.readerOf, hnew, bind, Except.bind]
  | help => exact absurd hset Bool.false_ne_true
  | version => exact absurd hset Bool.false_ne_true

/-- An option that has not been given takes its value. -/
theorem assign_readerOf (hbound : settings.maxPasses < passBound) {option : ValueOption}
    (hnew : option ∉ options) :
    (settings.readerOf words flags options).assign (settings.valueText option) option =
      .ok (settings.readerOf words flags (options ++ [option])) := by
  cases option with
  | output =>
    rw [assign, Settings.valueText, EscapePolicy.ofName?_name]
    simp [Settings.readerOf, hnew]
  | maxPasses =>
    rw [assign, Settings.valueText, passCount?_decimal hbound]
    simp [Settings.readerOf, hnew]

/-- Flags that have not been given are set one after the other. -/
theorem foldlM_set {more : List Flag}
    (h : r.settle = .ok (settings.readerOf words flags options)) (hnodup : (flags ++ more).Nodup)
    (hset : ∀ flag ∈ more, settings.hasFlag flag = true) :
    ∃ q, more.foldlM set r = .ok q ∧
      q.settle = .ok (settings.readerOf words (flags ++ more) options) := by
  induction more generalizing r flags with
  | nil =>
    rw [List.append_nil]
    exact ⟨r, rfl, h⟩
  | cons flag more ih =>
    have hfirst := set_readerOf h (hset flag List.mem_cons_self) (notMem_of_nodup_append hnodup)
    rw [List.append_cons] at hnodup ⊢
    obtain ⟨q, hq, hsettle⟩ :=
      ih settle_readerOf hnodup fun f hf => hset f (List.mem_cons_of_mem flag hf)
    refine ⟨q, ?_, hsettle⟩
    rw [List.foldlM_cons, hfirst]
    exact hq

/-- **What the reader makes of one part**, whatever stands behind it. -/
theorem read_part (hbound : settings.maxPasses < passBound)
    (h : r.settle = .ok (settings.readerOf words flags options)) {part : CommandPart}
    (hflags : (flags ++ part.flags).Nodup)
    (hset : ∀ flag ∈ part.flags, settings.hasFlag flag = true)
    (hoptions : (options ++ part.options).Nodup) :
    ∃ q : ArgumentReader, (∀ rest, r.read (part.arguments settings ++ rest) = q.read rest) ∧
      q.settle = .ok (settings.readerOf (words ++ part.words) (flags ++ part.flags)
        (options ++ part.options)) := by
  cases part with
  | word w plain =>
    refine ⟨settings.readerOf (words ++ [w]) flags options, fun rest => ?_, ?_⟩
    · show r.read (w :: rest) = _
      rw [read_plain r plain, plain_of_settle h]
      rfl
    · simp only [CommandPart.flags, CommandPart.options, List.append_nil]
      rfl
  | flag f =>
    have hnew : f ∉ flags := notMem_of_nodup_append hflags
    refine ⟨settings.readerOf words (flags ++ [f]) options, fun rest => ?_, ?_⟩
    · show r.read (('-' :: '-' :: f.name) :: rest) = _
      rw [read_long r f.name_ne_nil, long_flag, set_readerOf h (hset f List.mem_cons_self) hnew]
      rfl
    · simp only [CommandPart.words, CommandPart.options, List.append_nil]
      rfl
  | group first more =>
    obtain ⟨q, hq, hsettle⟩ := foldlM_set h hflags hset
    refine ⟨q, fun rest => ?_, ?_⟩
    · show r.read (('-' :: first.letter :: more.map ShortFlag.letter) :: rest) = _
      rw [read_group r first.letter_ne_dash]
      show (((first :: more).map ShortFlag.letter).foldlM short r).bind _ = _
      rw [foldlM_short]
      exact congrArg (Except.bind · fun q => q.read rest) hq
    · simp only [CommandPart.words, CommandPart.options, List.append_nil]
      exact hsettle
  | joined option =>
    have hnew : option ∉ options := notMem_of_nodup_append hoptions
    have hbody : option.name ++ '=' :: settings.valueText option ≠ [] := by simp
    refine ⟨settings.readerOf words flags (options ++ [option]), fun rest => ?_, ?_⟩
    · show r.read (('-' :: '-' :: (option.name ++ '=' :: settings.valueText option)) :: rest) = _
      rw [read_long r hbody, long_joined, h]
      exact congrArg (Except.bind · fun q => q.read rest) (assign_readerOf hbound hnew)
    · simp only [CommandPart.words, CommandPart.flags, List.append_nil]
      rfl
  | apart option =>
    have hnew : option ∉ options := notMem_of_nodup_append hoptions
    -- the value waits, to be looked at when the next argument is
    refine ⟨{ settings.readerOf words flags options with
      waiting := some (option, some (settings.valueText option)) }, fun rest => ?_, ?_⟩
    · show r.read (('-' :: '-' :: option.name) :: settings.valueText option :: rest) = _
      rw [read_long r option.name_ne_nil, long_apart, h]
      exact read_plain _ (settings.isPlainWord_valueText option) rest
    · simp only [CommandPart.words, CommandPart.flags, List.append_nil]
      exact assign_readerOf hbound hnew

/-- **What the reader makes of several parts.** -/
theorem read_parts (hbound : settings.maxPasses < passBound)
    (h : r.settle = .ok (settings.readerOf words flags options)) {parts : List CommandPart}
    (hflags : (flags ++ parts.flatMap CommandPart.flags).Nodup)
    (hset : ∀ flag ∈ parts.flatMap CommandPart.flags, settings.hasFlag flag = true)
    (hoptions : (options ++ parts.flatMap CommandPart.options).Nodup) :
    ∃ q : ArgumentReader, (∀ rest, r.read (parts.flatMap (CommandPart.arguments settings) ++ rest) =
        q.read rest) ∧
      q.settle = .ok (settings.readerOf (words ++ parts.flatMap CommandPart.words)
        (flags ++ parts.flatMap CommandPart.flags)
        (options ++ parts.flatMap CommandPart.options)) := by
  induction parts generalizing r words flags options with
  | nil =>
    refine ⟨r, fun rest => rfl, ?_⟩
    simp only [List.flatMap_nil, List.append_nil]
    exact h
  | cons part parts ih =>
    simp only [List.flatMap_cons, ← List.append_assoc] at hflags hoptions ⊢
    rw [List.flatMap_cons, List.forall_mem_append] at hset
    obtain ⟨q, hq, hsettle⟩ := read_part hbound h hflags.of_append_left hset.1
      hoptions.of_append_left
    obtain ⟨q', hq', hsettle'⟩ := ih hsettle hflags hset.2 hoptions
    refine ⟨q', fun rest => ?_, hsettle'⟩
    rw [List.append_assoc, hq, hq']

/-- Behind two dashes everything is a word. -/
theorem foldlM_word (h : r.settle = .ok (settings.readerOf words flags options))
    (behind : List (List Char)) :
    (behind.foldlM word r).bind settle =
      .ok (settings.readerOf (words ++ behind) flags options) := by
  induction behind generalizing r words with
  | nil =>
    rw [List.append_nil]
    exact h
  | cons w behind ih =>
    have hword : r.word w = .ok (settings.readerOf (words ++ [w]) flags options) := by
      rw [word, h]
      rfl
    rw [List.append_cons words w behind, List.foldlM_cons, hword]
    exact ih settle_readerOf

end ArgumentReader

/-! ### Command lines are read back -/

namespace CommandLine

/-- What has been given in the end makes the settings. -/
theorem Spells.settings_readerOf {line : CommandLine} {settings : Settings}
    (h : line.Spells settings) :
    (settings.readerOf (line.parts.flatMap CommandPart.words ++ line.behind)
      (line.parts.flatMap CommandPart.flags)
      (line.parts.flatMap CommandPart.options)).settings = settings := by
  have hflags : ∀ flag, (line.parts.flatMap CommandPart.flags).contains flag =
      settings.hasFlag flag := fun flag => by
    rw [Bool.eq_iff_iff, List.contains_iff_mem, h.mem_flags]
  have hescapes : (if .output ∈ line.parts.flatMap CommandPart.options then some settings.escapes
      else none).getD .auto = settings.escapes := by
    split
    · rfl
    · next hnone =>
      have hname : settings.escapes.name = EscapePolicy.auto.name := h.omitted .output hnone
      exact (EscapePolicy.name_injective hname).symm
  have hpasses : (if .maxPasses ∈ line.parts.flatMap CommandPart.options then
      some settings.maxPasses else none).getD defaultMaxPasses = settings.maxPasses := by
    split
    · rfl
    · next hnone =>
      have hdigits : decimal settings.maxPasses = decimal defaultMaxPasses :=
        h.omitted .maxPasses hnone
      exact (decimal_injective hdigits).symm
  have hdepth : (if settings.hasFlag .legacy then Depth.palette else .full) = settings.depth := by
    rw [Settings.hasFlag]
    cases settings.depth <;> rfl
  simp only [ArgumentReader.settings, Settings.readerOf, hflags, hescapes, hpasses, hdepth, h.words]
  rfl

/-- **All settings can be asked for**, by full names and with all words behind two dashes. -/
theorem exists_spells (settings : Settings) : ∃ line : CommandLine, line.Spells settings := by
  let set := Flag.all.filter settings.hasFlag
  let parts := set.map CommandPart.flag ++ ValueOption.all.map CommandPart.joined
  have hwords : parts.flatMap CommandPart.words = [] := by
    simp [parts, List.flatMap_map, CommandPart.words]
  have hflags : parts.flatMap CommandPart.flags = set := by
    simp [parts, List.flatMap_map, CommandPart.flags]
  have hoptions : parts.flatMap CommandPart.options = ValueOption.all := by
    simp [parts, List.flatMap_map, CommandPart.options]
  refine ⟨⟨parts, settings.words⟩, ?_, ?_, ?_, ?_, ?_⟩
  · rw [hwords, List.nil_append]
  · rw [hflags]
    exact (by decide : Flag.all.Nodup).filter _
  · intro flag
    have hall : flag ∈ Flag.all := by cases flag <;> decide
    rw [hflags, List.mem_filter]
    exact and_iff_right hall
  · rw [hoptions]
    decide
  · intro option hnone
    rw [hoptions] at hnone
    exact absurd (by cases option <;> decide) hnone

end CommandLine

/-- **A command line is read as the settings that it spells**, for all settings with a number of
passes in the range: flags by full or short names and in groups, values in either way, usual
values left out or not, all in any order and with words between them, and behind two dashes
the words that are left, whatever they look like.  For all settings there is such a command
line. -/
theorem ofArguments_of_spells {settings : Settings} (hbound : settings.maxPasses < passBound) :
    (∃ line : CommandLine, line.Spells settings) ∧
    ∀ line : CommandLine, line.Spells settings →
      Settings.ofArguments (line.arguments settings) = .ok settings := by
  refine ⟨CommandLine.exists_spells settings, fun line h => ?_⟩
  have hstart : ArgumentReader.settle {} = .ok (settings.readerOf [] [] []) := rfl
  obtain ⟨q, hq, hsettle⟩ := ArgumentReader.read_parts hbound hstart h.flags_nodup
    (fun flag hflag => (h.mem_flags flag).mp hflag) h.options_nodup
  rw [Settings.ofArguments, CommandLine.arguments, hq, ArgumentReader.read_dashes,
    ArgumentReader.foldlM_word hsettle]
  exact congrArg Except.ok h.settings_readerOf

theorem ofArguments_of_spells_mixed :
    let settings : Settings := {
      words := ["a=".toList, "-".toList, "--legacy".toList, [], "--".toList, "-x".toList]
      depth := .palette, escapes := .always, check := true, maxPasses := 18446744073709551615
      verbose := true }
    let line : CommandLine := {
      parts := [.word "a=".toList, .group { flag := .verbose, letter := 'v' }
          [{ flag := .legacy, letter := 'l' }], .apart .maxPasses, .word "-".toList,
        .flag .check, .joined .output]
      behind := ["--legacy".toList, [], "--".toList, "-x".toList] }
    let quiet : Settings := {
      depth := .palette, escapes := .never, verbose := true, maxPasses := 0 }
    let quietLine : CommandLine := {
      parts := [.flag .legacy, .apart .output, .joined .maxPasses, .flag .verbose], behind := [] }
    let usual : Settings := { words := ["a".toList], check := true }
    let usualLine : CommandLine := {
      parts := [.joined .output, .flag .check, .word "a".toList], behind := [] }
    settings.maxPasses < passBound ∧ line.Spells settings ∧
    line.arguments settings = ["a=", "-vl", "--max-passes", "18446744073709551615", "-", "--check",
      "--output=term", "--", "--legacy", "", "--", "-x"].map String.toList ∧
    Settings.ofArguments (line.arguments settings) = .ok settings ∧
    quiet.maxPasses < passBound ∧ quietLine.Spells quiet ∧
    quietLine.arguments quiet = ["--legacy", "--output", "text", "--max-passes=0", "--verbose",
      "--"].map String.toList ∧
    Settings.ofArguments (quietLine.arguments quiet) = .ok quiet ∧
    usual.maxPasses < passBound ∧ usualLine.Spells usual ∧
    usualLine.arguments usual = ["--output=auto", "--check", "a", "--"].map String.toList ∧
    Settings.ofArguments (usualLine.arguments usual) = .ok usual := by
  intro settings line quiet quietLine usual usualLine
  have hbound : settings.maxPasses < passBound := by decide
  have hspells : line.Spells settings := {
    words := rfl
    flags_nodup := by decide
    mem_flags := fun flag => by cases flag <;> decide
    options_nodup := by decide
    omitted := fun option hnone => absurd (by cases option <;> decide) hnone }
  have hquiet : quiet.maxPasses < passBound := by decide
  have hquietSpells : quietLine.Spells quiet := {
    words := rfl
    flags_nodup := by decide
    mem_flags := fun flag => by cases flag <;> decide
    options_nodup := by decide
    omitted := fun option hnone => absurd (by cases option <;> decide) hnone }
  have husual : usual.maxPasses < passBound := by decide
  have husualSpells : usualLine.Spells usual := {
    words := rfl
    flags_nodup := by decide
    mem_flags := fun flag => by cases flag <;> decide
    options_nodup := by decide
    -- the number of passes is left out, and it is the usual one
    omitted := fun option hnone => by
      cases option with
      | output => exact absurd (by decide) hnone
      | maxPasses => rfl }
  exact ⟨hbound, hspells, by decide +kernel, (ofArguments_of_spells hbound).2 line hspells,
    hquiet, hquietSpells, by decide +kernel,
    (ofArguments_of_spells hquiet).2 quietLine hquietSpells,
    husual, husualSpells, by decide +kernel,
    (ofArguments_of_spells husual).2 usualLine husualSpells⟩

end ChatTint
