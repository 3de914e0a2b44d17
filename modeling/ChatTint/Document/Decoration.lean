import ChatTint.Text.Case

/-!
# Decorations of text, and sets of them

Five decorations can be switched on for a piece of text, in any combination.
Their order is the order in which they are written wherever several are
written.

* `Decoration.all`, `Decoration.name`, `Decoration.ofName?` — the decorations,
  their tag names, and the short names that tags may use instead.
* `Decorations` — a set of decorations, with `has`, `insert` and `toList`.
-/

namespace ChatTint

/-- A way of setting text apart from other text. -/
inductive Decoration where
  /-- Unreadable, by letters that change all the time. -/
  | obfuscated
  /-- Heavy letters. -/
  | bold
  /-- A line through the letters. -/
  | strikethrough
  /-- A line under the letters. -/
  | underlined
  /-- Slanted letters. -/
  | italic
deriving DecidableEq

namespace Decoration

/-- The decorations, in the order in which they are written. -/
def all : List Decoration := [obfuscated, bold, strikethrough, underlined, italic]

theorem mem_all (d : Decoration) : d ∈ all := by cases d <;> decide

/-- The full tag name of a decoration. -/
def name : Decoration → List Char
  | obfuscated => "obfuscated".toList
  | bold => "bold".toList
  | strikethrough => "strikethrough".toList
  | underlined => "underlined".toList
  | italic => "italic".toList

/-- The names that a tag may give a decoration: the full name and the short ones. -/
def names : Decoration → List (List Char)
  | obfuscated => ["obfuscated".toList, "obf".toList]
  | bold => ["bold".toList, "b".toList]
  | strikethrough => ["strikethrough".toList, "st".toList]
  | underlined => ["underlined".toList, "u".toList]
  | italic => ["italic".toList, "i".toList, "em".toList]

/-- The decoration of a full or short name in any case. -/
def ofName? (s : List Char) : Option Decoration :=
  all.find? fun d => d.names.contains (lowercase s)

/-- A decoration's full name is read back as that decoration. -/
theorem ofName?_name (d : Decoration) : ofName? d.name = some d := by cases d <;> decide

end Decoration

/-! ### Sets of decorations -/

/-- A set of decorations. -/
structure Decorations where
  /-- Whether the text is obfuscated. -/
  obfuscated : Bool := false
  /-- Whether the text is bold. -/
  bold : Bool := false
  /-- Whether the text is struck through. -/
  strikethrough : Bool := false
  /-- Whether the text is underlined. -/
  underlined : Bool := false
  /-- Whether the text is italic. -/
  italic : Bool := false
deriving DecidableEq

namespace Decorations

/-- The set without any decoration. -/
def empty : Decorations := {}

/-- Whether a decoration is in the set. -/
def has (ds : Decorations) : Decoration → Bool
  | .obfuscated => ds.obfuscated
  | .bold => ds.bold
  | .strikethrough => ds.strikethrough
  | .underlined => ds.underlined
  | .italic => ds.italic

/-- The set with one decoration more. -/
def insert (ds : Decorations) : Decoration → Decorations
  | .obfuscated => { ds with obfuscated := true }
  | .bold => { ds with bold := true }
  | .strikethrough => { ds with strikethrough := true }
  | .underlined => { ds with underlined := true }
  | .italic => { ds with italic := true }

/-- The decorations of a set, in the order in which they are written. -/
def toList (ds : Decorations) : List Decoration := Decoration.all.filter ds.has

@[simp] theorem has_empty (d : Decoration) : empty.has d = false := by cases d <;> rfl

@[simp] theorem has_insert (ds : Decorations) (d e : Decoration) :
    (ds.insert d).has e = (e == d || ds.has e) := by
  cases d <;> cases e <;> simp [has, insert]

/-- A set is what it holds. -/
theorem ext_has {ds es : Decorations} (h : ∀ d, ds.has d = es.has d) : ds = es := by
  cases ds
  cases es
  simp only [mk.injEq]
  exact ⟨h .obfuscated, h .bold, h .strikethrough, h .underlined, h .italic⟩

theorem mem_toList {ds : Decorations} {d : Decoration} : d ∈ ds.toList ↔ ds.has d = true := by
  simp [toList, Decoration.mem_all]

end Decorations
end ChatTint
