import ChatTint.Proofs.Markup.Pieces
import ChatTint.Proofs.Text.Pattern

/-!
# The pattern of tag texts

A tag text is told by a pattern: one character that may begin it, and any number of
characters that may follow.  So the pattern also tells which tag stands between two
brackets.

## Main definitions

* `tagPattern` — the pattern of tag texts.
* `TagOf content token` — the tag of what stands between two brackets.

## Main results

* `isTagText_iff` — the tag texts are those of the pattern.
* `tagOf_iff` — the tag that is read is the one that the pattern tells.
-/

namespace ChatTint

/-! ### The pattern of tag texts -/

section Pattern

open RegularExpression

/-- The characters with which a tag text may begin. -/
def tagStarts : List Char := "abcdefghijklmnopqrstuvwxyz_#".toList

/-- The characters of which the rest of a tag text may be made. -/
def tagChars : List Char :=
  "abcdefghijklmnopqrstuvwxyzABCDEFGHIJKLMNOPQRSTUVWXYZ0123456789_:#-".toList

/-- The pattern of tag texts. -/
def tagPattern : RegularExpression Char := oneOf tagStarts * (oneOf tagChars).star

/-- The characters of tag texts are characters of ASCII. -/
theorem toNat_lt_of_isTagChar {c : Char} (h : isTagChar c = true) : c.toNat < 128 := by
  unfold isTagChar Char.isAlphanum Char.isAlpha Char.isUpper Char.isLower Char.isDigit at h
  simp only [Bool.or_eq_true, Bool.and_eq_true, decide_eq_true_eq, beq_iff_eq, ge_iff_le,
    UInt32.le_iff_toNat_le] at h
  have hval : c.toNat = c.val.toNat := rfl
  have hz : 'z'.val.toNat = 122 := rfl
  have hZ : 'Z'.val.toNat = 90 := rfl
  have h9 : '9'.val.toNat = 57 := rfl
  rcases h with (((((h | h) | h) | rfl) | rfl) | rfl) | rfl
  · omega
  · omega
  · omega
  · decide
  · decide
  · decide
  · decide

theorem isTagChar_iff {c : Char} : isTagChar c = true ↔ c ∈ tagChars := by
  constructor
  · apply mem_of_ascii
    · intro d hd
      exact toNat_lt_of_isTagChar hd
    · decide +kernel
  · have hall : tagChars.all isTagChar = true := by decide
    exact List.all_eq_true.mp hall c

theorem isTagStart_iff {c : Char} : isTagStart c = true ↔ c ∈ tagStarts := by
  constructor
  · apply mem_of_ascii
    · intro d hd
      exact toNat_lt_of_isTagChar (isTagChar_of_isTagStart hd)
    · decide +kernel
  · have hall : tagStarts.all isTagStart = true := by decide
    exact List.all_eq_true.mp hall c

/-- **The tag texts are those of the pattern.** -/
theorem isTagText_iff {s : List Char} : isTagText s = true ↔ s ∈ tagPattern.matches' := by
  unfold tagPattern
  rw [matches'_mul, Language.mem_mul]
  cases s with
  | nil =>
    refine iff_of_false Bool.false_ne_true ?_
    rintro ⟨w, hw, u, -, happend⟩
    obtain ⟨c, -, rfl⟩ := mem_oneOf_iff.mp hw
    exact List.cons_ne_nil c u happend
  | cons c s =>
    rw [isTagText, Bool.and_eq_true, isTagStart_iff, List.all_eq_true]
    simp only [isTagChar_iff]
    constructor
    · rintro ⟨hc, hs⟩
      exact ⟨[c], mem_oneOf_iff.mpr ⟨c, hc, rfl⟩, s, mem_star_oneOf_iff.mpr hs, rfl⟩
    · rintro ⟨w, hw, u, hu, happend⟩
      obtain ⟨d, hd, rfl⟩ := mem_oneOf_iff.mp hw
      obtain ⟨rfl, rfl⟩ := List.cons.inj happend
      exact ⟨hd, mem_star_oneOf_iff.mp hu⟩

end Pattern

/-! ### Tags by their contents -/

/-- The tag of what stands between two brackets: one that opens for a tag text, one that
closes for a slash and a tag text, and a bad one for anything else. -/
inductive TagOf : List Char → Token → Prop
  | opening {tag : List Char} : tag ∈ tagPattern.matches' → TagOf tag (.openTag tag)
  | closing {tag : List Char} : tag ∈ tagPattern.matches' → TagOf ('/' :: tag) (.closeTag tag)
  | bad {content : List Char} : content ∉ tagPattern.matches' →
      (∀ tag, content = '/' :: tag → tag ∉ tagPattern.matches') → TagOf content (.badTag content)

/-- What is neither a tag text nor a slash and a tag text makes a bad tag. -/
theorem ofContent_badTag {content : List Char} (hopen : isTagText content = false)
    (hclose : ∀ tag, content = '/' :: tag → isTagText tag = false) :
    Token.ofContent content = .badTag content := by
  cases content with
  | nil => rfl
  | cons c s =>
    rw [Token.ofContent, hopen, if_neg Bool.false_ne_true]
    by_cases hc : c = '/'
    · rw [if_pos hc, hclose s (by rw [hc]), if_neg Bool.false_ne_true]
    · rw [if_neg hc]

/-- **The pattern tells the tag that is read.** -/
theorem tagOf_iff {content : List Char} {token : Token} :
    TagOf content token ↔ token = Token.ofContent content := by
  constructor
  · intro h
    cases h with
    | opening htag => exact (ofContent_openTag (isTagText_iff.mpr htag)).symm
    | closing htag => exact (ofContent_closeTag (isTagText_iff.mpr htag)).symm
    | bad hopen hclose =>
      refine (ofContent_badTag ?_ ?_).symm
      · exact Bool.eq_false_iff.mpr fun h => hopen (isTagText_iff.mp h)
      · intro tag htag
        exact Bool.eq_false_iff.mpr fun h => hclose tag htag (isTagText_iff.mp h)
  · rintro rfl
    by_cases hopen : isTagText content = true
    · rw [ofContent_openTag hopen]
      exact .opening (isTagText_iff.mp hopen)
    by_cases hclose : ∃ tag, content = '/' :: tag ∧ isTagText tag = true
    · obtain ⟨tag, rfl, htag⟩ := hclose
      rw [ofContent_closeTag htag]
      exact .closing (isTagText_iff.mp htag)
    · rw [ofContent_badTag (Bool.eq_false_iff.mpr hopen)]
      · refine .bad (fun h => hopen (isTagText_iff.mpr h)) ?_
        intro tag hcontent htag
        exact hclose ⟨tag, hcontent, isTagText_iff.mpr htag⟩
      · intro tag hcontent
        exact Bool.eq_false_iff.mpr fun htag => hclose ⟨tag, hcontent, htag⟩

end ChatTint
