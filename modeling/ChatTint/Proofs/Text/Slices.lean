import ChatTint.Text.Utf8

/-!
# Slices of a text by bytes

A slice of a text is taken between two offsets that count bytes, while a character takes one
to four of them.  So there is a slice only where both offsets stand between two characters
or at an end of the text.  In a text of ASCII they always do, since each of its characters
takes one byte.

## Main definitions

* `cutBytes?` — the two parts of a text at an offset.
* `slice?` — the part of a text between two offsets.

## Main results

* `append_cutBytes?`, `cutBytes?_append` — the cuts that there are.
* `slice?_eq_some_iff` — the slices that there are.
* `slice?_of_ascii` — the slices of a text of ASCII, which are all those in range.
-/

namespace ChatTint

/-- The parts of a text before and behind an offset, if the offset stands between two
characters or at an end. -/
def cutBytes? (offset : Nat) : List Char → Option (List Char × List Char)
  | [] => if offset = 0 then some ([], []) else none
  | c :: s =>
    if offset = 0 then some ([], c :: s)
    else if c.utf8Size ≤ offset then
      (cutBytes? (offset - c.utf8Size) s).map fun (front, back) => (c :: front, back)
    else none

/-- The part of a text between two offsets, if both stand between two characters or at an
end, the second no sooner than the first. -/
def slice? (s : List Char) (start stop : Nat) : Option (List Char) := do
  let outer ← cutBytes? stop s
  let inner ← cutBytes? start outer.1
  return inner.2

/-- The parts of a cut are the text, and the one in front has the size of the offset. -/
theorem append_cutBytes? {offset : Nat} {s front back : List Char}
    (h : cutBytes? offset s = some (front, back)) :
    front ++ back = s ∧ utf8Size front = offset := by
  induction s generalizing offset front with
  | nil =>
    unfold cutBytes? at h
    split at h
    · next hzero =>
      cases h
      exact ⟨rfl, hzero.symm⟩
    · exact absurd h (Option.some_ne_none _).symm
  | cons c s ih =>
    unfold cutBytes? at h
    split at h
    · next hzero =>
      cases h
      exact ⟨rfl, hzero.symm⟩
    · split at h
      · next hle =>
        obtain ⟨⟨front', back'⟩, hcut, hparts⟩ := Option.map_eq_some_iff.mp h
        cases hparts
        obtain ⟨happend, hsize⟩ := ih hcut
        rw [List.cons_append, happend, utf8Size_cons, hsize]
        exact ⟨rfl, by omega⟩
      · exact absurd h (Option.some_ne_none _).symm

/-- A text is cut behind each part in front. -/
theorem cutBytes?_append (front back : List Char) :
    cutBytes? (utf8Size front) (front ++ back) = some (front, back) := by
  induction front with
  | nil =>
    cases back with
    | nil => rfl
    | cons c back => rfl
  | cons c front ih =>
    have hpos := c.utf8Size_pos
    have hrest : c.utf8Size + utf8Size front - c.utf8Size = utf8Size front := by omega
    rw [utf8Size_cons, List.cons_append, cutBytes?, if_neg (by omega), if_pos (by omega), hrest, ih]
    rfl

/-- **There is a slice where both offsets are the size of a part in front.** -/
theorem slice?_eq_some_iff {s piece : List Char} {start stop : Nat} :
    slice? s start stop = some piece ↔ ∃ front back, front ++ piece ++ back = s ∧
      utf8Size front = start ∧ utf8Size (front ++ piece) = stop := by
  constructor
  · intro h
    obtain ⟨⟨front, back⟩, hstop, h⟩ := Option.bind_eq_some_iff.mp h
    obtain ⟨⟨before, piece'⟩, hstart, h⟩ := Option.bind_eq_some_iff.mp h
    cases h
    obtain ⟨rfl, rfl⟩ := append_cutBytes? hstop
    obtain ⟨rfl, rfl⟩ := append_cutBytes? hstart
    exact ⟨before, back, rfl, rfl, rfl⟩
  · rintro ⟨front, back, rfl, rfl, rfl⟩
    rw [slice?, cutBytes?_append, Option.bind_eq_bind, Option.bind_some, cutBytes?_append]
    rfl

/-- No slice begins or ends inside a character. -/
example : slice? "é1".toList 0 2 = some ['é'] ∧ slice? "é1".toList 0 1 = none ∧
    slice? "é1".toList 1 3 = none := by decide

/-- **In a text of ASCII every two offsets in range have a slice between them.** -/
theorem slice?_of_ascii {s : List Char} (hs : ∀ c ∈ s, c.toNat < 128) {start stop : Nat}
    (hstart : start ≤ stop) (hstop : stop ≤ s.length) :
    slice? s start stop = some ((s.take stop).drop start) := by
  have hfront : s.take start ++ (s.take stop).drop start = s.take stop := by
    have htake : s.take start = (s.take stop).take start := by
      rw [List.take_take, Nat.min_eq_left hstart]
    rw [htake, List.take_append_drop]
  have hsize : ∀ n ≤ s.length, utf8Size (s.take n) = n := by
    intro n hn
    rw [utf8Size_of_ascii fun c hc => hs c (List.mem_of_mem_take hc), List.length_take_of_le hn]
  refine slice?_eq_some_iff.mpr ⟨s.take start, s.drop stop, ?_, ?_, ?_⟩
  · rw [hfront, List.take_append_drop]
  · exact hsize start (by omega)
  · rw [hfront]
    exact hsize stop hstop

end ChatTint
