/-!
# Text as bytes

Streams carry bytes and the compiler works on characters.  The bytes of a text
are its UTF-8 form, in which a character takes one to four bytes; bytes that are
the form of no text are refused.

* `encodeUtf8`, `decodeUtf8?` — between text and bytes.
* `utf8Size` — the number of bytes.
* `utf8Size_of_ascii` — a text of ASCII has as many bytes as characters.
* `decodeUtf8?_encodeUtf8`, `encodeUtf8_of_decodeUtf8?` — the two are inverse to each
  other.
-/

namespace ChatTint

/-- The bytes of a text. -/
def encodeUtf8 (text : List Char) : List UInt8 := text.flatMap String.utf8EncodeChar

/-- The text of some bytes, if there is one. -/
def decodeUtf8? (bytes : List UInt8) : Option (List Char) :=
  bytes.toByteArray.utf8Decode?.map Array.toList

/-- The number of bytes of a text. -/
def utf8Size (text : List Char) : Nat := text.foldr (fun c size => c.utf8Size + size) 0

/-! ### Sizes -/

@[simp] theorem utf8Size_nil : utf8Size [] = 0 := rfl

@[simp] theorem utf8Size_cons (c : Char) (s : List Char) :
    utf8Size (c :: s) = c.utf8Size + utf8Size s := rfl

@[simp] theorem utf8Size_append (s t : List Char) :
    utf8Size (s ++ t) = utf8Size s + utf8Size t := by
  induction s with
  | nil => exact (Nat.zero_add _).symm
  | cons c s ih => rw [List.cons_append, utf8Size_cons, utf8Size_cons, ih, Nat.add_assoc]

/-- A text of ASCII has as many bytes as characters. -/
theorem utf8Size_of_ascii {s : List Char} (h : ∀ c ∈ s, c.toNat < 128) :
    utf8Size s = s.length := by
  induction s with
  | nil => rfl
  | cons c s ih =>
    obtain ⟨hc, hs⟩ := List.forall_mem_cons.mp h
    have hval : c.val.toNat = c.toNat := rfl
    have hsize : c.utf8Size = 1 := by
      rw [Char.utf8Size_eq_one_iff, UInt32.le_iff_toNat_le]
      show c.val.toNat ≤ 127
      omega
    rw [utf8Size_cons, ih hs, hsize, List.length_cons, Nat.add_comm]

/-! ### Bytes -/

@[simp] theorem encodeUtf8_nil : encodeUtf8 [] = [] := rfl

theorem encodeUtf8_append (s t : List Char) : encodeUtf8 (s ++ t) = encodeUtf8 s ++ encodeUtf8 t :=
  List.flatMap_append

theorem length_encodeUtf8 (text : List Char) : (encodeUtf8 text).length = utf8Size text := by
  induction text with
  | nil => rfl
  | cons c text ih =>
    have hcons : encodeUtf8 (c :: text) = String.utf8EncodeChar c ++ encodeUtf8 text :=
      List.flatMap_cons
    rw [hcons, List.length_append, ih, String.length_utf8EncodeChar, utf8Size_cons]

/-- The bytes of a text are read back as that text. -/
theorem decodeUtf8?_encodeUtf8 (text : List Char) : decodeUtf8? (encodeUtf8 text) = some text := by
  have h : (encodeUtf8 text).toByteArray = text.utf8Encode := rfl
  simp [decodeUtf8?, h, List.utf8Decode?_utf8Encode]

/-- Only the bytes of a text are read as that text. -/
theorem encodeUtf8_of_decodeUtf8? {bytes : List UInt8} {text : List Char}
    (h : decodeUtf8? bytes = some text) : bytes = encodeUtf8 text := by
  obtain ⟨chars, hchars, rfl⟩ := Option.map_eq_some_iff.mp h
  obtain ⟨m, hm⟩ := ByteArray.isSome_utf8Decode?_iff.mp (Option.isSome_of_eq_some hchars)
  rw [hm, List.utf8Decode?_utf8Encode, Option.some.injEq] at hchars
  subst hchars
  have hbytes := congrArg (fun b => b.data.toList) hm
  rw [show m.utf8Encode = (encodeUtf8 m).toByteArray from rfl] at hbytes
  simpa only [List.toList_data_toByteArray] using hbytes

end ChatTint
