import Blockwork.Text.Utf8
import Mathlib.Data.String.Basic
import Mathlib.Tactic.Common

/-!
# The bytes of a text keep its order and its size

Names of modules are ordered by the number of their bytes and then by the bytes themselves, while
texts are compared by code point. The two readings agree:

* `length_encode` — a text has as many bytes as its UTF-8 size says;
* `encode_lt_encode_iff` — a text is before another exactly when its bytes are.

The second rests on `encodeChar_append_lt`: the encodings of two different characters part at
some byte, and the byte of the smaller character is the smaller one there. So what follows the two
characters does not matter.
-/

namespace Blockwork.Text

/-! ### Single bytes -/

/-- Small numbers are ordered like the bytes they become. -/
theorem toUInt8_lt_toUInt8 {m n : Nat} (hm : m < 256) (hn : n < 256) :
    m.toUInt8 < n.toUInt8 ↔ m < n := by
  rw [UInt8.lt_iff_toNat_lt]
  change m % 256 < n % 256 ↔ m < n
  rw [Nat.mod_eq_of_lt hm, Nat.mod_eq_of_lt hn]

/-- Small numbers that become the same byte are equal. -/
theorem toUInt8_inj {m n : Nat} (hm : m < 256) (hn : n < 256) :
    m.toUInt8 = n.toUInt8 ↔ m = n := by
  rw [← UInt8.toNat_inj]
  change m % 256 = n % 256 ↔ m = n
  rw [Nat.mod_eq_of_lt hm, Nat.mod_eq_of_lt hn]

/-- A character is a number below `0x110000`. -/
theorem toNat_lt_bound (c : Char) : c.toNat < 0x110000 := by
  have h := c.valid
  change c.val.toNat < 0xd800 ∨ 0xdfff < c.val.toNat ∧ c.val.toNat < 0x110000 at h
  change c.val.toNat < 0x110000
  omega

/-! ### Characters -/

/-- **The encodings of different characters part.** Whatever follows, the smaller character has
the smaller bytes. -/
theorem encodeChar_append_lt {c d : Char} (h : c < d) (x y : Bytes) :
    encodeChar c ++ x < encodeChar d ++ y := by
  have hlt : c.toNat < d.toNat := h
  have hd := toNat_lt_bound d
  simp only [encodeChar]
  generalize c.toNat = m at hlt ⊢
  generalize d.toNat = n at hlt hd ⊢
  -- a shorter encoding begins with a smaller byte, so only equal lengths look at later bytes
  split_ifs <;>
    simp (disch := omega) only [List.cons_append, List.nil_append, List.cons_lt_cons_iff,
      toUInt8_lt_toUInt8, toUInt8_inj] <;>
    omega

/-- The number of bytes of a character. -/
theorem length_encodeChar (c : Char) : (encodeChar c).length = c.utf8Size := by
  unfold encodeChar Char.utf8Size
  simp only [UInt32.le_iff_toNat_le]
  change _ = if c.toNat ≤ 127 then 1 else if c.toNat ≤ 2047 then 2
    else if c.toNat ≤ 65535 then 3 else 4
  split_ifs <;> simp only [List.length_cons, List.length_nil] <;> omega

/-! ### Texts -/

/-- The characters of a text are encoded one after the other. -/
theorem flatMap_encodeChar_lt {a b : List Char} (h : a < b) :
    a.flatMap encodeChar < b.flatMap encodeChar := by
  induction h with
  | nil =>
    rename_i d ds
    -- a character has at least one byte, so the empty text is before it
    have hne : encodeChar d ≠ [] := by
      rw [← List.length_pos_iff, length_encodeChar]
      exact Char.utf8Size_pos d
    obtain ⟨x, xs, hx⟩ := List.exists_cons_of_ne_nil hne
    rw [List.flatMap_cons, hx]
    exact List.nil_lt_cons _ _
  | rel h =>
    rw [List.flatMap_cons, List.flatMap_cons]
    exact encodeChar_append_lt h _ _
  | cons _ ih =>
    rw [List.flatMap_cons, List.flatMap_cons]
    exact List.append_left_lt ih

/-- **The order of texts is the order of their bytes.** -/
theorem encode_lt_encode_iff {a b : String} : encode a < encode b ↔ a < b := by
  refine ⟨fun h => ?_, flatMap_encodeChar_lt⟩
  by_contra hab
  -- the order of texts is total, and bytes of texts in the other order are in the other order
  rcases lt_trichotomy a b with hlt | heq | hgt
  · exact hab hlt
  · exact List.lt_irrefl _ (heq ▸ h)
  · exact List.lt_asymm h (flatMap_encodeChar_lt hgt)

/-- Different texts have different bytes. -/
theorem encode_inj {a b : String} : encode a = encode b ↔ a = b := by
  refine ⟨fun h => ?_, fun h => h ▸ rfl⟩
  rcases lt_trichotomy a b with hlt | heq | hgt
  · exact absurd (encode_lt_encode_iff.2 hlt) (h ▸ List.lt_irrefl _)
  · exact heq
  · exact absurd (encode_lt_encode_iff.2 hgt) (h ▸ List.lt_irrefl _)

@[simp] theorem encode_append (a b : String) : encode (a ++ b) = encode a ++ encode b := by
  rw [encode, String.toList_append, List.flatMap_append]
  rfl

/-- **A text has as many bytes as its size says.** -/
theorem length_encode (s : String) : (encode s).length = s.utf8ByteSize := by
  have hlist : ∀ cs : List Char,
      (cs.flatMap encodeChar).length = (String.ofList cs).utf8ByteSize := by
    intro cs
    induction cs with
    | nil => rfl
    | cons c cs ih =>
      rw [List.flatMap_cons, List.length_append, ih, length_encodeChar, String.ofList_cons,
        String.utf8ByteSize_append, String.utf8ByteSize_singleton]
  rw [encode, hlist, String.ofList_toList]

end Blockwork.Text
