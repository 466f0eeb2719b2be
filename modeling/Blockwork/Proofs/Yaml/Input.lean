import Blockwork.Markup.Yaml.Input
import Blockwork.Proofs.Text.Decoding

/-!
# The characters of a document in UTF-8

Bytes of allowed characters give these characters, however they fall into chunks: a chunk without a
problem is taken as a whole, so the pending characters and those of the chunks before are together
what has been read (`Input.readFrom_flatMap`). A text whose first byte begins no byte order mark is
read as UTF-8 from its first byte on.
-/

namespace Blockwork.Yaml

open Text (Bytes encodeChar)

/-! ### One character -/

theorem sequenceSize_eq (b : UInt8) : sequenceSize b
    = if b.toNat < 128 then 1 else if b.toNat < 192 then 0 else if b.toNat < 224 then 2
      else if b.toNat < 240 then 3 else if b.toNat < 248 then 4 else 0 := by
  unfold sequenceSize
  simp only [UInt8.lt_iff_toNat_lt]
  rfl

/-- A sequence whose first byte announces its length, with payloads that add up to a character of
that length. -/
theorem decodeUtf8_sequence {a : UInt8} (c : Char) (tail : Bytes)
    (hsize : sequenceSize a = tail.length + 1) (htail : tail.all Text.isContinuation = true)
    (hsum : tail.foldl (fun n b => n * 64 + Text.payload b)
        (if tail.length + 1 = 1 then a.toNat else a.toNat % Nat.pow 2 (7 - (tail.length + 1)))
      = c.toNat)
    (hlong : ¬ ((tail.length + 1 = 2 ∧ c.toNat < 0x80) ∨ (tail.length + 1 = 3 ∧ c.toNat < 0x800) ∨
      (tail.length + 1 = 4 ∧ c.toNat < 0x10000))) (rest : Bytes) :
    decodeUtf8 a (tail ++ rest) = .char c.toNat (tail.length + 1) := by
  have hbound := Text.toNat_lt_bound c
  have hsurrogate := Text.not_surrogate c
  have hvalid : ¬ ((0xd800 ≤ c.toNat ∧ c.toNat < 0xe000) ∨ 0x110000 ≤ c.toNat) := by omega
  unfold decodeUtf8
  rw [hsize]
  simp only [Nat.add_sub_cancel, List.take_left', htail, hsum]
  rw [if_neg (Nat.succ_ne_zero _), if_neg (Nat.lt_irrefl _), if_neg (by simp), if_neg hlong,
    if_neg hvalid]

/-- **The bytes of a character are read as that character.** -/
theorem decodeUtf8_encodeChar (c : Char) {a : UInt8} {tail : Bytes} (hc : encodeChar c = a :: tail)
    (rest : Bytes) : decodeUtf8 a (tail ++ rest) = .char c.toNat (tail.length + 1) := by
  have hbound := Text.toNat_lt_bound c
  unfold encodeChar at hc
  dsimp only at hc
  split_ifs at hc with hone htwo hthree
  -- the sequence has one to four bytes; each has six bits of the code point, the first one fewer
  all_goals obtain ⟨rfl, rfl⟩ := List.cons.inj hc
  · have hbyte : c.toNat.toUInt8.toNat = c.toNat := Text.toNat_toUInt8 (by omega)
    refine decodeUtf8_sequence c [] ?_ rfl hbyte (by simp) rest
    rw [sequenceSize_eq, hbyte, if_pos hone]
    rfl
  · have hbyte : (0xc0 + c.toNat / 64).toUInt8.toNat = 0xc0 + c.toNat / 64 :=
      Text.toNat_toUInt8 (by omega)
    refine decodeUtf8_sequence c _ ?_ ?_ ?_ ?_ rest
    · -- the leading byte alone says how many follow
      rw [sequenceSize_eq, hbyte, if_neg (by omega), if_neg (by omega), if_pos (by omega)]
      rfl
    · simp only [List.all_cons, List.all_nil, Text.isContinuation_toUInt8, Bool.and_self]
    · -- their payloads are the digits of the code point in base 64
      simp only [List.foldl, Text.payload_toUInt8, hbyte]
      change (0xc0 + c.toNat / 64) % 32 * 64 + c.toNat % 64 = c.toNat
      omega
    · simp only [List.length_cons, List.length_nil]
      omega
  · have hbyte : (0xe0 + c.toNat / 4096).toUInt8.toNat = 0xe0 + c.toNat / 4096 :=
      Text.toNat_toUInt8 (by omega)
    refine decodeUtf8_sequence c _ ?_ ?_ ?_ ?_ rest
    · rw [sequenceSize_eq, hbyte, if_neg (by omega), if_neg (by omega), if_neg (by omega),
        if_pos (by omega)]
      rfl
    · simp only [List.all_cons, List.all_nil, Text.isContinuation_toUInt8, Bool.and_self]
    · simp only [List.foldl, Text.payload_toUInt8, hbyte]
      change ((0xe0 + c.toNat / 4096) % 16 * 64 + c.toNat / 64 % 64) * 64 + c.toNat % 64 = c.toNat
      omega
    · simp only [List.length_cons, List.length_nil]
      omega
  · have hbyte : (0xf0 + c.toNat / 262144).toUInt8.toNat = 0xf0 + c.toNat / 262144 :=
      Text.toNat_toUInt8 (by omega)
    refine decodeUtf8_sequence c _ ?_ ?_ ?_ ?_ rest
    · rw [sequenceSize_eq, hbyte, if_neg (by omega), if_neg (by omega), if_neg (by omega),
        if_neg (by omega), if_pos (by omega)]
      rfl
    · simp only [List.all_cons, List.all_nil, Text.isContinuation_toUInt8, Bool.and_self]
    · simp only [List.foldl, Text.payload_toUInt8, hbyte]
      change (((0xf0 + c.toNat / 262144) % 8 * 64 + c.toNat / 4096 % 64) * 64 +
        c.toNat / 64 % 64) * 64 + c.toNat % 64 = c.toNat
      omega
    · simp only [List.length_cons, List.length_nil]
      omega

/-! ### Texts -/

namespace Input

/-- The bytes that belong to the character before are passed over. -/
theorem readFrom_skip (decode : UInt8 → Bytes → Decoded) (room : Nat) (pending ready : List Char)
    (xs rest : Bytes) :
    readFrom decode xs.length room pending ready (xs ++ rest)
      = readFrom decode 0 room pending ready rest := by
  induction xs with
  | nil => rfl
  | cons x xs ih =>
    rw [List.cons_append, List.length_cons, readFrom]
    exact ih

/-- **Chunks do not matter** where there is no problem. -/
theorem readFrom_flatMap {cs : List Char} (h : ∀ c ∈ cs, isAllowed c.toNat = true) (room : Nat)
    (pending ready : List Char) :
    readFrom decodeUtf8 0 room pending ready (cs.flatMap encodeChar)
      = ⟨(pending ++ ready).reverse ++ cs, none⟩ := by
  induction cs generalizing room pending ready with
  | nil =>
    rw [List.flatMap_nil, readFrom, List.append_nil]
  | cons c cs ih =>
    have hne : encodeChar c ≠ [] := by
      rw [← List.length_pos_iff, Text.length_encodeChar]
      exact Char.utf8Size_pos c
    obtain ⟨a, tail, hc⟩ := List.exists_cons_of_ne_nil hne
    have hrest : ∀ room pending ready,
        readFrom decodeUtf8 0 room pending ready (cs.flatMap encodeChar) = _ :=
      ih fun c' hc' => h c' (List.mem_cons_of_mem c hc')
    rw [List.flatMap_cons, hc, List.cons_append, readFrom, decodeUtf8_encodeChar c hc]
    simp only [h c List.mem_cons_self, if_true, Nat.add_sub_cancel, readFrom_skip, hrest]
    split <;> simp [Char.ofNat_toNat]

/-- **The characters of a document** that is written in UTF-8 and begins with a character of
ASCII. -/
theorem ofBytes_encode {s : String} {c : Char} {cs : List Char} (hs : s.toList = c :: cs)
    (hc : c.toNat < 0x80) (h : ∀ x ∈ s.toList, isAllowed x.toNat = true) :
    ofBytes (Text.encode s) = ⟨s.toList, none⟩ := by
  have hfirst : Text.encode s = c.toNat.toUInt8 :: cs.flatMap encodeChar := by
    rw [Text.encode, hs, List.flatMap_cons, encodeChar, if_pos hc]
    rfl
  have hsmall : c.toNat.toUInt8.toNat < 0x80 := by
    rw [Text.toNat_toUInt8 (by omega)]
    exact hc
  -- a byte order mark begins beyond ASCII
  have hread : ofBytes (Text.encode s) = readFrom decodeUtf8 0 chunkSize [] [] (Text.encode s) := by
    rw [hfirst]
    unfold ofBytes
    split
    all_goals first
      | rfl
      | (rename_i heq
         rw [(List.cons.inj heq).1] at hsmall
         exact absurd hsmall (by decide))
  rw [hread, Text.encode, readFrom_flatMap h]
  rfl

end Input

end Blockwork.Yaml
