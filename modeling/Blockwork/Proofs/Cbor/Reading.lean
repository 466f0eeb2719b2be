import Blockwork.Cbor.Decode
import Blockwork.Proofs.Cbor.Width
import Blockwork.Proofs.Text.Decoding

/-!
# Reading back what was written

Canonical bytes are read in one way only. Three statements, from the head of an item to items inside
items:

* `takeHead?_head`, `takeHead?_encodeFloat` — a head gives its argument back, whatever follows, and
  a float its number through whichever of the three widths it was written in;
* `takeItem?_encode` — a plain item is read back and what follows it is left alone, exactly when the
  item is within the reader's limits (`Item.admitted`); beyond them nothing is read;
* `Item.Plain.encode_append_inj` — no plain item is the beginning of another one. This does not go
  through the reader of items, so it holds beyond its limits too.

Plain items are those that records are made of: no tags, no text in chunks, one not-a-number.
Every argument in a head is below `2 ^ 64`, which is all that the size of the bytes is bounded for.
-/

namespace Blockwork.Cbor

open Text (Bytes toNat_toUInt8)

/-! ### Numbers in bytes -/

@[simp] theorem length_bigEndian (size n : Nat) : (bigEndian size n).length = size := by
  induction size generalizing n with
  | zero => rfl
  | succ size ih => rw [bigEndian, List.length_append, ih, List.length_singleton]

theorem ofBigEndian_concat (bs : Bytes) (b : UInt8) :
    ofBigEndian (bs ++ [b]) = ofBigEndian bs * 256 + b.toNat := by
  rw [ofBigEndian, List.foldl_append]
  rfl

/-- Bytes read back as the number, reduced to what they can hold. -/
theorem ofBigEndian_bigEndian (size n : Nat) : ofBigEndian (bigEndian size n) = n % 256 ^ size := by
  induction size generalizing n with
  | zero => rw [Nat.pow_zero, Nat.mod_one]; rfl
  | succ size ih =>
    have hbyte : (n % 256).toUInt8.toNat = n % 256 := toNat_toUInt8 (Nat.mod_lt _ (by decide))
    rw [bigEndian, ofBigEndian_concat, ih, hbyte, Nat.pow_succ, Nat.mul_comm (256 ^ size) 256,
      Nat.mod_mul]
    omega

/-- An argument is read back when it fits. -/
theorem takeArgument?_bigEndian (major info : Nat) {size n : Nat} (h : n < 256 ^ size)
    (rest : Bytes) :
    takeArgument? major info size (bigEndian size n ++ rest) = some (⟨major, info, n⟩, rest) := by
  have hlength := length_bigEndian size n
  have hshort : ¬ (bigEndian size n ++ rest).length < size := by
    rw [List.length_append, hlength]
    omega
  rw [takeArgument?, if_neg hshort, List.take_left' hlength, List.drop_left' hlength,
    ofBigEndian_bigEndian, Nat.mod_eq_of_lt h]

/-! ### Heads -/

/-- The additional information of a head in the fewest bytes. -/
def headInfo (n : Nat) : Nat :=
  if n < 24 then n else if n < 256 then 24 else if n < 65536 then 25 else if n < 4294967296 then 26
  else 27

theorem headInfo_ne (n : Nat) : headInfo n ≠ 31 := by
  unfold headInfo
  split_ifs <;> omega

theorem length_head_pos (major n : Nat) : 0 < (head major n).length := by
  unfold head
  simp only
  split_ifs <;> exact Nat.succ_pos _

theorem length_head_le (major n : Nat) : (head major n).length ≤ 9 := by
  unfold head
  simp only
  split_ifs <;> simp

/-- The first byte of a head in its two parts. -/
theorem toNat_first (major info : Nat) (hmajor : major < 8) (hinfo : info < 32) :
    (major * 32 + info).toUInt8.toNat / 32 = major ∧
      (major * 32 + info).toUInt8.toNat % 32 = info := by
  rw [toNat_toUInt8 (by omega)]
  omega

/-- **A head gives its argument back.** The major type of floats has a rule of its own for one byte
and is left out. -/
theorem takeHead?_head {major n : Nat} (hmajor : major < 7) (hn : n < 2 ^ 64) (rest : Bytes) :
    takeHead? (head major n ++ rest) = some (⟨major, headInfo n, n⟩, rest) := by
  unfold head headInfo
  simp only
  split_ifs with hfew hone htwo hfour <;> simp only [List.cons_append, List.nil_append, takeHead?]
  · -- a small argument is in the first byte
    obtain ⟨hm, hi⟩ := toNat_first major n (by omega) (by omega)
    rw [hm, hi, if_pos hfew]
  · -- others follow it, in one, two, four or eight bytes
    obtain ⟨hm, hi⟩ := toNat_first major 24 (by omega) (by decide)
    rw [hm, hi, if_neg (by decide), if_pos rfl, takeArgument?_bigEndian major 24 (by omega)]
    -- of simple values alone this form is refused when a shorter one would do
    have hfloat : decide (major = 7) = false := decide_eq_false (by omega)
    simp only [Option.filter_some, hfloat, Bool.false_and, Bool.not_false, if_true]
  · obtain ⟨hm, hi⟩ := toNat_first major 25 (by omega) (by decide)
    rw [hm, hi, if_neg (by decide), if_neg (by decide), if_pos rfl,
      takeArgument?_bigEndian major 25 (by omega)]
  · obtain ⟨hm, hi⟩ := toNat_first major 26 (by omega) (by decide)
    rw [hm, hi, if_neg (by decide), if_neg (by decide), if_neg (by decide), if_pos rfl,
      takeArgument?_bigEndian major 26 (by omega)]
  · obtain ⟨hm, hi⟩ := toNat_first major 27 (by omega) (by decide)
    rw [hm, hi, if_neg (by decide), if_neg (by decide), if_neg (by decide), if_neg (by decide),
      if_pos rfl, takeArgument?_bigEndian major 27 (by omega)]

/-- A simple value of one byte is its own argument. -/
theorem takeHead?_simple {n : Nat} (hn : n < 24) (rest : Bytes) :
    takeHead? (head 7 n ++ rest) = some (⟨7, n, n⟩, rest) := by
  obtain ⟨hm, hi⟩ := toNat_first 7 n (by decide) (by omega)
  simp only [head, if_pos hn, List.cons_append, List.nil_append, takeHead?]
  rw [hm, hi, if_pos hn]

/-! ### Floats -/

/-- The three forms of a float: the narrowest format that holds it decides. -/
theorem encodeFloat_cases {x : Binary64} (hx : x.isNaN = false) :
    (∃ w, FloatFormat.half.narrow? x = some w ∧
      encodeFloat x = 0xf9 :: bigEndian 2 (FloatFormat.half.signed x.negative w)) ∨
    (FloatFormat.half.narrow? x = none ∧ ∃ w, FloatFormat.single.narrow? x = some w ∧
      encodeFloat x = 0xfa :: bigEndian 4 (FloatFormat.single.signed x.negative w)) ∨
    (FloatFormat.half.narrow? x = none ∧ FloatFormat.single.narrow? x = none ∧
      encodeFloat x = 0xfb :: bigEndian 8 x.word) := by
  unfold encodeFloat
  rw [hx, if_neg (by decide)]
  cases hhalf : FloatFormat.half.narrow? x with
  | some w => exact .inl ⟨w, rfl, rfl⟩
  | none =>
    cases hsingle : FloatFormat.single.narrow? x with
    | some w => exact .inr (.inl ⟨rfl, w, rfl, rfl⟩)
    | none => exact .inr (.inr ⟨rfl, rfl, rfl⟩)

/-- **A number is written in the shortest width that holds it exactly.** -/
theorem length_encodeFloat {x : Binary64} (hx : x.isNaN = false) :
    (FloatFormat.half.Holds x ∧ (encodeFloat x).length = 3) ∨
    (¬ FloatFormat.half.Holds x ∧ FloatFormat.single.Holds x ∧ (encodeFloat x).length = 5) ∨
    (¬ FloatFormat.half.Holds x ∧ ¬ FloatFormat.single.Holds x ∧ (encodeFloat x).length = 9) := by
  have hhalf := FloatFormat.isSome_narrow?_iff FloatFormat.half_fits hx
  have hsingle := FloatFormat.isSome_narrow?_iff FloatFormat.single_fits hx
  rcases encodeFloat_cases hx with ⟨w, hw, hbytes⟩ | ⟨hnone, w, hw, hbytes⟩ |
    ⟨hnone, hnone', hbytes⟩
  · refine .inl ⟨hhalf.1 (by rw [hw]; rfl), ?_⟩
    rw [hbytes, List.length_cons, length_bigEndian]
  · refine .inr (.inl ⟨mt hhalf.2 (by rw [hnone]; decide), hsingle.1 (by rw [hw]; rfl), ?_⟩)
    rw [hbytes, List.length_cons, length_bigEndian]
  · refine .inr (.inr ⟨mt hhalf.2 (by rw [hnone]; decide),
      mt hsingle.2 (by rw [hnone']; decide), ?_⟩)
    rw [hbytes, List.length_cons, length_bigEndian]

/-- The head of a float in one of the three widths. -/
theorem takeHead?_float {info size n : Nat}
    (h : (info = 25 ∧ size = 2) ∨ (info = 26 ∧ size = 4) ∨ (info = 27 ∧ size = 8))
    (hn : n < 256 ^ size) (rest : Bytes) :
    takeHead? ((7 * 32 + info).toUInt8 :: bigEndian size n ++ rest)
      = some (⟨7, info, n⟩, rest) := by
  have hinfo : info < 32 := by omega
  obtain ⟨hm, hi⟩ := toNat_first 7 info (by decide) hinfo
  rw [List.cons_append, takeHead?, hm, hi]
  have hargument := takeArgument?_bigEndian 7 info hn rest
  rcases h with ⟨rfl, rfl⟩ | ⟨rfl, rfl⟩ | ⟨rfl, rfl⟩ <;> simpa using hargument

/-- **A float gives its number back**, with the one not-a-number for all of them. -/
theorem takeHead?_encodeFloat {x : Binary64} (hx : x.isNaN = true → x = .nan) (rest : Bytes) :
    ∃ h : Head, takeHead? (encodeFloat x ++ rest) = some (h, rest) ∧ h.major = 7 ∧
      primitive h = .float x := by
  cases hnan : x.isNaN with
  | true =>
    obtain rfl := hx hnan
    have hword : FloatFormat.half.widen 0x7e00 = .nan :=
      FloatFormat.widen_nan (f := .half) (w := 0x7e00) false (by decide) (by decide)
    exact ⟨⟨7, 25, 0x7e00⟩, rfl, rfl, congrArg Item.float hword⟩
  | false =>
    -- the narrowest width that holds the number was written
    rcases encodeFloat_cases hnan with ⟨w, hw, hbytes⟩ | ⟨-, w, hw, hbytes⟩ | ⟨-, -, hbytes⟩
    · refine ⟨⟨7, 25, FloatFormat.half.signed x.negative w⟩, ?_, rfl, ?_⟩
      · rw [hbytes]
        exact takeHead?_float (.inl ⟨rfl, rfl⟩) (FloatFormat.signed_narrow?_lt hw) rest
      · exact congrArg Item.float (FloatFormat.widen_narrow FloatFormat.half_fits hnan hw)
    · refine ⟨⟨7, 26, FloatFormat.single.signed x.negative w⟩, ?_, rfl, ?_⟩
      · rw [hbytes]
        exact takeHead?_float (.inr (.inl ⟨rfl, rfl⟩)) (FloatFormat.signed_narrow?_lt hw) rest
      · exact congrArg Item.float (FloatFormat.widen_narrow FloatFormat.single_fits hnan hw)
    · refine ⟨⟨7, 27, x.word⟩, ?_, rfl, ?_⟩
      · rw [hbytes]
        exact takeHead?_float (.inr (.inr ⟨rfl, rfl⟩)) (Binary64.word_lt x) rest
      · change Item.float ⟨x.bits.toNat.toUInt64⟩ = .float x
        rw [Nat.toUInt64_eq, UInt64.ofNat_toNat]

/-! ### Plain items -/

namespace Item

/-- The items that records are made of. -/
inductive Plain : Item → Prop
  | unsigned {n : Nat} (h : n < 2 ^ 64) : Plain (.unsigned n)
  | text (b : Bytes) : Plain (.text [b])
  | array {items : List Item} (h : ∀ i ∈ items, Plain i) : Plain (.array items)
  | map {entries : List Item} (even : entries.length % 2 = 0) (h : ∀ i ∈ entries, Plain i) :
    Plain (.map entries)
  | simple {n : Nat} (h : n < 24) : Plain (.simple n)
  | float {x : Binary64} (h : x.isNaN = true → x = .nan) : Plain (.float x)

/-- What comes after the head of a plain item. -/
def body : Item → Bytes
  | .text chunks => chunks.flatten
  | .array items => encodeAll items
  | .map entries => encodeAll entries
  | _ => []

/-- The head of a plain item: its major type and what the argument counts. -/
def HasHead : Item → Head → Prop
  | .unsigned n, h => h.major = 0 ∧ h.argument = n
  | .text chunks, h => h.major = 3 ∧ h.info ≠ 31 ∧ h.argument = chunks.flatten.length
  | .array items, h => h.major = 4 ∧ h.info ≠ 31 ∧ h.argument = items.length
  | .map entries, h => h.major = 5 ∧ h.info ≠ 31 ∧ h.argument = entries.length / 2
  | i, h => h.major = 7 ∧ primitive h = i

theorem length_encode_pos (i : Item) : 0 < i.encode.length := by
  cases i with
  | float x =>
    cases hx : x.isNaN with
    | true =>
      rw [encode, encodeFloat, if_pos hx]
      decide
    | false =>
      rw [encode]
      rcases length_encodeFloat hx with ⟨-, h⟩ | ⟨-, -, h⟩ | ⟨-, -, h⟩ <;> rw [h] <;> decide
  | _ =>
    simp only [encode, List.length_append]
    have hpos := length_head_pos
    first | exact hpos _ _ | exact Nat.add_pos_left (hpos _ _) _

theorem length_le_length_encodeAll (items : List Item) :
    items.length ≤ (encodeAll items).length := by
  induction items with
  | nil => exact Nat.le_refl 0
  | cons i is ih =>
    have hpos := length_encode_pos i
    rw [encodeAll, List.length_append, List.length_cons]
    omega

theorem length_encode_le_of_mem {i : Item} {items : List Item} (h : i ∈ items) :
    i.encode.length ≤ (encodeAll items).length := by
  induction h with
  | head => rw [encodeAll, List.length_append]; omega
  | tail _ _ ih => rw [encodeAll, List.length_append]; omega

/-- **The head of a plain item is read back** and leaves its body. -/
theorem Plain.takeHead?_encode {i : Item} (hi : i.Plain) (hsize : i.encode.length < 2 ^ 64)
    (rest : Bytes) :
    ∃ h : Head, takeHead? (i.encode ++ rest) = some (h, i.body ++ rest) ∧ i.HasHead h := by
  cases hi with
  | @unsigned n hn => exact ⟨⟨0, headInfo n, n⟩, takeHead?_head (by decide) hn rest, rfl, rfl⟩
  | text b =>
    rw [encode, List.length_append, List.flatten_singleton] at hsize
    refine ⟨⟨3, headInfo b.length, b.length⟩, ?_, rfl, headInfo_ne _,
      by rw [List.flatten_singleton]⟩
    have hbody : (Item.text [b]).body = b := List.flatten_singleton
    rw [encode, List.append_assoc, List.flatten_singleton, hbody]
    exact takeHead?_head (by decide) (by omega) _
  | @array items _ =>
    -- there are at least as many bytes as items, so their count fits in a head
    have hcount := length_le_length_encodeAll items
    rw [encode, List.length_append] at hsize
    refine ⟨⟨4, headInfo items.length, items.length⟩, ?_, rfl, headInfo_ne _, rfl⟩
    rw [encode, List.append_assoc]
    exact takeHead?_head (by decide) (by omega) _
  | @map entries _ _ =>
    have hcount := length_le_length_encodeAll entries
    rw [encode, List.length_append] at hsize
    refine ⟨⟨5, headInfo (entries.length / 2), entries.length / 2⟩, ?_, rfl, headInfo_ne _, rfl⟩
    rw [encode, List.append_assoc]
    exact takeHead?_head (by decide) (by omega) _
  | @simple n hn =>
    refine ⟨⟨7, n, n⟩, takeHead?_simple hn rest, rfl, ?_⟩
    rw [primitive, if_neg (by simp only; omega), if_neg (by simp only; omega),
      if_neg (by simp only; omega)]
  | float h => exact takeHead?_encodeFloat h rest

/-! ### Reading items within the limits -/

mutual

/-- Whether a plain item that begins at a depth is within the limits of the reader. -/
def admitted : Item → (depth : Nat) → Bool
  | .array items, depth =>
    decide (depth < maxDepth ∧ items.length ≤ maxCount) && admittedAll items (depth + 1)
  | .map entries, depth =>
    decide (depth < maxDepth ∧ entries.length / 2 ≤ maxCount) && admittedAll entries (depth + 1)
  | _, _ => true

/-- Whether several plain items are. -/
def admittedAll : List Item → (depth : Nat) → Bool
  | [], _ => true
  | i :: is, depth => admitted i depth && admittedAll is depth

end

end Item

/-- The reader gives an item back within its limits and nothing beyond them. -/
def ReadsBack (i : Item) : Prop :=
  ∀ fuel depth rest, 2 * i.encode.length ≤ fuel →
    takeItem? fuel depth false (i.encode ++ rest)
      = if i.admitted depth then some (i, rest) else none

/-- To read an item back, its head may be taken as read. -/
theorem Item.Plain.readsBack {i : Item} (hi : i.Plain) (hsize : i.encode.length < 2 ^ 64)
    (h : ∀ fuel depth rest head, 2 * i.encode.length ≤ fuel + 1 → i.HasHead head →
      takeHead? (i.encode ++ rest) = some (head, i.body ++ rest) →
      takeItem? (fuel + 1) depth false (i.encode ++ rest)
        = if i.admitted depth then some (i, rest) else none) : ReadsBack i := by
  intro fuel depth rest hfuel
  have hpos := i.length_encode_pos
  obtain ⟨fuel, rfl⟩ := Nat.exists_eq_succ_of_ne_zero (by omega : fuel ≠ 0)
  obtain ⟨head, hhead, hhas⟩ := hi.takeHead?_encode hsize rest
  exact h fuel depth rest head hfuel hhas hhead

/-- Items one after the other are read back when each of them is. -/
theorem takeItems?_encodeAll {items : List Item} (h : ∀ i ∈ items, ReadsBack i) :
    ∀ fuel depth rest, 2 * (Item.encodeAll items).length + 1 ≤ fuel →
      takeItems? fuel depth items.length (Item.encodeAll items ++ rest)
        = if Item.admittedAll items depth then some (items, rest) else none := by
  induction items with
  | nil =>
    intro fuel depth rest hfuel
    obtain ⟨fuel, rfl⟩ := Nat.exists_eq_succ_of_ne_zero (by omega : fuel ≠ 0)
    rfl
  | cons i is ih =>
    intro fuel depth rest hfuel
    obtain ⟨fuel, rfl⟩ := Nat.exists_eq_succ_of_ne_zero (by omega : fuel ≠ 0)
    -- every item has a byte, which leaves fuel for the others
    have hpos := i.length_encode_pos
    rw [Item.encodeAll, List.length_append] at hfuel
    have hfirst := h i List.mem_cons_self fuel depth (Item.encodeAll is ++ rest) (by omega)
    have hothers := ih (fun j hj => h j (List.mem_cons_of_mem i hj)) fuel depth rest (by omega)
    rw [Item.encodeAll, List.append_assoc, List.length_cons]
    simp only [takeItems?, hfirst, Option.bind_eq_bind]
    cases hi : i.admitted depth with
    | false => simp [Item.admittedAll, hi]
    | true =>
      simp only [if_true, Option.bind_some, hothers]
      cases his : Item.admittedAll is depth with
      | false => simp [Item.admittedAll, his]
      | true => simp [Item.admittedAll, hi, his]

/-- **A plain item is read back**, and what follows it is left alone, exactly when the item is
within the limits. -/
theorem takeItem?_encode {i : Item} (hi : i.Plain) (hsize : i.encode.length < 2 ^ 64) :
    ReadsBack i := by
  -- the induction goes over the items inside arrays and maps; the fuel is twice the bytes because
  -- an item and its place in a sequence take one each
  induction hi with
  | unsigned hn =>
    refine (Item.Plain.unsigned hn).readsBack hsize ?_
    rintro fuel depth rest ⟨major, info, argument⟩ - ⟨rfl, rfl⟩ hhead
    simp only [takeItem?, hhead, Option.bind_eq_bind, Option.bind_some]
    rfl
  | text b =>
    refine (Item.Plain.text b).readsBack hsize ?_
    rintro fuel depth rest ⟨major, info, argument⟩ - ⟨rfl, hinfo, rfl⟩ hhead
    simp only [takeItem?, hhead, Option.bind_eq_bind, Option.bind_some, if_neg hinfo]
    simp [takeString?, Item.body, Item.admitted]
  | @array items hplain ih =>
    refine (Item.Plain.array hplain).readsBack hsize ?_
    rintro fuel depth rest ⟨major, info, argument⟩ hfuel ⟨rfl, hinfo, rfl⟩ hhead
    have hpos := length_head_pos 4 items.length
    rw [Item.encode, List.length_append] at hsize hfuel
    -- the items stand one level deeper, each of them with fewer bytes than the array
    have hitems := takeItems?_encodeAll
      (fun i hi => ih i hi (lt_of_le_of_lt (Item.length_encode_le_of_mem hi) (by omega)))
      fuel (depth + 1) rest (by omega)
    simp only [takeItem?, hhead, Option.bind_eq_bind, Option.bind_some, if_neg hinfo, if_true,
      Item.body, hitems, Item.admitted]
    by_cases hlimits : depth < maxDepth ∧ items.length ≤ maxCount
    · by_cases hall : Item.admittedAll items (depth + 1) = true <;>
        simp [guard, hlimits, hall, pure]
    · simp [guard, hlimits, failure]
  | @map entries even hplain ih =>
    refine (Item.Plain.map even hplain).readsBack hsize ?_
    rintro fuel depth rest ⟨major, info, argument⟩ hfuel ⟨rfl, hinfo, rfl⟩ hhead
    have hpos := length_head_pos 5 (entries.length / 2)
    -- the head of a map says how many pairs there are
    have heven : 2 * (entries.length / 2) = entries.length := by omega
    rw [Item.encode, List.length_append] at hsize hfuel
    have hitems := takeItems?_encodeAll
      (fun i hi => ih i hi (lt_of_le_of_lt (Item.length_encode_le_of_mem hi) (by omega)))
      fuel (depth + 1) rest (by omega)
    simp only [takeItem?, hhead, Option.bind_eq_bind, Option.bind_some, if_neg hinfo,
      if_neg (show ¬ 5 = 4 by decide), heven, Item.body, hitems, Item.admitted]
    by_cases hlimits : depth < maxDepth ∧ entries.length / 2 ≤ maxCount
    · have hcount : entries.length ≤ 2 * maxCount := by omega
      by_cases hall : Item.admittedAll entries (depth + 1) = true <;>
        simp [guard, hlimits, hall, hcount, even, pure]
    · simp [guard, hlimits, failure]
  | simple hn =>
    refine (Item.Plain.simple hn).readsBack hsize ?_
    rintro fuel depth rest ⟨major, info, argument⟩ - ⟨rfl, hprimitive⟩ hhead
    simp only [takeItem?, hhead, Option.bind_eq_bind, Option.bind_some, hprimitive]
    rfl
  | float hx =>
    refine (Item.Plain.float hx).readsBack hsize ?_
    rintro fuel depth rest ⟨major, info, argument⟩ - ⟨rfl, hprimitive⟩ hhead
    simp only [takeItem?, hhead, Option.bind_eq_bind, Option.bind_some, hprimitive]
    rfl

/-- **The bytes of a plain item decode to it exactly within the limits.** -/
theorem Item.decode?_encode {i : Item} (hi : i.Plain) (hsize : i.encode.length < 2 ^ 64) :
    Item.decode? i.encode = if i.admitted 0 then some i else none := by
  have hread := takeItem?_encode hi hsize (2 * i.encode.length + 2) 0 [] (by omega)
  rw [List.append_nil] at hread
  rw [Item.decode?, hread]
  cases i.admitted 0 <;> rfl

/-! ### No item is the beginning of another -/

namespace Item

/-- Items one after the other are determined by their bytes when each of them is. -/
theorem encodeAll_append_inj {items : List Item}
    (h : ∀ i ∈ items, ∀ j r s, j.Plain → j.encode.length < 2 ^ 64 →
      i.encode ++ r = j.encode ++ s → i = j ∧ r = s) :
    ∀ others r s, others.length = items.length → (∀ j ∈ others, j.Plain) →
      (encodeAll others).length < 2 ^ 64 → encodeAll items ++ r = encodeAll others ++ s →
      items = others ∧ r = s := by
  induction items with
  | nil =>
    intro others r s hlength _ _ heq
    obtain rfl := List.length_eq_zero_iff.1 hlength
    exact ⟨rfl, heq⟩
  | cons i is ih =>
    intro others r s hlength hplain hsize heq
    obtain ⟨j, js, rfl⟩ := List.exists_cons_of_length_eq_add_one hlength
    rw [encodeAll, List.length_append] at hsize
    rw [encodeAll, encodeAll, List.append_assoc, List.append_assoc] at heq
    -- the first items are equal, so the others follow at the same place
    obtain ⟨rfl, hrest⟩ := h i List.mem_cons_self j _ _ (hplain j List.mem_cons_self) (by omega) heq
    obtain ⟨rfl, rfl⟩ := ih (fun k hk => h k (List.mem_cons_of_mem i hk)) js r s
      (Nat.succ.inj hlength) (fun k hk => hplain k (List.mem_cons_of_mem i hk)) (by omega) hrest
    exact ⟨rfl, rfl⟩

/-- Two plain items that begin the same bytes have one head, and their bodies begin what is left. -/
theorem Plain.exists_head {i j : Item} (hi : i.Plain) (hj : j.Plain)
    (hisize : i.encode.length < 2 ^ 64) (hjsize : j.encode.length < 2 ^ 64) {r s : Bytes}
    (heq : i.encode ++ r = j.encode ++ s) :
    ∃ h, i.HasHead h ∧ j.HasHead h ∧ i.body ++ r = j.body ++ s := by
  obtain ⟨h, hread, hhas⟩ := hi.takeHead?_encode hisize r
  obtain ⟨h', hread', hhas'⟩ := hj.takeHead?_encode hjsize s
  rw [heq, hread'] at hread
  obtain ⟨rfl, hbody⟩ := Prod.mk.inj (Option.some.inj hread)
  exact ⟨h', hhas, hhas', hbody.symm⟩

/-- **A plain item is determined by any bytes that begin with its own.** -/
theorem Plain.encode_append_inj {i : Item} (hi : i.Plain) (hisize : i.encode.length < 2 ^ 64) :
    ∀ j r s, j.Plain → j.encode.length < 2 ^ 64 → i.encode ++ r = j.encode ++ s →
      i = j ∧ r = s := by
  -- in each case the other item has the same major type, so it is of the same form
  induction hi with
  | unsigned hn =>
    intro j r s hj hjsize heq
    obtain ⟨h, hhas, hhas', hbody⟩ := (Plain.unsigned hn).exists_head hj hisize hjsize heq
    cases hj with
    | unsigned _ => exact ⟨congrArg Item.unsigned (hhas.2.symm.trans hhas'.2), hbody⟩
    | _ => exact absurd (hhas.1.symm.trans hhas'.1) (by decide)
  | text b =>
    intro j r s hj hjsize heq
    obtain ⟨h, hhas, hhas', hbody⟩ := (Plain.text b).exists_head hj hisize hjsize heq
    cases hj with
    | text c =>
      have hlength := hhas.2.2.symm.trans hhas'.2.2
      obtain ⟨hbytes, hrest⟩ := List.append_inj hbody hlength
      rw [body, body, List.flatten_singleton, List.flatten_singleton] at hbytes
      exact ⟨congrArg (fun b => Item.text [b]) hbytes, hrest⟩
    | _ => exact absurd (hhas.1.symm.trans hhas'.1) (by decide)
  | @array items hplain ih =>
    intro j r s hj hjsize heq
    obtain ⟨h, hhas, hhas', hbody⟩ := (Plain.array hplain).exists_head hj hisize hjsize heq
    cases hj with
    | @array others hplain' =>
      rw [encode, List.length_append] at hisize hjsize
      -- equal heads say equally many items, so they can be told apart one after the other
      obtain ⟨rfl, hrest⟩ := encodeAll_append_inj
        (fun i hi => ih i hi (lt_of_le_of_lt (length_encode_le_of_mem hi) (by omega)))
        others r s (hhas'.2.2.symm.trans hhas.2.2) hplain' (by omega) hbody
      exact ⟨rfl, hrest⟩
    | _ => exact absurd (hhas.1.symm.trans hhas'.1) (by decide)
  | @map entries even hplain ih =>
    intro j r s hj hjsize heq
    obtain ⟨h, hhas, hhas', hbody⟩ := (Plain.map even hplain).exists_head hj hisize hjsize heq
    cases hj with
    | @map others even' hplain' =>
      -- the argument counts pairs, and both maps have no half pair
      have hpairs : others.length / 2 = entries.length / 2 := hhas'.2.2.symm.trans hhas.2.2
      rw [encode, List.length_append] at hisize hjsize
      obtain ⟨rfl, hrest⟩ := encodeAll_append_inj
        (fun i hi => ih i hi (lt_of_le_of_lt (length_encode_le_of_mem hi) (by omega)))
        others r s (by omega) hplain' (by omega) hbody
      exact ⟨rfl, hrest⟩
    | _ => exact absurd (hhas.1.symm.trans hhas'.1) (by decide)
  | simple hn =>
    intro j r s hj hjsize heq
    obtain ⟨h, hhas, hhas', hbody⟩ := (Plain.simple hn).exists_head hj hisize hjsize heq
    cases hj with
    -- of a simple value or a float the head is the whole item
    | simple _ | float _ => exact ⟨hhas.2.symm.trans hhas'.2, hbody⟩
    | _ => exact absurd (hhas.1.symm.trans hhas'.1) (by decide)
  | float hx =>
    intro j r s hj hjsize heq
    obtain ⟨h, hhas, hhas', hbody⟩ := (Plain.float hx).exists_head hj hisize hjsize heq
    cases hj with
    | simple _ | float _ => exact ⟨hhas.2.symm.trans hhas'.2, hbody⟩
    | _ => exact absurd (hhas.1.symm.trans hhas'.1) (by decide)

/-- Different plain items have different bytes. -/
theorem Plain.encode_inj {i j : Item} (hi : i.Plain) (hj : j.Plain)
    (hsize : i.encode.length < 2 ^ 64) : i.encode = j.encode ↔ i = j := by
  refine ⟨fun h => ?_, fun h => h ▸ rfl⟩
  have happend : i.encode ++ [] = j.encode ++ [] := by rw [h]
  exact (hi.encode_append_inj hsize j [] [] hj (h ▸ hsize) happend).1

end Item

end Blockwork.Cbor
