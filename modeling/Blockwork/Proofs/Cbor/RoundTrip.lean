import Blockwork.Cbor.Record
import Blockwork.Proofs.Cbor.Reading
import Blockwork.Proofs.Number.Normal

/-!
# Values survive their bytes

A value written and read again is the value in its normal form: one zero, one not-a-number, and an
empty list for the list value without a list. Values in normal form come back as they were, so
nothing else is lost.

What is written is always read as CBOR, but the reader has limits. It enters at most `maxDepth`
arrays and maps, and each non-empty list costs two of them, its array and the record around it; and
it takes at most `maxCount` items from an array. `decode?_encode` says that these are the only
obstacles: reading succeeds exactly on values that nest non-empty lists at most fifteen deep
(`Datum.nesting`) with no list longer than the limit (`Datum.widest`).

The argument has two halves. The records of normal values are plain items, so that
`Item.decode?_encode` applies to them (`plain_toItem_normal`, `admitted_toItem`); and the fields of
a record give back the value it was made from (`toFields?_toItem_normal`). Writing does not tell a
value from its normal form (`encode_normal`), which joins the halves.
-/

namespace Blockwork

open Cbor (Item Fields Key toFields? takeFields? toData? toList? maxCount maxDepth)
open Text (Bytes)

namespace Datum

/-! ### Normal form, nesting and width -/

mutual

/-- The value that a value is read back as. -/
def normal : Datum → Datum
  | .number n => .number n.normal
  | .list ds => .list (normalAll ds)
  | .noList => .list []
  | .undefined => .undefined
  | .text s => .text s
  | .truth b => .truth b

/-- The values that several values are read back as. -/
def normalAll : List Datum → List Datum
  | [] => []
  | d :: ds => normal d :: normalAll ds

end

mutual

/-- How many non-empty lists lie inside each other. -/
def nesting : Datum → Nat
  | .list ds => if ds.isEmpty then 0 else nestingAll ds + 1
  | _ => 0

/-- How many non-empty lists lie inside each other in one of several values. -/
def nestingAll : List Datum → Nat
  | [] => 0
  | d :: ds => max (nesting d) (nestingAll ds)

end

mutual

/-- The length of the longest list. -/
def widest : Datum → Nat
  | .list ds => max ds.length (widestAll ds)
  | _ => 0

/-- The length of the longest list in several values. -/
def widestAll : List Datum → Nat
  | [] => 0
  | d :: ds => max (widest d) (widestAll ds)

end

/-- **Induction on values**: what passes from the items of a list to the list holds of every
value. -/
theorem induction {P : Datum → Prop} (undefined : P .undefined) (number : ∀ n, P (.number n))
    (text : ∀ s, P (.text s)) (truth : ∀ b, P (.truth b)) (noList : P .noList)
    (list : ∀ ds, (∀ d ∈ ds, P d) → P (.list ds)) (d : Datum) : P d := by
  refine Datum.rec (motive_1 := P) (motive_2 := fun ds => ∀ d ∈ ds, P d) undefined number text truth
    list noList ?_ ?_ d
  · exact fun d hd => absurd hd List.not_mem_nil
  · exact fun head tail hhead htail => List.forall_mem_cons.2 ⟨hhead, htail⟩

theorem normalAll_eq_map (ds : List Datum) : normalAll ds = ds.map normal := by
  induction ds with
  | nil => rfl
  | cons d ds ih => rw [normalAll, ih, List.map_cons]

theorem toItems_eq_map (ds : List Datum) : toItems ds = ds.map toItem := by
  induction ds with
  | nil => rfl
  | cons d ds ih => rw [toItems, ih, List.map_cons]

theorem nestingAll_le_iff {ds : List Datum} {k : Nat} :
    nestingAll ds ≤ k ↔ ∀ d ∈ ds, d.nesting ≤ k := by
  induction ds with
  | nil => simp [nestingAll]
  | cons d ds ih => rw [nestingAll, Nat.max_le, ih, List.forall_mem_cons]

theorem widestAll_le_iff {ds : List Datum} {k : Nat} :
    widestAll ds ≤ k ↔ ∀ d ∈ ds, d.widest ≤ k := by
  induction ds with
  | nil => simp [widestAll]
  | cons d ds ih => rw [widestAll, Nat.max_le, ih, List.forall_mem_cons]

/-! ### Writing -/

/-- The content of a record may be exchanged for one of the same bytes. -/
theorem encode_record_congr {i j : Item} (h : i.encode = j.encode) (key : Item) (kind : Nat) :
    (record [key, i] kind).encode = (record [key, j] kind).encode := by
  simp only [record, List.cons_append, List.nil_append, Item.encode, Item.encodeAll, h]
  rfl

theorem encodeFloat_normal {x : Binary64} (h : x.magnitude ≠ 0) :
    Cbor.encodeFloat x.normal = Cbor.encodeFloat x := by
  cases hnan : x.isNaN with
  | true =>
    rw [Binary64.normal_of_isNaN hnan, Cbor.encodeFloat, Cbor.encodeFloat, if_pos hnan]
    rfl
  | false =>
    have hself : x.normal = x := by
      rw [Binary64.normal, if_neg h, if_neg (by rw [hnan]; decide)]
    rw [hself]

theorem encodeAll_map_congr {ds : List Datum} {f g : Datum → Item}
    (h : ∀ d ∈ ds, (f d).encode = (g d).encode) :
    Item.encodeAll (ds.map f) = Item.encodeAll (ds.map g) := by
  induction ds with
  | nil => rfl
  | cons d ds ih =>
    rw [List.map_cons, List.map_cons, Item.encodeAll, Item.encodeAll, h d List.mem_cons_self,
      ih fun e he => h e (List.mem_cons_of_mem d he)]

/-- **A value and its normal form are written alike.** -/
theorem encode_normal (d : Datum) : d.normal.encode = d.encode := by
  induction d using Datum.induction with
  | number n =>
    rw [normal, encode, encode, toItem, toItem]
    by_cases hzero : n.magnitude = 0
    · rw [if_pos hzero, if_pos (Binary64.magnitude_normal_eq_zero.2 hzero)]
    · rw [if_neg hzero, if_neg (mt Binary64.magnitude_normal_eq_zero.1 hzero)]
      refine encode_record_congr ?_ _ 1
      rw [Item.encode, Item.encode, encodeFloat_normal hzero]
  | list ds ih =>
    rw [normal, encode, encode, toItem, toItem, normalAll_eq_map, toItems_eq_map, toItems_eq_map]
    cases ds with
    | nil => rfl
    | cons d ds =>
      refine encode_record_congr ?_ _ 4
      rw [Item.encode, Item.encode, List.map_map, List.length_map, List.length_map,
        encodeAll_map_congr (f := toItem ∘ normal) ih]
  | _ => rfl

theorem plain_textItem (s : String) : (textItem s).Plain := .text _

/-- The record of a normal value is plain. -/
theorem plain_toItem_normal (d : Datum) : d.normal.toItem.Plain := by
  -- a record has its kind, and its content in front of it unless that was left out
  have hempty : ∀ kind < 2 ^ 64, (record [] kind).Plain := by
    intro kind hkind
    refine .map (by simp) (List.forall_mem_cons.2 ⟨plain_textItem "t", ?_⟩)
    exact List.forall_mem_singleton.2 (.unsigned hkind)
  have hpair : ∀ key i kind, i.Plain → kind < 2 ^ 64 → (record [textItem key, i] kind).Plain := by
    intro key i kind hi hkind
    refine .map (by simp) (List.forall_mem_cons.2 ⟨plain_textItem key, ?_⟩)
    refine List.forall_mem_cons.2 ⟨hi, List.forall_mem_cons.2 ⟨plain_textItem "t", ?_⟩⟩
    exact List.forall_mem_singleton.2 (.unsigned hkind)
  induction d using Datum.induction with
  | undefined => exact hempty 0 (by decide)
  | number n =>
    rw [normal, toItem]
    split
    · exact hempty 1 (by decide)
    · exact hpair "n" _ 1 (.float Binary64.eq_nan_of_isNaN_normal) (by decide)
  | text s =>
    rw [normal, toItem]
    split
    · exact hempty 2 (by decide)
    · exact hpair "s" _ 2 (plain_textItem s) (by decide)
  | truth b =>
    rw [normal, toItem]
    split
    · exact hpair "b" _ 3 (.simple (by decide)) (by decide)
    · exact hempty 3 (by decide)
  | noList => exact hempty 4 (by decide)
  | list ds ih =>
    rw [normal, toItem, normalAll_eq_map, toItems_eq_map, List.map_map]
    split
    · exact hempty 4 (by decide)
    · exact hpair "i" _ 4 (.array (List.forall_mem_map.2 ih)) (by decide)

theorem admittedAll_iff {is : List Item} {depth : Nat} :
    Item.admittedAll is depth = true ↔ ∀ i ∈ is, i.admitted depth = true := by
  induction is with
  | nil => simp [Item.admittedAll]
  | cons i is ih => rw [Item.admittedAll, Bool.and_eq_true, ih, List.forall_mem_cons]

theorem admitted_record_nil (kind depth : Nat) :
    (record [] kind).admitted depth = true ↔ depth < maxDepth := by
  simp [record, textItem, Item.admitted, Item.admittedAll, maxCount]

theorem admitted_record_pair (key : String) (i : Item) (kind depth : Nat) :
    (record [textItem key, i] kind).admitted depth = true ↔
      depth < maxDepth ∧ i.admitted (depth + 1) = true := by
  simp [record, textItem, Item.admitted, Item.admittedAll, maxCount]

/-- A non-empty list goes one level deeper than its items, at the cost of two. -/
theorem forall_nesting_lt_iff {ds : List Datum} (hne : ds ≠ []) (depth : Nat) :
    (∀ d ∈ ds, depth + 1 + 1 + 2 * d.nesting < maxDepth) ↔
      depth + 2 * (nestingAll ds + 1) < maxDepth := by
  obtain ⟨d, hd⟩ := List.exists_mem_of_ne_nil ds hne
  unfold maxDepth
  constructor
  · intro h
    have hbound : nestingAll ds ≤ (29 - depth) / 2 := by
      refine nestingAll_le_iff.2 fun e he => ?_
      have hlt := h e he
      omega
    have hlt := h d hd
    omega
  · intro h e he
    have hle := nestingAll_le_iff.1 (Nat.le_refl _) e he
    omega

/-- **What the reader admits**: each non-empty list costs two levels. -/
theorem admitted_toItem_normal (d : Datum) (depth : Nat) :
    d.normal.toItem.admitted depth = true ↔
      depth + 2 * d.nesting < maxDepth ∧ d.widest ≤ maxCount := by
  induction d using Datum.induction generalizing depth with
  | undefined => simp [normal, toItem, admitted_record_nil, nesting, widest]
  | number n =>
    rw [normal, toItem]
    split
    · simp [admitted_record_nil, nesting, widest]
    · simp [admitted_record_pair, Item.admitted, nesting, widest]
  | text s =>
    rw [normal, toItem]
    split
    · simp [admitted_record_nil, nesting, widest]
    · rw [admitted_record_pair]
      simp [textItem, Item.admitted, nesting, widest]
  | truth b =>
    rw [normal, toItem]
    split
    · simp [admitted_record_pair, Item.admitted, nesting, widest]
    · simp [admitted_record_nil, nesting, widest]
  | noList => simp [normal, toItem, admitted_record_nil, nesting, widest]
  | list ds ih =>
    rw [normal, toItem, normalAll_eq_map, toItems_eq_map, List.map_map, List.isEmpty_map]
    cases hempty : ds.isEmpty with
    | true =>
      obtain rfl := List.isEmpty_iff.1 hempty
      simp [admitted_record_nil, nesting, widest, widestAll]
    | false =>
      -- the array is one level below the record, the records of the items two
      have hitems : Item.admittedAll (ds.map (toItem ∘ normal)) (depth + 1 + 1) = true ↔
          ∀ d ∈ ds, depth + 1 + 1 + 2 * d.nesting < maxDepth ∧ d.widest ≤ maxCount := by
        rw [admittedAll_iff, List.forall_mem_map]
        exact forall₂_congr fun d hd => ih d hd (depth + 1 + 1)
      rw [if_neg (by decide), admitted_record_pair, Item.admitted, Bool.and_eq_true,
        decide_eq_true_eq, hitems, List.length_map, nesting, hempty, if_neg (by decide), widest,
        Nat.max_le, widestAll_le_iff]
      -- the bound on the items is that on the list, which nests one deeper than the deepest of them
      have hdeep := forall_nesting_lt_iff (List.isEmpty_eq_false_iff.1 hempty) depth
      constructor
      · rintro ⟨-, ⟨-, hlength⟩, hall⟩
        exact ⟨hdeep.1 fun d hd => (hall d hd).1, hlength, fun d hd => (hall d hd).2⟩
      · rintro ⟨hnesting, hlength, hwidest⟩
        refine ⟨by omega, ⟨by omega, hlength⟩, fun d hd => ⟨hdeep.2 hnesting d hd, hwidest d hd⟩⟩

/-! ### Reading -/

theorem mapM_decode?_encode (s : String) :
    [Text.encode s].mapM Text.decode? = some [s.toList] := by
  simp only [List.mapM_cons, List.mapM_nil, Text.decode?_encode]
  rfl

theorem toText?_textItem (s : String) : Cbor.toText? (textItem s) = some (some s) := by
  rw [textItem, Cbor.toText?, mapM_decode?_encode]
  simp

/-- The letter that is written before a field. -/
def keyLetter : Key → String
  | .kind => "t"
  | .number => "n"
  | .text => "s"
  | .truth => "b"
  | .items => "i"
  | .unknown => ""

theorem ofItem?_keyLetter (key : Key) : Key.ofItem? (textItem (keyLetter key)) = some key := by
  cases key <;> decide +kernel

/-! The step of the reader at each key; a key that was not met before takes its value. -/

section Keys

variable {f : Fields} {rest : List Item}

theorem takeFields?_t (hf : f.kind = none) {k : Nat} (hk : k < 2 ^ 63) :
    takeFields? f (textItem "t" :: .unsigned k :: rest)
      = takeFields? { f with kind := some k } rest := by
  have hkey : Key.ofItem? (textItem "t") = some .kind := ofItem?_keyLetter .kind
  have hkind : Cbor.toKindNumber? (.unsigned k) = some (k : Int) := by
    have hbound : (k : Int) < Nat.pow 2 63 := by exact_mod_cast hk
    simp only [Cbor.toKindNumber?, Cbor.toInteger?, if_pos hbound]
  rw [takeFields?, hkey]
  simp only [Option.bind_eq_bind, Option.bind_some, hf, hkind, Option.map_some]
  rfl

theorem takeFields?_n (hf : f.number = none) (x : Binary64) :
    takeFields? f (textItem "n" :: .float x :: rest)
      = takeFields? { f with number := some x } rest := by
  have hkey : Key.ofItem? (textItem "n") = some .number := ofItem?_keyLetter .number
  rw [takeFields?, hkey]
  simp only [Option.bind_eq_bind, Option.bind_some, hf, Cbor.toNumber?, Option.map_some]
  rfl

theorem takeFields?_s (hf : f.text = none) (s : String) :
    takeFields? f (textItem "s" :: textItem s :: rest)
      = takeFields? { f with text := some s } rest := by
  have hkey : Key.ofItem? (textItem "s") = some .text := ofItem?_keyLetter .text
  rw [takeFields?, hkey]
  simp only [Option.bind_eq_bind, Option.bind_some, hf, toText?_textItem, Option.map_some]
  rfl

theorem takeFields?_b (hf : f.truth = none) :
    takeFields? f (textItem "b" :: .simple 21 :: rest)
      = takeFields? { f with truth := some true } rest := by
  have hkey : Key.ofItem? (textItem "b") = some .truth := ofItem?_keyLetter .truth
  have htrue : Cbor.toTruth? (.simple 21) = some true := rfl
  rw [takeFields?, hkey]
  simp only [Option.bind_eq_bind, Option.bind_some, hf, htrue, Option.map_some]
  rfl

theorem takeFields?_i (hf : f.items = none) {is : List Item} {ds : List Datum}
    (his : toData? is = some ds) :
    takeFields? f (textItem "i" :: .array is :: rest)
      = takeFields? { f with items := some ds } rest := by
  have hkey : Key.ofItem? (textItem "i") = some .items := ofItem?_keyLetter .items
  rw [takeFields?, hkey]
  simp only [Option.bind_eq_bind, Option.bind_some, hf, toList?, his, Option.map_some]
  rfl

end Keys

theorem toData?_map {ds : List Datum} {f : Datum → Item} {g : Datum → Datum}
    (h : ∀ d ∈ ds, (toFields? (f d)).map Fields.toDatum = some (g d)) :
    toData? (ds.map f) = some (ds.map g) := by
  induction ds with
  | nil => rfl
  | cons d ds ih =>
    obtain ⟨fields, hfields, hdatum⟩ := Option.map_eq_some_iff.1 (h d List.mem_cons_self)
    have hrest := ih fun e he => h e (List.mem_cons_of_mem d he)
    rw [List.map_cons, toData?, hfields, hrest, List.map_cons, ← hdatum]
    rfl

theorem toFields?_record_nil {k : Nat} (hk : k < 2 ^ 63) :
    toFields? (record [] k) = some { kind := some k } := by
  rw [record, List.nil_append, toFields?, takeFields?_t rfl hk, takeFields?]

theorem toFields?_record_pair (key value : Item) (k : Nat) :
    toFields? (record [key, value] k) = takeFields? {} [key, value, textItem "t", .unsigned k] := by
  rw [record, toFields?, List.cons_append, List.cons_append, List.nil_append]

/-- **The fields of a record give back the value.** -/
theorem toFields?_toItem_normal (d : Datum) :
    (toFields? d.normal.toItem).map Fields.toDatum = some d.normal := by
  induction d using Datum.induction with
  | undefined =>
    rw [normal, toItem, toFields?_record_nil (by decide)]
    rfl
  | number n =>
    rw [normal, toItem]
    -- zero, the empty text, falsehood and the empty list are left out of a record
    split
    case isTrue hzero =>
      rw [Binary64.magnitude_normal_eq_zero] at hzero
      rw [toFields?_record_nil (by decide), Binary64.normal, if_pos hzero]
      rfl
    case isFalse =>
      rw [toFields?_record_pair, takeFields?_n rfl, takeFields?_t rfl (by decide)]
      rfl
  | text s =>
    rw [normal, toItem]
    split
    case isTrue hempty =>
      rw [toFields?_record_nil (by decide), hempty]
      rfl
    case isFalse =>
      rw [toFields?_record_pair, takeFields?_s rfl, takeFields?_t rfl (by decide)]
      rfl
  | truth b =>
    cases b with
    | true =>
      rw [normal, toItem, if_pos rfl, toFields?_record_pair, takeFields?_b rfl,
        takeFields?_t rfl (by decide)]
      rfl
    | false =>
      rw [normal, toItem, if_neg (by decide), toFields?_record_nil (by decide)]
      rfl
  | noList =>
    -- a list value without a list is kept like an empty list
    rw [normal, toItem, if_pos (by rfl), toFields?_record_nil (by decide)]
    rfl
  | list ds ih =>
    rw [normal, toItem, normalAll_eq_map, toItems_eq_map, List.map_map]
    split
    case isTrue hempty =>
      rw [toFields?_record_nil (by decide), List.isEmpty_iff.1 hempty]
      rfl
    case isFalse =>
      -- the items were brought into normal form first, so the hypothesis is about them as written
      rw [toFields?_record_pair, takeFields?_i rfl (toData?_map (f := toItem ∘ normal) ih),
        takeFields?_t rfl (by decide)]
      rfl

/-! ### The round trip -/

/-- **A value is read back in its normal form exactly when the reader's limits allow.** -/
theorem decode?_encode (d : Datum) (hsize : d.encode.length < 2 ^ 64) :
    Datum.decode? d.encode
      = if d.nesting ≤ 15 ∧ d.widest ≤ maxCount then some d.normal else none := by
  have hplain := plain_toItem_normal d
  rw [← encode_normal] at hsize ⊢
  have hitem : Item.decode? d.normal.encode
      = if d.normal.toItem.admitted 0 then some d.normal.toItem else none :=
    Item.decode?_encode hplain hsize
  have hlimits : d.normal.toItem.admitted 0 = true ↔ d.nesting ≤ 15 ∧ d.widest ≤ maxCount := by
    rw [admitted_toItem_normal, maxDepth]
    omega
  obtain ⟨fields, hfields, hdatum⟩ := Option.map_eq_some_iff.1 (toFields?_toItem_normal d)
  rw [Datum.decode?, hitem]
  by_cases hadmitted : d.normal.toItem.admitted 0 = true
  · rw [if_pos hadmitted, if_pos (hlimits.1 hadmitted)]
    simp [hfields, hdatum]
  · rw [if_neg hadmitted, if_neg (mt hlimits.2 hadmitted)]
    rfl

/-! ### Single numbers and empty content -/

/-- The bytes of a number that is not zero: the record around the float. -/
theorem encode_number {x : Binary64} (h : x.magnitude ≠ 0) :
    (number x).encode = [0xa2, 0x61, 0x6e] ++ Cbor.encodeFloat x ++ [0x61, 0x74, 0x01] := by
  have hhead : Cbor.head 5 2 = [0xa2] := rfl
  have hkey : (textItem "n").encode = [0x61, 0x6e] := rfl
  have hkind : (textItem "t").encode ++ Cbor.head 0 1 = [0x61, 0x74, 0x01] := rfl
  rw [encode, toItem, if_neg h, record, List.cons_append, List.cons_append, List.nil_append,
    Item.encode]
  simp only [Item.encodeAll, List.length_cons, List.length_nil, Nat.reduceAdd, Nat.reduceDiv,
    List.append_nil, hhead, hkey, Item.encode, hkind]
  rfl

/-- The content is zero, empty or false. -/
def HasZeroContent (d : Datum) : Prop :=
  d = .number .zero ∨ d = .text "" ∨ d = .truth false ∨ d = .list []

/-- Such a value is written as its kind alone. -/
theorem HasZeroContent.encode_eq {d : Datum} (h : d.HasZeroContent) :
    d.encode = (record [] d.kindNumber).encode := by
  rcases h with rfl | rfl | rfl | rfl <;> rfl

theorem HasZeroContent.within_limits {d : Datum} (h : d.HasZeroContent) :
    (d.nesting ≤ 15 ∧ d.widest ≤ maxCount) ∧ d.normal = d := by
  rcases h with rfl | rfl | rfl | rfl <;> exact ⟨by decide, by rfl⟩

/-- **Values are read back within the limits, and only there.** Reading what was written succeeds
exactly when non-empty lists nest at most fifteen deep and no list is longer than the reader takes,
and gives the normal form. A number other than the negative zero and not-a-number comes back bit for
bit, through the shortest of the three widths that holds it; content that was left out comes back
too. The bound on the bytes is that of a count in a head. -/
theorem round_trip (d : Datum) (hsize : d.encode.length < 2 ^ 64) :
    ((Datum.decode? d.encode).isSome = true ↔ d.nesting ≤ 15 ∧ d.widest ≤ maxCount) ∧
    (d.nesting ≤ 15 → d.widest ≤ maxCount → Datum.decode? d.encode = some d.normal) ∧
    (∀ x, d = .number x → x.isNaN = false → x ≠ .ofWord true 0 →
      Datum.decode? d.encode = some (.number x) ∧
      (x ≠ .zero →
        d.encode = [0xa2, 0x61, 0x6e] ++ Cbor.encodeFloat x ++ [0x61, 0x74, 0x01]) ∧
      ((Cbor.FloatFormat.half.Holds x ∧ (Cbor.encodeFloat x).length = 3) ∨
        (¬ Cbor.FloatFormat.half.Holds x ∧ Cbor.FloatFormat.single.Holds x ∧
          (Cbor.encodeFloat x).length = 5) ∨
        (¬ Cbor.FloatFormat.half.Holds x ∧ ¬ Cbor.FloatFormat.single.Holds x ∧
          (Cbor.encodeFloat x).length = 9))) ∧
    (d.HasZeroContent →
      d.encode = (record [] d.kindNumber).encode ∧ Datum.decode? d.encode = some d) := by
  rw [decode?_encode d hsize]
  refine ⟨?_, ?_, ?_, ?_⟩
  · by_cases hlimits : d.nesting ≤ 15 ∧ d.widest ≤ maxCount
    · rw [if_pos hlimits]
      exact iff_of_true rfl hlimits
    · rw [if_neg hlimits]
      exact iff_of_false (by decide) hlimits
  · intro hnesting hwidest
    rw [if_pos ⟨hnesting, hwidest⟩]
  · -- numbers are within the limits, and the normal form keeps these
    rintro x rfl hnan hnegative
    refine ⟨?_, ?_, Cbor.length_encodeFloat hnan⟩
    · rw [if_pos ⟨Nat.zero_le _, Nat.zero_le _⟩, normal, Binary64.normal_eq_self hnan hnegative]
    · intro hzero
      exact encode_number (mt Binary64.magnitude_eq_zero_iff.1 (not_or.2 ⟨hzero, hnegative⟩))
  · -- so are values whose content is left out
    intro hzero
    obtain ⟨hlimits, hnormal⟩ := hzero.within_limits
    exact ⟨hzero.encode_eq, by rw [if_pos hlimits, hnormal]⟩

/-- A list of a negative zero, the list value without a list, and a list inside a list. -/
theorem round_trip_mixed :
    Datum.decode? (list [number (.ofWord true 0), noList, list [truth true]]).encode
      = some (list [number .zero, list [], list [truth true]]) := by
  refine ((round_trip _ ?_).2.1 ?_ ?_).trans ?_
  · decide
  · decide
  · decide
  · rfl

/-! ### Long lists -/

theorem length_encodeAll_replicate (n : Nat) (i : Item) :
    (Item.encodeAll (List.replicate n i)).length = n * i.encode.length := by
  induction n with
  | zero => rw [Nat.zero_mul]; rfl
  | succ n ih =>
    rw [List.replicate_succ, Item.encodeAll, List.length_append, ih, Nat.succ_mul, Nat.add_comm]

/-- A list of undefined values takes four bytes an item and some around them. -/
theorem length_encode_replicate (n : Nat) :
    (list (List.replicate n undefined)).encode.length ≤ 4 * n + 15 := by
  rw [encode, toItem, toItems_eq_map, List.map_replicate]
  split
  · have hrecord : (record [] 4).encode.length = 4 := rfl
    omega
  · have hitem : (toItem undefined).encode.length = 4 := rfl
    have hhead : (Cbor.head 5 2).length = 1 := rfl
    have hkey : (textItem "i").encode.length = 2 := rfl
    have hkind : (textItem "t").encode.length = 2 := rfl
    have hkind' : (Cbor.head 0 4).length = 1 := rfl
    have harray := Cbor.length_head_le 4 n
    simp only [record, List.cons_append, List.nil_append, Item.encode, Item.encodeAll,
      List.length_append, List.length_cons, List.length_nil, List.length_replicate,
      length_encodeAll_replicate, Nat.reduceAdd, Nat.reduceDiv, hitem, hhead, hkey, hkind, hkind']
    omega

theorem nesting_replicate (n : Nat) : (list (List.replicate n undefined)).nesting ≤ 1 := by
  have hitems : nestingAll (List.replicate n undefined) ≤ 0 := by
    refine nestingAll_le_iff.2 fun d hd => ?_
    rw [List.eq_of_mem_replicate hd]
    exact Nat.le_refl 0
  rw [nesting]
  split <;> omega

theorem le_widest_replicate (n : Nat) : n ≤ (list (List.replicate n undefined)).widest := by
  rw [widest, List.length_replicate]
  exact Nat.le_max_left _ _

/-- Nesting alone does not decide: one list beyond the limit of the reader is not read. -/
theorem decode?_encode_too_long :
    (list (List.replicate 131073 undefined)).nesting ≤ 15 ∧
      Datum.decode? (list (List.replicate 131073 undefined)).encode = none := by
  have hnesting := nesting_replicate 131073
  have hsize := length_encode_replicate 131073
  have hwidest := le_widest_replicate 131073
  refine ⟨by omega, ?_⟩
  rw [decode?_encode _ (by omega), if_neg]
  rintro ⟨-, hle⟩
  rw [maxCount] at hle
  omega

end Datum

end Blockwork
