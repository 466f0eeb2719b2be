import Blockwork.Proofs.Cbor.RoundTrip
import Mathlib.Data.List.Sort
import Mathlib.Data.Prod.Lex

/-!
# One record for one heap

The bindings of a heap are a finite map from names to values, written down in some order. Their
record does not depend on that order, and it determines the map up to the normal form of the values.

Names are sorted by a key, their size followed by the name itself (`Bindings.nameKey`). Keys are
linearly ordered and distinct for distinct names, so sorting a map leaves one possible list
(`mergeSort_eq_of_perm`), which gives the first half. For the second, the record of the sorted
bindings is a plain item, and the reader of bindings takes such a record apart again
(`takeBindings?_entries`): the record is determined by its bytes because plain items are, whatever
the reader's limits, and the bindings by the record.
-/

namespace Blockwork

open Cbor (Item maxCount maxDepth)
open Text (Bytes)

namespace Bindings

/-! ### The order of names -/

/-- What names are sorted by. -/
def nameKey (name : String) : Nat ×ₗ String := toLex (name.utf8ByteSize, name)

theorem nameKey_injective : Function.Injective nameKey := fun _ _ h =>
  congrArg (fun key => (ofLex key).2) h

/-- Shorter names first, names of one length in the order of their bytes. -/
theorem nameKey_lt_iff {a b : String} :
    nameKey a < nameKey b ↔
      (Text.encode a).length < (Text.encode b).length ∨
        (Text.encode a).length = (Text.encode b).length ∧ Text.encode a < Text.encode b := by
  rw [nameKey, nameKey, Prod.Lex.toLex_lt_toLex, Text.length_encode, Text.length_encode,
    Text.encode_lt_encode_iff]

theorem precedes_iff {a b : String × Datum} :
    precedes a b = true ↔ nameKey a.1 ≤ nameKey b.1 := by
  rw [nameKey, nameKey, Prod.Lex.toLex_le_toLex, precedes]
  split
  case isTrue h =>
    rw [Bool.not_eq_true', decide_eq_false_iff_not, not_lt]
    exact ⟨fun hle => .inr ⟨h, hle⟩, fun hle => (hle.resolve_left h.not_lt).2⟩
  case isFalse h =>
    rw [decide_eq_true_eq]
    exact ⟨.inl, fun hlt => hlt.resolve_right fun heq => h heq.1⟩

/-- **Sorting distinct names leaves them strictly ordered.** -/
theorem pairwise_mergeSort {bs : List (String × Datum)} (h : (bs.map (·.1)).Nodup) :
    (bs.mergeSort precedes).Pairwise fun a b => nameKey a.1 < nameKey b.1 := by
  have hle : (bs.mergeSort precedes).Pairwise fun a b => precedes a b = true := by
    refine List.pairwise_mergeSort ?_ ?_ bs
    · intro a b c hab hbc
      rw [precedes_iff] at hab hbc ⊢
      exact hab.trans hbc
    · intro a b
      rw [Bool.or_eq_true, precedes_iff, precedes_iff]
      exact le_total _ _
  have hne : (bs.mergeSort precedes).Pairwise fun a b => a.1 ≠ b.1 := by
    rw [← List.pairwise_map]
    exact ((bs.mergeSort_perm precedes).map (·.1)).nodup_iff.2 h
  refine (hle.and hne).imp ?_
  rintro a b ⟨hab, hne⟩
  exact lt_of_le_of_ne (precedes_iff.1 hab) (nameKey_injective.ne hne)

/-- **The order in which a map is written down does not matter.** -/
theorem mergeSort_eq_of_perm {bs bs' : List (String × Datum)} (h : (bs.map (·.1)).Nodup)
    (hperm : bs.Perm bs') : bs.mergeSort precedes = bs'.mergeSort precedes := by
  have h' : (bs'.map (·.1)).Nodup := (hperm.map (·.1)).nodup_iff.1 h
  refine List.Perm.eq_of_pairwise ?_ (pairwise_mergeSort h) (pairwise_mergeSort h') ?_
  · intro a b _ _ hab hba
    exact absurd hab hba.asymm
  · exact (bs.mergeSort_perm precedes).trans (hperm.trans (bs'.mergeSort_perm precedes).symm)

/-! ### The record -/

/-- The keys and values of the record of sorted bindings. -/
def entries (bs : List (String × Datum)) : List Item :=
  bs.flatMap fun b => [Datum.textItem b.1, b.2.toItem]

/-- The bindings with their values in normal form. -/
def normal (bs : List (String × Datum)) : List (String × Datum) := bs.map fun b => (b.1, b.2.normal)

theorem toItem_eq (bs : List (String × Datum)) :
    toItem bs = .map (entries (bs.mergeSort precedes)) := rfl

theorem entries_cons (b : String × Datum) (bs : List (String × Datum)) :
    entries (b :: bs) = Datum.textItem b.1 :: b.2.toItem :: entries bs := rfl

theorem length_entries (bs : List (String × Datum)) : (entries bs).length = 2 * bs.length := by
  induction bs with
  | nil => rfl
  | cons b bs ih =>
    rw [entries_cons, List.length_cons, List.length_cons, ih, List.length_cons]
    omega

theorem names_normal (bs : List (String × Datum)) : (normal bs).map (·.1) = bs.map (·.1) := by
  rw [normal, List.map_map]
  rfl

/-- The bytes of the entries: each name with its length, each followed by its value. -/
theorem encodeAll_entries (bs : List (String × Datum)) :
    Item.encodeAll (entries bs) = bs.flatMap fun b =>
      Cbor.head 3 (Text.encode b.1).length ++ Text.encode b.1 ++ b.2.encode := by
  induction bs with
  | nil => rfl
  | cons b bs ih =>
    rw [entries_cons, Item.encodeAll, Item.encodeAll, ih, List.flatMap_cons, ← List.append_assoc,
      Datum.textItem, Item.encode, List.flatten_singleton]
    rfl

/-- **The bytes of some bindings**: their number, then names and values in the order of names. -/
theorem encode_eq (bs : List (String × Datum)) :
    encode bs = Cbor.head 5 bs.length ++ (bs.mergeSort precedes).flatMap fun b =>
      Cbor.head 3 (Text.encode b.1).length ++ Text.encode b.1 ++ b.2.encode := by
  rw [encode, toItem_eq, Item.encode, length_entries, List.length_mergeSort, encodeAll_entries,
    Nat.mul_div_cancel_left _ Nat.zero_lt_two]

/-- Sorting does not change how many bytes there are. -/
theorem length_encode (bs : List (String × Datum)) :
    (encode bs).length = (Cbor.head 5 bs.length).length + (bs.flatMap fun b =>
      Cbor.head 3 (Text.encode b.1).length ++ Text.encode b.1 ++ b.2.encode).length := by
  rw [encode_eq, List.length_append, ((bs.mergeSort_perm precedes).flatMap_right _).length_eq]

theorem encodeAll_entries_normal (bs : List (String × Datum)) :
    Item.encodeAll (entries (normal bs)) = Item.encodeAll (entries bs) := by
  rw [encodeAll_entries, encodeAll_entries, normal, List.flatMap_map]
  simp only [Datum.encode_normal]

/-- The record of the sorted bindings may be taken in normal form. -/
theorem encode_eq_normal (bs : List (String × Datum)) :
    encode bs = (Item.map (entries (normal (bs.mergeSort precedes)))).encode := by
  rw [encode, toItem_eq, Item.encode, Item.encode, encodeAll_entries_normal, length_entries,
    length_entries, normal, List.length_map]

theorem forall_mem_entries {P : Item → Prop} {bs : List (String × Datum)} :
    (∀ i ∈ entries bs, P i) ↔ ∀ b ∈ bs, P (Datum.textItem b.1) ∧ P b.2.toItem := by
  induction bs with
  | nil => exact iff_of_true (List.forall_mem_nil _) (List.forall_mem_nil _)
  | cons b bs ih =>
    rw [entries_cons, List.forall_mem_cons, List.forall_mem_cons, ih, List.forall_mem_cons,
      and_assoc]

theorem plain_entries_normal (bs : List (String × Datum)) :
    (Item.map (entries (normal bs))).Plain := by
  refine .map ?_ ?_
  · rw [length_entries]
    exact Nat.mul_mod_right _ _
  · rw [forall_mem_entries, normal, List.forall_mem_map]
    exact fun b _ => ⟨Datum.plain_textItem b.1, Datum.plain_toItem_normal b.2⟩

/-- What the reader admits: the map is a level of its own. -/
theorem admitted_entries_normal (bs : List (String × Datum)) :
    (Item.map (entries (normal bs))).admitted 0 = true ↔
      bs.length ≤ maxCount ∧ ∀ b ∈ bs, b.2.nesting ≤ 15 ∧ b.2.widest ≤ maxCount := by
  have hpairs : (entries (normal bs)).length / 2 = bs.length := by
    rw [length_entries, Nat.mul_div_cancel_left _ Nat.zero_lt_two, normal, List.length_map]
  have hdepth : 0 < maxDepth := by decide
  rw [Item.admitted, Bool.and_eq_true, decide_eq_true_eq, hpairs, Datum.admittedAll_iff,
    forall_mem_entries, normal, List.forall_mem_map, and_iff_right hdepth]
  refine and_congr_right fun _ => forall₂_congr fun b _ => ?_
  have hname : (Datum.textItem b.1).admitted (0 + 1) = true := rfl
  rw [and_iff_right hname, Datum.admitted_toItem_normal, maxDepth]
  exact and_congr_left fun _ => by omega

/-! ### Reading -/

theorem bind_eq_append {bs : List (String × Datum)} {name : String}
    (h : name ∉ bs.map (·.1)) (d : Datum) : bind bs name d = bs ++ [(name, d)] := by
  have hnew : ¬ bs.any (·.1 == name) = true := by
    rw [List.any_eq_true]
    rintro ⟨b, hb, heq⟩
    exact h (List.mem_map.2 ⟨b, hb, eq_of_beq heq⟩)
  rw [bind, if_neg hnew]

/-- **A record gives back its bindings**, after those that were read before. -/
theorem takeBindings?_entries (last : String) (before bs : List (String × Datum))
    (h : ((before ++ bs).map (·.1)).Nodup) :
    takeBindings? last before (entries (normal bs)) = some (before ++ normal bs) := by
  induction bs generalizing last before with
  | nil =>
    rw [normal, List.map_nil, List.append_nil]
    rfl
  | cons b bs ih =>
    obtain ⟨fields, hfields, hdatum⟩ :=
      Option.map_eq_some_iff.1 (Datum.toFields?_toItem_normal b.2)
    -- the names before, this name and the names after are all distinct
    have hnew : b.1 ∉ before.map (·.1) := by
      rw [List.map_append, List.map_cons, List.nodup_append] at h
      exact fun hmem => h.2.2 _ hmem _ List.mem_cons_self rfl
    have hnext : (((before ++ [(b.1, b.2.normal)]) ++ bs).map (·.1)).Nodup := by
      rw [List.append_assoc, List.map_append]
      rwa [List.map_append] at h
    rw [normal, List.map_cons, entries_cons, takeBindings?, Datum.toText?_textItem, hfields]
    simp only [Option.bind_eq_bind, Option.bind_some, Option.getD_some, hdatum]
    rw [bind_eq_append hnew, ← normal, ih b.1 _ hnext, List.append_assoc]
    rfl

theorem nodup_mergeSort {bs : List (String × Datum)} (hnames : (bs.map (·.1)).Nodup) :
    ((bs.mergeSort precedes).map (·.1)).Nodup :=
  ((bs.mergeSort_perm precedes).map (·.1)).nodup_iff.2 hnames

theorem ofItem?_entries {bs : List (String × Datum)} (hnames : (bs.map (·.1)).Nodup) :
    ofItem? (.map (entries (normal bs))) = some (normal bs) := by
  rw [ofItem?, takeBindings?_entries "" [] bs (by rwa [List.nil_append]), List.nil_append]

/-- **What is read back**: the sorted bindings in normal form, within the limits. -/
theorem decode?_encode {bs : List (String × Datum)} (hnames : (bs.map (·.1)).Nodup)
    (hsize : (encode bs).length < 2 ^ 64) :
    decode? (encode bs)
      = if bs.length ≤ maxCount ∧ ∀ b ∈ bs, b.2.nesting ≤ 15 ∧ b.2.widest ≤ maxCount then
          some (normal (bs.mergeSort precedes))
        else none := by
  rw [encode_eq_normal] at hsize ⊢
  have hitem := Item.decode?_encode (plain_entries_normal (bs.mergeSort precedes)) hsize
  have hlimits := admitted_entries_normal (bs.mergeSort precedes)
  simp only [List.length_mergeSort, List.mem_mergeSort] at hlimits
  have hread := ofItem?_entries (nodup_mergeSort hnames)
  rw [decode?, hitem]
  by_cases hadmitted :
      (Item.map (entries (normal (bs.mergeSort precedes)))).admitted 0 = true
  · rw [if_pos hadmitted, if_pos (hlimits.1 hadmitted)]
    exact hread
  · rw [if_neg hadmitted, if_neg (mt hlimits.2 hadmitted)]
    rfl

/-- Bindings and their normal form are written alike. -/
theorem encode_normal (bs : List (String × Datum)) : encode (normal bs) = encode bs := by
  have hsort : (normal bs).mergeSort precedes = normal (bs.mergeSort precedes) := by
    refine (List.map_mergeSort ?_).symm
    intro a _ b _
    rfl
  rw [encode_eq_normal bs, encode, toItem_eq, hsort]

/-- **The order of the bindings does not show.** -/
theorem encode_eq_of_perm {bs bs' : List (String × Datum)} (hnames : (bs.map (·.1)).Nodup)
    (hperm : bs.Perm bs') : encode bs = encode bs' := by
  rw [encode, encode, toItem_eq, toItem_eq, mergeSort_eq_of_perm hnames hperm]

/-- **The bytes determine the bindings** up to normal form, with no regard to the limits. -/
theorem encode_eq_encode_iff {bs bs' : List (String × Datum)} (hnames : (bs.map (·.1)).Nodup)
    (hnames' : (bs'.map (·.1)).Nodup) (hsize : (encode bs).length < 2 ^ 64) :
    encode bs = encode bs' ↔ (normal bs).Perm (normal bs') := by
  constructor
  · intro h
    -- equal bytes are equal items, and equal items are read as the same sorted bindings
    have hitems : Item.map (entries (normal (bs.mergeSort precedes)))
        = .map (entries (normal (bs'.mergeSort precedes))) := by
      rw [encode_eq_normal, encode_eq_normal] at h
      rw [encode_eq_normal] at hsize
      exact ((plain_entries_normal _).encode_inj (plain_entries_normal _) hsize).1 h
    have hsorted : normal (bs.mergeSort precedes) = normal (bs'.mergeSort precedes) := by
      have hread := ofItem?_entries (nodup_mergeSort hnames)
      rw [hitems, ofItem?_entries (nodup_mergeSort hnames')] at hread
      exact (Option.some.inj hread).symm
    -- sorting only rearranges the bindings
    have hleft : (normal bs).Perm (normal (bs.mergeSort precedes)) :=
      ((bs.mergeSort_perm precedes).map _).symm
    rw [hsorted] at hleft
    exact hleft.trans ((bs'.mergeSort_perm precedes).map _)
  · intro hperm
    rw [← encode_normal bs, ← encode_normal bs']
    exact encode_eq_of_perm (by rwa [names_normal]) hperm

/-- **One record for one heap.** The bytes do not depend on the order of the bindings; names stand
in them once each, shorter ones first and names of one length in the order of their bytes; reading
gives back each name with the normal form of its value, within the reader's limits and only there;
and two maps have the same bytes exactly when they have the same names bound to the same values up
to normal form, be they within the limits or not. -/
theorem canonical_record (bs : List (String × Datum)) (hnames : (bs.map (·.1)).Nodup)
    (hsize : (encode bs).length < 2 ^ 64) :
    (∀ bs', bs.Perm bs' → encode bs' = encode bs) ∧
    (∃ sorted : List (String × Datum), sorted.Perm bs ∧
      sorted.Pairwise (fun a b =>
        (Text.encode a.1).length < (Text.encode b.1).length ∨
          (Text.encode a.1).length = (Text.encode b.1).length ∧
            Text.encode a.1 < Text.encode b.1) ∧
      encode bs = Cbor.head 5 bs.length ++ sorted.flatMap (fun b =>
        Cbor.head 3 (Text.encode b.1).length ++ Text.encode b.1 ++ b.2.encode) ∧
      decode? (encode bs)
        = if bs.length ≤ maxCount ∧ ∀ b ∈ bs, b.2.nesting ≤ 15 ∧ b.2.widest ≤ maxCount then
            some (normal sorted)
          else none) ∧
    (∀ bs', (bs'.map (·.1)).Nodup →
      (encode bs = encode bs' ↔ (normal bs).Perm (normal bs'))) := by
  refine ⟨fun bs' hperm => (encode_eq_of_perm hnames hperm).symm, ?_, ?_⟩
  · refine ⟨bs.mergeSort precedes, bs.mergeSort_perm precedes, ?_, encode_eq bs,
      decode?_encode hnames hsize⟩
    exact (pairwise_mergeSort hnames).imp nameKey_lt_iff.1
  · exact fun bs' hnames' => encode_eq_encode_iff hnames hnames' hsize

/-- A negative zero under one name and no list under another, against their normal forms in the
other order. -/
theorem canonical_record_pair :
    encode [("b", .number (.ofWord true 0)), ("aa", .noList)]
      = encode [("aa", .list []), ("b", .number .zero)] := by
  refine ((canonical_record _ ?_ ?_).2.2 _ ?_).2 ?_
  · decide
  · rw [length_encode]
    decide
  · decide
  · exact List.Perm.swap _ _ []

/-- A heap of one variable that holds too long a list is not read. -/
theorem decode?_encode_of_widest {d : Datum} (hwidest : maxCount < d.widest)
    (hlength : d.encode.length < 2 ^ 32) : decode? (encode [("x", d)]) = none := by
  have hnames : ([("x", d)].map (·.1)).Nodup := List.nodup_singleton "x"
  have hsize : (encode [("x", d)]).length < 2 ^ 64 := by
    have hfront : (Cbor.head 5 1).length = 1 := rfl
    have hname : (Cbor.head 3 (Text.encode "x").length ++ Text.encode "x").length = 2 := rfl
    rw [length_encode, List.flatMap_singleton, List.length_append, List.length_singleton, hfront,
      hname]
    change 1 + (2 + d.encode.length) < 2 ^ 64
    omega
  rw [decode?_encode hnames hsize, if_neg]
  rintro ⟨-, hlimits⟩
  exact absurd (hlimits _ List.mem_cons_self).2 (Nat.not_le.2 hwidest)

/-- Nesting alone does not decide: a list beyond the limit of the reader is not read. -/
theorem decode?_encode_long_list :
    (Datum.list (List.replicate 131073 .undefined)).nesting ≤ 15 ∧
      decode? (encode [("x", .list (List.replicate 131073 .undefined))]) = none := by
  have hnesting := Datum.nesting_replicate 131073
  have hwidest := Datum.le_widest_replicate 131073
  have hlength := Datum.length_encode_replicate 131073
  refine ⟨by omega, decode?_encode_of_widest ?_ (by omega)⟩
  rw [maxCount]
  omega

end Bindings

end Blockwork
