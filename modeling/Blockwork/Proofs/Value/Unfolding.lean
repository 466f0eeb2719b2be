import Blockwork.Value.Basic
import Mathlib.Data.List.Nodup
import Mathlib.Data.List.Perm.Subperm
import Mathlib.Logic.Relation
import Mathlib.Tactic.Common

/-!
# Reading a value to its end

To read a value out is to read the items of its list, and the items of theirs, with nothing that
would stop it. `Store.Reads` is that reading. A list can come to lie inside itself, by being added
to itself, and of such a list there is no reading: whoever starts one does not return.

`Store.read` is a function and has to answer. It cuts a list off where it meets it inside itself,
and what it answers then is nobody's reading. The theorem of this file says when that happens, and
that it happens in no other case: a value has a reading if no list that is met in it lies inside
itself, and then `Store.read` is that reading (`Store.reads_iff`). All that is said elsewhere about
values that were read out, shown or recorded is meant for such values.
-/

namespace Blockwork

namespace Store

variable {s : Store}

/-! ### Lists inside lists -/

/-- A path that is as long as there are lists has all of them. -/
theorem mem_of_path_full {n : Nat} {path : List ListId} (hnodup : path.Nodup)
    (hpath : ∀ id ∈ path, id.index < n) (hlong : n ≤ path.length) {id : ListId}
    (hid : id.index < n) : id ∈ path := by
  have hinj : Function.Injective ListId.index := by
    rintro ⟨a⟩ ⟨b⟩ hab
    exact congrArg ListId.mk hab
  have hindexes : (path.map ListId.index).Nodup := hnodup.map hinj
  have hsubset : path.map ListId.index ⊆ List.range n := by
    intro i hi
    obtain ⟨a, ha, rfl⟩ := List.mem_map.1 hi
    exact List.mem_range.2 (hpath a ha)
  have hperm : (path.map ListId.index).Perm (List.range n) :=
    (List.subperm_of_subset hindexes hsubset).perm_of_length_le (by simpa using hlong)
  obtain ⟨a, ha, haid⟩ := List.mem_map.1 (hperm.mem_iff.2 (List.mem_range.2 hid))
  exact hinj haid ▸ ha

theorem items_of_size_le {id : ListId} (hid : s.lists.size ≤ id.index) : s.items id = #[] := by
  unfold items
  rw [Array.getD_eq_getD_getElem?, Array.getElem?_eq_none hid]
  rfl

/-- The second value is a list, and the first one of its items. -/
def ItemOf (s : Store) (v w : Value) : Prop := ∃ id, w = .list id ∧ v ∈ s.items id

/-- The first value lies inside the second one, however deep. -/
def Inside (s : Store) : Value → Value → Prop := Relation.TransGen s.ItemOf

/-- **No list that is met in a value lies inside itself.** -/
def Unfolds (s : Store) (v : Value) : Prop :=
  ∀ w, Relation.ReflTransGen s.ItemOf w v → ¬ s.Inside w w

theorem Unfolds.item {v w : Value} (h : s.Unfolds v) (hw : s.ItemOf w v) : s.Unfolds w :=
  fun u hu => h u (hu.tail hw)

theorem unfolds_of_forall_items {v : Value} (h : ∀ w, s.ItemOf w v → s.Unfolds w) :
    s.Unfolds v := by
  intro w hw hcycle
  -- one of the items of `v` is met on a cycle: below it is `w`, or it is on the cycle of `v`
  rcases hw.cases_tail with rfl | ⟨u, hwu, huv⟩
  · obtain ⟨u, hvu, huv⟩ := Relation.TransGen.tail'_iff.1 hcycle
    exact h u huv v hvu hcycle
  · exact h u huv w hwu hcycle

/-! ### Readings -/

/-- **Reading out to the end.** A list reads as the list of what its items read as. -/
inductive Reads (s : Store) : Value → Datum → Prop
  | undefined : Reads s .undefined .undefined
  | number (n : Binary64) : Reads s (.number n) (.number n)
  | text (t : String) : Reads s (.text t) (.text t)
  | truth (b : Bool) : Reads s (.truth b) (.truth b)
  | noList : Reads s .noList .noList
  | list {id : ListId} (read : Value → Datum) (h : ∀ v ∈ s.items id, Reads s v (read v)) :
    Reads s (.list id) (.list ((s.items id).toList.map read))

/-- A value has one reading at most. -/
theorem Reads.unique {v : Value} {d d' : Datum} (h : s.Reads v d) (h' : s.Reads v d') :
    d = d' := by
  induction h generalizing d' with
  | list read _ ih =>
    cases h' with
    | list read' h' =>
      congr 1
      refine List.map_congr_left fun w hw => ?_
      have hitem := Array.mem_toList_iff.1 hw
      exact ih w hitem (h' w hitem)
  | _ =>
    cases h'
    rfl

/-- What has a reading is no list, or a list whose items have readings. -/
theorem Reads.unfolds {v : Value} {d : Datum} (h : s.Reads v d) : s.Unfolds v := by
  induction h with
  | list read _ ih =>
    refine unfolds_of_forall_items ?_
    rintro w ⟨_, ⟨⟩, hw⟩
    exact ih w hw
  | _ => exact unfolds_of_forall_items (by rintro w ⟨_, ⟨⟩, -⟩)

/-- What is no list reads as it is. -/
theorem reads_of_ne_list {v : Value} (hv : ∀ id, v ≠ .list id) (depth : Nat)
    (path : List ListId) : s.Reads v (s.readInside depth path v) := by
  cases v with
  | list id => exact absurd rfl (hv id)
  | undefined => cases depth <;> exact .undefined
  | number n => cases depth <;> exact .number n
  | text t => cases depth <;> exact .text t
  | truth b => cases depth <;> exact .truth b
  | noList => cases depth <;> exact .noList

/-- A list without items is read as one wherever it is met. -/
theorem readInside_of_items_eq_empty {id : ListId} (h : s.items id = #[]) (depth : Nat)
    (path : List ListId) : s.readInside depth path (.list id) = .list [] := by
  cases depth with
  | zero => rfl
  | succ depth =>
    rw [readInside, h]
    split <;> rfl

theorem reads_of_items_eq_empty {id : ListId} (h : s.items id = #[]) :
    s.Reads (.list id) (.list []) := by
  have hread : s.Reads (.list id) (.list ((s.items id).toList.map s.read)) :=
    .list s.read fun v hv => absurd hv (by simp [h])
  rwa [h] at hread

/-- **Where nothing lies inside itself nothing is cut off.** The value lies inside every list of
the path, so meeting one of them again would close a cycle; and the depth cannot be used up before
every list is on the path. -/
theorem reads_readInside (depth : Nat) :
    ∀ (path : List ListId) (v : Value), s.Unfolds v → path.Nodup →
      (∀ id ∈ path, id.index < s.lists.size ∧ s.Inside v (.list id)) →
      s.lists.size ≤ depth + path.length → s.Reads v (s.readInside depth path v) := by
  induction depth with
  | zero =>
    intro path v hv hnodup hpath hlong
    cases v with
    | list id =>
      by_cases hid : id.index < s.lists.size
      · have hmem : id ∈ path :=
          mem_of_path_full hnodup (fun a ha => (hpath a ha).1) (by omega) hid
        exact absurd (hpath id hmem).2 (hv _ .refl)
      · exact reads_of_items_eq_empty (items_of_size_le (Nat.not_lt.1 hid))
    | _ => exact reads_of_ne_list (by simp) _ path
  | succ depth ih =>
    intro path v hv hnodup hpath hlong
    cases v with
    | list id =>
      by_cases hid : id.index < s.lists.size
      · have hmem : id ∉ path := fun hmem => hv _ .refl (hpath id hmem).2
        rw [readInside, if_neg (fun hc => hmem (List.contains_iff_mem.1 hc))]
        refine .list _ fun w hw => ?_
        have hitem : s.ItemOf w (.list id) := ⟨id, rfl, hw⟩
        -- an item lies inside the list and so inside all that the list lies inside of
        refine ih (id :: path) w (hv.item hitem) (List.nodup_cons.2 ⟨hmem, hnodup⟩) ?_ ?_
        · intro a ha
          rcases List.mem_cons.1 ha with rfl | ha
          · exact ⟨hid, .single hitem⟩
          · exact ⟨(hpath a ha).1, .head hitem (hpath a ha).2⟩
        · rw [List.length_cons]
          omega
      · have hempty := items_of_size_le (Nat.not_lt.1 hid)
        rw [readInside_of_items_eq_empty hempty]
        exact reads_of_items_eq_empty hempty
    | _ => exact reads_of_ne_list (by simp) _ path

/-- **When reading comes to an end, and with what.** -/
theorem reads_iff {v : Value} {d : Datum} : s.Reads v d ↔ s.Unfolds v ∧ d = s.read v := by
  have hread : s.Unfolds v → s.Reads v (s.read v) := fun hv =>
    reads_readInside s.lists.size [] v hv List.nodup_nil
      (fun id hid => absurd hid List.not_mem_nil) (Nat.le_add_right _ _)
  constructor
  · intro h
    exact ⟨h.unfolds, h.unique (hread h.unfolds)⟩
  · rintro ⟨hv, rfl⟩
    exact hread hv

/-- **A value has a reading if no list that is met in it lies inside itself.** -/
theorem exists_reads_iff {v : Value} : (∃ d, s.Reads v d) ↔ s.Unfolds v := by
  constructor
  · rintro ⟨d, h⟩
    exact h.unfolds
  · exact fun hv => ⟨s.read v, reads_iff.2 ⟨hv, rfl⟩⟩

end Store

end Blockwork
