import Blockwork.Proofs.Program.Agreement

/-!
# What an editor leaves in a tree

An editor writes more into a tree than a program needs: positions and collapsed flags as attributes,
comments, mutations and data as elements, and character data wherever it breaks a line. `stripped`
takes all of this out, at every depth below the root, with whatever the elements contain. The
stripped tree agrees with the tree in what parsing looks at (`agree_stripped`), hence it is parsed
to the same program with the same warnings, or refused with the same fault (`parse_stripped`).

Nothing is asked of the elements that are taken out. They may hold absent nodes or blocks that are
malformed, for nothing inside them is looked into.
-/

namespace Blockwork.Node

/-- The attributes that parsing reads, with the values they have. -/
def keptAttributes (attributes : List (String × String)) : List (String × String) :=
  attributes.filter fun a => readAttributes.contains a.1

mutual

/-- A tree without its editorial descendants, with no attributes but those that parsing reads, and
with character data in fields and variables only. The root stays, whatever its tag is. -/
def stripped : Node → Node
  | .absent => .absent
  | .element tag attributes body children =>
    .element tag (keptAttributes attributes) (if hasReadText tag then body else "")
      (strippedAll children)

/-- The trees of a list that are not editorial, each of them stripped. -/
def strippedAll : List Node → List Node
  | [] => []
  | n :: rest => if n.isEditorial then strippedAll rest else n.stripped :: strippedAll rest

end

variable {attributes : List (String × String)} {name : String}

/-- An attribute that is read keeps its value. -/
theorem lookup?_keptAttributes (h : name ∈ readAttributes) :
    lookup? (keptAttributes attributes) name = lookup? attributes name := by
  -- being kept adds nothing to having a name that is read
  have hkept : ∀ a : String × String,
      ((readAttributes.contains a.1 = true) ∧ (a.1 == name) = true) ↔ (a.1 == name) = true :=
    fun a => and_iff_right_of_imp fun ha => List.contains_iff_mem.2 (eq_of_beq ha ▸ h)
  rw [lookup?, lookup?, keptAttributes, List.find?_filter]
  simp only [hkept, Bool.decide_eq_true]

@[simp] theorem tag?_stripped (n : Node) : n.stripped.tag? = n.tag? := by
  cases n with
  | absent => rfl
  | element => rfl

@[simp] theorem isEditorial_stripped (n : Node) : n.stripped.isEditorial = n.isEditorial := by
  rw [isEditorial, isEditorial, tag?_stripped]

theorem strippedAll_eq (nodes : List Node) :
    strippedAll nodes = (essential nodes).map stripped := by
  induction nodes with
  | nil => rfl
  | cons n nodes ih =>
    rw [strippedAll]
    cases hn : n.isEditorial with
    | true => rw [if_pos rfl, essential_cons_of_pos hn, ih]
    | false => rw [if_neg (by simp), essential_cons_of_neg hn, List.map_cons, ih]

/-- Nothing that is left is editorial. -/
theorem essential_strippedAll (nodes : List Node) :
    essential (strippedAll nodes) = strippedAll nodes := by
  rw [essential, List.filter_eq_self]
  intro m hm
  rw [strippedAll_eq] at hm
  obtain ⟨n, hn, rfl⟩ := List.mem_map.1 hm
  rw [isEditorial_stripped]
  exact (List.mem_filter.1 hn).2

/-- **A tree agrees with what is left of it.** -/
theorem agree_stripped (n : Node) : Agree n n.stripped := by
  induction n using Node.induction with
  | absent => exact .absent
  | element tag attributes body children ih =>
    rw [stripped]
    refine .element (fun name hname => ?_) (fun htext => ?_) ?_
    · rw [attr, attr, lookup?_keptAttributes hname]
    · rw [if_pos htext]
    · -- the children that are left correspond to the essential ones
      rw [essential_strippedAll, strippedAll_eq, List.forall₂_map_right_iff, List.forall₂_same]
      intro c hc
      exact ih c (mem_of_mem_essential hc)

-- a position, a line break, and a comment around what is no block
example : (element "block" [("type", "wait"), ("x", "10")] "\n"
    [element "comment" [] "todo" [absent, element "block" [] "" []]]).stripped =
    element "block" [("type", "wait")] "" [] := by
  rfl

/-- **What an editor leaves in a tree has no part in the program.** The stripped tree is parsed to
the same program with the same warnings, or refused with the same fault. -/
theorem parse_stripped (entryTypes : List String) (root : Node) :
    root.stripped.parse entryTypes = root.parse entryTypes :=
  ((agree_stripped root).parse entryTypes).symm

end Blockwork.Node
