import Blockwork.Files.Path

/-!
# Going up from a path

The path of the directory around a path is shorter, or it is the path itself; only the point, which
has no name to drop, can be longer than what it came from. So going up again and again ends
(`Path.height_parent_lt`), whatever path it starts from.

Cleaning takes the names one after the other (`Path.enter`). None of them makes more than itself, so
a clean path is at most as long as the path was (`Path.extent_reduce_le`).
-/

namespace Blockwork.Path

/-! ### Cleaning name by name -/

/-- What two points make of the names before them, the last one first. -/
def cancel (rooted : Bool) : List String → List String
  | [] => if rooted then [] else [".."]
  | name :: others => if name == ".." then ".." :: name :: others else others

/-- What one more name makes of the names before it, the last one first. -/
def enter (rooted : Bool) (before : List String) (part : String) : List String :=
  if part == "" || part == "." then before
  else if part == ".." then cancel rooted before
  else part :: before

theorem reduce_eq_foldl (rooted : Bool) (before names : List String) :
    reduce rooted before names = (names.foldl (enter rooted) before).reverse := by
  fun_induction reduce rooted before names with
  | case1 before => rfl
  | case2 before part rest hskip ih => rw [List.foldl_cons, enter, if_pos hskip, ih]
  | case3 part rest hskip hup ih =>
    rw [List.foldl_cons, enter, if_neg hskip, if_pos hup, ih, cancel]
  | case4 part rest hskip hup name others ih =>
    rw [List.foldl_cons, enter, if_neg hskip, if_pos hup, ih, cancel]
  | case5 before part rest hskip hup ih =>
    rw [List.foldl_cons, enter, if_neg hskip, if_neg hup, ih]

/-! ### Lengths -/

/-- The length of some names with a slash behind each of them. -/
def extent : List String → Nat
  | [] => 0
  | name :: names => name.length + 1 + extent names

theorem extent_cons (name : String) (names : List String) :
    extent (name :: names) = name.length + 1 + extent names := rfl

theorem extent_reverse (names : List String) : extent names.reverse = extent names := by
  have happend : ∀ xs ys, extent (xs ++ ys) = extent xs + extent ys := by
    intro xs ys
    induction xs with
    | nil => exact (Nat.zero_add _).symm
    | cons x xs ih =>
      rw [List.cons_append, extent_cons, extent_cons, ih]
      omega
  induction names with
  | nil => rfl
  | cons name names ih =>
    rw [List.reverse_cons, happend, ih, extent_cons, extent_cons]
    exact Nat.add_comm _ _

theorem length_intercalate {names : List String} (h : names ≠ []) :
    ("/".intercalate names).length + 1 = extent names := by
  induction names with
  | nil => exact absurd rfl h
  | cons name names ih =>
    rw [extent_cons]
    cases names with
    | nil =>
      rw [String.intercalate_singleton]
      rfl
    | cons next names =>
      have hslash : ("/" : String).length = 1 := rfl
      rw [← ih (List.cons_ne_nil _ _), String.intercalate_cons_cons, String.length_append,
        String.length_append, hslash]
      omega

theorem intercalate_parts (s : String) : "/".intercalate (parts s) = s := by
  have hparts : (parts s).map String.toList = s.toList.splitOn '/' := by
    rw [parts, List.map_map]
    exact List.map_id'' (fun _ => String.toList_ofList) _
  rw [← String.toList_inj, String.toList_intercalate, hparts]
  exact List.intercalate_splitOn '/'

theorem extent_parts (s : String) : extent (parts s) = s.length + 1 := by
  have hne : parts s ≠ [] := fun h => List.splitOn_ne_nil '/' s.toList (List.map_eq_nil_iff.1 h)
  rw [← length_intercalate hne, intercalate_parts]

theorem extent_cancel_le (rooted : Bool) (before : List String) :
    extent (cancel rooted before) ≤ extent before + 3 := by
  cases before with
  | nil => cases rooted <;> decide
  | cons name others =>
    rw [cancel]
    split
    · -- two points behind two points are kept
      rw [extent_cons ".."]
      exact Nat.le_of_eq (Nat.add_comm _ _)
    · rw [extent_cons]
      omega

theorem extent_enter_le (rooted : Bool) (before : List String) (part : String) :
    extent (enter rooted before part) ≤ extent before + (part.length + 1) := by
  unfold enter
  split
  · exact Nat.le_add_right _ _
  split
  · next hup =>
    obtain rfl : part = ".." := by simpa using hup
    exact extent_cancel_le rooted before
  · rw [extent_cons]
    exact Nat.le_of_eq (Nat.add_comm _ _)

theorem extent_foldl_enter_le (rooted : Bool) (before names : List String) :
    extent (names.foldl (enter rooted) before) ≤ extent before + extent names := by
  induction names generalizing before with
  | nil => exact Nat.le_add_right _ _
  | cons name names ih =>
    have hname := extent_enter_le rooted before name
    have hrest := ih (enter rooted before name)
    rw [List.foldl_cons, extent_cons]
    omega

/-- **Cleaning adds nothing.** -/
theorem extent_reduce_le (rooted : Bool) (names : List String) :
    extent (reduce rooted [] names) ≤ extent names := by
  rw [reduce_eq_foldl, extent_reverse]
  exact Nat.le_trans (extent_foldl_enter_le rooted [] names) (Nat.le_of_eq (Nat.zero_add _))

theorem length_text_le {names : List String} {n : Nat} (h : extent names ≤ n + 1) :
    (Place.text names).length ≤ n + 1 := by
  have hslash : ("/" : String).length = 1 := rfl
  rw [Place.text, String.length_append, hslash]
  cases names with
  | nil => exact Nat.le_add_left 1 n
  | cons name names =>
    have hlength := length_intercalate (List.cons_ne_nil name names)
    omega

/-! ### Clean paths -/

theorem isAbsolute_ofList (cs : List Char) :
    isAbsolute (String.ofList cs) = (cs.head? == some '/') := by
  rw [isAbsolute, String.toList_ofList]

theorem clean_of_absolute {s : String} (h : isAbsolute s = true) :
    clean s = Place.text (reduce true [] (parts s)) := by
  rw [clean, h]
  rfl

theorem clean_of_relative {s : String} (h : isAbsolute s = false) :
    clean s = if (reduce false [] (parts s)).isEmpty then "."
      else "/".intercalate (reduce false [] (parts s)) := by
  rw [clean, h]
  rfl

theorem parts_concat_slash (cs : List Char) :
    parts (String.ofList (cs ++ ['/'])) = parts (String.ofList cs) ++ [""] := by
  rw [parts, parts, String.toList_ofList, String.toList_ofList, List.splitOn_append_cons_self,
    List.map_append]
  rfl

theorem parts_cons_slash (cs : List Char) :
    parts (String.ofList ('/' :: cs)) = "" :: parts (String.ofList cs) := by
  rw [parts, parts, String.toList_ofList, String.toList_ofList]
  exact congrArg _ (List.splitOn_append_cons_self [] cs)

/-- The slash at the end of a path is dropped when the path is cleaned. -/
theorem reduce_concat_empty (rooted : Bool) (names : List String) :
    reduce rooted [] (names ++ [""]) = reduce rooted [] names := by
  rw [reduce_eq_foldl, reduce_eq_foldl, List.foldl_append]
  rfl

/-- The slash at the end of a path is dropped when the path is cleaned, the root excepted. -/
theorem length_clean_concat_slash_le {cs : List Char} (h : cs ≠ []) :
    (clean (String.ofList (cs ++ ['/']))).length ≤ cs.length := by
  obtain ⟨c, rest, rfl⟩ := List.exists_cons_of_ne_nil h
  have hhead : (c :: rest ++ ['/']).head? = some c := rfl
  by_cases hroot : c = '/'
  · -- the slash at the beginning is not part of any name either
    subst hroot
    have hnames := extent_reduce_le true (parts (String.ofList rest))
    rw [extent_parts, String.length_ofList] at hnames
    rw [clean_of_absolute (by rw [isAbsolute_ofList, hhead]; rfl), parts_concat_slash,
      reduce_concat_empty, parts_cons_slash]
    exact length_text_le hnames
  · have hnames := extent_reduce_le false (parts (String.ofList (c :: rest)))
    rw [extent_parts, String.length_ofList] at hnames
    rw [clean_of_relative (by rw [isAbsolute_ofList, hhead]; simpa using hroot),
      parts_concat_slash, reduce_concat_empty]
    split
    · exact Nat.le_add_left 1 rest.length
    · next hsome =>
      have hlength := length_intercalate (fun hnil => hsome (List.isEmpty_iff.2 hnil))
      omega

/-! ### The directory around a path -/

theorem dropWhile_name {name : List Char} (h : '/' ∉ name) (before : List Char) :
    (name.reverse ++ before).dropWhile (· != '/') = before.dropWhile (· != '/') := by
  refine List.dropWhile_append_of_pos fun c hc => bne_iff_ne.2 fun heq => h ?_
  rw [← heq]
  exact List.mem_reverse.1 hc

theorem parent_of_not_mem {s : String} (h : '/' ∉ s.toList) : parent s = "." := by
  have hnone := dropWhile_name h []
  rw [List.append_nil] at hnone
  rw [parent, hnone]
  rfl

theorem parent_append_slash (cs : List Char) {name : List Char} (h : '/' ∉ name) :
    parent (String.ofList (cs ++ '/' :: name)) = clean (String.ofList (cs ++ ['/'])) := by
  have hlast : (cs ++ '/' :: name).reverse.dropWhile (· != '/') = (cs ++ ['/']).reverse := by
    rw [List.reverse_append, List.reverse_cons, List.append_assoc, dropWhile_name h,
      List.reverse_append]
    rfl
  rw [parent, String.toList_ofList, hlast, List.reverse_reverse]

/-- A path is a single name, or it ends in a name behind a slash. -/
theorem not_mem_or_exists_name (s : String) :
    '/' ∉ s.toList ∨ ∃ cs name : List Char, '/' ∉ name ∧ s = String.ofList (cs ++ '/' :: name) := by
  by_cases h : '/' ∈ s.toList
  · obtain ⟨name, cs, hs, hname⟩ := List.eq_append_cons_of_mem (List.mem_reverse.2 h)
    refine .inr ⟨cs.reverse, name.reverse, fun hmem => hname (List.mem_reverse.1 hmem), ?_⟩
    rw [← String.toList_inj, String.toList_ofList, ← List.reverse_inj, hs]
    simp
  · exact .inl h

/-- How often one can go up from a path, at most. -/
def height (s : String) : Nat := if s = "." then 0 else s.length + 1

theorem height_le (s : String) : height s ≤ s.length + 1 := by
  unfold height
  split
  · exact Nat.zero_le _
  · exact Nat.le_refl _

theorem height_of_ne {s : String} (h : s ≠ ".") : height s = s.length + 1 := if_neg h

/-- **Going up ends.** -/
theorem height_parent_lt {s : String} (h : parent s ≠ s) : height (parent s) < height s := by
  rcases not_mem_or_exists_name s with hsingle | ⟨cs, name, hname, rfl⟩
  · -- a single name is in the directory that paths are looked at from
    rw [parent_of_not_mem hsingle] at h ⊢
    rw [height_of_ne (Ne.symm h)]
    exact Nat.succ_pos _
  · have hne : String.ofList (cs ++ '/' :: name) ≠ "." := by
      intro hs
      have hmem : '/' ∈ ".".toList := by
        rw [← hs, String.toList_ofList]
        exact List.mem_append_right _ List.mem_cons_self
      exact absurd hmem (by decide)
    rw [parent_append_slash cs hname] at h ⊢
    rw [height_of_ne hne, String.length_ofList, List.length_append, List.length_cons]
    refine Nat.lt_of_le_of_lt (height_le _) ?_
    by_cases hroot : cs = []
    · subst hroot
      -- the root is in itself, and it is the only such path
      have hslash : clean (String.ofList ([] ++ ['/'])) = "/" := rfl
      have hsome : name ≠ [] := by
        rintro rfl
        exact h hslash
      have hpos : 0 < name.length := List.length_pos_iff.2 hsome
      have hlength : ("/" : String).length = 1 := rfl
      rw [hslash, hlength, List.length_nil]
      omega
    · have hshort := length_clean_concat_slash_le hroot
      omega

end Blockwork.Path
