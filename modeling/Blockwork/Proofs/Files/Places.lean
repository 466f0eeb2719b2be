import Blockwork.Files.Basic
import Blockwork.Files.Upward
import Mathlib.Data.List.Basic
import Mathlib.Data.List.Infix
import Mathlib.Data.List.Induction
import Mathlib.Tactic.Common

/-!
# Places and their paths

A place is a list of names, and it has one clean path (`Place.text`). The clean absolute paths are
the paths of places whose names are names: not empty, no points, without a slash
(`Path.exists_place_iff`). In terms of places the operations on paths are what they should be:

* the path of a place leads to it, from wherever it is looked at (`Path.resolve_text`);
* the directory around a place is the place without its last name (`Path.parent_text`);
* a name below a place is the place with that name behind it (`Path.join_text`);
* there is something at the path of a place if all that encloses it are directories and there is
  something at the place (`Files.has_text_concat_iff`).
-/

namespace Blockwork

namespace Place

/-- A text that can be the name of a file or a directory. -/
structure IsName (name : String) : Prop where
  ne_empty : name ≠ ""
  ne_point : name ≠ "."
  ne_points : name ≠ ".."
  not_mem : '/' ∉ name.toList

/-- A place with names that are names. -/
def IsProper (p : Place) : Prop := ∀ name ∈ p, IsName name

theorem isProper_concat {p : Place} {name : String} :
    IsProper (p ++ [name]) ↔ p.IsProper ∧ IsName name := by
  simp [IsProper, or_imp, forall_and]

theorem IsProper.of_prefix {d p : Place} (hp : p.IsProper) (hd : d <+: p) : d.IsProper :=
  fun name hname => hp name (hd.subset hname)

theorem text_cons (name : String) (p : Place) :
    text (name :: p) = "/".intercalate ("" :: name :: p) := by
  rw [text, String.intercalate_cons_cons, String.empty_append]

end Place

namespace Path

open Place (IsName IsProper text)

/-! ### Names -/

theorem enter_of_isName {name : String} (h : IsName name) (rooted : Bool) (before : List String) :
    enter rooted before name = name :: before := by
  rw [enter, if_neg (by simp [h.ne_empty, h.ne_point]), if_neg (by simp [h.ne_points])]

theorem foldl_enter_of_isProper {p : Place} (hp : p.IsProper) (rooted : Bool)
    (before : List String) : p.foldl (enter rooted) before = p.reverse ++ before := by
  induction p generalizing before with
  | nil => rfl
  | cons name p ih =>
    obtain ⟨hname, hp⟩ := List.forall_mem_cons.1 hp
    rw [List.foldl_cons, enter_of_isName hname, ih hp, List.reverse_cons, List.append_assoc]
    rfl

/-- Below the root, cleaning leaves names only. -/
theorem isName_of_mem_foldl_enter {names before : List String}
    (hnames : ∀ name ∈ names, '/' ∉ name.toList) (hbefore : ∀ name ∈ before, IsName name) :
    ∀ name ∈ names.foldl (enter true) before, IsName name := by
  induction names generalizing before with
  | nil => exact hbefore
  | cons part names ih =>
    obtain ⟨hpart, hnames⟩ := List.forall_mem_cons.1 hnames
    refine ih hnames ?_
    unfold enter
    split
    · exact hbefore
    split
    · -- two points cancel a name
      cases before with
      | nil => exact hbefore
      | cons name others =>
        obtain ⟨hname, hothers⟩ := List.forall_mem_cons.1 hbefore
        rw [cancel, if_neg (by simpa using hname.ne_points)]
        exact hothers
    · next hskip hup =>
      refine List.forall_mem_cons.2 ⟨⟨?_, ?_, ?_, hpart⟩, hbefore⟩
      · rintro rfl
        exact hskip rfl
      · rintro rfl
        exact hskip rfl
      · rintro rfl
        exact hup rfl

theorem not_mem_of_mem_splitOn (cs : List Char) : ∀ part ∈ cs.splitOn '/', '/' ∉ part := by
  induction cs with
  | nil => simp
  | cons c cs ih =>
    rw [List.splitOn_cons_eq_if_modifyHead]
    split
    · exact List.forall_mem_cons.2 ⟨List.not_mem_nil, ih⟩
    · next hc =>
      -- the character goes to the first part
      cases hsplit : cs.splitOn '/' with
      | nil => exact absurd hsplit (List.splitOn_ne_nil '/' cs)
      | cons part others =>
        rw [hsplit] at ih
        obtain ⟨hpart, hothers⟩ := List.forall_mem_cons.1 ih
        refine List.forall_mem_cons.2 ⟨fun hmem => ?_, hothers⟩
        rcases List.mem_cons.1 hmem with heq | hmem
        · exact hc (by simp [← heq])
        · exact hpart hmem

theorem not_mem_of_mem_parts {s name : String} (h : name ∈ parts s) : '/' ∉ name.toList := by
  obtain ⟨cs, hcs, rfl⟩ := List.mem_map.1 h
  rw [String.toList_ofList]
  exact not_mem_of_mem_splitOn _ cs hcs

theorem isProper_reduce_parts (s : String) : IsProper (reduce true [] (parts s)) := by
  intro name hname
  rw [reduce_eq_foldl, List.mem_reverse] at hname
  exact isName_of_mem_foldl_enter (fun _ => not_mem_of_mem_parts) (by simp) name hname

/-! ### The path of a place -/

theorem parts_intercalate {names : List String} (hne : names ≠ [])
    (h : ∀ name ∈ names, '/' ∉ name.toList) : parts ("/".intercalate names) = names := by
  have hsplit : (['/'].intercalate (names.map String.toList)).splitOn '/'
      = names.map String.toList :=
    List.splitOn_intercalate '/' (by simpa using h) (by simpa using hne)
  have hslash : ("/" : String).toList = ['/'] := rfl
  rw [parts, String.toList_intercalate, hslash, hsplit, List.map_map]
  exact List.map_id'' (fun _ => String.ofList_toList) _

theorem parts_append_slash_append (a b : String) : parts (a ++ "/" ++ b) = parts a ++ parts b := by
  have htext : a ++ "/" ++ b = String.ofList (a.toList ++ '/' :: b.toList) := by
    rw [← String.toList_inj]
    simp
  rw [htext, parts, String.toList_ofList, List.splitOn_append_cons_self, List.map_append]
  rfl

theorem parts_text_cons {name : String} {p : Place} (hp : IsProper (name :: p)) :
    parts (text (name :: p)) = "" :: name :: p := by
  rw [Place.text_cons]
  refine parts_intercalate (List.cons_ne_nil _ _) ?_
  exact List.forall_mem_cons.2 ⟨by simp, fun n hn => (hp n hn).not_mem⟩

theorem reduce_parts_text {p : Place} (hp : p.IsProper) : reduce true [] (parts (text p)) = p := by
  cases p with
  | nil => rfl
  | cons name p =>
    rw [parts_text_cons hp, reduce_eq_foldl, List.foldl_cons]
    show (List.foldl (enter true) [] (name :: p)).reverse = _
    rw [foldl_enter_of_isProper hp, List.append_nil, List.reverse_reverse]

theorem isAbsolute_text (p : Place) : isAbsolute (text p) = true := by
  rw [isAbsolute, text, String.toList_append]
  rfl

theorem text_ne_empty (p : Place) : text p ≠ "" := by
  intro h
  have habsolute := isAbsolute_text p
  rw [h] at habsolute
  exact absurd habsolute (by decide)

theorem clean_text {p : Place} (hp : p.IsProper) : clean (text p) = text p := by
  rw [clean_of_absolute (isAbsolute_text p), reduce_parts_text hp]

theorem resolve_text (here : Place) {p : Place} (hp : p.IsProper) : resolve here (text p) = p := by
  rw [resolve, if_pos (isAbsolute_text p), reduce_parts_text hp]

/-- **The clean absolute paths are the paths of places.** -/
theorem exists_place_iff {s : String} :
    (∃ p : Place, p.IsProper ∧ s = text p) ↔ isAbsolute s = true ∧ clean s = s := by
  constructor
  · rintro ⟨p, hp, rfl⟩
    exact ⟨isAbsolute_text p, clean_text hp⟩
  · rintro ⟨habsolute, hclean⟩
    -- the names that cleaning leaves are the place
    exact ⟨_, isProper_reduce_parts s, by rw [← clean_of_absolute habsolute, hclean]⟩

theorem text_inj {p q : Place} (hp : p.IsProper) (hq : q.IsProper) :
    text p = text q ↔ p = q := by
  refine ⟨fun h => ?_, congrArg text⟩
  rw [← reduce_parts_text hp, h, reduce_parts_text hq]

/-! ### Going up and down -/

theorem parts_of_isName {name : String} (h : IsName name) : parts name = [name] := by
  have hsingle := parts_intercalate (List.cons_ne_nil name []) (by simpa using h.not_mem)
  rwa [String.intercalate_singleton] at hsingle

/-- **Going down** adds a name. -/
theorem join_text {p : Place} (hp : p.IsProper) {name : String} (hname : IsName name) :
    join (text p) name = text (p ++ [name]) := by
  have habsolute : isAbsolute (text p ++ "/" ++ name) = true := by
    rw [isAbsolute, text, String.append_assoc, String.append_assoc, String.toList_append]
    rfl
  have hreduce : reduce true [] (parts (text p) ++ [name]) = p ++ [name] := by
    have hbefore := reduce_parts_text hp
    rw [reduce_eq_foldl] at hbefore ⊢
    rw [List.foldl_append, List.foldl_cons, enter_of_isName hname, List.foldl_nil,
      List.reverse_cons, hbefore]
  rw [join, if_neg (by simpa using text_ne_empty p), if_neg (by simpa using hname.ne_empty),
    clean_of_absolute habsolute, parts_append_slash_append, parts_of_isName hname, hreduce]

/-- **Going up** drops the last name, and stays at the root. -/
theorem parent_text {p : Place} (hp : p.IsProper) : parent (text p) = text p.dropLast := by
  induction p using List.reverseRecOn with
  | nil => rfl
  | append_singleton q name _ =>
    obtain ⟨hq, hname⟩ := Place.isProper_concat.1 hp
    -- what stands before the last slash has an empty name in front, also at the root
    have htext : text (q ++ [name])
        = String.ofList (("/".intercalate ("" :: q)).toList ++ '/' :: name.toList) := by
      have hcons : text (q ++ [name]) = "/".intercalate ("" :: q ++ [name]) := by
        cases q <;> exact Place.text_cons _ _
      rw [hcons, String.intercalate_append_of_ne_nil (List.cons_ne_nil _ _) (List.cons_ne_nil _ _),
        String.intercalate_singleton, ← String.toList_inj]
      simp
    have hparts : parts (String.ofList ("/".intercalate ("" :: q)).toList) = "" :: q := by
      rw [String.ofList_toList]
      refine parts_intercalate (List.cons_ne_nil _ _) ?_
      exact List.forall_mem_cons.2 ⟨by simp, fun n hn => (hq n hn).not_mem⟩
    have habsolute :
        isAbsolute (String.ofList (("/".intercalate ("" :: q)).toList ++ ['/'])) = true := by
      rw [isAbsolute_ofList]
      cases q with
      | nil => rfl
      | cons first q =>
        rw [← Place.text_cons, text, String.toList_append]
        rfl
    have hreduce : reduce true [] ("" :: q) = q := by
      show reduce true [] q = q
      rw [reduce_eq_foldl, foldl_enter_of_isProper hq, List.append_nil, List.reverse_reverse]
    rw [htext, parent_append_slash _ hname.not_mem, clean_of_absolute habsolute,
      parts_concat_slash, reduce_concat_empty, hparts, hreduce, List.dropLast_concat]

end Path

/-! ### What is found at the path of a place -/

namespace Files

open Place (IsName IsProper text)

/-- A step into a directory. -/
theorem follow_cons {fs : Files} {p : Place} {name : String} (hname : IsName name)
    (names : List String) (hdirectory : fs.entry? p = some .directory) :
    fs.follow p (name :: names) = fs.follow (p ++ [name]) names := by
  rw [follow, hdirectory]
  dsimp only
  rw [if_neg (by simp [hname.ne_empty, hname.ne_point]), if_neg (by simp [hname.ne_points])]

/-- Nothing but a directory can be stepped into. -/
theorem directory_of_follow_cons {fs : Files} {p : Place} {name : String} {names : List String}
    (h : (fs.follow p (name :: names)).toOption.isSome) : fs.entry? p = some .directory := by
  rw [follow] at h
  rcases hentry : fs.entry? p with _ | e
  · rw [hentry] at h
    exact absurd h (by simp [Except.toOption])
  · cases e with
    | directory => rfl
    | file _ | journal _ =>
      rw [hentry] at h
      exact absurd h (by simp [Except.toOption])

/-- **Names are followed** through directories to whatever stands behind them. -/
theorem follow_concat_isSome_iff (fs : Files) (p : Place) {names : Place} {name : String}
    (hnames : (names ++ [name]).IsProper) :
    (fs.follow p (names ++ [name])).toOption.isSome ↔
      (∀ d, d <+: names → fs.entry? (p ++ d) = some .directory) ∧
        (fs.entry? (p ++ (names ++ [name]))).isSome := by
  -- behind the last name, to be followed is to be there
  have hlast : ∀ q : Place, (fs.follow q []).toOption.isSome = (fs.entry? q).isSome := by
    intro q
    rw [follow]
    cases fs.entry? q <;> rfl
  induction names generalizing p with
  | nil =>
    have hname : IsName name := hnames name (List.mem_singleton_self name)
    constructor
    · intro h
      have hdirectory := directory_of_follow_cons h
      rw [List.nil_append, follow_cons hname [] hdirectory, hlast] at h
      refine ⟨fun d hd => ?_, h⟩
      rw [List.prefix_nil.1 hd, List.append_nil]
      exact hdirectory
    · rintro ⟨hdirectories, hsome⟩
      have hdirectory := hdirectories [] List.prefix_rfl
      rw [List.append_nil] at hdirectory
      rw [List.nil_append, follow_cons hname [] hdirectory, hlast]
      exact hsome
  | cons first names ih =>
    obtain ⟨hfirst, hnames⟩ := List.forall_mem_cons.1 hnames
    -- the first name leads to a directory, and the others are followed from there
    have hstep : ∀ q : Place, p ++ first :: q = p ++ [first] ++ q := by simp
    have hrest := ih (p ++ [first]) hnames
    rw [List.cons_append, hstep]
    constructor
    · intro h
      have hdirectory := directory_of_follow_cons h
      rw [follow_cons hfirst _ hdirectory] at h
      obtain ⟨hdirectories, hsome⟩ := hrest.1 h
      refine ⟨fun d hd => ?_, hsome⟩
      -- the first directory is the one where following began
      rcases List.prefix_cons_iff.1 hd with rfl | ⟨inner, rfl, hinner⟩
      · rw [List.append_nil]
        exact hdirectory
      · rw [hstep]
        exact hdirectories inner hinner
    · rintro ⟨hdirectories, hsome⟩
      have hdirectory := hdirectories [] (List.nil_prefix)
      rw [List.append_nil] at hdirectory
      rw [follow_cons hfirst _ hdirectory]
      refine hrest.2 ⟨fun d hd => ?_, hsome⟩
      rw [← hstep]
      exact hdirectories (first :: d) (List.prefix_cons_inj first |>.2 hd)

/-- **There is something at the path of a place** if all that encloses it are directories and there
is something at the place. -/
theorem has_text_concat_iff (fs : Files) {p : Place} {name : String}
    (hp : (p ++ [name]).IsProper) :
    fs.has (text (p ++ [name])) = true ↔
      (∀ d, d <+: p → fs.entry? d = some .directory) ∧ (fs.entry? (p ++ [name])).isSome := by
  have hparts : Path.parts (text (p ++ [name])) = "" :: (p ++ [name]) := by
    cases p with
    | nil => exact Path.parts_text_cons hp
    | cons first p => exact Path.parts_text_cons hp
  have hroot : fs.follow [] ("" :: (p ++ [name])) = fs.follow [] (p ++ [name]) := rfl
  rw [has, find, if_neg (by simpa using Path.text_ne_empty _), if_pos (Path.isAbsolute_text _),
    hparts, hroot, follow_concat_isSome_iff fs [] hp]
  rfl

end Files

end Blockwork
