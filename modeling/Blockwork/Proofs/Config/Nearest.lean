import Blockwork.Config.Load
import Blockwork.Proofs.Files.Places

/-!
# The nearest configuration

Looking for a configuration goes up from a directory, path by path, until the path of the directory
around is the path itself. `Config.nearest_is_closest` says what this comes to: of the directories
that enclose the start, the start among them, the closest one with a configuration file is loaded,
and nothing is found exactly when none of them has one. The closest one counts whatever is in its
file, so an error there is the answer.

A step up is a place without its last name (`Path.parent_text`), so the way up passes the beginnings
of the start, each once, and ends at the root, the only place that is its own directory
(`Config.climb_concat`, `Config.climb_root`). Where a place has no configuration file, the closest
directory is also that of the place around it (`Config.isClosest_concat_iff`), and so the way up is
an induction on the place.
-/

namespace Blockwork

namespace Config

open Place (IsName IsProper text)

/-- A directory with a configuration file in it. The directories around it are directories too. -/
def Holds (fs : Files) (d : Place) : Prop :=
  (∀ e, e <+: d → fs.entry? e = some .directory) ∧ (fs.entry? (d ++ [fileName])).isSome

/-- **The closest directory** with a configuration file among a place and those that enclose it: all
others are around it. -/
structure IsClosest (fs : Files) (place d : Place) : Prop where
  encloses : d <+: place
  holds : Holds fs d
  inmost : ∀ e, e <+: place → Holds fs e → e <+: d

/-- Where a place has no configuration file, the closest directory is the one for the place around
it. -/
theorem isClosest_concat_iff {fs : Files} {p d : Place} {name : String}
    (h : ¬Holds fs (p ++ [name])) : IsClosest fs (p ++ [name]) d ↔ IsClosest fs p d := by
  have hencloses : ∀ {e}, Holds fs e → (e <+: p ++ [name] ↔ e <+: p) := by
    refine fun he => ⟨fun hprefix => ?_, fun hprefix => hprefix.trans (List.prefix_append p [name])⟩
    rcases List.prefix_concat_iff.1 hprefix with rfl | hprefix
    · exact absurd he h
    · exact hprefix
  constructor
  · exact fun hd => ⟨(hencloses hd.holds).1 hd.encloses, hd.holds,
      fun e he hholds => hd.inmost e ((hencloses hholds).2 he) hholds⟩
  · exact fun hd => ⟨(hencloses hd.holds).2 hd.encloses, hd.holds,
      fun e he hholds => hd.inmost e ((hencloses hholds).1 he) hholds⟩

theorem isClosest_self {fs : Files} {p : Place} (h : Holds fs p) : IsClosest fs p p :=
  ⟨List.prefix_rfl, h, fun _ he _ => he⟩

/-- One of the directories with a configuration file is the closest. -/
theorem exists_isClosest {fs : Files} {p e : Place} (he : e <+: p) (h : Holds fs e) :
    ∃ d, IsClosest fs p d := by
  induction p using List.reverseRecOn with
  | nil => exact ⟨[], isClosest_self (List.prefix_nil.1 he ▸ h)⟩
  | append_singleton q name ih =>
    by_cases hself : Holds fs (q ++ [name])
    · exact ⟨_, isClosest_self hself⟩
    · rcases List.prefix_concat_iff.1 he with rfl | he
      · exact absurd h hself
      · obtain ⟨d, hd⟩ := ih he
        exact ⟨d, (isClosest_concat_iff hself).2 hd⟩

/-! ### One step of the way up -/

theorem isName_fileName : IsName fileName := by
  constructor <;> decide

theorem isIn_text_iff (fs : Files) {d : Place} (hd : d.IsProper) :
    isIn fs d.text = true ↔ Holds fs d := by
  rw [isIn, Path.join_text hd isName_fileName]
  exact fs.has_text_concat_iff (Place.isProper_concat.2 ⟨hd, isName_fileName⟩)

theorem climb_of_holds {fs : Files} {d : Place} (hd : d.IsProper) (h : Holds fs d) :
    climb fs d.text = (load fs d.text).map some := by
  rw [climb, if_pos ((isIn_text_iff fs hd).2 h)]

theorem climb_root {fs : Files} (h : ¬Holds fs []) : climb fs (text []) = .ok none := by
  have hproper : IsProper [] := by simp [IsProper]
  have hself : Path.parent (text []) = text [] := Path.parent_text hproper
  rw [climb, if_neg (by rwa [isIn_text_iff fs hproper]), if_pos hself]

theorem climb_concat {fs : Files} {p : Place} {name : String} (hp : (p ++ [name]).IsProper)
    (h : ¬Holds fs (p ++ [name])) : climb fs (text (p ++ [name])) = climb fs p.text := by
  have hparent : Path.parent (text (p ++ [name])) = p.text := by
    rw [Path.parent_text hp, List.dropLast_concat]
  have hne : p.text ≠ text (p ++ [name]) := by
    rw [Ne, Path.text_inj (Place.isProper_concat.1 hp).1 hp]
    simp
  rw [climb, if_neg (by rwa [isIn_text_iff fs hp]), hparent, if_neg hne]

/-! ### The whole way up -/

/-- Loading does not end with nothing. -/
theorem climb_ne_none_of_holds {fs : Files} {d : Place} (hd : d.IsProper) (h : Holds fs d) :
    climb fs d.text ≠ .ok none := by
  rw [climb_of_holds hd h]
  cases load fs d.text <;> exact nofun

/-- **Nothing is found** exactly when no enclosing directory has a configuration file. -/
theorem climb_eq_none_iff (fs : Files) {p : Place} (hp : p.IsProper) :
    climb fs p.text = .ok none ↔ ∀ d, d <+: p → ¬Holds fs d := by
  induction p using List.reverseRecOn with
  | nil =>
    by_cases h : Holds fs []
    · exact iff_of_false (climb_ne_none_of_holds hp h) fun hnone => hnone [] List.prefix_rfl h
    · refine iff_of_true (climb_root h) fun d hd => ?_
      rwa [List.prefix_nil.1 hd]
  | append_singleton q name ih =>
    by_cases h : Holds fs (q ++ [name])
    · exact iff_of_false (climb_ne_none_of_holds hp h) fun hnone => hnone _ List.prefix_rfl h
    · rw [climb_concat hp h, ih (Place.isProper_concat.1 hp).1]
      -- the place itself has none, so it is a matter of those around it
      constructor
      · intro hnone d hd
        rcases List.prefix_concat_iff.1 hd with rfl | hd
        · exact h
        · exact hnone d hd
      · exact fun hnone d hd => hnone d (hd.trans (List.prefix_append q [name]))

/-- **What is found** is the configuration of the closest directory. -/
theorem climb_of_isClosest {fs : Files} {p d : Place} (hp : p.IsProper) (h : IsClosest fs p d) :
    climb fs p.text = (load fs d.text).map some := by
  induction p using List.reverseRecOn with
  | nil =>
    obtain rfl := List.prefix_nil.1 h.encloses
    exact climb_of_holds hp h.holds
  | append_singleton q name ih =>
    by_cases hself : Holds fs (q ++ [name])
    · -- then the closest one is the place itself
      have hback := h.inmost _ List.prefix_rfl hself
      obtain rfl : d = q ++ [name] := h.encloses.eq_of_length_le hback.length_le
      exact climb_of_holds hp h.holds
    · rw [climb_concat hp hself]
      exact ih (Place.isProper_concat.1 hp).1 ((isClosest_concat_iff hself).1 h)

theorem load_eq (fs : Files) (directory : String) :
    load fs directory
      = match fs.read (Path.join directory fileName) with
        | .error e => .error (.unreadable (Path.join directory fileName) e)
        | .ok content =>
          match parse content with
          | .error e => .error (.rejected (Path.join directory fileName) e)
          | .ok c => .ok { c with directory := fs.absolute directory } := by
  unfold load
  dsimp only
  cases fs.read (Path.join directory fileName) with
  | error e => rfl
  | ok content =>
    cases hparse : parse content <;>
      simp [Except.mapError, hparse, bind, Except.bind, pure, Except.pure]

/-- A configuration that is loaded has the directory that it was loaded from. -/
theorem directory_of_load {fs : Files} {d : Place} {c : Config} (hd : d.IsProper)
    (h : load fs d.text = .ok c) : c.directory = d.text := by
  have habsolute : fs.absolute d.text = d.text := by
    rw [Files.absolute, Files.placeOf, Path.resolve_text _ hd]
  rw [load_eq] at h
  split at h
  · exact absurd h nofun
  · split at h
    · exact absurd h nofun
    · obtain rfl := Except.ok.inj h
      exact habsolute

/-- **The nearest configuration is that of the closest directory.** From an absolute clean path one
looks at the place that it is the path of.

* Nothing is found, and without an error, exactly when neither the place nor a directory around it
  has a configuration file.
* Otherwise one of those that have one is the closest. What is found is what loading gives for it,
  an error included; and a configuration that is found has this directory. -/
theorem nearest_is_closest (fs : Files) {start : String}
    (habsolute : Path.isAbsolute start = true) (hclean : Path.clean start = start) :
    (fs.placeOf start).text = start ∧
    (nearest fs start = .ok none ↔ ∀ d, d <+: fs.placeOf start → ¬Holds fs d) ∧
    (∀ e, e <+: fs.placeOf start → Holds fs e → ∃ d, IsClosest fs (fs.placeOf start) d) ∧
    ∀ d, IsClosest fs (fs.placeOf start) d →
      nearest fs start = (load fs d.text).map some ∧
        ∀ c, nearest fs start = .ok (some c) → c.directory = d.text := by
  -- a clean absolute path is the path of a place
  obtain ⟨p, hp, rfl⟩ := Path.exists_place_iff.2 ⟨habsolute, hclean⟩
  have hplace : fs.placeOf p.text = p := Path.resolve_text _ hp
  have hnearest : nearest fs p.text = climb fs p.text := by
    rw [nearest, Files.absolute, hplace]
  rw [hplace, hnearest]
  refine ⟨rfl, climb_eq_none_iff fs hp, fun e => exists_isClosest,
    fun d hd => ⟨climb_of_isClosest hp hd, fun c hc => ?_⟩⟩
  rw [climb_of_isClosest hp hd] at hc
  -- a configuration has the directory that it was loaded from
  cases hload : load fs d.text with
  | error e =>
    rw [hload] at hc
    exact absurd hc nofun
  | ok found =>
    rw [hload] at hc
    obtain rfl : found = c := by simpa [Except.map] using hc
    exact directory_of_load (hp.of_prefix hd.encloses) hload

/-! ### A file that is no configuration -/

/-- A configuration file in the root, and one in `a` that breaks off in the name of a table. -/
def brokenFiles : Files where
  here := []
  entries := [(["a"], .directory), (["a", "b"], .directory), (["blockrun.toml"], .file []),
    (["a", "blockrun.toml"], .file [0x5b])]

theorem isClosest_broken : IsClosest brokenFiles ["a", "b"] ["a"] where
  encloses := by decide
  holds := by
    refine ⟨fun e he => ?_, by decide⟩
    rcases List.prefix_cons_iff.1 he with rfl | ⟨rest, rfl, hrest⟩
    · rfl
    · rw [List.prefix_nil.1 hrest]
      rfl
  inmost := by
    intro e he hholds
    rcases List.prefix_concat_iff.1 (show e <+: ["a"] ++ ["b"] from he) with rfl | he
    · -- there is no such file in `b`
      exact absurd hholds.2 (by decide)
    · exact he

/-- From `/a/b` the file in `a` is found and refused, and the one in the root is not looked at. -/
theorem nearest_is_closest_broken : Path.isAbsolute "/a/b" = true ∧ Path.clean "/a/b" = "/a/b" ∧
    IsClosest brokenFiles ["a", "b"] ["a"] ∧
    nearest brokenFiles "/a/b" = (load brokenFiles "/a").map some ∧
    (load brokenFiles "/a").toOption.isSome = false ∧
    (load brokenFiles "/").toOption.isSome = true := by
  have habsolute : Path.isAbsolute "/a/b" = true := by decide +kernel
  have hclean : Path.clean "/a/b" = "/a/b" := by decide +kernel
  have hplace : brokenFiles.placeOf "/a/b" = ["a", "b"] := by decide +kernel
  have htext : Place.text ["a"] = "/a" := by decide +kernel
  obtain ⟨-, -, -, hfound⟩ := nearest_is_closest brokenFiles habsolute hclean
  have hnearest := (hfound ["a"] (hplace ▸ isClosest_broken)).1
  rw [htext] at hnearest
  refine ⟨habsolute, hclean, isClosest_broken, hnearest, ?_, ?_⟩ <;> decide +kernel

end Config

end Blockwork
