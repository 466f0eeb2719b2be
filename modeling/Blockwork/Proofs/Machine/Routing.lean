import Blockwork.Machine.Registry
import Blockwork.Proofs.Text.ByteOrder
import Mathlib.Data.List.Sort
import Mathlib.Data.List.TakeWhile
import Mathlib.Logic.Function.Basic

/-!
# What routing means

A registry keeps three things in step: its modules, the order in which their names are tried, and
the routes that were found before. What a route *is* needs none of the last two. It is read off
the **directory**, the functions of every registered module:

* an opcode belongs to the longest registered name that, followed by an underscore, begins it
  (`Claims`), and at most one name claims an opcode (`Claims.unique`);
* `Meaning` says what the answer is: the function, or the module that lacks it, or that no module
  claims the opcode.

A history is any list of registrations, removals and look-ups from a registry without modules.
`Coherent` is the invariant along it: each name is registered once, the names are the sorted names
of the modules, and every kept route is the one that a fresh look-up would find. A kept route is
therefore never out of date, and `resolve_after_history` reads every answer as its meaning in the
directory that the history leaves.
-/

namespace Blockwork.Registry

open Text (encode)

variable {α : Type}

/-! ### Histories and directories -/

/-- What can be asked of a registry. -/
inductive Operation (α : Type) where
  | register (name : String) (table : Table α)
  | unregister (name : String)
  | resolve (opcode : String)

/-- The registry after one operation. -/
def Operation.apply (r : Registry α) : Operation α → Registry α
  | .register name table => r.register name table
  | .unregister name => r.unregister name
  | .resolve opcode => (r.resolve opcode).2

/-- The registry that a history leaves, from one without modules. -/
def after (history : List (Operation α)) : Registry α := history.foldl Operation.apply .empty

/-- The functions of every registered module. A name that is listed without a function counts
like one that is not listed. -/
abbrev Directory (α : Type) := String → Option (String → Option α)

/-- The directory after one operation: a look-up changes nothing. -/
def Operation.revise (d : Directory α) : Operation α → Directory α
  | .register name table => Function.update d name (some table.find?)
  | .unregister name => Function.update d name none
  | .resolve _ => d

/-- The directory that a history leaves. -/
def directoryAfter (history : List (Operation α)) : Directory α :=
  history.foldl Operation.revise fun _ => none

/-! ### The meaning of an opcode -/

/-- A module claims an opcode when it is registered, its name and an underscore begin the opcode,
and no longer registered name does so too. -/
structure Claims (d : Directory α) (opcode module function : String) : Prop where
  registered : (d module).isSome
  split : opcode = module ++ "_" ++ function
  longest : ∀ other, (d other).isSome → (encode module).length < (encode other).length →
    ∀ rest, opcode ≠ other ++ "_" ++ rest

/-- The text before the first underscore, all of it when there is none. -/
structure IsLead (opcode lead : String) : Prop where
  plain : '_' ∉ lead.toList
  begins : opcode = lead ∨ ∃ rest, opcode = lead ++ "_" ++ rest

/-- **What the answer for an opcode is**, by the directory alone. -/
inductive Meaning (d : Directory α) (opcode : String) :
    Except RoutingError (Route α) → Prop where
  /-- The module that claims the opcode has the function. -/
  | found {module function : String} {functions : String → Option α} {handler : α} :
      Claims d opcode module function → d module = some functions →
      functions function = some handler →
      Meaning d opcode (.ok ⟨opcode, module, function, handler⟩)
  /-- The module that claims the opcode lacks the function; no shorter name is tried. -/
  | lacking {module function : String} {functions : String → Option α} :
      Claims d opcode module function → d module = some functions → functions function = none →
      Meaning d opcode (.error (.unknownOpcode opcode module function))
  /-- No registered module claims the opcode. -/
  | unclaimed {lead : String} :
      (∀ other, (d other).isSome → ∀ rest, opcode ≠ other ++ "_" ++ rest) → IsLead opcode lead →
      Meaning d opcode (.error (.unknownModule opcode lead))

/-- The order of names: more bytes first, names of one length by their bytes. -/
def Before (a b : String) : Prop :=
  (encode b).length < (encode a).length ∨
    (encode a).length = (encode b).length ∧ encode a < encode b

/-! ### Splitting an opcode -/

theorem dropLead?_eq_some_iff {lead cs rest : List Char} :
    dropLead? lead cs = some rest ↔ cs = lead ++ rest := by
  induction lead generalizing cs with
  | nil =>
    rw [dropLead?, Option.some.injEq, List.nil_append]
  | cons l lead ih =>
    cases cs with
    | nil => simp [dropLead?]
    | cons c cs =>
      rw [dropLead?, List.cons_append, List.cons.injEq]
      -- the two first characters are compared, and then the rest
      split
      · next h => rw [ih, and_iff_right h.symm]
      · next h => simp [Ne.symm h]

/-- A module is asked for what follows its name and an underscore. -/
theorem functionOf?_eq_some_iff {name opcode function : String} :
    functionOf? name opcode = some function ↔ opcode = name ++ "_" ++ function := by
  have hsplit : opcode = name ++ "_" ++ function ↔
      opcode.toList = name.toList ++ ['_'] ++ function.toList := by
    rw [← String.toList_inj, String.toList_append, String.toList_append]
    rfl
  rw [hsplit, functionOf?, Option.map_eq_some_iff]
  constructor
  · rintro ⟨rest, hrest, rfl⟩
    rw [String.toList_ofList]
    exact dropLead?_eq_some_iff.1 hrest
  · intro h
    exact ⟨function.toList, dropLead?_eq_some_iff.2 h, String.ofList_toList⟩

theorem functionOf?_eq_none_iff {name opcode : String} :
    functionOf? name opcode = none ↔ ∀ rest, opcode ≠ name ++ "_" ++ rest := by
  constructor
  · intro h rest hr
    rw [functionOf?_eq_some_iff.2 hr] at h
    exact absurd h (by simp)
  · intro h
    cases hf : functionOf? name opcode with
    | none => rfl
    | some rest => exact absurd (functionOf?_eq_some_iff.1 hf) (h rest)

/-- The name in the error for an unclaimed opcode is its lead. -/
theorem isLead_claimedModule (opcode : String) : IsLead opcode (claimedModule opcode) where
  plain := by
    rw [claimedModule, String.toList_ofList]
    intro h
    have := List.mem_takeWhile_imp h
    simp at this
  begins := by
    have hcut : opcode.toList = (claimedModule opcode).toList ++
        opcode.toList.dropWhile (· != '_') := by
      rw [claimedModule, String.toList_ofList, List.takeWhile_append_dropWhile]
    cases hrest : opcode.toList.dropWhile (· != '_') with
    | nil =>
      rw [hrest, List.append_nil] at hcut
      exact .inl (String.toList_inj.1 hcut)
    | cons c rest =>
      -- what stops the run is the underscore
      have hc : c = '_' := by
        have := List.head_dropWhile_not (· != '_') (l := opcode.toList) (by simp [hrest])
        simpa [hrest] using this
      refine .inr ⟨String.ofList rest, String.toList_inj.1 ?_⟩
      rw [hcut, hrest, hc, String.toList_append, String.toList_append, String.toList_ofList]
      simp

/-- A text has one lead. -/
theorem IsLead.unique {opcode a b : String} (ha : IsLead opcode a) (hb : IsLead opcode b) :
    a = b := by
  -- both are the run of characters before the first underscore
  have key : ∀ {p : String}, IsLead opcode p →
      p.toList = opcode.toList.takeWhile (· != '_') := by
    intro p hp
    have hall : ∀ c ∈ p.toList, (c != '_') = true := by
      intro c hc
      simp only [bne_iff_ne, ne_eq]
      rintro rfl
      exact hp.plain hc
    rcases hp.begins with h | ⟨rest, h⟩
    · rw [h, List.takeWhile_eq_self_iff.2 hall]
    · rw [h, String.toList_append, String.toList_append, List.append_assoc,
        List.takeWhile_append_of_pos hall]
      simp
  exact String.toList_inj.1 ((key ha).trans (key hb).symm)

/-! ### The order of names -/

theorem precedes_iff {a b : String} : precedes a b = true ↔ Before a b ∨ a = b := by
  unfold precedes Before
  rw [Text.length_encode, Text.length_encode, Text.encode_lt_encode_iff]
  split
  · -- of one length: not after means before or equal
    next h =>
    rw [Bool.not_eq_true', decide_eq_false_iff_not, not_lt, le_iff_lt_or_eq]
    simp [h]
  · next h =>
    rw [decide_eq_true_iff]
    constructor
    · intro hlt
      exact .inl (.inl hlt)
    · rintro ((hlt | ⟨heq, -⟩) | rfl)
      · exact hlt
      · exact absurd heq h
      · exact absurd rfl h

theorem Before.irrefl (a : String) : ¬ Before a a := by
  rintro (h | ⟨-, h⟩)
  · exact lt_irrefl _ h
  · exact List.lt_irrefl _ h

theorem Before.trans {a b c : String} (hab : Before a b) (hbc : Before b c) : Before a c := by
  -- only where both steps keep the length do the bytes decide
  rcases hab with hab | ⟨hab, hlt⟩ <;> rcases hbc with hbc | ⟨hbc, hlt'⟩
  · exact .inl (hbc.trans hab)
  · exact .inl (hbc ▸ hab)
  · exact .inl (hab ▸ hbc)
  · exact .inr ⟨hab.trans hbc, List.lt_trans hlt hlt'⟩

theorem Before.total (a b : String) : Before a b ∨ a = b ∨ Before b a := by
  unfold Before
  rw [Text.encode_lt_encode_iff, Text.encode_lt_encode_iff]
  rcases lt_trichotomy (encode a).length (encode b).length with h | h | h
  · exact .inr (.inr (.inl h))
  · rcases lt_trichotomy a b with hlt | heq | hlt
    · exact .inl (.inr ⟨h, hlt⟩)
    · exact .inr (.inl heq)
    · exact .inr (.inr (.inr ⟨h.symm, hlt⟩))
  · exact .inl (.inl h)

/-- A name that comes later is not longer. -/
theorem Before.length_le {a b : String} (h : Before a b) :
    (encode b).length ≤ (encode a).length := by
  rcases h with h | ⟨h, -⟩
  · exact h.le
  · exact h.ge

/-- Sorting distinct names leaves them strictly ordered. -/
theorem pairwise_before_mergeSort {names : List String} (h : names.Nodup) :
    (names.mergeSort precedes).Pairwise Before := by
  -- sorting gives the order up to equality, for which it needs transitivity and totality
  have hle : (names.mergeSort precedes).Pairwise fun a b => precedes a b = true := by
    refine List.pairwise_mergeSort ?_ ?_ names
    · intro a b c hab hbc
      rw [precedes_iff] at hab hbc ⊢
      rcases hab with hab | rfl
      · rcases hbc with hbc | rfl
        · exact .inl (hab.trans hbc)
        · exact .inl hab
      · exact hbc
    · intro a b
      rw [Bool.or_eq_true, precedes_iff, precedes_iff]
      rcases Before.total a b with h | h | h
      · exact .inl (.inl h)
      · exact .inl (.inr h)
      · exact .inr (.inl h)
  have hne : (names.mergeSort precedes).Nodup := (names.mergeSort_perm precedes).nodup_iff.2 h
  -- and distinct names are not equal
  refine (hle.and hne).imp ?_
  rintro a b ⟨hab, hne⟩
  exact (precedes_iff.1 hab).resolve_right hne

/-! ### The invariant -/

/-- The modules, the names and the kept routes of a registry are in step. -/
structure Coherent (r : Registry α) : Prop where
  /-- A name is registered once. -/
  nodup : (r.modules.map (·.1)).Nodup
  /-- The names are those of the modules in order. -/
  sorted : r.names = (r.modules.map (·.1)).mergeSort precedes
  /-- A kept route is the one that would be found now. -/
  kept : ∀ opcode found, (opcode, found) ∈ r.routes → r.route opcode r.names = .ok found

/-- The directory that a registry presents. -/
def directory (r : Registry α) : Directory α := fun name => (r.module? name).map Table.find?

theorem Coherent.ofModules {modules : List (String × Table α)}
    (h : (modules.map (·.1)).Nodup) : Coherent (ofModules modules) where
  nodup := h
  sorted := rfl
  kept := fun _ _ hmem => absurd hmem List.not_mem_nil

theorem Coherent.empty : Coherent (empty : Registry α) where
  nodup := List.nodup_nil
  sorted := by simp [Registry.empty]
  kept := fun _ _ hmem => absurd hmem List.not_mem_nil

/-- Replacing the table of a name leaves the names as they are. -/
theorem map_fst_replace (modules : List (String × Table α)) (name : String) (table : Table α) :
    (modules.map fun m => if m.1 == name then (name, table) else m).map (·.1)
      = modules.map (·.1) := by
  rw [List.map_map]
  refine List.map_congr_left fun m _ => ?_
  by_cases h : m.1 = name <;> simp [h]

theorem Coherent.register {r : Registry α} (h : Coherent r) (name : String) (table : Table α) :
    Coherent (r.register name table) := by
  refine Coherent.ofModules ?_
  split
  · -- the name is known, and keeps its place
    rw [map_fst_replace]
    exact h.nodup
  · -- the name is new, and comes last
    next hnew =>
    rw [List.map_append, List.map_cons, List.map_nil]
    refine List.nodup_append.2 ⟨h.nodup, List.nodup_singleton name, ?_⟩
    rintro a ha b hb rfl
    obtain rfl := List.mem_singleton.1 hb
    obtain ⟨m, hm, hma⟩ := List.mem_map.1 ha
    exact hnew (List.any_eq_true.2 ⟨m, hm, by simpa using hma⟩)

theorem Coherent.unregister {r : Registry α} (h : Coherent r) (name : String) :
    Coherent (r.unregister name) := by
  unfold Registry.unregister
  split
  · exact Coherent.ofModules (h.nodup.sublist (List.filter_sublist.map _))
  · exact h

/-- **A kept route is never out of date**: looking an opcode up gives the route that the modules
give now, whether it was kept or not. -/
theorem Coherent.resolve_fst {r : Registry α} (h : Coherent r) (opcode : String) :
    (r.resolve opcode).1 = r.route opcode r.names := by
  unfold Registry.resolve
  split
  · -- the route was kept, and the invariant says that it is found again
    next key found hfind =>
    have hkey : key = opcode := by simpa using List.find?_some hfind
    subst hkey
    exact (h.kept key found (List.mem_of_find?_eq_some hfind)).symm
  · split <;> next hroute => exact hroute.symm

theorem resolve_snd_modules (r : Registry α) (opcode : String) :
    (r.resolve opcode).2.modules = r.modules := by
  unfold Registry.resolve
  repeat' split
  all_goals rfl

theorem resolve_snd_names (r : Registry α) (opcode : String) :
    (r.resolve opcode).2.names = r.names := by
  unfold Registry.resolve
  repeat' split
  all_goals rfl

/-- Routing looks at nothing but the modules. -/
theorem route_congr {r s : Registry α} (h : r.modules = s.modules) (opcode : String)
    (names : List String) : r.route opcode names = s.route opcode names := by
  induction names with
  | nil => rfl
  | cons name names ih =>
    unfold Registry.route Registry.module?
    rw [ih, h]

theorem Coherent.resolve {r : Registry α} (h : Coherent r) (opcode : String) :
    Coherent (r.resolve opcode).2 where
  nodup := by
    rw [resolve_snd_modules]
    exact h.nodup
  sorted := by
    rw [resolve_snd_names, resolve_snd_modules]
    exact h.sorted
  kept := by
    intro key found hmem
    rw [route_congr (resolve_snd_modules r opcode), resolve_snd_names]
    unfold Registry.resolve at hmem
    split at hmem
    · exact h.kept key found hmem
    · split at hmem
      · next hroute =>
        -- the only new route is the one that was just found
        rcases List.mem_cons.1 hmem with hnew | hold
        · obtain ⟨rfl, rfl⟩ := Prod.mk.inj hnew
          exact hroute
        · exact h.kept key found hold
      · exact h.kept key found hmem

/-! ### The directory of a registry -/

/-- A name that no module has is not found. -/
theorem find?_eq_none_of_not_any {modules : List (String × Table α)} {name : String}
    (h : ¬ modules.any (·.1 == name) = true) : modules.find? (·.1 == name) = none := by
  rw [List.find?_eq_none]
  intro m hm heq
  exact h (List.any_eq_true.2 ⟨m, hm, heq⟩)

/-- Replacing the table of one name finds the same modules as before. -/
theorem find?_replace (modules : List (String × Table α)) (name other : String)
    (table : Table α) :
    (modules.map fun m => if m.1 == name then (name, table) else m).find? (·.1 == other)
      = (modules.find? (·.1 == other)).map
          fun m => if m.1 == name then (name, table) else m := by
  rw [List.find?_map]
  congr 2
  funext m
  by_cases h : m.1 = name <;> simp [h]

theorem module?_register (r : Registry α) (name : String) (table : Table α) (other : String) :
    (r.register name table).module? other
      = if other = name then some table else r.module? other := by
  unfold Registry.register Registry.module? Registry.ofModules
  split
  · next hold =>
    -- the look-up finds the entry it found before, with the new table in it if it has the name
    rw [find?_replace]
    cases hfind : r.modules.find? (·.1 == other) with
    | none =>
      -- the name that is replaced would have been found
      have hne : other ≠ name := by
        rintro rfl
        obtain ⟨m, hm, heq⟩ := List.any_eq_true.1 hold
        exact List.find?_eq_none.1 hfind m hm heq
      rw [if_neg hne]
      rfl
    | some m =>
      have hm : m.1 = other := by simpa using List.find?_some hfind
      by_cases ho : other = name <;> simp [hm, ho]
  · next hnew =>
    rw [List.find?_append]
    by_cases ho : other = name
    · subst ho
      simp [find?_eq_none_of_not_any hnew]
    · simp [ho, Ne.symm ho]

theorem module?_unregister (r : Registry α) (name other : String) :
    (r.unregister name).module? other = if other = name then none else r.module? other := by
  unfold Registry.unregister
  split
  · unfold Registry.module? Registry.ofModules
    rw [List.find?_filter]
    by_cases ho : other = name
    · subst ho
      simp
    · -- the entries that are left out do not have the name that is looked up
      have hiff : ∀ m : String × Table α,
          (decide ((m.1 != name) = true ∧ (m.1 == other) = true)) = (m.1 == other) := by
        intro m
        by_cases h : m.1 = other <;> simp [h, ho]
      simp only [hiff, if_neg ho]
  · next hnew =>
    by_cases ho : other = name
    · subst ho
      rw [if_pos rfl, Registry.module?, find?_eq_none_of_not_any hnew]
      rfl
    · rw [if_neg ho]

theorem directory_apply (r : Registry α) (o : Operation α) :
    (o.apply r).directory = o.revise r.directory := by
  funext other
  cases o with
  | register name table =>
    simp only [Operation.apply, Operation.revise, directory, module?_register,
      Function.update_apply]
    split <;> rfl
  | unregister name =>
    simp only [Operation.apply, Operation.revise, directory, module?_unregister,
      Function.update_apply]
    split <;> rfl
  | resolve opcode =>
    simp only [Operation.apply, Operation.revise, directory, Registry.module?,
      resolve_snd_modules]

theorem Coherent.apply {r : Registry α} (h : Coherent r) (o : Operation α) :
    Coherent (o.apply r) := by
  cases o with
  | register name table => exact h.register name table
  | unregister name => exact h.unregister name
  | resolve opcode => exact h.resolve opcode

/-- **The invariant along a history**: the registry stays coherent, and its directory is the one
that the operations describe. -/
theorem coherent_after (history : List (Operation α)) :
    Coherent (after history) ∧ (after history).directory = directoryAfter history := by
  -- from any coherent registry, since the induction moves the start
  have hrun : ∀ (r : Registry α), Coherent r →
      Coherent (history.foldl Operation.apply r) ∧
        (history.foldl Operation.apply r).directory
          = history.foldl Operation.revise r.directory := by
    induction history with
    | nil => exact fun r h => ⟨h, rfl⟩
    | cons o history ih =>
      intro r h
      rw [List.foldl_cons, List.foldl_cons, ← directory_apply]
      exact ih _ (h.apply o)
  exact hrun .empty Coherent.empty

/-- The names that a coherent registry tries are those it has modules for. -/
theorem Coherent.mem_names_iff {r : Registry α} (h : Coherent r) (name : String) :
    name ∈ r.names ↔ (r.directory name).isSome := by
  rw [h.sorted, List.mem_mergeSort, directory, Registry.module?, Option.map_map,
    Option.isSome_map, List.find?_isSome, List.mem_map]
  simp

theorem Coherent.pairwise_names {r : Registry α} (h : Coherent r) :
    r.names.Pairwise Before := by
  rw [h.sorted]
  exact pairwise_before_mergeSort h.nodup

/-! ### Answers mean what they should -/

/-- Two texts of one length in bytes that begin the same text are equal. -/
theorem eq_of_begins {a b x y : String} (hlen : (encode a).length = (encode b).length)
    (h : a ++ x = b ++ y) : a = b ∧ x = y := by
  have hbytes : encode a ++ encode x = encode b ++ encode y := by
    rw [← Text.encode_append, h, Text.encode_append]
  obtain ⟨ha, hx⟩ := List.append_inj hbytes hlen
  exact ⟨Text.encode_inj.1 ha, Text.encode_inj.1 hx⟩

/-- **At most one name claims an opcode.** -/
theorem Claims.unique {d : Directory α} {opcode m f m' f' : String}
    (h : Claims d opcode m f) (h' : Claims d opcode m' f') : m = m' ∧ f = f' := by
  -- of two names that claim the opcode neither is longer
  have hlen : (encode m).length = (encode m').length := by
    rcases lt_trichotomy (encode m).length (encode m').length with hlt | heq | hgt
    · exact absurd h'.split (h.longest m' h'.registered hlt f')
    · exact heq
    · exact absurd h.split (h'.longest m h.registered hgt f)
  have hsame : m ++ ("_" ++ f) = m' ++ ("_" ++ f') := by
    rw [← String.append_assoc, ← String.append_assoc, ← h.split, ← h'.split]
  obtain ⟨hm, hf⟩ := eq_of_begins hlen hsame
  exact ⟨hm, by simpa using hf⟩

theorem Meaning.unique {d : Directory α} {opcode : String}
    {a b : Except RoutingError (Route α)} (ha : Meaning d opcode a) (hb : Meaning d opcode b) :
    a = b := by
  -- two claims have the same module and function, so the directory decides; and an opcode that
  -- is claimed is not unclaimed
  cases ha with
  | found hc hd hf =>
    cases hb with
    | found hc' hd' hf' =>
      obtain ⟨rfl, rfl⟩ := hc.unique hc'
      obtain rfl := Option.some.inj (hd.symm.trans hd')
      obtain rfl := Option.some.inj (hf.symm.trans hf')
      rfl
    | lacking hc' hd' hf' =>
      obtain ⟨rfl, rfl⟩ := hc.unique hc'
      obtain rfl := Option.some.inj (hd.symm.trans hd')
      exact absurd (hf.symm.trans hf') (by simp)
    | unclaimed hnone _ => exact absurd hc.split (hnone _ hc.registered _)
  | lacking hc hd hf =>
    cases hb with
    | found hc' hd' hf' =>
      obtain ⟨rfl, rfl⟩ := hc.unique hc'
      obtain rfl := Option.some.inj (hd.symm.trans hd')
      exact absurd (hf.symm.trans hf') (by simp)
    | lacking hc' hd' hf' =>
      obtain ⟨rfl, rfl⟩ := hc.unique hc'
      rfl
    | unclaimed hnone _ => exact absurd hc.split (hnone _ hc.registered _)
  | unclaimed hnone hl =>
    cases hb with
    | found hc' _ _ => exact absurd hc'.split (hnone _ hc'.registered _)
    | lacking hc' _ _ => exact absurd hc'.split (hnone _ hc'.registered _)
    | unclaimed _ hl' =>
      obtain rfl := hl.unique hl'
      rfl

/-- Going through ordered names finds what the opcode means. `tried` are the names that were
passed before, none of which begins the opcode. -/
theorem meaning_route_of_tried {r : Registry α} (h : Coherent r) (opcode : String)
    (names tried : List String) (hsplit : r.names = tried ++ names)
    (htried : ∀ name ∈ tried, functionOf? name opcode = none) :
    Meaning r.directory opcode (r.route opcode names) := by
  induction names generalizing tried with
  | nil =>
    -- all registered names were tried
    refine .unclaimed ?_ (isLead_claimedModule opcode)
    intro other hother rest
    rw [List.append_nil] at hsplit
    exact functionOf?_eq_none_iff.1
      (htried other (hsplit ▸ (h.mem_names_iff other).2 hother)) rest
  | cons name names ih =>
    have hname : name ∈ r.names := hsplit ▸ List.mem_append_right _ List.mem_cons_self
    rw [Registry.route]
    cases hf : functionOf? name opcode with
    | none =>
      -- this name does not begin the opcode either
      refine ih (tried ++ [name]) (by rw [hsplit, List.append_assoc]; rfl) ?_
      intro other hother
      rcases List.mem_append.1 hother with hother | hother
      · exact htried other hother
      · exact List.mem_singleton.1 hother ▸ hf
    | some function =>
      have hreg := (h.mem_names_iff name).1 hname
      -- a longer name that is registered was tried before, since later names are not longer
      have hclaims : Claims r.directory opcode name function := by
        refine ⟨hreg, functionOf?_eq_some_iff.1 hf, fun other hother hlen => ?_⟩
        have hmem := (h.mem_names_iff other).2 hother
        rw [hsplit] at hmem
        rcases List.mem_append.1 hmem with hmem | hmem
        · exact functionOf?_eq_none_iff.1 (htried other hmem)
        · rcases List.mem_cons.1 hmem with rfl | hmem
          · exact absurd hlen (lt_irrefl _)
          · have hpair := h.pairwise_names
            rw [hsplit] at hpair
            have hbefore : Before name other :=
              List.rel_of_pairwise_cons (List.pairwise_append.1 hpair).2.1 hmem
            exact absurd hlen hbefore.length_le.not_gt
      obtain ⟨table, htable⟩ : ∃ table, r.module? name = some table := by
        rw [directory, Option.isSome_map] at hreg
        exact Option.isSome_iff_exists.1 hreg
      have hdir : r.directory name = some table.find? := by
        rw [directory, htable]
        rfl
      simp only [htable, Option.bind_some]
      cases hhandler : table.find? function with
      | some handler => exact .found hclaims hdir hhandler
      | none => exact .lacking hclaims hdir hhandler

/-- **A look-up means what the directory says.** -/
theorem Coherent.meaning_resolve {r : Registry α} (h : Coherent r) (opcode : String) :
    Meaning r.directory opcode (r.resolve opcode).1 := by
  rw [h.resolve_fst]
  exact meaning_route_of_tried h opcode r.names [] rfl (by simp)

theorem nodup_of_pairwise_before {names : List String} (h : names.Pairwise Before) :
    names.Nodup := by
  refine h.imp ?_
  rintro name _ hname rfl
  exact Before.irrefl name hname

/-- Ordered names with the same members are the same list. -/
theorem eq_of_pairwise_before {a b : List String} (ha : a.Pairwise Before)
    (hb : b.Pairwise Before) (h : ∀ name, name ∈ a ↔ name ∈ b) : a = b := by
  -- both are without repetitions, so they are permutations, and a strict order leaves no choice
  have hperm : a.Perm b := (List.perm_ext_iff_of_nodup (nodup_of_pairwise_before ha)
    (nodup_of_pairwise_before hb)).2 h
  refine hperm.eq_of_pairwise (fun x y _ _ hxy hyx => ?_) ha hb
  exact absurd (hxy.trans hyx) (Before.irrefl x)

/-! ### Routing after any history -/

/-- **Routing after any history.** The answer to an opcode is its meaning in the directory that
the history leaves. Two histories that leave the same directory, in whatever order they registered
and whatever they looked up, give the same answer and try the same names. The names are those of
the registered modules, each once, more bytes first and then bytewise. -/
theorem resolve_after_history (history : List (Operation α)) (opcode : String) :
    (∀ answer, ((after history).resolve opcode).1 = answer ↔
      Meaning (directoryAfter history) opcode answer) ∧
    (∀ other, directoryAfter other = directoryAfter history →
      ((after other).resolve opcode).1 = ((after history).resolve opcode).1 ∧
        (after other).names = (after history).names) ∧
    (∀ name, name ∈ (after history).names ↔ (directoryAfter history name).isSome) ∧
    (after history).names.Nodup ∧ (after history).names.Pairwise Before := by
  obtain ⟨hcoh, hdir⟩ := coherent_after history
  -- the answer has the meaning, and nothing else has it
  have hmeaning : Meaning (directoryAfter history) opcode ((after history).resolve opcode).1 :=
    hdir ▸ hcoh.meaning_resolve opcode
  refine ⟨fun answer => ⟨?_, hmeaning.unique⟩, fun other hother => ?_, fun name => ?_,
    nodup_of_pairwise_before hcoh.pairwise_names, hcoh.pairwise_names⟩
  · rintro rfl
    exact hmeaning
  · obtain ⟨hcoh', hdir'⟩ := coherent_after other
    rw [hother] at hdir'
    refine ⟨(hdir' ▸ hcoh'.meaning_resolve opcode).unique hmeaning, ?_⟩
    -- the names are fixed by the directory, since their order is
    refine eq_of_pairwise_before hcoh'.pairwise_names hcoh.pairwise_names fun name => ?_
    rw [hcoh'.mem_names_iff, hcoh.mem_names_iff, hdir', hdir]
  · rw [hcoh.mem_names_iff, hdir]

/-- Registering the longer name first, with a look-up in between that is kept and then dropped,
leaves the same directory and so the same answer. -/
theorem resolve_after_reordered_history :
    directoryAfter [.register "data_list" [("add", some 2)], .resolve "data_list_add",
        .register "data" [("list_add", some 1)]]
      = directoryAfter [.register "data" [("list_add", some 1)],
          .register "data_list" [("add", some 2)]] ∧
    ((after [.register "data_list" [("add", some 2)], .resolve "data_list_add",
        .register "data" [("list_add", some 1)]]).resolve "data_list_add").1
      = ((after [.register "data" [("list_add", some 1)],
          .register "data_list" [("add", some 2)]]).resolve "data_list_add").1 := by
  have hdir : directoryAfter [.register "data_list" [("add", some 2)], .resolve "data_list_add",
        .register "data" [("list_add", some 1)]]
      = directoryAfter [.register "data" [("list_add", some 1)],
          .register "data_list" [("add", some 2)]] :=
    Function.update_comm (by decide) _ _ _
  exact ⟨hdir, ((resolve_after_history _ "data_list_add").2.1 _ hdir).1⟩

end Blockwork.Registry
