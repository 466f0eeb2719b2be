import Blockwork.Proofs.Machine.Declared

/-!
# Variables that are not found

A computation looks variables up by name, and ends with an unknown variable if the heap has none of
that name. Nothing else ends so, and nothing takes a name away. So the variable that a chain did not
find, at whatever depth it was looked for, is not among the names that the heap had when the chain
began (`Machine.finds_execute`); a variable that a document declares is always found
(`Machine.Reached.finds`).
-/

namespace Blockwork

theorem Fault.unknown?_wrap (module function id : String) (f : Fault) :
    (f.wrap module function id).unknown? = f.unknown? := by
  unfold Fault.wrap
  split <;> rfl

/-- What ends with a fault that is not about a variable did not miss one. -/
theorem Fault.ne_unknown_of_known {β : Type} {g f : Fault} {name : String}
    (hg : g.unknown? = none) (hf : (Outcome.fault g : Outcome β) = .fault f) :
    f.unknown? ≠ some name := by
  obtain rfl := Outcome.fault.inj hf
  simp [hg]

namespace Heap

theorem not_mem_of_get? {h : Heap} {name : String} (hget : h.get? name = none) :
    name ∉ h.names := by
  rw [← isSome_get?_iff, hget]
  simp

theorem exists_set?_of_mem {h : Heap} {name : String} (hname : name ∈ h.names) (v : Value) :
    h.set? name v = some (h.put name v) := by
  rw [set?, if_pos (contains_iff.2 hname)]

end Heap

/-! ### Computations that find every declared variable -/

namespace Run

variable {α σ β γ : Type}

/-- **The computation finds the variables that there are**: it keeps their names, and one that it
does not find is none of them. -/
def Finds (β : Type) (x : Run α σ β) : Prop :=
  ∀ (setup : Setup σ) (s : State α σ), (x setup s).2.heap.names = s.heap.names ∧
    ∀ f name, (x setup s).1 = .fault f → f.unknown? = some name → name ∉ s.heap.names

/-- Computations that do not touch the variables and do not end with an unknown one. -/
theorem finds_of_eq {x : Run α σ β}
    (hnames : ∀ setup s, (x setup s).2.heap.names = s.heap.names)
    (hfault : ∀ setup s f, (x setup s).1 = .fault f → f.unknown? = none) : Finds β x := by
  intro setup s
  refine ⟨hnames setup s, fun f name hf hname => ?_⟩
  rw [hfault setup s f hf] at hname
  exact absurd hname nofun

theorem Finds.andThen {x : Run α σ β} {f : β → Run α σ γ} (hx : Finds β x)
    (hf : ∀ b, Finds γ (f b)) : Finds γ (x >>= f) := by
  intro setup s
  obtain ⟨hnames, hfault⟩ := hx setup s
  rw [bind_apply]
  rcases hout : x setup s with ⟨b | e | _, s'⟩ <;> rw [hout] at hnames hfault
  · -- the names are still the same when it goes on
    obtain ⟨hnames', hfault'⟩ := hf b setup s'
    exact ⟨hnames'.trans hnames, fun g name hg hname => hnames ▸ hfault' g name hg hname⟩
  · refine ⟨hnames, fun g name hg hname => hfault e name rfl ?_⟩
    obtain rfl := Outcome.fault.inj hg
    exact hname
  · exact ⟨hnames, fun g name hg => absurd hg nofun⟩

theorem Finds.mapFault {x : Run α σ β} (hx : Finds β x) {g : Fault → Fault}
    (hg : ∀ f, (g f).unknown? = f.unknown?) : Finds β (x.mapFault g) := by
  intro setup s
  obtain ⟨hnames, hfault⟩ := hx setup s
  rw [mapFault_snd]
  refine ⟨hnames, fun f name hf hname => ?_⟩
  unfold Run.mapFault at hf
  rcases hout : x setup s with ⟨b | e | _, s'⟩ <;> rw [hout] at hf hfault
  · exact absurd hf nofun
  · obtain rfl := Outcome.fault.inj hf
    exact hfault e name rfl ((hg e).symm.trans hname)
  · exact absurd hf nofun

theorem Finds.attempt {x : Run α σ β} (hx : Finds β x) : Finds (Except Fault β) x.attempt := by
  intro setup s
  obtain ⟨hnames, -⟩ := hx setup s
  unfold Run.attempt
  rcases hout : x setup s with ⟨b | e | _, s'⟩ <;> rw [hout] at hnames <;>
    exact ⟨hnames, fun g name hg => absurd hg nofun⟩

theorem finds_loop {step : Run α σ Bool} (hstep : Finds Bool step) (n : Nat) :
    Finds Unit (loop step n) := by
  induction n with
  | zero => exact finds_of_eq (fun _ _ => rfl) fun _ _ _ => nofun
  | succ n ih =>
    refine hstep.andThen fun b => ?_
    cases b with
    | true => exact ih
    | false => exact finds_of_eq (fun _ _ => rfl) fun _ _ _ => nofun

theorem finds_lookup (name : String) : Finds Value (lookup (α := α) (σ := σ) name) := by
  intro setup s
  rw [lookup_apply]
  cases hget : s.heap.get? name with
  | some v => exact ⟨rfl, fun f x hf => absurd hf nofun⟩
  | none =>
    refine ⟨rfl, fun f x hf hx => ?_⟩
    obtain rfl := Outcome.fault.inj hf
    obtain rfl := Option.some.inj hx
    exact Heap.not_mem_of_get? hget

theorem finds_assign (name : String) (v : Value) :
    Finds Unit (assign (α := α) (σ := σ) name v) := by
  intro setup s
  rw [assign_apply]
  cases hset : s.heap.set? name v with
  | some heap => exact ⟨Heap.names_of_set? hset, fun f x hf => absurd hf nofun⟩
  | none =>
    refine ⟨rfl, fun f x hf hx hmem => ?_⟩
    obtain rfl := Outcome.fault.inj hf
    obtain rfl := Option.some.inj hx
    rw [Heap.exists_set?_of_mem hmem] at hset
    exact absurd hset nofun

/-- **The parts of actions find the variables that there are.** -/
theorem nominal_finds : Nominal (fun _ => True) (Finds (α := α) (σ := σ)) where
  inspect _ _ := finds_of_eq (fun _ _ => rfl) fun _ _ _ => nofun
  lookup _ := finds_lookup _
  fail _ hknown := finds_of_eq (fun _ _ => rfl) fun _ _ _ hf => Outcome.fault.inj hf ▸ hknown
  andThen hx hf := hx.andThen hf
  weaken _ hx := hx
  loopWhile _ {_ _ _} hstep := fun setup s => finds_loop hstep setup.budget setup s
  emptyList := finds_of_eq (fun _ _ => rfl) fun _ _ _ => nofun
  emit _ := finds_of_eq (fun _ _ => rfl) fun _ _ _ => nofun
  reveal _ _ _ := finds_of_eq (fun _ _ => rfl) fun _ _ _ => nofun
  assign _ _ v _ := finds_assign _ v
  updateList _ _ _ := finds_of_eq (fun _ _ => rfl) fun _ _ _ => nofun
  newList _ := finds_of_eq (fun _ _ => rfl) fun _ _ _ => nofun
  raise _ := finds_of_eq (fun _ _ => rfl) fun _ _ _ hf => Outcome.fault.inj hf ▸ rfl
  breakOff _ := finds_of_eq (fun _ _ => rfl) fun _ _ _ hf => Outcome.fault.inj hf ▸ rfl
  attempt hx := hx.attempt
  through _ hx := hx.mapFault fun _ => rfl
  countUp := finds_of_eq (fun _ _ => rfl) fun _ _ _ => nofun

end Run

/-- **An action finds the variables that there are** if its slots do. -/
theorem Action.perform_finds {σ : Type} {s : Scope Action σ} (hs : s.Holds Run.Finds)
    (a : Action) : Run.Finds Value (a.perform s) := by
  have hparts : Run.Nominal (fun _ => True) (Run.Finds (α := Action) (σ := σ)) :=
    Run.nominal_finds
  cases ha : a.isNominal with
  | true => exact Action.perform_nominal hparts hs (fun _ _ => trivial) ha
  | false =>
    -- the two introspection blocks that look at variables beyond their fields
    cases a with
    | probe p =>
      cases p with
      | info =>
        exact Run.Finds.andThen (Run.finds_of_eq (fun _ _ => rfl) fun _ _ _ => nofun)
          fun _ => hparts.listValue _
      | showVariable => exact hparts.goOn (hparts.reveal s trivial) fun _ => hparts.done _
      | _ => exact absurd ha nofun
    | _ => exact absurd ha nofun

/-! ### Blocks, chains and machines -/

namespace Machine

variable {σ : Type}

theorem finds_nested (id : String) {x : Job σ Value} (hx : Run.Finds Value x) :
    Run.Finds Value (nested id x) := by
  intro setup s
  unfold nested
  split
  · exact ⟨rfl, fun f name hf hname => absurd hname (Fault.ne_unknown_of_known rfl hf)⟩
  · exact hx setup { s with depth := s.depth + 1 }

theorem finds_handled {b : Block} (hslots : ∀ slot ∈ slotsOf (σ := σ) b.members,
    slot.Holds Run.Finds) (route : Route Action) :
    Run.Finds Value (handled (σ := σ) b route) := by
  have hperform := Action.perform_finds (s := scopeOf (σ := σ) b route) hslots route.handler
  refine (hperform.mapFault (Fault.unknown?_wrap _ _ _)).andThen fun v => ?_
  -- completing a block touches no variable and cannot fail
  exact Run.finds_of_eq (fun _ _ => rfl) fun _ _ _ => nofun

theorem finds_routed {b : Block} (hslots : ∀ slot ∈ slotsOf (σ := σ) b.members,
    slot.Holds Run.Finds) : Run.Finds Value (executeBlock (σ := σ) b) := by
  intro setup s
  rw [executeBlock_apply]
  cases (s.registry.resolve b.opcode).1 with
  | error e =>
    exact ⟨rfl, fun f name hf hname => absurd hname (Fault.ne_unknown_of_known rfl hf)⟩
  | ok route => exact finds_handled hslots route setup (afterRouting s b.opcode)

/-- **A chain finds the variables that there are**, whatever the modules and the limits are. -/
theorem finds_execute (c : Chain) : Run.Finds Value (execute (σ := σ) c) := by
  have hparts : Run.Nominal (fun _ => True) (Run.Finds (α := Action) (σ := σ)) :=
    Run.nominal_finds
  -- nothing is asked of the blocks
  refine execute_induction (G := fun _ => True) hparts.done (fun hx hf => hx.andThen hf)
    (fun id _ hx => finds_nested id hx) (fun b _ hslots => finds_routed hslots) c
    fun _ _ => trivial

theorem finds_executeBlock (b : Block) : Run.Finds Value (executeBlock (σ := σ) b) := by
  have hslots : ∀ slot ∈ slotsOf (σ := σ) b.members, slot.Holds Run.Finds := by
    rw [slotsOf_eq_map]
    intro slot hslot
    obtain ⟨m, -, rfl⟩ := List.mem_map.1 hslot
    exact holds_slotOf Run.nominal_finds.done (finds_execute m.chain)
  exact finds_routed hslots

/-- The variables of a machine are those of its document, after every history. -/
theorem Reached.mem_names_iff {document : Document} {m : Machine σ} (h : m.Reached document)
    {name : String} :
    name ∈ m.state.heap.names ↔ ∃ v ∈ document.declarations, v.name = name := by
  rw [h.atRest.names, h.document_eq, Heap.names_ofVariables, List.mem_eraseDups, List.mem_map]

/-- **A declared variable is always found**: no computation of a machine, begun with the variables
of its document, ends because it is unknown. -/
theorem Reached.finds {document : Document} {m : Machine σ} (h : m.Reached document)
    {name : String} (hname : ∃ v ∈ document.declarations, v.name = name) {β : Type} {x : Job σ β}
    (hx : Run.Finds β x) {s : State Action σ} (hs : s.heap.names = m.state.heap.names) {f : Fault}
    (hf : (x m.setup s).1 = .fault f) : f.unknown? ≠ some name := by
  intro hunknown
  refine (hx m.setup s).2 f name hf hunknown ?_
  rw [hs]
  exact h.mem_names_iff.2 hname

/-- A run begins with fresh variables of the same names. -/
theorem finds_program (document : Document) (setup : Setup σ) (s : State Action σ) {f : Fault}
    (hf : (program document setup s).1 = .fault f) {name : String}
    (hname : ∃ v ∈ document.declarations, v.name = name) : f.unknown? ≠ some name := by
  intro hunknown
  refine (finds_execute document.entry setup
    { s with heap := .ofVariables document.declarations, steps := 0 }).2 f name hf hunknown ?_
  show name ∈ (Heap.ofVariables document.declarations).names
  rwa [Heap.names_ofVariables, List.mem_eraseDups, List.mem_map]

end Machine

end Blockwork
