import Blockwork.Proofs.Machine.Declared
import Blockwork.Proofs.Machine.Observing

/-!
# Variables that no block names

A block gets at a variable by its name, and it has the name from a field. So a variable that no field
of a script names has no part in a run of it: with the variable declared, anywhere among the others,
the run does the same, and ends with the same variables and that one, unassigned, in its place.

The variable is added to a heap by `Heap.withUnset`, to a state and to what an observer is told by
adding it to the heap there. `Run.Ignores` says that a computation does the same with the variable as
without it, and leaves a state that has it where it had been. The parts of actions ignore every
variable whose name is not the one they are given, and so does an action whose slots do. What the
statement cannot admit are functions that look at the variables as a whole, or at one that no field
names (`Action.isNominal`).
-/

namespace Blockwork

/-! ### Heaps with one variable more -/

namespace Heap

/-- The heap with one variable more, unassigned, at a place. -/
def withUnset (h : Heap) (i : Nat) (y : String) : Heap :=
  ⟨h.bindings.take i ++ (y, .undefined) :: h.bindings.drop i⟩

section Names

variable {h : Heap} {i : Nat} {x y : String}

theorem contains_withUnset (hxy : x ≠ y) : (h.withUnset i y).contains x = h.contains x := by
  have hother : (y == x) = false := by simpa using hxy.symm
  unfold withUnset contains
  rw [List.any_append, List.any_cons, hother, Bool.false_or, ← List.any_append,
    List.take_append_drop]

theorem get?_withUnset (hxy : x ≠ y) : (h.withUnset i y).get? x = h.get? x := by
  have hother : ¬ (y == x) = true := by simpa using hxy.symm
  unfold withUnset get?
  rw [List.find?_append, List.find?_cons_of_neg (p := fun b : String × Value => b.1 == x) hother,
    ← List.find?_append, List.take_append_drop]

theorem put_withUnset (hxy : x ≠ y) (v : Value) :
    (h.withUnset i y).put x v = (h.put x v).withUnset i y := by
  have hother : ¬ (y == x) = true := by simpa using hxy.symm
  unfold withUnset put
  rw [List.map_append, List.map_cons, List.map_take, List.map_drop, if_neg hother]

theorem set?_withUnset (hxy : x ≠ y) (v : Value) :
    (h.withUnset i y).set? x v = (h.set? x v).map (·.withUnset i y) := by
  unfold set?
  rw [contains_withUnset hxy, put_withUnset hxy]
  split <;> rfl

/-- Declaring other variables leaves it where it is. -/
theorem declare_withUnset (hxy : x ≠ y) (hi : i ≤ h.size) :
    (h.withUnset i y).declare x = (h.declare x).withUnset i y := by
  unfold declare
  rw [contains_withUnset hxy, put_withUnset hxy]
  split
  · rfl
  · -- a new variable comes last, behind the place
    unfold withUnset
    rw [List.take_append_of_le_length hi, List.drop_append_of_le_length hi, List.append_assoc,
      List.cons_append]

/-- A variable that is declared is there from then on, unassigned. -/
theorem declare_eq_withUnset (hy : y ∉ h.names) : h.declare y = h.withUnset h.size y := by
  unfold declare withUnset size
  rw [if_neg fun hc => hy (contains_iff.1 hc), List.take_length, List.drop_length]

end Names

theorem size_le_declare (h : Heap) (name : String) : h.size ≤ (h.declare name).size := by
  unfold declare size
  split
  · exact Nat.le_of_eq (List.length_map _).symm
  · simp

/-- **A heap with one declaration more** has the variable at the place where it was declared. -/
theorem ofVariables_append_cons {before after : List Variable} {v : Variable}
    (hv : ∀ u ∈ before ++ after, u.name ≠ v.name) :
    ofVariables (before ++ v :: after)
      = (ofVariables (before ++ after)).withUnset (ofVariables before).size v.name := by
  have hbefore : v.name ∉ (ofVariables before).names := by
    rw [names_ofVariables, List.mem_eraseDups, List.mem_map]
    rintro ⟨u, hu, hname⟩
    exact hv u (List.mem_append_left _ hu) hname
  -- later declarations come behind it
  suffices hlater : ∀ (names : List String) (h : Heap), v.name ∉ names →
      (ofVariables before).size ≤ h.size →
      names.foldl declare (h.withUnset (ofVariables before).size v.name)
        = (names.foldl declare h).withUnset (ofVariables before).size v.name by
    have hafter : v.name ∉ after.map (·.name) := by
      intro hmem
      obtain ⟨u, hu, hname⟩ := List.mem_map.1 hmem
      exact hv u (List.mem_append_right _ hu) hname
    have hrest := hlater (after.map (·.name)) (ofVariables before) hafter (Nat.le_refl _)
    rw [← declare_eq_withUnset hbefore] at hrest
    unfold ofVariables ofNames at hrest ⊢
    rw [List.map_append, List.map_append, List.map_cons, List.foldl_append, List.foldl_append,
      List.foldl_cons]
    exact hrest
  intro names
  induction names with
  | nil => exact fun h _ _ => rfl
  | cons name names ih =>
    intro h hname hsize
    obtain ⟨hne, hname⟩ := not_or.1 (mt List.mem_cons.2 hname)
    rw [List.foldl_cons, List.foldl_cons, declare_withUnset (Ne.symm hne) hsize]
    exact ih _ hname (hsize.trans (h.size_le_declare name))

end Heap

/-- What an observer is told with the variable. -/
def Observation.withUnset (o : Observation) (i : Nat) (y : String) : Observation :=
  { o with heap := o.heap.withUnset i y }

/-- The state with the variable, in its heap and in those that the observer was told of. -/
def State.withUnset {α : Type} (s : State α (List Observation)) (i : Nat) (y : String) :
    State α (List Observation) :=
  { s with heap := s.heap.withUnset i y, memory := s.memory.map (·.withUnset i y) }

/-! ### Computations that ignore a variable -/

namespace Run

variable {setup : Setup (List Observation)} {modules : List (String × Table Action)} {i : Nat}
  {x y : String} {β γ : Type}

/-- **The computation ignores the variable**: it does the same with it, and has it afterwards. -/
def Ignores (setup : Setup (List Observation)) (modules : List (String × Table Action)) (i : Nat)
    (y : String) (β : Type) (x : Job (List Observation) β) : Prop :=
  ∀ s : State Action (List Observation), s.registry.Holds modules →
    x setup (s.withUnset i y) = ((x setup s).1, (x setup s).2.withUnset i y) ∧
      (x setup s).2.registry.Holds modules

/-- Computations that look at no variable. -/
theorem ignores_of_eq {x : Job (List Observation) β}
    (hsame : ∀ s, x setup (s.withUnset i y) = ((x setup s).1, (x setup s).2.withUnset i y))
    (hregistry : ∀ s, (x setup s).2.registry = s.registry) : Ignores setup modules i y β x :=
  fun s hs => ⟨hsame s, (hregistry s).symm ▸ hs⟩

theorem Ignores.andThen {x : Job (List Observation) β} {f : β → Job (List Observation) γ}
    (hx : Ignores setup modules i y β x) (hf : ∀ b, Ignores setup modules i y γ (f b)) :
    Ignores setup modules i y γ (x >>= f) := by
  intro s hs
  obtain ⟨hsame, hregistry⟩ := hx s hs
  rw [bind_apply, bind_apply, hsame]
  rcases hout : x setup s with ⟨b | e | _, s'⟩ <;> rw [hout] at hregistry
  · exact hf b s' hregistry
  · exact ⟨rfl, hregistry⟩
  · exact ⟨rfl, hregistry⟩

theorem Ignores.mapFault {x : Job (List Observation) β} (hx : Ignores setup modules i y β x)
    (g : Fault → Fault) : Ignores setup modules i y β (x.mapFault g) := by
  intro s hs
  obtain ⟨hsame, hregistry⟩ := hx s hs
  rw [mapFault_snd]
  refine ⟨?_, hregistry⟩
  unfold Run.mapFault
  rw [hsame]
  rcases x setup s with ⟨b | e | _, s'⟩ <;> rfl

theorem Ignores.attempt {x : Job (List Observation) β} (hx : Ignores setup modules i y β x) :
    Ignores setup modules i y (Except Fault β) x.attempt := by
  intro s hs
  obtain ⟨hsame, hregistry⟩ := hx s hs
  unfold Run.attempt
  rw [hsame]
  rcases hout : x setup s with ⟨b | e | _, s'⟩ <;> rw [hout] at hregistry <;>
    exact ⟨rfl, hregistry⟩

theorem ignores_loop {step : Job (List Observation) Bool}
    (hstep : Ignores setup modules i y Bool step) (n : Nat) :
    Ignores setup modules i y Unit (loop step n) := by
  induction n with
  | zero => exact ignores_of_eq (fun _ => rfl) fun _ => rfl
  | succ n ih =>
    refine hstep.andThen fun b => ?_
    cases b with
    | true => exact ih
    | false => exact ignores_of_eq (fun _ => rfl) fun _ => rfl

theorem ignores_lookup (hxy : x ≠ y) : Ignores setup modules i y Value (lookup x) := by
  refine ignores_of_eq (fun s => ?_) fun s => ?_
  · have hget : (s.withUnset i y).heap.get? x = s.heap.get? x := Heap.get?_withUnset hxy
    rw [lookup_apply, lookup_apply, hget]
    cases s.heap.get? x <;> rfl
  · rw [lookup_apply]
    cases s.heap.get? x <;> rfl

theorem ignores_assign (hxy : x ≠ y) (v : Value) :
    Ignores setup modules i y Unit (assign x v) := by
  refine ignores_of_eq (fun s => ?_) fun s => ?_
  · have hset : (s.withUnset i y).heap.set? x v = (s.heap.set? x v).map (·.withUnset i y) :=
      Heap.set?_withUnset hxy v
    rw [assign_apply, assign_apply, hset]
    cases s.heap.set? x v <;> rfl
  · rw [assign_apply]
    cases s.heap.set? x v <;> rfl

theorem ignores_showVariable (scope : Scope Action (List Observation)) (hxy : x ≠ y) :
    Ignores setup modules i y Unit (scope.showVariable x) := by
  refine ignores_of_eq (fun s => ?_) fun _ => rfl
  have hget : (s.withUnset i y).heap.get? x = s.heap.get? x := Heap.get?_withUnset hxy
  change (emit (.shown x (((s.withUnset i y).heap.get? x).map s.store.read))) setup
    (s.withUnset i y) = _
  rw [hget]
  rfl

/-- **The parts of standard actions** ignore the variable as long as they are given other names. -/
theorem plain_ignores (setup : Setup (List Observation)) (modules : List (String × Table Action))
    (i : Nat) (y : String) :
    Plain (· ≠ y) True True fun _ => Ignores setup modules i y where
  inspect _ _ := ignores_of_eq (fun _ => rfl) fun _ => rfl
  lookup hname := ignores_lookup hname
  fail _ _ := ignores_of_eq (fun _ => rfl) fun _ => rfl
  andThen hx hf := hx.andThen hf
  weaken _ hx := hx
  loopWhile _ {_ _ _} hstep := fun s hs => ignores_loop hstep setup.budget s hs
  emptyList := ignores_of_eq (fun _ => rfl) fun _ => rfl
  emit _ := ignores_of_eq (fun _ => rfl) fun _ => rfl
  reveal scope _ hname := ignores_showVariable scope hname
  assign _ _ v hname := ignores_assign hname v
  updateList _ _ _ := ignores_of_eq (fun _ => rfl) fun _ => rfl

/-- **The parts of actions that get at variables by name** do, those of introspection blocks
included. -/
theorem nominal_ignores (setup : Setup (List Observation)) (modules : List (String × Table Action))
    (i : Nat) (y : String) : Nominal (· ≠ y) (Ignores setup modules i y) where
  toPlain := plain_ignores setup modules i y
  newList _ := ignores_of_eq (fun _ => rfl) fun _ => rfl
  raise _ := ignores_of_eq (fun _ => rfl) fun _ => rfl
  breakOff _ := ignores_of_eq (fun _ => rfl) fun _ => rfl
  attempt hx := hx.attempt
  through place hx := hx.mapFault (.through place)
  countUp := ignores_of_eq (fun _ => rfl) fun _ => rfl

end Run

/-! ### Blocks and chains -/

namespace Machine

variable {setup : Setup (List Observation)} {modules : List (String × Table Action)} {i : Nat}
  {y : String}

/-- The limit on nesting looks at the depth only. -/
theorem ignores_nested (id : String) {x : Job (List Observation) Value}
    (hx : Run.Ignores setup modules i y Value x) :
    Run.Ignores setup modules i y Value (nested id x) := by
  intro s hs
  obtain ⟨hsame, hregistry⟩ := hx { s with depth := s.depth + 1 } hs
  have hinside : x setup { s.withUnset i y with depth := (s.withUnset i y).depth + 1 } = _ := hsame
  unfold nested
  by_cases hrefused : setup.limit ≤ s.depth
  · have hrefused' : setup.limit ≤ (s.withUnset i y).depth := hrefused
    rw [if_pos hrefused, if_pos hrefused']
    exact ⟨rfl, hs⟩
  · have hentered : ¬ setup.limit ≤ (s.withUnset i y).depth := hrefused
    rw [if_neg hrefused, if_neg hentered, hinside]
    exact ⟨rfl, hregistry⟩

/-- Completing a block tells the observer of the variables. -/
theorem ignores_completed (hkeeps : ∀ o told, (setup.observer.observe o told).1 = told ++ [o])
    (scope : Scope Action (List Observation)) (v : Value) :
    Run.Ignores setup modules i y Unit (completed scope v) := by
  intro s hs
  refine ⟨?_, hs⟩
  unfold completed State.withUnset
  dsimp only
  -- what is told with the variable is the observation with the variable
  rw [hkeeps, hkeeps, List.map_append]
  rfl

/-- The fields that a handler finds are those of the block. -/
theorem names_scopeOf {b : Block} (hb : ∀ f, .field f ∈ b.members → f.value ≠ y)
    (route : Route Action) : (scopeOf (σ := List Observation) b route).Names (· ≠ y) := by
  intro f hf
  refine hb f ?_
  have hf' : .field f ∈ slotsOf (σ := List Observation) b.members := hf
  rw [slotsOf_eq_map] at hf'
  obtain ⟨m, hm, hslot⟩ := List.mem_map.1 hf'
  cases m with
  | field g =>
    obtain rfl := Slot.field.inj hslot
    exact hm
  | _ => exact absurd hslot nofun

/-- **A chain ignores a variable** that no field of its blocks names. Its observer keeps all that it is
told. -/
theorem ignores_execute (hkeeps : ∀ o told, (setup.observer.observe o told).1 = told ++ [o])
    {r : Registry Action} (hr : r.Holds modules) (hnominal : r.all Action.isNominal = true)
    (c : Chain) (hc : ∀ b ∈ Chain.blocks c, ∀ f, .field f ∈ b.members → f.value ≠ y) :
    Run.Ignores setup modules i y Value (execute c) := by
  have hparts := Run.nominal_ignores setup modules i y
  refine execute_induction (G := fun b => ∀ f, .field f ∈ b.members → f.value ≠ y) hparts.done
    (fun hx hf => hx.andThen hf) (fun id _ hx => ignores_nested id hx) ?_ c hc
  intro b hb hslots s hs
  have hs' : (afterRouting s b.opcode).registry.Holds modules := hs.resolve b.opcode
  have hresolve : (s.withUnset i y).registry.resolve b.opcode = s.registry.resolve b.opcode := rfl
  have hafter : afterRouting (s.withUnset i y) b.opcode = (afterRouting s b.opcode).withUnset i y :=
    rfl
  rw [executeBlock_apply, executeBlock_apply, hresolve, hafter]
  cases hroute : (s.registry.resolve b.opcode).1 with
  | error e => exact ⟨rfl, hs'⟩
  | ok route =>
    -- the handler gets at variables by the names in fields, and no field has this one
    have hhandler : route.handler.isNominal = true := by
      rw [hs.resolve_fst_eq hr] at hroute
      exact hr.1.handler_of_all hnominal hroute
    have hscope : (scopeOf b route).Holds (Run.Ignores setup modules i y) := hslots
    have hperform := Action.perform_nominal hparts hscope (names_scopeOf hb route) hhandler
    have hhandled : Run.Ignores setup modules i y Value (handled b route) :=
      (hperform.mapFault _).andThen fun v =>
        (ignores_completed hkeeps _ v).andThen fun _ => hparts.done v
    exact hhandled _ hs'

/-! ### Runs -/

/-- The functions of the standard modules and of the console get at variables by name only. -/
theorem Registry.all_isNominal {r : Registry Action}
    (h : ∀ m ∈ r.modules, m ∈ Blocks.standardAndConsole) : r.all Action.isNominal = true := by
  have hlisted : ∀ m ∈ Blocks.standardAndConsole,
      (m.2.all fun f => f.2.all Action.isNominal) = true := by decide
  exact List.all_eq_true.2 fun m hm => hlisted m (h m hm)

/-- **Unused variables do not interfere.** Take two documents with the same script, of which one
declares a variable more, anywhere among the others, that no field of a block of the script names.
Let new machines with the same setup and the same modules run them, where the functions of the
modules get at variables by the names in fields only, as those of the standard modules and of the
console do (`Registry.all_isNominal`). Then the runs end the same, with the same value or the same
fault or not at all. The variables are the same in the end, but for the one more, which is unassigned
in its place. Lists, events and steps are the same, and so is what the observers are told, but for
the variable. -/
theorem unused_variables_do_not_interfere {before after : List Variable} {v : Variable}
    {entry : Chain} {warnings warnings' : List Warning} {setup : Setup σ}
    {modules : List (String × Table Action)} {memory : σ} {m m' : Machine σ}
    (hm : m = create ⟨before ++ after, entry, warnings⟩ setup modules memory)
    (hm' : m' = create ⟨before ++ v :: after, entry, warnings'⟩ setup modules memory)
    (hdeclared : ∀ u ∈ before ++ after, u.name ≠ v.name)
    (hfields : ∀ b ∈ Chain.blocks entry, ∀ f, .field f ∈ b.members → f.value ≠ v.name)
    (hnominal : m.state.registry.all Action.isNominal = true) :
    let i := (Heap.ofVariables before).size
    m'.run.1 = m.run.1 ∧
    m'.run.2.state.heap = m.run.2.state.heap.withUnset i v.name ∧
    m'.run.2.state.store = m.run.2.state.store ∧
    m'.run.2.state.events = m.run.2.state.events ∧
    m'.run.2.state.steps = m.run.2.state.steps ∧
    m'.observed = m.observed.map (·.withUnset i v.name) := by
  intro i
  have hcoherent := coherent_registry_create ⟨before ++ after, entry, warnings⟩ setup modules memory
  rw [← hm] at hcoherent
  -- under watch the two runs can be compared in full
  have hignores : Run.Ignores m.watched.setup m.state.registry.modules i v.name Value
      (execute entry) :=
    ignores_execute (fun _ _ => rfl) ⟨hcoherent, rfl⟩ hnominal entry hfields
  obtain ⟨hsame, -⟩ := hignores m.watched.started ⟨hcoherent, rfl⟩
  -- they start in states that differ in the variable only
  have hstart : m'.watched.started = m.watched.started.withUnset i v.name := by
    rw [hm, hm']
    unfold started State.withUnset
    dsimp only [watched, create]
    rw [Heap.ofVariables_append_cons hdeclared]
    rfl
  have hrun : (m'.watched.run.1, m'.watched.run.2.state)
      = (m.watched.run.1, m.watched.run.2.state.withUnset i v.name) := by
    have hprogram : (m.watched.run.1, m.watched.run.2.state)
        = execute entry m.watched.setup m.watched.started := by
      rw [hm]
      rfl
    have hprogram' : (m'.watched.run.1, m'.watched.run.2.state)
        = execute entry m.watched.setup m'.watched.started := by
      rw [hm, hm']
      rfl
    rw [hprogram', hstart, hsame, ← hprogram]
  -- being watched makes no difference to either run
  rw [m.run_watched.1, m.run_watched.2, m'.run_watched.1, m'.run_watched.2] at hrun
  obtain ⟨houtcome, hstate⟩ := Prod.ext_iff.1 hrun
  simp only [State.withUnset, State.mk.injEq] at hstate
  obtain ⟨hheap, hstore, -, -, hsteps, -, hevents, htold⟩ := hstate
  exact ⟨houtcome, hheap, hstore, hevents, hsteps, htold⟩

/-- A list, a variable that is not used, and the script that adds to the list. -/
def collectingMore : Document :=
  ⟨⟨"spare", "", "", true, false⟩ :: collecting.declarations, collecting.entry, []⟩

/-- A machine for it that has not run yet. -/
def collectingMoreMachine : Machine Unit :=
  create collectingMore ⟨.silent, 10, 10⟩ [("data", Blocks.dataTable)] ()

/-- The variable is the first one in the end, and nothing else is different. -/
theorem unused_variables_do_not_interfere_collecting :
    collectingMoreMachine.run.1 = collectingMachine.run.1 ∧
    collectingMoreMachine.run.2.state.heap
      = collectingMachine.run.2.state.heap.withUnset 0 "spare" ∧
    collectingMoreMachine.run.2.state.store = collectingMachine.run.2.state.store ∧
    collectingMoreMachine.observed
      = collectingMachine.observed.map (·.withUnset 0 "spare") := by
  have hnominal : collectingMachine.state.registry.all Action.isNominal = true :=
    Registry.all_isNominal (by decide)
  have hfields : ∀ b ∈ Chain.blocks collecting.entry, ∀ f, .field f ∈ b.members →
      f.value ≠ "spare" := by
    simp [collecting, Chain.blocks_cons, Block.members, Member.chain]
  have hm : collectingMachine = create ⟨[] ++ collecting.declarations, collecting.entry, []⟩
      ⟨.silent, 10, 10⟩ [("data", Blocks.dataTable)] () := rfl
  have hm' : collectingMoreMachine = create
      ⟨[] ++ ⟨"spare", "", "", true, false⟩ :: collecting.declarations, collecting.entry, []⟩
      ⟨.silent, 10, 10⟩ [("data", Blocks.dataTable)] () := rfl
  obtain ⟨houtcome, hheap, hstore, -, -, htold⟩ :=
    unused_variables_do_not_interfere hm hm' (by decide) hfields hnominal
  exact ⟨houtcome, hheap, hstore, htold⟩

end Machine

end Blockwork
