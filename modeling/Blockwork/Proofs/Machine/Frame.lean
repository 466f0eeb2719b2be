import Blockwork.Proofs.Machine.History

/-!
# What every computation leaves as it was

Two things survive whatever a machine does, on every way out: the depth, because each chain that is
entered is left again, and the names of the variables, because assigning replaces a value where its
name is bound and is refused anywhere else. `State.Frame` says so of two states, and `Run.Tidy` of
a computation.

`Tidy` is a closed property, so it holds of every action, and entering a chain and dispatching a
block keep it (`Machine.tidy_execute`). A whole history therefore leaves a machine at depth zero
with the names its document declares (`Machine.Reached.atRest`).
-/

namespace Blockwork

/-! ### The names of a heap -/

namespace Heap

@[simp] theorem names_put (h : Heap) (name : String) (v : Value) :
    (h.put name v).names = h.names := by
  unfold put names
  rw [List.map_map]
  refine List.map_congr_left fun b _ => ?_
  -- the binding that is replaced keeps its name
  by_cases hb : b.1 = name <;> simp [hb]

theorem contains_iff {h : Heap} {name : String} : h.contains name = true ↔ name ∈ h.names := by
  unfold contains names
  rw [List.any_eq_true, List.mem_map]
  simp

theorem isSome_get?_iff {h : Heap} {name : String} :
    (h.get? name).isSome = true ↔ name ∈ h.names := by
  unfold get? names
  rw [Option.isSome_map, List.find?_isSome, List.mem_map]
  simp

theorem get?_eq_none {h : Heap} {name : String} (hname : name ∉ h.names) :
    h.get? name = none := by
  rw [← Option.not_isSome_iff_eq_none, isSome_get?_iff]
  exact hname

theorem set?_eq_none {h : Heap} {name : String} (hname : name ∉ h.names) (v : Value) :
    h.set? name v = none := by
  unfold set?
  rw [if_neg (fun hc => hname (contains_iff.1 hc))]

theorem contains_of_get? {h : Heap} {name : String} {v : Value} (hget : h.get? name = some v) :
    h.contains name = true := by
  rw [contains_iff, ← isSome_get?_iff, hget]
  rfl

/-- What is put in a place is found there under the name that was there before. -/
theorem find?_put (h : Heap) (name x : String) (v : Value) :
    (h.put name v).bindings.find? (fun b => b.1 == x)
      = (h.bindings.find? fun b => b.1 == x).map
          fun b => if b.1 == name then (name, v) else b := by
  unfold put
  rw [List.find?_map]
  congr 2
  funext b
  by_cases hb : b.1 = name <;> simp [hb]

/-- What is assigned is what is read. -/
theorem get?_put_self {h : Heap} {name : String} (hname : h.contains name = true) (v : Value) :
    (h.put name v).get? name = some v := by
  unfold get?
  rw [find?_put]
  obtain ⟨b, hb, hbname⟩ := List.any_eq_true.1 hname
  cases hfound : h.bindings.find? fun b => b.1 == name with
  | none => exact absurd hbname (List.find?_eq_none.1 hfound b hb)
  | some c =>
    have hc : c.1 = name := by simpa using List.find?_some hfound
    simp [hc]

/-- Other variables keep their values. -/
theorem get?_put_of_ne (h : Heap) {name x : String} (hx : x ≠ name) (v : Value) :
    (h.put name v).get? x = h.get? x := by
  unfold get?
  rw [find?_put]
  cases hfound : h.bindings.find? fun b => b.1 == x with
  | none => rfl
  | some b =>
    have hb : b.1 = x := by simpa using List.find?_some hfound
    have hother : ¬ (b.1 == name) = true := by simpa [hb] using hx
    rw [Option.map_some, if_neg hother]

/-- Assigning changes no names. -/
theorem names_of_set? {h h' : Heap} {name : String} {v : Value} (hset : h.set? name v = some h') :
    h'.names = h.names := by
  unfold set? at hset
  split at hset
  · obtain rfl := Option.some.inj hset
    exact names_put h name v
  · exact absurd hset (by simp)

end Heap

/-! ### Dispatching a block, at a state -/

namespace Machine

variable {σ : Type}

/-- A block as the handler sees it to which it is routed. -/
def scopeOf (b : Block) (route : Route Action) : Scope Action σ :=
  ⟨b.opcode, b.id, route.module, route.function, slotsOf b.members⟩

/-- The state after routing an opcode: at most one route more is kept. -/
def afterRouting (s : State Action σ) (opcode : String) : State Action σ :=
  { s with registry := (s.registry.resolve opcode).2 }

theorem routed_apply (opcode : String) (setup : Setup σ) (s : State Action σ) :
    routed opcode setup s
      = match (s.registry.resolve opcode).1 with
        | .ok route => (.value route, afterRouting s opcode)
        | .error e => (.fault (.routing e), afterRouting s opcode) := by
  unfold routed afterRouting
  rcases s.registry.resolve opcode with ⟨e | route, registry⟩ <;> rfl

/-- What an action does in a scope, and the completion of the block. -/
def completing (scope : Scope Action σ) (a : Action) : Job σ Value := do
  let result ← (a.perform scope).mapFault (.wrap scope.module scope.function scope.id)
  completed scope result
  return result

theorem dispatch_apply (opcode id : String) (slots : List (Slot Action σ)) (setup : Setup σ)
    (s : State Action σ) :
    dispatch opcode id slots setup s
      = match (s.registry.resolve opcode).1 with
        | .ok route => completing ⟨opcode, id, route.module, route.function, slots⟩ route.handler
            setup (afterRouting s opcode)
        | .error e => (.fault (.routing e), afterRouting s opcode) := by
  unfold dispatch
  rw [Run.bind_apply, routed_apply]
  cases (s.registry.resolve opcode).1 <;> rfl

/-- What follows the routing of a block: its handler, and the completion. -/
def handled (b : Block) (route : Route Action) : Job σ Value := do
  let result ← (route.handler.perform (scopeOf b route)).mapFault
    (.wrap route.module route.function b.id)
  completed (scopeOf b route) result
  return result

theorem executeBlock_apply (b : Block) (setup : Setup σ) (s : State Action σ) :
    executeBlock b setup s
      = match (s.registry.resolve b.opcode).1 with
        | .ok route => handled b route setup (afterRouting s b.opcode)
        | .error e => (.fault (.routing e), afterRouting s b.opcode) := by
  obtain ⟨opcode, id, members⟩ := b
  exact dispatch_apply opcode id (slotsOf members) setup s

variable {b : Block} {route : Route Action} {setup : Setup σ} {s : State Action σ}

/-- A block is completed after its handler ends with a value. -/
theorem handled_value_iff {v : Value} {s' : State Action σ} :
    handled b route setup s = (.value v, s') ↔
      ∃ m, route.handler.perform (scopeOf b route) setup s = (.value v, m) ∧
        s' = (completed (scopeOf b route) v setup m).2 := by
  unfold handled
  rw [Run.bind_apply]
  unfold Run.mapFault
  rcases route.handler.perform (scopeOf b route) setup s with ⟨w | cause | _, m⟩
  · -- the completion itself cannot fail
    have hcompleted : (do completed (scopeOf b route) w; return w : Job σ Value) setup m
        = (.value w, (completed (scopeOf b route) w setup m).2) := rfl
    constructor
    · intro h
      obtain ⟨rfl, rfl⟩ : w = v ∧ (completed (scopeOf b route) w setup m).2 = s' := by
        simpa [hcompleted] using h
      exact ⟨m, rfl, rfl⟩
    · rintro ⟨m', hperform, rfl⟩
      obtain ⟨rfl, rfl⟩ : w = v ∧ m = m' := by simpa using hperform
      exact hcompleted
  · simp
  · simp

/-- A block fails when its handler does, and in the same state. -/
theorem handled_fault_iff {f : Fault} {s' : State Action σ} :
    handled b route setup s = (.fault f, s') ↔
      ∃ cause, route.handler.perform (scopeOf b route) setup s = (.fault cause, s') ∧
        f = cause.wrap route.module route.function b.id := by
  unfold handled
  rw [Run.bind_apply]
  unfold Run.mapFault
  rcases route.handler.perform (scopeOf b route) setup s with ⟨w | cause | _, m⟩
  · have hcompleted : (do completed (scopeOf b route) w; return w : Job σ Value) setup m
        = (.value w, (completed (scopeOf b route) w setup m).2) := rfl
    simp [hcompleted]
  · simp [eq_comm, and_comm]
  · simp

end Machine

/-! ### Tidy computations -/

/-- The second state has the depth and the names of the first. -/
structure State.Frame {α σ : Type} (s s' : State α σ) : Prop where
  depth : s'.depth = s.depth
  names : s'.heap.names = s.heap.names

namespace State.Frame

variable {α σ : Type} {s s' s'' : State α σ}

theorem refl (s : State α σ) : s.Frame s := ⟨rfl, rfl⟩

theorem trans (h : s.Frame s') (h' : s'.Frame s'') : s.Frame s'' :=
  ⟨h'.depth.trans h.depth, h'.names.trans h.names⟩

end State.Frame

/-- **A tidy computation** leaves the depth and the names as they were, whether it ends with a
value, with a fault or not at all. -/
def Run.Tidy {α σ : Type} (β : Type) (x : Run α σ β) : Prop :=
  ∀ (setup : Setup σ) (s : State α σ), s.Frame (x setup s).2

section Tidy

variable {α σ : Type}

theorem Run.drift_frame : Run.Drift fun (_ : Setup σ) (s s' : State α σ) => s.Frame s' where
  refl _ s := .refl s
  trans h h' := h.trans h'
  assign _ _ _ _ _ hset := ⟨rfl, Heap.names_of_set? hset⟩
  store _ _ _ := ⟨rfl, rfl⟩
  events _ _ _ := ⟨rfl, rfl⟩
  counter _ _ _ := ⟨rfl, rfl⟩

theorem Run.closed_tidy : Run.Closed (Run.Tidy (α := α) (σ := σ)) := Run.drift_frame.closed

theorem Run.Tidy.mapFault {β : Type} {x : Run α σ β} (hx : Run.Tidy β x) (g : Fault → Fault) :
    Run.Tidy β (x.mapFault g) :=
  Run.Moves.mapFault hx g

namespace Machine

theorem tidy_routed (opcode : String) : Run.Tidy (Route Action) (routed (σ := σ) opcode) := by
  intro setup s
  rw [routed_apply]
  cases (s.registry.resolve opcode).1 <;> exact ⟨rfl, rfl⟩

/-- A chain is left on every way out, which takes back the step inwards. -/
theorem tidy_nested (id : String) {x : Job σ Value} (hx : Run.Tidy Value x) :
    Run.Tidy Value (nested id x) := by
  intro setup s
  unfold nested
  split
  · exact .refl s
  · have hframe := hx setup { s with depth := s.depth + 1 }
    refine ⟨?_, hframe.names⟩
    have hdepth : (x setup { s with depth := s.depth + 1 }).2.depth = s.depth + 1 := hframe.depth
    change (x setup { s with depth := s.depth + 1 }).2.depth - 1 = s.depth
    rw [hdepth, Nat.add_sub_cancel]

theorem tidy_dispatch (opcode id : String) {slots : List (Slot Action σ)}
    (hslots : ∀ slot ∈ slots, slot.Holds Run.Tidy) :
    Run.Tidy Value (dispatch opcode id slots) := by
  have hclosed : Run.Closed (Run.Tidy (α := Action) (σ := σ)) := Run.closed_tidy
  refine hclosed.andThen (tidy_routed opcode) fun route => ?_
  have hperform := Action.perform_closed hclosed
    (s := ⟨opcode, id, route.module, route.function, slots⟩) hslots route.handler
  refine hclosed.andThen (hperform.mapFault _) fun result => hclosed.andThen ?_ fun _ =>
    hclosed.done result
  exact fun _ _ => ⟨rfl, rfl⟩

/-- **Executing a chain is tidy**, whatever the modules, the limit and the state. -/
theorem tidy_execute (c : Chain) : Run.Tidy Value (execute (σ := σ) c) := by
  -- nothing is asked of the opcodes
  refine @execute_closed σ Run.Tidy (fun _ => True) Run.closed_tidy ?_ ?_ c fun _ _ => trivial
  · exact fun id _ hx => tidy_nested id hx
  · exact fun opcode id _ _ hslots => tidy_dispatch opcode id hslots

theorem tidy_slotsOf (members : List Member) :
    ∀ slot ∈ slotsOf (σ := σ) members, slot.Holds Run.Tidy := by
  rw [slotsOf_eq_map]
  intro slot hslot
  obtain ⟨m, -, rfl⟩ := List.mem_map.1 hslot
  exact holds_slotOf Run.closed_tidy.done (tidy_execute m.chain)

theorem tidy_evaluate (content : Content) : Run.Tidy Value (evaluate (σ := σ) content) := by
  cases content with
  | block c => exact tidy_execute c
  | shadow s => exact Run.closed_tidy.done _

theorem tidy_checkOpcodes (opcodes : List String) :
    Run.Tidy (List RoutingError) (checkOpcodes (σ := σ) opcodes) := by
  induction opcodes with
  | nil => exact Run.closed_tidy.done _
  | cons opcode opcodes ih =>
    intro setup s
    -- the routes that are kept on the way are in the registry only
    have hrest := ih setup { s with registry := (s.registry.resolve opcode).2 }
    unfold checkOpcodes
    rcases hout : checkOpcodes opcodes setup
        { s with registry := (s.registry.resolve opcode).2 } with ⟨errors | e | _, s'⟩ <;>
      rw [hout] at hrest <;> simp only [hout]
    · cases (s.registry.resolve opcode).1 <;> exact ⟨hrest.depth, hrest.names⟩
    · exact ⟨hrest.depth, hrest.names⟩
    · exact ⟨hrest.depth, hrest.names⟩

end Machine

end Tidy

/-! ### Machines -/

namespace Machine

variable {σ : Type}

/-- **At rest**: the machine is in no chain, and its variables are those of its document. -/
structure AtRest (m : Machine σ) : Prop where
  depth : m.state.depth = 0
  names : m.state.heap.names = (Heap.ofVariables m.document.declarations).names

theorem AtRest.perform {m : Machine σ} (h : m.AtRest) {β : Type} {job : Job σ β}
    (hjob : Run.Tidy β job) : (m.perform job).2.AtRest := by
  have hframe := hjob m.setup m.state
  exact ⟨hframe.depth.trans h.depth, hframe.names.trans h.names⟩

theorem atRest_create (document : Document) (setup : Setup σ)
    (modules : List (String × Table Action)) (memory : σ) :
    (create document setup modules memory).AtRest :=
  ⟨rfl, rfl⟩

/-- A run starts with fresh variables, which have the same names. -/
theorem AtRest.run {m : Machine σ} (h : m.AtRest) : m.run.2.AtRest := by
  have hframe := tidy_execute m.document.entry m.setup
    { m.state with heap := .ofVariables m.document.declarations, steps := 0 }
  exact ⟨hframe.depth.trans h.depth, hframe.names⟩

theorem AtRest.serve {m : Machine σ} (h : m.AtRest) (r : Request) : (m.serve r).AtRest := by
  cases r with
  | run => exact h.run
  | execute c => exact h.perform (tidy_execute c)
  | evaluate content => exact h.perform (tidy_evaluate content)
  | assign name v => exact h.perform (Run.closed_tidy.assign name v)
  | append id item => exact h.perform (Run.closed_tidy.updateList id _)
  | register name table => exact ⟨h.depth, h.names⟩
  | unregister name => exact ⟨h.depth, h.names⟩
  | route opcode => exact h.perform (tidy_routed opcode)
  | check => exact h.perform (tidy_checkOpcodes _)

/-- **A machine is at rest after every history.** -/
theorem AtRest.after {m : Machine σ} (h : m.AtRest) (history : List Request) :
    (m.after history).AtRest := by
  induction history generalizing m with
  | nil => exact h
  | cons r history ih => exact ih (h.serve r)

theorem Reached.atRest {document : Document} {m : Machine σ} (h : m.Reached document) :
    m.AtRest := by
  obtain ⟨setup, modules, memory, history, rfl⟩ := h
  exact (atRest_create document setup modules memory).after history

end Machine

end Blockwork
