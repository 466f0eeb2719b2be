import Blockwork.Proofs.Machine.Closure
import Blockwork.Proofs.Machine.Routing

/-!
# Histories of a machine

A host may ask a machine for more than one run: it may execute single chains, evaluate slots, set
variables, extend lists, change the modules, route opcodes and check the document, in any order. A
**history** is a list of such requests, and `Machine.after` is the machine it leaves.

`Machine.Reached` says that some history from a new machine leaves the machine. The document never
changes, and the registry stays coherent (`Reached.coherent`), because nothing but a registration
or a removal touches its modules and everything else at most keeps a route more. The latter is
`Run.Routes`, a closed property of computations that also says which routing errors they can end
with.
-/

namespace Blockwork

/-- What can be asked of a machine. -/
inductive Request where
  /-- A run of the whole document. -/
  | run
  | execute (chain : Chain)
  /-- The value of a slot with this content. -/
  | evaluate (content : Content)
  /-- Sets a variable. -/
  | assign (name : String) (v : Value)
  /-- Adds an item to a list. -/
  | append (id : ListId) (item : Value)
  | register (name : String) (table : Table Action)
  | unregister (name : String)
  | route (opcode : String)
  /-- Routes every opcode of the document. -/
  | check

/-- Only registering and removing change the modules. -/
def Request.KeepsModules : Request → Prop
  | .register _ _ => False
  | .unregister _ => False
  | _ => True

namespace Machine

variable {σ : Type}

/-- The value of what a slot holds: a chain is executed, a literal is taken as it is written. -/
def evaluate : Content → Job σ Value
  | .block chain => execute chain
  | .shadow s => .done (.text s.field.value)

/-- Puts another registry in place. -/
def setRegistry (m : Machine σ) (r : Registry Action) : Machine σ :=
  { m with state := { m.state with registry := r } }

/-- The machine after one request. -/
def serve (m : Machine σ) : Request → Machine σ
  | .run => m.run.2
  | .execute chain => (m.perform (execute chain)).2
  | .evaluate content => (m.perform (evaluate content)).2
  | .assign name v => (m.perform (Run.assign name v)).2
  | .append id item => (m.perform (Run.updateList id (·.push item))).2
  | .register name table => m.setRegistry (m.state.registry.register name table)
  | .unregister name => m.setRegistry (m.state.registry.unregister name)
  | .route opcode => (m.perform (routed opcode)).2
  | .check => m.check.2

/-- The machine that a history leaves. -/
def after (m : Machine σ) (history : List Request) : Machine σ := history.foldl serve m

/-- A machine for a document, with any setup and any modules, that some history leaves. -/
def Reached (document : Document) (m : Machine σ) : Prop :=
  ∃ (setup : Setup σ) (modules : List (String × Table Action)) (memory : σ)
    (history : List Request), m = (create document setup modules memory).after history

@[simp] theorem serve_document (m : Machine σ) (r : Request) :
    (m.serve r).document = m.document := by
  cases r <;> rfl

@[simp] theorem after_document (m : Machine σ) (history : List Request) :
    (m.after history).document = m.document := by
  induction history generalizing m with
  | nil => rfl
  | cons r history ih => exact (ih (m.serve r)).trans (m.serve_document r)

end Machine

/-! ### Routing errors of an outcome -/

/-- The routing error at the heart of a fault. -/
def Fault.routingError? : Fault → Option RoutingError
  | .routing e => some e
  | .through _ cause => cause.routingError?
  | .execution _ _ _ cause => cause.routingError?
  | _ => none

/-- The routing error with which a computation ended. -/
def Outcome.routingError? {β : Type} : Outcome β → Option RoutingError
  | .fault f => f.routingError?
  | _ => none

theorem Fault.routingError?_of_isOwn {f : Fault} (h : f.isOwn = true) :
    f.routingError? = none := by
  induction f with
  -- a fault that is handed through is judged by its cause
  | through place cause ih => exact ih h
  | routing e => exact absurd h (by simp [Fault.isOwn])
  | execution module function id cause _ => exact absurd h (by simp [Fault.isOwn])
  | _ => rfl

theorem Fault.routingError?_wrap (module function id : String) (f : Fault) :
    (f.wrap module function id).routingError? = f.routingError? := by
  unfold Fault.wrap
  split <;> rfl

/-! ### The functions of a registry -/

/-- The standard modules and the console. -/
def Blocks.standardAndConsole : List (String × Table Action) :=
  standard ++ [("console", consoleTable)]

namespace Registry

/-- Whether every function that is listed passes a test. -/
def all {α : Type} (p : α → Bool) (r : Registry α) : Bool :=
  r.modules.all fun m => m.2.all fun f => f.2.all p

/-- The functions of some modules by opcode. -/
def functions {α : Type} (modules : List (String × Table α)) : List (String × α) :=
  modules.flatMap fun m => m.2.filterMap fun f => f.2.map fun a => (m.1 ++ "_" ++ f.1, a)

/-- A function that an opcode is routed to is one of those listed. -/
theorem Coherent.exists_listed {α : Type} {r : Registry α} (h : r.Coherent) {opcode : String}
    {route : Route α} (hroute : (r.resolve opcode).1 = .ok route) :
    ∃ m ∈ r.modules, ∃ f ∈ m.2, f.2 = some route.handler ∧ opcode = m.1 ++ "_" ++ f.1 := by
  have hmeaning := h.meaning_resolve opcode
  rw [hroute] at hmeaning
  cases hmeaning with
  | @found module function functions handler hclaims hdir hfun =>
    -- the module is in the registry, and the function in its table
    obtain ⟨table, htable, rfl⟩ := Option.map_eq_some_iff.1 hdir
    obtain ⟨m, hm, rfl⟩ := Option.map_eq_some_iff.1 htable
    obtain ⟨f, hf, hhandler⟩ := Option.bind_eq_some_iff.1 hfun
    have hmodule : m.1 = module := by simpa using List.find?_some hm
    have hfunction : f.1 = function := by simpa using List.find?_some hf
    refine ⟨m, List.mem_of_find?_eq_some hm, f, List.mem_of_find?_eq_some hf, hhandler, ?_⟩
    rw [hmodule, hfunction]
    exact hclaims.split

theorem Coherent.mem_functions {α : Type} {r : Registry α} (h : r.Coherent) {opcode : String}
    {route : Route α} (hroute : (r.resolve opcode).1 = .ok route) :
    (opcode, route.handler) ∈ functions r.modules := by
  obtain ⟨m, hm, f, hf, hhandler, rfl⟩ := h.exists_listed hroute
  exact List.mem_flatMap.2 ⟨m, hm, List.mem_filterMap.2 ⟨f, hf, by rw [hhandler]; rfl⟩⟩

theorem Coherent.handler_of_all {α : Type} {r : Registry α} (h : r.Coherent) {p : α → Bool}
    (hall : r.all p = true) {opcode : String} {route : Route α}
    (hroute : (r.resolve opcode).1 = .ok route) : p route.handler = true := by
  obtain ⟨m, hm, f, hf, hhandler, -⟩ := h.exists_listed hroute
  have hlisted := List.all_eq_true.1 (List.all_eq_true.1 hall m hm) f hf
  rw [hhandler] at hlisted
  exact hlisted

/-- **An opcode means what it means with the standard modules**, if it has a route at all. Other
modules may be there, under any names that do not claim the opcode. -/
def Genuine (r : Registry Action) (opcode : String) : Prop :=
  ∀ route, (r.resolve opcode).1 = .ok route →
    (opcode, route.handler) ∈ functions Blocks.standard

/-- The modules that a host adds have no functions under the opcodes of the standard modules. -/
theorem mem_standard_of_mem_available {f : String × Action}
    (hf : f ∈ functions Blocks.available)
    (hopcode : f.1 ∈ (functions Blocks.standard).map (·.1)) : f ∈ functions Blocks.standard := by
  have hadded : ∀ f ∈ functions [("probe", Blocks.probeTable), ("console", Blocks.consoleTable)],
      f.1 ∉ (functions Blocks.standard).map (·.1) := by decide +kernel
  unfold functions Blocks.available at hf
  rw [List.flatMap_append] at hf
  rcases List.mem_append.1 hf with hstandard | hrest
  · exact hstandard
  · exact absurd hopcode (hadded f hrest)

theorem Coherent.genuine {r : Registry Action} (h : r.Coherent)
    (hmodules : ∀ m ∈ r.modules, m ∈ Blocks.available) {opcode : String}
    (hopcode : opcode ∈ (functions Blocks.standard).map (·.1)) : r.Genuine opcode := by
  intro route hroute
  obtain ⟨m, hm, hf⟩ := List.mem_flatMap.1 (h.mem_functions hroute)
  exact mem_standard_of_mem_available (List.mem_flatMap.2 ⟨m, hmodules m hm, hf⟩) hopcode

end Registry

/-! ### What computations do to the registry -/

/-- A registry with given modules that is in step with them. -/
def Registry.Holds {α : Type} (modules : List (String × Table α)) (r : Registry α) : Prop :=
  r.Coherent ∧ r.modules = modules

theorem Registry.Holds.resolve {α : Type} {modules : List (String × Table α)} {r : Registry α}
    (h : r.Holds modules) (opcode : String) : (r.resolve opcode).2.Holds modules :=
  ⟨h.1.resolve opcode, (r.resolve_snd_modules opcode).trans h.2⟩

/-- Registries with the same modules give the same answers, whatever routes they keep. -/
theorem Registry.Holds.resolve_fst_eq {α : Type} {modules : List (String × Table α)}
    {r s : Registry α} (hr : r.Holds modules) (hs : s.Holds modules) (opcode : String) :
    (r.resolve opcode).1 = (s.resolve opcode).1 := by
  have hmodules : r.modules = s.modules := hr.2.trans hs.2.symm
  -- fresh look-ups see the modules and their sorted names only
  rw [hr.1.resolve_fst, hs.1.resolve_fst, hr.1.sorted, hs.1.sorted, hmodules]
  exact Registry.route_congr hmodules opcode _

/-- **Modules are kept, and routing errors are allowed ones.** From a registry with the given
modules a computation leaves such a registry, and if it ends with a routing error, that error is
allowed. -/
def Run.Routes {σ : Type} (modules : List (String × Table Action))
    (Allowed : RoutingError → Prop) (β : Type) (x : Job σ β) : Prop :=
  ∀ (setup : Setup σ) (s : State Action σ), s.registry.Holds modules →
    (x setup s).2.registry.Holds modules ∧
      ∀ e, (x setup s).1.routingError? = some e → Allowed e

section Routes

variable {σ : Type} {modules : List (String × Table Action)} {Allowed : RoutingError → Prop}

/-- Computations that leave the registry alone and end without a routing error. -/
theorem Run.routes_of_eq {β : Type} {x : Job σ β}
    (hstate : ∀ setup s, (x setup s).2.registry = s.registry)
    (herror : ∀ setup s, (x setup s).1.routingError? = none) : Run.Routes modules Allowed β x := by
  intro setup s hs
  refine ⟨(hstate setup s).symm ▸ hs, fun e he => ?_⟩
  rw [herror setup s] at he
  exact absurd he (by simp)

theorem Run.closed_routes : Run.Closed (Run.Routes (σ := σ) modules Allowed) where
  read view := Run.routes_of_eq (fun _ _ => rfl) fun _ _ => rfl
  andThen := by
    intro β γ x f hx hf setup s hs
    obtain ⟨hregistry, herror⟩ := hx setup s hs
    rw [Run.bind_apply]
    -- a fault of the first part is the fault of the whole
    rcases hout : x setup s with ⟨_ | _ | _, s'⟩ <;> rw [hout] at hregistry herror
    · exact hf _ setup s' hregistry
    · exact ⟨hregistry, herror⟩
    · exact ⟨hregistry, herror⟩
  fail h := Run.routes_of_eq (fun _ _ => rfl) fun _ _ => Fault.routingError?_of_isOwn h
  exhausted := Run.routes_of_eq (fun _ _ => rfl) fun _ _ => rfl
  raise text := Run.routes_of_eq (fun _ _ => rfl) fun _ _ => rfl
  breakOff text := Run.routes_of_eq (fun _ _ => rfl) fun _ _ => rfl
  attempt := by
    intro β x hx setup s hs
    obtain ⟨hregistry, -⟩ := hx setup s hs
    unfold Run.attempt
    -- a fault that is handed on as a value is no fault any more
    rcases hout : x setup s with ⟨_ | _ | _, s'⟩ <;> rw [hout] at hregistry <;>
      exact ⟨hregistry, fun e he => absurd he (by simp [Outcome.routingError?])⟩
  through := by
    intro β x place hx setup s hs
    obtain ⟨hregistry, herror⟩ := hx setup s hs
    unfold Run.mapFault
    rcases hout : x setup s with ⟨_ | _ | _, s'⟩ <;> rw [hout] at hregistry herror <;>
      exact ⟨hregistry, herror⟩
  assign name v := by
    refine Run.routes_of_eq (fun setup s => ?_) fun setup s => ?_ <;>
      rw [Run.assign_apply] <;> cases s.heap.set? name v <;> rfl
  newList items := Run.routes_of_eq (fun _ _ => rfl) fun _ _ => rfl
  updateList id f := Run.routes_of_eq (fun _ _ => rfl) fun _ _ => rfl
  emit e := Run.routes_of_eq (fun _ _ => rfl) fun _ _ => rfl
  count := Run.routes_of_eq (fun _ _ => rfl) fun _ _ => rfl

/-- Routing an opcode keeps at most one route more. -/
theorem Machine.routes_routed {opcode : String}
    (h : ∀ r : Registry Action, r.Holds modules → ∀ e, (r.resolve opcode).1 = .error e →
      Allowed e) : Run.Routes modules Allowed (Route Action) (routed (σ := σ) opcode) := by
  intro setup s hs
  have hregistry := hs.resolve opcode
  have herror := h s.registry hs
  unfold Machine.routed
  rcases hfound : s.registry.resolve opcode with ⟨e | route, registry⟩ <;>
    rw [hfound] at hregistry herror
  · refine ⟨hregistry, fun e' he' => herror e' ?_⟩
    obtain rfl : e = e' := Option.some.inj he'
    rfl
  · exact ⟨hregistry, fun e' he' => absurd he' (by simp [Outcome.routingError?])⟩

theorem Machine.routes_nested (id : String) {x : Job σ Value}
    (hx : Run.Routes modules Allowed Value x) :
    Run.Routes modules Allowed Value (nested id x) := by
  intro setup s hs
  unfold Machine.nested
  split
  · -- the depth limit is a fault, but not one of routing
    exact ⟨hs, fun e he => absurd he (by simp [Outcome.routingError?, Fault.routingError?])⟩
  · exact hx setup { s with depth := s.depth + 1 } hs

theorem Machine.routes_dispatch {opcode : String} (id : String)
    {slots : List (Slot Action σ)}
    (h : ∀ r : Registry Action, r.Holds modules → ∀ e, (r.resolve opcode).1 = .error e →
      Allowed e)
    (hslots : ∀ slot ∈ slots, slot.Holds (Run.Routes modules Allowed)) :
    Run.Routes modules Allowed Value (dispatch opcode id slots) := by
  have hclosed : Run.Closed (Run.Routes (σ := σ) modules Allowed) := Run.closed_routes
  refine hclosed.andThen (routes_routed h) fun route => ?_
  have hperform := Action.perform_closed hclosed
    (s := ⟨opcode, id, route.module, route.function, slots⟩) hslots route.handler
  refine hclosed.andThen ?_ fun result => hclosed.andThen ?_ fun _ => hclosed.done result
  · -- naming the block leaves the routing error inside the fault as it is
    intro setup s hs
    obtain ⟨hregistry, herror⟩ := hperform setup s hs
    unfold Run.mapFault
    rcases hout : route.handler.perform ⟨opcode, id, route.module, route.function, slots⟩ setup s
      with ⟨v | f | _, s'⟩ <;> rw [hout] at hregistry herror
    · exact ⟨hregistry, herror⟩
    · refine ⟨hregistry, fun e he => herror e ?_⟩
      rw [← he]
      exact (Fault.routingError?_wrap route.module route.function id f).symm
    · exact ⟨hregistry, herror⟩
  · exact Run.routes_of_eq (fun _ _ => rfl) fun _ _ => rfl

/-- **Executing a chain** ends with no routing errors but those of its opcodes. -/
theorem Machine.routes_execute {c : Chain}
    (h : ∀ b ∈ Chain.blocks c, ∀ r : Registry Action, r.Holds modules →
      ∀ e, (r.resolve b.opcode).1 = .error e → Allowed e) :
    Run.Routes modules Allowed Value (execute (σ := σ) c) :=
  execute_closed Run.closed_routes (fun id _ hx => routes_nested id hx)
    (fun _ id _ hgood hslots => routes_dispatch id hgood hslots) c h

end Routes

/-! ### Checking opcodes -/

/-- The error of an opcode that has no route. -/
def Registry.failure? {α : Type} (r : Registry α) (opcode : String) : Option RoutingError :=
  match (r.resolve opcode).1 with
  | .ok _ => none
  | .error e => some e

theorem Registry.failure?_eq_some_iff {α : Type} {r : Registry α} {opcode : String}
    {e : RoutingError} : r.failure? opcode = some e ↔ (r.resolve opcode).1 = .error e := by
  unfold Registry.failure?
  cases (r.resolve opcode).1 <;> simp

/-! ### The registry along a history -/

namespace Machine

variable {σ : Type}

theorem checkOpcodes_holds {modules : List (String × Table Action)} (opcodes : List String)
    (setup : Setup σ) (s : State Action σ) (hs : s.registry.Holds modules) :
    ∃ s', checkOpcodes opcodes setup s
        = (.value (opcodes.filterMap s.registry.failure?), s') ∧ s'.registry.Holds modules := by
  induction opcodes generalizing s with
  | nil => exact ⟨s, rfl, hs⟩
  | cons opcode opcodes ih =>
    obtain ⟨s', hrest, hs'⟩ := ih { s with registry := (s.registry.resolve opcode).2 }
      (hs.resolve opcode)
    -- the route that was kept on the way does not change the later answers
    have hsame : (s.registry.resolve opcode).2.failure? = s.registry.failure? := by
      funext other
      rw [Registry.failure?, (hs.resolve opcode).resolve_fst_eq hs other]
      rfl
    refine ⟨s', ?_, hs'⟩
    cases hfound : (s.registry.resolve opcode).1 with
    | ok route =>
      have hnone : s.registry.failure? opcode = none := by
        rw [Registry.failure?, hfound]
      simp only [checkOpcodes, hrest, hsame, hfound, List.filterMap_cons, hnone]
    | error e =>
      have hsome : s.registry.failure? opcode = some e :=
        Registry.failure?_eq_some_iff.2 hfound
      simp only [checkOpcodes, hrest, hsame, hfound, List.filterMap_cons, hsome]

/-- A computation that routes leaves a registry with the same modules. -/
theorem perform_holds {β : Type} {m : Machine σ} {modules : List (String × Table Action)}
    {Allowed : RoutingError → Prop} {job : Job σ β} (hjob : Run.Routes modules Allowed β job)
    (hm : m.state.registry.Holds modules) :
    (m.perform job).2.state.registry.Holds modules :=
  (hjob m.setup m.state hm).1

theorem routes_evaluate {modules : List (String × Table Action)}
    {Allowed : RoutingError → Prop} {content : Content}
    (h : ∀ c, content = .block c → Run.Routes modules Allowed Value (execute (σ := σ) c)) :
    Run.Routes modules Allowed Value (evaluate (σ := σ) content) := by
  cases content with
  | block c => exact h c rfl
  | shadow s => exact Run.closed_routes.done _

theorem routes_program {modules : List (String × Table Action)}
    {Allowed : RoutingError → Prop} {document : Document}
    (h : Run.Routes modules Allowed Value (execute (σ := σ) document.entry)) :
    Run.Routes modules Allowed Value (program (σ := σ) document) :=
  Run.closed_routes.andThen (Run.routes_of_eq (fun _ _ => rfl) fun _ _ => rfl) fun _ => h

/-- **One request** that keeps the modules keeps the registry in step with them. -/
theorem serve_holds {m : Machine σ} {modules : List (String × Table Action)}
    (hm : m.state.registry.Holds modules) {r : Request} (hr : r.KeepsModules) :
    (m.serve r).state.registry.Holds modules := by
  have hclosed : Run.Closed (Run.Routes (σ := σ) modules fun _ => True) := Run.closed_routes
  have hexecute : ∀ c : Chain,
      Run.Routes modules (fun _ => True) Value (execute (σ := σ) c) :=
    fun c => routes_execute fun _ _ _ _ _ _ => trivial
  cases r with
  | run => exact perform_holds (routes_program (hexecute _)) hm
  | execute c => exact perform_holds (hexecute c) hm
  | evaluate content => exact perform_holds (routes_evaluate fun c _ => hexecute c) hm
  | assign name v => exact perform_holds (hclosed.assign name v) hm
  | append id item => exact perform_holds (hclosed.updateList id _) hm
  -- these two change the modules
  | register name table => exact hr.elim
  | unregister name => exact hr.elim
  | route opcode =>
    have hrouted : Run.Routes modules (fun _ => True) (Route Action) (routed (σ := σ) opcode) :=
      routes_routed fun _ _ _ _ => trivial
    exact perform_holds hrouted hm
  | check =>
    obtain ⟨s', hcheck, hs'⟩ :=
      checkOpcodes_holds (Chain.opcodes m.document.entry) m.setup m.state hm
    rw [serve, check, perform, hcheck]
    exact hs'

theorem after_holds {m : Machine σ} {modules : List (String × Table Action)}
    (hm : m.state.registry.Holds modules) {history : List Request}
    (h : ∀ r ∈ history, r.KeepsModules) : (m.after history).state.registry.Holds modules := by
  induction history generalizing m with
  | nil => exact hm
  | cons r history ih =>
    exact ih (serve_holds hm (h r List.mem_cons_self))
      fun r' hr' => h r' (List.mem_cons_of_mem r hr')

/-- **The registry stays coherent along every history**, of whatever requests. -/
theorem coherent_registry_after {m : Machine σ} (hm : m.state.registry.Coherent)
    (history : List Request) : (m.after history).state.registry.Coherent := by
  induction history generalizing m with
  | nil => exact hm
  | cons r history ih =>
    refine ih (m := m.serve r) ?_
    -- requests that keep the modules are covered by `serve_holds`; two are left
    by_cases hr : r.KeepsModules
    · exact (serve_holds ⟨hm, rfl⟩ hr).1
    · cases r with
      | register name table => exact hm.register name table
      | unregister name => exact hm.unregister name
      | _ => exact absurd trivial hr

theorem coherent_registry_create (document : Document) (setup : Setup σ)
    (modules : List (String × Table Action)) (memory : σ) :
    (create document setup modules memory).state.registry.Coherent := by
  -- the modules are registered one after the other
  exact List.foldlRecOn modules _ Registry.Coherent.empty fun r hr m _ => hr.register m.1 m.2

/-- A machine with one module has nothing to sort. -/
theorem registry_create_singleton (document : Document) (setup : Setup σ) (name : String)
    (table : Table Action) (memory : σ) :
    (create document setup [(name, table)] memory).state.registry
      = ⟨[(name, table)], [name], []⟩ := by
  simp [create, Registry.register, Registry.ofModules, Registry.empty]

theorem Reached.document_eq {document : Document} {m : Machine σ} (h : m.Reached document) :
    m.document = document := by
  obtain ⟨setup, modules, memory, history, rfl⟩ := h
  exact after_document _ history

theorem Reached.coherent {document : Document} {m : Machine σ} (h : m.Reached document) :
    m.state.registry.Coherent := by
  obtain ⟨setup, modules, memory, history, rfl⟩ := h
  exact coherent_registry_after (coherent_registry_create document setup modules memory) history

end Machine

end Blockwork
