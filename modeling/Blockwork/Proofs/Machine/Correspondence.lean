import Blockwork.Proofs.Machine.Coupling
import Blockwork.Proofs.Machine.Frame

/-!
# Machines that correspond

Two machines may do the same although their states differ: in the identities of lists, in the
routes that they keep, in the events from before, and in the memory of their observers. A
`Correspondence` fixes these differences and carries the two facts that keep them harmless: the
registries answer alike and stay related, and so do the memories when the observers are told of
the same block.

`Correspondence.Pairs` relates two computations that end alike from corresponding states.
`coupled_pairs` shows that it relates the parts of actions, and entering a chain, routing and
completing a block keep it, so a chain corresponds to itself (`pairs_execute`).
-/

namespace Blockwork

/-- What two observers are told of one block, up to the identities of lists. On the left there were
so many events before. -/
structure Observation.Alike (k told : Nat) (o o' : Observation) : Prop where
  id : o.id = o'.id
  opcode : o.opcode = o'.opcode
  module : o.module = o'.module
  function : o.function = o'.function
  depth : o.depth = o'.depth
  result : o.result = o'.result.shift k
  heap : o.heap = o'.heap.shift k
  store : o.store.Shifts k o'.store
  emitted : o.emitted = told + o'.emitted

/-- Without an offset, and with no events before, the two are told the same. -/
theorem Observation.Alike.eq {o o' : Observation} (h : o.Alike 0 0 o') : o = o' := by
  have hresult := h.result
  have hheap := h.heap
  have hemitted := h.emitted
  rw [Value.shift_zero] at hresult
  rw [Heap.shift_zero] at hheap
  rw [Nat.zero_add] at hemitted
  cases o
  congr
  · exact h.id
  · exact h.opcode
  · exact h.module
  · exact h.function
  · exact h.depth
  · exact Store.Shifts.zero_iff.1 h.store

/-- Two computations ended in the same way: with related values, with the same fault up to the
identities of lists, or both not at all. -/
inductive Outcome.Alike {β γ : Type} (k : Nat) (R : β → γ → Prop) :
    Outcome β → Outcome γ → Prop where
  | value {b : β} {c : γ} : R b c → Alike k R (.value b) (.value c)
  | fault (f : Fault) : Alike k R (.fault (f.shift k)) (.fault f)
  | unfinished : Alike k R .unfinished .unfinished

/-- Without an offset, computations with a value end in the same way only if they end the same. -/
theorem Outcome.Alike.eq {o o' : Outcome Value} (h : o.Alike 0 (Value.Shifted 0) o') : o = o' := by
  cases h with
  | value hvw => rw [hvw, Value.shift_zero]
  | fault f => rw [Fault.shift_zero]
  | unfinished => rfl

/-- The message of the fault with which a computation ended. -/
def Outcome.message? {β : Type} : Outcome β → Option String
  | .fault f => some f.message
  | _ => none

theorem Outcome.Alike.message?_eq {β γ : Type} {k : Nat} {R : β → γ → Prop} {o : Outcome β}
    {o' : Outcome γ} (h : o.Alike k R o') : o.message? = o'.message? := by
  cases h with
  | value _ => rfl
  | fault f => exact congrArg some (f.message_shift k)
  | unfinished => rfl

/-- **How the states of two machines may differ.** -/
structure Correspondence {σ τ : Type} (A : Setup σ) (B : Setup τ) where
  /-- By how much the identities on the left are ahead. -/
  offset : Nat
  /-- The events on the left from before. -/
  told : Array Event
  /-- Whether there are functions that look at the count of introspection blocks. -/
  counting : Prop
  /-- The registries. -/
  Routes : Registry Action → Registry Action → Prop
  /-- The memories of the observers. -/
  Recalls : σ → τ → Prop
  limit_eq : A.limit = B.limit
  budget_eq : A.budget = B.budget
  resolve_fst : ∀ {r r' : Registry Action}, Routes r r' → ∀ opcode,
    (r.resolve opcode).1 = (r'.resolve opcode).1
  resolve_snd : ∀ {r r' : Registry Action}, Routes r r' → ∀ opcode,
    Routes (r.resolve opcode).2 (r'.resolve opcode).2
  counts : ∀ {r r' : Registry Action}, Routes r r' → ∀ {opcode : String} {route : Route Action},
    (r'.resolve opcode).1 = .ok route → route.handler.counts = true → counting
  observe : ∀ {o o' : Observation} {μ : σ} {ν : τ}, o.Alike offset told.size o' → Recalls μ ν →
    Recalls (A.observer.observe o μ).1 (B.observer.observe o' ν).1

namespace Correspondence

variable {σ τ : Type} {A : Setup σ} {B : Setup τ} (K : Correspondence A B)

/-- States that correspond. -/
structure Alike (s : State Action σ) (t : State Action τ) : Prop
    extends s.Mirrors K.offset K.counting t where
  registry : K.Routes s.registry t.registry
  steps : s.steps = t.steps
  events : s.events = K.told ++ t.events
  memory : K.Recalls s.memory t.memory

/-- Ends that correspond: of the outcomes and of the states. -/
structure Ends {β γ : Type} (R : β → γ → Prop) (p : Outcome β × State Action σ)
    (q : Outcome γ × State Action τ) : Prop where
  outcome : p.1.Alike K.offset R q.1
  state : K.Alike p.2 q.2

/-- **Computations that end alike from corresponding states.** -/
def Pairs {β γ : Type} (R : β → γ → Prop) (x : Job σ β) (y : Job τ γ) : Prop :=
  ∀ s t, K.Alike s t → K.Ends R (x A s) (y B t)

variable {K}

theorem Pairs.andThen {β γ β' γ' : Type} {R : β → γ → Prop} {Q : β' → γ' → Prop}
    {x : Job σ β} {y : Job τ γ} {f : β → Job σ β'} {g : γ → Job τ γ'} (hxy : K.Pairs R x y)
    (hfg : ∀ b c, R b c → K.Pairs Q (f b) (g c)) : K.Pairs Q (x >>= f) (y >>= g) := by
  intro s t hst
  obtain ⟨hout, hstate⟩ := hxy s t hst
  rw [Run.bind_apply, Run.bind_apply]
  rcases hx : x A s with ⟨ox, s'⟩
  rcases hy : y B t with ⟨oy, t'⟩
  rw [hx, hy] at hout hstate
  -- only values are gone on with
  cases hout with
  | value hR => exact hfg _ _ hR s' t' hstate
  | fault f => exact ⟨.fault f, hstate⟩
  | unfinished => exact ⟨.unfinished, hstate⟩

/-- Changing the faults of both sides alike. -/
theorem Pairs.mapFault {β γ : Type} {R : β → γ → Prop} {x : Job σ β} {y : Job τ γ}
    (hxy : K.Pairs R x y) {g : Fault → Fault} (hg : ∀ f, g (f.shift K.offset)
      = (g f).shift K.offset) : K.Pairs R (x.mapFault g) (y.mapFault g) := by
  intro s t hst
  obtain ⟨hout, hstate⟩ := hxy s t hst
  unfold Run.mapFault
  rcases hx : x A s with ⟨ox, s'⟩
  rcases hy : y B t with ⟨oy, t'⟩
  rw [hx, hy] at hout hstate
  cases hout with
  | value hR => exact ⟨.value hR, hstate⟩
  | fault f =>
    refine ⟨?_, hstate⟩
    dsimp only
    rw [hg]
    exact .fault (g f)
  | unfinished => exact ⟨.unfinished, hstate⟩

theorem Pairs.attempt {β γ : Type} {R : β → γ → Prop} {x : Job σ β} {y : Job τ γ}
    (hxy : K.Pairs R x y) : K.Pairs (Attempted K.offset R) x.attempt y.attempt := by
  intro s t hst
  obtain ⟨hout, hstate⟩ := hxy s t hst
  unfold Run.attempt
  rcases hx : x A s with ⟨ox, s'⟩
  rcases hy : y B t with ⟨oy, t'⟩
  rw [hx, hy] at hout hstate
  cases hout with
  | value hR => exact ⟨.value (.ok hR), hstate⟩
  | fault f => exact ⟨.value (.error f), hstate⟩
  | unfinished => exact ⟨.unfinished, hstate⟩

theorem pairs_assign (name : String) (v : Value) :
    K.Pairs Eq (Run.assign name (v.shift K.offset)) (Run.assign name v) := by
  intro s t hst
  rw [Run.assign_apply, Run.assign_apply, hst.heap, Heap.set?_shift]
  cases t.heap.set? name v with
  | some heap => exact ⟨.value rfl, { hst with heap := rfl }⟩
  | none => exact ⟨.fault (.unknownVariable name), hst⟩

/-- **Corresponding machines treat the parts of actions alike.** -/
theorem coupled_pairs : Run.Coupled K.offset K.counting K.Pairs where
  done hR := fun _ _ hst => ⟨.value hR, hst⟩
  andThen hxy hfg := hxy.andThen hfg
  fail f := fun _ _ hst => ⟨.fault f, hst⟩
  exhausted := fun _ _ hst => ⟨.unfinished, hst⟩
  attempt hxy := hxy.attempt
  through place hxy := hxy.mapFault fun _ => rfl
  setup := fun _ _ hst => ⟨.value K.budget_eq, hst⟩
  state := fun _ _ hst => ⟨.value hst.toMirrors, hst⟩
  assign name v := pairs_assign name v
  newList items := by
    intro s t hst
    obtain ⟨hid, hstore⟩ := hst.store.create items
    exact ⟨.value hid, { hst with store := hstore }⟩
  updateList := by
    intro id f g hfg s t hst
    exact ⟨.value rfl, { hst with store := hst.store.update id hfg }⟩
  emit e := by
    intro s t hst
    refine ⟨.value rfl, { hst with events := ?_ }⟩
    -- the new event comes after those from before
    change s.events.push e = K.told ++ t.events.push e
    rw [hst.events, Array.push_append]
  count hc := fun _ _ hst =>
    ⟨.value rfl, { hst with counter := fun _ => congrArg (· + 1) (hst.counter hc) }⟩

/-! ### Blocks and chains -/

theorem pairs_routed (opcode : String) :
    K.Pairs (fun route route' => route = route' ∧ (route.handler.counts = true → K.counting))
      (Machine.routed opcode) (Machine.routed opcode) := by
  intro s t hst
  have hfound := K.resolve_fst hst.registry opcode
  have hkept : K.Alike (Machine.afterRouting s opcode) (Machine.afterRouting t opcode) :=
    { hst with registry := K.resolve_snd hst.registry opcode }
  rw [Machine.routed_apply, Machine.routed_apply, hfound]
  cases hroute : (t.registry.resolve opcode).1 with
  | ok route => exact ⟨.value ⟨rfl, K.counts hst.registry hroute⟩, hkept⟩
  | error e => exact ⟨.fault (.routing e), hkept⟩

/-- Entering is refused on both sides or on none, and the level is left on both. -/
theorem Pairs.nested {R : Value → Value → Prop} {x : Job σ Value} {y : Job τ Value}
    (hxy : K.Pairs R x y) (id : String) :
    K.Pairs R (Machine.nested id x) (Machine.nested id y) := by
  intro s t hst
  unfold Machine.nested
  rw [K.limit_eq, hst.depth]
  split
  · exact ⟨.fault (.tooDeep B.limit id), hst⟩
  · obtain ⟨hout, hstate⟩ := hxy { s with depth := t.depth + 1 } { t with depth := t.depth + 1 }
      { hst with depth := rfl }
    exact ⟨hout, { hstate with depth := congrArg (· - 1) hstate.depth }⟩

theorem pairs_completed {s : Scope Action σ} {t : Scope Action τ}
    (hs : s.Matches K.Pairs K.offset t) {v w : Value} (hvw : v = w.shift K.offset) :
    K.Pairs Eq (Machine.completed s v) (Machine.completed t w) := by
  intro a b hab
  refine ⟨.value rfl, { hab with steps := congrArg (· + 1) hab.steps, memory := ?_ }⟩
  -- both observers are told of the same block
  refine K.observe ⟨hs.id, hs.opcode, hs.module, hs.function, hab.depth, hvw, hab.heap,
    hab.store, ?_⟩ hab.memory
  change a.events.size = K.told.size + b.events.size
  rw [hab.events, Array.size_append]

theorem pairs_dispatch (opcode id : String) {slots : List (Slot Action σ)}
    {slots' : List (Slot Action τ)}
    (hslots : List.Forall₂ (Slot.Matches K.Pairs K.offset) slots slots') :
    K.Pairs (Value.Shifted K.offset) (Machine.dispatch opcode id slots)
      (Machine.dispatch opcode id slots') := by
  refine (pairs_routed opcode).andThen ?_
  rintro route _ ⟨rfl, hcounts⟩
  have hscope : Scope.Matches K.Pairs K.offset
      ⟨opcode, id, route.module, route.function, slots⟩
      ⟨opcode, id, route.module, route.function, slots'⟩ := ⟨rfl, rfl, rfl, rfl, hslots⟩
  have hperform := Action.perform_coupled coupled_pairs hscope route.handler hcounts
  refine (hperform.mapFault fun f => ?_).andThen fun v w hvw => ?_
  · exact Fault.wrap_shift K.offset route.module route.function id f
  · exact (pairs_completed hscope hvw).andThen fun _ _ _ => coupled_pairs.value hvw

/-- The computations behind the slots of a block correspond when those of its chains do. -/
theorem matches_slotWith {x : Chain → Job σ Value} {y : Chain → Job τ Value} {m : Member}
    (hm : K.Pairs (Value.Shifted K.offset) (x m.chain) (y m.chain)) :
    Slot.Matches K.Pairs K.offset (Machine.slotWith x m) (Machine.slotWith y m) := by
  cases m with
  | expression name chain => exact .value hm
  | literal name shadow => exact .value (coupled_pairs.value rfl)
  | statement name chain => exact .statement hm
  | field f => exact .field f

/-- **A chain does the same on both sides.** -/
theorem pairs_execute (c : Chain) :
    K.Pairs (Value.Shifted K.offset) (Machine.execute c) (Machine.execute c) := by
  -- along a chain the result of the block before is carried, so both forms are proved at once
  suffices hboth : K.Pairs (Value.Shifted K.offset) (Machine.execute c) (Machine.execute c) ∧
      ∀ v w, Value.Shifted K.offset v w →
        K.Pairs (Value.Shifted K.offset) (Machine.executeRest v c) (Machine.executeRest w c)
    from hboth.1
  refine Chain.induction (P := fun c =>
    K.Pairs (Value.Shifted K.offset) (Machine.execute c) (Machine.execute c) ∧
      ∀ v w, Value.Shifted K.offset v w →
        K.Pairs (Value.Shifted K.offset) (Machine.executeRest v c)
          (Machine.executeRest w c)) ?_ ?_ c
  · exact ⟨coupled_pairs.value rfl, fun v w hvw => coupled_pairs.value hvw⟩
  · intro b rest hslots hrest
    have hblock : K.Pairs (Value.Shifted K.offset) (Machine.executeBlock b)
        (Machine.executeBlock b) := by
      obtain ⟨opcode, id, members⟩ := b
      refine pairs_dispatch opcode id ?_
      rw [Machine.slotsOf_eq_map, Machine.slotsOf_eq_map, List.forall₂_map_left_iff,
        List.forall₂_map_right_iff, List.forall₂_same]
      intro m hm
      rw [Machine.slotOf_eq, Machine.slotOf_eq]
      exact matches_slotWith (hslots m hm).1
    exact ⟨(hblock.andThen hrest.2).nested b.id, fun v w _ => hblock.andThen hrest.2⟩

/-! ### Machines that differ in their observers -/

/-- The correspondence of machines that differ in nothing but their observers. -/
def ofObservers (hlimit : A.limit = B.limit) (hbudget : A.budget = B.budget)
    (Recalls : σ → τ → Prop)
    (hobserve : ∀ o μ ν, Recalls μ ν →
      Recalls (A.observer.observe o μ).1 (B.observer.observe o ν).1) : Correspondence A B where
  offset := 0
  told := #[]
  counting := True
  Routes := Eq
  Recalls := Recalls
  limit_eq := hlimit
  budget_eq := hbudget
  resolve_fst h opcode := by rw [h]
  resolve_snd h opcode := by rw [h]
  counts _ _ _ _ _ := trivial
  observe ho h := by
    rw [ho.eq]
    exact hobserve _ _ _ h

section Observers

variable {hlimit : A.limit = B.limit} {hbudget : A.budget = B.budget} {Recalls : σ → τ → Prop}
  {hobserve : ∀ o μ ν, Recalls μ ν →
    Recalls (A.observer.observe o μ).1 (B.observer.observe o ν).1}

/-- They may start from one state, each with its own memory. -/
theorem alike_ofObservers (s : State Action σ) {ν : τ} (h : Recalls s.memory ν) :
    (ofObservers hlimit hbudget Recalls hobserve).Alike s { s with memory := ν } := by
  refine ⟨⟨(Heap.shift_zero _).symm, Store.Shifts.zero_iff.2 rfl, rfl, fun _ => rfl⟩, rfl, rfl, ?_,
    h⟩
  exact Array.empty_append.symm

/-- Their states stay the same but for the memory. -/
theorem eq_of_alike_ofObservers {s : State Action σ} {t : State Action τ}
    (h : (ofObservers hlimit hbudget Recalls hobserve).Alike s t) :
    { s with memory := t.memory } = t := by
  have hheap : s.heap = t.heap := h.heap.trans (Heap.shift_zero _)
  have hstore : s.store = t.store := Store.Shifts.zero_iff.1 h.store
  have hregistry : s.registry = t.registry := h.registry
  have hevents : s.events = t.events := h.events.trans Array.empty_append
  rw [hheap, hstore, hregistry, h.depth, h.steps, h.counter trivial, hevents]

end Observers

end Correspondence

end Blockwork
