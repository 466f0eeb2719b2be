import Blockwork.Proofs.Machine.Trail

/-!
# The course of a run

What the trail of a run with standard functions looks like. Two things are said of it, and both are
proved for every computation inside the run at once (`Machine.Keeps`).

* **Every mark is accurate** (`Mark.Accurate`). A handler is invoked, and an observer told, at the
  depth that is the static level of the block, and a chain is refused only one level below the
  limit. The invariant is that a computation of the handler at `p` begins and ends at depth
  `level p`.
* **A fault takes one course** (`Breakdown`). Up to the fault nothing fails and the handlers are
  invoked and return in pairs. The fault arises in the innermost handler that has not returned, or
  in a slot that this one asked for; that handler's block is named in it; and every handler further
  out returns the fault as it is.

Both rest on `Run.Standard`: standard actions hand a fault of a slot on at once. The step from the
parts of an action to a block is `Machine.keeps_dispatchAt`, and from blocks to chains
`Machine.keeps_executeAt`.
-/

namespace Blockwork

open Chain (Position level parent blockAt? chainAt? slotAt?)

variable {σ : Type}

/-- A machine may always nest once. -/
theorem limitOf_pos (requested : Int) : 0 < limitOf requested := by
  unfold limitOf
  split
  · omega
  · decide

/-! ### What marks say -/

/-- The block at a position of the document, and the function its opcode is routed to. -/
structure Machine.Found (m : Machine σ) (p : Position) (b : Block) (route : Route Action) :
    Prop where
  block : blockAt? m.document.entry p = some b
  route : (m.state.registry.resolve b.opcode).1 = .ok route

/-- What a mark says of the document and the machine is true. -/
def Mark.Accurate (m : Machine σ) : Mark → Prop
  -- entering is allowed up to the limit, so what is refused is one level below
  | .entered p => level p ≤ m.setup.limit ∧ ∃ b, blockAt? m.document.entry p = some b
  | .stopped p f => ∃ b, blockAt? m.document.entry p = some b ∧
      ((∃ e, f = .routing e ∧ (m.state.registry.resolve b.opcode).1 = .error e) ∨
        (f = .tooDeep m.setup.limit b.id ∧ level p = m.setup.limit + 1))
  | .invoked p depth => depth = level p ∧ depth ≤ m.setup.limit ∧ ∃ b route, m.Found p b route
  | .completed p o => o.depth = level p ∧ o.depth ≤ m.setup.limit ∧
      ∃ b route, m.Found p b route ∧ o.id = b.id ∧ o.opcode = b.opcode ∧
        o.module = route.module ∧ o.function = route.function
  | .failed p _ => ∃ b route, m.Found p b route

/-- Marks without a fault, after which so many more handlers have not returned. -/
structure Smooth (marks : List Mark) (more : List Position) : Prop where
  calm : ∀ mark ∈ marks, mark.isFault = false
  pending : ∀ stack, marks.foldl Mark.pending stack = more ++ stack

namespace Smooth

variable {marks marks' : List Mark} {more : List Position}

theorem nil : Smooth [] [] := ⟨fun _ h => absurd h List.not_mem_nil, fun _ => rfl⟩

theorem append (h : Smooth marks []) (h' : Smooth marks' more) : Smooth (marks ++ marks') more where
  calm := List.forall_mem_append.2 ⟨h.calm, h'.calm⟩
  pending stack := by
    rw [List.foldl_append, h.pending]
    exact h'.pending stack

theorem entered (p : Position) : Smooth [.entered p] [] :=
  ⟨List.forall_mem_singleton.2 rfl, fun _ => rfl⟩

/-- A handler is invoked and has not returned when what it runs is over. -/
theorem invoked (p : Position) (depth : Nat) (h : Smooth marks more) :
    Smooth (.invoked p depth :: marks) (more ++ [p]) where
  calm := List.forall_mem_cons.2 ⟨rfl, h.calm⟩
  pending stack := by
    rw [List.foldl_cons, List.append_assoc]
    exact h.pending (p :: stack)

/-- A handler is invoked and returns. -/
theorem completed (p : Position) (depth : Nat) (o : Observation) (h : Smooth marks []) :
    Smooth (.invoked p depth :: marks ++ [.completed p o]) [] where
  calm := List.forall_mem_append.2 ⟨(h.invoked p depth).calm, List.forall_mem_singleton.2 rfl⟩
  pending stack := by
    rw [List.foldl_append, (h.invoked p depth).pending]
    exact List.erase_cons_head p stack

end Smooth

/-! ### How a fault comes about -/

/-- **Where a fault arises** during the handler of the block at `p`: in the handler itself, or in
a block of one of its slots that is not dispatched. -/
inductive Arises (m : Machine σ) (p : Position) : Fault → List Mark → Prop where
  | own {f : Fault} : f.isOwn = true → Arises m p f []
  | stopped {f : Fault} {q : Position} : parent q = p → (Mark.stopped q f).Accurate m →
      Arises m p f [.stopped q f]

/-- A block of the chain that is run for `p` is not dispatched. -/
def Halts (m : Machine σ) (p : Position) (f : Fault) (origin : List Mark) : Prop :=
  ∃ q, parent q = p ∧ (Mark.stopped q f).Accurate m ∧ origin = [.stopped q f]

theorem Halts.arises {m : Machine σ} {p : Position} {f : Fault} {origin : List Mark}
    (h : Halts m p f origin) : Arises m p f origin := by
  obtain ⟨q, hparent, haccurate, rfl⟩ := h
  exact .stopped hparent haccurate

theorem Fault.blame?_of_isOwn {f : Fault} (h : f.isOwn = true) : f.blame? = none := by
  induction f with
  | through place cause ih => exact ih h
  | execution module function id cause _ => exact absurd h (by simp [Fault.isOwn])
  | _ => rfl

/-- A fault that has just arisen names no block. -/
theorem Arises.blame?_eq_none {m : Machine σ} {p : Position} {f : Fault} {origin : List Mark}
    (h : Arises m p f origin) : f.blame? = none := by
  cases h with
  | own hown => exact Fault.blame?_of_isOwn hown
  | stopped _ haccurate =>
    obtain ⟨b, -, ⟨e, rfl, -⟩ | ⟨rfl, -⟩⟩ := haccurate
    · rfl
    · rfl

/-- **The course of a fault.** Marks without a fault, then those of the fault. Either no handler is
left to return, and the fault is of a kind that the context allows; or it arose for the innermost
handler, whose block is named in it, and the handlers further out returned it unchanged. -/
inductive Breakdown (m : Machine σ) (Bare : Fault → List Mark → Prop) (f : Fault) :
    List Mark → Prop where
  | bare {calm origin : List Mark} : Smooth calm [] → Bare f origin →
      Breakdown m Bare f (calm ++ origin)
  | blamed {calm origin : List Mark} {q : Position} {outer : List Position} {b : Block}
      {route : Route Action} {cause : Fault} : Smooth calm (q :: outer) →
      Arises m q cause origin → m.Found q b route →
      f = .execution route.module route.function b.id cause →
      Breakdown m Bare f (calm ++ (origin ++ .failed q cause :: outer.map (.failed · f)))

namespace Breakdown

variable {m : Machine σ} {Bare Bare' : Fault → List Mark → Prop} {f : Fault} {marks : List Mark}

theorem mono (h : Breakdown m Bare f marks) (hbare : ∀ f origin, Bare f origin → Bare' f origin) :
    Breakdown m Bare' f marks := by
  cases h with
  | bare hsmooth horigin => exact .bare hsmooth (hbare _ _ horigin)
  | blamed hsmooth harises hfound hf => exact .blamed hsmooth harises hfound hf

/-- What went well before belongs to the calm part. -/
theorem after {before : List Mark} (hbefore : Smooth before []) (h : Breakdown m Bare f marks) :
    Breakdown m Bare f (before ++ marks) := by
  cases h with
  | bare hsmooth horigin =>
    rw [← List.append_assoc]
    exact .bare (hbefore.append hsmooth) horigin
  | blamed hsmooth harises hfound hf =>
    rw [← List.append_assoc]
    exact .blamed (hbefore.append hsmooth) harises hfound hf

/-- **A handler that meets a fault** is named in it if no block is named yet, and returns it. -/
theorem wrapped {p : Position} {b : Block} {route : Route Action} (hfound : m.Found p b route)
    (depth : Nat) (h : Breakdown m (Arises m p) f marks) :
    Breakdown m Bare (f.wrap route.module route.function b.id)
      (.invoked p depth :: marks ++ [.failed p f]) := by
  cases h with
  | @bare calm origin hsmooth harises =>
    -- the fault arose for this handler, and its block is put in
    have hwrap : f.wrap route.module route.function b.id
        = .execution route.module route.function b.id f := by
      unfold Fault.wrap
      rw [harises.blame?_eq_none]
    have hmarks : Mark.invoked p depth :: (calm ++ origin) ++ [.failed p f]
        = (.invoked p depth :: calm) ++ (origin ++ .failed p f :: [].map
            (Mark.failed · (f.wrap route.module route.function b.id))) := by
      simp
    rw [hmarks]
    exact .blamed (hsmooth.invoked p depth) harises hfound hwrap
  | @blamed calm origin q outer b' route' cause hsmooth harises hfound' hf =>
    -- an inner handler is named already, and this one is the next that returns the fault
    have hwrap : f.wrap route.module route.function b.id = f := by
      unfold Fault.wrap
      rw [hf]
      rfl
    have hmarks : Mark.invoked p depth ::
          (calm ++ (origin ++ .failed q cause :: outer.map (.failed · f))) ++ [.failed p f]
        = (.invoked p depth :: calm) ++
          (origin ++ .failed q cause :: (outer ++ [p]).map (.failed · f)) := by
      simp
    rw [hwrap, hmarks]
    exact .blamed (hsmooth.invoked p depth) harises hfound' hf

end Breakdown

/-- How the marks of a computation go with the way it ends. -/
def Course (m : Machine σ) (Bare : Fault → List Mark → Prop) {β : Type} :
    Outcome β → List Mark → Prop
  | .value _, marks => Smooth marks []
  | .fault f, marks => Breakdown m Bare f marks
  | .unfinished, marks => ∀ mark ∈ marks, mark.isFault = false

theorem Course.after {m : Machine σ} {Bare : Fault → List Mark → Prop} {β : Type} {o : Outcome β}
    {before marks : List Mark} (hbefore : Smooth before []) (h : Course m Bare o marks) :
    Course m Bare o (before ++ marks) := by
  cases o with
  | value b => exact hbefore.append h
  | fault f => exact Breakdown.after hbefore h
  | unfinished => exact List.forall_mem_append.2 ⟨hbefore.calm, h⟩

/-! ### What computations keep -/

namespace Machine

/-- The second state is reached from the first with these marks. -/
structure Progress (m : Machine σ) (s s' : State Action (Traced σ)) (marks : List Mark) :
    Prop where
  trail : s'.memory.trail = s.memory.trail ++ marks
  depth : s'.depth = s.depth
  registry : s'.registry.Holds m.state.registry.modules
  steps : s'.steps = s.steps + (observations marks).length
  accurate : ∀ mark ∈ marks, mark.Accurate m

/-- A state inside a run of the machine, at a depth within the limit. -/
structure Ready (m : Machine σ) (depth : Nat) (s : State Action (Traced σ)) : Prop where
  depth_eq : s.depth = depth
  within : depth ≤ m.setup.limit
  registry : s.registry.Holds m.state.registry.modules

variable {m : Machine σ} {s s' s'' : State Action (Traced σ)} {marks marks' : List Mark}
  {depth : Nat} {Bare : Fault → List Mark → Prop}

theorem Progress.trans (h : m.Progress s s' marks) (h' : m.Progress s' s'' marks') :
    m.Progress s s'' (marks ++ marks') where
  trail := by rw [h'.trail, h.trail, List.append_assoc]
  depth := h'.depth.trans h.depth
  registry := h'.registry
  steps := by
    rw [h'.steps, h.steps, observations_append, List.length_append, Nat.add_assoc]
  accurate := List.forall_mem_append.2 ⟨h.accurate, h'.accurate⟩

theorem Ready.progress (h : m.Ready depth s) (hp : m.Progress s s' marks) : m.Ready depth s' :=
  ⟨hp.depth.trans h.depth_eq, h.within, hp.registry⟩

/-- A mark is noted. -/
theorem Ready.noted (h : m.Ready depth s) {mark : Mark} (hnone : mark.observation? = none)
    (haccurate : mark.Accurate m) : m.Progress s (s.noted mark) [mark] where
  trail := rfl
  depth := rfl
  registry := h.registry
  steps := by
    rw [observations_singleton hnone]
    rfl
  accurate := List.forall_mem_singleton.2 haccurate

/-- **What a computation inside a run keeps**: it adds accurate marks that go with the way it ends,
and leaves the depth and the modules as they were. -/
def Keeps (m : Machine σ) (depth : Nat) (Bare : Fault → List Mark → Prop) (β : Type)
    (x : Job (Traced σ) β) : Prop :=
  ∀ s, m.Ready depth s →
    ∃ marks, m.Progress s (x m.setup.traced s).2 marks ∧
      Course m Bare (x m.setup.traced s).1 marks

/-- Computations that leave the trail, the depth, the registry and the steps alone. -/
theorem keeps_of_eq {β : Type} {x : Job (Traced σ) β}
    (hstate : ∀ s, (x m.setup.traced s).2.memory = s.memory ∧
      (x m.setup.traced s).2.depth = s.depth ∧ (x m.setup.traced s).2.registry = s.registry ∧
      (x m.setup.traced s).2.steps = s.steps)
    (hcourse : ∀ s, Course m Bare (x m.setup.traced s).1 []) : m.Keeps depth Bare β x := by
  intro s hs
  obtain ⟨hmemory, hdepth, hregistry, hsteps⟩ := hstate s
  refine ⟨[], ⟨?_, hdepth, ?_, hsteps, fun _ h => absurd h List.not_mem_nil⟩, hcourse s⟩
  · rw [hmemory, List.append_nil]
  · rw [hregistry]
    exact hs.registry

theorem Keeps.andThen {β γ : Type} {x : Job (Traced σ) β} {f : β → Job (Traced σ) γ}
    (hx : m.Keeps depth Bare β x) (hf : ∀ b, m.Keeps depth Bare γ (f b)) :
    m.Keeps depth Bare γ (x >>= f) := by
  intro s hs
  obtain ⟨marks, hprogress, hcourse⟩ := hx s hs
  rw [Run.bind_apply]
  rcases hout : x m.setup.traced s with ⟨b | f | _, s'⟩ <;> rw [hout] at hprogress hcourse
  · -- what follows a value begins where the first part ended
    obtain ⟨marks', hprogress', hcourse'⟩ := hf b s' (hs.progress hprogress)
    exact ⟨marks ++ marks', hprogress.trans hprogress', hcourse'.after hcourse⟩
  · exact ⟨marks, hprogress, hcourse⟩
  · exact ⟨marks, hprogress, hcourse⟩

theorem Keeps.mono {Bare' : Fault → List Mark → Prop} {β : Type} {x : Job (Traced σ) β}
    (hx : m.Keeps depth Bare β x) (hbare : ∀ f origin, Bare f origin → Bare' f origin) :
    m.Keeps depth Bare' β x := by
  intro s hs
  obtain ⟨marks, hprogress, hcourse⟩ := hx s hs
  refine ⟨marks, hprogress, ?_⟩
  rcases hout : x m.setup.traced s with ⟨b | f | _, s'⟩ <;> rw [hout] at hcourse
  · exact hcourse
  · exact Breakdown.mono hcourse hbare
  · exact hcourse

/-- **The parts of standard actions** leave no marks, and their own faults are allowed inside a
handler. -/
theorem standard_keeps (p : Position) : Run.Standard (m.Keeps depth (Arises m p)) where
  read view := keeps_of_eq (fun _ => ⟨rfl, rfl, rfl, rfl⟩) fun _ => Smooth.nil
  andThen hx hf := hx.andThen hf
  fail hown := keeps_of_eq (fun _ => ⟨rfl, rfl, rfl, rfl⟩) fun _ =>
    Breakdown.bare Smooth.nil (.own hown)
  exhausted := keeps_of_eq (fun _ => ⟨rfl, rfl, rfl, rfl⟩) fun _ _ h => absurd h List.not_mem_nil
  assign name v := by
    refine keeps_of_eq (fun s => ?_) fun s => ?_ <;> rw [Run.assign_apply]
    · cases s.heap.set? name v <;> exact ⟨rfl, rfl, rfl, rfl⟩
    · cases s.heap.set? name v with
      | some heap => exact Smooth.nil
      | none => exact Breakdown.bare Smooth.nil (.own rfl)
  newList items := keeps_of_eq (fun _ => ⟨rfl, rfl, rfl, rfl⟩) fun _ => Smooth.nil
  updateList id f := keeps_of_eq (fun _ => ⟨rfl, rfl, rfl, rfl⟩) fun _ => Smooth.nil
  emit e := keeps_of_eq (fun _ => ⟨rfl, rfl, rfl, rfl⟩) fun _ => Smooth.nil

/-! ### Blocks -/

/-- What follows the routing of the block at a position: its handler, and the completion. -/
def handledAt (p : Position) (scope : Scope Action (Traced σ)) (route : Route Action) :
    Job (Traced σ) Value := do
  note fun s => .invoked p s.depth
  let result ← (noteFault (.failed p) (route.handler.perform scope)).mapFault
    (.wrap route.module route.function scope.id)
  arrive p
  completed scope result
  return result

theorem dispatchAt_apply (p : Position) (opcode id : String)
    (slots : List (Slot Action (Traced σ))) (setup : Setup (Traced σ))
    (s : State Action (Traced σ)) :
    dispatchAt p opcode id slots setup s
      = match (s.registry.resolve opcode).1 with
        | .ok route => handledAt p ⟨opcode, id, route.module, route.function, slots⟩ route setup
            (afterRouting s opcode)
        | .error e => (.fault (.routing e),
            (afterRouting s opcode).noted (.stopped p (.routing e))) := by
  have hdispatch : dispatchAt p opcode id slots setup s
      = (noteFault (.stopped p) (routed opcode) >>= fun route =>
          handledAt p ⟨opcode, id, route.module, route.function, slots⟩ route) setup s := rfl
  rw [hdispatch, Run.bind_apply]
  unfold noteFault
  rw [routed_apply]
  cases (s.registry.resolve opcode).1 <;> rfl

theorem handledAt_apply (p : Position) (scope : Scope Action (Traced σ)) (route : Route Action)
    (setup : Setup (Traced σ)) (s : State Action (Traced σ)) :
    handledAt p scope route setup s
      = match route.handler.perform scope setup (s.noted (.invoked p s.depth)) with
        | (.value v, s') => (.value v,
            (completed scope v setup { s' with memory := { s'.memory with place := p } }).2)
        | (.fault f, s') => (.fault (f.wrap route.module route.function scope.id),
            s'.noted (.failed p f))
        | (.unfinished, s') => (.unfinished, s') := by
  have hhandled : handledAt p scope route setup s
      = ((noteFault (.failed p) (route.handler.perform scope)).mapFault
          (.wrap route.module route.function scope.id) >>= fun result => do
            arrive p
            completed scope result
            return result) setup (s.noted (.invoked p s.depth)) := rfl
  rw [hhandled, Run.bind_apply]
  unfold Run.mapFault noteFault
  rcases route.handler.perform scope setup (s.noted (.invoked p s.depth)) with ⟨v | f | _, s'⟩ <;>
    rfl

/-- The block is completed: one step more, and the observer is told at the depth of the block. -/
theorem Ready.completed {p : Position} {b : Block} {route : Route Action}
    (hs : m.Ready (level p) s) (hfound : m.Found p b route)
    (slots : List (Slot Action (Traced σ))) (v : Value) :
    ∃ o, m.Progress s (Machine.completed
      ⟨b.opcode, b.id, route.module, route.function, slots⟩ v m.setup.traced
      { s with memory := { s.memory with place := p } }).2 [.completed p o] := by
  refine ⟨_, ⟨rfl, rfl, hs.registry, rfl, List.forall_mem_singleton.2 ?_⟩⟩
  refine ⟨hs.depth_eq, ?_, b, route, hfound, rfl, rfl, rfl, rfl⟩
  change s.depth ≤ m.setup.limit
  rw [hs.depth_eq]
  exact hs.within

theorem keeps_handledAt {p : Position} {b : Block} {route : Route Action}
    (hfound : m.Found p b route) {slots : List (Slot Action (Traced σ))}
    (hperform : m.Keeps (level p) (Arises m p) Value
      (route.handler.perform ⟨b.opcode, b.id, route.module, route.function, slots⟩)) :
    m.Keeps (level p) Bare Value
      (handledAt p ⟨b.opcode, b.id, route.module, route.function, slots⟩ route) := by
  intro s hs
  -- the invocation, what the handler does, and how it returns, one after the other
  have hinvoked : m.Progress s (s.noted (.invoked p s.depth)) [.invoked p s.depth] := by
    refine hs.noted rfl ⟨hs.depth_eq, ?_, b, route, hfound⟩
    rw [hs.depth_eq]
    exact hs.within
  obtain ⟨marks, hprogress, hcourse⟩ := hperform _ (hs.progress hinvoked)
  have hboth := hinvoked.trans hprogress
  rw [handledAt_apply]
  rcases hout : route.handler.perform ⟨b.opcode, b.id, route.module, route.function, slots⟩
    m.setup.traced (s.noted (.invoked p s.depth)) with ⟨v | f | _, s'⟩ <;>
    rw [hout] at hboth hcourse
  · obtain ⟨o, hcompleted⟩ := (hs.progress hboth).completed hfound slots v
    exact ⟨_, hboth.trans hcompleted, Smooth.completed p s.depth o hcourse⟩
  · have hfailed : m.Progress s' (s'.noted (.failed p f)) [.failed p f] :=
      (hs.progress hboth).noted rfl ⟨b, route, hfound⟩
    exact ⟨_, hboth.trans hfailed, Breakdown.wrapped hfound s.depth hcourse⟩
  · exact ⟨_, hboth, List.forall_mem_cons.2 ⟨rfl, hcourse⟩⟩

section Standard

variable (hcoherent : m.state.registry.Coherent)
  (hstandard : m.state.registry.all (fun a => !a.isProbe) = true)

include hcoherent hstandard

/-- **A block whose slots keep the invariant keeps it.** It is routed as the machine routes it
before the run, since the modules stay. -/
theorem keeps_dispatchAt {p : Position} {b : Block} (hb : blockAt? m.document.entry p = some b)
    {slots : List (Slot Action (Traced σ))}
    (hslots : ∀ slot ∈ slots, slot.Holds (m.Keeps (level p) (Arises m p))) :
    m.Keeps (level p) (Halts m (parent p)) Value (dispatchAt p b.opcode b.id slots) := by
  intro s hs
  have hsame : (s.registry.resolve b.opcode).1 = (m.state.registry.resolve b.opcode).1 :=
    hs.registry.resolve_fst_eq ⟨hcoherent, rfl⟩ b.opcode
  have hrouted : m.Progress s (afterRouting s b.opcode) [] :=
    ⟨(List.append_nil _).symm, rfl, hs.registry.resolve b.opcode, rfl,
      fun _ h => absurd h List.not_mem_nil⟩
  rw [dispatchAt_apply, hsame]
  cases hroute : (m.state.registry.resolve b.opcode).1 with
  | error e =>
    -- without a route the block stops, which is marked
    have haccurate : (Mark.stopped p (.routing e)).Accurate m :=
      ⟨b, hb, .inl ⟨e, rfl, hroute⟩⟩
    exact ⟨_, hrouted.trans ((hs.progress hrouted).noted rfl haccurate),
      Breakdown.bare Smooth.nil ⟨p, rfl, haccurate, rfl⟩⟩
  | ok route =>
    -- a standard handler keeps what its slots keep
    have hplain : route.handler.isProbe = false := by
      have hnot := hcoherent.handler_of_all hstandard hroute
      simpa using hnot
    have hperform := Action.perform_standard (standard_keeps p)
      (s := ⟨b.opcode, b.id, route.module, route.function, slots⟩) hslots hplain
    obtain ⟨marks, hprogress, hcourse⟩ :=
      keeps_handledAt ⟨hb, hroute⟩ hperform _ (hs.progress hrouted)
    exact ⟨marks, hrouted.trans hprogress, hcourse⟩

end Standard

/-! ### Chains -/

theorem nestedAt_apply (p : Position) (id : String) (job : Job (Traced σ) Value)
    (setup : Setup (Traced σ)) (s : State Action (Traced σ)) :
    nestedAt p id job setup s
      = if setup.limit ≤ s.depth then
          (.fault (.tooDeep setup.limit id), s.noted (.stopped p (.tooDeep setup.limit id)))
        else
          match job setup { s.noted (.entered p) with depth := s.depth + 1 } with
          | (outcome, s') => (outcome, { s' with depth := s'.depth - 1 }) := by
  unfold nestedAt nested
  by_cases hlimit : setup.limit ≤ s.depth
  · have hnoted : ∀ mark, setup.limit ≤ (s.noted mark).depth := fun _ => hlimit
    rw [if_pos hlimit, if_pos hlimit, if_pos (hnoted _)]
  · have hnoted : ∀ mark, ¬ setup.limit ≤ (s.noted mark).depth := fun _ => hlimit
    rw [if_neg hlimit, if_neg hlimit, if_neg (hnoted _)]
    rfl

/-- **Entering a chain** is refused one level below the limit only. -/
theorem keeps_nestedAt {p q : Position} {b : Block} (hb : blockAt? m.document.entry q = some b)
    (hlevel : level q = level p + 1) (hparent : parent q = p) {x : Job (Traced σ) Value}
    (hx : m.Keeps (level q) (Halts m p) Value x) :
    m.Keeps (level p) (Halts m p) Value (nestedAt q b.id x) := by
  intro s hs
  rw [nestedAt_apply]
  split
  · next hlimit =>
    have hlimit : m.setup.limit ≤ s.depth := hlimit
    have haccurate : (Mark.stopped q (.tooDeep m.setup.limit b.id)).Accurate m := by
      refine ⟨b, hb, .inr ⟨rfl, ?_⟩⟩
      have hdepth := hs.depth_eq
      have hwithin := hs.within
      omega
    exact ⟨_, hs.noted rfl haccurate, Breakdown.bare Smooth.nil ⟨q, hparent, haccurate, rfl⟩⟩
  · next hlimit =>
    have hlimit : ¬ m.setup.limit ≤ s.depth := hlimit
    have hdepth := hs.depth_eq
    have haccurate : (Mark.entered q).Accurate m := ⟨by omega, b, hb⟩
    have hentered := hs.noted rfl haccurate
    -- inside, the depth is that of the blocks of the chain
    have hinside : m.Ready (level q) { s.noted (.entered q) with depth := s.depth + 1 } :=
      ⟨by rw [hlevel, ← hdepth], by omega, hs.registry⟩
    obtain ⟨marks, hprogress, hcourse⟩ := hx _ hinside
    refine ⟨_, hentered.trans ⟨hprogress.trail, ?_, hprogress.registry, hprogress.steps,
      hprogress.accurate⟩, hcourse.after (Smooth.entered q)⟩
    -- the level is left again
    change State.depth (Prod.snd _) - 1 = s.depth
    rw [hprogress.depth]
    rfl

/-- A chain of the program hangs on a stem: what is found behind the stem is found in the chain. -/
def Hangs (m : Machine σ) (stem : Position) (c : Chain) : Prop :=
  ∀ q, chainAt? m.document.entry (stem ++ q) = chainAt? c q

/-- The positions of a chain behind a stem are those of the slots of a block, or of the program's
own chain. -/
structure IsStem (p stem : Position) : Prop where
  level_eq : ∀ i, level (stem ++ [i]) = level p + 1
  parent_eq : ∀ i, parent (stem ++ [i]) = p

theorem isStem_nil : IsStem [] [] := ⟨fun _ => rfl, fun _ => rfl⟩

theorem isStem_slot (p : Position) (j : Nat) : IsStem p (p ++ [j]) :=
  ⟨fun i => Chain.level_slot p j i, fun i => Chain.parent_slot p j i⟩

/-- The block that comes after some others in a chain is found behind the stem. -/
theorem Hangs.blockAt? {stem : Position} (before : Chain) {rest : Chain} {b : Block}
    (h : m.Hangs stem (before ++ b :: rest)) :
    Chain.blockAt? m.document.entry (stem ++ [before.length]) = some b := by
  unfold Chain.blockAt?
  rw [h, Chain.chainAt?_append_length]
  rfl

/-- The chains in its members hang below it. -/
theorem Hangs.member {stem : Position} {before rest : Chain} {b : Block}
    (h : m.Hangs stem (before ++ b :: rest)) {passed members : List Member} {mem : Member}
    (hmembers : b.members = passed ++ mem :: members) :
    m.Hangs (stem ++ [before.length] ++ [passed.length]) mem.chain := by
  intro q
  have hq := h (before.length :: passed.length :: q)
  rw [Chain.chainAt?_append_below, hmembers, Chain.slotAt?_append_length] at hq
  rw [← hq, List.append_assoc, List.append_assoc]
  rfl

theorem holds_slotsAt {p : Position} (passed members : List Member)
    (h : ∀ (before after : List Member) (mem : Member),
      passed ++ members = before ++ mem :: after →
      m.Keeps (level p) (Halts m p) Value (executeAt (p ++ [before.length]) mem.chain)) :
    ∀ slot ∈ slotsAt p passed.length members, slot.Holds (m.Keeps (level p) (Arises m p)) := by
  induction members generalizing passed with
  | nil => exact fun slot hslot => absurd hslot List.not_mem_nil
  | cons mem members ih =>
    intro slot hslot
    rcases List.mem_cons.1 hslot with rfl | hslot
    · -- the slot of this member runs at its place among all
      have hmem := (h passed members mem rfl).mono fun _ _ => Halts.arises
      rw [slotAt_eq]
      cases mem with
      | expression name chain => exact hmem
      | literal name shadow => exact (standard_keeps p).done _
      | statement name chain => exact hmem
      | field f => trivial
    · -- the later ones have this member passed as well
      refine ih (passed ++ [mem]) (fun before after mem' heq => h before after mem' ?_) slot ?_
      · rw [← heq, List.append_assoc]
        rfl
      · rw [List.length_append]
        exact hslot

section Standard

variable (hcoherent : m.state.registry.Coherent)
  (hstandard : m.state.registry.all (fun a => !a.isProbe) = true)

include hcoherent hstandard

/-- **A chain of the program keeps the invariant.** -/
theorem keeps_executeAt (c : Chain) {p stem : Position} (hstem : IsStem p stem)
    (hc : m.Hangs stem c) : m.Keeps (level p) (Halts m p) Value (executeAt stem c) := by
  -- along a chain the blocks that were passed are carried, so that their number is the next place
  suffices hboth : ∀ (p stem : Position), IsStem p stem →
      (m.Hangs stem c → m.Keeps (level p) (Halts m p) Value (executeAt stem c)) ∧
      ∀ (before : Chain) (v : Value), m.Hangs stem (before ++ c) →
        m.Keeps (level p + 1) (Halts m p) Value (executeRestAt stem before.length v c)
    from (hboth p stem hstem).1 hc
  refine Chain.induction (P := fun c => ∀ (p stem : Position), IsStem p stem →
      (m.Hangs stem c → m.Keeps (level p) (Halts m p) Value (executeAt stem c)) ∧
      ∀ (before : Chain) (v : Value), m.Hangs stem (before ++ c) →
        m.Keeps (level p + 1) (Halts m p) Value (executeRestAt stem before.length v c)) ?_ ?_ c
  · intro p stem _
    have hdone : ∀ depth v, m.Keeps depth (Halts m p) Value (Run.done v) := fun depth v =>
      keeps_of_eq (fun _ => ⟨rfl, rfl, rfl, rfl⟩) fun _ => Smooth.nil
    exact ⟨fun _ => hdone _ _, fun _ v _ => hdone _ v⟩
  · intro b rest hslots hrest p stem hstem
    -- a block inside the chain is one level deeper, and its slots hang on stems of their own
    have hblock : ∀ before : Chain, m.Hangs stem (before ++ b :: rest) →
        m.Keeps (level p + 1) (Halts m p) Value
          (executeBlockAt (stem ++ [before.length]) b) := by
      intro before hhangs
      have hkeeps := keeps_dispatchAt hcoherent hstandard (hhangs.blockAt? before)
        (holds_slotsAt [] b.members fun passed after mem heq => ?_)
      · rw [hstem.level_eq, hstem.parent_eq] at hkeeps
        obtain ⟨opcode, id, members⟩ := b
        exact hkeeps
      · have hmem : mem ∈ b.members := by
          rw [show b.members = passed ++ mem :: after from heq]
          simp
        exact (hslots mem hmem _ _ (isStem_slot _ _)).1 (hhangs.member heq)
    have hrest : ∀ (before : Chain), m.Hangs stem (before ++ b :: rest) → ∀ v,
        m.Keeps (level p + 1) (Halts m p) Value
          (executeRestAt stem (before.length + 1) v rest) := by
      intro before hhangs v
      -- the block just executed joins those that were passed
      have hlater := (hrest p stem hstem).2 (before ++ [b]) v
      rw [List.append_assoc, List.length_append] at hlater
      exact hlater hhangs
    refine ⟨fun hhangs => ?_, fun before v hhangs => ?_⟩
    · have hfirst := (hblock [] hhangs).andThen (hrest [] hhangs)
      rw [← hstem.level_eq 0] at hfirst
      exact keeps_nestedAt (hhangs.blockAt? []) (hstem.level_eq 0)
        (hstem.parent_eq 0) hfirst
    · exact (hblock before hhangs).andThen (hrest before hhangs)

end Standard

/-! ### Whole runs -/

/-- **The account of a run**: as many steps as blocks were completed, nothing but accurate marks,
and a course that goes with the outcome. -/
structure Accounted (m : Machine σ) : Prop where
  steps : m.run.2.state.steps = (observations m.trail).length
  accurate : ∀ mark ∈ m.trail, mark.Accurate m
  course : Course m (Halts m []) m.run.1 m.trail

theorem Reached.accounted {document : Document} (hm : m.Reached document)
    (hstandard : m.state.registry.all (fun a => !a.isProbe) = true) : m.Accounted := by
  have hready : m.Ready (level [])
      ({ m.started with memory := ⟨m.state.memory, [], []⟩ } : State Action (Traced σ)) :=
    ⟨hm.atRest.depth, Nat.zero_le _, hm.coherent, rfl⟩
  have hhangs : m.Hangs [] m.document.entry := fun _ => rfl
  obtain ⟨marks, hprogress, hcourse⟩ :=
    keeps_executeAt hm.coherent hstandard m.document.entry isStem_nil hhangs _ hready
  -- the trail begins empty, so it is made of these marks
  obtain rfl : m.trail = marks := hprogress.trail
  obtain ⟨houtcome, hstate, -⟩ := m.recorded_eq
  refine ⟨?_, hprogress.accurate, ?_⟩
  · rw [← hstate]
    exact hprogress.steps.trans (Nat.zero_add _)
  · rw [← houtcome]
    exact hcourse

/-- The standard modules and the console have standard functions only. -/
theorem standard_create (document : Document) (setup : Setup σ) (memory : σ) :
    (create document setup (Blocks.standard ++ [("console", Blocks.consoleTable)])
      memory).state.registry.all (fun a => !a.isProbe) = true :=
  rfl

/-- A block that is in no slot is one of the document's own chain. -/
theorem exists_eq_singleton {p : Position} {b : Block}
    (hb : blockAt? m.document.entry p = some b) (hparent : parent p = []) : ∃ i, p = [i] := by
  match p with
  | [] => exact absurd hb (by simp [blockAt?, chainAt?])
  | [i] => exact ⟨i, rfl⟩
  | [i, j] =>
    -- a member is no block
    refine absurd hb ?_
    cases hi : m.document.entry[i]? with
    | none => simp [blockAt?, chainAt?, hi]
    | some b' => simp [blockAt?, chainAt?, slotAt?, hi]
  | i :: j :: k :: inner =>
    have hlength := congrArg List.length hparent
    simp [parent] at hlength

/-- With a limit of at least one, the document's own chain stops at a block without a route only. -/
theorem halts_entry {f : Fault} {origin : List Mark} (h : Halts m [] f origin)
    (hlimit : 0 < m.setup.limit) :
    ∃ i b e, blockAt? m.document.entry [i] = some b ∧
      (m.state.registry.resolve b.opcode).1 = .error e ∧ f = .routing e ∧
      origin = [.stopped [i] f] := by
  obtain ⟨q, hparent, ⟨b, hb, hwhy⟩, rfl⟩ := h
  obtain ⟨i, rfl⟩ := exists_eq_singleton hb hparent
  rcases hwhy with ⟨e, rfl, herror⟩ | ⟨-, hlevel⟩
  · exact ⟨i, b, e, hb, herror, rfl, rfl⟩
  · -- that chain is entered at depth zero
    have hone : level [i] = 1 := rfl
    omega

end Machine

end Blockwork
