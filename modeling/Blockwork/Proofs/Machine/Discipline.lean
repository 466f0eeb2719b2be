import Blockwork.Proofs.Machine.Course
import Mathlib.Data.List.Chain

/-!
# The order of a trail

What the trail of a run looks like whatever functions there are, those included that go on after a
fault. `Allowed` says when a mark may come after others:

* a handler returns, with a result or with a fault, only as the innermost of those that have not
  returned;
* a block that is chained to another one is dispatched right after the other one is completed;
* from one completed block to the next the depth drops by one at most, unless there was a fault in
  between (`latest`).

A trail in which every mark is allowed is `Lawful`. The proof goes along the run with the invariant
`Inside`: which handlers have not returned, how deep the machine is, and a bound on the depth that
was observed last. A handler may find the bound one above its own depth, after its slots have run;
when its block is completed the bound is that depth. So it is enough for the blocks of a chain and,
once the chain is left, for the handler that asked for it. A fault on the way out only lowers what
the bound has to cover, and that is why no action needs to be looked at here: `Inside` is kept by
all of their parts (`Machine.closed_stays`).
-/

namespace Blockwork

open Chain (Position)

variable {σ : Type}

/-! ### Marks in their order -/

/-- The depth that was observed last, if there was no fault since. -/
def Mark.latest (depth : Option Nat) : Mark → Option Nat
  | completed _ o => some o.depth
  | stopped _ _ => none
  | failed _ _ => none
  | _ => depth

/-- The depth of the last completed block of a trail that has no fault after it. -/
def latest (trail : List Mark) : Option Nat := trail.foldl Mark.latest none

/-- The trail ends with the completion of the block at a position, at some depth. -/
def EndsWith (p : Position) (depth : Nat) (trail : List Mark) : Prop :=
  ∃ earlier o, trail = earlier ++ [.completed p o] ∧ o.depth = depth

/-- A block that is chained to another one comes right after it. -/
def Succeeds (trail : List Mark) (p : Position) : Prop :=
  ∀ stem i, p = stem ++ [i + 1] → ∃ depth, EndsWith (stem ++ [i]) depth trail

/-- **When a mark may come after others.** -/
def Allowed (before : List Mark) : Mark → Prop
  | .entered _ => True
  | .stopped p _ => Succeeds before p
  | .invoked p _ => Succeeds before p
  | .completed p o => (pending before).head? = some p ∧
      ∀ depth, latest before = some depth → depth ≤ o.depth + 1
  | .failed p _ => (pending before).head? = some p

/-- Every mark of the trail is allowed after those before it. -/
def Lawful (trail : List Mark) : Prop :=
  ∀ before mark after, trail = before ++ mark :: after → Allowed before mark

theorem lawful_nil : Lawful [] := by
  intro before mark after h
  exact absurd h (by simp)

theorem Lawful.concat {trail : List Mark} (h : Lawful trail) {mark : Mark}
    (hmark : Allowed trail mark) : Lawful (trail ++ [mark]) := by
  intro before mark' after heq
  -- the mark in question is the last one or one of the trail
  rcases List.eq_nil_or_concat after with rfl | ⟨after, last, rfl⟩
  · obtain ⟨rfl, hlast⟩ := List.append_inj' heq rfl
    obtain rfl := List.singleton_inj.1 hlast
    exact hmark
  · rw [List.concat_eq_append, ← List.cons_append, ← List.append_assoc] at heq
    exact h before mark' after (List.append_inj' heq rfl).1

theorem Lawful.of_append {trail marks : List Mark} (h : Lawful (trail ++ marks)) :
    Lawful trail := by
  intro before mark after heq
  refine h before mark (after ++ marks) ?_
  rw [heq, List.append_assoc, List.cons_append]

theorem pending_concat (trail : List Mark) (mark : Mark) :
    pending (trail ++ [mark]) = mark.pending (pending trail) := by
  rw [pending, List.foldl_append]
  rfl

theorem latest_concat (trail : List Mark) (mark : Mark) :
    latest (trail ++ [mark]) = mark.latest (latest trail) := by
  rw [latest, List.foldl_append]
  rfl

/-- The first block of a chain is chained to none. -/
theorem succeeds_first (trail : List Mark) (stem : Position) : Succeeds trail (stem ++ [0]) := by
  intro stem' i h
  have hlast := List.append_inj_right' h rfl
  exact absurd (List.singleton_inj.1 hlast) (by omega)

theorem succeeds_next {trail : List Mark} {stem : Position} {i depth : Nat}
    (h : EndsWith (stem ++ [i]) depth trail) : Succeeds trail (stem ++ [i + 1]) := by
  intro stem' i' heq
  obtain ⟨rfl, hlast⟩ := List.append_inj' heq rfl
  obtain rfl : i = i' := Nat.succ.inj (List.singleton_inj.1 hlast)
  exact ⟨depth, h⟩

namespace Machine

/-! ### What a run keeps -/

/-- The marks are in order, and there are as many steps as the observer was told of blocks. -/
structure Sound (s : State Action (Traced σ)) : Prop where
  lawful : Lawful s.memory.trail
  steps : s.steps = (observations s.memory.trail).length

/-- A state at a depth, with some handlers that have not returned, the last observed depth being
within a bound. -/
structure Inside (stack : List Position) (depth bound : Nat) (s : State Action (Traced σ)) : Prop
    extends Sound s where
  depth_eq : s.depth = depth
  pending_eq : pending s.memory.trail = stack
  latest_le : ∀ n, latest s.memory.trail = some n → n ≤ bound

variable {setup : Setup σ} {s : State Action (Traced σ)} {stack : List Position}
  {depth bound bound' : Nat}

theorem Inside.mono (h : Inside stack depth bound s) (hle : bound ≤ bound') :
    Inside stack depth bound' s :=
  { h with latest_le := fun n hn => (h.latest_le n hn).trans hle }

/-- How a computation may end: inside the run as it began, unless it did not end at all. -/
def Returns (stack : List Position) (depth bound : Nat) {β : Type} :
    Outcome β × State Action (Traced σ) → Prop
  | (.unfinished, s) => Sound s
  | (_, s) => Inside stack depth bound s

/-- **What the computations of a handler keep**, those of its slots included. -/
def Stays (setup : Setup σ) (stack : List Position) (depth : Nat) (β : Type)
    (x : Job (Traced σ) β) : Prop :=
  ∀ s, Inside stack depth (depth + 1) s →
    Returns stack depth (depth + 1) (x setup.traced s)

/-- Computations that leave the trail, the depth and the steps alone. -/
theorem stays_of_eq {β : Type} {x : Job (Traced σ) β}
    (h : ∀ s, (x setup.traced s).2.memory = s.memory ∧ (x setup.traced s).2.depth = s.depth ∧
      (x setup.traced s).2.steps = s.steps) : Stays setup stack depth β x := by
  intro s hs
  obtain ⟨hmemory, hdepth, hsteps⟩ := h s
  have hinside : Inside stack depth (depth + 1) (x setup.traced s).2 := by
    refine ⟨⟨?_, ?_⟩, hdepth.trans hs.depth_eq, ?_, ?_⟩ <;> rw [hmemory]
    · exact hs.lawful
    · exact hsteps.trans hs.steps
    · exact hs.pending_eq
    · exact hs.latest_le
  rcases hx : x setup.traced s with ⟨b | f | _, s'⟩ <;> rw [hx] at hinside
  · exact hinside
  · exact hinside
  · exact hinside.toSound

theorem Stays.andThen {β γ : Type} {x : Job (Traced σ) β} {f : β → Job (Traced σ) γ}
    (hx : Stays setup stack depth β x) (hf : ∀ b, Stays setup stack depth γ (f b)) :
    Stays setup stack depth γ (x >>= f) := by
  intro s hs
  have hfirst := hx s hs
  rw [Run.bind_apply]
  rcases hout : x setup.traced s with ⟨b | f | _, s'⟩ <;> rw [hout] at hfirst
  · exact hf b s' hfirst
  · exact hfirst
  · exact hfirst

/-- **No action does more than keep it.** A fault that is caught, or put in another place, leaves
the state that it came with. -/
theorem closed_stays : Run.Closed (Stays setup stack depth) where
  read view := stays_of_eq fun _ => ⟨rfl, rfl, rfl⟩
  andThen hx hf := hx.andThen hf
  fail _ := stays_of_eq fun _ => ⟨rfl, rfl, rfl⟩
  exhausted := stays_of_eq fun _ => ⟨rfl, rfl, rfl⟩
  assign name v := by
    refine stays_of_eq fun s => ?_
    rw [Run.assign_apply]
    cases s.heap.set? name v <;> exact ⟨rfl, rfl, rfl⟩
  newList items := stays_of_eq fun _ => ⟨rfl, rfl, rfl⟩
  updateList id f := stays_of_eq fun _ => ⟨rfl, rfl, rfl⟩
  emit e := stays_of_eq fun _ => ⟨rfl, rfl, rfl⟩
  raise text := stays_of_eq fun _ => ⟨rfl, rfl, rfl⟩
  breakOff text := stays_of_eq fun _ => ⟨rfl, rfl, rfl⟩
  attempt {β x} hx := by
    intro s hs
    have hend := hx s hs
    unfold Run.attempt
    rcases hout : x setup.traced s with ⟨b | f | _, s'⟩ <;> rw [hout] at hend <;> exact hend
  through {β x} place hx := by
    intro s hs
    have hend := hx s hs
    unfold Run.mapFault
    rcases hout : x setup.traced s with ⟨b | f | _, s'⟩ <;> rw [hout] at hend <;> exact hend
  count := stays_of_eq fun _ => ⟨rfl, rfl, rfl⟩

/-! ### Marks are added -/

/-- A mark that is not an observation is noted. -/
theorem Sound.noted (h : Sound s) {mark : Mark} (hnone : mark.observation? = none)
    (hallowed : Allowed s.memory.trail mark) : Sound (s.noted mark) where
  lawful := h.lawful.concat hallowed
  steps := by
    change s.steps = (observations (s.memory.trail ++ [mark])).length
    rw [observations_noted _ hnone]
    exact h.steps

variable {p : Position}

theorem Inside.entered (h : Inside stack depth bound s) (p : Position) :
    Inside stack depth bound (s.noted (.entered p)) where
  toSound := h.toSound.noted rfl trivial
  depth_eq := h.depth_eq
  pending_eq := (pending_concat _ _).trans h.pending_eq
  latest_le n hn := h.latest_le n ((latest_concat _ _).symm.trans hn)

theorem Inside.invoked (h : Inside stack depth bound s) (hp : Succeeds s.memory.trail p)
    (d : Nat) : Inside (p :: stack) depth bound (s.noted (.invoked p d)) where
  toSound := h.toSound.noted rfl hp
  depth_eq := h.depth_eq
  pending_eq := (pending_concat _ _).trans (congrArg (p :: ·) h.pending_eq)
  latest_le n hn := h.latest_le n ((latest_concat _ _).symm.trans hn)

/-- After a fault there is no observed depth to go by. -/
theorem Inside.stopped (h : Inside stack depth bound s) (hp : Succeeds s.memory.trail p)
    (f : Fault) : Inside stack depth bound' (s.noted (.stopped p f)) where
  toSound := h.toSound.noted rfl hp
  depth_eq := h.depth_eq
  pending_eq := (pending_concat _ _).trans h.pending_eq
  latest_le n hn := absurd ((latest_concat _ _).symm.trans hn) (by simp [Mark.latest])

theorem pending_returned {trail : List Mark} (h : pending trail = p :: stack) :
    (pending trail).head? = some p ∧ (pending trail).erase p = stack := by
  rw [h]
  exact ⟨rfl, List.erase_cons_head p stack⟩

theorem Inside.failed (h : Inside (p :: stack) depth bound s) (f : Fault) :
    Inside stack depth bound' (s.noted (.failed p f)) where
  toSound := h.toSound.noted rfl (pending_returned h.pending_eq).1
  depth_eq := h.depth_eq
  pending_eq := (pending_concat _ _).trans (pending_returned h.pending_eq).2
  latest_le n hn := absurd ((latest_concat _ _).symm.trans hn) (by simp [Mark.latest])

/-- **A block is completed**: its handler was the innermost, and its depth is the last observed. -/
theorem Inside.completed (h : Inside (p :: stack) depth (depth + 1) s)
    (scope : Scope Action (Traced σ)) (v : Value) :
    let t := (Machine.completed scope v setup.traced
      { s with memory := { s.memory with place := p } }).2
    Inside stack depth depth t ∧ EndsWith p depth t.memory.trail := by
  intro t
  let o : Observation :=
    { id := scope.id, opcode := scope.opcode, module := scope.module, function := scope.function
      depth := s.depth, result := v, heap := s.heap, store := s.store
      emitted := s.events.size }
  have htrail : t.memory.trail = s.memory.trail ++ [.completed p o] := rfl
  have hdepth : o.depth = depth := h.depth_eq
  -- the handler of the block was the innermost that is pending, and is no longer
  refine ⟨⟨⟨?_, ?_⟩, h.depth_eq, ?_, ?_⟩, s.memory.trail, o, htrail, hdepth⟩ <;> rw [htrail]
  · refine h.lawful.concat ⟨(pending_returned h.pending_eq).1, fun n hn => ?_⟩
    rw [hdepth]
    exact h.latest_le n hn
  · change s.steps + 1 = _
    rw [observations_append, List.length_append, h.steps]
    rfl
  · rw [pending_concat]
    exact (pending_returned h.pending_eq).2
  · intro n hn
    rw [latest_concat] at hn
    exact (Option.some.inj hn).symm.trans hdepth |>.le

/-! ### Blocks and chains -/

/-- How a block, or some blocks of a chain, may end: with the marks in order, and with a completed
block as the last mark if there is a result. -/
def Finishes (stack : List Position) (depth : Nat) (Last : List Mark → Prop) :
    Outcome Value × State Action (Traced σ) → Prop
  | (.value _, s) => Inside stack depth depth s ∧ Last s.memory.trail
  | (.fault _, s) => Inside stack depth depth s
  | (.unfinished, s) => Sound s

theorem finishes_handledAt {scope : Scope Action (Traced σ)} {route : Route Action}
    (hs : Inside stack depth (depth + 1) s) (hp : Succeeds s.memory.trail p)
    (hscope : scope.Holds (Stays setup (p :: stack) depth)) :
    Finishes stack depth (EndsWith p depth) (handledAt p scope route setup.traced s) := by
  have hperform := Action.perform_closed closed_stays hscope route.handler _ (hs.invoked hp s.depth)
  rw [handledAt_apply]
  rcases hout : route.handler.perform scope setup.traced (s.noted (.invoked p s.depth)) with
    ⟨v | f | _, s'⟩ <;> rw [hout] at hperform
  · exact Inside.completed hperform scope v
  · exact Inside.failed hperform f
  · exact hperform

theorem finishes_dispatchAt {opcode id : String} {slots : List (Slot Action (Traced σ))}
    (hs : Inside stack depth (depth + 1) s) (hp : Succeeds s.memory.trail p)
    (hslots : ∀ slot ∈ slots, slot.Holds (Stays setup (p :: stack) depth)) :
    Finishes stack depth (EndsWith p depth) (dispatchAt p opcode id slots setup.traced s) := by
  -- routing keeps a route more and is not seen in the trail
  have hrouted : Inside stack depth (depth + 1) (afterRouting s opcode) := { hs with }
  rw [dispatchAt_apply]
  cases (s.registry.resolve opcode).1 with
  | ok route => exact finishes_handledAt hrouted hp hslots
  | error e => exact hrouted.stopped hp (.routing e)

theorem stays_slotsAt {members : List Member}
    (h : ∀ mem ∈ members, ∀ stem, Stays setup stack depth Value (executeAt stem mem.chain))
    (p : Position) (j : Nat) :
    ∀ slot ∈ slotsAt p j members, slot.Holds (Stays setup stack depth) := by
  induction members generalizing j with
  | nil => exact fun slot hslot => absurd hslot List.not_mem_nil
  | cons mem members ih =>
    refine List.forall_mem_cons.2
      ⟨?_, ih (fun mem' hmem => h mem' (List.mem_cons_of_mem mem hmem)) (j + 1)⟩
    have hmem := h mem List.mem_cons_self (p ++ [j])
    rw [slotAt_eq]
    cases mem with
    | expression name chain => exact hmem
    | literal name shadow => exact closed_stays.done _
    | statement name chain => exact hmem
    | field f => trivial

/-- Some block at this depth is completed last. -/
def EndsAt (depth : Nat) (trail : List Mark) : Prop := ∃ p, EndsWith p depth trail

/-- Blocks of a chain one after the other. -/
theorem finishes_andThen {Last : List Mark → Prop} {x : Job (Traced σ) Value}
    {f : Value → Job (Traced σ) Value}
    (hx : Finishes stack depth Last (x setup.traced s))
    (hf : ∀ v t, Inside stack depth depth t → Last t.memory.trail →
      Finishes stack depth (EndsAt depth) (f v setup.traced t)) :
    Finishes stack depth (EndsAt depth) ((x >>= f) setup.traced s) := by
  rw [Run.bind_apply]
  rcases hout : x setup.traced s with ⟨v | f | _, s'⟩ <;> rw [hout] at hx
  · exact hf v s' hx.1 hx.2
  · exact hx
  · exact hx

/-- What a chain does to the trail: the marks stay in order, and the last block of a chain that has
one is completed last. -/
def Executes (setup : Setup σ) (stack : List Position) (depth : Nat) (c : Chain)
    (x : Job (Traced σ) Value) : Prop :=
  ∀ s, Inside stack depth (depth + 1) s →
    Returns stack depth (depth + 1) (x setup.traced s) ∧
    ∀ v, (x setup.traced s).1 = .value v → c = [] ∨
      EndsAt (depth + 1) (x setup.traced s).2.memory.trail

/-- **Entering a chain and leaving it.** Inside, the depth is one more, and so is the bound. -/
theorem executes_nestedAt {c : Chain} {x : Job (Traced σ) Value} (p : Position) (id : String)
    (hp : ∀ trail, Succeeds trail p)
    (hx : ∀ s, Inside stack (depth + 1) (depth + 1) s →
      Finishes stack (depth + 1) (EndsAt (depth + 1)) (x setup.traced s)) :
    Executes setup stack depth c (nestedAt p id x) := by
  intro s hs
  rw [nestedAt_apply]
  split
  · -- the depth limit refuses the chain
    exact ⟨hs.stopped (hp _) _, fun v hv => absurd hv (by simp)⟩
  · -- inside it the depth is one more, and however it ends the depth is taken back
    have hinside : Inside stack (depth + 1) (depth + 1)
        { s.noted (.entered p) with depth := s.depth + 1 } :=
      { hs.entered p with depth_eq := congrArg (· + 1) hs.depth_eq }
    have hinner := hx _ hinside
    rcases hout : x setup.traced { s.noted (.entered p) with depth := s.depth + 1 } with
      ⟨v | f | _, s'⟩ <;> rw [hout] at hinner
    · exact ⟨{ hinner.1 with depth_eq := congrArg (· - 1) hinner.1.depth_eq },
        fun _ _ => .inr hinner.2⟩
    · exact ⟨{ hinner with depth_eq := congrArg (· - 1) hinner.depth_eq },
        fun _ hv => absurd hv (by simp)⟩
    · exact ⟨{ hinner with }, fun _ hv => absurd hv (by simp)⟩

/-- **A chain keeps the marks in order.** -/
theorem executes_executeAt (c : Chain) (stem : Position) (stack : List Position) (depth : Nat) :
    Executes setup stack depth c (executeAt stem c) := by
  -- along a chain, what was completed last is the block before
  suffices hboth : ∀ stem stack depth,
      Executes setup stack depth c (executeAt stem c) ∧
      ∀ i v s, Inside stack depth depth s → EndsWith (stem ++ [i]) depth s.memory.trail →
        Finishes stack depth (EndsAt depth) (executeRestAt stem (i + 1) v c setup.traced s)
    from (hboth stem stack depth).1
  refine Chain.induction (P := fun c => ∀ stem stack depth,
      Executes setup stack depth c (executeAt stem c) ∧
      ∀ i v s, Inside stack depth depth s → EndsWith (stem ++ [i]) depth s.memory.trail →
        Finishes stack depth (EndsAt depth)
          (executeRestAt stem (i + 1) v c setup.traced s)) ?_ ?_ c
  · intro stem stack depth
    exact ⟨fun s hs => ⟨hs, fun _ _ => .inl rfl⟩, fun i v s hs hlast => ⟨hs, _, hlast⟩⟩
  · intro b rest hslots hrest stem stack depth
    have hblock : ∀ p stack depth s, Inside stack depth depth s → Succeeds s.memory.trail p →
        Finishes stack depth (EndsWith p depth) (executeBlockAt p b setup.traced s) := by
      intro p stack depth s hs hp
      obtain ⟨opcode, id, members⟩ := b
      refine finishes_dispatchAt (hs.mono (Nat.le_succ depth)) hp (stays_slotsAt ?_ p 0)
      exact fun mem hmem stem t ht => ((hslots mem hmem stem (p :: stack) depth).1 t ht).1
    refine ⟨executes_nestedAt _ b.id (fun trail => succeeds_first trail stem) fun s hs => ?_,
      fun i v s hs hlast => ?_⟩
    · exact finishes_andThen (hblock _ _ _ s hs (succeeds_first _ stem)) fun v t ht hlast =>
        (hrest stem stack (depth + 1)).2 0 v t ht hlast
    · exact finishes_andThen (hblock _ _ _ s hs (succeeds_next hlast)) fun v t ht hlast =>
        (hrest stem stack depth).2 (i + 1) v t ht hlast

/-! ### Whole runs -/

variable {m : Machine σ}

theorem executes_recorded {document : Document} (hm : m.Reached document) :
    Returns [] 0 1 m.recorded ∧ ∀ v, m.recorded.1 = .value v →
      m.document.entry = [] ∨ EndsAt 1 m.trail := by
  refine executes_executeAt m.document.entry [] [] 0 _ ⟨⟨lawful_nil, rfl⟩, hm.atRest.depth, rfl, ?_⟩
  exact fun n hn => absurd hn (by simp [latest])

/-- **The trail of a run is in order**, and the steps are the blocks that the observer was told
of. -/
theorem Reached.sound {document : Document} (hm : m.Reached document) :
    Lawful m.trail ∧ m.run.2.state.steps = (observations m.trail).length := by
  have hsound : Sound m.recorded.2 := by
    have hreturns := (executes_recorded hm).1
    rcases hout : m.recorded with ⟨v | f | _, s'⟩ <;> rw [hout] at hreturns
    · exact hreturns.toSound
    · exact hreturns.toSound
    · exact hreturns
  refine ⟨hsound.lawful, ?_⟩
  rw [← m.recorded_eq.2.1]
  exact hsound.steps

/-- When a run has ended, every handler has returned. -/
theorem Reached.pending_eq {document : Document} (hm : m.Reached document)
    (hend : m.run.1 ≠ .unfinished) : pending m.trail = [] := by
  have hreturns := (executes_recorded hm).1
  rw [← m.recorded_eq.1] at hend
  unfold trail
  rcases hout : m.recorded with ⟨v | f | _, s'⟩ <;> rw [hout] at hreturns hend
  · exact hreturns.pending_eq
  · exact hreturns.pending_eq
  · exact absurd rfl hend

/-- A run with a result completes a block of the document's own chain last. -/
theorem Reached.last_depth {document : Document} (hm : m.Reached document) {v : Value}
    (hv : m.run.1 = .value v) {o : Observation} (ho : (observations m.trail).getLast? = some o) :
    o.depth = 1 := by
  rw [← m.recorded_eq.1] at hv
  rcases (executes_recorded hm).2 v hv with hempty | ⟨p, earlier, o', htrail, hdepth⟩
  · -- an empty chain leaves no marks
    have htrail : m.trail = [] := by
      unfold trail recorded
      rw [hempty]
      rfl
    rw [htrail] at ho
    exact absurd ho (by simp [observations])
  · rw [htrail, observations_append] at ho
    have hlast : (observations earlier ++ observations [.completed p o']).getLast? = some o' :=
      List.getLast?_concat
    rw [hlast] at ho
    rw [← Option.some.inj ho, hdepth]

end Machine

/-! ### Invocations and returns -/

/-- Every handler that is invoked in these marks returns in them. -/
def Balanced (marks : List Mark) : Prop := ∀ stack, marks.foldl Mark.pending stack = stack

theorem Balanced.append {marks marks' : List Mark} (h : Balanced marks) (h' : Balanced marks') :
    Balanced (marks ++ marks') := by
  intro stack
  rw [List.foldl_append, h, h']

/-- A handler with all that it ran. -/
theorem Balanced.handled {marks : List Mark} (h : Balanced marks) {p : Position} (depth : Nat)
    {mark : Mark} (hmark : ∀ stack, mark.pending stack = stack.erase p) :
    Balanced (.invoked p depth :: marks ++ [mark]) := by
  intro stack
  rw [List.cons_append, List.foldl_cons, List.foldl_append, h]
  exact (hmark _).trans (List.erase_cons_head p stack)

/-- A trail taken apart at the invocations that have not returned. -/
inductive Open : List Position → List Mark → Prop where
  | closed {marks : List Mark} : Balanced marks → Open [] marks
  | inside {outer : List Position} {earlier inner : List Mark} (p : Position) (depth : Nat) :
      Open outer earlier → Balanced inner → Open (p :: outer) (earlier ++ .invoked p depth :: inner)

theorem Open.append {stack : List Position} {trail marks : List Mark} (h : Open stack trail)
    (hmarks : Balanced marks) : Open stack (trail ++ marks) := by
  cases h with
  | closed hbalanced => exact .closed (hbalanced.append hmarks)
  | inside p depth houter hinner =>
    rw [List.append_assoc, List.cons_append]
    exact .inside p depth houter (hinner.append hmarks)

/-- The innermost handler returns. -/
theorem Open.returned {p : Position} {outer : List Position} {trail : List Mark}
    (h : Open (p :: outer) trail) {mark : Mark}
    (hmark : ∀ stack, mark.pending stack = stack.erase p) : Open outer (trail ++ [mark]) := by
  cases h with
  | inside _ depth houter hinner =>
    rw [List.append_assoc]
    exact houter.append (hinner.handled depth hmark)

/-- **A trail in order comes apart at its pending handlers.** -/
theorem Lawful.opens {trail : List Mark} (h : Lawful trail) : Open (pending trail) trail := by
  induction trail using List.reverseRecOn with
  | nil => exact .closed fun _ => rfl
  | append_singleton trail mark ih =>
    have hopen := ih h.of_append
    have hallowed := h trail mark [] rfl
    rw [pending_concat]
    -- only the innermost pending handler may return
    cases mark with
    | entered p => exact hopen.append fun _ => rfl
    | stopped p f => exact hopen.append fun _ => rfl
    | invoked p depth => exact .inside p depth hopen fun _ => rfl
    | completed p o =>
      obtain ⟨outer, houter⟩ := List.head?_eq_some_iff.1 hallowed.1
      rw [houter] at hopen ⊢
      change Open ((p :: outer).erase p) _
      rw [List.erase_cons_head]
      exact hopen.returned fun _ => rfl
    | failed p f =>
      obtain ⟨outer, houter⟩ := List.head?_eq_some_iff.1 hallowed
      rw [houter] at hopen ⊢
      change Open ((p :: outer).erase p) _
      rw [List.erase_cons_head]
      exact hopen.returned fun _ => rfl

/-- **What a handler ran has returned before it returns.** -/
theorem Lawful.exists_invoked {before after : List Mark} {mark : Mark} {p : Position}
    (h : Lawful (before ++ mark :: after)) (hp : (pending before).head? = some p) :
    ∃ earlier depth inner, before = earlier ++ .invoked p depth :: inner ∧ Balanced inner := by
  have hopen := h.of_append.opens
  obtain ⟨outer, houter⟩ := List.head?_eq_some_iff.1 hp
  rw [houter] at hopen
  generalize hbefore : before = trail at hopen
  cases hopen with
  | inside _ depth _ hinner => exact ⟨_, depth, _, rfl, hinner⟩

/-- The handler of the block at a position is invoked. -/
def Mark.invokes (p : Position) : Mark → Bool
  | invoked q _ => q == p
  | _ => false

/-- The observer is told that this block is completed. -/
def Mark.observes (p : Position) : Mark → Bool
  | completed q _ => q == p
  | _ => false

/-- The handler of this block returns with a fault. -/
def Mark.fails (p : Position) : Mark → Bool
  | failed q _ => q == p
  | _ => false

/-- **A handler returns once for each time it is invoked**: its block is observed, or it fails, or
it is still pending. -/
theorem Lawful.countP_invokes {trail : List Mark} (h : Lawful trail) (p : Position) :
    trail.countP (Mark.invokes p) = trail.countP (Mark.observes p) + trail.countP (Mark.fails p) +
      (pending trail).count p := by
  induction trail using List.reverseRecOn with
  | nil => rfl
  | append_singleton trail mark ih =>
    have hcount := ih h.of_append
    have hallowed := h trail mark [] rfl
    rw [pending_concat]
    rw [List.countP_append, List.countP_append, List.countP_append]
    -- a handler that returns is the innermost pending one, so it is taken off the count
    cases mark with
    | entered q => exact hcount
    | stopped q f => exact hcount
    | invoked q depth =>
      by_cases hq : q = p
      · simp [Mark.invokes, Mark.observes, Mark.fails, Mark.pending, hq, hcount]
        omega
      · simp [Mark.invokes, Mark.observes, Mark.fails, Mark.pending, hq, hcount]
    | completed q o =>
      obtain ⟨outer, houter⟩ := List.head?_eq_some_iff.1 hallowed.1
      rw [houter] at hcount
      by_cases hq : q = p <;>
        simp [Mark.invokes, Mark.observes, Mark.fails, Mark.pending, hq, houter] at hcount ⊢ <;>
        omega
    | failed q f =>
      obtain ⟨outer, houter⟩ := List.head?_eq_some_iff.1 hallowed
      rw [houter] at hcount
      by_cases hq : q = p <;>
        simp [Mark.invokes, Mark.observes, Mark.fails, Mark.pending, hq, houter] at hcount ⊢ <;>
        omega

/-! ### Depths -/

/-- Marks between two completed blocks. -/
theorem latest_of_quiet {before between : List Mark} {p : Position} {o : Observation}
    (h : ∀ mark ∈ between, mark.isFault = false ∧ mark.observation? = none) :
    latest (before ++ .completed p o :: between) = some o.depth := by
  have hquiet : ∀ depth, between.foldl Mark.latest (some depth) = some depth := by
    induction between with
    | nil => exact fun depth => rfl
    | cons mark between ih =>
      intro depth
      obtain ⟨hmark, hrest⟩ := List.forall_mem_cons.1 h
      have hkept : mark.latest (some depth) = some depth := by
        cases mark with
        | completed q o' => exact absurd hmark.2 (by simp [Mark.observation?])
        | stopped q f => exact absurd hmark.1 (by simp [Mark.isFault])
        | failed q f => exact absurd hmark.1 (by simp [Mark.isFault])
        | _ => rfl
      rw [List.foldl_cons, hkept]
      exact ih hrest depth
  rw [latest, List.foldl_append, List.foldl_cons]
  exact hquiet o.depth

/-- **From one completed block to the next** the depth drops by one at most, if nothing failed in
between. -/
theorem Lawful.depth_le {before between after : List Mark} {p q : Position} {o o' : Observation}
    (h : Lawful (before ++ .completed p o :: (between ++ .completed q o' :: after)))
    (hquiet : ∀ mark ∈ between, mark.isFault = false ∧ mark.observation? = none) :
    o.depth ≤ o'.depth + 1 := by
  rw [← List.cons_append, ← List.append_assoc] at h
  exact (h _ _ after rfl).2 o.depth (latest_of_quiet hquiet)

/-- Where nothing fails, the observed depths drop by one at most from step to step. -/
theorem Lawful.isChain {trail : List Mark} (h : Lawful trail)
    (hcalm : ∀ mark ∈ trail, mark.isFault = false) :
    (observations trail).IsChain fun o o' => o.depth ≤ o'.depth + 1 := by
  -- the last observed depth is that of the last observation
  suffices hboth : ((observations trail).IsChain fun o o' => o.depth ≤ o'.depth + 1) ∧
      latest trail = (observations trail).getLast?.map (·.depth) from hboth.1
  induction trail using List.reverseRecOn with
  | nil => exact ⟨.nil, rfl⟩
  | append_singleton trail mark ih =>
    obtain ⟨hbefore, hmark⟩ := List.forall_mem_append.1 hcalm
    obtain ⟨hchain, hlatest⟩ := ih h.of_append hbefore
    have hallowed := h trail mark [] rfl
    rw [observations_append, latest_concat]
    cases mark with
    | completed p o =>
      have hone : observations [Mark.completed p o] = [o] := rfl
      rw [hone, List.getLast?_concat]
      refine ⟨hchain.append (.singleton o) fun x hx y hy => ?_, rfl⟩
      obtain rfl := Option.some.inj hy
      refine hallowed.2 x.depth ?_
      rw [hlatest, hx, Option.map_some]
    | stopped p f => exact absurd (hmark _ List.mem_cons_self) (by simp [Mark.isFault])
    | failed p f => exact absurd (hmark _ List.mem_cons_self) (by simp [Mark.isFault])
    | entered p =>
      rw [observations_singleton rfl, List.append_nil]
      exact ⟨hchain, hlatest⟩
    | invoked p depth =>
      rw [observations_singleton rfl, List.append_nil]
      exact ⟨hchain, hlatest⟩

end Blockwork
