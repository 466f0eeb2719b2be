import Blockwork.Proofs.Machine.Calls
import Blockwork.Proofs.Machine.Declared

/-!
# What a run writes

Variables and lists are written by seven data blocks. Two assign the variable that their field
`VARIABLE` names. Five change a list, the one in the variable that their field `LIST` names; and if
that variable was never assigned, they give it a new list first. Everything else that a run does
leaves variables and lists alone, however blocks nest and however they end.

The statement is local. Between two moments of a run that follow each other, a variable or a list
changes only through the block that has just been dispatched or that is just ending: a variable is
assigned, and a list changed, at the very end of its block, while a new list is put into its variable
right after the dispatch. `LiveHeap.Step` says so of two moments and `LiveHeap.Evolves` of a stretch
of them, which may begin inside a block that can still fill its variable and end inside one that is
about to write. Stretches are put together (`Evolves.append`) as the parts of actions are, so a block
that does not write is covered by `Action.perform_steady`, and only the writers are looked at.

From the local statement follows what holds over a stretch: who made the difference
(`Evolves.binding`, `Evolves.items`). A call is a stretch too, from its dispatch to its end, and what
ends in it was dispatched in it (`Machine.writes_are_framed`).
-/

namespace Blockwork

/-! ### The blocks that write -/

/-- The field in which an action names the variable that it writes. -/
def Action.target? : Action → Option String
  | .data d => d.target?
  | _ => none

/-- The opcodes of blocks that assign a variable. -/
def Blocks.setterOpcodes : List String := ["data_setvariableto", "data_changevariableby"]

/-- The opcodes of blocks that change a list. -/
def Blocks.listWriterOpcodes : List String :=
  ["data_addtolist", "data_deletealloflist", "data_deleteoflist", "data_insertatlist",
   "data_replaceitemoflist"]

/-- The last field of a block with a name. -/
def Block.field? (b : Block) (name : String) : Option Field :=
  b.members.reverse.findSome? fun
    | .field f => if f.name == name then some f else none
    | _ => none

namespace Dispatch

/-- The block names a variable in a field; of several fields with one name the last counts. -/
def Names (d : Dispatch) (field x : String) : Prop :=
  ∃ f, d.block.field? field = some f ∧ f.value = x

/-- **The block assigns the variable.** -/
def Sets (d : Dispatch) (x : String) : Prop :=
  d.block.opcode ∈ Blocks.setterOpcodes ∧ d.Names "VARIABLE" x

/-- The block changes the list in the variable. -/
def WritesList (d : Dispatch) (x : String) : Prop :=
  d.block.opcode ∈ Blocks.listWriterOpcodes ∧ d.Names "LIST" x

/-- **The block gives the variable a list**: it changes the list in it, and found it unassigned. -/
def Fills (d : Dispatch) (x : String) : Prop :=
  d.WritesList x ∧ d.before.heap.get? x = some .undefined

/-- **The block changes this list**: its variable had the list when the block was dispatched, or the
block made it. -/
def Changes (d : Dispatch) (id : ListId) : Prop :=
  ∃ x, d.WritesList x ∧ (d.before.heap.get? x = some (.list id) ∨
    d.before.heap.get? x = some .undefined ∧ id = (d.before.store.create #[]).1)

end Dispatch

/-! ### Steps and stretches -/

namespace LiveHeap

/-- **From one moment to the next.** A block that has just been dispatched may fill its variable, and
a block that is about to end may write. -/
structure Step (fills writes : Option Dispatch) (l l' : LiveHeap) : Prop where
  binding : ∀ x, l'.heap.get? x ≠ l.heap.get? x →
    (∃ d ∈ writes, d.Sets x) ∨ ∃ d ∈ fills, d.Fills x
  items : ∀ id, l'.store.items id ≠ l.store.items id → ∃ d ∈ writes, d.Changes id

/-- **Along a stretch of moments.** `fills` may fill its variable before the first of them, and
`writes` may write after the last. -/
def Evolves (writes : Option Dispatch) :
    (fills : Option Dispatch) → LiveHeap → List Moment → LiveHeap → Prop
  | fills, l, [], l' => l.Step fills writes l'
  | fills, l, m :: ms, l' => l.Step fills m.ended? m.live ∧ Evolves writes m.begun? m.live ms l'

variable {fills writes : Option Dispatch} {l l' l'' : LiveHeap}

/-- Nothing changes that can be seen. -/
theorem Step.of_eq (hheap : l'.heap = l.heap) (hitems : l'.store.Alike l.store) :
    l.Step fills writes l' where
  binding _ hx := absurd (by rw [hheap]) hx
  items id hid := absurd (hitems id) hid

theorem Step.trans (h : l.Step fills writes l') (h' : l'.Step fills writes l'') :
    l.Step fills writes l'' where
  binding x hx := by
    by_cases hfirst : l'.heap.get? x = l.heap.get? x
    · exact h'.binding x (hfirst ▸ hx)
    · exact h.binding x hfirst
  items id hid := by
    by_cases hfirst : l'.store.items id = l.store.items id
    · exact h'.items id (hfirst ▸ hid)
    · exact h.items id hfirst

theorem Step.mono {fills' writes' : Option Dispatch} (h : l.Step fills writes l')
    (hfills : ∀ d ∈ fills, d ∈ fills') (hwrites : ∀ d ∈ writes, d ∈ writes') :
    l.Step fills' writes' l' where
  binding x hx := by
    rcases h.binding x hx with ⟨d, hd, hsets⟩ | ⟨d, hd, hd'⟩
    · exact .inl ⟨d, hwrites d hd, hsets⟩
    · exact .inr ⟨d, hfills d hd, hd'⟩
  items id hid := by
    obtain ⟨d, hd, hchanges⟩ := h.items id hid
    exact ⟨d, hwrites d hd, hchanges⟩

/-- What a block fills comes first, and what the next one writes comes last. -/
theorem Step.andThen (h : l.Step fills none l') (h' : l'.Step none writes l'') :
    l.Step fills writes l'' :=
  (h.mono (fun _ hd => hd) nofun).trans (h'.mono nofun fun _ hd => hd)

namespace Evolves

theorem mono {fills' writes' : Option Dispatch} {ms : List Moment}
    (h : Evolves writes fills l ms l') (hfills : ∀ d ∈ fills, d ∈ fills')
    (hwrites : ∀ d ∈ writes, d ∈ writes') : Evolves writes' fills' l ms l' := by
  induction ms generalizing fills fills' l with
  | nil => exact Step.mono h hfills hwrites
  | cons m ms ih => exact ⟨h.1.mono hfills fun _ hd => hd, ih h.2 fun _ hd => hd⟩

/-- **Stretches are put together** where nothing is about to be filled or written. -/
theorem append {ms ms' : List Moment} (h : Evolves none fills l ms l')
    (h' : Evolves writes none l' ms' l'') : Evolves writes fills l (ms ++ ms') l'' := by
  induction ms generalizing fills l with
  | cons m ms ih => exact ⟨h.1, ih h.2⟩
  | nil =>
    -- the place where they meet lies between two moments
    cases ms' with
    | nil => exact Step.andThen h h'
    | cons m ms' => exact ⟨Step.andThen h h'.1, h'.2⟩

/-- The end of a block closes the stretch inside it. -/
theorem concat_ended {ms : List Moment} {d : Dispatch}
    (h : Evolves (some d) fills l ms l') : Evolves none fills l (ms ++ [.ended d l']) l' := by
  induction ms generalizing fills l with
  | nil => exact ⟨h, .of_eq rfl fun _ => rfl⟩
  | cons m ms ih => exact ⟨h.1, ih h.2⟩

/-- **A call**, from the stretch between its dispatch and its end. -/
theorem call {d : Dispatch} {inner : List Call}
    (h : Evolves (some d) (some d) d.before (Call.momentsOf inner) l') :
    Evolves none none d.before (Call.momentsOf [.mk d inner l']) l' := by
  rw [Call.momentsOf_singleton, Call.moments]
  exact ⟨.of_eq rfl fun _ => rfl, h.concat_ended⟩

/-- What follows a moment. -/
theorem of_append_cons {earlier later : List Moment} {m : Moment}
    (h : Evolves writes fills l (earlier ++ m :: later) l') :
    Evolves writes m.begun? m.live later l' := by
  induction earlier generalizing fills l with
  | nil => exact h.2
  | cons m' earlier ih => exact ih h.2

/-- What comes before a moment. -/
theorem before_cons {earlier later : List Moment} {m : Moment}
    (h : Evolves writes fills l (earlier ++ m :: later) l') :
    Evolves m.ended? fills l earlier m.live := by
  induction earlier generalizing fills l with
  | nil => exact h.1
  | cons m' earlier ih => exact ⟨h.1, ih h.2⟩

/-- **Who changed a variable**: a block that assigns it and ended in the stretch, or one that was
dispatched in it and found the variable unassigned, which then it was from the start. -/
theorem binding {ms : List Moment} (h : Evolves writes fills l ms l')
    (hfills : ∀ d ∈ fills, d.before = l) {x : String}
    (hx : l'.heap.get? x ≠ l.heap.get? x) :
    (∃ d, (d ∈ writes ∨ ∃ after, .ended d after ∈ ms) ∧ d.Sets x) ∨
    l.heap.get? x = some .undefined ∧ ∃ d, (d ∈ fills ∨ .begun d ∈ ms) ∧ d.Fills x := by
  induction ms generalizing fills l with
  | nil =>
    rcases Step.binding h x hx with ⟨d, hd, hsets⟩ | ⟨d, hd, hd'⟩
    · exact .inl ⟨d, .inl hd, hsets⟩
    · exact .inr ⟨hfills d hd ▸ hd'.2, d, .inl hd, hd'⟩
  | cons m ms ih =>
    by_cases hfirst : m.live.heap.get? x = l.heap.get? x
    · -- the variable is as it was at the first moment, so the change came later
      rcases ih h.2 (fun d hd => Moment.before_of_mem_begun? hd) (hfirst ▸ hx) with
        ⟨d, hd | ⟨after, hmem⟩, hsets⟩ | ⟨hundefined, d, hd | hmem, hd'⟩
      · exact .inl ⟨d, .inl hd, hsets⟩
      · exact .inl ⟨d, .inr ⟨after, List.mem_cons_of_mem m hmem⟩, hsets⟩
      · have hm : m = .begun d := Moment.eq_begun hd
        exact .inr ⟨hfirst ▸ hundefined, d, .inr (hm ▸ List.mem_cons_self), hd'⟩
      · exact .inr ⟨hfirst ▸ hundefined, d, .inr (List.mem_cons_of_mem m hmem), hd'⟩
    · rcases h.1.binding x hfirst with ⟨d, hd, hsets⟩ | ⟨d, hd, hd'⟩
      · obtain ⟨after, hm⟩ := Moment.eq_ended hd
        exact .inl ⟨d, .inr ⟨after, hm ▸ List.mem_cons_self⟩, hsets⟩
      · exact .inr ⟨hfills d hd ▸ hd'.2, d, .inl hd, hd'⟩

/-- **Who changed a list**: a block that ended in the stretch. -/
theorem items {ms : List Moment} (h : Evolves writes fills l ms l') {id : ListId}
    (hid : l'.store.items id ≠ l.store.items id) :
    ∃ d, (d ∈ writes ∨ ∃ after, .ended d after ∈ ms) ∧ d.Changes id := by
  induction ms generalizing fills l with
  | nil =>
    obtain ⟨d, hd, hchanges⟩ := Step.items h id hid
    exact ⟨d, .inl hd, hchanges⟩
  | cons m ms ih =>
    by_cases hfirst : m.live.store.items id = l.store.items id
    · obtain ⟨d, hd | ⟨after, hmem⟩, hchanges⟩ := ih h.2 (hfirst ▸ hid)
      · exact ⟨d, .inl hd, hchanges⟩
      · exact ⟨d, .inr ⟨after, List.mem_cons_of_mem m hmem⟩, hchanges⟩
    · obtain ⟨d, hd, hchanges⟩ := h.1.items id hfirst
      obtain ⟨after, hm⟩ := Moment.eq_ended hd
      exact ⟨d, .inr ⟨after, hm ▸ List.mem_cons_self⟩, hchanges⟩

end Evolves

end LiveHeap

open LiveHeap (Evolves Step)

/-! ### Computations along a stretch -/

/-- **From one state to another**: the modules are kept, and calls are added along whose moments the
variables and the lists evolve. -/
structure State.Advances {σ : Type} (modules : List (String × Table Action))
    (fills writes : Option Dispatch) (s s' : State Action (Calling σ)) : Prop where
  registry : s'.registry.Holds modules
  evolves : ∃ calls, s'.memory.calls = s.memory.calls ++ calls ∧
    Evolves writes fills s.live (Call.momentsOf calls) s'.live

namespace State.Advances

variable {σ : Type} {modules : List (String × Table Action)} {fills writes : Option Dispatch}
  {s s' s'' : State Action (Calling σ)}

/-- Without calls. -/
theorem of_step (hregistry : s'.registry.Holds modules)
    (hcalls : s'.memory.calls = s.memory.calls) (hstep : s.live.Step fills writes s'.live) :
    s.Advances modules fills writes s' :=
  ⟨hregistry, [], hcalls.trans (List.append_nil _).symm, hstep⟩

theorem refl (hregistry : s.registry.Holds modules) : s.Advances modules fills writes s :=
  of_step hregistry rfl (.of_eq rfl fun _ => rfl)

theorem mono {fills' writes' : Option Dispatch} (h : s.Advances modules fills writes s')
    (hfills : ∀ d ∈ fills, d ∈ fills') (hwrites : ∀ d ∈ writes, d ∈ writes') :
    s.Advances modules fills' writes' s' := by
  obtain ⟨hregistry, calls, hcalls, hevolves⟩ := h
  exact ⟨hregistry, calls, hcalls, hevolves.mono hfills hwrites⟩

theorem trans (h : s.Advances modules fills none s') (h' : s'.Advances modules none writes s'') :
    s.Advances modules fills writes s'' := by
  obtain ⟨-, calls, hcalls, hevolves⟩ := h
  obtain ⟨hregistry, calls', hcalls', hevolves'⟩ := h'
  refine ⟨hregistry, calls ++ calls', ?_, ?_⟩
  · rw [hcalls', hcalls, List.append_assoc]
  · rw [Call.momentsOf_append]
    exact hevolves.append hevolves'

end State.Advances

/-- **A computation that writes nothing but what these two dispatches may**, the one at its beginning
and the other at its end. -/
def Run.Writes {σ : Type} (setup : Setup σ) (modules : List (String × Table Action))
    (fills writes : Option Dispatch) (β : Type) (x : Job (Calling σ) β) : Prop :=
  ∀ s : State Action (Calling σ), s.registry.Holds modules →
    s.Advances modules fills writes (x setup.calling s).2

namespace Run

variable {σ : Type} {setup : Setup σ} {modules : List (String × Table Action)}
  {fills writes : Option Dispatch} {β γ : Type}

theorem Writes.mono {fills' writes' : Option Dispatch} {x : Job (Calling σ) β}
    (hx : Writes setup modules fills writes β x) (hfills : ∀ d ∈ fills, d ∈ fills')
    (hwrites : ∀ d ∈ writes, d ∈ writes') : Writes setup modules fills' writes' β x :=
  fun s hs => (hx s hs).mono hfills hwrites

theorem Writes.andThen {x : Job (Calling σ) β} {f : β → Job (Calling σ) γ}
    (hx : Writes setup modules fills none β x) (hf : ∀ b, Writes setup modules none writes γ (f b)) :
    Writes setup modules fills writes γ (x >>= f) := by
  intro s hs
  have hfirst := hx s hs
  rw [bind_apply]
  rcases hout : x setup.calling s with ⟨b | e | _, s'⟩ <;> rw [hout] at hfirst
  · exact hfirst.trans (hf b s' hfirst.registry)
  · exact hfirst.mono (fun _ hd => hd) nofun
  · exact hfirst.mono (fun _ hd => hd) nofun

/-- What is written last is followed by nothing but the result. -/
theorem Writes.andDone {x : Job (Calling σ) β} (hx : Writes setup modules fills writes β x)
    (c : γ) : Writes setup modules fills writes γ (x >>= fun _ => Run.done c) := by
  intro s hs
  have hfirst := hx s hs
  rw [bind_apply]
  rcases hout : x setup.calling s with ⟨b | e | _, s'⟩ <;> rw [hout] at hfirst <;> exact hfirst

theorem Writes.mapFault {x : Job (Calling σ) β} (hx : Writes setup modules fills writes β x)
    (g : Fault → Fault) : Writes setup modules fills writes β (x.mapFault g) := by
  intro s hs
  have hfirst := hx s hs
  unfold Run.mapFault
  rcases hout : x setup.calling s with ⟨b | e | _, s'⟩ <;> rw [hout] at hfirst <;> exact hfirst

/-- Computations without calls that change neither variables nor lists. -/
theorem writes_of_eq {x : Job (Calling σ) β}
    (hregistry : ∀ s, (x setup.calling s).2.registry = s.registry)
    (hcalls : ∀ s, (x setup.calling s).2.memory.calls = s.memory.calls)
    (hheap : ∀ s, (x setup.calling s).2.heap = s.heap)
    (hitems : ∀ s, (x setup.calling s).2.store.Alike s.store) :
    Writes setup modules fills writes β x :=
  fun s hs => .of_step ((hregistry s).symm ▸ hs) (hcalls s) (.of_eq (hheap s) (hitems s))

/-- **The parts that change no variable and no list.** -/
theorem steady_writes : Steady (Writes setup modules none none) where
  read _ := writes_of_eq (fun _ => rfl) (fun _ => rfl) (fun _ => rfl) fun _ _ => rfl
  andThen hx hf := hx.andThen hf
  fail _ := writes_of_eq (fun _ => rfl) (fun _ => rfl) (fun _ => rfl) fun _ _ => rfl
  exhausted := writes_of_eq (fun _ => rfl) (fun _ => rfl) (fun _ => rfl) fun _ _ => rfl
  emptyList :=
    writes_of_eq (fun _ => rfl) (fun _ => rfl) (fun _ => rfl) fun s =>
      Store.alike_create_empty s.store
  emit _ := writes_of_eq (fun _ => rfl) (fun _ => rfl) (fun _ => rfl) fun _ _ => rfl

/-! ### The blocks that write -/

theorem get?_of_set? {h h' : Heap} {name x : String} {v : Value}
    (hset : h.set? name v = some h') (hx : x ≠ name) : h'.get? x = h.get? x := by
  unfold Heap.set? at hset
  split at hset
  · obtain rfl := Option.some.inj hset
    exact h.get?_put_of_ne hx v
  · exact absurd hset (by simp)

theorem writes_assign {d : Dispatch} {name : String} (hd : d.Sets name) (v : Value) :
    Writes setup modules none (some d) Unit (assign name v) := by
  intro s hs
  rw [assign_apply]
  cases hset : s.heap.set? name v with
  | none => exact .refl hs
  | some heap =>
    refine .of_step hs rfl ⟨fun x hx => ?_, fun id hid => absurd rfl hid⟩
    by_cases hname : x = name
    · exact .inl ⟨d, rfl, hname ▸ hd⟩
    · exact absurd (get?_of_set? hset hname) hx

theorem writes_updateList {d : Dispatch} {id : ListId} (hd : d.Changes id)
    (f : Array Value → Array Value) :
    Writes setup modules none (some d) Unit (updateList id f) := by
  intro s hs
  refine .of_step hs rfl ⟨fun x hx => absurd rfl hx, fun other hother => ?_⟩
  by_cases hid : other = id
  · exact ⟨d, rfl, hid ▸ hd⟩
  · exact absurd (Store.items_update_of_ne _ f hid) hother

/-- What is done with the text of a field. -/
theorem writes_fieldText {scope : Scope Action (Calling σ)} {slot : String}
    {f : String → Job (Calling σ) β}
    (hf : ∀ field, scope.field? slot = some field →
      Writes setup modules none writes β (f field.value)) :
    Writes setup modules none writes β (scope.fieldText slot >>= f) := by
  cases hfound : scope.field? slot with
  | none =>
    unfold Scope.fieldText Scope.getField
    rw [hfound]
    exact fun s hs => .refl hs
  | some field =>
    rw [Blocks.Data.fieldText_of_field? hfound]
    exact hf field hfound

/-- A variable that was never assigned gets a new list. -/
theorem listIn_unassigned {α σ : Type} {name : String} {s : State α σ}
    (hget : s.heap.get? name = some .undefined) (setup : Setup σ) :
    ∃ heap, s.heap.set? name (.list (s.store.create #[]).1) = some heap ∧
      Blocks.Data.listIn true name setup s
        = (.value (s.store.create #[]).1,
            { s with heap := heap, store := (s.store.create #[]).2 }) := by
  have hset : s.heap.set? name (.list (s.store.create #[]).1)
      = some (s.heap.put name (.list (s.store.create #[]).1)) :=
    if_pos (Heap.contains_of_get? hget)
  refine ⟨_, hset, ?_⟩
  unfold Blocks.Data.listIn
  rw [bind_apply, lookup_apply, hget]
  change (newList #[] >>= fun id => assign name (.list id) >>= fun _ => Run.done id) setup s = _
  rw [bind_apply]
  change (assign name (.list (s.store.create #[]).1) >>= _) setup
    { s with store := (s.store.create #[]).2 } = _
  rw [bind_apply, assign_apply, hset]
  rfl

/-- **A block that gets at its list and goes on with it.** At its dispatch the variable has the list,
or gets a new one; either way the block may change it. -/
theorem advances_list {d : Dispatch} {scope : Scope Action (Calling σ)}
    (hopcode : d.block.opcode ∈ Blocks.listWriterOpcodes)
    (hfield : scope.field? "LIST" = d.block.field? "LIST")
    {f : ListId → Job (Calling σ) Value}
    (hf : ∀ id, d.Changes id → Writes setup modules none (some d) Value (f id))
    {s : State Action (Calling σ)} (hs : s.registry.Holds modules) (hlive : s.live = d.before) :
    s.Advances modules (some d) (some d)
      ((Blocks.Data.list true scope >>= f) setup.calling s).2 := by
  cases hfound : scope.field? "LIST" with
  | none =>
    unfold Blocks.Data.list Scope.fieldText Scope.getField
    rw [hfound]
    exact .refl hs
  | some field =>
    have hwrites : d.WritesList field.value := ⟨hopcode, field, hfield ▸ hfound, rfl⟩
    have hheap : d.before.heap = s.heap := congrArg LiveHeap.heap hlive.symm
    have hstore : d.before.store = s.store := congrArg LiveHeap.store hlive.symm
    -- the variable is the one that the field names
    have hlist : Blocks.Data.list true scope = Blocks.Data.listIn true field.value := by
      unfold Blocks.Data.list
      rw [Blocks.Data.fieldText_of_field? hfound]
      rfl
    rw [hlist, bind_apply]
    cases hget : s.heap.get? field.value with
    | none =>
      unfold Blocks.Data.listIn
      rw [bind_apply, lookup_apply, hget]
      exact .refl hs
    | some v =>
      have hbefore : d.before.heap.get? field.value = some v := hheap ▸ hget
      cases v with
      | undefined =>
        -- the variable gets a list before anything else is evaluated
        obtain ⟨heap, hset, hnew⟩ := listIn_unassigned hget setup.calling
        have hid : d.Changes (s.store.create #[]).1 :=
          ⟨field.value, hwrites, .inr ⟨hbefore, by rw [hstore]⟩⟩
        rw [hnew]
        have hfilled : s.Advances modules (some d) none
            { s with heap := heap, store := (s.store.create #[]).2 } := .of_step hs rfl ?_
        · exact hfilled.trans (hf _ hid _ hs)
        refine ⟨fun x hx => ?_, fun id hid => absurd (Store.alike_create_empty s.store id) hid⟩
        by_cases hname : x = field.value
        · exact .inr ⟨d, rfl, hname ▸ hwrites, hname ▸ hbefore⟩
        · exact absurd (get?_of_set? hset hname) hx
      | list id =>
        unfold Blocks.Data.listIn
        rw [bind_apply, lookup_apply, hget]
        -- the list was there at the dispatch
        exact (hf id ⟨_, hwrites, .inl hbefore⟩ s hs).mono nofun fun _ hd => hd
      | number _ | text _ | truth _ | noList =>
        unfold Blocks.Data.listIn
        rw [bind_apply, lookup_apply, hget]
        exact .refl hs

/-- **What the handler of a block writes** is what its dispatch may: the slots write nothing on its
account, so the only writes are those of the seven functions themselves. -/
theorem advances_perform {d : Dispatch} (scope : Scope Action (Calling σ)) {a : Action}
    (hprobe : a.isProbe = false)
    (hsetter : a.target? = some "VARIABLE" → d.block.opcode ∈ Blocks.setterOpcodes)
    (hlist : a.target? = some "LIST" → d.block.opcode ∈ Blocks.listWriterOpcodes)
    (hfield : ∀ name, scope.field? name = d.block.field? name)
    (hslots : scope.Holds (Writes setup modules none none))
    {s : State Action (Calling σ)} (hs : s.registry.Holds modules) (hlive : s.live = d.before) :
    s.Advances modules (some d) (some d) (a.perform scope setup.calling s).2 := by
  have hvalue : ∀ name, Writes setup modules none none Value (scope.evaluate name) :=
    steady_writes.calm.evaluate hslots
  have hindex : ∀ name, Writes setup modules none none Int (scope.index name) :=
    steady_writes.calm.index hslots
  cases hwrites : a.writes with
  | false =>
    -- an action without a target does no more than its slots
    exact (Action.perform_steady steady_writes hslots hprobe hwrites s hs).mono nofun nofun
  | true =>
    cases a with
    | data data =>
      cases data with
      | set =>
        -- the assignment is on account of this dispatch, and what the slot does on its own
        have hset : Writes setup modules none (some d) Value (Blocks.Data.set.perform scope) := by
          refine writes_fieldText fun field hfound => (hvalue "VALUE").andThen fun v => ?_
          exact (writes_assign ⟨hsetter rfl, field, hfield _ ▸ hfound, rfl⟩ v).andDone _
        exact (hset s hs).mono nofun fun _ hd => hd
      | change =>
        have hchange : Writes setup modules none (some d) Value
            (Blocks.Data.change.perform scope) := by
          refine writes_fieldText fun field hfound => ?_
          refine (steady_writes.calm.lookup field.value).andThen fun current => ?_
          cases current.toNumber with
          | error m => exact (steady_writes.fail rfl).mono nofun nofun
          | ok base =>
            refine (steady_writes.calm.number hslots "VALUE").andThen fun delta => ?_
            exact (writes_assign ⟨hsetter rfl, field, hfield _ ▸ hfound, rfl⟩ _).andDone _
        exact (hchange s hs).mono nofun fun _ hd => hd
      | add =>
        -- the change of the list is on account of the dispatch that got at it
        refine advances_list (hlist rfl) (hfield _) (fun id hid => ?_) hs hlive
        exact (hvalue "ITEM").andThen fun item => (writes_updateList hid _).andDone _
      | clear =>
        refine advances_list (hlist rfl) (hfield _) (fun id hid => ?_) hs hlive
        exact (writes_updateList hid _).andDone _
      | delete =>
        refine advances_list (hlist rfl) (hfield _) (fun id hid => ?_) hs hlive
        exact (hindex "INDEX").andThen fun i => (writes_updateList hid _).andDone _
      | insert | replace =>
        refine advances_list (hlist rfl) (hfield _) (fun id hid => ?_) hs hlive
        refine (hindex "INDEX").andThen fun i => (hvalue "ITEM").andThen fun item => ?_
        exact (writes_updateList hid _).andDone _
      | _ => exact absurd hwrites (by simp [Action.writes, Blocks.Data.target?])
    | _ => exact absurd hwrites (by simp [Action.writes])

end Run

/-! ### Blocks and chains -/

/-- A function that is found is one of these modules, if they are the only ones. -/
theorem Registry.Holds.mem_functions {modules : List (String × Table Action)} {r : Registry Action}
    (hr : r.Holds modules) (hmodules : ∀ m ∈ modules, m ∈ Blocks.standardAndConsole)
    {opcode : String} {route : Route Action} (hroute : (r.resolve opcode).1 = .ok route) :
    (opcode, route.handler) ∈ functions Blocks.standardAndConsole := by
  obtain ⟨m, hm, hf⟩ := List.mem_flatMap.1 (hr.1.mem_functions hroute)
  exact List.mem_flatMap.2 ⟨m, hmodules m (hr.2 ▸ hm), hf⟩

/-- The functions of these modules that write have the opcodes of writing blocks. -/
theorem Registry.opcodes_of_writers : ∀ f ∈ functions Blocks.standardAndConsole,
    f.2.isProbe = false ∧ (f.2.target? = some "VARIABLE" → f.1 ∈ Blocks.setterOpcodes) ∧
      (f.2.target? = some "LIST" → f.1 ∈ Blocks.listWriterOpcodes) := by
  decide +kernel

/-- The fields that a handler finds are those of the block. -/
theorem Scope.field?_slotWith {σ : Type} (run : Chain → Job σ Value) (b : Block)
    (opcode id module function name : String) :
    (Scope.mk opcode id module function (b.members.map (Machine.slotWith run))).field? name
      = b.field? name := by
  unfold Scope.field? Block.field?
  rw [← List.map_reverse, List.findSome?_map]
  congr 1
  funext m
  cases m <;> rfl

namespace Machine

variable {σ : Type} {setup : Setup σ} {modules : List (String × Table Action)}

/-- What is written on account of a block closes with its call. -/
theorem writes_called {b : Block} {x : Job (Calling σ) Value}
    (hx : ∀ s : State Action (Calling σ), s.registry.Holds modules →
      s.Advances modules (some ⟨b, s.live⟩) (some ⟨b, s.live⟩) (x setup.calling s).2) :
    Run.Writes setup modules none none Value (called b x) := by
  intro s hs
  obtain ⟨hregistry, inner, hcalls, hevolves⟩ := hx (s.withCalls []) hs
  refine ⟨hregistry, [.mk ⟨b, s.live⟩ inner (x setup.calling (s.withCalls [])).2.live], ?_,
    LiveHeap.Evolves.call hevolves⟩
  have hinner : (x setup.calling (s.withCalls [])).2.memory.calls = inner := hcalls
  change s.memory.calls ++ [.mk _ (x setup.calling (s.withCalls [])).2.memory.calls _] = _
  rw [hinner]

/-- **Dispatching a block**: routing writes nothing, and neither does the completion. -/
theorem advances_dispatch (hmodules : ∀ m ∈ modules, m ∈ Blocks.standardAndConsole) {b : Block}
    {slots : List (Slot Action (Calling σ))}
    (hfield : ∀ module function name,
      (Scope.mk b.opcode b.id module function slots).field? name = b.field? name)
    (hslots : ∀ slot ∈ slots, slot.Holds (Run.Writes setup modules none none))
    (s : State Action (Calling σ)) (hs : s.registry.Holds modules) :
    s.Advances modules (some ⟨b, s.live⟩) (some ⟨b, s.live⟩)
      (dispatch b.opcode b.id slots setup.calling s).2 := by
  rw [dispatch_apply]
  cases hroute : (s.registry.resolve b.opcode).1 with
  | error e => exact .of_step (hs.resolve b.opcode) rfl (.of_eq rfl fun _ => rfl)
  | ok route =>
    -- the function is one of the modules, which tells the opcode of a writing block
    obtain ⟨hprobe, hsetter, hlist⟩ :=
      Registry.opcodes_of_writers _ (hs.mem_functions hmodules hroute)
    have hperform := Run.advances_perform (d := ⟨b, s.live⟩)
      ⟨b.opcode, b.id, route.module, route.function, slots⟩ hprobe hsetter hlist (hfield _ _) hslots
      (s := afterRouting s b.opcode) (hs.resolve b.opcode) rfl
    have hmapped : s.Advances modules (some ⟨b, s.live⟩) (some ⟨b, s.live⟩)
        (((route.handler.perform ⟨b.opcode, b.id, route.module, route.function, slots⟩).mapFault
          (.wrap route.module route.function b.id)) setup.calling (afterRouting s b.opcode)).2 := by
      rw [Run.mapFault_snd]
      exact ⟨hperform.registry, hperform.evolves⟩
    dsimp only
    rw [completing, Run.bind_apply]
    rcases hout : ((route.handler.perform
        ⟨b.opcode, b.id, route.module, route.function, slots⟩).mapFault
          (.wrap route.module route.function b.id)) setup.calling (afterRouting s b.opcode)
      with ⟨v | e | _, s'⟩ <;> rw [hout] at hmapped
    · -- telling the observer leaves variables, lists and calls as they are
      exact ⟨hmapped.registry, hmapped.evolves⟩
    · exact hmapped
    · exact hmapped

/-- **A chain writes nothing on its own account.** -/
theorem writes_executeCalling (hmodules : ∀ m ∈ modules, m ∈ Blocks.standardAndConsole)
    (c : Chain) : Run.Writes setup modules none none Value (executeCalling c) := by
  have hsteady : Run.Steady (Run.Writes setup modules none none) := Run.steady_writes
  suffices hboth : Run.Writes setup modules none none Value (executeCalling c) ∧
      ∀ v, Run.Writes setup modules none none Value (executeRestCalling v c) from hboth.1
  refine Chain.induction (P := fun c =>
    Run.Writes setup modules none none Value (executeCalling c) ∧
      ∀ v, Run.Writes setup modules none none Value (executeRestCalling v c)) ?_ ?_ c
  · exact ⟨hsteady.calm.done _, fun v => hsteady.calm.done v⟩
  · intro b rest hmembers hrest
    have hblock : Run.Writes setup modules none none Value (executeBlockCalling b) := by
      obtain ⟨opcode, id, members⟩ := b
      refine writes_called fun s hs => ?_
      rw [slotsCalling_eq_map]
      refine advances_dispatch (b := .mk opcode id members) hmodules (fun module function name =>
        Scope.field?_slotWith executeCalling _ _ _ module function name) (fun slot hslot => ?_) s hs
      obtain ⟨m, hm, rfl⟩ := List.mem_map.1 hslot
      have hchain := (hmembers m hm).1
      cases m with
      | expression name chain => exact hchain
      | literal name shadow => exact hsteady.calm.done _
      | statement name chain => exact hchain
      | field f => trivial
    have hwhole : ∀ v, Run.Writes setup modules none none Value (executeRestCalling v (b :: rest)) :=
      fun v => hsteady.andThen hblock hrest.2
    refine ⟨fun s hs => ?_, hwhole⟩
    -- a chain is entered at another depth, which nothing here looks at
    change s.Advances modules none none (nested b.id _ setup.calling s).2
    unfold nested
    split
    · exact .refl hs
    · have hinside := hsteady.andThen hblock hrest.2 { s with depth := s.depth + 1 } hs
      exact ⟨hinside.registry, hinside.evolves⟩

/-- The variables and the lists evolve along the moments of a run. -/
theorem Reached.evolves {document : Document} {m : Machine σ} (hm : m.Reached document)
    (hmodules : ∀ x ∈ m.state.registry.modules, x ∈ Blocks.standardAndConsole) :
    Evolves none none m.started.live (Call.momentsOf m.calls) m.calling.2.live := by
  have hwrites : Run.Writes m.setup m.state.registry.modules none none Value
      (executeCalling m.document.entry) := writes_executeCalling hmodules m.document.entry
  have hadvances := hwrites { m.started with memory := ⟨m.state.memory, []⟩ } ⟨hm.coherent, rfl⟩
  obtain ⟨-, calls, hcalls, hevolves⟩ := hadvances
  have hsame : m.calls = calls := hcalls
  rw [hsame]
  exact hevolves

/-- **The writes of a run are framed.** Let a machine with the standard modules and the console run
its document, after any history. The calls that the statements read are those of the run.

* If a variable differs between the dispatch of a block and its end, with a value or a fault, then
  that block or one dispatched inside it assigns the variable, or it changes the list in the variable
  and found it unassigned.
* If the items of a list differ, then one of them changes a list, and when it was dispatched its
  variable had that very list, or it made the list.
* Two variables with the same list have the same list from one moment to any later one, unless a
  block that assigns one of them ended in between. -/
theorem writes_are_framed {document : Document} {m : Machine σ} (hm : m.Reached document)
    (hmodules : ∀ x ∈ m.state.registry.modules, x ∈ Blocks.standardAndConsole) :
    (m.calling.1 = m.run.1 ∧ m.calling.2.uncalled = m.run.2.state) ∧
    (∀ c ∈ Call.allOf m.calls,
      (∀ x, c.after.heap.get? x ≠ c.dispatch.before.heap.get? x →
        ∃ d, .begun d ∈ c.moments ∧ (d.Sets x ∨ d.Fills x)) ∧
      ∀ id, c.after.store.items id ≠ c.dispatch.before.store.items id →
        ∃ d, .begun d ∈ c.moments ∧ d.Changes id) ∧
    ∀ earlier first between last later,
      Call.momentsOf m.calls = earlier ++ first :: (between ++ last :: later) →
      ∀ x y id, first.live.heap.get? x = some (.list id) →
        first.live.heap.get? y = some (.list id) →
        (∀ d after, .ended d after ∈ between ++ [last] → ¬ d.Sets x ∧ ¬ d.Sets y) →
        last.live.heap.get? x = some (.list id) ∧ last.live.heap.get? y = some (.list id) := by
  have hevolves := hm.evolves hmodules
  refine ⟨m.calling_eq, fun c hc => ?_, ?_⟩
  · obtain ⟨earlier, later, hsplit⟩ := Call.moments_infix hc
    obtain ⟨d, inner, after⟩ := c
    rw [hsplit, Call.moments, List.append_assoc, List.cons_append, List.append_assoc] at hevolves
    -- the stretch between the dispatch and the end of the call
    have hcall : Evolves (some d) (some d) d.before (Call.momentsOf inner) after :=
      hevolves.of_append_cons.before_cons
    have hinside : ∀ d', (d' ∈ some d ∨ ∃ after', .ended d' after' ∈ Call.momentsOf inner) →
        .begun d' ∈ Call.moments (.mk d inner after) := by
      rintro d' (hd | ⟨after', hmem⟩)
      · obtain rfl : d = d' := Option.some.inj hd
        exact List.mem_cons_self
      · exact List.mem_cons_of_mem _ (List.mem_append_left _ (Call.begun_of_ended hmem))
    refine ⟨fun x hx => ?_, fun id hid => ?_⟩
    · have hbefore : ∀ d' ∈ some d, d'.before = d.before := by
        intro d' hd
        rw [Option.some.inj hd]
      -- the block itself may assign when it ends, or fill its variable when it is dispatched
      rcases hcall.binding hbefore hx with ⟨d', hd', hsets⟩ | ⟨-, d', hd' | hmem, hfills⟩
      · exact ⟨d', hinside d' hd', .inl hsets⟩
      · exact ⟨d', hinside d' (.inl hd'), .inr hfills⟩
      · exact ⟨d', List.mem_cons_of_mem _ (List.mem_append_left _ hmem), .inr hfills⟩
    · obtain ⟨d', hd', hchanges⟩ := hcall.items hid
      exact ⟨d', hinside d' hd', hchanges⟩
  · intro earlier first between last later hsplit x y id hx hy hsets
    rw [hsplit] at hevolves
    have hstretch : Evolves last.ended? first.begun? first.live between last.live :=
      hevolves.of_append_cons.before_cons
    -- a variable that has a list is not unassigned, so only an assignment changes it
    have hkept : ∀ z, first.live.heap.get? z = some (.list id) →
        (∀ d after, .ended d after ∈ between ++ [last] → ¬ d.Sets z) →
        last.live.heap.get? z = some (.list id) := by
      intro z hz hnone
      by_contra hdiffers
      rcases hstretch.binding (fun d hd => Moment.before_of_mem_begun? hd)
        (fun heq => hdiffers (heq.trans hz)) with ⟨d, hd | ⟨after, hmem⟩, hset⟩ | ⟨hundefined, -⟩
      · obtain ⟨after, hlast⟩ := Moment.eq_ended hd
        exact hnone d after (hlast ▸ List.mem_append_right _ List.mem_cons_self) hset
      · exact hnone d after (List.mem_append_left _ hmem) hset
      · exact absurd (hz.symm.trans hundefined) (by simp)
    exact ⟨hkept x hx fun d after hmem => (hsets d after hmem).1,
      hkept y hy fun d after hmem => (hsets d after hmem).2⟩

/-- A block that adds an item which is missing. -/
def addsNothing : Block := .mk "data_addtolist" "a" [.field ⟨"LIST", "", "items", ""⟩]

/-- A script of it, and a variable that is not assigned. -/
def filling : Document := ⟨[⟨"items", "", "", true, false⟩], [addsNothing], []⟩

/-- A machine for it that has not run yet. -/
def fillingMachine : Machine Unit :=
  create filling ⟨.silent, 10, 10⟩ [("data", Blocks.dataTable)] ()

theorem started_filling : fillingMachine.started = { fillingMachine.started with
    registry := ⟨[("data", Blocks.dataTable)], ["data"], []⟩ } := started_create_singleton ..

theorem calls_filling : (Call.allOf fillingMachine.calls).map (fun c =>
      (c.dispatch.block.id, c.dispatch.before.heap.get? "items", c.after.heap.get? "items"))
    = [("a", some .undefined, some (.list ⟨0⟩))] := by
  unfold calls calling
  rw [started_filling]
  decide +kernel

/-- The block fails, and yet its variable has a list in the end; the block found it unassigned. -/
theorem writes_are_framed_filling :
    (∃ f, fillingMachine.run.1 = .fault f) ∧
    ∃ c ∈ Call.allOf fillingMachine.calls, c.after.heap.get? "items" = some (.list ⟨0⟩) ∧
      ∃ d, .begun d ∈ c.moments ∧ (d.Sets "items" ∨ d.Fills "items") := by
  have hreached : fillingMachine.Reached filling := ⟨_, _, _, [], rfl⟩
  have hmodules : ∀ x ∈ fillingMachine.state.registry.modules, x ∈ Blocks.standardAndConsole := by
    decide
  obtain ⟨-, hframe, -⟩ := writes_are_framed hreached hmodules
  have hfails : fillingMachine.run.1.message?.isSome = true := by
    change (execute filling.entry fillingMachine.setup fillingMachine.started).1.message?.isSome
      = true
    rw [started_filling]
    decide +kernel
  -- the one call of the run
  obtain ⟨c, hc, hread⟩ : ∃ c ∈ Call.allOf fillingMachine.calls,
      (c.dispatch.block.id, c.dispatch.before.heap.get? "items", c.after.heap.get? "items")
        = ("a", some .undefined, some (.list ⟨0⟩)) := by
    rw [← List.mem_map, calls_filling]
    exact List.mem_cons_self
  simp only [Prod.mk.injEq] at hread
  obtain ⟨-, hbefore, hafter⟩ := hread
  refine ⟨?_, c, hc, hafter, (hframe c hc).1 "items" ?_⟩
  · cases hrun : fillingMachine.run.1 with
    | fault f => exact ⟨f, rfl⟩
    | _ => exact absurd (hrun ▸ hfails) (by simp [Outcome.message?])
  · rw [hbefore, hafter]
    simp

end Machine

end Blockwork
