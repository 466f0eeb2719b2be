import Blockwork.Proofs.Machine.Footprint

/-!
# List writes that fail

The five blocks that change a list do the same in three parts. They get at the list that their field
`LIST` names, where a variable that was never assigned is given a new list. They evaluate the value
slots that say what to do with it (`Blocks.Data.edit`). And they make the change, which cannot fail
(`Blocks.Data.perform_eq_edit`).

So a block that fails has changed no list itself. It fails before it evaluates anything, and then
nothing has happened; or it fails in a value slot, and then the state is the one that the slots left,
with one exception: they were evaluated after the variable had been given its list
(`State.listed`), and it keeps the list. A variable that was assigned before stays as the slots left
it.
-/

namespace Blockwork

/-! ### The parts of a list write -/

namespace Blocks.Data

variable {α σ : Type}

/-- What a block that changes a list makes of its items, found by evaluating its value slots. -/
def edit (d : Data) (s : Scope α σ) : Run α σ (Array Value → Array Value) := do
  match d with
  | .add =>
    let item ← s.evaluate "ITEM"
    return (·.push item)
  | .clear => return fun _ => #[]
  | .delete =>
    let i ← s.index "INDEX"
    return fun xs => (Sequence.deleteAt? xs i).getD xs
  | .insert =>
    let i ← s.index "INDEX"
    let item ← s.evaluate "ITEM"
    return fun xs => (Sequence.insertAt? xs i item).getD xs
  | .replace =>
    let i ← s.index "INDEX"
    let item ← s.evaluate "ITEM"
    return fun xs => (Sequence.replaceAt? xs i item).getD xs
  | _ => return id

/-- **A list write** gets at its list, evaluates its slots and makes the change. -/
theorem perform_eq_edit {d : Data} (hd : d.target? = some "LIST") (s : Scope α σ) :
    d.perform s = (do
      let id ← list true s
      let f ← d.edit s
      Run.updateList id f
      return .undefined) := by
  cases d with
  | clear => rfl
  | add | delete | insert | replace =>
    -- the slots stand between getting at the list and the change
    dsimp only [perform, edit]
    simp only [Run.bind_assoc]
    rfl
  | _ => exact absurd hd nofun

end Blocks.Data

/-! ### Variables that were never assigned -/

/-- **The state in which a list write evaluates its slots**: if the variable was never assigned, it has
a new list. -/
def State.listed {α σ : Type} (s : State α σ) (name : String) : State α σ :=
  if s.heap.get? name = some .undefined then
    { s with
      heap := s.heap.put name (.list (s.store.create #[]).1), store := (s.store.create #[]).2 }
  else s

namespace State

variable {α σ : Type}

theorem registry_listed (s : State α σ) (name : String) :
    (s.listed name).registry = s.registry := by
  unfold listed
  split <;> rfl

/-- No items of lists are changed. -/
theorem items_listed (s : State α σ) (name : String) : (s.listed name).store.Alike s.store := by
  unfold listed
  split
  · exact Store.alike_create_empty s.store
  · exact fun _ => rfl

/-- Only the variable itself may be changed, and only if it was never assigned. -/
theorem get?_listed (s : State α σ) (name x : String) :
    (s.listed name).heap.get? x = s.heap.get? x ∨
      x = name ∧ s.heap.get? x = some .undefined ∧
        (s.listed name).heap.get? x = some (.list (s.store.create #[]).1) := by
  unfold listed
  split
  · next hunset =>
    by_cases hname : x = name
    · have hcontains := Heap.contains_of_get? hunset
      exact .inr ⟨hname, hname ▸ hunset, hname ▸ Heap.get?_put_self hcontains _⟩
    · exact .inl (s.heap.get?_put_of_ne hname _)
  · exact .inl rfl

end State

namespace Blocks.Data

variable {α σ : Type}

/-- **Getting at the list of a block.** It fails with nothing changed, or the variable has a list. -/
theorem list_ends (scope : Scope α σ) (setup : Setup σ) (s : State α σ) :
    (∃ f, list true scope setup s = (.fault f, s)) ∨
    ∃ field id, scope.field? "LIST" = some field ∧
      list true scope setup s = (.value id, s.listed field.value) := by
  cases hfound : scope.field? "LIST" with
  | none =>
    -- no variable is named
    unfold list Scope.fieldText Scope.getField
    rw [hfound]
    exact .inl ⟨_, rfl⟩
  | some field =>
    have hlist : list true scope = listIn true field.value := by
      unfold list
      rw [fieldText_of_field? hfound]
      rfl
    rw [hlist]
    cases hget : s.heap.get? field.value with
    | none =>
      unfold listIn
      rw [Run.bind_apply, Run.lookup_apply, hget]
      exact .inl ⟨_, rfl⟩
    | some v =>
      cases v with
      | undefined =>
        -- the only case in which something changes
        obtain ⟨heap, hset, hnew⟩ := Run.listIn_unassigned hget setup
        have hheap : s.heap.put field.value (.list (s.store.create #[]).1) = heap :=
          Option.some.inj ((if_pos (Heap.contains_of_get? hget)).symm.trans hset)
        have hlisted : s.listed field.value
            = { s with heap := heap, store := (s.store.create #[]).2 } := by
          rw [← hheap]
          exact if_pos hget
        exact .inr ⟨field, _, rfl, hlisted ▸ hnew⟩
      | list id =>
        -- a list that is there is taken as it is
        have hlisted : s.listed field.value = s := if_neg (by simp [hget])
        refine .inr ⟨field, id, rfl, ?_⟩
        unfold listIn
        rw [Run.bind_apply, Run.lookup_apply, hget, hlisted]
        rfl
      | number _ | text _ | truth _ | noList =>
        unfold listIn
        rw [Run.bind_apply, Run.lookup_apply, hget]
        exact .inl ⟨_, rfl⟩

/-- **A list write that fails** has changed nothing, or it failed when it evaluated its slots. -/
theorem perform_fault {d : Data} (hd : d.target? = some "LIST") {scope : Scope α σ}
    {setup : Setup σ} {s s' : State α σ} {f : Fault}
    (hfails : d.perform scope setup s = (.fault f, s')) :
    s' = s ∨ ∃ field, scope.field? "LIST" = some field ∧
      d.edit scope setup (s.listed field.value) = (.fault f, s') := by
  rw [perform_eq_edit hd, Run.bind_apply] at hfails
  rcases list_ends scope setup s with ⟨g, hlist⟩ | ⟨field, id, hfield, hlist⟩ <;>
    rw [hlist] at hfails
  · exact .inl (Prod.ext_iff.1 hfails).2.symm
  · refine .inr ⟨field, hfield, ?_⟩
    dsimp only at hfails
    rw [Run.bind_apply] at hfails
    rcases hedit : d.edit scope setup (s.listed field.value) with ⟨change | g | _, t⟩ <;>
      rw [hedit] at hfails
    · -- the change itself cannot fail
      exact absurd (congrArg Prod.fst hfails) nofun
    · obtain ⟨hg, hstate⟩ := Prod.ext_iff.1 hfails
      rw [Outcome.fault.inj hg, show t = s' from hstate]
    · exact absurd (congrArg Prod.fst hfails) nofun

end Blocks.Data

/-- The functions of the standard modules whose opcodes are those of list writes. -/
theorem Registry.list_writers : ∀ f ∈ functions Blocks.standard,
    f.1 ∈ Blocks.listWriterOpcodes → f.2.target? = some "LIST" := by
  decide +kernel

theorem Action.exists_of_target? {a : Action} {field : String} (ha : a.target? = some field) :
    ∃ d, a = .data d ∧ d.target? = some field := by
  cases a with
  | data d => exact ⟨d, rfl, ha⟩
  | _ => exact absurd ha nofun

/-! ### Slots without effects -/

/-- A computation that changes no variable and no items of lists, from states with these modules. -/
def Run.LeavesData {σ : Type} (setup : Setup σ) (modules : List (String × Table Action)) (β : Type)
    (x : Job σ β) : Prop :=
  ∀ s : State Action σ, s.registry.Holds modules →
    (x setup s).2.heap = s.heap ∧ (x setup s).2.store.Alike s.store ∧
      (x setup s).2.registry.Holds modules

section LeavesData

variable {σ β γ : Type} {setup : Setup σ} {modules : List (String × Table Action)}
  {scope : Scope Action σ}

theorem Run.LeavesData.andThen {x : Job σ β} {f : β → Job σ γ} (hx : LeavesData setup modules β x)
    (hf : ∀ b, LeavesData setup modules γ (f b)) : LeavesData setup modules γ (x >>= f) := by
  intro s hs
  have hfirst := hx s hs
  rw [bind_apply]
  rcases hout : x setup s with ⟨b | e | _, s'⟩ <;> rw [hout] at hfirst
  · obtain ⟨hheap, hitems, hregistry⟩ := hf b s' hfirst.2.2
    exact ⟨hheap.trans hfirst.1, fun id => (hitems id).trans (hfirst.2.1 id), hregistry⟩
  · exact hfirst
  · exact hfirst

theorem Run.leavesData_done (b : β) : LeavesData setup modules β (.done b) :=
  fun _ hs => ⟨rfl, fun _ => rfl, hs⟩

theorem Run.leavesData_fail (f : Fault) : LeavesData setup modules β (fail f) :=
  fun _ hs => ⟨rfl, fun _ => rfl, hs⟩

theorem Scope.leavesData_evaluate {name : String}
    (hslot : ∀ found, scope.value? name = some found → Run.LeavesData setup modules Value found.2) :
    Run.LeavesData setup modules Value (scope.evaluate name) := by
  unfold evaluate getValue
  cases hfound : scope.value? name with
  | none => exact Run.leavesData_fail _
  | some found => exact hslot found hfound

theorem Scope.leavesData_index {name : String}
    (hslot : ∀ found, scope.value? name = some found → Run.LeavesData setup modules Value found.2) :
    Run.LeavesData setup modules Int (scope.index name) := by
  unfold index number
  refine ((leavesData_evaluate hslot).andThen fun v => ?_).andThen fun n => Run.leavesData_done _
  cases v.toNumber with
  | ok n => exact Run.leavesData_done n
  | error m => exact Run.leavesData_fail _

/-- **What a list write evaluates** has no effects if its value slots have none. -/
theorem Blocks.Data.leavesData_edit (d : Data)
    (hslots : ∀ name found, scope.value? name = some found →
      Run.LeavesData setup modules Value found.2) :
    Run.LeavesData setup modules _ (d.edit scope) := by
  have hvalue := Scope.leavesData_evaluate (hslots "ITEM")
  have hindex := Scope.leavesData_index (hslots "INDEX")
  cases d with
  | add => exact hvalue.andThen fun _ => Run.leavesData_done _
  | delete => exact hindex.andThen fun _ => Run.leavesData_done _
  | insert | replace =>
    exact hindex.andThen fun _ => hvalue.andThen fun _ => Run.leavesData_done _
  | _ => exact Run.leavesData_done _

end LeavesData

/-! ### Blocks -/

namespace Machine

variable {σ : Type} {modules : List (String × Table Action)}

/-- The fields that a handler finds are those of the block. -/
theorem field?_scopeOf (b : Block) (route : Route Action) (name : String) :
    (scopeOf (σ := σ) b route).field? name = b.field? name := by
  have hslots : slotsOf (σ := σ) b.members = b.members.map (slotWith execute) := by
    rw [slotsOf_eq_map]
    exact List.map_congr_left fun m _ => slotOf_eq m
  unfold scopeOf
  rw [hslots]
  exact Scope.field?_slotWith execute b _ _ _ _ name

variable {b : Block} {setup : Setup σ} {s s' : State Action σ} {f : Fault}

/-- A list write fails with nothing changed, or in one of its slots. -/
theorem edit_of_executeBlock_fault (hopcode : b.opcode ∈ Blocks.listWriterOpcodes)
    (hgenuine : s.registry.Genuine b.opcode)
    (hfails : executeBlock b setup s = (.fault f, s')) :
    s' = afterRouting s b.opcode ∨ ∃ route d field cause,
      (s.registry.resolve b.opcode).1 = .ok route ∧ route.handler = .data d ∧
      d.target? = some "LIST" ∧ b.field? "LIST" = some field ∧
      d.edit (scopeOf b route) setup ((afterRouting s b.opcode).listed field.value)
        = (.fault cause, s') := by
  rw [executeBlock_apply] at hfails
  cases hroute : (s.registry.resolve b.opcode).1 with
  | error e =>
    -- without a route nothing is evaluated
    rw [hroute] at hfails
    exact .inl (Prod.ext_iff.1 hfails).2.symm
  | ok route =>
    rw [hroute] at hfails
    -- the opcode tells that the handler is a list write
    obtain ⟨d, hhandler, htarget⟩ := Action.exists_of_target?
      (Registry.list_writers _ (hgenuine route hroute) hopcode)
    have hhandler : route.handler = .data d := hhandler
    obtain ⟨cause, hperform, -⟩ := handled_fault_iff.1 hfails
    rw [hhandler] at hperform
    rcases Blocks.Data.perform_fault htarget hperform with hsame | ⟨field, hfield, hedit⟩
    · exact .inl hsame
    · rw [field?_scopeOf] at hfield
      exact .inr ⟨route, d, field, cause, rfl, hhandler, htarget, hfield, hedit⟩

/-- **A list write that fails leaves what its slots left**, but for the list that its variable may have
been given. From any state with a coherent registry, let a block that changes a list end with a
fault, its opcode meaning what it means with the standard modules.

* Either nothing has happened, or the fault comes from the slots that were evaluated (`Data.edit`),
  and the state is the one that they left. They were evaluated in the state before the block, except
  that a variable which was never assigned had been given a new list.
* If no value slot has effects on variables and lists, all lists have the items they had, and all
  variables the values, but for that variable: it was unassigned and has the new list. -/
theorem failed_list_write_leaves_slots (hopcode : b.opcode ∈ Blocks.listWriterOpcodes)
    (hgenuine : s.registry.Genuine b.opcode) (hs : s.registry.Holds modules)
    (hfails : executeBlock b setup s = (.fault f, s')) :
    (s' = afterRouting s b.opcode ∨ ∃ route d field cause,
      (s.registry.resolve b.opcode).1 = .ok route ∧ route.handler = .data d ∧
      d.target? = some "LIST" ∧ b.field? "LIST" = some field ∧
      d.edit (scopeOf b route) setup ((afterRouting s b.opcode).listed field.value)
        = (.fault cause, s')) ∧
    ((∀ name job, valueSlot? b name = some job → Run.LeavesData setup modules Value job) →
      s'.store.Alike s.store ∧
      ∀ x, s'.heap.get? x = s.heap.get? x ∨
        (∃ field, b.field? "LIST" = some field ∧ field.value = x) ∧
          s.heap.get? x = some .undefined ∧
          s'.heap.get? x = some (.list (s.store.create #[]).1)) := by
  have hends := edit_of_executeBlock_fault hopcode hgenuine hfails
  refine ⟨hends, fun hslots => ?_⟩
  rcases hends with rfl | ⟨route, d, field, cause, -, -, -, hfield, hedit⟩
  · exact ⟨fun _ => rfl, fun _ => .inl rfl⟩
  · have hleaves : Run.LeavesData setup modules _ (d.edit (scopeOf b route)) :=
      d.leavesData_edit fun name found hfound =>
        hslots name found.2 (congrArg (Option.map Prod.snd) hfound)
    have hlisted : ((afterRouting s b.opcode).listed field.value).registry.Holds modules := by
      rw [State.registry_listed]
      exact hs.resolve b.opcode
    obtain ⟨hheap, hitems, -⟩ := hleaves _ hlisted
    rw [hedit] at hheap hitems
    -- the slots left alone what getting at the list had left
    refine ⟨fun id => (hitems id).trans ((afterRouting s b.opcode).items_listed field.value id),
      fun x => ?_⟩
    have hheap : s'.heap = ((afterRouting s b.opcode).listed field.value).heap := hheap
    rw [hheap]
    rcases (afterRouting s b.opcode).get?_listed field.value x with hsame | ⟨hx, hunset, hnew⟩
    · exact .inl hsame
    · exact .inr ⟨⟨field, hfield, hx.symm⟩, hunset, hnew⟩

/-! ### A block that fails and fills its variable -/

theorem executeBlock_addsNothing :
    (executeBlock addsNothing fillingMachine.setup fillingMachine.started).1.message?.isSome
      = true ∧
    fillingMachine.started.heap.get? "items" = some .undefined ∧
    (executeBlock addsNothing fillingMachine.setup fillingMachine.started).2.heap.get? "items"
      = some (.list ⟨0⟩) := by
  rw [started_filling]
  decide +kernel

theorem fault_addsNothing : ∃ f s',
    executeBlock addsNothing fillingMachine.setup fillingMachine.started = (.fault f, s') := by
  obtain ⟨hfails, -⟩ := executeBlock_addsNothing
  rcases hout : executeBlock addsNothing fillingMachine.setup fillingMachine.started
    with ⟨v | f | _, s'⟩
  · exact absurd (hout ▸ hfails) (by simp [Outcome.message?])
  · exact ⟨f, s', rfl⟩
  · exact absurd (hout ▸ hfails) (by simp [Outcome.message?])

/-- **A list write that fails may change its variable.** The block has no value slots, so none was
evaluated. Its variable was unassigned before and has a list afterwards. -/
theorem failed_list_write_fills :
    (∀ name, valueSlot? (σ := Unit) addsNothing name = none) ∧
    ∃ f s', executeBlock addsNothing fillingMachine.setup fillingMachine.started
        = (.fault f, s') ∧
      fillingMachine.started.heap.get? "items" = some .undefined ∧
      s'.heap.get? "items" = some (.list ⟨0⟩) := by
  obtain ⟨f, s', hfault⟩ := fault_addsNothing
  obtain ⟨-, hunset, hfilled⟩ := executeBlock_addsNothing
  rw [hfault] at hfilled
  exact ⟨fun _ => rfl, f, s', hfault, hunset, hfilled⟩

/-- The list in that variable is all that the block left. -/
theorem failed_list_write_leaves_slots_filling : ∃ f s',
    executeBlock addsNothing fillingMachine.setup fillingMachine.started = (.fault f, s') ∧
    s'.store.Alike fillingMachine.started.store ∧
    ∀ x, x ≠ "items" → s'.heap.get? x = fillingMachine.started.heap.get? x := by
  obtain ⟨f, s', hfault⟩ := fault_addsNothing
  have hreached : fillingMachine.Reached filling := ⟨_, _, _, [], rfl⟩
  have hgenuine : fillingMachine.started.registry.Genuine addsNothing.opcode :=
    hreached.coherent.genuine (by decide) (by decide)
  obtain ⟨-, hleaves⟩ := failed_list_write_leaves_slots (s := fillingMachine.started) (by decide)
    hgenuine ⟨hreached.coherent, rfl⟩ hfault
  obtain ⟨hitems, hvariables⟩ := hleaves fun name job hjob => absurd hjob nofun
  refine ⟨f, s', hfault, hitems, fun x hx => ?_⟩
  rcases hvariables x with hsame | ⟨⟨field, hfield, rfl⟩, -⟩
  · exact hsame
  · -- the field of the block names the other variable
    obtain rfl := Option.some.inj hfield
    exact absurd rfl hx

end Machine

end Blockwork
