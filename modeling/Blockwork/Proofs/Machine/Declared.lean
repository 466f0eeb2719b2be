import Blockwork.Proofs.Machine.Frame

/-!
# The variables are those of the document

The names of a heap are settled when it is made: the declared names in order, each where it was
declared first (`Heap.names_ofVariables`). Since every computation is tidy, they stay so through
every history, and a name outside them is never bound.

A write to such a name is refused, and it is refused before anything is changed. Seven data blocks
write (`Blocks.Data.target?`). Six of them look their variable up before they do anything else;
`set` evaluates the value first and then finds no variable to put it in. Either way the block fails
with the unknown name, and the state is the one in which the write was tried
(`Blocks.Data.perform_undeclared`).
-/

namespace Blockwork

/-! ### The names that a document declares -/

namespace Heap

theorem names_declare (h : Heap) (name : String) :
    (h.declare name).names = if name ∈ h.names then h.names else h.names ++ [name] := by
  unfold declare
  by_cases hname : name ∈ h.names
  · rw [if_pos hname, if_pos (contains_iff.2 hname), names_put]
  · rw [if_neg hname, if_neg (fun hc => hname (contains_iff.1 hc))]
    unfold names
    rw [List.map_append]
    rfl

theorem ofNames_concat (names : List String) (name : String) :
    ofNames (names ++ [name]) = (ofNames names).declare name := by
  unfold ofNames
  rw [List.foldl_append]
  rfl

/-- A heap binds each name once. -/
theorem nodup_ofNames (names : List String) : (ofNames names).names.Nodup := by
  induction names using List.reverseRecOn with
  | nil => exact List.nodup_nil
  | append_singleton names name ih =>
    rw [ofNames_concat, names_declare]
    split
    case isTrue hname => exact ih
    case isFalse hname => exact ih.append (List.nodup_singleton name) (by simpa using hname)

theorem names_ofNames (names : List String) : (ofNames names).names = names.eraseDups := by
  induction names using List.reverseRecOn with
  | nil => rfl
  | append_singleton names name ih =>
    -- declaring one name more adds it unless it is there
    rw [ofNames_concat, names_declare, ih, List.eraseDups_append]
    by_cases hname : name ∈ names
    · rw [if_pos (List.mem_eraseDups.2 hname)]
      simp [List.removeAll, hname]
    · rw [if_neg (fun hmem => hname (List.mem_eraseDups.1 hmem))]
      simp [List.removeAll, hname, List.eraseDups_cons]

/-- **The names of a new heap** are the declared ones, later repetitions left out. -/
theorem names_ofVariables (vars : List Variable) :
    (ofVariables vars).names = (vars.map (·.name)).eraseDups :=
  names_ofNames _

end Heap

/-! ### Writes to other names -/

namespace Blocks.Data

variable {α σ : Type}

/-- What a data block evaluates before it looks at the variable that it writes. -/
def operand (d : Data) (s : Scope α σ) : Run α σ Value :=
  match d with
  | .set => s.evaluate "VALUE"
  | _ => .done .undefined

theorem fieldText_of_field? {s : Scope α σ} {slot : String} {f : Field}
    (hf : s.field? slot = some f) : s.fieldText slot = Run.done f.value := by
  unfold Scope.fieldText Scope.getField
  rw [hf]
  rfl

theorem lookup_undeclared {state : State α σ} {name : String} (hname : name ∉ state.heap.names)
    (setup : Setup σ) :
    Run.lookup name setup state = (.fault (.unknownVariable name), state) := by
  unfold Run.lookup
  rw [Run.bind_apply]
  simp only [Run.state, Heap.get?_eq_none hname]
  rfl

theorem assign_undeclared {state : State α σ} {name : String} (hname : name ∉ state.heap.names)
    (v : Value) (setup : Setup σ) :
    Run.assign name v setup state = (.fault (.unknownVariable name), state) := by
  rw [Run.assign_apply, Heap.set?_eq_none hname]

/-- A list is not made for a variable that is not declared. -/
theorem list_undeclared {s : Scope α σ} {f : Field} (hf : s.field? "LIST" = some f)
    {state : State α σ} (hname : f.value ∉ state.heap.names) (keep : Bool) (setup : Setup σ) :
    list keep s setup state = (.fault (.unknownVariable f.value), state) := by
  unfold list listIn
  rw [fieldText_of_field? hf, Run.bind_apply]
  simp only [Run.done]
  rw [Run.bind_apply, lookup_undeclared hname]

/-- **A write to an undeclared name fails and changes nothing**: the block ends as if it evaluated
its operand and then failed. The slots may do what they like as long as they are tidy. -/
theorem perform_undeclared {d : Data} {slot : String} (hd : d.target? = some slot)
    {s : Scope α σ} (hs : s.Holds Run.Tidy) {f : Field} (hf : s.field? slot = some f)
    {state : State α σ} (hname : f.value ∉ state.heap.names) (setup : Setup σ) :
    d.perform s setup state
      = (d.operand s >>= fun _ => (Run.fail (.unknownVariable f.value) : Run α σ Value))
          setup state := by
  cases d with
  | set =>
    obtain rfl := Option.some.inj hd
    dsimp only [perform, operand]
    rw [fieldText_of_field? hf, Run.bind_apply, Run.bind_apply]
    simp only [Run.done]
    rw [Run.bind_apply]
    -- evaluating the value declares nothing, so the name is still unknown
    have hnames : (s.evaluate "VALUE" setup state).2.heap.names = state.heap.names :=
      (Run.closed_tidy.calm.evaluate hs "VALUE" setup state).names
    rcases hout : s.evaluate "VALUE" setup state with ⟨v | e | _, state'⟩
    · rw [hout] at hnames
      have hname' : f.value ∉ state'.heap.names := hnames ▸ hname
      simp only
      rw [Run.bind_apply, assign_undeclared hname']
      rfl
    · rfl
    · rfl
  | change =>
    obtain rfl := Option.some.inj hd
    dsimp only [perform]
    rw [fieldText_of_field? hf, Run.bind_apply]
    simp only [Run.done]
    rw [Run.bind_apply, lookup_undeclared hname]
    rfl
  | add | clear | delete | insert | replace =>
    -- the list is asked for first
    obtain rfl := Option.some.inj hd
    dsimp only [perform]
    rw [Run.bind_apply, list_undeclared hf hname]
    rfl
  | _ => exact absurd hd (by simp [target?])

end Blocks.Data

namespace Machine

variable {σ : Type}

/-- In a state, the block is routed to a data function that writes a variable of this name. Of
several fields with one name the last counts. -/
structure Writes (s : State Action σ) (b : Block) (route : Route Action) (d : Blocks.Data)
    (name : String) : Prop where
  routed : (s.registry.resolve b.opcode).1 = .ok route
  handler : route.handler = .data d
  target : ∃ slot f, d.target? = some slot ∧
    (scopeOf (σ := σ) b route).field? slot = some f ∧ f.value = name

/-- **A block that writes to an undeclared name.** If its operand has a value, the block fails with
the unknown name in the state that the operand left; otherwise it ends as the operand does. -/
theorem executeBlock_undeclared {s : State Action σ} {b : Block} {route : Route Action}
    {d : Blocks.Data} {name : String} (hw : Writes s b route d name)
    (hname : name ∉ s.heap.names) (setup : Setup σ) :
    executeBlock b setup s
      = ((d.operand (scopeOf b route) >>= fun _ =>
            (Run.fail (.unknownVariable name) : Job σ Value)).mapFault
          (.wrap route.module route.function b.id)) setup (afterRouting s b.opcode) := by
  obtain ⟨slot, f, hslot, hf, rfl⟩ := hw.target
  have hunknown : f.value ∉ (afterRouting s b.opcode).heap.names := hname
  have hrefused := Blocks.Data.perform_undeclared hslot
    (s := scopeOf (σ := σ) b route) (tidy_slotsOf b.members) hf hunknown setup
  have hperform : route.handler.perform (scopeOf b route) setup (afterRouting s b.opcode)
      = (d.operand (scopeOf b route) >>= fun _ =>
          (Run.fail (.unknownVariable f.value) : Job σ Value)) setup (afterRouting s b.opcode) := by
    rw [hw.handler]
    exact hrefused
  rw [executeBlock_apply, hw.routed]
  simp only
  unfold handled
  rw [Run.bind_apply]
  unfold Run.mapFault
  rw [hperform, Run.bind_apply]
  -- there is no value to go on with
  rcases d.operand (scopeOf b route) setup (afterRouting s b.opcode) with ⟨v | e | _, s'⟩ <;> rfl

/-- **The variables are fixed by the document.** After any history its heap has the declared names,
each once and in the order of first declaration, and these are the names with a value. A name
outside them cannot be written: setting it fails and leaves the machine as it is; and in every
state with these names, a block of the data module that writes to it fails with the unknown name in
the state that the evaluation of its operand left, which for all writing blocks but `set` has the
bindings and lists from before the block. -/
theorem names_fixed_by_document {document : Document} {m : Machine σ} (hm : m.Reached document) :
    m.state.heap.names = (document.declarations.map (·.name)).eraseDups ∧
    (∀ name, (m.state.heap.get? name).isSome = true ↔
      ∃ v ∈ document.declarations, v.name = name) ∧
    ∀ name, (∀ v ∈ document.declarations, v.name ≠ name) →
      (∀ v, m.perform (Run.assign name v) = (.fault (.unknownVariable name), m)) ∧
      ∀ (s : State Action σ) (b : Block) (route : Route Action) (d : Blocks.Data),
        s.heap.names = m.state.heap.names → Writes s b route d name →
        (∀ v s', d.operand (scopeOf b route) m.setup (afterRouting s b.opcode) = (.value v, s') →
          executeBlock b m.setup s
            = (.fault (.execution route.module route.function b.id (.unknownVariable name)),
                s')) ∧
        (∀ e s', d.operand (scopeOf b route) m.setup (afterRouting s b.opcode) = (.fault e, s') →
          executeBlock b m.setup s = (.fault (e.wrap route.module route.function b.id), s')) ∧
        (d ≠ .set →
          (executeBlock b m.setup s).1
            = .fault (.execution route.module route.function b.id (.unknownVariable name)) ∧
          (executeBlock b m.setup s).2.heap = s.heap ∧
          (executeBlock b m.setup s).2.store = s.store) := by
  have hnames : m.state.heap.names = (document.declarations.map (·.name)).eraseDups := by
    -- no request of a history changes the names
    rw [hm.atRest.names, hm.document_eq, Heap.names_ofVariables]
  have hmem : ∀ name, name ∈ m.state.heap.names ↔ ∃ v ∈ document.declarations, v.name = name := by
    intro name
    rw [hnames, List.mem_eraseDups, List.mem_map]
  refine ⟨hnames, fun name => Heap.isSome_get?_iff.trans (hmem name), fun name hname => ?_⟩
  have hunknown : name ∉ m.state.heap.names := by
    rw [hmem]
    rintro ⟨v, hv, heq⟩
    exact hname v hv heq
  refine ⟨fun v => ?_, fun s b route d hs hw => ?_⟩
  · rw [perform, Blocks.Data.assign_undeclared hunknown]
  · -- the block fails once its operand has been evaluated, with the fault of that or its own
    have hblock := executeBlock_undeclared hw (hs ▸ hunknown) m.setup
    unfold Run.mapFault at hblock
    rw [Run.bind_apply] at hblock
    refine ⟨fun v s' hout => ?_, fun e s' hout => ?_, fun hset => ?_⟩
    · rw [hblock, hout]
      rfl
    · rw [hblock, hout]
    · -- the other writing blocks evaluate nothing before they look the name up
      have hout : d.operand (scopeOf b route) m.setup (afterRouting s b.opcode)
          = (.value .undefined, afterRouting s b.opcode) := by
        cases d with
        | set => exact absurd rfl hset
        | _ => rfl
      rw [hblock, hout]
      exact ⟨rfl, rfl, rfl⟩

/-- A block that adds to a list. -/
def addToItems : Block := .mk "data_addtolist" "a" [.field ⟨"LIST", "", "items", ""⟩]

/-- Two variables, one of them declared twice, and a script that writes to a third. -/
def listless : Document :=
  ⟨[⟨"n", "", "", false, false⟩, ⟨"m", "", "", false, false⟩, ⟨"n", "", "", false, false⟩],
    [addToItems], []⟩

/-- A machine for it that has not run yet. -/
def listlessMachine : Machine Unit :=
  create listless ⟨.silent, 10, 10⟩ [("data", Blocks.dataTable)] ()

/-- After a run and an attempt to set the third name the machine has two variables, and the block
fails without making a list. -/
theorem names_listless :
    let m := listlessMachine.after [.run, .assign "items" (.truth true)]
    m.Reached listless ∧ m.state.heap.names = ["n", "m"] ∧
    m.perform (Run.assign "items" .undefined) = (.fault (.unknownVariable "items"), m) ∧
    (executeBlock addToItems m.setup listlessMachine.state).1
      = .fault (.execution "data" "addtolist" "a" (.unknownVariable "items")) ∧
    (executeBlock addToItems m.setup listlessMachine.state).2.store = .empty := by
  intro m
  have hreached : m.Reached listless := ⟨_, _, _, _, rfl⟩
  obtain ⟨hnames, -, hwrites⟩ := names_fixed_by_document hreached
  have hnew : listlessMachine.Reached listless := ⟨_, _, _, [], rfl⟩
  have hsame : listlessMachine.state.heap.names = m.state.heap.names :=
    (names_fixed_by_document hnew).1.trans hnames.symm
  obtain ⟨hset, hblock⟩ := hwrites "items" (by decide)
  have hregistry : listlessMachine.state.registry
      = ⟨[("data", Blocks.dataTable)], ["data"], []⟩ := registry_create_singleton ..
  have hroute : (listlessMachine.state.registry.resolve addToItems.opcode).1
      = .ok ⟨"data_addtolist", "data", "addtolist", .data .add⟩ := by
    simp [hregistry, addToItems, Block.opcode, Registry.resolve, Registry.route,
      Registry.functionOf?, Registry.dropLead?, Registry.module?, Table.find?, Blocks.dataTable,
      Blocks.tableOf, Blocks.Data.functions]
  have hw : Writes listlessMachine.state addToItems
      ⟨"data_addtolist", "data", "addtolist", .data .add⟩ .add "items" :=
    ⟨hroute, rfl, "LIST", ⟨"LIST", "", "items", ""⟩, rfl, rfl, rfl⟩
  obtain ⟨hfault, -, hstore⟩ := (hblock _ _ _ _ hsame hw).2.2 (by decide)
  exact ⟨hreached, hnames.trans (by decide), hset .undefined, hfault, hstore⟩

end Machine

end Blockwork
