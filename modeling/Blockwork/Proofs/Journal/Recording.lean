import Blockwork.Journal.Recorder
import Blockwork.Proofs.Cbor.Canonical
import Blockwork.Proofs.Machine.Declared
import Blockwork.Proofs.Machine.Observing
import Mathlib.Logic.Function.Basic

/-!
# Recorded runs

Several runs may be recorded in one journal at a time. What is done with the journal is then a list
of **acts**: a run is begun, its recorder is told of a block and the journal takes the row or not,
the run is finished. The acts of different runs come in any order.

An act touches what there is of its own run, and does with that run alone what it does with all
(`Desk.only_apply_self`, `Desk.only_apply_of_ne`). So of each run there is what its own acts would
leave in an empty journal (`Desk.only_after`), and it is enough to look at one run. Its rows are
those of the observations before the first one that the journal refused, numbered from one
(`Desk.after_observe`), and a row gives back the step it was made from, with the values in normal
form, if they are within the limits of the reader (`Step.toStep_toRow`).

An observation has the variables and lists of the machine at that moment. The last one of a run that
ends with a value is that of the last block of the document's own chain, and nothing happens after
it, so its heap is the one that the run leaves (`Machine.last_observed`).
-/

namespace Blockwork

/-! ### What is told in a run -/

namespace Machine

variable {σ : Type}

/-- **The heaps that an observer is told of** bind each name once. -/
theorem nodup_observed (m : Machine σ) {o : Observation} (ho : o ∈ m.observed) :
    o.heap.names.Nodup := by
  -- assigning changes no names, and a block that is completed is told of with the names there are
  have hmoves := moves_execute (σ := List Observation)
    (R := fun setup s s' => s'.heap.names = s.heap.names ∧
      ∃ told, s'.memory = setup.observer.memoryAfter s.memory told ∧
        ∀ o ∈ told, o.heap.names = s.heap.names)
    { refl := fun _ _ => ⟨rfl, [], rfl, nofun⟩
      trans := by
        rintro setup s s' s'' ⟨hnames, told, hmemory, htold⟩ ⟨hnames', told', hmemory', htold'⟩
        refine ⟨hnames'.trans hnames, told ++ told', ?_, fun o ho => ?_⟩
        · rw [hmemory', hmemory, Observer.memoryAfter_append]
        · rcases List.mem_append.1 ho with ho | ho
          · exact htold o ho
          · exact (htold' o ho).trans hnames
      assign := fun _ _ _ _ _ hset => ⟨Heap.names_of_set? hset, [], rfl, nofun⟩
      store := fun _ _ _ => ⟨rfl, [], rfl, nofun⟩
      events := fun _ _ _ => ⟨rfl, [], rfl, nofun⟩
      counter := fun _ _ _ => ⟨rfl, [], rfl, nofun⟩ }
    (fun _ _ h => h) (fun _ _ _ => ⟨rfl, [], rfl, nofun⟩)
    (fun scope v setup s => ⟨rfl, [_], rfl, fun o ho => by rw [List.mem_singleton.1 ho]⟩)
    m.document.entry
  obtain ⟨-, told, hmemory, htold⟩ := hmoves m.watched.setup m.watched.started
  have hobserved : m.observed = told :=
    hmemory.trans (Observer.memoryAfter_of_keeps (fun _ _ => rfl) [] told)
  rw [hobserved] at ho
  rw [htold o ho]
  exact Heap.nodup_ofNames _

/-- The observer was told of a block last of all, with the variables and lists there are now. -/
def ToldLast (setup : Setup σ) (s : State Action σ) : Prop :=
  ∃ memory o, s.memory = (setup.observer.observe o memory).1 ∧ o.heap = s.heap ∧ o.store = s.store

theorem toldLast_executeBlock {b : Block} {setup : Setup σ} {s : State Action σ} {v : Value}
    (hv : (executeBlock b setup s).1 = .value v) : ToldLast setup (executeBlock b setup s).2 := by
  rw [executeBlock_apply] at hv ⊢
  cases hroute : (s.registry.resolve b.opcode).1 with
  | error e =>
    rw [hroute] at hv
    exact absurd hv (by simp)
  | ok route =>
    rw [hroute] at hv
    unfold handled at hv ⊢
    dsimp only at hv ⊢
    rw [Run.bind_apply] at hv ⊢
    rcases hout : (route.handler.perform (scopeOf b route)).mapFault
        (.wrap route.module route.function b.id) setup (afterRouting s b.opcode)
      with ⟨w | e | _, s'⟩
    · -- the handler had a value, and then the observer was told
      exact ⟨s'.memory, _, rfl, rfl, rfl⟩
    · rw [hout] at hv
      exact absurd hv nofun
    · rw [hout] at hv
      exact absurd hv nofun

/-- A chain that has blocks ends with the last of them. -/
theorem toldLast_executeRest (v : Value) {c : Chain} (hc : c ≠ []) {setup : Setup σ}
    {s : State Action σ} {w : Value} (hw : (executeRest v c setup s).1 = .value w) :
    ToldLast setup (executeRest v c setup s).2 := by
  induction c generalizing v s with
  | nil => exact absurd rfl hc
  | cons b rest ih =>
    rw [executeRest, Run.bind_apply] at hw ⊢
    rcases hblock : executeBlock b setup s with ⟨u | e | _, s'⟩
    · rw [hblock] at hw
      dsimp only at hw ⊢
      -- of the last block the observer is told last
      cases rest with
      | nil =>
        have hlast : ToldLast setup (executeBlock b setup s).2 :=
          toldLast_executeBlock (v := u) (by rw [hblock])
        rw [hblock] at hlast
        exact hlast
      | cons b' rest => exact ih u (by simp) hw
    · rw [hblock] at hw
      exact absurd hw (by simp)
    · rw [hblock] at hw
      exact absurd hw (by simp)

theorem toldLast_execute {c : Chain} (hc : c ≠ []) {setup : Setup σ} {s : State Action σ}
    {w : Value} (hw : (execute c setup s).1 = .value w) :
    ToldLast setup (execute c setup s).2 := by
  cases c with
  | nil => exact absurd rfl hc
  | cons b rest =>
    rw [execute] at hw ⊢
    unfold nested at hw ⊢
    by_cases hlimit : setup.limit ≤ s.depth
    · rw [if_pos hlimit] at hw
      exact absurd hw (by simp)
    · rw [if_neg hlimit] at hw ⊢
      -- inside, the chain is the rest of itself
      exact toldLast_executeRest .undefined (c := b :: rest) (by simp) hw

/-- **The last observation of a run with a result** has the variables and lists that it leaves. -/
theorem last_observed (m : Machine σ) {v : Value} (hv : m.run.1 = .value v)
    {before : List Observation} {o : Observation} (ho : m.observed = before ++ [o]) :
    o.heap = m.run.2.state.heap ∧ o.store = m.run.2.state.store := by
  have hends := m.run_watchedBy ⟨fun o told => (told ++ [o], none)⟩ []
  have hrun : m.watched.run.1 = .value v := hends.1.trans hv
  have hstate : m.watched.run.2.state.heap = m.run.2.state.heap ∧
      m.watched.run.2.state.store = m.run.2.state.store :=
    ⟨congrArg State.heap hends.2, congrArg State.store hends.2⟩
  have hentry : m.document.entry ≠ [] := by
    intro hempty
    -- without blocks nothing is told
    have hnone : m.observed = [] := by
      change (execute m.document.entry m.watched.setup m.watched.started).2.memory = []
      rw [hempty]
      rfl
    exact absurd (hnone.symm.trans ho) (by simp)
  have hlast : ToldLast m.watched.setup m.watched.run.2.state := toldLast_execute hentry hrun
  obtain ⟨memory, o', hmemory, hheap, hstore⟩ := hlast
  have heq : memory ++ [o'] = before ++ [o] := hmemory.symm.trans ho
  obtain rfl : o' = o := (List.cons.inj (List.append_inj_right' heq rfl)).1
  exact ⟨hheap.trans hstate.1, hstore.trans hstate.2⟩

end Machine

/-! ### Rows are read back -/

/-- Bindings as they are read back: sorted, with their values in normal form. -/
def Bindings.readBack (bs : List (String × Datum)) : List (String × Datum) :=
  normal (bs.mergeSort precedes)

namespace Step

/-- A step as it is read back. -/
def readBack (s : Step) : Step :=
  { s with result := s.result.normal, heap := Bindings.readBack s.heap }

/-- **The limits of the reader**: lists that have items nest at most 15 deep, no list has more than
131072 items and no heap more than so many variables, and the bytes can be counted. -/
structure Within (s : Step) : Prop where
  result : s.result.nesting ≤ 15 ∧ s.result.widest ≤ Cbor.maxCount
  heap : ∀ b ∈ s.heap, b.2.nesting ≤ 15 ∧ b.2.widest ≤ Cbor.maxCount
  count : s.heap.length ≤ Cbor.maxCount
  resultSize : s.result.encode.length < 2 ^ 64
  heapSize : (Bindings.encode s.heap).length < 2 ^ 64

/-- **A row gives back its step.** -/
theorem toStep_toRow {s : Step} (hnames : (s.heap.map (·.1)).Nodup) (hs : s.Within)
    (run : String) : (s.toRow run).toStep = .ok s.readBack := by
  have hresult : Datum.decode? (s.toRow run).result = some s.result.normal := by
    change Datum.decode? s.result.encode = _
    rw [Datum.decode?_encode s.result hs.resultSize, if_pos hs.result]
  have hheap : Bindings.decode? (s.toRow run).heap = some (Bindings.readBack s.heap) := by
    change Bindings.decode? (Bindings.encode s.heap) = _
    rw [Bindings.decode?_encode hnames hs.heapSize, if_pos ⟨hs.count, hs.heap⟩]
    rfl
  unfold Row.toStep
  rw [hresult, hheap]
  rfl

end Step

/-! ### What a journal keeps of one run -/

namespace Journal

/-- The part of a journal that is about one run. -/
def only (j : Journal) (id : String) : Journal :=
  ⟨j.runs.filter (·.id == id), j.rows.filter (·.run == id)⟩

theorem only_eq_empty {j : Journal} {id : String} (hrun : j.run? id = none)
    (hrows : j.rowsOf id = []) : j.only id = {} := by
  have hruns : j.runs.filter (·.id == id) = [] := by
    rw [List.filter_eq_nil_iff]
    exact List.find?_eq_none.1 hrun
  change (⟨_, j.rowsOf id⟩ : Journal) = _
  rw [hruns, hrows]

/-- **Reading a run** looks at what is about it. -/
theorem run?_only (j : Journal) (id : String) : (j.only id).run? id = j.run? id := by
  unfold only run?
  rw [List.find?_filter]
  simp only [Bool.decide_and, Bool.decide_eq_true, Bool.and_self]

theorem steps_only (j : Journal) (id : String) : (j.only id).steps id = j.steps id := by
  have hrows : (j.only id).rowsOf id = j.rowsOf id := by
    unfold only rowsOf
    rw [List.filter_filter]
    simp only [Bool.and_self]
  unfold steps
  rw [run?_only, hrows]

theorem only_begin (j : Journal) (id document : String) (now : Nat) (other : String) :
    (j.begin id document now).only other
      = if id = other then (j.only other).begin id document now else j.only other := by
  unfold begin only
  by_cases hid : id = other <;> simp [hid]

theorem only_insert (j : Journal) (r : Row) (id : String) :
    (j.insert r).only id = if r.run = id then (j.only id).insert r else j.only id := by
  unfold insert only
  by_cases hid : r.run = id <;> simp [hid]

theorem only_finish (j : Journal) (id : String) (steps : Nat) (error : String) (now : Nat)
    (other : String) :
    (j.finish id steps error now).only other
      = if id = other then (j.only other).finish id steps error now else j.only other := by
  -- closing a record does not change its name
  have hsame : ((fun r : RunRecord => r.id == other) ∘ fun r => if r.id == id then
      { r with finished := some now, steps := steps, error := error } else r)
        = fun r => r.id == other := by
    funext r
    by_cases hr : r.id = id <;> simp [hr]
  unfold finish only
  dsimp only
  rw [List.filter_map, hsame]
  by_cases hid : id = other
  · rw [if_pos hid]
  · rw [if_neg hid]
    congr 1
    refine (List.map_congr_left fun r hr => ?_).trans (List.map_id _)
    have hr' : r.id = other := by simpa using (List.mem_filter.1 hr).2
    have hne : ¬ r.id = id := fun heq => hid (heq.symm.trans hr')
    simp [hne]

theorem readRows_toRow {steps : List Step} (run : String)
    (h : ∀ s ∈ steps, (s.toRow run).toStep = .ok s.readBack) :
    readRows (steps.map (Step.toRow run)) = .ok (steps.map Step.readBack) := by
  induction steps with
  | nil => rfl
  | cons s steps ih =>
    rw [List.map_cons, readRows, h s List.mem_cons_self,
      ih fun s' hs' => h s' (List.mem_cons_of_mem s hs')]
    rfl

/-- The steps of a journal with one run. -/
theorem steps_finished {r : RunRecord} {steps : List Step}
    (h : ∀ s ∈ steps, (s.toRow r.id).toStep = .ok s.readBack) :
    (Journal.mk [r] (steps.map (Step.toRow r.id))).steps r.id = .ok (steps.map Step.readBack) := by
  have hrun : (Journal.mk [r] (steps.map (Step.toRow r.id))).run? r.id = some r := by
    simp [run?]
  have hrows : (Journal.mk [r] (steps.map (Step.toRow r.id))).rowsOf r.id
      = steps.map (Step.toRow r.id) := by
    refine List.filter_eq_self.2 fun row hrow => ?_
    obtain ⟨s, -, rfl⟩ := List.mem_map.1 hrow
    exact beq_self_eq_true r.id
  unfold Journal.steps
  rw [hrun, hrows]
  exact readRows_toRow r.id h

end Journal

/-! ### Acts -/

/-- What is done with a journal and the recorders that write into it. -/
inductive Act where
  | begin (id document : String) (now : Nat)
  /-- The recorder of a run is told of a block, and the journal takes the row or refuses it. -/
  | observe (id : String) (takes : Bool) (o : Observation)
  /-- A run has ended, with a fault or without. -/
  | finish (id : String) (failure : Option Fault) (now : Nat)

/-- The run that an act is about. -/
def Act.run : Act → String
  | begin id _ _ => id
  | observe id _ _ => id
  | finish id _ _ => id

/-- A journal with the recorders that write into it, by the run of each. -/
structure Desk where
  journal : Journal
  recorder : String → Option Recorder

namespace Desk

/-- A journal that nobody writes into. -/
def idle (j : Journal) : Desk := ⟨j, fun _ => none⟩

/-- What an act does. A run that was not begun has no recorder. -/
def apply (d : Desk) : Act → Desk
  | .begin id document now =>
    ⟨d.journal.begin id document now, Function.update d.recorder id (some ⟨id, 0, none⟩)⟩
  | .observe id takes o =>
    match d.recorder id with
    | none => d
    | some r =>
      let (r, j) := r.observe takes o d.journal
      ⟨j, Function.update d.recorder id (some r)⟩
  | .finish id failure now =>
    match d.recorder id with
    | none => d
    | some r => { d with
        journal := r.finish ((failure.map Fault.message).getD "") now d.journal }

/-- After some acts. -/
def after (d : Desk) (acts : List Act) : Desk := acts.foldl apply d

/-- The part that is about one run. -/
def only (d : Desk) (id : String) : Desk :=
  ⟨d.journal.only id, Function.update (fun _ => none) id (d.recorder id)⟩

/-- Recorders know their runs. -/
def Sound (d : Desk) : Prop := ∀ id r, d.recorder id = some r → r.run = id

section

variable {d : Desk} {id : String} {r : Recorder}

theorem apply_observe (hr : d.recorder id = some r) (takes : Bool) (o : Observation) :
    d.apply (.observe id takes o)
      = ⟨(r.observe takes o d.journal).2,
          Function.update d.recorder id (some (r.observe takes o d.journal).1)⟩ := by
  change (match d.recorder id with | none => d | some r => _) = _
  rw [hr]

theorem apply_observe_none (hr : d.recorder id = none) (takes : Bool) (o : Observation) :
    d.apply (.observe id takes o) = d := by
  change (match d.recorder id with | none => d | some r => _) = _
  rw [hr]

theorem apply_finish (hr : d.recorder id = some r) (failure : Option Fault) (now : Nat) :
    d.apply (.finish id failure now)
      = ⟨d.journal.finish r.run r.recorded ((failure.map Fault.message).getD "") now,
          d.recorder⟩ := by
  change (match d.recorder id with | none => d | some r => _) = _
  rw [hr]
  rfl

theorem apply_finish_none (hr : d.recorder id = none) (failure : Option Fault) (now : Nat) :
    d.apply (.finish id failure now) = d := by
  change (match d.recorder id with | none => d | some r => _) = _
  rw [hr]

theorem recorder_only (d : Desk) (id : String) : (d.only id).recorder id = d.recorder id := by
  unfold only
  dsimp only
  rw [Function.update_self]

theorem only_update_self (d : Desk) (j : Journal) (id : String) (r : Option Recorder) :
    only ⟨j, Function.update d.recorder id r⟩ id
      = ⟨j.only id, Function.update (d.only id).recorder id r⟩ := by
  unfold only
  dsimp only
  rw [Function.update_self, Function.update_idem]

theorem only_update_of_ne (d : Desk) (j : Journal) {id other : String} (hid : id ≠ other)
    (r : Option Recorder) :
    only ⟨j, Function.update d.recorder id r⟩ other = ⟨j.only other, (d.only other).recorder⟩ := by
  unfold only
  dsimp only
  rw [Function.update_of_ne hid.symm]

end

/-- What becomes of a recorder does not depend on the journal. -/
theorem fst_observe (r : Recorder) (takes : Bool) (o : Observation) (j j' : Journal) :
    (r.observe takes o j).1 = (r.observe takes o j').1 := by
  unfold Recorder.observe
  cases r.failure.isSome <;> cases takes <;> rfl

theorem run_observe (r : Recorder) (takes : Bool) (o : Observation) (j : Journal) :
    (r.observe takes o j).1.run = r.run := by
  unfold Recorder.observe
  cases r.failure.isSome <;> cases takes <;> rfl

/-- What a recorder adds to the journal is about its run. -/
theorem only_observe (r : Recorder) (takes : Bool) (o : Observation) (j : Journal) (id : String) :
    (r.observe takes o j).2.only id
      = if r.run = id then (r.observe takes o (j.only id)).2 else j.only id := by
  unfold Recorder.observe
  cases r.failure.isSome with
  | true => exact (ite_self _).symm
  | false =>
    cases takes with
    | true => exact Journal.only_insert j _ id
    | false => exact (ite_self _).symm

theorem Sound.update {d : Desk} (hd : d.Sound) {id : String} {r : Recorder} (hr : r.run = id)
    (j : Journal) : Sound ⟨j, Function.update d.recorder id (some r)⟩ := by
  intro other r' hr'
  dsimp only at hr'
  by_cases hid : other = id
  · subst hid
    rw [Function.update_self] at hr'
    rw [← Option.some.inj hr', hr]
  · rw [Function.update_of_ne hid] at hr'
    exact hd other r' hr'

theorem Sound.apply {d : Desk} (hd : d.Sound) (a : Act) : (d.apply a).Sound := by
  cases a with
  | begin id document now => exact Sound.update (r := ⟨id, 0, none⟩) hd rfl _
  | observe id takes o =>
    cases hr : d.recorder id with
    | none => rwa [apply_observe_none hr]
    | some r =>
      rw [apply_observe hr]
      exact hd.update ((run_observe r takes o d.journal).trans (hd id r hr)) _
  | finish id failure now =>
    cases hr : d.recorder id with
    | none => rwa [apply_finish_none hr]
    | some r =>
      rw [apply_finish hr]
      exact hd

/-- **An act of another run** does nothing with this one. -/
theorem only_apply_of_ne {d : Desk} (hd : d.Sound) {a : Act} {id : String} (ha : a.run ≠ id) :
    (d.apply a).only id = d.only id := by
  cases a with
  | begin run document now =>
    have hne : run ≠ id := ha
    change only ⟨_, _⟩ id = _
    rw [only_update_of_ne d _ hne, Journal.only_begin, if_neg hne]
    rfl
  | observe run takes o =>
    have hne : run ≠ id := ha
    cases hr : d.recorder run with
    | none => rw [apply_observe_none hr]
    | some r =>
      -- a recorder writes rows of its own run only
      rw [apply_observe hr, only_update_of_ne d _ hne, only_observe, hd run r hr, if_neg hne]
      rfl
  | finish run failure now =>
    have hne : run ≠ id := ha
    cases hr : d.recorder run with
    | none => rw [apply_finish_none hr]
    | some r =>
      rw [apply_finish hr, only, Journal.only_finish, hd run r hr, if_neg hne]
      rfl

/-- **An act of a run** does with this run alone what it does with all. -/
theorem only_apply_self {d : Desk} (hd : d.Sound) (a : Act) :
    (d.apply a).only a.run = (d.only a.run).apply a := by
  cases a with
  | begin run document now =>
    change only ⟨_, _⟩ run = _
    rw [only_update_self, Journal.only_begin, if_pos rfl]
    rfl
  | observe run takes o =>
    change (d.apply _).only run = (d.only run).apply _
    -- the run has the same recorder when it is alone
    cases hr : d.recorder run with
    | none => rw [apply_observe_none hr, apply_observe_none ((recorder_only d run).trans hr)]
    | some r =>
      rw [apply_observe hr, apply_observe ((recorder_only d run).trans hr), only_update_self,
        only_observe, if_pos (hd run r hr), fst_observe r takes o d.journal (d.only run).journal]
      rfl
  | finish run failure now =>
    change (d.apply _).only run = (d.only run).apply _
    cases hr : d.recorder run with
    | none => rw [apply_finish_none hr, apply_finish_none ((recorder_only d run).trans hr)]
    | some r =>
      rw [apply_finish hr, apply_finish ((recorder_only d run).trans hr), only,
        Journal.only_finish, if_pos (hd run r hr)]
      rfl

/-- **Runs do not disturb each other**: of one run there is what its own acts leave. -/
theorem only_after {d : Desk} (hd : d.Sound) (acts : List Act) (id : String) :
    (d.after acts).only id = (d.only id).after (acts.filter (·.run == id)) := by
  induction acts generalizing d with
  | nil => rfl
  | cons a acts ih =>
    change ((d.apply a).after acts).only id = _
    rw [ih (hd.apply a)]
    by_cases ha : a.run = id
    · subst ha
      rw [List.filter_cons_of_pos (by simp), only_apply_self hd]
      rfl
    · rw [List.filter_cons_of_neg (by simpa using ha), only_apply_of_ne hd ha]

/-! ### One run -/

/-- The observations that the journal takes, up to the first that it refuses. -/
def taken (told : List (Bool × Observation)) : List Observation :=
  (told.takeWhile (·.1)).map (·.2)

/-- A recorder that has stopped records nothing. -/
theorem after_observe_stopped {d : Desk} {id : String} {r : Recorder} (hr : d.recorder id = some r)
    (hstopped : r.failure.isSome = true) (told : List (Bool × Observation)) :
    d.after (told.map fun t => .observe id t.1 t.2) = d := by
  induction told with
  | nil => rfl
  | cons t told ih =>
    have hsame : d.apply (.observe id t.1 t.2) = d := by
      rw [apply_observe hr, Recorder.observe, if_pos hstopped]
      dsimp only
      rw [← hr, Function.update_eq_self]
    change (d.apply _).after _ = d
    rw [hsame, ih]

/-- **The rows of a run** are those of the observations taken, numbered on. -/
theorem after_observe {d : Desk} {id : String} {n : Nat} (hr : d.recorder id = some ⟨id, n, none⟩)
    (told : List (Bool × Observation)) :
    ∃ r : Recorder, r.run = id ∧ r.recorded = n + (taken told).length ∧
      (d.after (told.map fun t => .observe id t.1 t.2)).recorder id = some r ∧
      (d.after (told.map fun t => .observe id t.1 t.2)).journal
        = ⟨d.journal.runs, d.journal.rows ++ ((taken told).mapIdx fun i o =>
            Recorder.stepOf (n + i + 1) o).map (Step.toRow id)⟩ := by
  induction told generalizing d n with
  | nil =>
    refine ⟨⟨id, n, none⟩, rfl, rfl, hr, ?_⟩
    change d.journal = ⟨d.journal.runs, d.journal.rows ++ []⟩
    rw [List.append_nil]
  | cons t told ih =>
    -- the first observation decides about the rest: recording goes on, or it stops for good
    obtain ⟨takes, o⟩ := t
    change ∃ r : Recorder, _ ∧ _ ∧ ((d.apply (.observe id takes o)).after _).recorder id = _ ∧
      ((d.apply (.observe id takes o)).after _).journal = _
    rw [apply_observe hr]
    cases takes with
    | true =>
      -- one row more, and the recorder goes on with the next number
      have hnext : Function.update d.recorder id (some ⟨id, n + 1, none⟩) id
          = some ⟨id, n + 1, none⟩ := Function.update_self ..
      obtain ⟨r, hrun, hrecorded, hrecorder, hjournal⟩ :=
        ih (d := ⟨d.journal.insert ((Recorder.stepOf (n + 1) o).toRow id),
          Function.update d.recorder id (some ⟨id, n + 1, none⟩)⟩) hnext
      refine ⟨r, hrun, ?_, hrecorder, hjournal.trans ?_⟩
      · rw [hrecorded]
        change n + 1 + (taken told).length = n + ((taken told).length + 1)
        omega
      · have hnumbers : ∀ i, n + 1 + i + 1 = n + (i + 1) + 1 := by omega
        simp only [taken, List.takeWhile_cons, if_true, List.map_cons, List.mapIdx_cons, hnumbers,
          Journal.insert, List.append_assoc, List.singleton_append]
    | false =>
      -- here the recorder stops, and drops what comes after
      have hnext : Function.update d.recorder id (some ⟨id, n + 1, some (.closed .saving)⟩) id
          = some ⟨id, n + 1, some (.closed .saving)⟩ := Function.update_self ..
      have hstopped := after_observe_stopped
        (d := ⟨d.journal, Function.update d.recorder id (some ⟨id, n + 1, some (.closed .saving)⟩)⟩)
        hnext rfl told
      refine ⟨⟨id, n + 1, some (.closed .saving)⟩, rfl, rfl, ?_, ?_⟩
      · exact (congrArg (fun d => Desk.recorder d id) hstopped).trans hnext
      · refine (congrArg Desk.journal hstopped).trans ?_
        change d.journal = ⟨d.journal.runs, d.journal.rows ++ []⟩
        rw [List.append_nil]

/-- The acts of a run that is begun, told of blocks and finished. -/
def session (id document : String) (began : Nat) (told : List (Bool × Observation))
    (failure : Option Fault) (ended : Nat) : List Act :=
  .begin id document began :: told.map (fun t => .observe id t.1 t.2) ++ [.finish id failure ended]

/-- **What a session leaves in an empty journal.** -/
theorem after_session (id document : String) (began : Nat) (told : List (Bool × Observation))
    (failure : Option Fault) (ended : Nat) :
    ((idle {}).after (session id document began told failure ended)).journal
      = ⟨[⟨id, document, began, some ended, (taken told).length,
            (failure.map Fault.message).getD ""⟩],
          ((taken told).mapIdx fun i o => Recorder.stepOf (i + 1) o).map (Step.toRow id)⟩ := by
  have hbegun : ((idle {}).apply (.begin id document began)).recorder id = some ⟨id, 0, none⟩ :=
    Function.update_self ..
  obtain ⟨r, hrun, hrecorded, hrecorder, hjournal⟩ := after_observe hbegun told
  have hsplit : (idle {}).after (session id document began told failure ended)
      = (((idle {}).apply (.begin id document began)).after
          (told.map fun t => .observe id t.1 t.2)).apply (.finish id failure ended) := by
    unfold session after
    rw [List.foldl_append]
    rfl
  rw [hsplit, apply_finish hrecorder, hjournal, hrun, hrecorded]
  simp [Journal.finish, idle, apply, Journal.begin]

theorem taken_of_all {told : List (Bool × Observation)} (h : ∀ t ∈ told, t.1 = true) :
    taken told = told.map (·.2) := by
  unfold taken
  rw [List.takeWhile_eq_self_iff.2 h]

theorem taken_of_refused {told before after : List (Bool × Observation)} {o : Observation}
    (htold : told = before ++ (false, o) :: after) (h : ∀ t ∈ before, t.1 = true) :
    taken told = before.map (·.2) := by
  unfold taken
  rw [htold, List.takeWhile_append_of_pos h, List.takeWhile_cons_of_neg (by simp), List.append_nil]

theorem stepOf_heap (n : Nat) (o : Observation) :
    ((Recorder.stepOf n o).heap.map (·.1)) = o.heap.names := by
  change (o.heap.bindings.map _).map _ = o.heap.bindings.map _
  rw [List.map_map]
  rfl

/-- The number of a step has nothing to do with the limits. -/
theorem within_stepOf {o : Observation} (m : Nat) (h : (Recorder.stepOf 0 o).Within) :
    (Recorder.stepOf m o).Within :=
  ⟨h.result, h.heap, h.count, h.resultSize, h.heapSize⟩

section

variable {j : Journal} {id : String} {acts : List Act} {document : String} {began ended : Nat}
  {told : List (Bool × Observation)} {failure : Option Fault}

/-- **What there is of one run** when the acts of all runs are done: the steps that the journal
took, and the record. -/
theorem steps_after_acts (hrun : j.run? id = none) (hrows : j.rowsOf id = [])
    (hacts : acts.filter (·.run == id) = session id document began told failure ended)
    (hnames : ∀ t ∈ told, t.2.heap.names.Nodup)
    (hlimits : ∀ t ∈ told, (Recorder.stepOf 0 t.2).Within) :
    ((idle j).after acts).journal.steps id
        = .ok ((taken told).mapIdx fun i o => (Recorder.stepOf (i + 1) o).readBack) ∧
      ((idle j).after acts).journal.run? id
        = some ⟨id, document, began, some ended, (taken told).length,
            (failure.map Fault.message).getD ""⟩ := by
  have hsound : (idle j).Sound := nofun
  have hfresh : (idle j).only id = idle {} := by
    change Desk.mk (j.only id) (Function.update (fun _ => none) id none) = _
    rw [Journal.only_eq_empty hrun hrows, Function.update_eq_self_iff.2 rfl]
    rfl
  -- of this run there is what its session leaves in an empty journal
  have hkept : ((idle j).after acts).journal.only id = _ :=
    (congrArg Desk.journal (only_after hsound acts id)).trans
      (by rw [hfresh, hacts, after_session id document began told failure ended])
  constructor
  · rw [← Journal.steps_only, hkept, Journal.steps_finished fun s hs => ?_]
    · rw [List.mapIdx_eq_zipIdx_map, List.map_map, List.mapIdx_eq_zipIdx_map]
      rfl
    · obtain ⟨i, hi, rfl⟩ := List.mem_mapIdx.1 hs
      obtain ⟨t, ht, heq⟩ := List.mem_map.1 (List.getElem_mem hi)
      have hmem : t ∈ told := (List.takeWhile_sublist _).subset ht
      refine Step.toStep_toRow ?_ (within_stepOf _ (heq ▸ hlimits t hmem)) id
      rw [stepOf_heap, ← heq]
      exact hnames t hmem
  · rw [← Journal.run?_only, hkept]
    simp [Journal.run?]

/-- **A recorded run of a machine is read back.** That heaps bind each name once need not be asked
of what a machine tells. -/
theorem steps_after_machine {σ : Type} (m : Machine σ) (htold : told.map (·.2) = m.observed)
    (hrun : j.run? id = none) (hrows : j.rowsOf id = [])
    (hacts : acts.filter (·.run == id) = session id document began told failure ended)
    (hlimits : ∀ o ∈ m.observed, (Recorder.stepOf 0 o).Within) :
    ((idle j).after acts).journal.steps id
        = .ok ((taken told).mapIdx fun i o => (Recorder.stepOf (i + 1) o).readBack) ∧
      ((idle j).after acts).journal.run? id
        = some ⟨id, document, began, some ended, (taken told).length,
            (failure.map Fault.message).getD ""⟩ := by
  have hobserved : ∀ t ∈ told, t.2 ∈ m.observed :=
    fun t ht => htold ▸ List.mem_map_of_mem ht
  exact steps_after_acts hrun hrows hacts (fun t ht => m.nodup_observed (hobserved t ht))
    fun t ht => hlimits t.2 (hobserved t ht)

end

/-- **Recorded runs are read back.** Runs are begun, recorded and finished on one journal, their
acts in any order among each other. Of a run whose identifier is new, with values within the limits
of the reader, the journal then gives back the steps of the observations that it took, numbered from
one, and a record with their number and the text of the fault, if there was one. It took all of
them, or those before the first that it refused. If a machine told of them, its run had a result and
none was refused, then the heap of the last step is the heap of the machine in the end.

The heaps that a machine tells of bind each name once (`Machine.nodup_observed`), so of a machine's
run only the limits are asked (`steps_after_machine`). All of this is about values that can be read
out: where a list lies inside itself no recorder returns (`Recorder.observes_iff`), and there is no
row to speak of. -/
theorem recorded_runs_read_back {j : Journal} {id : String} (hrun : j.run? id = none)
    (hrows : j.rowsOf id = []) {acts : List Act} {document : String} {began ended : Nat}
    {told : List (Bool × Observation)} {failure : Option Fault}
    (hacts : acts.filter (·.run == id) = session id document began told failure ended)
    (hnames : ∀ t ∈ told, t.2.heap.names.Nodup)
    (hlimits : ∀ t ∈ told, (Recorder.stepOf 0 t.2).Within) :
    ((idle j).after acts).journal.steps id
        = .ok ((taken told).mapIdx fun i o => (Recorder.stepOf (i + 1) o).readBack) ∧
      ((idle j).after acts).journal.run? id
        = some ⟨id, document, began, some ended, (taken told).length,
            (failure.map Fault.message).getD ""⟩ ∧
      ((∀ t ∈ told, t.1 = true) → taken told = told.map (·.2)) ∧
      (∀ before o after, told = before ++ (false, o) :: after → (∀ t ∈ before, t.1 = true) →
        taken told = before.map (·.2)) ∧
      ∀ {σ : Type} (m : Machine σ) (v : Value) (steps : List Step) (last : Step),
        told = m.observed.map (fun o => (true, o)) → m.run.1 = .value v →
        ((idle j).after acts).journal.steps id = .ok (steps ++ [last]) →
        last.heap = Bindings.readBack (m.run.2.state.heap.read m.run.2.state.store) := by
  obtain ⟨hsteps, hrecord⟩ := steps_after_acts hrun hrows hacts hnames hlimits
  refine ⟨hsteps, hrecord, taken_of_all, fun before o after => taken_of_refused, ?_⟩
  intro σ m v steps last htold hv hread
  have hall : taken told = m.observed := by
    rw [taken_of_all (by simp [htold]), htold, List.map_map]
    exact List.map_id _
  have heq : steps ++ [last]
      = m.observed.mapIdx fun i o => (Recorder.stepOf (i + 1) o).readBack := by
    rw [← hall]
    exact Except.ok.inj (hread.symm.trans hsteps)
  rcases List.eq_nil_or_concat m.observed with hnil | ⟨before, o, ho⟩
  · rw [hnil] at heq
    exact absurd heq (by simp)
  · rw [List.concat_eq_append] at ho
    rw [ho, List.mapIdx_concat] at heq
    obtain rfl : last = _ := (List.cons.inj (List.append_inj_right' heq rfl)).1
    obtain ⟨hheap, hstore⟩ := m.last_observed hv ho
    rw [← hheap, ← hstore]
    rfl

/-- A block that leaves a variable unassigned. -/
def noted (block : String) : Observation :=
  ⟨block, "probe_note", "probe", "note", 1, .undefined, ⟨[("x", .undefined)]⟩, ⟨#[]⟩, 0⟩

/-- Two runs at a time; the journal refuses the second row of one of them. -/
def interleaved : List Act :=
  [.begin "r" "d" 1, .begin "s" "d" 2, .observe "r" true (noted "a"), .observe "s" true (noted "b"),
    .observe "r" false (noted "c"), .finish "s" none 3, .observe "r" true (noted "d"),
    .finish "r" (some (.raised "boom")) 4]

theorem recorded_runs_read_back_interleaved :
    ((idle {}).after interleaved).journal.steps "r"
        = .ok [(Recorder.stepOf 1 (noted "a")).readBack] ∧
      ((idle {}).after interleaved).journal.run? "r" = some ⟨"r", "d", 1, some 4, 1, "boom"⟩ := by
  have hacts : interleaved.filter (·.run == "r") = session "r" "d" 1
      [(true, noted "a"), (false, noted "c"), (true, noted "d")] (some (.raised "boom")) 4 := rfl
  -- what is recorded of a block does not depend on its name
  have hwithin : ∀ b, (Recorder.stepOf 0 (noted b)).Within := fun b => by
    have ha : (Recorder.stepOf 0 (noted "a")).Within :=
      { result := by decide
        heap := by decide
        count := by decide
        resultSize := by decide +kernel
        heapSize := by
          rw [Bindings.length_encode]
          decide +kernel }
    exact ⟨ha.result, ha.heap, ha.count, ha.resultSize, ha.heapSize⟩
  have hnew : ({} : Journal).run? "r" = none := rfl
  have hread := recorded_runs_read_back hnew rfl hacts (by simp [noted, Heap.names])
    (by simp [hwithin])
  exact ⟨hread.1, hread.2.1⟩

/-- A block that returns a list of undefined values. -/
def listed (count : Nat) : Observation :=
  ⟨"a", "probe_list", "probe", "list", 1, .list ⟨0⟩, ⟨[]⟩, ⟨#[Array.replicate count .undefined]⟩, 0⟩

theorem result_listed (seq count : Nat) :
    (Recorder.stepOf seq (listed count)).result = .list (List.replicate count .undefined) := by
  have hitems : (listed count).store.items ⟨0⟩ = Array.replicate count .undefined := rfl
  change (listed count).store.readInside 1 [] (.list ⟨0⟩) = _
  rw [Store.readInside, if_neg (by simp), hitems, Array.toList_replicate, List.map_replicate]
  rfl

/-- A run with too long a list is recorded and cannot be read. -/
theorem steps_after_listed {count : Nat} (hlong : Cbor.maxCount < count)
    (hsize : 4 * count + 15 < 2 ^ 64) :
    ((idle {}).after (session "r" "d" 1 [(true, listed count)] none 2)).journal.steps "r"
      = .error (.damaged 1 .result) := by
  have hlength := Datum.length_encode_replicate count
  have hwidest := Datum.le_widest_replicate count
  have hdecode : Datum.decode? ((Recorder.stepOf 1 (listed count)).toRow "r").result = none := by
    change Datum.decode? (Recorder.stepOf 1 (listed count)).result.encode = none
    rw [result_listed, Datum.decode?_encode _ (by omega), if_neg]
    rintro ⟨-, hle⟩
    omega
  have hrow : ((Recorder.stepOf 1 (listed count)).toRow "r").toStep = .error .result := by
    unfold Row.toStep
    rw [hdecode]
  rw [after_session]
  change Journal.readRows [(Recorder.stepOf 1 (listed count)).toRow "r"] = _
  rw [Journal.readRows, hrow]
  rfl

/-- Nesting alone does not decide whether a run can be read. -/
theorem steps_after_long_list :
    (Recorder.stepOf 1 (listed 131073)).result.nesting ≤ 15 ∧
      (Recorder.stepOf 1 (listed 131073)).heap = [] ∧
      ((idle {}).after (session "r" "d" 1 [(true, listed 131073)] none 2)).journal.steps "r"
        = .error (.damaged 1 .result) := by
  have hnesting := Datum.nesting_replicate 131073
  refine ⟨?_, rfl, steps_after_listed (by decide) (by decide)⟩
  rw [result_listed]
  omega

end Desk

end Blockwork
