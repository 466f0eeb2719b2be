import Blockwork.Proofs.Machine.History

/-!
# The check before a run

Checking a document routes each of its opcodes once and runs nothing. The check is exact in both
directions:

* its report lists the routing errors of the opcodes that have no route, at the first position
  where each is met and in document order (`IsReport`);
* every routing error with which a run, an execution or an evaluation of a part of the document can
  end is one of them, as long as the modules stay as they are. In particular a check without errors
  rules routing errors out for good.

The second half needs no look at single actions. What is executed inside a block is one of its
slots, so the opcodes that are ever dispatched are opcodes of the document, and the routing errors
are those of these opcodes (`Machine.routes_execute`).

Nothing is assumed of the modules: they may be any tables of actions under any names, the standard
ones and the console among them, and the machine may have any history.
-/

namespace Blockwork

/-- What a value slot holds, if the member is one. -/
def Member.content? : Member → Option Content
  | .expression _ chain => some (.block chain)
  | .literal _ shadow => some (.shadow shadow)
  | .statement _ _ => none
  | .field _ => none

namespace Machine

variable {σ : Type}

/-! ### Statements -/

/-- The errors are those of the opcodes without a route, each at the position where its opcode is
met first, in document order. -/
def IsReport (r : Registry Action) (entry : Chain) (errors : List RoutingError) : Prop :=
  ∃ report : List (Chain.Position × RoutingError),
    (report.map (·.1)).Pairwise (· < ·) ∧
    (∀ p e, (p, e) ∈ report ↔
      ∃ opcode, Chain.FirstVisit entry p opcode ∧ (r.resolve opcode).1 = .error e) ∧
    report.map (·.2) = errors

/-- The jobs that run a part of a document: all of it, a chain that begins at one of its blocks, or
a value slot of one of its blocks. -/
inductive OfDocument (document : Document) : Job σ Value → Prop where
  | run : OfDocument document (program document)
  | execute {p : Chain.Position} {c : Chain} :
      Chain.chainAt? document.entry p = some c → OfDocument document (execute c)
  | evaluate {p : Chain.Position} {b : Block} {slot : Member} {content : Content} :
      Chain.blockAt? document.entry p = some b → slot ∈ b.members →
      slot.content? = some content → OfDocument document (evaluate content)

/-! ### The report -/

theorem isReport_filterMap (r : Registry Action) (entry : Chain) :
    IsReport r entry ((Chain.opcodes entry).filterMap r.failure?) := by
  -- the first visits of all opcodes are known; the report is what is left of them
  obtain ⟨visits, hordered, hmem, hopcodes⟩ := Chain.exists_firstVisits entry
  refine ⟨visits.filterMap fun v => (r.failure? v.2).map (v.1, ·), ?_, fun p e => ?_, ?_⟩
  · -- leaving out the opcodes that have a route keeps the order of the others
    refine hordered.sublist ?_
    clear hmem hopcodes hordered
    induction visits with
    | nil => exact List.Sublist.refl _
    | cons v visits ih =>
      rw [List.filterMap_cons]
      cases hfail : r.failure? v.2 with
      | none => exact ih.cons v.1
      | some e => exact ih.cons_cons v.1
  · rw [List.mem_filterMap]
    constructor
    · rintro ⟨⟨q, opcode⟩, hv, hfail⟩
      obtain ⟨e', he', heq⟩ := Option.map_eq_some_iff.1 hfail
      obtain ⟨rfl, rfl⟩ := Prod.mk.inj heq
      exact ⟨opcode, (hmem q opcode).1 hv, Registry.failure?_eq_some_iff.1 he'⟩
    · rintro ⟨opcode, hvisit, he⟩
      refine ⟨(p, opcode), (hmem p opcode).2 hvisit, ?_⟩
      rw [Registry.failure?_eq_some_iff.2 he]
      rfl
  · rw [← hopcodes, List.map_filterMap, List.filterMap_map]
    refine List.filterMap_congr fun v _ => ?_
    rw [Option.map_map]
    exact Option.map_id'

theorem check_eq {m : Machine σ} (hm : m.state.registry.Coherent) :
    m.check.1 = .value ((Chain.opcodes m.document.entry).filterMap m.state.registry.failure?) := by
  obtain ⟨s', hcheck, -⟩ :=
    checkOpcodes_holds (Chain.opcodes m.document.entry) m.setup m.state ⟨hm, rfl⟩
  rw [check, perform, hcheck]

/-! ### Routing errors of parts of a document -/

/-- The opcode of a block of the document that has no route is in the report. -/
theorem mem_report_of_resolve {r s : Registry Action} (hr : r.Coherent)
    (hs : s.Holds r.modules) {entry : Chain} {b : Block} (hb : b ∈ Chain.blocks entry)
    {e : RoutingError} (he : (s.resolve b.opcode).1 = .error e) :
    e ∈ (Chain.opcodes entry).filterMap r.failure? := by
  refine List.mem_filterMap.2 ⟨b.opcode, ?_, ?_⟩
  · rw [Chain.opcodes, Chain.mem_distinct]
    exact List.mem_map_of_mem hb
  · -- the two registries may keep different routes, but give the same answers
    rw [Registry.failure?_eq_some_iff, ← he]
    exact Registry.Holds.resolve_fst_eq ⟨hr, rfl⟩ hs b.opcode

/-- **The parts of a document** end with no routing errors but those in the report. -/
theorem routes_of_ofDocument {r : Registry Action} (hr : r.Coherent) {document : Document}
    {job : Job σ Value} (hjob : OfDocument document job) :
    Run.Routes r.modules (· ∈ (Chain.opcodes document.entry).filterMap r.failure?) Value job := by
  have hpart : ∀ c : Chain, (∀ b ∈ Chain.blocks c, b ∈ Chain.blocks document.entry) →
      Run.Routes r.modules (· ∈ (Chain.opcodes document.entry).filterMap r.failure?) Value
        (execute (σ := σ) c) :=
    fun c hc => routes_execute fun b hb s hs e he => mem_report_of_resolve hr hs (hc b hb) he
  cases hjob with
  | run => exact routes_program (hpart _ fun _ hb => hb)
  | execute hc => exact hpart _ (Chain.blocks_subset_of_chainAt? hc)
  | @evaluate p b slot content hb hslot hcontent =>
    refine routes_evaluate fun c hc => hpart c ?_
    -- a value slot that holds a chain is an expression
    obtain rfl : slot.chain = c := by
      subst hc
      cases slot with
      | expression name chain => exact Content.block.inj (Option.some.inj hcontent)
      | literal name shadow => exact absurd hcontent (by simp [Member.content?])
      | statement name chain => exact absurd hcontent (by simp [Member.content?])
      | field f => exact absurd hcontent (by simp [Member.content?])
    exact Chain.blocks_subset_of_mem_members (Chain.mem_blocks_of_blockAt? hb) hslot

/-! ### The check is exact -/

/-- **The check is sound and complete.** On a machine with any modules and any history, the check
gives a report. If it has no errors, then after any later requests that keep the modules no run of
the document, no execution of a chain of it and no evaluation of a value slot of it ends with a
routing error. If a run does end with one, the report has it. -/
theorem check_sound_and_complete {document : Document} {m : Machine σ}
    (hm : m.Reached document) :
    ∃ errors, m.check.1 = .value errors ∧ IsReport m.state.registry document.entry errors ∧
      (errors = [] → ∀ later : List Request, (∀ r ∈ later, r.KeepsModules) →
        ∀ job : Job σ Value, OfDocument document job →
          ((m.check.2.after later).perform job).1.routingError? = none) ∧
      (∀ later : List Request, (∀ r ∈ later, r.KeepsModules) →
        ∀ e, (m.after later).run.1.routingError? = some e → e ∈ errors) := by
  have hcoherent := hm.coherent
  obtain rfl := hm.document_eq
  have hholds : m.state.registry.Holds m.state.registry.modules := ⟨hcoherent, rfl⟩
  refine ⟨_, check_eq hcoherent, isReport_filterMap _ _, fun hnone later hlater job hjob => ?_,
    fun later hlater e he => ?_⟩
  · -- the check itself is the first of the requests that keep the modules
    have hlast := after_holds (serve_holds (r := .check) hholds trivial) hlater
    cases herror : ((m.check.2.after later).perform job).1.routingError? with
    | none => rfl
    | some e =>
      have hmem := (routes_of_ofDocument hcoherent hjob _ _ hlast).2 e herror
      rw [hnone] at hmem
      exact absurd hmem List.not_mem_nil
  · have hlast := after_holds hholds hlater
    have hrun : OfDocument (σ := σ) m.document (program (m.after later).document) := by
      rw [after_document]
      exact .run
    exact (routes_of_ofDocument hcoherent hrun _ _ hlast).2 e he

/-- A script that begins with a function the event module lacks, around a block of an unknown
module that is never run. -/
def strayDocument : Document :=
  ⟨[], [.mk "event_missing" "a" [.statement "SUBSTACK" [.mk "robot_move" "b" []]]], []⟩

/-- A machine for it that has only the event module. -/
def strayMachine : Machine Unit :=
  create strayDocument ⟨.silent, 10, 10⟩ [("event", Blocks.eventTable)] ()

/-- The run of the stray document ends with the first of its two errors, and the check has it. -/
theorem check_reports_missing_function :
    strayMachine.Reached strayDocument ∧
    strayMachine.run.1.routingError?
      = some (.unknownOpcode "event_missing" "event" "missing") ∧
    ∃ errors, strayMachine.check.1 = .value errors ∧
      .unknownOpcode "event_missing" "event" "missing" ∈ errors := by
  have hreached : strayMachine.Reached strayDocument := ⟨_, _, _, [], rfl⟩
  -- sorting is not unfolded by evaluation, so the registry is computed first
  have hregistry : strayMachine.state.registry
      = ⟨[("event", Blocks.eventTable)], ["event"], []⟩ := by
    simp [strayMachine, create, Registry.register, Registry.ofModules, Registry.empty]
  have hmissing : (strayMachine.state.registry.resolve "event_missing").1
      = .error (.unknownOpcode "event_missing" "event" "missing") := by
    simp [hregistry, Registry.resolve, Registry.route, Registry.functionOf?, Registry.dropLead?,
      Registry.module?, Table.find?, Blocks.eventTable]
  have hrun : strayMachine.run.1.routingError?
      = some (.unknownOpcode "event_missing" "event" "missing") := by
    rw [run, perform, program, Run.bind_apply]
    simp only [Run.modify]
    rw [show strayMachine.document = strayDocument from rfl, strayDocument, execute, nested,
      if_neg (by decide), Run.bind_apply, executeBlock]
    simp only [dispatch, Run.bind_apply, routed, hmissing]
    rfl
  obtain ⟨errors, hcheck, -, -, hcomplete⟩ := check_sound_and_complete hreached
  exact ⟨hreached, hrun, errors, hcheck, hcomplete [] (by simp) _ hrun⟩

end Machine

end Blockwork
