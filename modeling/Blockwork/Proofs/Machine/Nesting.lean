import Blockwork.Proofs.Machine.Course

/-!
# Depth is static nesting

The depth of a machine is one counter that chains raise and lower as they are entered and left. For
runs with standard functions it is no more than a shadow of the document: the handler of a block is
invoked, and its completion observed, at a depth that is the level of the block's position, however
often loops come back to it and however the run ends (`Machine.depth_is_level`).

The limit is met in one way only. A handler asks for a chain in one of its slots, and the blocks of
that chain are one level below the limit. Then the run ends with that fault at its heart; and since
levels are static, a document that nests no deeper than the limit never meets it.
-/

namespace Blockwork

open Chain (Position level parent blockAt?)

variable {σ : Type} {m : Machine σ}

/-! ### Faults of the limit -/

theorem Fault.cause_of_isOwn {f : Fault} (h : f.isOwn = true) (n : Nat) (id : String) :
    f.cause ≠ .tooDeep n id := by
  induction f with
  | through place cause ih => exact ih h
  | tooDeep n' id' => exact absurd h (by simp [Fault.isOwn])
  | execution module function id' cause _ => exact absurd h (by simp [Fault.isOwn])
  | _ => exact fun heq => Fault.noConfusion heq

/-- A fault of the limit arises where a chain is refused. -/
theorem Arises.exists_stopped {p : Position} {f : Fault} {origin : List Mark}
    (h : Arises m p f origin) {n : Nat} {id : String} (hf : f.cause = .tooDeep n id) :
    ∃ q, parent q = p ∧ level q = m.setup.limit + 1 ∧ origin = [.stopped q (.tooDeep n id)] := by
  cases h with
  | own hown => exact absurd hf (Fault.cause_of_isOwn hown n id)
  | @stopped q hparent haccurate =>
    obtain ⟨b, -, ⟨e, rfl, -⟩ | ⟨rfl, hlevel⟩⟩ := haccurate
    · exact absurd hf (by simp [Fault.cause])
    · refine ⟨q, hparent, hlevel, ?_⟩
      rw [← hf]
      rfl

/-- What stopped a block is at the heart of the fault. -/
theorem Breakdown.cause_eq {p : Position} {f : Fault} {marks : List Mark}
    (h : Breakdown m (Halts m p) f marks) {q : Position} {g : Fault}
    (hmem : Mark.stopped q g ∈ marks) : f.cause = g.cause := by
  cases h with
  | bare hsmooth hhalts =>
    obtain ⟨q', -, -, rfl⟩ := hhalts
    rcases List.mem_append.1 hmem with hcalm | horigin
    · exact absurd (hsmooth.calm _ hcalm) (by simp [Mark.isFault])
    · obtain ⟨-, rfl⟩ := Mark.stopped.inj (List.mem_singleton.1 horigin)
      rfl
  | blamed hsmooth harises _ hf =>
    rcases List.mem_append.1 hmem with hcalm | hfails
    · exact absurd (hsmooth.calm _ hcalm) (by simp [Mark.isFault])
    rcases List.mem_append.1 hfails with horigin | hfails
    · cases harises with
      | own _ => exact absurd horigin List.not_mem_nil
      | stopped _ _ =>
        obtain ⟨-, rfl⟩ := Mark.stopped.inj (List.mem_singleton.1 horigin)
        rw [hf]
        rfl
    · -- all that follows are handlers that return the fault
      simp at hfails

namespace Machine

/-- **A handler asks for the chain that begins at a position**: the block in whose slot it is has
the innermost handler that has not returned, and the chain is entered or refused. -/
def Asks (m : Machine σ) (q : Position) : Prop :=
  ∃ before mark after outer, m.trail = before ++ mark :: after ∧
    pending before = parent q :: outer ∧
    (mark = .entered q ∨ ∃ n id, mark = .stopped q (.tooDeep n id))

namespace Accounted

theorem asks_of_tooDeep (h : m.Accounted) (hlimit : 0 < m.setup.limit) {f : Fault} {n : Nat}
    {id : String} (hrun : m.run.1 = .fault f) (hf : f.cause = .tooDeep n id) :
    ∃ q, m.Asks q ∧ level q = m.setup.limit + 1 := by
  have hcourse := h.course
  rw [hrun] at hcourse
  generalize htrail : m.trail = trail at hcourse
  cases hcourse with
  | bare hsmooth hhalts =>
    -- the document's own chain is entered at depth zero
    obtain ⟨i, b, e, -, -, rfl, -⟩ := halts_entry hhalts hlimit
    exact absurd hf (by simp [Fault.cause])
  | @blamed calm origin p outer b route cause hsmooth harises _ hexecution =>
    rw [hexecution] at hf
    have hcause : cause.cause = .tooDeep n id := hf
    obtain ⟨q, rfl, hlevel, rfl⟩ := harises.exists_stopped hcause
    refine ⟨q, ⟨calm, _, _, outer, htrail, ?_, .inr ⟨n, id, rfl⟩⟩, hlevel⟩
    exact (hsmooth.pending []).trans (List.append_nil _)

theorem tooDeep_of_asks (h : m.Accounted) {q : Position} (hasks : m.Asks q)
    (hlevel : level q = m.setup.limit + 1) :
    ∃ f n id, m.run.1 = .fault f ∧ f.cause = .tooDeep n id := by
  obtain ⟨before, mark, after, outer, htrail, -, hmark⟩ := hasks
  have hmem : mark ∈ m.trail := by
    rw [htrail]
    exact List.mem_append_right _ List.mem_cons_self
  have haccurate := h.accurate mark hmem
  have hcourse := h.course
  rcases hmark with rfl | ⟨n, id, rfl⟩
  · -- a chain that is entered is within the limit
    have hwithin := haccurate.1
    omega
  · -- a chain that is refused leaves no other way to end
    cases hrun : m.run.1 with
    | value v =>
      rw [hrun] at hcourse
      exact absurd (Smooth.calm hcourse _ hmem) (by simp [Mark.isFault])
    | unfinished =>
      rw [hrun] at hcourse
      exact absurd (hcourse _ hmem) (by simp [Mark.isFault])
    | fault f =>
      rw [hrun] at hcourse
      exact ⟨f, n, id, rfl, Breakdown.cause_eq hcourse hmem⟩

end Accounted

/-- **Depth is static nesting.** In every run with standard functions, however it ends, handlers
and the observer see each block at the depth that is its level, within the limit; executing a chain
leaves the depth as it was, with a value or a fault; and the run fails at the limit exactly when a
handler asks for a chain whose blocks are one level below it, which takes a document that nests
deeper than the limit. The trail that these statements read is that of the run. -/
theorem depth_is_level {document : Document} (hm : m.Reached document)
    (hstandard : m.state.registry.all (fun a => !a.isProbe) = true) (requested : Int)
    (hlimit : m.setup.limit = limitOf requested) :
    (m.recorded.1 = m.run.1 ∧ m.recorded.2.untraced = m.run.2.state ∧
      m.run.2.state.memory
        = m.setup.observer.memoryAfter m.state.memory (observations m.trail)) ∧
    (∀ p depth, .invoked p depth ∈ m.trail →
      depth = level p ∧ depth ≤ m.setup.limit ∧ ∃ b, blockAt? document.entry p = some b) ∧
    (∀ p o, .completed p o ∈ m.trail →
      o.depth = level p ∧ o.depth ≤ m.setup.limit ∧
        ∃ b, blockAt? document.entry p = some b ∧ o.id = b.id ∧ o.opcode = b.opcode) ∧
    (∀ c s, (execute c m.setup s).2.depth = s.depth) ∧
    ((∃ f n id, m.run.1 = .fault f ∧ f.cause = .tooDeep n id) ↔
      ∃ q, m.Asks q ∧ level q = m.setup.limit + 1) ∧
    ((∀ p ∈ Chain.positions document.entry, level p ≤ m.setup.limit) →
      ∀ f n id, m.run.1 = .fault f → f.cause ≠ .tooDeep n id) := by
  have haccount := hm.accounted hstandard
  have hpositive : 0 < m.setup.limit := hlimit ▸ limitOf_pos requested
  rw [← hm.document_eq]
  refine ⟨m.recorded_eq, fun p depth hmem => ?_, fun p o hmem => ?_,
    fun c s => (tidy_execute c m.setup s).depth, ⟨?_, ?_⟩, fun hlevels f n id hrun hf => ?_⟩
  · -- what a mark says of depth and block is in the account of the run
    obtain ⟨hdepth, hwithin, b, route, hfound⟩ := haccount.accurate _ hmem
    exact ⟨hdepth, hwithin, b, hfound.block⟩
  · obtain ⟨hdepth, hwithin, b, route, hfound, hid, hopcode, -⟩ := haccount.accurate _ hmem
    exact ⟨hdepth, hwithin, b, hfound.block, hid, hopcode⟩
  · rintro ⟨f, n, id, hrun, hf⟩
    exact haccount.asks_of_tooDeep hpositive hrun hf
  · rintro ⟨q, hasks, hlevel⟩
    exact haccount.tooDeep_of_asks hasks hlevel
  · -- the chain that is refused is one of the document
    obtain ⟨q, ⟨before, mark, after, outer, htrail, -, hmark⟩, hlevel⟩ :=
      haccount.asks_of_tooDeep hpositive hrun hf
    have hmem : mark ∈ m.trail := by
      rw [htrail]
      exact List.mem_append_right _ List.mem_cons_self
    have haccurate := haccount.accurate mark hmem
    -- it was entered or refused, and its block is there either way
    have hblock : ∃ b, blockAt? m.document.entry q = some b := by
      rcases hmark with rfl | ⟨n, id, rfl⟩
      · exact haccurate.2
      · obtain ⟨b, hb, -⟩ := haccurate
        exact ⟨b, hb⟩
    have hwithin := hlevels q (Chain.mem_positions_iff_blockAt?.2 hblock)
    omega

/-- A negation inside a negation. -/
def twiceNegated : Document :=
  ⟨[], [.mk "operator_not" "a" [.expression "OPERAND" [.mk "operator_not" "b" []]]], []⟩

/-- A machine for it with the standard modules. -/
def negating (requested : Int) : Machine Unit :=
  create twiceNegated ⟨.silent, limitOf requested, 10⟩
    (Blocks.standard ++ [("console", Blocks.consoleTable)]) ()

/-- With a limit of two it runs without meeting the limit, and with a limit of one it meets it
exactly when the outer negation asks for its operand. -/
theorem depth_twiceNegated :
    (∀ f n id, (negating 2).run.1 = .fault f → f.cause ≠ .tooDeep n id) ∧
    ((∃ f n id, (negating 1).run.1 = .fault f ∧ f.cause = .tooDeep n id) ↔
      ∃ q, (negating 1).Asks q ∧ level q = 2) := by
  have hreached : ∀ requested, (negating requested).Reached twiceNegated :=
    fun requested => ⟨_, _, _, [], rfl⟩
  have htwo := depth_is_level (hreached 2) (standard_create ..) 2 rfl
  have hone := depth_is_level (hreached 1) (standard_create ..) 1 rfl
  exact ⟨htwo.2.2.2.2.2 (by decide), hone.2.2.2.2.1⟩

end Machine

end Blockwork
