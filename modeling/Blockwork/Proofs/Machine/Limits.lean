import Blockwork.Proofs.Machine.Observing

/-!
# Wider limits

A run is cut off in two ways: a chain is refused because it nests too deep, or the budget of a loop
is used up. With a higher limit and a larger budget it goes further, and until then it does the
same.

`Run.Outlasts` compares a computation under narrow limits with one under wide ones. Either both end
the same, in the same state, or the narrow one was cut off, and then what happened up to there also
happened under the wide limits, before whatever came later. The relation goes on from part to part
because nothing that a standard action does makes up for a cut: it hands on the fault of a slot, so
the whole run is cut off where its innermost part was.

The budget is taken along with the limit, so that it is no part of what a run does: one that ends
within some budget and does not meet its limit ends the same within every larger budget. The
statement is `Machine.wider_limits_extend_runs`.
-/

namespace Blockwork

variable {σ : Type}

/-! ### Cut off -/

/-- The limit on nesting was met. -/
def Fault.isTooDeep (f : Fault) : Bool :=
  match f.cause with
  | .tooDeep _ _ => true
  | _ => false

/-- The computation was cut off: it met the limit, or used up the budget of a loop. -/
def Outcome.isCut {β : Type} : Outcome β → Bool
  | .value _ => false
  | .fault f => f.isTooDeep
  | .unfinished => true

/-- What happened up to the first state happened up to the second: its events come first there, and
its observer was told no less. -/
structure State.Precedes (observer : Observer σ) (s s' : State Action σ) : Prop where
  events : s.events.toList <+: s'.events.toList
  told : ∃ told, s'.memory = observer.memoryAfter s.memory told

namespace State.Precedes

variable {observer : Observer σ} {s s' s'' : State Action σ}

theorem of_eq (hevents : s'.events = s.events) (hmemory : s'.memory = s.memory) :
    s.Precedes observer s' :=
  ⟨hevents ▸ List.prefix_rfl, [], hmemory⟩

theorem refl (s : State Action σ) : s.Precedes observer s := .of_eq rfl rfl

theorem trans (h : s.Precedes observer s') (h' : s'.Precedes observer s'') :
    s.Precedes observer s'' := by
  obtain ⟨told, htold⟩ := h.told
  obtain ⟨told', htold'⟩ := h'.told
  refine ⟨h.events.trans h'.events, told ++ told', ?_⟩
  rw [htold', htold, observer.memoryAfter_append]

end State.Precedes

/-- **How an end under narrow limits relates to one under wide limits.** -/
inductive Outlasted {β : Type} (observer : Observer σ) :
    Outcome β × State Action σ → Outcome β × State Action σ → Prop where
  | same (p : Outcome β × State Action σ) : Outlasted observer p p
  | cut {p q : Outcome β × State Action σ} : p.1.isCut = true → p.2.Precedes observer q.2 →
      Outlasted observer p q

/-- However the ends relate, what happened under narrow limits comes first under wide ones. -/
theorem Outlasted.precedes {β : Type} {observer : Observer σ}
    {p q : Outcome β × State Action σ} (h : Outlasted observer p q) :
    p.2.Precedes observer q.2 := by
  cases h with
  | same => exact .refl _
  | cut _ hprecedes => exact hprecedes

theorem Outlasted.eq_of_isCut {β : Type} {observer : Observer σ}
    {p q : Outcome β × State Action σ} (h : Outlasted observer p q) (hp : p.1.isCut = false) :
    q = p := by
  cases h with
  | same => rfl
  | cut hcut _ => exact absurd (hcut.symm.trans hp) (by simp)

/-- The second setup allows more than the first, and has the same observer. -/
structure Setup.Within (A B : Setup σ) : Prop where
  observer : A.observer = B.observer
  limit : A.limit ≤ B.limit
  budget : A.budget ≤ B.budget

/-! ### Computations under both limits -/

namespace Run

variable {A B : Setup σ} {modules : List (String × Table Action)} {β γ : Type}

/-- **The second computation goes further than the first**: under the wide limits it ends as the
first does under the narrow ones, unless that is cut off. Whatever it does comes later than what had
happened before. -/
def Outlasts (A B : Setup σ) (modules : List (String × Table Action)) (x y : Job σ β) : Prop :=
  ∀ s : State Action σ, s.registry.Holds modules →
    Outlasted B.observer (x A s) (y B s) ∧ s.Precedes B.observer (y B s).2 ∧
      (y B s).2.registry.Holds modules

/-- What ends at once does the same under both limits. -/
theorem EndsAtOnce.outlasts {x : Job σ β} (hx : EndsAtOnce x) : Outlasts A B modules x x := by
  intro s hs
  obtain ⟨o, s', hends, -, hregistry, hmemory, hevents⟩ := hx s
  rw [hends A, hends B]
  exact ⟨.same _, ⟨hevents, [], hmemory⟩, hregistry.symm ▸ hs⟩

/-- What is left to do after an end. -/
def resume (f : β → Job σ γ) (setup : Setup σ) :
    Outcome β × State Action σ → Outcome γ × State Action σ
  | (.value b, s) => f b setup s
  | (.fault e, s) => (.fault e, s)
  | (.unfinished, s) => (.unfinished, s)

theorem bind_eq_resume (x : Job σ β) (f : β → Job σ γ) (setup : Setup σ) (s : State Action σ) :
    (x >>= f) setup s = resume f setup (x setup s) := by
  rw [bind_apply]
  rcases x setup s with ⟨b | e | _, s'⟩ <;> rfl

/-- Resuming only adds to what has happened. -/
theorem later_resume {f g : β → Job σ γ} (hfg : ∀ b, Outlasts A B modules (f b) (g b))
    {p : Outcome β × State Action σ} (hp : p.2.registry.Holds modules) :
    p.2.Precedes B.observer (resume g B p).2 ∧ (resume g B p).2.registry.Holds modules := by
  obtain ⟨o, s⟩ := p
  cases o with
  | value b => exact (hfg b s hp).2
  | fault e => exact ⟨.refl s, hp⟩
  | unfinished => exact ⟨.refl s, hp⟩

theorem Outlasts.andThen {x y : Job σ β} {f g : β → Job σ γ} (hxy : Outlasts A B modules x y)
    (hfg : ∀ b, Outlasts A B modules (f b) (g b)) : Outlasts A B modules (x >>= f) (y >>= g) := by
  intro s hs
  obtain ⟨hout, hlater, hs'⟩ := hxy s hs
  obtain ⟨hadded, hlast⟩ := later_resume hfg hs'
  rw [bind_eq_resume, bind_eq_resume]
  refine ⟨?_, hlater.trans hadded, hlast⟩
  generalize x A s = p at hout
  generalize y B s = q at hout hs' hadded hlast
  cases hout with
  | same =>
    obtain ⟨o, s'⟩ := p
    cases o with
    | value b => exact (hfg b s' hs').1
    | fault e => exact .same _
    | unfinished => exact .same _
  | cut hcut hprecedes =>
    -- nothing follows on the narrow side, and what follows on the wide side is later
    obtain ⟨o, s'⟩ := p
    cases o with
    | value b => exact absurd hcut (by simp [Outcome.isCut])
    | fault e => exact .cut hcut (hprecedes.trans hadded)
    | unfinished => exact .cut hcut (hprecedes.trans hadded)

theorem Outlasts.mapFault {x y : Job σ β} (hxy : Outlasts A B modules x y) {g : Fault → Fault}
    (hg : ∀ f, (g f).cause = f.cause) : Outlasts A B modules (x.mapFault g) (y.mapFault g) := by
  intro s hs
  obtain ⟨hout, hlater, hs'⟩ := hxy s hs
  rw [mapFault_snd]
  refine ⟨?_, hlater, hs'⟩
  unfold Run.mapFault
  rcases hx : x A s with ⟨o, t⟩
  rcases hy : y B s with ⟨o', t'⟩
  rw [hx, hy] at hout
  cases hout with
  | same => exact .same _
  | cut hcut hprecedes =>
    cases o with
    | value b => exact absurd hcut (by simp [Outcome.isCut])
    | fault e =>
      -- the limit is still the cause of the changed fault
      have hcut' : (g e).isTooDeep = true := by
        unfold Fault.isTooDeep
        rw [hg e]
        exact hcut
      cases o' <;> exact .cut hcut' hprecedes
    | unfinished => cases o' <;> exact .cut hcut hprecedes

/-- A loop with a smaller budget is cut off earlier, if at all. -/
theorem outlasts_loop {step : Job σ Bool} (hstep : Outlasts A B modules step step) {m n : Nat}
    (hmn : m ≤ n) : Outlasts A B modules (loop step m) (loop step n) := by
  -- by the larger budget, since the smaller one may run out at any iteration
  induction n generalizing m with
  | zero =>
    obtain rfl : m = 0 := Nat.le_zero.1 hmn
    exact fun s hs => ⟨.same _, .refl s, hs⟩
  | succ n ih =>
    have hnext : ∀ {m : Nat}, m ≤ n → Outlasts A B modules (loop step (m + 1))
        (loop step (n + 1)) := fun hmn => hstep.andThen fun b => by
      cases b with
      | true => exact ih hmn
      | false => exact (endsAtOnce_done ()).outlasts
    cases m with
    | zero =>
      -- the narrow loop is cut off before anything happens
      intro s hs
      obtain ⟨-, hlater, hs'⟩ := hnext (Nat.le_refl n) s hs
      exact ⟨.cut rfl hlater, hlater, hs'⟩
    | succ m => exact hnext (Nat.le_of_succ_le_succ hmn)

/-- **The parts of standard actions go as far under wide limits as under narrow ones.** -/
theorem plain_outlasts (hAB : A.Within B) : Plain (fun _ => True) True True
    fun _ (β : Type) (x : Job σ β) => Outlasts A B modules x x :=
  plain_of_endsAtOnce (fun hx => hx.outlasts) (fun hx hf => hx.andThen hf) (fun _ hx => hx)
    fun _ {_ _ _} hstep s hs => outlasts_loop hstep hAB.budget s hs

end Run

/-! ### Blocks and chains -/

theorem Fault.cause_wrap (module function id : String) (f : Fault) :
    (f.wrap module function id).cause = f.cause := by
  unfold Fault.wrap
  split <;> rfl

namespace Machine

variable {A B : Setup σ} {modules : List (String × Table Action)}

theorem outlasts_completed (hAB : A.Within B) (scope : Scope Action σ) (v : Value) :
    Run.Outlasts A B modules (completed scope v) (completed scope v) := by
  intro s hs
  have hsame : completed scope v A s = completed scope v B s := by
    unfold completed
    rw [hAB.observer]
  exact ⟨hsame ▸ .same _, ⟨List.prefix_rfl, [_], rfl⟩, hs⟩

/-- A chain that is refused under the narrow limit may be entered under the wide one, and then what
happens inside is later. One that is entered under the narrow limit is entered under both. -/
theorem outlasts_nested (hAB : A.Within B) (id : String) {x : Job σ Value}
    (hx : Run.Outlasts A B modules x x) : Run.Outlasts A B modules (nested id x) (nested id x) := by
  intro s hs
  obtain ⟨hout, hlater, hs'⟩ := hx { s with depth := s.depth + 1 } hs
  -- the depth is no part of what happened
  have hlast : s.Precedes B.observer (nested id x B s).2 ∧
      (nested id x B s).2.registry.Holds modules := by
    unfold nested
    split
    · exact ⟨.refl s, hs⟩
    · exact ⟨⟨hlater.events, hlater.told⟩, hs'⟩
  refine ⟨?_, hlast⟩
  by_cases hrefused : A.limit ≤ s.depth
  · have hnarrow : nested id x A s = (.fault (.tooDeep A.limit id), s) := if_pos hrefused
    rw [hnarrow]
    exact .cut rfl hlast.1
  · have hentered : ¬ B.limit ≤ s.depth := fun h => hrefused (hAB.limit.trans h)
    unfold nested
    rw [if_neg hrefused, if_neg hentered]
    generalize x A { s with depth := s.depth + 1 } = p at hout
    generalize x B { s with depth := s.depth + 1 } = q at hout
    cases hout with
    | same => exact .same _
    | cut hcut hprecedes => exact .cut hcut ⟨hprecedes.events, hprecedes.told⟩

/-- **A chain goes as far under wide limits as under narrow ones.** -/
theorem outlasts_execute (hAB : A.Within B) {r : Registry Action} (hr : r.Holds modules)
    (hstandard : r.all (fun a => !a.isProbe) = true) (c : Chain) :
    Run.Outlasts A B modules (execute c) (execute c) := by
  have hplain : Run.Plain _ _ _ fun _ (β : Type) (x : Job σ β) => Run.Outlasts A B modules x x :=
    Run.plain_outlasts hAB
  refine execute_induction (Φ := fun _ x => Run.Outlasts A B modules x x) (G := fun _ => True)
    hplain.done (fun hx hf => hx.andThen hf) (fun id _ hx => outlasts_nested hAB id hx) ?_ c
    fun _ _ => trivial
  intro b _ hslots s hs
  have hs' : (afterRouting s b.opcode).registry.Holds modules := hs.resolve b.opcode
  rw [executeBlock_apply, executeBlock_apply]
  cases hroute : (s.registry.resolve b.opcode).1 with
  | error e => exact ⟨.same _, .of_eq rfl rfl, hs'⟩
  | ok route =>
    -- the function is one of the modules, and these are standard
    have hprobe : route.handler.isProbe = false := by
      rw [hs.resolve_fst_eq hr] at hroute
      simpa using hr.1.handler_of_all hstandard hroute
    have hperform := Action.perform_plain hplain (s := scopeOf b route) hslots
      (fun _ _ => trivial) hprobe (fun _ => trivial) fun _ => trivial
    -- wrapping a fault keeps its cause, and a block that is completed is told of under both limits
    have hhandled : Run.Outlasts A B modules (handled b route) (handled b route) :=
      (hperform.mapFault (Fault.cause_wrap _ _ _)).andThen fun v =>
        (outlasts_completed hAB _ v).andThen fun _ => hplain.done v
    obtain ⟨hout, hlater, hholds⟩ := hhandled _ hs'
    exact ⟨hout, ⟨hlater.events, hlater.told⟩, hholds⟩

/-! ### Runs -/

/-- The machine with another limit and another budget. -/
def within (m : Machine σ) (limit budget : Nat) : Machine σ where
  document := m.document
  setup := ⟨m.setup.observer, limit, budget⟩
  state := m.state

variable {m : Machine σ} {limit budget : Nat}

/-- **A run goes as far under wide limits as under narrow ones.** -/
theorem outlasted_run (hm : m.state.registry.Coherent)
    (hstandard : m.state.registry.all (fun a => !a.isProbe) = true) (hlimit : m.setup.limit ≤ limit)
    (hbudget : m.setup.budget ≤ budget) :
    Outlasted m.setup.observer (m.run.1, m.run.2.state)
      ((m.within limit budget).run.1, (m.within limit budget).run.2.state) := by
  have hholds : m.state.registry.Holds m.state.registry.modules := ⟨hm, rfl⟩
  have houtlasts := outlasts_execute (A := m.setup) (B := (m.within limit budget).setup)
    ⟨rfl, hlimit, hbudget⟩ hholds hstandard m.document.entry
  exact (houtlasts m.started hholds).1

/-- **Wider limits extend runs.** Let a machine with standard functions run its document, after any
history, and let the same machine run it with a limit and a budget that are no lower.

* If the first run ends and does not meet its limit, then the second one ends the same, with the
  same value or the same fault, and in the same state: the same variables and lists, the same
  events. Its observer is told the same.
* However the first run ends, what its observer was told and the events up to there come first in
  the second one, whether that ends or not. -/
theorem wider_limits_extend_runs {document : Document} (hm : m.Reached document)
    (hstandard : m.state.registry.all (fun a => !a.isProbe) = true) (hlimit : m.setup.limit ≤ limit)
    (hbudget : m.setup.budget ≤ budget) :
    (m.run.1.isCut = false →
      (m.within limit budget).run.1 = m.run.1 ∧
      (m.within limit budget).run.2.state = m.run.2.state ∧
      (m.within limit budget).observed = m.observed) ∧
    m.observed <+: (m.within limit budget).observed ∧
    m.run.2.state.events.toList <+: (m.within limit budget).run.2.state.events.toList := by
  have hrun := outlasted_run hm.coherent hstandard hlimit hbudget
  have hwatched : Outlasted m.watched.setup.observer
      (m.watched.run.1, m.watched.run.2.state) ((m.within limit budget).watched.run.1,
        (m.within limit budget).watched.run.2.state) :=
    outlasted_run (m := m.watched) hm.coherent hstandard hlimit hbudget
  refine ⟨fun hwhole => ?_, ?_, hrun.precedes.events⟩
  · have hsame := Prod.ext_iff.1 (hrun.eq_of_isCut hwhole)
    -- under watch a run ends the same, so it is not cut off either
    have hwatchedWhole : m.watched.run.1.isCut = false := by
      rwa [← m.ends_underWatch.outcome.eq]
    have htold := Prod.ext_iff.1 (hwatched.eq_of_isCut hwatchedWhole)
    exact ⟨hsame.1, hsame.2, congrArg State.memory htold.2⟩
  · obtain ⟨told, htold⟩ := hwatched.precedes.told
    rw [Observer.memoryAfter_of_keeps fun _ _ => rfl] at htold
    exact ⟨told, htold.symm⟩

/-! ### A script at two limits -/

/-- A script that hides its variable, and then assigns it to itself. -/
def hidingThenCopying : Document :=
  ⟨[⟨"n", "", "", true, false⟩],
    [.mk "data_hidevariable" "a" [.field ⟨"VARIABLE", "", "n", ""⟩],
      .mk "data_setvariableto" "b" [.field ⟨"VARIABLE", "", "n", ""⟩,
        .expression "VALUE" [.mk "data_variable" "c" [.field ⟨"VARIABLE", "", "n", ""⟩]]]], []⟩

/-- A machine for it. -/
def hidingMachine (limit : Nat) : Machine Unit :=
  create hidingThenCopying ⟨.silent, limit, 0⟩ [("data", Blocks.dataTable)] ()

theorem started_hiding (limit : Nat) : (hidingMachine limit).started
    = { (hidingMachine limit).started with
        registry := ⟨[("data", Blocks.dataTable)], ["data"], []⟩ } := started_create_singleton ..

/-- The second block needs a limit of two. -/
theorem cut_hiding : (hidingMachine 2).run.1.isCut = false ∧ (hidingMachine 1).run.1.isCut = true ∧
    (hidingMachine 1).observed.map (·.id) = ["a"] := by
  refine ⟨?_, ?_, ?_⟩
  · change (execute hidingThenCopying.entry (hidingMachine 2).setup
      (hidingMachine 2).started).1.isCut = false
    rw [started_hiding]
    decide +kernel
  · change (execute hidingThenCopying.entry (hidingMachine 1).setup
      (hidingMachine 1).started).1.isCut = true
    rw [started_hiding]
    decide +kernel
  · rw [observed_eq]
    unfold trail recorded
    rw [started_hiding]
    decide +kernel

/-- With a limit of two the run ends as with a limit of five. With a limit of one it is cut off, and
the block that was observed up to there is observed first with a limit of two. -/
theorem wider_limits_extend_runs_hiding :
    ((hidingMachine 2).within 5 7).run.1 = (hidingMachine 2).run.1 ∧
    ((hidingMachine 2).within 5 7).observed = (hidingMachine 2).observed ∧
    (hidingMachine 1).run.1.isCut = true ∧ (hidingMachine 1).observed.map (·.id) = ["a"] ∧
    (hidingMachine 1).observed <+: ((hidingMachine 1).within 2 7).observed := by
  have hreached : ∀ limit, (hidingMachine limit).Reached hidingThenCopying :=
    fun limit => ⟨_, _, _, [], rfl⟩
  have hstandard : ∀ limit,
      (hidingMachine limit).state.registry.all (fun a => !a.isProbe) = true := by
    intro limit
    have hregistry : (hidingMachine limit).state.registry
        = ⟨[("data", Blocks.dataTable)], ["data"], []⟩ := registry_create_singleton ..
    rw [hregistry]
    decide
  obtain ⟨hwhole, hcut, htold⟩ := cut_hiding
  -- a limit of two is enough for the script, one of one is not
  have htwo := wider_limits_extend_runs (hreached 2) (hstandard 2) (by decide : 2 ≤ 5)
    (Nat.zero_le 7)
  have hone := wider_limits_extend_runs (hreached 1) (hstandard 1) (by decide : 1 ≤ 2)
    (Nat.zero_le 7)
  exact ⟨(htwo.1 hwhole).1, (htwo.1 hwhole).2.2, hcut, htold, hone.2.1⟩

end Machine

end Blockwork
