import Blockwork.Proofs.Machine.Footprint
import Blockwork.Proofs.Number.Rounding

/-!
# Loops and branches, turn by turn

What a control block does is said in turns. A *turn* is one evaluation of a slot: the condition, the
number of iterations, the body, the other body. `Control.Complete` lists the turns of a block that
is completed, for a loop one round after the other, and `Control.Due` says which slot comes next
after some turns. `Machine.control_blocks_run_their_slots` is the statement: a block is completed
exactly when such turns lead from the state it started in to the one it left, and it fails exactly
when, after some turns, the slot that is due fails, with that fault and in that state.

The proof does not look at loops and branches one by one. A computation *follows* a language of
turns (`Follows`) if it ends with a value after the turns that give it, and fails where a turn that
is due fails; a slot, a sequence, a choice, a loop and a count each follow the language that is to
be expected, and the seven actions are made of these.

A run has a budget for open-ended loops. One that would need more rounds has not ended, so the
rounds are within the budget whenever it has.
-/

namespace Blockwork

variable {α σ β γ : Type}

namespace Blocks.Control

/-! ### Turns -/

/-- The slots that control blocks evaluate. -/
inductive Part where
  | condition
  | times
  | body
  | otherBody
deriving DecidableEq

/-- What the evaluation of a slot gives. -/
def Part.Result : Part → Type
  | .condition => Bool
  | .times => Binary64
  | .body => Unit
  | .otherBody => Unit

/-- One evaluation of a slot that did not fail, with what it gave. -/
structure Turn where
  part : Part
  result : part.Result

namespace Turn

/-- The condition was evaluated, and it holds or does not. -/
def condition (holds : Bool) : Turn := ⟨.condition, holds⟩

/-- The number of iterations was evaluated. -/
def times (x : Binary64) : Turn := ⟨.times, x⟩

/-- The body was run. -/
def body : Turn := ⟨.body, ()⟩

/-- The body of the other case was run. -/
def otherBody : Turn := ⟨.otherBody, ()⟩

end Turn

/-- The same turns over and over. -/
def rounds (n : Nat) (round : List Turn) : List Turn := (List.replicate n round).flatten

theorem rounds_succ (n : Nat) (round : List Turn) :
    rounds (n + 1) round = round ++ rounds n round := by
  rw [rounds, List.replicate_succ, List.flatten_cons]
  rfl

/-- What follows some rounds follows none of them, or comes after the first. -/
theorem exists_rounds_succ {count : Nat} {round ts : List Turn} {q : List Turn → Prop} :
    (∃ n < count + 1, ∃ l, q l ∧ ts = rounds n round ++ l) ↔
      q ts ∨ ∃ us, (∃ n < count, ∃ l, q l ∧ us = rounds n round ++ l) ∧ ts = round ++ us := by
  constructor
  · rintro ⟨n, hn, l, hl, rfl⟩
    cases n with
    | zero => exact .inl hl
    | succ n =>
      refine .inr ⟨rounds n round ++ l, ⟨n, Nat.lt_of_succ_lt_succ hn, l, hl, rfl⟩, ?_⟩
      rw [rounds_succ, List.append_assoc]
  · rintro (hts | ⟨us, ⟨n, hn, l, hl, rfl⟩, rfl⟩)
    · exact ⟨0, Nat.succ_pos count, ts, hts, rfl⟩
    · exact ⟨n + 1, Nat.succ_lt_succ hn, l, hl, by rw [rounds_succ, List.append_assoc]⟩

/-- The computations behind the slots of a block. -/
abbrev Parts (α σ : Type) : Type := (p : Part) → Run α σ p.Result

/-- **Turns lead from one state to another**: each starts in the state that the one before it left,
and ends with its result. -/
def Passes (parts : Parts α σ) (setup : Setup σ) : List Turn → State α σ → State α σ → Prop
  | [], s, s' => s = s'
  | t :: ts, s, s' => ∃ m, parts t.part setup s = (.value t.result, m) ∧ Passes parts setup ts m s'

variable {parts : Parts α σ} {setup : Setup σ}

theorem passes_append {ts us : List Turn} {s s' : State α σ} :
    Passes parts setup (ts ++ us) s s' ↔
      ∃ m, Passes parts setup ts s m ∧ Passes parts setup us m s' := by
  induction ts generalizing s with
  | nil => simp [Passes]
  | cons t ts ih =>
    simp only [List.cons_append, Passes, ih]
    constructor
    · rintro ⟨k, hk, m, hm, hs'⟩
      exact ⟨m, ⟨k, hk, hm⟩, hs'⟩
    · rintro ⟨m, ⟨k, hk, hm⟩, hs'⟩
      exact ⟨k, hk, m, hm, hs'⟩

/-! ### Computations made of turns -/

/-- **A computation made of turns**: it gives a value exactly after certain turns, and fails exactly
when after certain turns the slot that is due fails, with the same fault and in the same state. -/
structure Follows (parts : Parts α σ) (setup : Setup σ) (x : Run α σ β)
    (gives : β → List Turn → Prop) (due : List Turn → Part → Prop) : Prop where
  value : ∀ {s s' b}, x setup s = (.value b, s') ↔
    ∃ ts, gives b ts ∧ Passes parts setup ts s s'
  fault : ∀ {s s' f}, x setup s = (.fault f, s') ↔
    ∃ ts p m, due ts p ∧ Passes parts setup ts s m ∧ parts p setup m = (.fault f, s')

namespace Follows

variable {gives : β → List Turn → Prop} {due : List Turn → Part → Prop}

theorem congr {x : Run α σ β} {gives' : β → List Turn → Prop} {due' : List Turn → Part → Prop}
    (h : Follows parts setup x gives due) (hgives : ∀ b ts, gives b ts ↔ gives' b ts)
    (hdue : ∀ ts p, due ts p ↔ due' ts p) : Follows parts setup x gives' due' where
  value := by simp only [h.value, hgives, implies_true]
  fault := by simp only [h.fault, hdue, implies_true]

/-- A slot is one turn. -/
theorem part (p : Part) : Follows parts setup (parts p) (fun b ts => ts = [⟨p, b⟩])
    (fun ts q => ts = [] ∧ q = p) where
  value := by simp [Passes]
  fault := by simp [Passes]

/-- What is there at once takes no turn. -/
theorem done (b : β) : Follows parts setup (.done b) (fun c ts => c = b ∧ ts = [])
    (fun _ _ => False) where
  value := by
    intro s s' c
    simp [Run.done, Passes, eq_comm]
  fault := by simp [Run.done]

/-- One computation after the other. -/
theorem andThen {x : Run α σ β} {f : β → Run α σ γ} {gives' : β → γ → List Turn → Prop}
    {due' : β → List Turn → Part → Prop} (hx : Follows parts setup x gives due)
    (hf : ∀ b, Follows parts setup (f b) (gives' b) (due' b)) :
    Follows parts setup (x >>= f)
      (fun c ts => ∃ b ts₁ ts₂, gives b ts₁ ∧ gives' b c ts₂ ∧ ts = ts₁ ++ ts₂)
      (fun ts p => due ts p ∨ ∃ b ts₁ ts₂, gives b ts₁ ∧ due' b ts₂ p ∧ ts = ts₁ ++ ts₂) where
  value := by
    intro s s' c
    -- the turns of the second part follow those of the first
    simp only [Run.bind_eq_value_iff, hx.value, (hf _).value]
    constructor
    · rintro ⟨b, m, ⟨ts, hts, hm⟩, us, hus, hs'⟩
      exact ⟨ts ++ us, ⟨b, ts, us, hts, hus, rfl⟩, passes_append.2 ⟨m, hm, hs'⟩⟩
    · rintro ⟨_, ⟨b, ts, us, hts, hus, rfl⟩, hpasses⟩
      obtain ⟨m, hm, hs'⟩ := passes_append.1 hpasses
      exact ⟨b, m, ⟨ts, hts, hm⟩, us, hus, hs'⟩
  fault := by
    intro s s' e
    -- the whole fails in its first part, or in the second after the first
    have hsplit : (x >>= f) setup s = (.fault e, s') ↔ x setup s = (.fault e, s') ∨
        ∃ b m, x setup s = (.value b, m) ∧ f b setup m = (.fault e, s') := by
      rw [Run.bind_apply]
      rcases x setup s with ⟨b | e | _, m⟩ <;> simp
    simp only [hsplit, hx.fault, hx.value, (hf _).fault]
    constructor
    · rintro (⟨ts, p, m, hdue, hm, hfails⟩ | ⟨b, m, ⟨ts, hts, hm⟩, us, p, k, hdue, hk, hfails⟩)
      · exact ⟨ts, p, m, .inl hdue, hm, hfails⟩
      · exact ⟨ts ++ us, p, k, .inr ⟨b, ts, us, hts, hdue, rfl⟩, passes_append.2 ⟨m, hm, hk⟩,
          hfails⟩
    · rintro ⟨_, p, k, hdue | ⟨b, ts, us, hts, hdue, rfl⟩, hpasses, hfails⟩
      · exact .inl ⟨_, p, k, hdue, hpasses, hfails⟩
      · obtain ⟨m, hm, hk⟩ := passes_append.1 hpasses
        exact .inr ⟨b, m, ⟨ts, hts, hm⟩, us, p, k, hdue, hk, hfails⟩

/-- One of two computations. -/
theorem ite {x y : Run α σ β} {gives' : β → List Turn → Prop} {due' : List Turn → Part → Prop}
    (hx : Follows parts setup x gives due) (hy : Follows parts setup y gives' due') (c : Bool) :
    Follows parts setup (if c = true then x else y)
      (fun b ts => c = true ∧ gives b ts ∨ c = false ∧ gives' b ts)
      (fun ts p => c = true ∧ due ts p ∨ c = false ∧ due' ts p) := by
  cases c with
  | true => exact hx.congr (by simp) (by simp)
  | false => exact hy.congr (by simp) (by simp)

/-- A loop: full rounds, and what ends it. -/
theorem loop {step : Run α σ Bool} {gives : Bool → List Turn → Prop} {round : List Turn}
    (h : Follows parts setup step gives due) (hround : ∀ ts, gives true ts ↔ ts = round)
    (budget : Nat) :
    Follows parts setup (Run.loop step budget)
      (fun _ ts => ∃ n < budget, ∃ l, gives false l ∧ ts = rounds n round ++ l)
      (fun ts p => ∃ n < budget, ∃ l, due l p ∧ ts = rounds n round ++ l) := by
  -- a step that goes on puts one round in front of what the smaller budget does
  induction budget with
  | zero =>
    constructor <;> simp [Run.loop, Run.exhausted]
  | succ budget ih =>
    refine (h.andThen (ih.ite (done ()))).congr (fun _ ts => ?_) fun ts p => ?_
    · rw [exists_rounds_succ]
      simp [hround]
    · rw [exists_rounds_succ]
      simp [hround]

/-- An open-ended loop, and nothing else. -/
theorem loopWhile {step : Run α σ Bool} {gives : Bool → List Turn → Prop}
    (h : Follows parts setup step gives due) (round : List Turn)
    (hround : ∀ ts, gives true ts ↔ ts = round) :
    Follows parts setup (Run.loopWhile step >>= fun _ => .done Value.undefined)
      (fun v ts => v = .undefined ∧
        ∃ n, (∃ l, gives false l ∧ ts = rounds n round ++ l) ∧ n < setup.budget)
      (fun ts p => ∃ n, (∃ l, due l p ∧ ts = rounds n round ++ l) ∧ n < setup.budget) := by
  have hloop : Follows parts setup (Run.loopWhile step) _ _ :=
    ⟨(h.loop hround setup.budget).value, (h.loop hround setup.budget).fault⟩
  refine (hloop.andThen fun _ => done _).congr (fun v ts => ?_) fun ts p => ?_
  · constructor
    · rintro ⟨_, _, _, ⟨n, hn, l, hl, rfl⟩, ⟨hv, rfl⟩, rfl⟩
      exact ⟨hv, n, ⟨l, hl, List.append_nil _⟩, hn⟩
    · rintro ⟨hv, n, ⟨l, hl, rfl⟩, hn⟩
      exact ⟨(), _, [], ⟨n, hn, l, hl, rfl⟩, ⟨hv, rfl⟩, (List.append_nil _).symm⟩
  · simp [and_comm]

/-- A count: so many rounds. -/
theorem times {step : Run α σ Unit} {gives : Unit → List Turn → Prop} {round : List Turn}
    (h : Follows parts setup step gives due) (hround : ∀ ts, gives () ts ↔ ts = round)
    (count : Nat) :
    Follows parts setup (Run.times step count) (fun _ ts => ts = rounds count round)
      (fun ts p => ∃ n < count, ∃ l, due l p ∧ ts = rounds n round ++ l) := by
  induction count with
  | zero => exact (done ()).congr (by simp [rounds]) (by simp)
  | succ count ih =>
    refine (h.andThen fun _ => ih).congr (fun _ ts => ?_) fun ts p => ?_
    · simp [hround, rounds_succ]
    · rw [exists_rounds_succ]
      simp [hround]

end Follows

/-! ### Courses -/

/-- The slots of a control block, by their names. -/
def partsOf (scope : Scope α σ) : Parts α σ
  | .condition => scope.condition "CONDITION"
  | .times => scope.number "TIMES"
  | .body => scope.body "SUBSTACK"
  | .otherBody => scope.body "SUBSTACK2"

/-- **The turns of a block that is completed**, with `n` full rounds if it is a loop. A block that
loops for ever is never completed. -/
def Complete : Control → Nat → List Turn → Prop
  | .count, n, ts => ∃ x i, x.Rounded i ∧ n = i.toNat ∧ ts = .times x :: rounds n [.body]
  | .untilTrue, n, ts => ts = rounds n [.condition false, .body] ++ [.condition true]
  | .whileTrue, n, ts => ts = rounds n [.condition true, .body] ++ [.condition false]
  | .endless, _, _ => False
  | .branch, _, ts => ts = [.condition true, .body] ∨ ts = [.condition false]
  | .choice, _, ts => ts = [.condition true, .body] ∨ ts = [.condition false, .otherBody]
  | .await, n, ts => ts = rounds n [.condition false] ++ [.condition true]

/-- **What is due** after some turns: the slot that the block evaluates next, `n` full rounds being
over if it is a loop. -/
def Due : Control → Nat → List Turn → Part → Prop
  | .count, n, ts, p => ts = [] ∧ p = .times ∨
      ∃ x i, x.Rounded i ∧ n < i.toNat ∧ ts = .times x :: rounds n [.body] ∧ p = .body
  | .untilTrue, n, ts, p => ts = rounds n [.condition false, .body] ∧ p = .condition ∨
      ts = rounds n [.condition false, .body] ++ [.condition false] ∧ p = .body
  | .whileTrue, n, ts, p => ts = rounds n [.condition true, .body] ∧ p = .condition ∨
      ts = rounds n [.condition true, .body] ++ [.condition true] ∧ p = .body
  | .endless, n, ts, p => ts = rounds n [.body] ∧ p = .body
  | .branch, _, ts, p => ts = [] ∧ p = .condition ∨ ts = [.condition true] ∧ p = .body
  | .choice, _, ts, p => ts = [] ∧ p = .condition ∨ ts = [.condition true] ∧ p = .body ∨
      ts = [.condition false] ∧ p = .otherBody
  | .await, n, ts, p => ts = rounds n [.condition false] ∧ p = .condition

/-- The rounds of an open-ended loop stay within the budget of the run. -/
def InBudget (c : Control) (setup : Setup σ) (n : Nat) : Prop := c.isOpen = true → n < setup.budget

section Slots

variable (setup) (scope : Scope α σ)

theorem follows_condition : Follows (partsOf scope) setup (scope.condition "CONDITION")
    (fun holds ts => ts = [.condition holds]) (fun ts p => ts = [] ∧ p = .condition) :=
  .part .condition

theorem follows_number : Follows (partsOf scope) setup (scope.number "TIMES")
    (fun x ts => ts = [.times x]) (fun ts p => ts = [] ∧ p = .times) :=
  .part .times

theorem follows_body : Follows (partsOf scope) setup (scope.body "SUBSTACK")
    (fun _ ts => ts = [.body]) (fun ts p => ts = [] ∧ p = .body) :=
  .part .body

theorem follows_otherBody : Follows (partsOf scope) setup (scope.body "SUBSTACK2")
    (fun _ ts => ts = [.otherBody]) (fun ts p => ts = [] ∧ p = .otherBody) :=
  .part .otherBody

end Slots

/-- A count evaluates its number once, and then nothing but its body. -/
theorem follows_count (scope : Scope α σ) :
    Follows (partsOf scope) setup (perform .count scope)
      (fun v ts => v = .undefined ∧ ∃ n, Complete .count n ts)
      (fun ts p => ∃ n, Due .count n ts p) := by
  -- once the number is known, the rounds are those of its rounding
  have hrounds := (follows_body setup scope).times fun _ => Iff.rfl
  refine ((follows_number setup scope).andThen fun x => (hrounds x.round.toIndex.toNat).andThen
    fun _ => .done Value.undefined).congr (fun v ts => ?_) fun ts p => ?_
  · simp [Complete, Binary64.rounded_iff]
  · constructor
    · rintro (⟨hts, hp⟩ | ⟨x, _, _, rfl, ⟨n, hn, _, ⟨rfl, rfl⟩, rfl⟩ | ⟨_, _, _, _, ⟨⟩, _⟩, rfl⟩)
      · exact ⟨0, .inl ⟨hts, hp⟩⟩
      · refine ⟨n, .inr ⟨x, _, (x.rounded_iff _).2 rfl, hn, ?_, rfl⟩⟩
        rw [List.append_nil]
        rfl
    · rintro ⟨n, ⟨hts, hp⟩ | ⟨x, i, hi, hn, rfl, rfl⟩⟩
      · exact .inl ⟨hts, hp⟩
      · rw [x.rounded_iff] at hi
        subst hi
        refine .inr ⟨x, _, _, rfl, .inl ⟨n, hn, [], ⟨rfl, rfl⟩, rfl⟩, ?_⟩
        rw [List.append_nil]
        rfl

/-- **Control blocks run their slots in their courses.** -/
theorem follows_perform (c : Control) (scope : Scope α σ) :
    Follows (partsOf scope) setup (c.perform scope)
      (fun v ts => v = .undefined ∧ ∃ n, c.Complete n ts ∧ c.InBudget setup n)
      (fun ts p => ∃ n, c.Due n ts p ∧ c.InBudget setup n) := by
  have hcondition := follows_condition setup scope
  have hbody := follows_body setup scope
  have hanswer : ∀ b : Bool, Follows (partsOf scope) setup (Run.done b)
      (fun c ts => c = b ∧ ts = []) (fun _ _ => False) := .done
  have hend : Follows (partsOf scope) setup (Run.done Value.undefined)
      (fun v ts => v = .undefined ∧ ts = []) (fun _ _ => False) := .done _
  cases c with
  | count =>
    -- its rounds are fixed before the first one, so no budget limits them
    exact (follows_count scope).congr (by simp [InBudget, isOpen]) (by simp [InBudget, isOpen])
  -- the step of an open-ended loop says whether to go on, and if so it was a full round
  | untilTrue =>
    have hstep := hcondition.andThen ((hanswer false).ite (hbody.andThen fun _ => hanswer true))
    refine (hstep.loopWhile [.condition false, .body] ?_).congr (fun v ts => ?_)
      fun ts p => ?_
    · simp
    · simp [Complete, InBudget, isOpen]
    · simp [Due, InBudget, isOpen, or_and_right, exists_or, and_comm]
  | whileTrue =>
    have hstep := hcondition.andThen ((hbody.andThen fun _ => hanswer true).ite (hanswer false))
    refine (hstep.loopWhile [.condition true, .body] ?_).congr (fun v ts => ?_)
      fun ts p => ?_
    · simp
    · simp [Complete, InBudget, isOpen]
    · simp [Due, InBudget, isOpen, or_and_right, exists_or, and_comm]
  | endless =>
    have hstep := hbody.andThen fun _ => hanswer true
    refine (hstep.loopWhile [.body] ?_).congr (fun v ts => ?_) fun ts p => ?_
    · simp
    · simp [Complete, InBudget, isOpen]
    · simp [Due, InBudget, isOpen, and_comm]
  -- a branch makes one round, and its turns say which way it went
  | branch =>
    refine (hcondition.andThen ((hbody.andThen fun _ => hend).ite hend)).congr (fun v ts => ?_)
      fun ts p => ?_
    · simp [Complete, InBudget, isOpen, and_or_left, or_comm]
    · simp [Due, InBudget, isOpen, and_comm]
  | choice =>
    refine (hcondition.andThen ((hbody.andThen fun _ => hend).ite
      ((follows_otherBody setup scope).andThen fun _ => hend))).congr (fun v ts => ?_)
      fun ts p => ?_
    · simp [Complete, InBudget, isOpen, and_or_left, or_comm]
    · simp [Due, InBudget, isOpen, and_comm, or_comm]
  | await =>
    have hstep := hcondition.andThen fun b => hanswer !b
    refine (hstep.loopWhile [.condition false] ?_).congr (fun v ts => ?_) fun ts p => ?_
    · simp
    · simp [Complete, InBudget, isOpen]
    · simp [Due, InBudget, isOpen, and_comm]

/-- The opcode of a control block. -/
def opcode : Control → String
  | .count => "control_repeat"
  | .untilTrue => "control_repeat_until"
  | .whileTrue => "control_while"
  | .endless => "control_forever"
  | .branch => "control_if"
  | .choice => "control_if_else"
  | .await => "control_wait_until"

end Blocks.Control

/-- The functions of the standard modules that control opcodes name. -/
theorem Registry.control_handlers (c : Blocks.Control) :
    ∀ f ∈ functions Blocks.standard, f.1 = c.opcode → f.2 = .control c := by
  cases c <;> decide +kernel

/-- The value of a computation that ends with one. -/
def Outcome.value? : Outcome β → Option β
  | .value b => some b
  | .fault _ => none
  | .unfinished => none

theorem Outcome.value?_eq_some_iff {o : Outcome β} {b : β} : o.value? = some b ↔ o = .value b := by
  cases o <;> simp [value?]

/-! ### Blocks -/

/-- The last value slot of a block with a name: what it holds. -/
def Block.value? (b : Block) (name : String) : Option Content :=
  b.members.reverse.findSome? fun
    | .expression n chain => if n == name then some (.block chain) else none
    | .literal n shadow => if n == name then some (.shadow shadow) else none
    | _ => none

/-- The last statement slot of a block with a name: its chain. -/
def Block.statement? (b : Block) (name : String) : Option Chain :=
  b.members.reverse.findSome? fun
    | .statement n chain => if n == name then some chain else none
    | _ => none

namespace Machine

variable {σ : Type} {b : Block} {setup : Setup σ} {s : State Action σ} {route : Route Action}

/-- The evaluation of a value slot: its chain is run, or its literal is a text. -/
def evaluated : Content → Job σ Value
  | .block chain => execute chain
  | .shadow shadow => .done (.text shadow.field.value)

/-- The running of a body; one that is missing does nothing. -/
def ran : Option Chain → Job σ Unit
  | none => .done ()
  | some chain => do
    let _ ← execute chain

/-- **The slots of a control block**: chains and literals in their places. A condition that is
missing is false; the number of iterations may not be missing. -/
def parts (b : Block) : Blocks.Control.Parts Action σ
  | .condition =>
    match b.value? "CONDITION" with
    | none => .done false
    | some content => do
      let v ← evaluated content
      return v.truthy (← Run.state).store
  | .times =>
    match b.value? "TIMES" with
    | none => .fail (.slotMissing .value "TIMES" b.opcode)
    | some content => do
      match (← evaluated content).toNumber with
      | .ok n => return n
      | .error m => Run.fail (.through "TIMES" (.mismatch m))
  | .body => ran (b.statement? "SUBSTACK")
  | .otherBody => ran (b.statement? "SUBSTACK2")

/-- The value slots that a handler finds are those of the block. -/
theorem value?_scopeOf (b : Block) (route : Route Action) (name : String) :
    (scopeOf (σ := σ) b route).value? name = (b.value? name).map fun c => (c, evaluated c) := by
  unfold scopeOf Scope.value? Block.value?
  rw [slotsOf_eq_map, ← List.map_reverse, List.findSome?_map, List.map_findSome?]
  congr 1
  funext m
  cases m with
  | expression n chain => simp only [Function.comp_apply, slotOf]; split <;> rfl
  | literal n shadow => simp only [Function.comp_apply, slotOf]; split <;> rfl
  | statement n chain => rfl
  | field f => rfl

/-- So are the statement slots. -/
theorem statement?_scopeOf (b : Block) (route : Route Action) (name : String) :
    (scopeOf (σ := σ) b route).statement? name
      = (b.statement? name).map fun chain => (chain, execute chain) := by
  unfold scopeOf Scope.statement? Block.statement?
  rw [slotsOf_eq_map, ← List.map_reverse, List.findSome?_map, List.map_findSome?]
  congr 1
  funext m
  cases m with
  | statement n chain => simp only [Function.comp_apply, slotOf]; split <;> rfl
  | _ => rfl

theorem body_scopeOf (b : Block) (route : Route Action) (name : String) :
    (scopeOf (σ := σ) b route).body name = ran (b.statement? name) := by
  unfold Scope.body
  rw [statement?_scopeOf]
  cases b.statement? name <;> rfl

theorem partsOf_scopeOf (b : Block) (route : Route Action) :
    Blocks.Control.partsOf (scopeOf (σ := σ) b route) = parts b := by
  funext p
  cases p with
  | condition =>
    unfold Blocks.Control.partsOf parts Scope.condition
    dsimp only
    rw [value?_scopeOf]
    cases b.value? "CONDITION" <;> rfl
  | times =>
    unfold Blocks.Control.partsOf parts Scope.number Scope.evaluate Scope.getValue
    dsimp only
    rw [value?_scopeOf]
    cases b.value? "TIMES" <;> rfl
  | body => exact body_scopeOf b route _
  | otherBody => exact body_scopeOf b route _

/-- **Loops and branches run their slots exactly as specified.** From any state, let a control block
be routed whose opcode means what it means with the standard modules. What its slots hold, and what
other modules there are, does not matter.

* It ends with a value exactly when its turns are complete: they lead from the state after routing
  to one in which the block is counted and told to the observer. The value is undefined.
* It fails exactly when the slot that is due after some turns fails. The fault is that of the slot,
  wrapped in the block unless it came out of a nested one, and the state is the one that it left. -/
theorem control_blocks_run_their_slots {c : Blocks.Control} (hopcode : b.opcode = c.opcode)
    (hgenuine : s.registry.Genuine b.opcode)
    (hroute : (s.registry.resolve b.opcode).1 = .ok route) :
    (∀ v s', executeBlock b setup s = (.value v, s') ↔
      v = .undefined ∧ ∃ n ts m, c.Complete n ts ∧ c.InBudget setup n ∧
        Blocks.Control.Passes (parts b) setup ts (afterRouting s b.opcode) m ∧
        s' = (completed (scopeOf b route) .undefined setup m).2) ∧
    ∀ f s', executeBlock b setup s = (.fault f, s') ↔
      ∃ n ts p m cause, c.Due n ts p ∧ c.InBudget setup n ∧
        Blocks.Control.Passes (parts b) setup ts (afterRouting s b.opcode) m ∧
        parts b p setup m = (.fault cause, s') ∧
        f = cause.wrap route.module route.function b.id := by
  have hhandler : route.handler = .control c :=
    Registry.control_handlers c _ (hgenuine route hroute) hopcode
  -- the slots that the handler evaluates are those of the block
  have hfollows : Blocks.Control.Follows (parts b) setup (c.perform (scopeOf b route)) _ _ :=
    partsOf_scopeOf (σ := σ) b route ▸ c.follows_perform (scopeOf b route)
  have hperform :
      route.handler.perform (scopeOf (σ := σ) b route) = c.perform (scopeOf b route) := by
    rw [hhandler]
    rfl
  rw [executeBlock_apply, hroute]
  constructor
  · intro v s'
    dsimp only
    -- a value comes out of the handler, and then the block is completed
    rw [handled_value_iff, hperform]
    simp only [hfollows.value]
    constructor
    · rintro ⟨m, ⟨ts, ⟨rfl, n, hcomplete, hbudget⟩, hpasses⟩, rfl⟩
      exact ⟨rfl, n, ts, m, hcomplete, hbudget, hpasses, rfl⟩
    · rintro ⟨rfl, n, ts, m, hcomplete, hbudget, hpasses, rfl⟩
      exact ⟨m, ⟨ts, ⟨rfl, n, hcomplete, hbudget⟩, hpasses⟩, rfl⟩
  · intro f s'
    dsimp only
    -- a fault goes out through the wrapping of the block
    rw [handled_fault_iff, hperform]
    simp only [hfollows.fault]
    constructor
    · rintro ⟨cause, ⟨ts, p, m, ⟨n, hdue, hbudget⟩, hpasses, hfails⟩, rfl⟩
      exact ⟨n, ts, p, m, cause, hdue, hbudget, hpasses, hfails, rfl⟩
    · rintro ⟨n, ts, p, m, cause, hdue, hbudget, hpasses, hfails, rfl⟩
      exact ⟨cause, ⟨ts, p, m, ⟨n, hdue, hbudget⟩, hpasses, hfails⟩, rfl⟩

/-! ### A block that repeats -/

/-- A block that runs its body three times. The body is a branch without a condition. -/
def repeating : Block :=
  .mk "control_repeat" "r" [.literal "TIMES" ⟨"math_number", "n", ⟨"NUM", "", "2.5", ""⟩⟩,
    .statement "SUBSTACK" [.mk "control_if" "i" []]]

/-- A machine for it that has not run yet. -/
def repeatingMachine : Machine Unit :=
  create ⟨[], [repeating], []⟩ ⟨.silent, 10, 10⟩ [("control", Blocks.controlTable)] ()

theorem started_repeating : repeatingMachine.started = { repeatingMachine.started with
    registry := ⟨[("control", Blocks.controlTable)], ["control"], []⟩ } :=
  started_create_singleton ..

theorem executeBlock_repeating : ∃ s',
    executeBlock repeating repeatingMachine.setup repeatingMachine.started
      = (.value .undefined, s') := by
  have hends : (executeBlock repeating repeatingMachine.setup repeatingMachine.started).1.value?
      = some .undefined := by
    rw [started_repeating]
    decide +kernel
  exact ⟨_, Prod.ext (Outcome.value?_eq_some_iff.1 hends) rfl⟩

/-- It is completed, and so it went through all turns of a count. -/
theorem control_blocks_run_their_slots_repeating : ∃ n ts m,
    Blocks.Control.count.Complete n ts ∧
    Blocks.Control.Passes (parts repeating) repeatingMachine.setup ts
      (afterRouting repeatingMachine.started repeating.opcode) m := by
  have hreached : repeatingMachine.Reached ⟨[], [repeating], []⟩ := ⟨_, _, _, [], rfl⟩
  have hgenuine : repeatingMachine.started.registry.Genuine repeating.opcode :=
    hreached.coherent.genuine (by decide) (by decide)
  have hroute : (repeatingMachine.started.registry.resolve repeating.opcode).1
      = .ok ⟨"control_repeat", "control", "repeat", .control .count⟩ := by
    rw [started_repeating]
    rfl
  obtain ⟨s', hvalue⟩ := executeBlock_repeating
  have hvalues : ∀ v s', executeBlock repeating repeatingMachine.setup repeatingMachine.started
      = (.value v, s') ↔ _ :=
    (control_blocks_run_their_slots (c := .count) rfl hgenuine hroute).1
  obtain ⟨-, n, ts, m, hcomplete, -, hpasses, -⟩ := (hvalues _ s').1 hvalue
  exact ⟨n, ts, m, hcomplete, hpasses⟩

end Machine

end Blockwork
