import Blockwork.Proofs.Machine.Closure
import Blockwork.Proofs.Machine.Identity
import Mathlib.Data.List.Forall2

/-!
# Two runs side by side

Statements about two runs are statements about pairs of computations. As with properties of one
run, they are proved part by part: `Run.Coupled` lists what a relation between computations has to
relate so that it relates everything an action is put together from, and `Action.perform_coupled`
says that it then relates the action in two scopes whose slots are related. The results of related
computations are related too, so the relation is indexed by one for the results; a value on the
left is that on the right with its list identities moved by an offset.

The two machines may have different observers and memories, which actions never see. The count that
introspection blocks share is another matter: the counts have to agree if an action looks at them,
which the proposition `counting` stands for.
-/

namespace Blockwork

/-! ### Related states, results and slots -/

/-- An action that looks at the count which introspection blocks share. -/
def Action.counts : Action → Bool
  | .probe .tick => true
  | .probe .limit => true
  | _ => false

/-- What actions can see of two states is the same, up to the identities of lists. -/
structure State.Mirrors {α σ τ : Type} (k : Nat) (counting : Prop) (s : State α σ)
    (t : State α τ) : Prop where
  heap : s.heap = t.heap.shift k
  store : s.store.Shifts k t.store
  depth : s.depth = t.depth
  counter : counting → s.counter = t.counter

/-- The left value is the right one with its identity moved. -/
def Value.Shifted (k : Nat) (v w : Value) : Prop := v = w.shift k

/-- Two attempts had related values, or the same fault. -/
inductive Attempted {β γ : Type} (k : Nat) (R : β → γ → Prop) :
    Except Fault β → Except Fault γ → Prop where
  | ok {b : β} {c : γ} : R b c → Attempted k R (.ok b) (.ok c)
  | error (f : Fault) : Attempted k R (.error (f.shift k)) (.error f)

/-- Two slots of the same name and content with related computations. -/
inductive Slot.Matches {α σ τ : Type}
    (Φ : {β γ : Type} → (β → γ → Prop) → Run α σ β → Run α τ γ → Prop) (k : Nat) :
    Slot α σ → Slot α τ → Prop where
  | value {name : String} {content : Content} {x : Run α σ Value} {y : Run α τ Value} :
      Φ (Value.Shifted k) x y → Matches Φ k (.value name content x) (.value name content y)
  | statement {name : String} {chain : Chain} {x : Run α σ Value} {y : Run α τ Value} :
      Φ (Value.Shifted k) x y → Matches Φ k (.statement name chain x) (.statement name chain y)
  | field (f : Field) : Matches Φ k (.field f) (.field f)

/-- Two views of the same block, whose slots match. -/
structure Scope.Matches {α σ τ : Type}
    (Φ : {β γ : Type} → (β → γ → Prop) → Run α σ β → Run α τ γ → Prop) (k : Nat)
    (s : Scope α σ) (t : Scope α τ) : Prop where
  opcode : s.opcode = t.opcode
  id : s.id = t.id
  module : s.module = t.module
  function : s.function = t.function
  slots : List.Forall₂ (Slot.Matches Φ k) s.slots t.slots

/-- **A relation between computations that relates the parts of actions** and that putting them
together keeps. -/
structure Run.Coupled {α σ τ : Type} (k : Nat) (counting : Prop)
    (Φ : {β γ : Type} → (β → γ → Prop) → Run α σ β → Run α τ γ → Prop) : Prop where
  done : ∀ {β γ : Type} {R : β → γ → Prop} {b : β} {c : γ}, R b c → Φ R (done b) (done c)
  andThen : ∀ {β γ β' γ' : Type} {R : β → γ → Prop} {Q : β' → γ' → Prop} {x : Run α σ β}
    {y : Run α τ γ} {f : β → Run α σ β'} {g : γ → Run α τ γ'},
    Φ R x y → (∀ b c, R b c → Φ Q (f b) (g c)) → Φ Q (x >>= f) (y >>= g)
  fail : ∀ {β γ : Type} {R : β → γ → Prop} (f : Fault), Φ R (fail (f.shift k)) (fail f)
  exhausted : ∀ {β γ : Type} {R : β → γ → Prop}, Φ R exhausted exhausted
  attempt : ∀ {β γ : Type} {R : β → γ → Prop} {x : Run α σ β} {y : Run α τ γ}, Φ R x y →
    Φ (Attempted k R) x.attempt y.attempt
  through : ∀ {β γ : Type} {R : β → γ → Prop} {x : Run α σ β} {y : Run α τ γ} (place : String),
    Φ R x y → Φ R (x.mapFault (.through place)) (y.mapFault (.through place))
  setup : Φ (fun a b => a.budget = b.budget) setup setup
  state : Φ (State.Mirrors k counting) state state
  assign : ∀ (name : String) (v : Value), Φ Eq (assign name (v.shift k)) (assign name v)
  newList : ∀ items : Array Value,
    Φ (fun a b => a = b.shift k) (newList (Sequence.shift k items)) (newList items)
  updateList : ∀ (id : ListId) {f g : Array Value → Array Value},
    (∀ xs, f (Sequence.shift k xs) = Sequence.shift k (g xs)) →
    Φ Eq (updateList (id.shift k) f) (updateList id g)
  emit : ∀ e : Event, Φ Eq (emit e) (emit e)
  count : counting → Φ Eq (modify fun s => { s with counter := s.counter + 1 })
    (modify fun s => { s with counter := s.counter + 1 })

/-! ### Looking up slots -/

/-- Searching related lists with related searches finds related things. -/
theorem findSome?_related {β γ β' γ' : Type} {R : β → γ → Prop} {Q : β' → γ' → Prop}
    {f : β → Option β'} {g : γ → Option γ'} (hfg : ∀ b c, R b c → Option.Rel Q (f b) (g c))
    {xs : List β} {ys : List γ} (h : List.Forall₂ R xs ys) :
    Option.Rel Q (xs.findSome? f) (ys.findSome? g) := by
  induction h with
  | nil => exact .none
  | @cons x y xs ys hxy _ ih =>
    rw [List.findSome?_cons, List.findSome?_cons]
    have hhead := hfg x y hxy
    -- both find something here, or both go on
    cases hf : f x <;> cases hg : g y <;> rw [hf, hg] at hhead
    · exact ih
    · cases hhead
    · cases hhead
    · exact hhead

theorem isSome_eq_of_related {β γ : Type} {R : β → γ → Prop} {a : Option β} {b : Option γ}
    (h : Option.Rel R a b) : a.isSome = b.isSome := by
  cases h <;> rfl

theorem eq_of_related {β : Type} {a b : Option β} (h : Option.Rel Eq a b) : a = b := by
  cases h with
  | some heq => exact congrArg some heq
  | none => rfl

namespace Scope.Matches

variable {α σ τ : Type} {Φ : {β γ : Type} → (β → γ → Prop) → Run α σ β → Run α τ γ → Prop}
  {k : Nat} {s : Scope α σ} {t : Scope α τ}

theorem value? (h : s.Matches Φ k t) (name : String) :
    Option.Rel (fun p q => p.1 = q.1 ∧ Φ (Value.Shifted k) p.2 q.2) (s.value? name)
      (t.value? name) := by
  refine findSome?_related ?_ (List.forall₂_reverse_iff.2 h.slots)
  rintro _ _ (hxy | hxy | f)
  · dsimp only
    split
    · exact .some ⟨rfl, hxy⟩
    · exact .none
  · exact .none
  · exact .none

theorem statement? (h : s.Matches Φ k t) (name : String) :
    Option.Rel (fun p q => p.1 = q.1 ∧ Φ (Value.Shifted k) p.2 q.2) (s.statement? name)
      (t.statement? name) := by
  refine findSome?_related ?_ (List.forall₂_reverse_iff.2 h.slots)
  rintro _ _ (hxy | hxy | f)
  · exact .none
  · dsimp only
    split
    · exact .some ⟨rfl, hxy⟩
    · exact .none
  · exact .none

/-- The fields are the same. -/
theorem field? (h : s.Matches Φ k t) (name : String) : s.field? name = t.field? name := by
  refine eq_of_related (findSome?_related ?_ (List.forall₂_reverse_iff.2 h.slots))
  rintro _ _ (hxy | hxy | f)
  · exact .none
  · exact .none
  · dsimp only
    split
    · exact .some rfl
    · exact .none

theorem slotNames (h : s.Matches Φ k t) : s.slotNames = t.slotNames := by
  have hnames : ∀ (xs : List (Slot α σ)) (ys : List (Slot α τ)),
      List.Forall₂ (Slot.Matches Φ k) xs ys → xs.map Scope.slotName = ys.map Scope.slotName := by
    intro xs ys hxy
    induction hxy with
    | nil => rfl
    | cons hhead _ ih =>
      rw [List.map_cons, List.map_cons, ih]
      cases hhead <;> rfl
  unfold Scope.slotNames
  rw [hnames _ _ h.slots]

theorem textOf (h : s.Matches Φ k t) (name : String) :
    Blocks.Probe.textOf s name = Blocks.Probe.textOf t name := by
  unfold Blocks.Probe.textOf
  rw [h.field?]

theorem numberOf (h : s.Matches Φ k t) (name : String) :
    Blocks.Probe.numberOf s name = Blocks.Probe.numberOf t name := by
  unfold Blocks.Probe.numberOf
  rw [h.textOf]

end Scope.Matches

/-! ### Parts that several actions share -/

namespace Run.Coupled

variable {α σ τ : Type} {Φ : {β γ : Type} → (β → γ → Prop) → Run α σ β → Run α τ γ → Prop}
  {k : Nat} {counting : Prop} {s : Scope α σ} {t : Scope α τ}

theorem value (h : Coupled k counting Φ) {v w : Value} (hvw : v = w.shift k) :
    Φ (Value.Shifted k) (Run.done v) (Run.done w) :=
  h.done hvw

theorem itemsOf (h : Coupled k counting Φ) (id : ListId) :
    Φ (fun xs ys => xs = Sequence.shift k ys) (Run.itemsOf (id.shift k)) (Run.itemsOf id) :=
  h.andThen h.state fun _ _ hst => h.done (hst.store.items id)

theorem display (h : Coupled k counting Φ) (v : Value) :
    Φ Eq (Run.display (v.shift k)) (Run.display v) :=
  h.andThen h.state fun _ _ hst => h.done (hst.store.display_shift v)

theorem lookup (h : Coupled k counting Φ) (name : String) :
    Φ (Value.Shifted k) (Run.lookup name) (Run.lookup name) := by
  refine h.andThen h.state fun a b hab => ?_
  rw [hab.heap, Heap.get?_shift]
  cases b.heap.get? name with
  | some v => exact h.value rfl
  | none => exact h.fail (.unknownVariable name)

theorem loopWhile (h : Coupled k counting Φ) {x : Run α σ Bool} {y : Run α τ Bool}
    (hxy : Φ Eq x y) : Φ Eq (Run.loopWhile x) (Run.loopWhile y) := by
  have hloop : ∀ budget, Φ Eq (Run.loop x budget) (Run.loop y budget) := by
    intro budget
    induction budget with
    | zero => exact h.exhausted
    | succ budget ih =>
      refine h.andThen hxy ?_
      rintro b _ rfl
      cases b with
      | true => exact ih
      | false => exact h.done rfl
  refine h.andThen h.setup fun a b hab => ?_
  -- both loops have the same budget
  rw [hab]
  exact hloop b.budget

theorem times (h : Coupled k counting Φ) {x : Run α σ Unit} {y : Run α τ Unit}
    (hxy : Φ Eq x y) (count : Nat) : Φ Eq (Run.times x count) (Run.times y count) := by
  induction count with
  | zero => exact h.done rfl
  | succ count ih => exact h.andThen hxy fun _ _ _ => ih

theorem getValue (h : Coupled k counting Φ) (hs : s.Matches Φ k t) (name : String) :
    Φ (fun p q => p.1 = q.1 ∧ Φ (Value.Shifted k) p.2 q.2) (s.getValue name)
      (t.getValue name) := by
  have hfound := hs.value? name
  unfold Scope.getValue
  cases hl : s.value? name <;> cases hr : t.value? name <;> rw [hl, hr] at hfound
  · unfold Scope.missing
    rw [hs.opcode]
    exact h.fail (.slotMissing .value name t.opcode)
  · cases hfound
  · cases hfound
  · cases hfound with
    | some hpq => exact h.done hpq

theorem getStatement (h : Coupled k counting Φ) (hs : s.Matches Φ k t) (name : String) :
    Φ (fun p q => p.1 = q.1 ∧ Φ (Value.Shifted k) p.2 q.2) (s.getStatement name)
      (t.getStatement name) := by
  have hfound := hs.statement? name
  unfold Scope.getStatement
  cases hl : s.statement? name <;> cases hr : t.statement? name <;> rw [hl, hr] at hfound
  · unfold Scope.missing
    rw [hs.opcode]
    exact h.fail (.slotMissing .statement name t.opcode)
  · cases hfound
  · cases hfound
  · cases hfound with
    | some hpq => exact h.done hpq

theorem getField (h : Coupled k counting Φ) (hs : s.Matches Φ k t) (name : String) :
    Φ Eq (s.getField name) (t.getField name) := by
  unfold Scope.getField
  rw [hs.field?]
  cases t.field? name with
  | some f => exact h.done rfl
  | none =>
    unfold Scope.missing
    rw [hs.opcode]
    exact h.fail (.slotMissing .field name t.opcode)

theorem evaluate (h : Coupled k counting Φ) (hs : s.Matches Φ k t) (name : String) :
    Φ (Value.Shifted k) (s.evaluate name) (t.evaluate name) :=
  h.andThen (h.getValue hs name) fun _ _ hpq => hpq.2

theorem execute (h : Coupled k counting Φ) (hs : s.Matches Φ k t) (name : String) :
    Φ (Value.Shifted k) (s.execute name) (t.execute name) :=
  h.andThen (h.getStatement hs name) fun _ _ hpq => hpq.2

theorem fieldText (h : Coupled k counting Φ) (hs : s.Matches Φ k t) (name : String) :
    Φ Eq (s.fieldText name) (t.fieldText name) :=
  h.andThen (h.getField hs name) fun _ _ hfg => h.done (congrArg Field.value hfg)

theorem fieldVariable (h : Coupled k counting Φ) (hs : s.Matches Φ k t) (name : String) :
    Φ (Value.Shifted k) (s.fieldVariable name) (t.fieldVariable name) := by
  refine h.andThen (h.fieldText hs name) ?_
  rintro text _ rfl
  exact h.lookup text

theorem number (h : Coupled k counting Φ) (hs : s.Matches Φ k t) (name : String) :
    Φ Eq (s.number name) (t.number name) := by
  refine h.andThen (h.evaluate hs name) ?_
  rintro _ w rfl
  rw [Value.toNumber_shift]
  cases w.toNumber with
  | ok n => exact h.done rfl
  | error m => exact h.fail (.through name (.mismatch m))

theorem index (h : Coupled k counting Φ) (hs : s.Matches Φ k t) (name : String) :
    Φ Eq (s.index name) (t.index name) :=
  h.andThen (h.number hs name) fun _ _ hmn => h.done (congrArg Binary64.toIndex hmn)

theorem condition (h : Coupled k counting Φ) (hs : s.Matches Φ k t) (name : String) :
    Φ Eq (s.condition name) (t.condition name) := by
  have hfound := hs.value? name
  unfold Scope.condition
  cases hl : s.value? name <;> cases hr : t.value? name <;> rw [hl, hr] at hfound
  -- a condition that is missing on both sides is false
  · exact h.done rfl
  · cases hfound
  · cases hfound
  · cases hfound with
    | some hpq =>
      refine h.andThen hpq.2 ?_
      rintro _ w rfl
      exact h.andThen h.state fun _ _ hst => h.done (hst.store.truthy_shift w)

theorem body (h : Coupled k counting Φ) (hs : s.Matches Φ k t) (name : String) :
    Φ Eq (s.body name) (t.body name) := by
  have hfound := hs.statement? name
  unfold Scope.body
  cases hl : s.statement? name <;> cases hr : t.statement? name <;> rw [hl, hr] at hfound
  · exact h.done rfl
  · cases hfound
  · cases hfound
  · cases hfound with
    | some hpq => exact h.andThen hpq.2 fun _ _ _ => h.done rfl

theorem showVariable (h : Coupled k counting Φ) (s : Scope α σ) (t : Scope α τ)
    (name : String) : Φ Eq (s.showVariable name) (t.showVariable name) := by
  refine h.andThen h.state fun a b hab => ?_
  -- what is shown is read out of the store, so the two events are equal
  have hshown : (a.heap.get? name).map a.store.read = (b.heap.get? name).map b.store.read := by
    rw [hab.heap, Heap.get?_shift, Option.map_map]
    congr 1
    funext v
    exact hab.store.read_shift v
  rw [hshown]
  exact h.emit _

theorem hideVariable (h : Coupled k counting Φ) (hs : s.Matches Φ k t) (name : String) :
    Φ Eq (s.hideVariable name) (t.hideVariable name) := by
  unfold Scope.hideVariable
  rw [hs.id]
  exact h.emit _

/-! ### The actions -/

theorem control (h : Coupled k counting Φ) (hs : s.Matches Φ k t) (c : Blocks.Control) :
    Φ (Value.Shifted k) (c.perform s) (c.perform t) := by
  have hend : ∀ (b c : Unit), b = c →
      Φ (Value.Shifted k) (Run.done .undefined) (Run.done .undefined) :=
    fun _ _ _ => h.value rfl
  -- conditions are equal on both sides, so both take the same branch
  cases c with
  | count =>
    -- the count is a number, and so the same on both sides before the first turn
    refine h.andThen (h.number hs "TIMES") ?_
    rintro n _ rfl
    exact h.andThen (h.times (h.body hs "SUBSTACK") _) hend
  | untilTrue =>
    refine h.andThen (h.loopWhile (h.andThen (h.condition hs "CONDITION") ?_)) hend
    rintro b _ rfl
    cases b with
    | true => exact h.done rfl
    | false => exact h.andThen (h.body hs "SUBSTACK") fun _ _ _ => h.done rfl
  | whileTrue =>
    refine h.andThen (h.loopWhile (h.andThen (h.condition hs "CONDITION") ?_)) hend
    rintro b _ rfl
    cases b with
    | true => exact h.andThen (h.body hs "SUBSTACK") fun _ _ _ => h.done rfl
    | false => exact h.done rfl
  | endless =>
    exact h.andThen (h.loopWhile (h.andThen (h.body hs "SUBSTACK") fun _ _ _ => h.done rfl)) hend
  | branch =>
    refine h.andThen (h.condition hs "CONDITION") ?_
    rintro b _ rfl
    cases b with
    | true => exact h.andThen (h.body hs "SUBSTACK") hend
    | false => exact h.value rfl
  | choice =>
    refine h.andThen (h.condition hs "CONDITION") ?_
    rintro b _ rfl
    cases b with
    | true => exact h.andThen (h.body hs "SUBSTACK") hend
    | false => exact h.andThen (h.body hs "SUBSTACK2") hend
  | await =>
    refine h.andThen (h.loopWhile (h.andThen (h.condition hs "CONDITION") ?_)) hend
    rintro b _ rfl
    exact h.done rfl

theorem listIn (h : Coupled k counting Φ) (keep : Bool) (name : String) :
    Φ (fun a b => a = b.shift k) (Blocks.Data.listIn keep name)
      (Blocks.Data.listIn keep name) := by
  refine h.andThen (h.lookup name) ?_
  rintro _ w rfl
  rw [Value.isUndefined_shift]
  split
  · -- a variable that was never assigned has a new list on both sides
    have hnew := h.newList #[]
    rw [Sequence.shift, Array.map_empty] at hnew
    refine h.andThen hnew ?_
    rintro _ id rfl
    cases keep with
    | true => exact h.andThen (h.assign name (.list id)) fun _ _ _ => h.done rfl
    | false => exact h.done rfl
  · rw [Value.toList_shift]
    cases w.toList with
    | ok id => exact h.done rfl
    | error m => exact h.fail (.through ("LIST " ++ name) (.mismatch m))

theorem list (h : Coupled k counting Φ) (hs : s.Matches Φ k t) (keep : Bool) :
    Φ (fun a b => a = b.shift k) (Blocks.Data.list keep s) (Blocks.Data.list keep t) := by
  refine h.andThen (h.fieldText hs "LIST") ?_
  rintro name _ rfl
  exact h.listIn keep name

/-- A change that may be refused is refused on both sides or on none. -/
theorem revise (h : Coupled k counting Φ) (id : ListId)
    {f g : Sequence.Items → Option Sequence.Items}
    (hfg : ∀ xs, f (Sequence.shift k xs) = (g xs).map (Sequence.shift k)) :
    Φ Eq (Blocks.Data.revise (id.shift k) f) (Blocks.Data.revise id g) := by
  refine h.updateList id fun xs => ?_
  rw [hfg]
  cases g xs <;> rfl

theorem data (h : Coupled k counting Φ) (hs : s.Matches Φ k t) (d : Blocks.Data) :
    Φ (Value.Shifted k) (d.perform s) (d.perform t) := by
  have hend : ∀ (b c : Unit), b = c →
      Φ (Value.Shifted k) (Run.done .undefined) (Run.done .undefined) :=
    fun _ _ _ => h.value rfl
  -- names, numbers and texts are equal on both sides, values and lists are shifted
  cases d with
  | «variable» => exact h.fieldVariable hs "VARIABLE"
  | set =>
    refine h.andThen (h.fieldText hs "VARIABLE") ?_
    rintro name _ rfl
    refine h.andThen (h.evaluate hs "VALUE") ?_
    rintro _ w rfl
    exact h.andThen (h.assign name w) hend
  | change =>
    refine h.andThen (h.fieldText hs "VARIABLE") ?_
    rintro name _ rfl
    refine h.andThen (h.lookup name) ?_
    rintro _ w rfl
    rw [Value.toNumber_shift]
    cases w.toNumber with
    | error m => exact h.fail (.through ("VARIABLE " ++ name) (.mismatch m))
    | ok base =>
      refine h.andThen (h.number hs "VALUE") ?_
      rintro delta _ rfl
      exact h.andThen (h.assign name (.number (base.add delta))) hend
  | showVariable =>
    refine h.andThen (h.fieldText hs "VARIABLE") ?_
    rintro name _ rfl
    exact h.andThen (h.showVariable s t name) hend
  | hideVariable =>
    refine h.andThen (h.fieldText hs "VARIABLE") ?_
    rintro name _ rfl
    exact h.andThen (h.hideVariable hs name) hend
  | showList =>
    refine h.andThen (h.fieldText hs "LIST") ?_
    rintro name _ rfl
    exact h.andThen (h.showVariable s t name) hend
  | hideList =>
    refine h.andThen (h.fieldText hs "LIST") ?_
    rintro name _ rfl
    exact h.andThen (h.hideVariable hs name) hend
  -- the text that shows a list does not tell its identity
  | contents =>
    refine h.andThen (h.list hs false) ?_
    rintro _ id rfl
    exact h.andThen (h.display (.list id)) fun _ _ htext => h.value (congrArg Value.text htext)
  | item =>
    refine h.andThen (h.list hs false) ?_
    rintro _ id rfl
    refine h.andThen (h.index hs "INDEX") ?_
    rintro i _ rfl
    refine h.andThen (h.itemsOf id) ?_
    rintro _ xs rfl
    exact h.value (Sequence.itemAt_shift k xs i)
  | length =>
    refine h.andThen (h.list hs false) ?_
    rintro _ id rfl
    refine h.andThen (h.itemsOf id) ?_
    rintro _ xs rfl
    rw [Array.size_map]
    exact h.value rfl
  | position =>
    refine h.andThen (h.list hs false) ?_
    rintro _ id rfl
    refine h.andThen (h.evaluate hs "ITEM") ?_
    rintro _ w rfl
    refine h.andThen (h.itemsOf id) ?_
    rintro _ xs rfl
    -- a shifted item is searched for in shifted items
    rw [Sequence.indexOf_shift]
    exact h.value rfl
  -- the writing blocks apply one change to both lists, which then still differ by the shift
  | add =>
    refine h.andThen (h.list hs true) ?_
    rintro _ id rfl
    refine h.andThen (h.evaluate hs "ITEM") ?_
    rintro _ w rfl
    exact h.andThen (h.updateList id fun xs => Array.map_push.symm) hend
  | clear =>
    refine h.andThen (h.list hs true) ?_
    rintro _ id rfl
    exact h.andThen (h.updateList id fun xs => Array.map_empty.symm) hend
  | delete =>
    refine h.andThen (h.list hs true) ?_
    rintro _ id rfl
    refine h.andThen (h.index hs "INDEX") ?_
    rintro i _ rfl
    exact h.andThen (h.revise id fun xs => Sequence.deleteAt?_shift k xs i) hend
  | insert =>
    refine h.andThen (h.list hs true) ?_
    rintro _ id rfl
    refine h.andThen (h.index hs "INDEX") ?_
    rintro i _ rfl
    refine h.andThen (h.evaluate hs "ITEM") ?_
    rintro _ w rfl
    exact h.andThen (h.revise id fun xs => Sequence.insertAt?_shift k xs i w) hend
  | replace =>
    refine h.andThen (h.list hs true) ?_
    rintro _ id rfl
    refine h.andThen (h.index hs "INDEX") ?_
    rintro i _ rfl
    refine h.andThen (h.evaluate hs "ITEM") ?_
    rintro _ w rfl
    exact h.andThen (h.revise id fun xs => Sequence.replaceAt?_shift k xs i w) hend
  | contains =>
    refine h.andThen (h.list hs false) ?_
    rintro _ id rfl
    refine h.andThen (h.evaluate hs "ITEM") ?_
    rintro _ w rfl
    refine h.andThen (h.itemsOf id) ?_
    rintro _ xs rfl
    rw [Sequence.indexOf?_shift]
    exact h.value rfl

theorem arithmetic (h : Coupled k counting Φ) (hs : s.Matches Φ k t)
    (f : Binary64 → Binary64 → Binary64) :
    Φ (Value.Shifted k) (Blocks.Operator.arithmetic s f) (Blocks.Operator.arithmetic t f) := by
  refine h.andThen (h.number hs "NUM1") ?_
  rintro a _ rfl
  refine h.andThen (h.number hs "NUM2") ?_
  rintro b _ rfl
  exact h.value rfl

theorem comparison (h : Coupled k counting Φ) (hs : s.Matches Φ k t)
    (test : Ordering → Bool) :
    Φ (Value.Shifted k) (Blocks.Operator.comparison s test)
      (Blocks.Operator.comparison t test) := by
  refine h.andThen (h.evaluate hs "OPERAND1") ?_
  rintro _ v rfl
  refine h.andThen (h.evaluate hs "OPERAND2") ?_
  rintro _ w rfl
  refine h.andThen h.state fun a b hab => ?_
  rw [hab.store.compare_shift]
  exact h.value rfl

theorem logic (h : Coupled k counting Φ) (hs : s.Matches Φ k t) (f : Bool → Bool → Bool) :
    Φ (Value.Shifted k) (Blocks.Operator.logic s f) (Blocks.Operator.logic t f) := by
  refine h.andThen (h.condition hs "OPERAND1") ?_
  rintro a _ rfl
  refine h.andThen (h.condition hs "OPERAND2") ?_
  rintro b _ rfl
  exact h.value rfl

theorem operator (h : Coupled k counting Φ) (hs : s.Matches Φ k t) (o : Blocks.Operator) :
    Φ (Value.Shifted k) (o.perform s) (o.perform t) := by
  -- no operator returns a list, so its results are equal
  cases o with
  | add | subtract | multiply | divide | modulo => exact h.arithmetic hs _
  | less => exact h.comparison hs (· == .lt)
  | greater => exact h.comparison hs (· == .gt)
  | both | either => exact h.logic hs _
  | equals =>
    refine h.andThen (h.evaluate hs "OPERAND1") ?_
    rintro _ v rfl
    refine h.andThen (h.evaluate hs "OPERAND2") ?_
    rintro _ w rfl
    -- lists are equal by their identities, which the shift keeps apart
    rw [Value.equal_shift]
    exact h.value rfl
  | negation =>
    refine h.andThen (h.condition hs "OPERAND") ?_
    rintro b _ rfl
    exact h.value rfl
  -- shown as texts the two operands are the same
  | join | contains =>
    refine h.andThen (h.evaluate hs "STRING1") ?_
    rintro _ v rfl
    refine h.andThen (h.evaluate hs "STRING2") ?_
    rintro _ w rfl
    refine h.andThen (h.display v) ?_
    rintro a _ rfl
    refine h.andThen (h.display w) ?_
    rintro b _ rfl
    exact h.value rfl
  | letter =>
    refine h.andThen (h.index hs "LETTER") ?_
    rintro i _ rfl
    refine h.andThen (h.evaluate hs "STRING") ?_
    rintro _ w rfl
    refine h.andThen (h.display w) ?_
    rintro text _ rfl
    exact h.value rfl
  | length =>
    refine h.andThen (h.evaluate hs "STRING") ?_
    rintro _ w rfl
    refine h.andThen (h.display w) ?_
    rintro text _ rfl
    exact h.value rfl
  | round =>
    refine h.andThen (h.number hs "NUM") ?_
    rintro n _ rfl
    exact h.value rfl
  | function =>
    refine h.andThen (h.fieldText hs "OPERATOR") ?_
    rintro name _ rfl
    cases Blocks.Operator.mathFunction? name with
    | none => exact h.fail (.unknownOperator name)
    | some f =>
      refine h.andThen (h.number hs "NUM") ?_
      rintro n _ rfl
      exact h.value rfl

theorem listValue (h : Coupled k counting Φ) (items : List Value) :
    Φ (Value.Shifted k) (Blocks.Probe.listValue (items.map (Value.shift k)))
      (Blocks.Probe.listValue items) := by
  have hnew := h.newList items.toArray
  unfold Sequence.shift at hnew
  rw [List.map_toArray] at hnew
  refine h.andThen hnew ?_
  rintro _ id rfl
  exact h.value rfl

/-- Texts hold no lists, so a list of them is the same on both sides. -/
theorem textList (h : Coupled k counting Φ) (texts : List String) :
    Φ (Value.Shifted k) (Blocks.Probe.listValue (texts.map .text))
      (Blocks.Probe.listValue (texts.map .text)) := by
  have hsame : (texts.map Value.text).map (Value.shift k) = texts.map .text := by
    rw [List.map_map]
    rfl
  have hlist := h.listValue (texts.map .text)
  rw [hsame] at hlist
  exact hlist

theorem nest (h : Coupled k counting Φ) (v : Value) (depth : Nat) :
    Φ (Value.Shifted k) (Blocks.Probe.nest (v.shift k) depth) (Blocks.Probe.nest v depth) := by
  induction depth with
  | zero => exact h.value rfl
  | succ depth ih =>
    refine h.andThen ih ?_
    rintro _ w rfl
    exact h.listValue [w]

theorem countUp (h : Coupled k counting Φ) (hc : counting) :
    Φ Eq (Blocks.Probe.countUp (α := α) (σ := σ)) Blocks.Probe.countUp :=
  h.andThen (h.count hc) fun _ _ _ => h.andThen h.state fun _ _ hst => h.done (hst.counter hc)

theorem probe (h : Coupled k counting Φ) (hs : s.Matches Φ k t) (p : Blocks.Probe)
    (hp : (Action.probe p).counts = true → counting) :
    Φ (Value.Shifted k) (p.perform s) (p.perform t) := by
  -- the fields of matching scopes have the same texts, so both sides take the same branch
  cases p with
  | slots =>
    dsimp only [Blocks.Probe.perform]
    rw [hs.slotNames]
    exact h.textList _
  | has =>
    dsimp only [Blocks.Probe.perform]
    rw [hs.textOf, isSome_eq_of_related (hs.value? _), isSome_eq_of_related (hs.statement? _),
      hs.field?]
    exact h.listValue [.truth _, .truth _, .truth _]
  | get =>
    dsimp only [Blocks.Probe.perform]
    rw [hs.textOf, hs.textOf]
    split
    · -- of a slot only what is written in it is shown, not what it does
      refine h.andThen (h.getValue hs _) ?_
      rintro ⟨content, x⟩ ⟨_, y⟩ ⟨rfl, -⟩
      cases content <;> exact h.value rfl
    · split
      · refine h.andThen (h.getStatement hs _) ?_
        rintro ⟨chain, x⟩ ⟨_, y⟩ ⟨rfl, -⟩
        exact h.value rfl
      · refine h.andThen (h.getField hs _) ?_
        rintro f _ rfl
        exact h.value rfl
  | value =>
    dsimp only [Blocks.Probe.perform]
    rw [hs.textOf]
    exact h.evaluate hs _
  | field =>
    dsimp only [Blocks.Probe.perform]
    rw [hs.textOf]
    exact h.fieldVariable hs _
  | execute =>
    dsimp only [Blocks.Probe.perform]
    rw [hs.textOf]
    exact h.execute hs _
  | info =>
    dsimp only [Blocks.Probe.perform]
    -- of the state it reads the depth and how many variables there are
    refine h.andThen h.state fun a b hab => ?_
    rw [hs.module, hs.function, hs.opcode, hs.id, hab.depth, hab.heap, Heap.size_shift]
    exact h.listValue [.text _, .text _, .text _, .text _, .number _, .number _, .text _]
  | fail =>
    dsimp only [Blocks.Probe.perform]
    rw [hs.textOf]
    exact h.fail (.raised _)
  | breakOff =>
    dsimp only [Blocks.Probe.perform]
    rw [hs.textOf]
    exact h.fail (.panicked _)
  | wrap =>
    dsimp only [Blocks.Probe.perform]
    rw [hs.textOf]
    exact h.through _ (h.execute hs _)
  | tryOut =>
    dsimp only [Blocks.Probe.perform]
    rw [hs.textOf]
    refine h.andThen (h.attempt (h.execute hs _)) ?_
    rintro _ _ (hvw | f)
    · exact h.value hvw
    · -- the text of the fault is what the block goes on with
      dsimp only
      rw [Fault.message_shift]
      exact h.value rfl
  | showVariable =>
    dsimp only [Blocks.Probe.perform]
    rw [hs.textOf]
    exact h.andThen (h.showVariable s t _) fun _ _ _ => h.value rfl
  | hideVariable =>
    dsimp only [Blocks.Probe.perform]
    rw [hs.textOf]
    exact h.andThen (h.hideVariable hs _) fun _ _ _ => h.value rfl
  | tick =>
    dsimp only [Blocks.Probe.perform]
    -- the counters agree only where counting blocks are compared at all
    refine h.andThen (h.countUp (hp rfl)) ?_
    rintro n _ rfl
    exact h.value rfl
  | limit =>
    dsimp only [Blocks.Probe.perform]
    refine h.andThen (h.countUp (hp rfl)) ?_
    rintro n _ rfl
    rw [hs.numberOf]
    split
    · exact h.andThen (R := Eq) (h.fail (.raised "limit reached")) fun _ _ _ => h.value rfl
    · exact h.value rfl
  | list =>
    dsimp only [Blocks.Probe.perform]
    rw [hs.textOf]
    split
    · exact h.listValue []
    · exact h.textList _
  | deep =>
    dsimp only [Blocks.Probe.perform]
    rw [hs.numberOf]
    exact h.nest (.text "x") _
  | typed =>
    dsimp only [Blocks.Probe.perform]
    rw [hs.textOf, hs.textOf]
    split
    · -- a text is not moved, and so neither is the mismatch that it gives
      have hsame := Value.toNumber_shift k (.text (Blocks.Probe.textOf t "TEXT"))
      rw [Value.shift] at hsame
      cases hnumber : (Value.text (Blocks.Probe.textOf t "TEXT")).toNumber with
      | ok n => exact h.value rfl
      | error m =>
        rw [hnumber] at hsame
        have hfail := h.fail (R := Value.Shifted k) (.mismatch m)
        rw [Fault.shift, ← Except.error.inj hsame] at hfail
        exact hfail
    all_goals exact h.value rfl

end Run.Coupled

/-- **Two scopes that match are treated alike by every action.** -/
theorem Action.perform_coupled {σ τ : Type}
    {Φ : {β γ : Type} → (β → γ → Prop) → Job σ β → Job τ γ → Prop} {k : Nat} {counting : Prop}
    (h : Run.Coupled k counting Φ) {s : Scope Action σ} {t : Scope Action τ}
    (hs : s.Matches Φ k t) (a : Action) (ha : a.counts = true → counting) :
    Φ (Value.Shifted k) (a.perform s) (a.perform t) := by
  cases a with
  | control c => exact h.control hs c
  | data d => exact h.data hs d
  | start => exact h.value rfl
  | operator o => exact h.operator hs o
  | print =>
    refine h.andThen (h.evaluate hs "MESSAGE") ?_
    rintro _ w rfl
    refine h.andThen (h.display w) ?_
    rintro text _ rfl
    exact h.andThen (h.emit _) fun _ _ _ => h.value rfl
  | probe p => exact h.probe hs p ha
  | answer text => exact h.value rfl

/-- A slot whose chain is run in a given way. -/
def Machine.slotWith {σ : Type} (run : Chain → Job σ Value) : Member → Slot Action σ
  | .expression name chain => .value name (.block chain) (run chain)
  | .literal name shadow => .value name (.shadow shadow) (.done (.text shadow.field.value))
  | .statement name chain => .statement name chain (run chain)
  | .field f => .field f

theorem Machine.slotOf_eq {σ : Type} (m : Member) :
    slotOf (σ := σ) m = slotWith execute m := by
  cases m <;> rfl

end Blockwork
