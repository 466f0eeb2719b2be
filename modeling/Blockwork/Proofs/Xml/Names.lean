import Blockwork.Markup.Xml.Tree

/-!
# The names in a tree that was read

Names are checked where they are read, and the builder only moves them. So the elements of a tree
that was read carry labels made of name characters, and the attributes of an element have different
labels: one that is written twice is set twice.
-/

namespace Blockwork.Xml

/-- A part of a name. -/
structure IsLabel (s : String) : Prop where
  ne_empty : s ≠ ""
  continues : ∀ c ∈ s.toList, continuesName c = true

/-! ### Names that are read -/

theorem continues_of_isName {cs : List Char} (h : isName cs = true) :
    cs ≠ [] ∧ ∀ c ∈ cs, continuesName c = true := by
  cases cs with
  | nil => exact absurd h Bool.false_ne_true
  | cons c cs =>
    obtain ⟨hfirst, hrest⟩ := Bool.and_eq_true_iff.1 h
    refine ⟨List.cons_ne_nil c cs, fun x hx => ?_⟩
    rcases List.mem_cons.1 hx with rfl | hx
    · rw [continuesName, hfirst, Bool.true_or]
    · exact List.all_eq_true.1 hrest x hx

theorem isLabel_ofList {cs : List Char} (hne : cs ≠ []) (h : ∀ c ∈ cs, continuesName c = true) :
    IsLabel (String.ofList cs) where
  ne_empty hempty := hne (by simpa using congrArg String.toList hempty)
  continues := by rwa [String.toList_ofList]

theorem isLabel_of_split {cs : List Char} (h : isName cs = true) {name : Name}
    (hsplit : Name.split? cs = some name) : IsLabel name.label := by
  obtain ⟨hne, hcs⟩ := continues_of_isName h
  unfold Name.split? at hsplit
  dsimp only at hsplit
  split at hsplit
  · exact absurd hsplit (by simp)
  · split at hsplit
    · obtain rfl := Option.some.inj hsplit
      exact isLabel_ofList hne hcs
    · rename_i hparts
      obtain rfl := Option.some.inj hsplit
      have hrest : (cs.dropWhile (· != ':')).drop 1 ≠ [] := by
        intro hempty
        simp [hempty] at hparts
      refine isLabel_ofList hrest fun c hc => hcs c ?_
      exact (List.dropWhile_sublist _).subset (List.mem_of_mem_drop hc)

/-! ### Results -/

/-- Whatever is read has a property. -/
def Yields {α : Type} (P : α → Prop) (x : Except Fault α) : Prop := ∀ a, x = .ok a → P a

namespace Yields

variable {α β : Type} {P : α → Prop} {Q : β → Prop}

theorem ok {a : α} (h : P a) : Yields P (.ok a) := by
  rintro _ ⟨⟩
  exact h

theorem broken (b : Breach) : Yields P (broken b) := nofun

theorem any (x : Except Fault α) : Yields (fun _ => True) x := fun _ _ => trivial

theorem bind {x : Except Fault α} {f : α → Except Fault β} (hx : Yields P x)
    (hf : ∀ a, P a → Yields Q (f a)) : Yields Q (x >>= f) := by
  intro b hb
  cases x with
  | error e => exact absurd hb nofun
  | ok a => exact hf a (hx a rfl) b hb

theorem map {x : Except Fault α} {f : α → β} (h : ∀ a, Q (f a)) : Yields Q (x.map f) := by
  intro b hb
  cases x with
  | error e => exact absurd hb nofun
  | ok a =>
    obtain rfl := Except.ok.inj hb
    exact h a

end Yields

/-! ### Tokens -/

theorem yields_takeName (missing : Breach) (bs : Text.Bytes) :
    Yields (fun r => isName r.1 = true) (takeName missing bs) := by
  unfold takeName
  dsimp only
  split
  · exact .broken _
  · split
    · exact .broken _
    · split
      · exact .broken _
      · split
        · split
          · rename_i hname
            exact .ok hname
          · exact .broken _
        · exact .broken _

theorem yields_takeSplitName (missing : Breach) (bs : Text.Bytes) :
    Yields (fun r => IsLabel r.1.label) (takeSplitName missing bs) := by
  refine (yields_takeName missing bs).bind fun r hr => ?_
  dsimp only
  split
  · rename_i hsplit
    exact .ok (isLabel_of_split hr hsplit)
  · exact .broken _

theorem yields_takeAttributes (fuel : Nat) {read : List (Name × String)}
    (h : ∀ a ∈ read, IsLabel a.1.label) (bs : Text.Bytes) :
    Yields (fun r => ∀ a ∈ r.1.2, IsLabel a.1.label) (takeAttributes fuel read bs) := by
  induction fuel generalizing read bs with
  | zero => exact .broken _
  | succ fuel ih =>
    rw [takeAttributes]
    split
    · exact .broken _
    · -- a slash is followed by the end of the tag
      split
      · exact .broken _
      · split
        · exact .ok h
        · exact .broken _
    · exact .ok h
    · -- one attribute more, whose name was checked
      refine (yields_takeSplitName _ _).bind fun r hr => ?_
      dsimp only
      split
      · exact .broken _
      · split
        · exact .broken _
        · split
          · exact .broken _
          · split
            · exact .broken _
            · refine (Yields.any _).bind fun data _ => ih (fun a ha => ?_) _
              rcases List.mem_cons.1 ha with rfl | ha
              · exact hr
              · exact h a ha

/-- The names in a token are checked. -/
def Token.Checked : Token → Prop
  | .start name attributes => IsLabel name.label ∧ ∀ a ∈ attributes, IsLabel a.1.label
  | .stop _ => True
  | .text _ => True
  | .other => True

theorem yields_takeMarkup (bs : Text.Bytes) :
    Yields (fun r => ∀ t ∈ r.1, t.Checked) (takeMarkup bs) := by
  have hone {t : Token} (ht : t.Checked) : ∀ t' ∈ [t], t'.Checked := fun t' ht' =>
    List.mem_singleton.1 ht' ▸ ht
  unfold takeMarkup
  split
  · exact .broken _
  · -- an end tag
    refine (Yields.any _).bind fun r _ => ?_
    dsimp only
    split
    · exact .broken _
    · split
      · exact .ok (hone trivial)
      · exact .broken _
  · -- an instruction
    refine (Yields.any _).bind fun r _ => (Yields.any _).bind fun r' _ => ?_
    dsimp only
    split
    · exact (Yields.any _).bind fun _ _ => .ok (hone trivial)
    · exact .ok (hone trivial)
  · -- a comment, a section or a declaration
    split
    · exact .broken _
    · split
      · exact .broken _
      · split
        · exact .broken _
        · exact .map fun _ => hone trivial
    · split
      · exact (Yields.any _).bind fun r _ => .ok (hone trivial)
      · exact .broken _
    · exact .map fun _ => hone trivial
  · -- a start tag
    refine (yields_takeSplitName _ _).bind fun r hr => ?_
    have hnone : ∀ a ∈ ([] : List (Name × String)), IsLabel a.1.label := nofun
    refine (yields_takeAttributes _ hnone _).bind fun r' hr' => ?_
    have hstart : (Token.start r.1 r'.1.2.reverse).Checked :=
      ⟨hr, fun a ha => hr' a (List.mem_reverse.1 ha)⟩
    refine .ok fun t ht => ?_
    dsimp only at ht
    split at ht
    · rcases List.mem_cons.1 ht with rfl | ht
      · exact hstart
      · obtain rfl := List.mem_singleton.1 ht
        exact trivial
    · exact hone hstart t ht

theorem yields_takeTokens (bs : Text.Bytes) :
    Yields (fun r => ∀ t ∈ r.1, t.Checked) (takeTokens bs) := by
  unfold takeTokens
  split
  · exact yields_takeMarkup _
  · refine (Yields.any _).bind fun r _ => .ok fun t ht => ?_
    obtain rfl := List.mem_singleton.1 ht
    exact trivial

theorem tokensWithin_cons (rounds : Nat) (b : UInt8) (bs : Text.Bytes) :
    tokensWithin (rounds + 1) (b :: bs)
      = match takeTokens (b :: bs) with
        | .error e => ⟨[], some e⟩
        | .ok (ts, rest) =>
          let more := tokensWithin rounds rest
          ⟨ts ++ more.list, more.fault⟩ := rfl

theorem checked_tokensWithin (rounds : Nat) (bs : Text.Bytes) :
    ∀ t ∈ (tokensWithin rounds bs).list, t.Checked := by
  induction rounds generalizing bs with
  | zero => exact fun _ ht => absurd ht List.not_mem_nil
  | succ rounds ih =>
    cases bs with
    | nil => exact fun _ ht => absurd ht List.not_mem_nil
    | cons b bs =>
      intro t ht
      rw [tokensWithin_cons] at ht
      cases htake : takeTokens (b :: bs) with
      | error e =>
        rw [htake] at ht
        exact absurd ht List.not_mem_nil
      | ok r =>
        rw [htake] at ht
        rcases List.mem_append.1 ht with ht | ht
        · exact yields_takeTokens (b :: bs) r htake t ht
        · exact ih r.2 t ht

/-! ### Attributes -/

/-- Attributes with different labels for names. -/
structure AreLabels (attributes : List (String × String)) : Prop where
  labels : ∀ a ∈ attributes, IsLabel a.1
  differ : (attributes.map (·.1)).Nodup

theorem AreLabels.setAttribute {attributes : List (String × String)} (h : AreLabels attributes)
    {name : String} (hname : IsLabel name) (value : String) :
    AreLabels (Node.setAttribute attributes name value) := by
  unfold Node.setAttribute
  by_cases hany : attributes.any (·.1 == name) = true
  · -- the name is there: the names stay as they are
    have hkeeps : (attributes.map fun a => if (a.1 == name) = true then (name, value) else a).map
        (·.1) = attributes.map (·.1) := by
      rw [List.map_map]
      refine List.map_congr_left fun a _ => ?_
      by_cases ha : (a.1 == name) = true
      · simp only [Function.comp_apply, if_pos ha]
        exact (eq_of_beq ha).symm
      · simp only [Function.comp_apply, if_neg ha]
    rw [if_pos hany]
    refine ⟨fun a ha => ?_, by rw [hkeeps]; exact h.differ⟩
    obtain ⟨b, hb, rfl⟩ := List.mem_map.1 ha
    split
    · exact hname
    · exact h.labels b hb
  · rw [if_neg hany]
    refine ⟨fun a ha => ?_, ?_⟩
    · rcases List.mem_append.1 ha with ha | ha
      · exact h.labels a ha
      · obtain rfl := List.mem_singleton.1 ha
        exact hname
    · rw [List.map_append, List.nodup_append]
      refine ⟨h.differ, List.pairwise_singleton _ name, fun x hx y hy heq => hany ?_⟩
      obtain ⟨a, ha, rfl⟩ := List.mem_map.1 hx
      obtain rfl := List.mem_singleton.1 hy
      exact List.any_eq_true.2 ⟨a, ha, beq_iff_eq.2 heq⟩

theorem areLabels_attributesOf {pairs : List (String × String)} (h : ∀ a ∈ pairs, IsLabel a.1) :
    AreLabels (Node.attributesOf pairs) := by
  have hall : ∀ attributes, AreLabels attributes →
      AreLabels (pairs.foldl (fun acc a => Node.setAttribute acc a.1 a.2)
        attributes) := by
    induction pairs with
    | nil => exact fun _ h => h
    | cons a pairs ih =>
      intro attributes hattributes
      exact ih (fun b hb => h b (List.mem_cons_of_mem a hb)) _
        (hattributes.setAttribute (h a List.mem_cons_self) a.2)
  exact hall [] ⟨fun a ha => absurd ha List.not_mem_nil, List.nodup_nil⟩

end Blockwork.Xml

namespace Blockwork.Node

/-- A tree of elements with labels for names; no two attributes of an element have one name. -/
inductive Labelled : Node → Prop
  | element {tag : String} {attributes : List (String × String)} {body : String}
      {children : List Node} (tag_label : Xml.IsLabel tag)
      (attribute_labels : Xml.AreLabels attributes)
      (children_labelled : ∀ n ∈ children, Labelled n) :
      Labelled (.element tag attributes body children)

end Blockwork.Node

namespace Blockwork.Xml

/-! ### Building -/

/-- The names in an open element are labels. -/
structure Frame.Labelled (f : Frame) : Prop where
  tag : IsLabel f.name.label
  attributes : AreLabels f.attributes
  children : ∀ n ∈ f.children, n.Labelled

theorem Frame.Labelled.close {f : Frame} (h : f.Labelled) : f.close.Labelled :=
  .element h.tag h.attributes fun n hn => h.children n (List.mem_reverse.1 hn)

theorem labelled_start {name : Name} {attributes : List (Name × String)}
    (h : (Token.start name attributes).Checked) : (Frame.start name attributes).Labelled where
  tag := h.1
  attributes := areLabels_attributesOf fun a ha => by
    obtain ⟨b, hb, rfl⟩ := List.mem_map.1 ha
    exact h.2 b hb
  children := nofun

/-- The names in all that has been built are labels. -/
structure Builder.Labelled (b : Builder) : Prop where
  stack : ∀ f ∈ b.stack, f.Labelled
  root : ∀ n, b.root = some n → n.Labelled

theorem labelled_empty : Builder.empty.Labelled := ⟨nofun, nofun⟩

/-- **Taking one token in** keeps the names. -/
theorem Builder.Labelled.accept {b : Builder} (h : b.Labelled) {t : Token} (ht : t.Checked) :
    Yields Builder.Labelled (b.accept t) := by
  obtain ⟨stack, root⟩ := b
  cases t with
  | other => exact .ok h
  | text s =>
    cases stack with
    | nil => exact .ok h
    | cons f rest =>
      obtain ⟨hf, hrest⟩ := List.forall_mem_cons.1 h.stack
      exact .ok ⟨List.forall_mem_cons.2 ⟨⟨hf.tag, hf.attributes, hf.children⟩, hrest⟩, h.root⟩
  | start name attributes =>
    -- an element is opened unless it would be a second root
    have hopened : Yields Builder.Labelled
        (.ok ⟨Frame.start name attributes :: stack, root⟩) :=
      .ok ⟨List.forall_mem_cons.2 ⟨labelled_start ht, h.stack⟩, h.root⟩
    rw [Builder.accept]
    split
    · exact nofun
    · exact hopened
  | stop name =>
    rw [Builder.accept]
    cases stack with
    | nil => exact nofun
    | cons f rest =>
      obtain ⟨hf, hrest⟩ := List.forall_mem_cons.1 h.stack
      dsimp only
      split
      · -- the element closes, and its parent has one child more
        cases rest with
        | nil => exact .ok ⟨nofun, fun n hn => Option.some.inj hn ▸ hf.close⟩
        | cons parent outer =>
          obtain ⟨hparent, houter⟩ := List.forall_mem_cons.1 hrest
          have hchildren := List.forall_mem_cons.2 ⟨hf.close, hparent.children⟩
          exact .ok ⟨List.forall_mem_cons.2
            ⟨⟨hparent.tag, hparent.attributes, hchildren⟩, houter⟩, h.root⟩
      · exact nofun

/-- **Taking tokens in**, one after the other. -/
theorem Builder.Labelled.acceptAll {b : Builder} (h : b.Labelled) {ts : List Token}
    (hts : ∀ t ∈ ts, t.Checked) : Yields Builder.Labelled (b.acceptAll ts) := by
  induction ts generalizing b with
  | nil => exact .ok h
  | cons t ts ih =>
    obtain ⟨ht, hts⟩ := List.forall_mem_cons.1 hts
    rw [Builder.acceptAll]
    cases haccept : b.accept t with
    | error e => exact nofun
    | ok b' => exact ih (h.accept ht b' haccept) hts

/-- **The names in a tree that was read are labels.** -/
theorem labelled_of_read {bs : Text.Bytes} {root : Node} (h : Xml.read bs = .ok root) :
    root.Labelled := by
  unfold Xml.read build at h
  cases hbuilt : Builder.empty.acceptAll (tokens bs).list with
  | error e =>
    rw [hbuilt] at h
    exact absurd h nofun
  | ok b =>
    have hb := labelled_empty.acceptAll (checked_tokensWithin _ bs) b hbuilt
    rw [hbuilt] at h
    dsimp only at h
    split at h
    · exact absurd h nofun
    · split at h
      · split at h
        · -- the root of the builder is the tree
          rename_i hroot
          obtain rfl := Except.ok.inj h
          exact hb.root _ hroot
        · exact absurd h nofun
      · exact absurd h nofun

end Blockwork.Xml
