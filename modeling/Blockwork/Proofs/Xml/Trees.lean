import Blockwork.Markup.Xml.Tree
import Blockwork.Proofs.Program.Agreement
import Mathlib.Data.List.Induction

/-!
# The tokens of a tree

A stream of tokens **lists** nodes (`Lists`) if it holds them in document order: the start tag of an
element, what lists its children, with its character data in any pieces between them, and the end
tag. Comments, instructions and declarations may stand anywhere. A document is a stream that lists
one node; the character data around it belongs to nothing.

What lists nodes adds them to the innermost open element, with the character data between them, and
leaves the other open elements as they are (`acceptAll_of_lists`). So the tree that is built is the
tree that is listed (`build_of_lists`); and nothing but what lists a tree is built to one
(`lists_of_build`).
-/

namespace Blockwork.Xml

/-! ### Listings -/

/-- The last value that attributes give under a label. -/
def lastValue? (given : List (Name × String)) (label : String) : Option String :=
  (given.reverse.find? (·.1.label == label)).map (·.2)

/-- Character data read as the body of an element: it is the body, unless it is all blank. -/
inductive ReadsAs (text : String) : String → Prop
  | visible (h : Text.isAllBlank text = false) : ReadsAs text text
  | blank (h : Text.isAllBlank text = true) : ReadsAs text ""

/-- **A stream of tokens lists nodes**, with a text in pieces around them. -/
inductive Lists : List Node → String → List Token → Prop
  | nil : Lists [] "" []
  | piece {nodes : List Node} {text : String} {ts : List Token} (s : String)
      (rest : Lists nodes text ts) : Lists nodes (s ++ text) (.text s :: ts)
  | other {nodes : List Node} {text : String} {ts : List Token}
      (rest : Lists nodes text ts) : Lists nodes text (.other :: ts)
  | element {given : List (Name × String)} {attributes : List (String × String)}
      {data body : String} {children : List Node} {inner : List Token}
      {nodes : List Node} {text : String} {ts : List Token} (name : Name)
      (values : ∀ label, Node.lookup? attributes label = lastValue? given label)
      (content : Lists children data inner) (reads : ReadsAs data body)
      (rest : Lists nodes text ts) :
      Lists (.element name.label attributes body children :: nodes) text
        (.start name given :: (inner ++ .stop name :: ts))

theorem ReadsAs.visibleText_eq {text body : String} (h : ReadsAs text body) :
    Node.visibleText text = body := by
  cases h with
  | visible h => rw [Node.visibleText, h, if_neg Bool.false_ne_true]
  | blank h => rw [Node.visibleText, h, if_pos rfl]

theorem readsAs_visibleText (text : String) : ReadsAs text (Node.visibleText text) := by
  rw [Node.visibleText]
  cases h : Text.isAllBlank text with
  | false => exact .visible h
  | true => exact .blank h

/-! ### Attributes -/

theorem lookup?_setAttribute (attributes : List (String × String)) (name value label : String) :
    Node.lookup? (Node.setAttribute attributes name value) label =
      if name = label then some value else Node.lookup? attributes label := by
  unfold Node.setAttribute
  by_cases hany : attributes.any (·.1 == name) = true
  · -- the name is there: no name changes, so the same attribute is found
    have hsame : ((fun a : String × String => a.1 == label) ∘
        fun a => if (a.1 == name) = true then (name, value) else a) = fun a => a.1 == label := by
      funext a
      by_cases ha : (a.1 == name) = true
      · rw [Function.comp_apply, if_pos ha, eq_of_beq ha]
      · rw [Function.comp_apply, if_neg ha]
    rw [if_pos hany, Node.lookup?, List.find?_map, hsame, Node.lookup?]
    cases hfound : attributes.find? fun a => a.1 == label with
    | none =>
      have hother : name ≠ label := by
        rintro rfl
        obtain ⟨a, ha, hname⟩ := List.any_eq_true.1 hany
        exact List.find?_eq_none.1 hfound a ha hname
      rw [if_neg hother]
      rfl
    | some a =>
      have hlabel := List.find?_some hfound
      have ha : a.1 = label := eq_of_beq hlabel
      by_cases hname : name = label
      · simp [ha, hname]
      · simp [ha, hname, Ne.symm hname]
  · -- the name is new: the attribute comes last, and is not hidden by an earlier one
    rw [if_neg hany, Node.lookup?, List.find?_append]
    by_cases hname : name = label
    · subst hname
      have hnone : attributes.find? (·.1 == name) = none :=
        List.find?_eq_none.2 fun a ha h => hany (List.any_eq_true.2 ⟨a, ha, h⟩)
      rw [if_pos rfl, hnone]
      simp
    · rw [if_neg hname, Node.lookup?]
      simp [hname]

/-- The last value that is given for a label is the one that stays. -/
theorem lookup?_start (name : Name) (given : List (Name × String)) (label : String) :
    Node.lookup? (Frame.start name given).attributes label = lastValue? given label := by
  induction given using List.reverseRecOn with
  | nil => rfl
  | append_singleton given a ih =>
    have hset : (Frame.start name (given ++ [a])).attributes =
        Node.setAttribute (Frame.start name given).attributes a.1.label a.2 := by
      simp [Frame.start, Node.attributesOf]
    rw [hset, lookup?_setAttribute, ih, lastValue?, lastValue?, List.reverse_concat,
      List.find?_cons]
    by_cases ha : a.1.label = label
    · rw [if_pos ha, beq_iff_eq.2 ha]
      rfl
    · rw [if_neg ha, beq_false_of_ne ha]

/-! ### What a listing does to an open element -/

/-- An open element with more character data and more children. -/
def Frame.extended (f : Frame) (text : String) (nodes : List Node) : Frame :=
  { f with body := f.body ++ text, children := nodes.reverse ++ f.children }

namespace Builder

theorem acceptAll_append {b b' : Builder} {ts : List Token} (h : b.acceptAll ts = .ok b')
    (ts' : List Token) : b.acceptAll (ts ++ ts') = b'.acceptAll ts' := by
  induction ts generalizing b with
  | nil =>
    obtain rfl := Except.ok.inj h
    rfl
  | cons t ts ih =>
    rw [List.cons_append, acceptAll]
    rw [acceptAll] at h
    cases hb : b.accept t with
    | error e =>
      rw [hb] at h
      exact absurd h nofun
    | ok next =>
      rw [hb] at h
      exact ih h

/-- An element inside an open one, from its start tag to its end tag. -/
theorem acceptAll_element {name : Name} {given : List (Name × String)} {data : String}
    {inside : List Node} {inner ts : List Token} {f : Frame} {outer : List Frame}
    {root : Option Node}
    (hopen : acceptAll ⟨.start name given :: f :: outer, root⟩ inner =
      .ok ⟨(Frame.start name given).extended data inside :: f :: outer, root⟩) :
    acceptAll ⟨f :: outer, root⟩ (.start name given :: (inner ++ .stop name :: ts)) =
      acceptAll ⟨f.extended "" [((Frame.start name given).extended data inside).close] :: outer,
        root⟩ ts := by
  rw [acceptAll]
  show acceptAll ⟨.start name given :: f :: outer, root⟩ (inner ++ .stop name :: ts) = _
  rw [acceptAll_append hopen, acceptAll]
  simp [accept, Frame.extended, Frame.start]

end Builder

@[simp] theorem Frame.extended_nil (f : Frame) : f.extended "" [] = f := by
  rw [Frame.extended, String.append_empty]
  rfl

theorem Frame.extended_extended (f : Frame) (text text' : String) (nodes nodes' : List Node) :
    (f.extended text nodes).extended text' nodes' =
      f.extended (text ++ text') (nodes ++ nodes') := by
  simp [Frame.extended, String.append_assoc]

variable {nodes : List Node} {text : String} {ts : List Token}

/-- What an element has been given when it closes is the element that is listed. -/
theorem alike_close {name : Name} {given : List (Name × String)}
    {attributes : List (String × String)} {data body : String} {children inside : List Node}
    (values : ∀ label, Node.lookup? attributes label = lastValue? given label)
    (reads : ReadsAs data body) (hinside : List.Forall₂ Node.Alike inside children) :
    Node.Alike ((Frame.start name given).extended data inside).close
      (.element name.label attributes body children) := by
  have hclose : ((Frame.start name given).extended data inside).close =
      .element name.label (Frame.start name given).attributes body inside := by
    simp [Frame.close, Frame.extended, Frame.start, reads.visibleText_eq]
  rw [hclose]
  exact .element (fun label => by rw [lookup?_start, values]) hinside

/-- **A listing goes into the innermost open element.** The nodes become children of it, up to the
order of their attributes, and the text becomes part of its body. -/
theorem acceptAll_of_lists (h : Lists nodes text ts) (f : Frame) (outer : List Frame)
    (root : Option Node) : ∃ built, List.Forall₂ Node.Alike built nodes ∧
      Builder.acceptAll ⟨f :: outer, root⟩ ts = .ok ⟨f.extended text built :: outer, root⟩ := by
  induction h generalizing f outer with
  | nil => exact ⟨[], .nil, by rw [Frame.extended_nil]; rfl⟩
  | @piece nodes text ts s _ ih =>
    obtain ⟨built, halike, hrun⟩ := ih (f.extended s []) outer
    refine ⟨built, halike, ?_⟩
    rw [Frame.extended_extended, List.nil_append] at hrun
    exact hrun
  | other _ ih => exact ih f outer
  | @element given attributes data body children inner nodes text ts name values _ reads _
      ihContent ihRest =>
    obtain ⟨inside, hinside, hopen⟩ := ihContent (.start name given) (f :: outer)
    -- the element closes and becomes a child of the open one
    have hclosed : Node.Alike ((Frame.start name given).extended data inside).close
        (.element name.label attributes body children) :=
      alike_close values reads hinside
    obtain ⟨built, halike, hrun⟩ := ihRest
      (f.extended "" [((Frame.start name given).extended data inside).close]) outer
    refine ⟨_ :: built, .cons hclosed halike, ?_⟩
    rw [Frame.extended_extended, String.empty_append, List.singleton_append] at hrun
    rw [← hrun]
    exact Builder.acceptAll_element hopen

/-! ### Documents -/

/-- Outside of the root there is nothing that data could belong to. -/
theorem acceptAll_of_lists_nil (h : Lists [] text ts) (root : Option Node) :
    Builder.acceptAll ⟨[], root⟩ ts = .ok ⟨[], root⟩ := by
  generalize hnodes : ([] : List Node) = nodes at h
  induction h with
  | nil => rfl
  | piece _ _ ih => exact ih hnodes
  | other _ ih => exact ih hnodes
  | element => exact absurd hnodes nofun

/-- **A document is closed when its tree is.** -/
theorem acceptAll_of_lists_singleton {root : Node} (h : Lists [root] text ts) :
    ∃ tree : Node, tree.Alike root ∧ Builder.empty.acceptAll ts = .ok ⟨[], some tree⟩ := by
  generalize hnodes : [root] = nodes at h
  induction h with
  | nil => exact absurd hnodes nofun
  | piece _ _ ih => exact ih hnodes
  | other _ ih => exact ih hnodes
  | @element given attributes data body children inner nodes text ts name values content reads
      hrest _ _ =>
    obtain ⟨rfl, rfl⟩ := List.cons.inj hnodes
    obtain ⟨inside, hinside, hopen⟩ := acceptAll_of_lists content (.start name given) [] none
    refine ⟨_, alike_close values reads hinside, ?_⟩
    rw [Builder.acceptAll]
    show Builder.acceptAll ⟨[.start name given], none⟩ (inner ++ .stop name :: ts) = _
    rw [Builder.acceptAll_append hopen, Builder.acceptAll]
    simp only [Builder.accept, Frame.extended, Frame.start, if_true]
    rw [acceptAll_of_lists_nil hrest]

/-- The tree that is built is the tree that is listed, up to the order of attributes. -/
theorem build_of_lists {root : Node} (h : Lists [root] text ts) :
    ∃ tree : Node, build ⟨ts, none⟩ = .ok tree ∧ tree.Alike root := by
  obtain ⟨tree, halike, hrun⟩ := acceptAll_of_lists_singleton h
  exact ⟨tree, by rw [build, hrun]; rfl, halike⟩

/-- After the root has closed no element may start, whatever comes then. -/
theorem build_secondRoot {root : Node} (h : Lists [root] text ts) (name : Name)
    (given : List (Name × String)) (rest : List Token) (fault : Option Fault) :
    build ⟨ts ++ .start name given :: rest, fault⟩ = .error (.secondRoot name.label) := by
  obtain ⟨tree, -, hrun⟩ := acceptAll_of_lists_singleton h
  rw [build, Builder.acceptAll_append hrun]
  rfl

/-- Tokens outside of any element list nothing. -/
theorem exists_lists_nil (h : ∀ t ∈ ts, t = .other ∨ ∃ s, t = .text s) :
    ∃ text, Lists [] text ts := by
  induction ts with
  | nil => exact ⟨"", .nil⟩
  | cons t ts ih =>
    obtain ⟨text, hrest⟩ := ih fun t ht => h t (List.mem_cons_of_mem _ ht)
    obtain rfl | ⟨s, rfl⟩ := h t List.mem_cons_self
    · exact ⟨text, .other hrest⟩
    · exact ⟨s ++ text, .piece s hrest⟩

/-- A stream without an element has no root. -/
theorem build_noRoot (h : ∀ t ∈ ts, t = .other ∨ ∃ s, t = .text s) :
    build ⟨ts, none⟩ = .error .noRoot := by
  obtain ⟨text, hlists⟩ := exists_lists_nil h
  rw [build, Builder.empty, acceptAll_of_lists_nil hlists]
  rfl

/-- **The tree of a stream is the tree that the stream lists**, with the values of its attributes,
its texts and its children as they are listed; one that is given a value twice has the last. No
second tree may start after it, and a stream that holds no tags has no tree. -/
theorem listed_tree_is_built :
    (∀ (root : Node) (text : String) (ts : List Token), Lists [root] text ts →
      (∃ tree : Node, build ⟨ts, none⟩ = .ok tree ∧ tree.Alike root) ∧
      ∀ (name : Name) (given : List (Name × String)) (rest : List Token) (fault : Option Fault),
        build ⟨ts ++ .start name given :: rest, fault⟩ = .error (.secondRoot name.label)) ∧
    ∀ ts : List Token, (∀ t ∈ ts, t = .other ∨ ∃ s, t = .text s) →
      build ⟨ts, none⟩ = .error .noRoot :=
  ⟨fun _ _ _ h => ⟨build_of_lists h, build_secondRoot h⟩, fun _ h => build_noRoot h⟩

/-- A document with line breaks, a comment, an attribute that is given twice and a text in two
pieces. -/
def indented : List Token :=
  [.other, .text "\n", .start ⟨"", "xml"⟩ [(⟨"a", "id"⟩, "1"), (⟨"b", "id"⟩, "2")],
    .text "\n  ", .start ⟨"", "field"⟩ [], .text " o", .other, .text "n", .stop ⟨"", "field"⟩,
    .other, .text "\n", .stop ⟨"", "xml"⟩, .text "\n"]

theorem lists_indented : ∃ text,
    Lists [.element "xml" [("id", "2")] "" [.element "field" [] " on" []]] text indented := by
  have hreads : ReadsAs (" o" ++ ("n" ++ "")) " on" := by
    rw [show " o" ++ ("n" ++ "") = " on" by decide]
    exact .visible (by decide)
  have hvalues : ∀ label, Node.lookup? [("id", "2")] label =
      lastValue? [(⟨"a", "id"⟩, "1"), (⟨"b", "id"⟩, "2")] label := by
    intro label
    rw [Node.lookup?, lastValue?]
    by_cases h : ("id" == label) = true
    · simp [h]
    · simp [h]
  have hfield : Lists [.element "field" [] " on" []] ("\n  " ++ ("\n" ++ ""))
      [.text "\n  ", .start ⟨"", "field"⟩ [], .text " o", .other, .text "n",
        .stop ⟨"", "field"⟩, .other, .text "\n"] :=
    .piece "\n  " (.element ⟨"", "field"⟩ (fun _ => rfl) (.piece " o" (.other (.piece "n" .nil)))
      hreads (.other (.piece "\n" .nil)))
  exact ⟨_, .other (.piece "\n" (.element ⟨"", "xml"⟩ hvalues hfield (.blank (by decide))
    (.piece "\n" .nil)))⟩

theorem indented_tree_is_built :
    (∃ tree : Node, build ⟨indented, none⟩ = .ok tree ∧
      tree.Alike (.element "xml" [("id", "2")] "" [.element "field" [] " on" []])) ∧
    build ⟨indented ++ [.start ⟨"", "xml"⟩ []], none⟩ = .error (.secondRoot "xml") ∧
    build ⟨[.other, .text "\n"], none⟩ = .error .noRoot := by
  obtain ⟨text, hlists⟩ := lists_indented
  obtain ⟨htree, hsecond⟩ := listed_tree_is_built.1 _ text _ hlists
  exact ⟨htree, hsecond ⟨"", "xml"⟩ [] [] none,
    listed_tree_is_built.2 [.other, .text "\n"] (by simp)⟩

/-! ### Nothing else is built -/

theorem Lists.append {nodes' : List Node} {text' : String} {ts' : List Token}
    (h : Lists nodes text ts) (h' : Lists nodes' text' ts') :
    Lists (nodes ++ nodes') (text ++ text') (ts ++ ts') := by
  induction h with
  | nil => rwa [String.empty_append]
  | piece s _ ih =>
    rw [String.append_assoc]
    exact .piece s ih
  | other _ ih => exact .other ih
  | element name values content reads _ _ ih =>
    rw [List.cons_append, List.cons_append, List.append_assoc, List.cons_append]
    exact .element name values content reads ih

theorem Lists.addText (h : Lists nodes text ts) (s : String) :
    Lists nodes (text ++ s) (ts ++ [.text s]) := by
  simpa using h.append (.piece s .nil)

theorem Lists.skip (h : Lists nodes text ts) : Lists nodes text (ts ++ [.other]) := by
  simpa using h.append (.other .nil)

/-- What a builder has taken in: a part of each open element, the outermost first, or a whole
tree. -/
inductive Spans : Builder → List Token → Prop
  | fresh {text : String} {ts : List Token} (nothing : Lists [] text ts) : Spans ⟨[], none⟩ ts
  | closed {tree : Node} {text : String} {ts : List Token} (whole : Lists [tree] text ts) :
      Spans ⟨[], some tree⟩ ts
  | inside {f : Frame} {outer : List Frame} {given : List (Name × String)}
      {before content : List Token} (around : Spans ⟨outer, none⟩ before)
      (values : ∀ label, Node.lookup? f.attributes label = lastValue? given label)
      (part : Lists f.children.reverse f.body content) :
      Spans ⟨f :: outer, none⟩ (before ++ .start f.name given :: content)

/-- An element that closes is listed, and its parent goes on. -/
theorem Spans.close {f : Frame} {outer : List Frame} {root : Option Node}
    (h : Spans ⟨f :: outer, root⟩ ts) {b : Builder}
    (hb : Builder.accept ⟨f :: outer, root⟩ (.stop f.name) = .ok b) :
    Spans b (ts ++ [.stop f.name]) := by
  cases h with
  | @inside _ _ given before content around values part =>
    -- what was open is now a whole element
    have helement : Lists [f.close] "" (.start f.name given :: (content ++ [.stop f.name])) :=
      .element f.name values part (readsAs_visibleText f.body) .nil
    rw [Builder.accept] at hb
    dsimp only at hb
    rw [if_pos rfl] at hb
    rw [List.append_assoc, List.cons_append]
    cases around with
    | fresh nothing =>
      obtain rfl := Except.ok.inj hb
      exact .closed (by simpa using nothing.append helement)
    | @inside parent outer given' before' content' around' values' part' =>
      obtain rfl := Except.ok.inj hb
      rw [List.append_assoc, List.cons_append]
      refine .inside around' values' ?_
      simpa using part'.append helement

/-- **One token more.** -/
theorem Spans.accept {b b' : Builder} (h : Spans b ts) {t : Token} (hb : b.accept t = .ok b') :
    Spans b' (ts ++ [t]) := by
  cases t with
  | start name given =>
    -- an element that begins has no content yet
    have hopen : ∀ stack, Spans ⟨stack, none⟩ ts →
        Spans ⟨.start name given :: stack, none⟩ (ts ++ [.start name given]) :=
      fun stack hstack => .inside hstack (lookup?_start name given) .nil
    cases h with
    | fresh nothing =>
      obtain rfl := Except.ok.inj hb
      exact hopen [] (.fresh nothing)
    | closed => exact absurd hb nofun
    | inside around values part =>
      obtain rfl := Except.ok.inj hb
      exact hopen _ (.inside around values part)
  | stop name =>
    obtain ⟨stack, root⟩ := b
    cases stack with
    | nil => exact absurd hb nofun
    | cons f outer =>
      -- an end tag closes the innermost element only
      by_cases hname : f.name = name
      · subst hname
        exact h.close hb
      · rw [Builder.accept] at hb
        dsimp only at hb
        rw [if_neg hname] at hb
        exact absurd hb nofun
  | text s =>
    cases h with
    | fresh nothing =>
      obtain rfl := Except.ok.inj hb
      exact .fresh (nothing.addText s)
    | closed whole =>
      obtain rfl := Except.ok.inj hb
      exact .closed (whole.addText s)
    | inside around values part =>
      obtain rfl := Except.ok.inj hb
      rw [List.append_assoc, List.cons_append]
      exact .inside around values (part.addText s)
  -- all other tokens leave no trace in the tree
  | other =>
    obtain rfl := Except.ok.inj hb
    cases h with
    | fresh nothing => exact .fresh nothing.skip
    | closed whole => exact .closed whole.skip
    | inside around values part =>
      rw [List.append_assoc, List.cons_append]
      exact .inside around values part.skip

theorem Spans.acceptAll {b b' : Builder} (h : Spans b ts) {ts' : List Token}
    (hb : b.acceptAll ts' = .ok b') : Spans b' (ts ++ ts') := by
  induction ts' generalizing b ts with
  | nil =>
    obtain rfl := Except.ok.inj hb
    rwa [List.append_nil]
  | cons t ts' ih =>
    rw [Builder.acceptAll] at hb
    cases ht : b.accept t with
    | error e =>
      rw [ht] at hb
      exact absurd hb nofun
    | ok next =>
      rw [ht] at hb
      rw [List.append_cons]
      exact ih (h.accept ht) hb

/-- A tree is built from nothing but what lists it. -/
theorem lists_of_build {tree : Node} (h : build ⟨ts, none⟩ = .ok tree) :
    ∃ text, Lists [tree] text ts := by
  rw [build] at h
  cases hrun : Builder.empty.acceptAll ts with
  | error e =>
    rw [hrun] at h
    exact absurd h nofun
  | ok b =>
    rw [hrun] at h
    have hspans : Spans b ts := Spans.acceptAll (.fresh .nil) hrun
    cases hspans with
    | fresh => exact absurd h nofun
    | closed whole =>
      obtain rfl := Except.ok.inj h
      exact ⟨_, whole⟩
    | inside => exact absurd h nofun

end Blockwork.Xml
