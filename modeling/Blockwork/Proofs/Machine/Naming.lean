import Blockwork.Proofs.Machine.Attribution
import Blockwork.Proofs.Machine.Unknown
import Blockwork.Proofs.Program.Grammar
import Blockwork.Proofs.Text.Folding

/-!
# Variables that are named by a text

A variable element without a name attribute declares its text, and a field refers to a variable by
its text. One would expect a field to find the variable that is written with the same text. But the
two are not read alike: a field keeps its text as it is written, and the variable is declared under
the text without the blanks at its ends. So the field finds it just if there are no such blanks, or
if another element declares the text by its name attribute (`Machine.text_found_iff_trimmed`). In a
run of `spacious` the field finds nothing.
-/

namespace Blockwork

namespace Node

/-! ### What a document declares -/

/-- The nodes with a tag. -/
def withTag (tag : String) (nodes : List Node) : List Node := nodes.filter (·.tag? == some tag)

/-- The variable elements of a document. -/
def variableElements (root : Node) : List Node :=
  (withTag "variables" root.children).flatMap fun v => withTag "variable" v.children

/-- The name that a variable element declares. -/
def declaredName : Node → String
  | .absent => ""
  | .element _ attributes body _ => variableName attributes body

theorem withTag_cons_of_eq {n : Node} {tag : String} (h : n.tag? = some tag) (nodes : List Node) :
    withTag tag (n :: nodes) = n :: withTag tag nodes :=
  List.filter_cons_of_pos (by simp [h])

theorem withTag_cons_of_ne {n : Node} {tag : String} (h : n.tag? ≠ some tag) (nodes : List Node) :
    withTag tag (n :: nodes) = withTag tag nodes :=
  List.filter_cons_of_neg (by simpa using h)

theorem names_toVariables {nodes : List Node} {vars : List Variable}
    (h : toVariables nodes = .ok vars) :
    vars.map (·.name) = (withTag "variable" nodes).map declaredName := by
  induction nodes generalizing vars with
  | nil =>
    obtain rfl := Except.ok.inj h
    rfl
  | cons n nodes ih =>
    cases n with
    | absent => cases h
    | element tag attributes body inner =>
      rw [toVariables] at h
      by_cases htag : tag = "variable"
      · rw [if_pos (by simp [htag])] at h
        -- a nameless variable would have been refused
        split at h
        · cases h
        · cases hrest : toVariables nodes with
          | error e =>
            rw [hrest] at h
            cases h
          | ok rest =>
            rw [hrest] at h
            obtain rfl := Except.ok.inj h
            rw [withTag_cons_of_eq (by rw [tag?, htag]), List.map_cons, List.map_cons, ih hrest]
            rfl
      · rw [if_neg (by simp [htag])] at h
        rw [withTag_cons_of_ne (by simpa [tag?] using htag), ih h]

theorem names_declared {nodes : List Node} {vars : List Variable} (h : declared nodes = .ok vars) :
    vars.map (·.name) = ((withTag "variables" nodes).flatMap fun v =>
      withTag "variable" v.children).map declaredName := by
  induction nodes generalizing vars with
  | nil =>
    obtain rfl := Except.ok.inj h
    rfl
  | cons n nodes ih =>
    cases n with
    | absent => cases h
    | element tag attributes body inner =>
      rw [declared] at h
      by_cases htag : tag = "variables"
      · rw [if_pos htag] at h
        -- the variables of this element come before those of the later ones
        cases hvars : toVariables inner with
        | error e =>
          rw [hvars] at h
          cases h
        | ok first =>
          rw [hvars, ok_bind] at h
          cases hrest : declared nodes with
          | error e =>
            rw [hrest] at h
            cases h
          | ok rest =>
            rw [hrest] at h
            obtain rfl := Except.ok.inj h
            rw [withTag_cons_of_eq (by rw [tag?, htag]), List.flatMap_cons, List.map_append,
              List.map_append, ih hrest, names_toVariables hvars]
            rfl
      · rw [if_neg htag] at h
        rw [withTag_cons_of_ne (by simpa [tag?] using htag), ih h]

/-- **The names of a document** are those that its variable elements declare, in order. -/
theorem names_parse {entryTypes : List String} {root : Node} {doc : Document}
    (h : root.parse entryTypes = .ok doc) :
    doc.declarations.map (·.name) = (variableElements root).map declaredName :=
  names_declared (parse_eq_ok h).1

/-! ### Texts that name variables -/

/-- A field keeps its text, unless it is all blank. -/
theorem value_of_parseMember {n : Node} (htag : n.tag? = some "field") {m : Member}
    (h : (parseMember n).outcome = .ok m) : ∃ f, m = .field f ∧ f.value = visibleText n.body := by
  cases n with
  | absent => cases htag
  | element tag attributes body inner =>
    obtain rfl := Option.some.inj htag
    by_cases hname : attr attributes "name" = ""
    · rw [parseMember, if_pos hname] at h
      cases h
    · rw [parseMember_field body inner hname] at h
      obtain rfl := Except.ok.inj h
      exact ⟨toField attributes body, rfl, rfl⟩

/-- A variable element declares its name attribute if it has one. -/
theorem declaredName_of_attr {c : Node} (h : c.attrOf "name" ≠ "") :
    c.declaredName = c.attrOf "name" := by
  cases c with
  | absent => exact absurd rfl h
  | element tag attributes body inner => exact if_neg h

/-- Otherwise it declares its text without the blanks at the ends. -/
theorem declaredName_of_text {c : Node} (h : c.attrOf "name" = "") :
    c.declaredName = Text.trim (visibleText c.body) := by
  cases c with
  | absent => rfl
  | element tag attributes body inner => exact if_pos h

/-- **A text is declared** if an element with the text has no blanks at the ends of it, or if there
is one with the text as its name attribute. -/
theorem exists_declaredName_iff {root c : Node} (hc : c ∈ variableElements root)
    (hnameless : c.attrOf "name" = "") (htext : Text.isAllBlank c.body = false) :
    (∃ d ∈ variableElements root, d.declaredName = c.body) ↔
      Text.trim c.body = c.body ∨ ∃ d ∈ variableElements root, d.attrOf "name" = c.body := by
  have hvisible : visibleText c.body = c.body := if_neg (by simp [htext])
  constructor
  · rintro ⟨d, hd, hname⟩
    by_cases hattr : d.attrOf "name" = ""
    · -- what is declared by a text is trimmed
      rw [declaredName_of_text hattr] at hname
      rw [← hname, Text.trim_trim]
      exact .inl rfl
    · rw [declaredName_of_attr hattr] at hname
      exact .inr ⟨d, hd, hname⟩
  · rintro (htrim | ⟨d, hd, hname⟩)
    · exact ⟨c, hc, by rw [declaredName_of_text hnameless, hvisible, htrim]⟩
    · have hattr : d.attrOf "name" ≠ "" := by
        rw [hname]
        rintro hempty
        rw [hempty] at htext
        exact absurd htext (by decide)
      exact ⟨d, hd, by rw [declaredName_of_attr hattr, hname]⟩

end Node

namespace Machine

variable {σ : Type}

/-- **A text finds the variable that it declares just if it has no blanks at its ends**, or if
another element declares it by its name attribute. -/
theorem text_found_iff_trimmed {entryTypes : List String} {root : Node} {doc : Document}
    (h : root.parse entryTypes = .ok doc) {c : Node} (hc : c ∈ Node.variableElements root)
    (hnameless : c.attrOf "name" = "") {text : String} (hbody : c.body = text)
    (htext : Text.isAllBlank text = false) {m : Machine σ} (hm : m.Reached doc) :
    (∃ v ∈ doc.declarations, v.name = Text.trim text) ∧
    (∀ n member, n.tag? = some "field" → n.body = text →
      (Node.parseMember n).outcome = .ok member → ∃ f, member = .field f ∧ f.value = text) ∧
    ((∃ v ∈ doc.declarations, v.name = text) ↔
      Text.trim text = text ∨ ∃ d ∈ Node.variableElements root, d.attrOf "name" = text) ∧
    ((∃ v ∈ doc.declarations, v.name = text) →
      (∀ f, m.run.1 = .fault f → f.unknown? ≠ some text) ∧
      ∀ s : State Action σ, s.heap.names = m.state.heap.names →
        (∃ v, Run.lookup text m.setup s = (.value v, s)) ∧
        (∀ v, ∃ heap, Run.assign text v m.setup s = (.value (), { s with heap := heap })) ∧
        ∀ b f s', executeBlock b m.setup s = (.fault f, s') → f.unknown? ≠ some text) ∧
    ((¬ ∃ v ∈ doc.declarations, v.name = text) →
      ∀ s : State Action σ, s.heap.names = m.state.heap.names →
        Run.lookup text m.setup s = (.fault (.unknownVariable text), s) ∧
        ∀ v, Run.assign text v m.setup s = (.fault (.unknownVariable text), s)) := by
  subst hbody
  have hvisible : Node.visibleText c.body = c.body := if_neg (by simp [htext])
  -- what is declared are the names of the variable elements
  have hdeclared : ∀ name, (∃ v ∈ doc.declarations, v.name = name) ↔
      ∃ d ∈ Node.variableElements root, d.declaredName = name := by
    intro name
    rw [← List.mem_map, Node.names_parse h, List.mem_map]
  refine ⟨?_, fun n member htag hbody hmember => ?_, ?_, fun hfound => ⟨fun f hf => ?_, ?_⟩, ?_⟩
  · rw [hdeclared]
    exact ⟨c, hc, by rw [Node.declaredName_of_text hnameless, hvisible]⟩
  · obtain ⟨f, rfl, hvalue⟩ := Node.value_of_parseMember htag hmember
    exact ⟨f, rfl, by rw [hvalue, hbody, hvisible]⟩
  · rw [hdeclared]
    exact Node.exists_declaredName_iff hc hnameless htext
  · -- a declared name is unknown nowhere in the run
    have hrun : (program doc m.setup m.state).1 = .fault f := by
      rw [← hm.document_eq]
      exact hf
    exact finds_program doc m.setup m.state hrun hfound
  · intro s hs
    -- whether a name is found is a matter of the names in the heap alone
    have hmem : c.body ∈ s.heap.names := hs ▸ hm.mem_names_iff.2 hfound
    refine ⟨?_, fun v => ⟨_, by rw [Run.assign_apply, Heap.exists_set?_of_mem hmem]⟩,
      fun b f s' hf => hm.finds hfound (finds_executeBlock b) hs (congrArg Prod.fst hf)⟩
    obtain ⟨v, hv⟩ := Option.isSome_iff_exists.1 (Heap.isSome_get?_iff.2 hmem)
    exact ⟨v, by rw [Run.lookup_apply, hv]⟩
  · intro hmissing s hs
    have hmem : c.body ∉ s.heap.names := by
      rw [hs, hm.mem_names_iff]
      exact hmissing
    exact ⟨Blocks.Data.lookup_undeclared hmem m.setup,
      fun v => Blocks.Data.assign_undeclared hmem v m.setup⟩

/-- A document that declares a variable by a text and reads the variable that the same text names. -/
def readingTree (text : String) : Node :=
  .element "xml" [] "" [
    .element "variables" [] "" [.element "variable" [("id", "v")] text []],
    .element "block" [("type", "data_variable"), ("id", "a")] ""
      [.element "field" [("name", "VARIABLE")] text []]]

/-- The block that reads it. -/
def readingBlock (text : String) : Block :=
  .mk "data_variable" "a" [.field ⟨"VARIABLE", "", text, ""⟩]

/-- The program with a name for what is declared and a text for what is read. -/
def reading (name text : String) : Document :=
  ⟨[⟨name, "", "v", false, false⟩], [readingBlock text], []⟩

/-- A machine for it that has only the data module. -/
def readingMachine (name text : String) : Machine Unit :=
  create (reading name text) ⟨.silent, limitOf 0, 10⟩ [("data", Blocks.dataTable)] ()

/-- A name with a blank inside is found. -/
theorem text_found_inner_blank :
    (∃ v ∈ (reading "a b" "a b").declarations, v.name = "a b") ∧
    ∀ f, (readingMachine "a b" "a b").run.1 = .fault f → f.unknown? ≠ some "a b" := by
  have hparse : (readingTree "a b").parse [] = .ok (reading "a b" "a b") := rfl
  have hreached : (readingMachine "a b" "a b").Reached (reading "a b" "a b") := ⟨_, _, _, [], rfl⟩
  have hdeclared : ∃ v ∈ (reading "a b" "a b").declarations, v.name = "a b" :=
    ⟨_, List.mem_cons_self, rfl⟩
  obtain ⟨-, -, -, hfound, -⟩ := text_found_iff_trimmed hparse
    (c := .element "variable" [("id", "v")] "a b" []) List.mem_cons_self rfl rfl (by decide) hreached
  exact ⟨hdeclared, (hfound hdeclared).1⟩

/-- A block that reads a variable which is not declared fails. -/
theorem run_reading {name text : String} (h : name ≠ text) :
    (readingMachine name text).run.1 =
      .fault (.execution "data" "variable" "a" (.unknownVariable text)) := by
  -- sorting is not unfolded by evaluation, so the registry and the route are computed first
  let s : State Action Unit := { (readingMachine name text).started with depth := 1 }
  have hregistry : s.registry = ⟨[("data", Blocks.dataTable)], ["data"], []⟩ :=
    registry_create_singleton (reading name text) (readingMachine name text).setup "data"
      Blocks.dataTable ()
  have hresolve : (s.registry.resolve (readingBlock text).opcode).1
      = .ok ⟨"data_variable", "data", "variable", .data .variable⟩ := by
    simp [hregistry, readingBlock, Block.opcode, Registry.resolve, Registry.route,
      Registry.functionOf?, Registry.dropLead?, Registry.module?, Table.find?, Blocks.dataTable,
      Blocks.tableOf, Blocks.Data.functions]
  have hmissing : text ∉ (afterRouting s (readingBlock text).opcode).heap.names := by
    show text ∉ (Heap.ofVariables (reading name text).declarations).names
    rw [Heap.names_ofVariables, List.mem_eraseDups]
    simpa [reading] using h.symm
  have hblock : executeBlock (readingBlock text) (readingMachine name text).setup s
      = (.fault (.execution "data" "variable" "a" (.unknownVariable text)),
          afterRouting s (readingBlock text).opcode) := by
    rw [executeBlock_apply, hresolve]
    exact handled_fault_iff.2 ⟨_, Blocks.Data.lookup_undeclared hmissing _, rfl⟩
  have hlimit : (readingMachine name text).started.depth < (readingMachine name text).setup.limit :=
    limitOf_pos 0
  exact congrArg Prod.fst (execute_of_fault [] hlimit hblock)

/-- **A text with a blank in front is not found.** -/
theorem spaced_text_not_found : ∃ doc c, (readingTree " x").parse [] = .ok doc ∧
    c ∈ Node.variableElements (readingTree " x") ∧ c.attrOf "name" = "" ∧ c.body = " x" ∧
    Text.isAllBlank " x" = false ∧
    (∃ b ∈ doc.entry.blocks, b.opcode = "data_variable" ∧
      .field ⟨"VARIABLE", "", " x", ""⟩ ∈ b.members) ∧
    ∃ m : Machine Unit, m.Reached doc ∧
      m.run.1 = .fault (.execution "data" "variable" "a" (.unknownVariable " x")) := by
  refine ⟨reading "x" " x", .element "variable" [("id", "v")] " x" [], rfl, List.mem_cons_self,
    rfl, rfl, by decide, ⟨readingBlock " x", ?_, rfl, List.mem_cons_self⟩,
    readingMachine "x" " x", ⟨_, _, _, [], rfl⟩, run_reading (by decide)⟩
  exact Chain.mem_blocks_cons.2 (.inl rfl)

end Machine

end Blockwork
