import Blockwork.Command.Run
import Blockwork.Proofs.Program.Agreement
import Blockwork.Proofs.Xml.Names
import Blockwork.Proofs.Yaml.Filling

/-!
# Documents in YAML

A document that was read from XML is printed in YAML and read again. The tree that comes back is
alike: it differs at most in the order of attributes, and it is parsed to the same program or
refused with the same fault. Two things stand in the way. A text in a literal block loses a line break at
its beginning, and is refused when it begins with a tab (`losesStart`). And the reader of YAML nests
no deeper than 10000 collections, of which an element takes two.
-/

namespace Blockwork

open Yaml (losesStart)

/-! ### Labels -/

theorem Xml.IsLabel.kept {s : String} (h : Xml.IsLabel s) : losesStart s = false := by
  rw [losesStart, Bool.and_eq_false_iff, decide_eq_false_iff_not]
  refine .inl fun hstyle => ?_
  have hfeed := h.continues '\n' (Yaml.literal_of_style hstyle).1
  exact absurd hfeed (by decide)

theorem Xml.IsLabel.ne_merge {s : String} (h : Xml.IsLabel s) : s ≠ "<<" := by
  rintro rfl
  exact absurd (h.continues '<' (by decide)) (by decide)

namespace Node

mutual

/-- No value of an attribute and no text of the tree loses its beginning in YAML. -/
def keepsStarts : Node → Bool
  | .absent => true
  | .element _ attributes body children =>
    attributes.all (fun a => !losesStart a.2) && !losesStart body && allKeepStarts children

/-- So it is in all of the trees. -/
def allKeepStarts : List Node → Bool
  | [] => true
  | n :: rest => n.keepsStarts && allKeepStarts rest

end

theorem keepsStarts_of_mem {n : Node} {nodes : List Node} (h : allKeepStarts nodes = true)
    (hn : n ∈ nodes) : n.keepsStarts = true := by
  induction nodes with
  | nil => exact absurd hn List.not_mem_nil
  | cons m nodes ih =>
    obtain ⟨hm, hrest⟩ := Bool.and_eq_true_iff.1 h
    rcases List.mem_cons.1 hn with rfl | hn
    · exact hm
    · exact ih hrest hn

theorem Labelled.survives {n : Node} (h : n.Labelled) (hkept : n.keepsStarts = true) :
    n.Survives := by
  induction h with
  | @element tag attributes body children htag hattributes _ ih =>
    obtain ⟨⟨hvalues, hbody⟩, hchildren⟩ : ((∀ a ∈ attributes, losesStart a.2 = false) ∧
        losesStart body = false) ∧ allKeepStarts children = true := by
      simpa [keepsStarts] using hkept
    refine .element htag.kept (fun a ha => ?_) hattributes.differ (fun a ha => ?_) hbody
      fun n hn => ih n hn (keepsStarts_of_mem hchildren hn)
    · exact ⟨(hattributes.labels a ha).kept, hvalues a ha⟩
    · exact (hattributes.labels a ha).ne_merge

theorem Labelled.tag?_ne {n : Node} (h : n.Labelled) : n.tag? ≠ some "" := by
  cases h with
  | element htag => exact fun hempty => htag.ne_empty (Option.some.inj hempty)

/-! ### Attributes in order -/

theorem lookup?_eq_some_iff {attributes : List (String × String)}
    (h : (attributes.map (·.1)).Nodup) {name value : String} :
    lookup? attributes name = some value ↔ (name, value) ∈ attributes := by
  induction attributes with
  | nil => simp [lookup?]
  | cons a attributes ih =>
    obtain ⟨key, first⟩ := a
    obtain ⟨hfresh, hrest⟩ := List.nodup_cons.1 h
    have ih := ih hrest
    unfold lookup? at ih ⊢
    rw [List.find?_cons, List.mem_cons, Prod.mk.injEq]
    by_cases hkey : key = name
    · -- the name does not occur again
      subst hkey
      have hnone : (key, value) ∉ attributes := fun hmem =>
        hfresh (List.mem_map.2 ⟨_, hmem, rfl⟩)
      simp [hnone, eq_comm]
    · have hname : ¬name = key := fun heq => hkey heq.symm
      have hother : (key == name) = false := beq_false_of_ne hkey
      simp only [hother, ih, hname, false_and, false_or]

/-- Among different names, the order does not matter for the value under a name. -/
theorem lookup?_perm {attributes attributes' : List (String × String)}
    (h : attributes.Perm attributes') (hdiffer : (attributes.map (·.1)).Nodup) (name : String) :
    lookup? attributes name = lookup? attributes' name := by
  have hdiffer' : (attributes'.map (·.1)).Nodup := (h.map _).nodup_iff.1 hdiffer
  refine Option.ext fun value => ?_
  rw [lookup?_eq_some_iff hdiffer, lookup?_eq_some_iff hdiffer', h.mem_iff]

theorem alike_orderedAll {nodes : List Node} (h : ∀ n ∈ nodes, Alike n n.ordered) :
    List.Forall₂ Alike nodes (orderedAll nodes) := by
  induction nodes with
  | nil => exact .nil
  | cons n nodes ih =>
    exact .cons (h n List.mem_cons_self) (ih fun m hm => h m (List.mem_cons_of_mem n hm))

/-- Putting attributes in order does not change what they say. -/
theorem Survives.alike {n : Node} (h : n.Survives) : Alike n n.ordered := by
  induction h with
  | element _ _ hdiffer _ _ _ ih =>
    exact .element (lookup?_perm (List.mergeSort_perm _ _).symm hdiffer) (alike_orderedAll ih)

end Node

/-! ### Documents -/

/-- One path leads to an XML text, and another one to what printing it as YAML prints. -/
structure IsRendering (bs : Text.Bytes) (fs : Files) (path : String) (fs' : Files)
    (path' : String) : Prop where
  xml : Encoding.ofPath path = .xml
  content : fs.read path = .ok bs
  yaml : Encoding.ofPath path' = .yaml
  rendering : fs'.read path' = .ok (Text.encode (Command.printYaml fs path).1)

/-- Two documents are run alike: they have one program, or are refused with one fault, and without
a journal the commands print the same and end with the same error. -/
structure RunAlike (fs : Files) (path : String) (fs' : Files) (path' : String) (c : Config) :
    Prop where
  program : ∃ program : Except ParseError Document,
    Command.loadProgram fs c path = program.mapError (.program path) ∧
      Command.loadProgram fs' c path' = program.mapError (.program path')
  run : c.tracing = false → ∀ document, Command.loadProgram fs c path = .ok document → ∀ o,
    (Command.runDocument o fs' c path').1 = (Command.runDocument o fs c path).1 ∧
      (Command.runDocument o fs' c path').2.1 = (Command.runDocument o fs c path).2.1

theorem load_eq {fs : Files} {path : String} {bs : Text.Bytes} {encoding : Encoding} {root : Node}
    (hpath : Encoding.ofPath path = encoding) (hcontent : fs.read path = .ok bs)
    (hread : Node.read encoding bs = .ok root) : Node.load fs path = .ok root := by
  rw [Node.load, hcontent, hpath]
  simp only [Except.mapError, ok_bind, hread]

theorem loadProgram_eq {fs : Files} {path : String} {root : Node}
    (h : Node.load fs path = .ok root) (c : Config) :
    Command.loadProgram fs c path
      = (root.parse (c.entryTypes.getD [])).mapError (.program path) := by
  rw [Command.loadProgram, h]
  rfl

theorem printYaml_eq {fs : Files} {path : String} {root : Node} (h : Node.load fs path = .ok root) :
    (Command.printYaml fs path).1 = root.toYaml := by
  rw [Command.printYaml, h]

theorem IsRendering.runAlike {bs : Text.Bytes} {fs fs' : Files} {path path' : String}
    (h : IsRendering bs fs path fs' path') {root back : Node} (hread : Node.read .xml bs = .ok root)
    (hback : Node.read .yaml (Text.encode root.toYaml) = .ok back)
    (hparse : ∀ entryTypes, back.parse entryTypes = root.parse entryTypes) (c : Config) :
    RunAlike fs path fs' path' c := by
  have hload := load_eq h.xml h.content hread
  have hload' := load_eq h.yaml (printYaml_eq hload ▸ h.rendering) hback
  have hprogram := loadProgram_eq hload c
  have hprogram' := loadProgram_eq hload' c
  rw [hparse] at hprogram'
  refine ⟨⟨_, hprogram, hprogram'⟩, fun htracing document hdocument o => ?_⟩
  -- both files are read as the same document
  have hdocument' : Command.loadProgram fs' c path' = .ok document := by
    rw [hprogram] at hdocument
    rw [hprogram']
    cases hresult : root.parse (c.entryTypes.getD []) with
    | error e =>
      rw [hresult] at hdocument
      exact absurd hdocument nofun
    | ok document' =>
      rw [hresult] at hdocument
      exact hdocument
  -- runs look at the document and at nothing else of the file
  rw [Command.runDocument, Command.runDocument, hdocument, hdocument']
  simp only [htracing, Bool.false_eq_true, if_false]
  unfold Command.runPlain
  split
  · exact ⟨rfl, rfl⟩
  · exact ⟨rfl, rfl⟩

theorem read_xml_iff {bs : Text.Bytes} {root : Node} :
    Node.read .xml bs = .ok root ↔ Xml.read bs = .ok root := by
  unfold Node.read
  dsimp only
  cases Xml.read bs with
  | ok n => simp
  | error e => cases e <;> simp

theorem read_yaml_of_ok {bs : Text.Bytes} {root : Node} (h : Yaml.read bs = .ok root) :
    Node.read .yaml bs = .ok root := by
  unfold Node.read
  dsimp only
  rw [h]

/-- **Printing a document as YAML loses nothing**, as long as no value of an attribute and no text
loses its beginning and the elements nest no deeper than YAML is read. What is printed is read
again, as a tree with the same tags, the same values of attributes, the same texts and the same children;
it is parsed to the same program or refused with the same fault; and running it is running the
original document. -/
theorem toYaml_lossless {bs : Text.Bytes} {root : Node} (hread : Node.read .xml bs = .ok root)
    (hkept : root.keepsStarts = true) (hheight : root.height ≤ 5000) :
    ∃ back, Node.read .yaml (Text.encode root.toYaml) = .ok back ∧ root.Alike back ∧
      (∀ entryTypes, back.parse entryTypes = root.parse entryTypes) ∧
      ∀ fs path fs' path', IsRendering bs fs path fs' path' →
        ∀ c, RunAlike fs path fs' path' c := by
  have hlabelled := Xml.labelled_of_read (read_xml_iff.1 hread)
  have hsurvives := hlabelled.survives hkept
  have hdepth : 2 * root.height ≤ Yaml.Lexer.maxDepth := Nat.mul_le_mul_left 2 hheight
  have hback := read_yaml_of_ok (Yaml.read_toYaml hsurvives hlabelled.tag?_ne hdepth)
  have hparse : ∀ entryTypes, root.ordered.parse entryTypes = root.parse entryTypes :=
    fun entryTypes => (hsurvives.alike.parse entryTypes).symm
  exact ⟨root.ordered, hback, hsurvives.alike, hparse, fun fs path fs' path' hrendering =>
    hrendering.runAlike hread hback hparse⟩

/-- A document with a text that looks like a truth value and goes on to a second line. -/
def noteText : String :=
  "<xml><block type=\"console_log\" id=\"b\"><value name=\"message\">" ++
    "<shadow type=\"text\" id=\"s\"><field name=\"TEXT\">yes\n  no</field></shadow>" ++
    "</value></block></xml>"

/-- The document in both forms. -/
def noteFiles (root : Node) : Files :=
  ⟨[], [(["note.xml"], .file (Text.encode noteText)),
    (["note.yaml"], .file (Text.encode root.toYaml))]⟩

theorem exists_of_any_toOption {ε α : Type} {x : Except ε α} {p : α → Bool}
    (h : x.toOption.any p = true) : ∃ a, x = .ok a ∧ p a = true := by
  cases x with
  | error e => exact absurd h Bool.false_ne_true
  | ok a => exact ⟨a, rfl, h⟩

theorem toYaml_lossless_note : ∃ root, Node.read .xml (Text.encode noteText) = .ok root ∧
    root.keepsStarts = true ∧ root.height ≤ 5000 ∧
    IsRendering (Text.encode noteText) (noteFiles root) "note.xml" (noteFiles root) "note.yaml" ∧
    (∃ back, Node.read .yaml (Text.encode root.toYaml) = .ok back ∧ root.Alike back ∧
      ∀ entryTypes, back.parse entryTypes = root.parse entryTypes) ∧
    ∀ c, RunAlike (noteFiles root) "note.xml" (noteFiles root) "note.yaml" c := by
  have hfits : (Node.read .xml (Text.encode noteText)).toOption.any
      (fun root => root.keepsStarts && decide (root.height ≤ 5000)) = true := by decide +kernel
  obtain ⟨root, hread, hroot⟩ := exists_of_any_toOption hfits
  obtain ⟨hkept, hheight⟩ : root.keepsStarts = true ∧ root.height ≤ 5000 := by
    simpa only [Bool.and_eq_true, decide_eq_true_eq] using hroot
  have hxml : Encoding.ofPath "note.xml" = .xml := by decide +kernel
  have hyaml : Encoding.ofPath "note.yaml" = .yaml := by decide +kernel
  have hcontent : (noteFiles root).read "note.xml" = .ok (Text.encode noteText) := rfl
  have hrendering : IsRendering (Text.encode noteText) (noteFiles root) "note.xml" (noteFiles root)
      "note.yaml" := by
    refine ⟨hxml, hcontent, hyaml, ?_⟩
    rw [printYaml_eq (load_eq hxml hcontent hread)]
    rfl
  obtain ⟨back, hback, halike, hparse, hrun⟩ := toYaml_lossless hread hkept hheight
  exact ⟨root, hread, hkept, hheight, hrendering, ⟨back, hback, halike, hparse⟩,
    hrun _ _ _ _ hrendering⟩

/-- **A line break at the beginning of a text is lost**: the literal block that the text is written
in has no line of its own for it. -/
theorem toYaml_loses_line_break : ∃ root back,
    Node.read .xml (Text.encode "<xml>\nfoo</xml>") = .ok root ∧
      Node.read .yaml (Text.encode root.toYaml) = .ok back ∧ root.body = "\nfoo" ∧
      back.body = "foo" := by
  have hread : Node.read .xml (Text.encode "<xml>\nfoo</xml>")
      = .ok (.element "xml" [] "\nfoo" []) := by rfl
  have hwritten : (Node.read .yaml
      (Text.encode (Node.element "xml" [] "\nfoo" []).toYaml)).toOption.any
        (fun back => back.body == "foo") = true := by decide +kernel
  obtain ⟨back, hback, hbody⟩ := exists_of_any_toOption hwritten
  exact ⟨_, back, hread, hback, rfl, eq_of_beq hbody⟩

end Blockwork
