import Blockwork.Journal.Basic

/-!
# Journals as bytes

A journal is kept in a file as one CBOR item: an array of its runs and its rows, each of them an
array of fields.
-/

namespace Blockwork

open Cbor (Item)
open Text (Bytes)

namespace Journal

/-- A text as an item. -/
def textItem (s : String) : Item := .text [Text.encode s]

/-- The text of an item. -/
def itemText? (i : Item) : Option String := (Cbor.toText? i).bind id

/-- A run as an item. -/
def runItem (r : RunRecord) : Item :=
  .array [textItem r.id, textItem r.document, .unsigned r.started,
    (match r.finished with
      | some n => .unsigned n
      | none => .simple 22),
    .unsigned r.steps, textItem r.error]

/-- A row as an item. -/
def rowItem (r : Row) : Item :=
  .array [textItem r.run, .unsigned r.seq, textItem r.id, textItem r.opcode, textItem r.module,
    textItem r.function, .unsigned r.depth, .bytes r.result, .bytes r.heap]

/-- The run of an item. -/
def itemRun? : Item → Option RunRecord
  | .array [id, document, .unsigned started, finished, .unsigned steps, error] => do
    let finished ← match finished with
      | .unsigned n => some (some n)
      | .simple 22 => some none
      | _ => none
    return ⟨← itemText? id, ← itemText? document, started, finished, steps, ← itemText? error⟩
  | _ => none

/-- The row of an item. -/
def itemRow? : Item → Option Row
  | .array [run, .unsigned seq, id, opcode, module, function, .unsigned depth, .bytes result,
      .bytes heap] => do
    return ⟨← itemText? run, seq, ← itemText? id, ← itemText? opcode, ← itemText? module,
      ← itemText? function, depth, result, heap⟩
  | _ => none

/-- The bytes of a journal. -/
def encode (j : Journal) : Bytes :=
  (Item.array [.array (j.runs.map runItem), .array (j.rows.map rowItem)]).encode

/-- The journal that bytes record. -/
def decode? (bs : Bytes) : Option Journal := do
  match ← Item.decode? bs with
  | .array [.array runs, .array rows] => return ⟨← runs.mapM itemRun?, ← rows.mapM itemRow?⟩
  | _ => none

end Journal

end Blockwork
