import Blockwork.Command.Run
import Blockwork.Journal.Identifier
import Blockwork.Number.Calendar
import Std.Time.DateTime.Timestamp

/-!
# The program

The command line around `Command.run`: it looks at the files that the command reads, carries the
command out, writes back what changed, and prints the report.
-/

namespace Blockwork.CommandLine

open Text (Bytes)

/-- Bytes as a list. -/
def listOfBytes (bs : ByteArray) : Bytes := bs.toList

/-- A list as bytes. -/
def bytesOfList (bs : Bytes) : ByteArray := ⟨bs.toArray⟩

/-- What stands at a path, `none` for nothing. -/
def lookAt (path : String) : IO (Option Entry) := do
  try
    let content := listOfBytes (← IO.FS.readBinFile path)
    return some (match Journal.decode? content with
      | some j => .journal j
      | none => .file content)
  catch
    | .noFileOrDirectory .. => return none
    | .inappropriateType .. => return some .directory
    | e => throw e

/-- Enters what stands on the way to a path, up to the first that is no directory. -/
def enterPath (fs : Files) (path : String) : IO Files := do
  let first := if Path.isAbsolute path then "/" else fs.here.text ++ "/"
  let parts := Path.parts path
  let mut fs := fs
  for k in [1 : parts.length + 1] do
    let path := first ++ "/".intercalate (parts.take k)
    match ← lookAt path with
    | some .directory => fs := fs.add (fs.placeOf path) .directory
    | some e => return fs.add (fs.placeOf path) e
    | none => return fs
  return fs

/-- Enters what the command reads. The journal is known once the configuration is. -/
def enterAll (fs : Files) (args : List String) : IO Files := do
  match Arguments.parse args with
  | .error _ => return fs
  | .ok a =>
    let fs ← (Command.sources fs a).foldlM enterPath fs
    match Command.configured fs a with
    | .error _ => return fs
    | .ok c =>
      let c := Command.adjusted fs a c
      [c.logPath, c.journalPath].foldlM enterPath fs

/-- Writes what the command changed. -/
def writeBack (before after : Files) : IO Unit := do
  for (place, entry) in after.entries do
    match entry, before.entry? place with
    | .directory, none => IO.FS.createDirAll place.text
    | .file content, none => IO.FS.writeBinFile place.text (bytesOfList content)
    | .journal j, some (.journal old) =>
      if j != old then IO.FS.writeBinFile place.text (bytesOfList j.encode)
    | .journal j, _ => IO.FS.writeBinFile place.text (bytesOfList j.encode)
    | _, _ => pure ()

/-- The moment and the identifier for a run that the command may record. -/
def occasion : IO Occasion := do
  let now ← Std.Time.Timestamp.now
  let random ← IO.getRandomBytes 16
  return {
    now := now.toNanosecondsSinceUnixEpoch.val.toNat
    runId := Identifier.ofBytes (listOfBytes random)
    moment := Calendar.stamp
    budget := Nat.pow 10 18 }

end Blockwork.CommandLine

open Blockwork Blockwork.CommandLine in
/-- Carries out the command of the arguments. -/
def main (args : List String) : IO UInt32 := do
  let here := Path.resolve [] (toString (← IO.currentDir))
  let fs ← enterAll (.empty here) args
  let (report, after) := Command.run (← occasion) fs args
  writeBack fs after
  IO.print report.output
  IO.eprint report.errors
  return report.exitCode
