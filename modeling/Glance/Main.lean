import Glance.Session

/-!
# The program

Runs a session over the files of this computer: looks at the files that the command line can lead
to, lets the session decide, prints its report and writes the state file if it has changed.
-/

namespace Glance.Main

/-- The folder for settings. -/
def settingsFolder : IO (Option Path) := do
  match ← IO.getEnv "XDG_CONFIG_HOME" with
  | some folder => if (Path.mk folder).isAbsolute then return some ⟨folder⟩
  | none => pure ()
  return (← IO.getEnv "HOME").map fun home => (Path.mk home).child ".config"

/-- What a path leads to. -/
def nodeAt (path : String) : IO (Option Node) := do
  let file := (← IO.currentDir) / path
  try
    if ← file.isDir then return some .folder
    let bytes ← IO.FS.readBinFile file
    return some (.file bytes.toList)
  catch _ => return none

/-- The paths on the way to a path, and the path itself. -/
def stages (p : Path) : List Path :=
  let texts := (List.range p.segments.length).map fun i =>
    String.ofList (Path.join (p.segments.take (i + 1)))
  (texts.filter (!·.isEmpty)).map Path.mk

/-- Adds one path to a disk, when the way to it is there. -/
def lookAt (d : Disk) (p : Path) : IO Disk := do
  match d.locate p with
  | .error _ => return d
  | .ok place =>
    match ← nodeAt p.text with
    | some node => return d.put place node
    | none => return d

/-- Adds a path, and all on the way to it, to a disk. -/
def look (d : Disk) (p : Path) : IO Disk :=
  (stages p).foldlM lookAt d

/-- Adds a folder and what lies in it to a disk. -/
def lookInto (d : Disk) (folder : Path) : IO Disk := do
  let d ← look d folder
  try
    let entries ← ((← IO.currentDir) / folder.text).readDir
    entries.foldlM (fun d entry => lookAt d (folder.child entry.fileName)) d
  catch _ => return d

/-- The folder the program was started in, and all above it. -/
def startingDisk : IO Disk := do
  let here := Path.mk (← IO.currentDir).toString
  let names := (here.segments.filter (!·.isEmpty)).map String.ofList
  let places := (List.range (names.length + 1)).map fun n => (names.take n).toArray
  let d := places.foldl (fun d place => Disk.put d place .folder) Disk.empty
  return { d with current := names.toArray }

/-- Adds what a command can lead to. The recent files are known from the disk so far. -/
def lookFor (settings : Option Path) (d : Disk) : Command → IO Disk
  | .render request => look d request.file
  | .next file _ => do lookInto (← look d file) file.folder
  | .find file _ _ | .copyPath file | .reveal file => look d file
  | .reopen slot =>
    match settings with
    | none => return d
    | some folder =>
      match (Recents.load (FileStore.mk d (Session.stateFile folder))).inSlot slot with
      | some entry => look d ⟨entry.identifier⟩
      | none => return d
  | _ => return d

/-- The part of this computer's disk that a run can see. -/
def visibleDisk (settings : Option Path) (words : List String) : IO Disk := do
  match CommandLine.parse words with
  | none => startingDisk
  | some invocation =>
    let own := (settings.map fun folder => [Session.stateFile folder, Session.configFile folder])
    let d ← (own.getD [] ++ invocation.config.toList).foldlM look (← startingDisk)
    lookFor settings d invocation.command

/-- Writes the state file if the run has changed it. -/
def keepState (folder : Path) (before after : Disk) : IO Unit := do
  let file := Session.stateFile folder
  match after.read file with
  | .error _ => return
  | .ok bytes =>
    if (before.read file).toOption ≠ some bytes then
      let temporary := (FileStore.temporary file).text
      try
        IO.FS.createDirAll file.folder.text
        IO.FS.writeBinFile temporary (ByteArray.mk bytes.toArray)
        IO.FS.rename temporary file.text
      catch _ => return

def usage : String := "usage: peek [--config PATH] [--ephemeral] [--verbose] COMMAND"

end Glance.Main

open Glance

def main (words : List String) : IO UInt32 := do
  let settings ← Main.settingsFolder
  let before ← Main.visibleDisk settings words
  let (report, after) := Session.run settings before words
  (← IO.getStdout).putStr (String.ofList report.output)
  if let some summary := report.summary then IO.eprintln summary
  if let some message := report.error then IO.eprintln ("Error: " ++ message)
  if report.code = 2 then IO.eprintln Main.usage
  if let some folder := settings then Main.keepState folder before after
  return UInt32.ofNat report.code
