import Glance.CommandLine
import Glance.Folder
import Glance.Viewer

/-!
# Sessions

One run of the program over a disk: reads the limits and the remembered state, does what it was
asked to do, and reports what to print. The state file is changed on the disk as the run goes on;
nothing else is.
-/

namespace Glance

/-- What a run leaves to print, and how it ended. -/
structure Report where
  code : Nat
  output : List Char
  /-- The number of matches, told beside the output. -/
  summary : Option String
  error : Option String
  deriving DecidableEq, Repr

namespace Session

/-! ## The state of a run -/

/-- The disk of a run, and what it remembers: in a file of the disk, or only as long as it lasts. -/
inductive Keeper where
  | file (store : FileStore)
  | memory (disk : Disk) (store : MemoryStore)

def Keeper.disk : Keeper → Disk
  | .file store => store.disk
  | .memory disk _ => disk

instance : Store Keeper where
  get
    | .file store, key => Store.get store key
    | .memory _ store, key => Store.get store key
  put
    | .file store, key, value =>
      let (result, store) := Store.put store key value
      (result, .file store)
    | .memory disk store, key, value =>
      let (result, store) := Store.put store key value
      (result, .memory disk store)

/-- How files are found on the disk as it is now. -/
def resolver (v : Viewer Keeper) : Resolver :=
  v.store.disk.resolver v.config.files ImageReader.headers

/-! ## Failures -/

/-- Why a run ended with an error. -/
inductive Failure where
  | config (cause : ConfigError)
  | notOpened (message : String)
  | viewer (cause : ViewerError)
  | noSuchMatch (i count : Nat)
  | noNeighbor (file : Path)
  | emptySlot (slot : Nat)
  deriving DecidableEq, Repr

def Failure.message : Failure → String
  | .config cause => cause.message
  | .notOpened message => message
  | .viewer cause => cause.message
  | .noSuchMatch i count =>
    "Match " ++ i.repr ++ " out of range (" ++ count.repr ++ " found)"
  | .noNeighbor file => "No other file like " ++ file.text ++ " in its folder"
  | .emptySlot slot => "No recent file in slot " ++ slot.repr

/-- What a command prints. -/
structure Printed where
  output : List Char
  summary : Option String

/-- A command that has been carried out. -/
abbrev Done := Except Failure Printed × Viewer Keeper

/-- Lines of output and nothing else. -/
def lines (texts : List String) : Printed :=
  ⟨texts.flatMap fun text => text.toList ++ ['\n'], none⟩

/-! ## Output -/

/-- What is open: a text in markup, or the status line of an image. -/
def view (v : Viewer Keeper) (markup : Option (List Char)) : Printed :=
  { output := markup.getD (v.status.toList ++ ['\n'])
    summary := if v.index.count = 0 then none else some v.matchSummary }

/-- A page around lines of markup. -/
def page (stylesheet : String) (markup : List Char) : List Char :=
  "<!DOCTYPE html>\n<html>\n<head>\n<meta charset=\"utf-8\">\n<style>\n".toList ++
    stylesheet.toList ++ "</style>\n</head>\n<body><pre>".toList ++ markup ++
    "</pre></body>\n</html>\n".toList

/-- A record over several lines, its values already in text. -/
def record (depth : Nat) (fields : List (String × List Char)) : List Char :=
  let rows := fields.map fun (name, value) =>
    Json.lineBreak (depth + 1) ++ Json.quote name.toList ++ ':' :: ' ' :: value
  '{' :: ((rows.intersperse [',']).flatten ++ Json.lineBreak depth ++ ['}'])

/-- A list over several lines, its items already in text. -/
def array (items : List (List Char)) : List Char :=
  if items.isEmpty then ['[', ']']
  else
    let rows := items.map (Json.lineBreak 1 ++ ·)
    '[' :: ((rows.intersperse [',']).flatten ++ Json.lineBreak 0 ++ [']'])

def boolText (b : Bool) : List Char :=
  (if b then "true" else "false").toList

/-- The preferences in text. -/
def preferencesText (p : Preferences) : List Char :=
  record 0
    [("dark", boolText p.dark), ("fit", boolText p.fit), ("wrap", boolText p.wrap),
     ("ln", boolText p.lineNumbers), ("textZoom", p.textZoom.shortest),
     ("imageZoom", p.imageZoom.shortest), ("theme", Json.quote p.theme.shortName.toList)]

/-- One match and the line it begins on, counted from 0. -/
structure MatchRow where
  hit : Match
  line : Nat
  deriving DecidableEq, Repr

/-- The matches in the open text. -/
def matchRows {σ : Type} (v : Viewer σ) : List MatchRow :=
  match v.content with
  | some (.text _ doc _) =>
    v.index.hits.map fun m => ⟨m, (doc.lineOfChar m.start).toOption.getD 0⟩
  | _ => []

def MatchRow.json (row : MatchRow) : List Char :=
  record 1
    [("offset", Number.digits row.hit.start), ("len", Number.digits row.hit.length),
     ("line", Number.digits row.line)]

def MatchRow.plain (row : MatchRow) : String :=
  (row.line + 1).repr ++ ":" ++ row.hit.start.repr

/-- One line of the list of themes. -/
def themeRow (active theme : Theme) : String :=
  let name := theme.shortName
  (if theme = active then "* " else "  ") ++ name ++
    "".pushn ' ' (18 - name.length) ++ " " ++ theme.displayName

/-! ## Commands -/

/-- Opens a file and goes on with it. -/
def withFile (v : Viewer Keeper) (file : Path) (go : Viewer Keeper → Done) : Done :=
  match v.openPath (resolver v) file with
  | (.failed message, v) => (.error (.notOpened message), v)
  | (_, v) => go v

/-- Prints what a request to open has led to. -/
def printOpened (cancelled : Except Failure Printed) : Outcome × Viewer Keeper → Done
  | (.opened, v) => (.ok (view v v.render), v)
  | (.cancelled, v) => (cancelled, v)
  | (.failed message, v) => (.error (.notOpened message), v)

/-- Emphasizes the match that was asked for. -/
def emphasize (v : Viewer Keeper) : Option Nat → Except Failure Unit × Viewer Keeper
  | none => (.ok (), v)
  | some i =>
    match v.select i with
    | (some _, v) => (.ok (), v)
    | (none, v) => (.error (.noSuchMatch i v.index.count), v)

def render (v : Viewer Keeper) (request : RenderRequest) : Done :=
  withFile v request.file fun v =>
    let v := request.lang.elim v fun lang => (v.setLanguage lang).2
    let v := request.query.elim v fun query => v.setQuery query.toList
    match emphasize v request.current with
    | (.error failure, v) => (.error failure, v)
    | (.ok (), v) =>
      let options := v.renderOptions
      let options :=
        { options with lineNumbers := options.lineNumbers && !request.noLineNumbers }
      let markup := v.renderWith options
      (.ok (view v (if request.standalone then markup.map (page v.stylesheet) else markup)), v)

def find (v : Viewer Keeper) (file : Path) (query : String) (json : Bool) : Done :=
  withFile v file fun v =>
    let v := v.setQuery query.toList
    let rows := matchRows v
    if json then (.ok ⟨array (rows.map MatchRow.json) ++ ['\n'], none⟩, v)
    else (.ok (lines (v.index.count.repr :: rows.map MatchRow.plain)), v)

/-- Makes a change if it was asked for. -/
def changeIf (asked : Bool) (change : Viewer Keeper → Viewer Keeper) (v : Viewer Keeper) :
    Viewer Keeper :=
  if asked then change v else v

def preferences (v : Viewer Keeper) (request : PreferenceRequest) : Done :=
  let v := changeIf request.dark Viewer.toggleDark v
  let v := changeIf request.wrap Viewer.toggleWrap v
  let v := changeIf request.lineNumbers Viewer.toggleLineNumbers v
  let v := changeIf request.fit (fun v => v.setFit !v.preferences.fit) v
  let v := request.theme.elim v v.setTheme
  (.ok ⟨preferencesText v.preferences ++ ['\n'], none⟩, v)

/-- Carries out a command. No clipboard takes a path, and whether its folder is shown makes no
difference. -/
def perform (v : Viewer Keeper) : Command → Done
  | .render request => render v request
  | .next file dir =>
    withFile v file fun v =>
      printOpened (.error (.noNeighbor file)) (v.openNeighbor (resolver v) dir)
  | .find file query json => find v file query json
  | .pick => printOpened (.ok (lines [])) (v.openPicked (resolver v))
  | .listRecents => (.ok (lines v.recents.rows), v)
  | .reopen slot =>
    match v.openRecent (resolver v) slot with
    | (.ok outcome, v) => printOpened (.error (.emptySlot slot)) (outcome, v)
    | (.error cause, v) => (.error (.viewer cause), v)
  | .clearRecents => (.ok (lines []), v.clearRecents)
  | .preferences request => preferences v request
  | .themes => (.ok (lines (Theme.all.map (themeRow v.preferences.theme))), v)
  | .copyPath file =>
    withFile v file fun v =>
      match v.copyPath fun _ => false with
      | .ok v => (.ok (lines [v.status]), v)
      | .error cause => (.error (.viewer cause), v)
  | .reveal file =>
    withFile v file fun v =>
      match v.reveal with
      | .ok _ => (.ok (lines []), v)
      | .error cause => (.error (.viewer cause), v)

/-! ## Runs -/

/-- The report on a failure. -/
def failed (failure : Failure) : Report :=
  ⟨1, [], none, some failure.message⟩

def report : Except Failure Printed → Report
  | .ok printed => ⟨0, printed.output, printed.summary, none⟩
  | .error failure => failed failure

/-- The folder of the program below the folder for settings. -/
def home (settings : Path) : Path :=
  settings.child "peek"

/-- The file that preferences and recent files are kept in. -/
def stateFile (settings : Path) : Path :=
  (home settings).child "state.json"

/-- The file that limits are read from. -/
def configFile (settings : Path) : Path :=
  (home settings).child "config.toml"

/-- The limits of a run. A settings file that was asked for must be readable. -/
def limits (d : Disk) (settings : Option Path) : Option Path → Except Failure Config
  | some file => (Config.load d file).mapError .config
  | none => .ok (settings.elim .initial fun folder => Config.loadOrInitial d (configFile folder))

/-- What a run remembers. -/
def keeper (d : Disk) (settings : Option Path) (ephemeral : Bool) : Keeper :=
  match settings, ephemeral with
  | some folder, false => .file ⟨d, stateFile folder⟩
  | _, _ => .memory d .empty

/-- One run with the words of its command line, and the folder for settings if there is one. -/
def run (settings : Option Path) (d : Disk) (words : List String) : Report × Disk :=
  match CommandLine.parse words with
  | none => (⟨2, [], none, none⟩, d)
  | some invocation =>
    match limits d settings invocation.config with
    | .error failure => (failed failure, d)
    | .ok config =>
      let v := Viewer.start (keeper d settings invocation.ephemeral) config
      let (result, v) := perform v invocation.command
      (report result, v.store.disk)

end Session

end Glance
