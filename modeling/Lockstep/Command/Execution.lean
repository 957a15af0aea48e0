import Lockstep.Command.Line
import Lockstep.Documents
import Lockstep.Metadata.Cache
import Lockstep.Run

/-!
# Carrying out an invocation

An invocation names a request and catalogs by their paths. They are read, in
this order, before anything is resolved; the status lines tell how far the work
has come.
-/

namespace Lockstep

/-! ## Files -/

/-- Why a path gives no text. -/
inductive ReadError where
  | missing
  /-- The path leads through a file. -/
  | notDirectory
  | directory
  | other (reason : String)
deriving DecidableEq, Repr

def ReadError.text : ReadError → String
  | missing => "No such file or directory (os error 2)"
  | notDirectory => "Not a directory (os error 20)"
  | directory => "Is a directory (os error 21)"
  | other reason => reason

/-- What paths lead to. -/
structure Files where
  /-- The text that a path leads to, be it a file or a device. -/
  text : String → Except ReadError String
  /-- The path leads to a file. -/
  isFile : String → Bool

/-- The settings in the file at a path. Without a file, or with one that gives no text, they are the
usual ones. -/
def Settings.ofPath (files : Files) (path : String) : Except DocumentError Settings :=
  match files.text path with
  | .ok text => if files.isFile path then ofText text else .ok {}
  | .error _ => .ok {}

/-! ## Status -/

/-- How far an invocation has come. -/
inductive Status where
  | resolving (root : Coordinates)
  | aligned (platform : AlignedPlatform)
  | overridden (requests : Nat)
  | resolved (modules iterations : Nat)
deriving DecidableEq

namespace Status

def label : Status → String
  | resolving _ => "Resolving"
  | aligned _ => "Aligned"
  | overridden _ => "Conflicts"
  | resolved _ _ => "Resolved"

def message : Status → String
  | resolving root => root.text
  | aligned p => s!"{p.platform.text} to {p.version} ({p.members.length} member(s))"
  | overridden requests => s!"{requests} request(s) overridden"
  | resolved modules iterations => s!"{modules} module(s) in {iterations} iteration(s)"

/-- The line that tells of it, with the label to the right of twelve columns. -/
def line (s : Status) : String :=
  String.ofList (List.replicate (12 - s.label.length) ' ') ++ s.label ++ " " ++ s.message

end Status

/-- What is told of a graph that converged. -/
def ResolvedGraph.summary (g : ResolvedGraph) : List Status :=
  g.platforms.map .aligned ++
    (if g.conflicts.isEmpty then [] else [.overridden g.conflicts.length]) ++
    [.resolved g.size g.iterations]

/-! ## Errors -/

/-- Why an invocation gives no output. -/
inductive CommandError where
  | noRequest (path : String)
  /-- The file of the request is there but gives no text. -/
  | unreadRequest (path : String) (error : ReadError)
  | unreadCatalog (path : String) (error : ReadError)
  | document (error : DocumentError)
  | failed (errors : List ResolveError)
  | unsettled

def CommandError.message : CommandError → String
  | noRequest path => "Request error: No request file at " ++ path
  | unreadRequest path error =>
    "Request error: Failed to read request " ++ path ++ ": " ++ error.text
  | unreadCatalog path error =>
    "Request error: Failed to read catalog " ++ path ++ ": " ++ error.text
  | document error => error.message
  | failed errors => failureMessage errors
  | unsettled => "The selections of a pass did not settle"

/-! ## Execution -/

/-- What came of an invocation. -/
structure Execution where
  status : List Status
  result : Except CommandError String

/-- Resolves a request over a catalog, with a fresh cache. -/
def Request.resolveOver (r : Request) (settings : Settings) (catalog : Catalog) : Outcome :=
  let run := Run.ofRequest r settings catalog
  ((run.run (Cache.lookup (catalog.provider run.order))).run {}).1

namespace Invocation

def readRequest (i : Invocation) (files : Files) : Except CommandError Request :=
  if !files.isFile i.request then .error (.noRequest i.request)
  else match files.text i.request with
    | .error e => .error (.unreadRequest i.request e)
    | .ok text => (Request.ofText text).mapError .document

/-- Adds the catalog at a path to the ones read before. -/
def addCatalog (files : Files) (c : Catalog) (path : String) : Except CommandError Catalog :=
  match files.text path with
  | .error e => .error (.unreadCatalog path e)
  | .ok text => do
    let d ← (Catalog.ofText (some path) text).mapError .document
    (c.extend d).mapError fun fault => .document (.refused fault)

def read (i : Invocation) (files : Files) : Except CommandError (Request × Catalog) := do
  let request ← i.readRequest files
  let catalog ← i.catalogs.foldlM (addCatalog files) {}
  return (request, catalog)

/-- Carries out an invocation with the user's settings. -/
def execute (i : Invocation) (settings : Settings) (files : Files) : Execution :=
  match i.read files with
  | .error e => ⟨[], .error e⟩
  | .ok (request, catalog) =>
    let begun := Status.resolving request.root
    match request.resolveOver settings catalog with
    | .converged g => ⟨begun :: g.summary, .ok (i.view.render g)⟩
    | .failed errors => ⟨[begun], .error (.failed errors)⟩
    | .unsettled => ⟨[begun], .error .unsettled⟩

/-- Carries out an invocation with the settings at a path, if they can be read. -/
def executeWith (i : Invocation) (settings : String) (files : Files) : Execution :=
  i.execute ((Settings.ofPath files settings).toOption.getD {}) files

end Invocation

end Lockstep
