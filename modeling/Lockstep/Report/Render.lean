import Lockstep.Report.Json
import Lockstep.Resolved.Path
import Lockstep.Resolved.Tree

/-!
# Views of a resolved graph

A resolved graph is shown as a tree, as a list or as a JSON document, unless
the view asks for one module's path or dependents or for the conflicts.
-/

namespace Lockstep

/-! ## The JSON document -/

def ResolvedModule.toJson (m : ResolvedModule) : Json :=
  .object [("module", .string m.id.text), ("version", .string m.version),
    ("reason", .string m.reason.name)]

def EdgeReport.toJson (r : EdgeReport) : Json :=
  .object <|
    [("from", .string r.source.text), ("to", .string r.target.text),
      ("requested", .string r.requested),
      ("selected", match r.selected with
        | some v => .string v
        | none => .null),
      ("status", .string r.status.name), ("reason", .string r.reason.name),
      ("forced", .bool r.forced)] ++
    if r.synthetic then [("synthetic", .bool true)] else []

def AlignedPlatform.toJson (p : AlignedPlatform) : Json :=
  .object [("platform", .string p.platform.text), ("version", .string p.version),
    ("enforced", .bool p.enforced), ("forced_by_member", .bool p.forcedByMember),
    ("members", .array (p.members.map fun m => .string m.text))]

def Conflict.toJson (c : Conflict) : Json :=
  .object [("module", .string c.target.text), ("requester", .string c.requester),
    ("requested", .string c.requested), ("resolved", .string c.resolved),
    ("reason", .string c.reason.name)]

def ConflictReport.toJson (r : ConflictReport) : Json :=
  .object [("conflicts", .array (r.map Conflict.toJson))]

def ResolvedGraph.toJson (g : ResolvedGraph) : Json :=
  .object [("root", .string g.root.text), ("iterations", .number g.iterations),
    ("modules", .array (g.modules.map ResolvedModule.toJson)),
    ("edges", .array (g.reports.toList.map EdgeReport.toJson)),
    ("platforms", .array (g.platforms.map AlignedPlatform.toJson)),
    ("conflicts", g.conflicts.toJson)]

/-! ## Views -/

/-- How the whole graph is shown. -/
inductive Format where
  | tree
  | list
  | json
deriving DecidableEq, Repr

def Format.ofName? : String → Option Format
  | "tree" => some .tree
  | "list" => some .list
  | "json" => some .json
  | _ => none

/-- A name that no format has. -/
structure UnknownFormat where
  name : String
deriving DecidableEq, Repr

def UnknownFormat.message (u : UnknownFormat) : String :=
  "Unknown output format `" ++ u.name ++ "` (expected tree, list or json)"

def Format.ofName (name : String) : Except UnknownFormat Format :=
  match ofName? name with
  | some f => .ok f
  | none => .error ⟨name⟩

/-- What to show. -/
structure View where
  format : Format := .tree
  /-- The greatest depth of the tree that is shown. -/
  depth : Option Nat := none
  /-- Show the path to this module instead. -/
  why : Option String := none
  /-- Show the dependents of this module instead. -/
  inverted : Option String := none
  /-- Show the conflicts instead. -/
  conflicts : Bool := false
deriving DecidableEq, Repr

namespace View

def notFound (key : String) : String :=
  "Module '" ++ key ++ "' not found in the graph.\n"

/-- A path, each module two spaces further in than the one before. -/
def stairs (path : List Coordinates) : String :=
  String.join <| path.zipIdx.map fun (c, i) =>
    String.ofList (List.replicate (2 * i) ' ') ++ c.text ++ "\n"

def showPath (g : ResolvedGraph) (key : String) : String :=
  match g.path? key with
  | some path => "Path to " ++ key ++ ":\n" ++ stairs path
  | none => notFound key

def showDependents (g : ResolvedGraph) (key : String) : String :=
  match g.invertedTree? key with
  | some t => t.draw
  | none => notFound key

def showConflicts (g : ResolvedGraph) : String :=
  if g.conflicts.isEmpty then "No version conflicts.\n" else ConflictReport.text g.conflicts

def showList (g : ResolvedGraph) : String :=
  String.join (g.modules.map fun m => m.coordinates.text ++ " (" ++ m.reason.name ++ ")\n")

/-- The text of a view. A path comes before dependents, these before conflicts, and all of them
before the whole graph. -/
def render (v : View) (g : ResolvedGraph) : String :=
  match v.why, v.inverted with
  | some key, _ => showPath g key
  | none, some key => showDependents g key
  | none, none =>
    if v.conflicts then showConflicts g
    else match v.format with
      | .tree => (g.tree v.depth).draw
      | .list => showList g
      | .json => g.toJson.text ++ "\n"

end View

end Lockstep
