import Lockstep.Data.Schema
import Lockstep.Toml.Document

/-!
# Documents

Requests, catalogs and settings as texts. A document is read in two steps: its
text gives data of the right shape, and what the data means is then checked as
a whole.
-/

namespace Lockstep

/-- What a text should hold. -/
inductive DocumentKind where
  | request
  /-- A catalog, and the path that it was read from. -/
  | catalog (path : Option String)
  | settings
deriving DecidableEq, Repr

def DocumentKind.title : DocumentKind → String
  | request => "request"
  | catalog none => "catalog"
  | catalog (some path) => "catalog " ++ path
  | settings => "global config"

/-- Why a document is not accepted. -/
inductive DocumentError where
  /-- The text does not give data of the right shape. -/
  | unreadable (kind : DocumentKind) (error : DataError)
  /-- The data was read, but breaks a rule. -/
  | refused (fault : Fault)
deriving DecidableEq, Repr

namespace DocumentError

/-- What could not be done, without the details. -/
def heading (kind : DocumentKind) : String :=
  "Failed to parse " ++ kind.title

def message : DocumentError → String
  | unreadable kind error => heading kind ++ ": " ++ error.detail
  | refused fault => fault.message

end DocumentError

namespace DocumentKind

variable {α : Type}

/-- Reads the text of a document. -/
def read (kind : DocumentKind) (decoder : Decoder α) (text : String) : Except DocumentError α :=
  (Toml.decode decoder text).mapError (DocumentError.unreadable kind)

end DocumentKind

/-- A request that keeps the rules for requests. -/
def Request.ofText (text : String) : Except DocumentError Request := do
  let r ← DocumentKind.request.read Schema.request text
  r.check.mapError .refused
  return r

/-- A catalog that describes each version once. -/
def Catalog.ofText (path : Option String) (text : String) : Except DocumentError Catalog := do
  let c ← (DocumentKind.catalog path).read Schema.catalog text
  c.check.mapError .refused
  return c

def Settings.ofText (text : String) : Except DocumentError Settings :=
  DocumentKind.settings.read Schema.settingsFile text

end Lockstep
