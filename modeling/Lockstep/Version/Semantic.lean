import Lockstep.Text.Reader
import Lockstep.Text.Split
import Lockstep.Version.Order

/-!
# Semantic versions

Three numbers, an optional pre-release list after `-` and optional build
metadata after `+`. Precedence ignores the metadata; a version with a
pre-release list precedes the same version without one. Texts that are no
semantic version precede every one that is, and are ordered as texts.
-/

namespace Lockstep.Version

/-- An identifier of a pre-release list. -/
inductive Identifier where
  | number (n : Nat)
  | word (s : String)
deriving DecidableEq, Repr

/-- What a semantic version is ordered by. -/
structure Semantic where
  major : Nat
  minor : Nat
  patch : Nat
  prerelease : List Identifier
deriving DecidableEq, Repr

namespace Semantic

/-! ## Reading -/

/-- A decimal number of 64 bits without a needless zero in front, and what follows it. -/
def number? (cs : List Char) : Option (Nat × List Char) :=
  let digits := cs.takeWhile Char.isDigit
  let n := Text.decimal digits
  if digits.isEmpty || (digits.head? == some '0' && 1 < digits.length) ||
      Text.numberBound ≤ n then none
  else some (n, cs.dropWhile Char.isDigit)

def isIdentifierChar (c : Char) : Bool :=
  c.isAlphanum || c == '-'

/-- An identifier; a number in a pre-release list has no needless zero in front. -/
def identifier? (strict : Bool) (cs : List Char) : Option Identifier :=
  if cs.isEmpty || cs.any (!isIdentifierChar ·) then none
  else if cs.all Char.isDigit then
    if strict && cs.head? == some '0' && 1 < cs.length then none
    else some (.number (Text.decimal cs))
  else some (.word (String.ofList cs))

/-- Identifiers joined by dots. -/
def identifiers? (strict : Bool) (cs : List Char) : Option (List Identifier) :=
  (Text.stretches (· == '.') cs).mapM (identifier? strict)

/-- The part up to the build metadata, and the metadata if there is a plus sign. -/
def splitMetadata (cs : List Char) : List Char × Option (List Char) :=
  match Text.cut '+' cs with
  | some (before, after) => (before, some after)
  | none => (cs, none)

def dot? : List Char → Option (List Char)
  | '.' :: rest => some rest
  | _ => none

/-- The semantic version that a text writes. -/
def ofString? (text : String) : Option Semantic := do
  let (core, metadata) := splitMetadata text.toList
  let (major, rest) ← number? core
  let (minor, rest) ← number? (← dot? rest)
  let (patch, rest) ← number? (← dot? rest)
  let prerelease ← match rest with
    | [] => some []
    | '-' :: rest => identifiers? true rest
    | _ => none
  if let some m := metadata then
    let _ ← identifiers? false m
  return { major, minor, patch, prerelease }

/-! ## Precedence -/

/-- Numbers precede words. -/
def compareIdentifier : Identifier → Identifier → Ordering
  | .number a, .number b => Ord.compare a b
  | .word a, .word b => Ord.compare a b
  | .number _, .word _ => .lt
  | .word _, .number _ => .gt

/-- Of two lists, one of which begins with the other, the longer is greater. -/
def compareIdentifiers : List Identifier → List Identifier → Ordering
  | [], [] => .eq
  | [], _ :: _ => .lt
  | _ :: _, [] => .gt
  | a :: as, b :: bs => (compareIdentifier a b).then (compareIdentifiers as bs)

/-- A release is greater than its pre-releases. -/
def comparePrerelease : List Identifier → List Identifier → Ordering
  | [], [] => .eq
  | [], _ :: _ => .gt
  | _ :: _, [] => .lt
  | as, bs => compareIdentifiers as bs

def compare (a b : Semantic) : Ordering :=
  (Ord.compare a.major b.major).then <| (Ord.compare a.minor b.minor).then <|
    (Ord.compare a.patch b.patch).then <| comparePrerelease a.prerelease b.prerelease

end Semantic

/-- The order of versions by semantic precedence. -/
def semanticOrder : VersionOrder where
  compare a b :=
    match Semantic.ofString? a, Semantic.ofString? b with
    | some x, some y => x.compare y
    | some _, none => .gt
    | none, some _ => .lt
    | none, none => Ord.compare a b

end Lockstep.Version
