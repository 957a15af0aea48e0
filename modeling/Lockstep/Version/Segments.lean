import Lockstep.Text.Reader
import Lockstep.Text.Lowercase
import Lockstep.Text.Split
import Lockstep.Version.Order

/-!
# Versions as segments

A version text is cut at every `.` and `-` into segments: numbers, known
qualifiers, and other text. Two versions are compared segment by segment, and
where one of them has ended the other's segment is compared with nothing, which
behaves like the number zero and like the qualifier of a release.

Consequences of that rule: trailing zeros do not count, and neither does the
case of a letter. The order is not transitive on all texts: between a text and
a number stand the qualifiers, which compare with nothing in both directions.
-/

namespace Lockstep.Version

/-- The qualifiers with a place of their own in the order. -/
inductive Qualifier where
  | alpha | beta | milestone | rc | snapshot | release | sp
deriving DecidableEq, Repr

namespace Qualifier

/-- Position in the order; a plain release has that of `release`. -/
def rank : Qualifier → Nat
  | alpha => 0
  | beta => 1
  | milestone => 2
  | rc => 3
  | snapshot => 4
  | release => 5
  | sp => 6

/-- The qualifier that a lowercase text names. -/
def ofName? : String → Option Qualifier
  | "alpha" | "a" => some alpha
  | "beta" | "b" => some beta
  | "milestone" | "m" => some milestone
  | "rc" | "cr" => some rc
  | "snapshot" => some snapshot
  | "ga" | "final" | "release" => some release
  | "sp" => some sp
  | _ => none

end Qualifier

/-- One segment of a version text. -/
inductive Segment where
  | number (n : Nat)
  | qualifier (q : Qualifier)
  | text (s : String)
deriving DecidableEq, Repr

/-- Decimal digits of a number of 64 bits, with or without a plus sign. -/
def number? (cs : List Char) : Option Nat :=
  let digits := match cs with
    | '+' :: rest => rest
    | _ => cs
  if Text.isDecimal digits && Text.decimal digits < Text.numberBound then some (Text.decimal digits)
  else none

/-- The segment that a non-empty stretch of text stands for. -/
def Segment.ofPiece (cs : List Char) : Segment :=
  match number? cs with
  | some n => .number n
  | none =>
    match Qualifier.ofName? (String.ofList (Text.lowercase cs)) with
    | some q => .qualifier q
    | none => .text (String.ofList cs)

def isSeparator (c : Char) : Bool :=
  c == '.' || c == '-'

/-- The segments of a version text. -/
def segments (version : String) : List Segment :=
  (Text.pieces isSeparator version.toList).map Segment.ofPiece

/-! ## Comparison -/

/-- Lowercase form of a text segment, which is what it is compared by. -/
def folded (s : String) : String :=
  String.ofList (Text.lowercase s.toList)

namespace Segment

/-- A segment against the end of the other version. -/
def compareEnd : Segment → Ordering
  | number n => Ord.compare n 0
  | qualifier q => Ord.compare q.rank Qualifier.release.rank
  | text _ => .lt

/-- Two segments in the same place. -/
def compare : Segment → Segment → Ordering
  | number a, number b => Ord.compare a b
  | qualifier a, qualifier b => Ord.compare a.rank b.rank
  | text a, text b => Ord.compare (folded a) (folded b)
  | number _, _ => .gt
  | _, number _ => .lt
  | qualifier q, text _ => if Qualifier.release.rank ≤ q.rank then .gt else .lt
  | text _, qualifier q => if Qualifier.release.rank ≤ q.rank then .lt else .gt

end Segment

/-- Segments that go on after the other version has ended. -/
def compareRest : List Segment → Ordering
  | [] => .eq
  | s :: rest => s.compareEnd.then (compareRest rest)

/-- The first place that differs decides. -/
def compareSegments : List Segment → List Segment → Ordering
  | [], bs => (compareRest bs).swap
  | as, [] => compareRest as
  | a :: as, b :: bs => (a.compare b).then (compareSegments as bs)

/-- The order of versions by their segments. -/
def segmentOrder : VersionOrder :=
  ⟨fun a b => compareSegments (segments a) (segments b)⟩

/-- Versions that mark an unfinished build. -/
def isSnapshot (version : String) : Bool :=
  "-SNAPSHOT".toList.isSuffixOf version.toList

end Lockstep.Version
