import Lockstep.Text.CaseTable

/-!
# Lowercase text

The full lowercase mapping of Unicode, character by character, with its one
contextual rule: a capital sigma at the end of a word becomes a final sigma.
Versions that differ only in case are compared through it.
-/

namespace Lockstep.Text

def inRanges (ranges : Array (Nat × Nat)) (c : Char) : Bool :=
  ranges.any fun (first, last) => first ≤ c.toNat && c.toNat ≤ last

def isCaseIgnorable (c : Char) : Bool :=
  inRanges caseIgnorableRanges c

def isCased (c : Char) : Bool :=
  inRanges casedRanges c

/-- Lowercase of one character, whatever stands around it. -/
def lowerChar (c : Char) : List Char :=
  if c.toNat < 0x80 then [c.toLower]
  else if c.toNat = 0x130 then ['i', Char.ofNat 0x307]
  else
    let n := c.toNat
    match lowercaseRanges.find? fun r => r.first ≤ n && n ≤ r.last with
    | some r => if (n - r.first) % r.stride = 0 then [Char.ofNat (n + r.shift).toNat] else [c]
    | none => [c]

/-- Past the case-ignorable characters comes a cased one. -/
def meetsCased (cs : List Char) : Bool :=
  (cs.dropWhile isCaseIgnorable).head?.any isCased

/-- Lowercase of `cs`, where `before` holds what precedes it, nearest first. -/
def lowerAfter (before : List Char) : List Char → List Char
  | [] => []
  | c :: rest =>
    let here :=
      if c.toNat = 0x3A3 && meetsCased before && !meetsCased rest then [Char.ofNat 0x3C2]
      else lowerChar c
    here ++ lowerAfter (c :: before) rest

/-- The lowercase form of a text. -/
def lowercase (cs : List Char) : List Char :=
  lowerAfter [] cs

end Lockstep.Text
