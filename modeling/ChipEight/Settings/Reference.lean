import ChipEight.Datum

/-!
# References

A text may take the values of other settings. A reference names one by the keys that lead to it, and dots
before the keys count the levels from where the text stands; without any the keys start from the top. A
backslash before a reference takes it literally.
-/

namespace ChipEight.Settings

inductive ReferenceError where
  /-- No text of a reference. -/
  | malformed
  | unknownName
  /-- The value does not fit where the reference stands. -/
  | wrongType
  | missing
  | unknownFunction
  /-- It leads back to itself, or through a single value. -/
  | unresolvable
deriving DecidableEq, Repr

inductive Segment where
  | text (s : String)
  | path (levels : Nat) (keys : List String)
  /-- The value of a function. -/
  | call (name : String)
deriving DecidableEq, Repr

abbrev Reference := List Segment

/-! ## Reading references -/

def hasReference : List Char → Bool
  | '$' :: '\x7b' :: _ => true
  | _ :: cs => hasReference cs
  | [] => false

/-- Characters that separate keys or have a meaning of their own. -/
def separators : List Char := ['\\', '\x7b', '\x7d', '(', ')', '[', ']', ':', '.', ' ', '\t', '\x27', '\x22']

def isKeyChar (c : Char) : Bool := !separators.contains c

/-- Keys behind the first one, each with a dot before it or in square brackets. -/
def readKeys? : Nat → List Char → Option (List String)
  | 0, _ => none
  | _ + 1, [] => some []
  | n + 1, mark :: cs =>
    let key := cs.takeWhile isKeyChar
    let rest := cs.drop key.length
    let rest := if mark = '[' then (match rest with
        | ']' :: rest => some rest
        | _ => none)
      else if mark = '.' then some rest else none
    if key.isEmpty then none
    else rest.bind fun rest => (readKeys? n rest).map (String.ofList key :: ·)

/-- What stands between the braces. -/
def readBody? (cs : List Char) : Option Segment :=
  if cs.contains ':' then
    let name := cs.takeWhile (· ≠ ':')
    if name.all (fun c => isKeyChar c || c = '.') && !name.isEmpty then some (.call (String.ofList name)) else none
  else
    let levels := (cs.takeWhile (· = '.')).length
    let cs := cs.drop levels
    let keys := match cs with
      | '[' :: _ => readKeys? (cs.length + 1) cs
      | _ => readKeys? (cs.length + 2) ('.' :: cs)
    match keys with
    | some (key :: keys) => some (.path levels (key :: keys))
    | _ => none

/-- Up to the brace that closes, with those inside it in pairs. -/
def splitBody? : (depth : Nat) → List Char → Option (List Char × List Char)
  | _, [] => none
  | 0, '\x7d' :: cs => some ([], cs)
  | n + 1, '\x7d' :: cs => (splitBody? n cs).map fun (body, rest) => ('\x7d' :: body, rest)
  | n, '\x7b' :: cs => (splitBody? (n + 1) cs).map fun (body, rest) => ('\x7b' :: body, rest)
  | n, c :: cs => (splitBody? n cs).map fun (body, rest) => (c :: body, rest)

def dropBlanks (cs : List Char) : List Char := cs.dropWhile fun c => c = ' ' || c = '\t'

def trimBlanks (cs : List Char) : List Char := (dropBlanks (dropBlanks cs).reverse).reverse

def addText (cs : List Char) (r : Reference) : Reference :=
  match r with
  | .text s :: rest => .text (String.ofList cs ++ s) :: rest
  | _ => if cs.isEmpty then r else .text (String.ofList cs) :: r

/-- Two backslashes before a reference stand for one, and an odd one takes the braces literally. -/
def readSegments? : Nat → List Char → Option Reference
  | 0, _ => none
  | _ + 1, [] => some []
  | n + 1, '$' :: '\x7b' :: cs => do
    let (body, rest) ← splitBody? 0 cs
    let segment ← readBody? (trimBlanks body)
    return segment :: (← readSegments? n rest)
  | n + 1, '\\' :: cs =>
    let more := cs.takeWhile (· = '\\')
    let rest := cs.drop more.length
    match rest with
    | '$' :: '\x7b' :: after =>
        let kept := List.replicate ((more.length + 1) / 2) '\\'
        if more.length % 2 = 0 then (readSegments? n after).map (addText (kept ++ ['$', '\x7b']))
        else (readSegments? n rest).map (addText kept)
    | _ => (readSegments? n rest).map (addText ('\\' :: more))
  | n + 1, c :: cs => (readSegments? n cs).map (addText [c])

def readReference? (s : String) : Option Reference := readSegments? (s.length + 1) s.toList

/-! ## Values of references -/

/-- The place that keys lead to from inside the mapping at `base`. -/
def absolutePath (base : List String) (levels : Nat) (keys : List String) : Option (List String) :=
  match levels with
  | 0 => some keys
  | up + 1 => if up ≤ base.length then some (base.take (base.length - up) ++ keys) else none

def Segment.value (base : List String) (valueAt : List String → Except ReferenceError Datum) :
    Segment → Except ReferenceError Datum
  | .text s => .ok (.text s)
  | .path levels keys =>
      match absolutePath base levels keys with
      | some place => valueAt place
      | none => .error .unknownName
  | .call _ => .error .unknownFunction

/-- A single reference keeps the kind of its value; among other text it becomes text. -/
def Reference.value (base : List String) (valueAt : List String → Except ReferenceError Datum)
    (r : Reference) : Except ReferenceError Datum :=
  match r with
  | [segment] => segment.value base valueAt
  | segments => do
      let data ← segments.mapM (Segment.value base valueAt)
      return .text (String.join (data.map (·.scalarText)))

end ChipEight.Settings
