import Kryfo.Frame.Envelope

/-!
# Frames without their sender

A frame to a burner room carries the room key in place of who sends it, and one to the developer
only the fields of a list.
-/

namespace Kryfo.Frame

open Library

def readFrame (wrapped : Text) : Option (List (Text × Json)) :=
  if envelopeHead.isPrefixOf wrapped then
    match Json.read (wrapped.drop envelopeHead.length) with
    | some (.obj fields) => some fields
    | _ => none
  else none

/-! ## To a room -/

def roomStripped : List Text := [['o'], ['e'], ['p'], ['b', 'g'], ['a', 'v'], ['r', 'p']]

variable (fields : List (Text × Json))

def roomFields (pub : Text) (number : Option Int) : List (Text × Json) :=
  let named := Json.setField ['x'] (.str pub) (Json.setField ['h'] (.str pub) fields)
  let stripped := named.filter fun field => field.1 ∉ roomStripped
  match number with
  | some n => Json.setField ['r', 'n'] (.num n) stripped
  | none => stripped

def roomFrame (wrapped pub : Text) (number : Option Int) : Option Text :=
  match readFrame wrapped with
  | none => none
  | some fields =>
    let out := envelopeHead ++ Json.write (.obj (roomFields fields pub number))
    match readFrame out with
    | none => none
    | some check => if check.any fun field => field.1 ∈ roomStripped then none else some out

/-! ## To the developer -/

def devKept : List Text :=
  [['m'], ['u'], ['q'], ['b'], ['r'], ['e', 'd'], ['u', 'n'], ['p', 'n'], ['d', 'r'], ['i'], ['f'],
    ['f', 'n'], ['v', 'o'], ['v', 'd'], ['m', 'i', 'd'], ['c', 'i'], ['c', 't'], ['p', 'i'],
    ['c', 'r'], ['n', 'd'], ['s', 'c'], ['s', 't'], ['p', 'v'], ['w'], ['a', 'l']]

def devPow : List Text := [['p', 'w'], ['p', 'b']]

def devSender : List Text := [['h'], ['e'], ['x'], ['o']]

def devIgnored : List Text := [['a', 'v'], ['b', 'g']]

def devMarker : Text := ['s', 'p']

def devSupport : Json := .num 1

structure DevSelf where
  id : Text
  edPub : Text
  xPub : Text

/-- The loop over the fields: what goes out so far, and whether a sender was seen. -/
def devLoop : List (Text × Json) → List (Text × Json) → Bool → Option (List (Text × Json) × Bool)
  | [], out, sender => some (out, sender)
  | (key, j) :: fields, out, sender =>
    if key ∈ devKept ∨ key ∈ devPow then devLoop fields (Json.setField key j out) sender
    else if key ∈ devSender then devLoop fields out true
    else if key ∉ devIgnored ∧ key ≠ devMarker then none
    else devLoop fields out sender

def devName (fields out : List (Text × Json)) : Option DevSelf → List (Text × Json)
  | some anon =>
    Json.setField ['x'] (.str anon.xPub)
      (Json.setField ['e'] (.str anon.edPub) (Json.setField ['h'] (.str anon.id) out))
  | none =>
    [['h'], ['e'], ['x']].foldl (fun out key =>
      match fields.lookup key with
      | some j => Json.setField key j out
      | none => out) out

/-- Two values that are no lists and no maps, and the same. -/
def sameAtom : Json → Json → Bool
  | .str text, .str text' => text = text'
  | .num n, .num n' => n = n'
  | .bool b, .bool b' => b = b'
  | .null, .null => true
  | _, _ => false

def devFieldOk (was : List (Text × Json)) (anon : Option DevSelf) (field : Text × Json) : Bool :=
  let before := (was.lookup field.1).getD .null
  if field.1 ∈ devKept ∨ field.1 ∈ devPow then field.2.write = before.write
  else if field.1 = ['o'] then field.2.text? = some []
  else if field.1 = ['h'] ∨ field.1 = ['e'] ∨ field.1 = ['x'] then
    match anon with
    | none => sameAtom field.2 before
    | some anon =>
      field.2.text? = some (if field.1 = ['h'] then anon.id
        else if field.1 = ['e'] then anon.edPub else anon.xPub)
  else field.1 = devMarker && field.2.num? = some 1

def outOk (back was : List (Text × Json)) (anon : Option DevSelf) : Bool :=
  back.all (devFieldOk was anon)

def isOne (key : Text) : Bool :=
  (fields.lookup key).any fun j => j.num? = some 1

def devFields (anon : Option DevSelf) : Option (List (Text × Json)) :=
  (devLoop fields [] false).map fun (out, sender) =>
    Json.setField devMarker devSupport
      (if sender then Json.setField ['o'] (.str []) (devName fields out anon) else out)

def devOutFrame (wrapped : Text) (anon : Option DevSelf) : Option Text :=
  match readFrame wrapped with
  | none => none
  | some fields =>
    match devFields fields anon with
    | none => none
    | some out =>
      if anon.isSome && isOne out ['v', 'o'] && !isOne out ['v', 'd'] then none
      else
        let text := envelopeHead ++ Json.write (.obj out)
        match readFrame text with
        | none => none
        | some back => if outOk back fields anon then some text else none

end Kryfo.Frame
