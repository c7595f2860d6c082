/-!
# Decoded JSON

What a JSON text decodes to, with whole numbers only.  The fields of an object come
in the order of the text, each key once.
-/

namespace Kryfo.Library

inductive Json where
  | null
  | bool (b : Bool)
  | num (n : Int)
  | str (text : List Char)
  | arr (items : List Json)
  | obj (fields : List (List Char × Json))

namespace Json

def field (j : Json) (name : List Char) : Option Json :=
  match j with
  | obj fields => fields.lookup name
  | _ => none

def text? : Json → Option (List Char)
  | str text => some text
  | _ => none

def num? : Json → Option Int
  | num n => some n
  | _ => none

end Json

end Kryfo.Library
