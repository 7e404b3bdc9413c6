import LanguageSessions.Decimal.Binary64

/-!
JSON values. The members of an object are kept in ascending order of their keys, each key once;
`insert` and `ofMembers` build such objects.
-/
namespace LanguageSessions

inductive Json where
  | null
  | bool (b : Bool)
  | integer (n : Int)
  | float (x : Binary64)
  | string (s : String)
  | array (xs : List Json)
  | object (members : List (String × Json))
  deriving Inhabited

namespace Json

def insert (key : String) (v : Json) : List (String × Json) → List (String × Json)
  | [] => [(key, v)]
  | (k, w) :: rest =>
    if key < k then (key, v) :: (k, w) :: rest
    else if key = k then (key, v) :: rest
    else (k, w) :: insert key v rest

def ofMembers (members : List (String × Json)) : Json :=
  .object (members.foldl (fun sorted m => insert m.1 m.2 sorted) [])

def ofFields (fields : List (String × Option Json)) : Json :=
  ofMembers (fields.filterMap fun f => f.2.map (f.1, ·))

def get? (key : String) : Json → Option Json
  | .object members => members.lookup key
  | _ => none

def isNull : Json → Bool
  | .null => true
  | _ => false

def isObject : Json → Bool
  | .object _ => true
  | _ => false

def members : Json → List (String × Json)
  | .object ms => ms
  | _ => []

def elements : Json → List Json
  | .array xs => xs
  | _ => []

def nat (n : Nat) : Json := .integer n

def strings (xs : List String) : Json := .array (xs.map .string)

def ofOption (v : Option Json) : Json := v.getD .null

mutual

def sorted : Json → Bool
  | .array xs => sortedAll xs
  | .object ms => sortedMembers ms
  | _ => true

def sortedAll : List Json → Bool
  | [] => true
  | x :: xs => sorted x && sortedAll xs

def sortedMembers : List (String × Json) → Bool
  | [] => true
  | [m] => sorted m.2
  | m :: m' :: ms => m.1 < m'.1 && sorted m.2 && sortedMembers (m' :: ms)

end

mutual

def same : Json → Json → Bool
  | .null, .null => true
  | .bool a, .bool b => a == b
  | .integer a, .integer b => a == b
  | .float a, .float b => a == b
  | .string a, .string b => a == b
  | .array xs, .array ys => sameAll xs ys
  | .object xs, .object ys => sameMembers xs ys
  | _, _ => false

def sameAll : List Json → List Json → Bool
  | [], [] => true
  | x :: xs, y :: ys => same x y && sameAll xs ys
  | _, _ => false

def sameMembers : List (String × Json) → List (String × Json) → Bool
  | [], [] => true
  | (k, x) :: xs, (l, y) :: ys => k == l && same x y && sameMembers xs ys
  | _, _ => false

end

instance : BEq Json := ⟨same⟩

end Json

end LanguageSessions
