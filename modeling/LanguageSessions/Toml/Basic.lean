namespace LanguageSessions

inductive Toml where
  | string (s : String)
  | integer (n : Int)
  | float (text : String)
  | bool (b : Bool)
  | moment (text : String)
  | array (xs : List Toml)
  | table (entries : List (String × Toml))
  deriving Inhabited

namespace Toml

abbrev Table := List (String × Toml)

def assign (key : String) (v : Toml) : Table → Table
  | [] => [(key, v)]
  | (k, w) :: rest => if k = key then (key, v) :: rest else (k, w) :: assign key v rest

mutual

def overlay (base : Option Toml) (v : Toml) : Toml :=
  match base, v with
  | some (.table entries), .table above => .table (merge entries above)
  | _, v => v

def merge (base : Table) : Table → Table
  | [] => base
  | (key, v) :: rest => merge (assign key (overlay (base.lookup key) v) base) rest

end

end Toml

end LanguageSessions
