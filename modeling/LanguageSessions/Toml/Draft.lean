import LanguageSessions.Toml.Basic

/-!
Tables under construction. A document may come back to a table, but may define it only once: a
header defines a table that until then was only a way to others, and dotted keys extend only
tables that dotted keys made.
-/
namespace LanguageSessions.Toml

inductive Draft where
  | value (v : Toml)
  | table (implied dotted : Bool) (entries : List (String × Draft))
  | tables (ts : List Draft)
  deriving Inhabited

namespace Draft

def empty : Draft := .table false false []

def put (key : String) (d : Draft) : List (String × Draft) → List (String × Draft)
  | [] => [(key, d)]
  | (k, e) :: rest => if k = key then (key, d) :: rest else (k, e) :: put key d rest

/-- Changes the table at the end of a path, making the tables on the way that are missing. The way
goes through the last one of repeated tables, never through a value, and with dotted keys never
through a defined table. -/
def alter (dotted : Bool) (f : Draft → Option Draft) : List String → Draft → Option Draft
  | [], d => f d
  | key :: path, .table implied wasDotted entries =>
    let back (d : Draft) : Draft := .table implied wasDotted (put key d entries)
    match entries.lookup key with
    | none => (alter dotted f path (.table true dotted [])).map back
    | some (.value _) => none
    | some (.tables ts) =>
      match ts.getLast? with
      | none => none
      | some t => (alter dotted f path t).map fun t => back (.tables (ts.dropLast ++ [t]))
    | some (.table true d es) => (alter dotted f path (.table true d es)).map back
    | some (.table false d es) =>
      if dotted then none else (alter dotted f path (.table false d es)).map back
  | _, _ => none

def define (path : List String) (key : String) (v : Toml) (d : Draft) : Option Draft :=
  alter true (fun d =>
    match d with
    | .table implied dotted entries =>
      if dotted == path.isEmpty || (entries.lookup key).isSome then none
      else some (.table implied dotted (entries ++ [(key, .value v)]))
    | _ => none) path d

def defineAll (entries : List (List String × String × Toml)) (d : Draft) : Option Draft :=
  entries.foldlM (fun d e => define e.1 e.2.1 e.2.2 d) d

def defineTable (path : List String) (key : String) (body : Draft → Option Draft) (d : Draft) :
    Option Draft :=
  alter false (fun d =>
    match d with
    | .table implied dotted entries =>
      let back (t : Draft) : Draft := .table implied dotted (put key t entries)
      match entries.lookup key with
      | none => (body .empty).map back
      | some (.table true false es) => (body (.table false false es)).map back
      | some _ => none
    | _ => none) path d

def appendTable (path : List String) (key : String) (body : Draft → Option Draft) (d : Draft) :
    Option Draft :=
  alter false (fun d =>
    match d with
    | .table implied dotted entries =>
      let back (ts : List Draft) (t : Draft) : Draft :=
        .table implied dotted (put key (.tables (ts ++ [t])) entries)
      match entries.lookup key with
      | none => (body .empty).map (back [])
      | some (.tables ts) => (body .empty).map (back ts)
      | some _ => none
    | _ => none) path d

mutual

def toToml : Draft → Toml
  | .value v => v
  | .table _ _ entries => .table (entriesToToml entries)
  | .tables ts => .array (allToToml ts)

def entriesToToml : List (String × Draft) → Table
  | [] => []
  | (key, d) :: rest => (key, toToml d) :: entriesToToml rest

def allToToml : List Draft → List Toml
  | [] => []
  | d :: rest => toToml d :: allToToml rest

end

def toTable : Draft → Table
  | .table _ _ entries => entriesToToml entries
  | _ => []

end Draft

end LanguageSessions.Toml
