import LanguageSessions.Session.Basic

namespace LanguageSessions

structure Attachment where
  root : String
  byExtension : List (String × SessionId)
  deriving DecidableEq, Repr

structure Tables where
  byKey : List (SessionKey × SessionId) := []
  lastUse : List (SessionId × Nat) := []
  attached : List Attachment := []
  deriving Repr

namespace Tables

def assign [BEq α] (key : α) (value : β) (entries : List (α × β)) : List (α × β) :=
  if entries.any (·.1 == key) then entries.map fun e => if e.1 == key then (key, value) else e
  else entries ++ [(key, value)]

def without [BEq α] (key : α) (entries : List (α × β)) : List (α × β) :=
  entries.filter fun e => !(e.1 == key)

def find? (t : Tables) (key : SessionKey) : Option SessionId := t.byKey.lookup key

def touch (t : Tables) (id : SessionId) (now : Nat) : Tables :=
  { t with lastUse := assign id now t.lastUse }

def insert (t : Tables) (key : SessionKey) (id : SessionId) (now : Nat) : Tables :=
  ({ t with byKey := assign key id t.byKey } : Tables).touch id now

def dropKey (t : Tables) (key : SessionKey) : Tables := { t with byKey := without key t.byKey }

def dropUse (t : Tables) (id : SessionId) : Tables := { t with lastUse := without id t.lastUse }

/-- Removes a session that was made for a key, and the key where it leads to the session or to
nothing any more. -/
def forget (t : Tables) (upgrade? : SessionId → Option SessionId) (key : SessionKey)
    (id : SessionId) : Tables :=
  let t := t.dropUse id
  if (t.find? key).any fun other => (upgrade? other).all (· == id) then t.dropKey key else t

def expired (t : Tables) (window now : Nat) : List SessionId :=
  (t.lastUse.filter fun e => e.2 + window < now).map (·.1)

def rootOf? (t : Tables) (h : Host) (file : String) : Option Attachment :=
  t.attached.find? fun a => isUnder h a.root file

def attach (t : Tables) (root : String) (extensions : List String) (id : SessionId) : Tables :=
  let entries := extensions.foldl (fun es ext => assign ext id es) []
  if t.attached.any fun a => Path.steps a.root == Path.steps root then
    { t with attached := t.attached.map fun a =>
        if Path.steps a.root == Path.steps root then { a with byExtension := entries } else a }
  else { t with attached := t.attached ++ [⟨root, entries⟩] }

def attachedTo (t : Tables) (root : String) : List SessionId :=
  match t.attached.find? fun a => Path.steps a.root == Path.steps root with
  | none => []
  | some a => (a.byExtension.map (·.2)).eraseDups

def detach (t : Tables) (root : String) (id : SessionId) : Tables :=
  { t with attached := t.attached.map fun a =>
      if a.root == root then { a with byExtension := a.byExtension.filter (·.2 != id) } else a }

def attachedSessions (t : Tables) : List SessionId :=
  t.attached.flatMap fun a => a.byExtension.map (·.2)

def held (t : Tables) : List SessionId := t.lastUse.map (·.1) ++ t.attachedSessions

end Tables

end LanguageSessions
