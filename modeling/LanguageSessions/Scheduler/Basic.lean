import LanguageSessions.Workspace.Path

/-!
Tasks of files. A file has tasks by name; each has at most one run ahead, marked by a token.
Scheduling a task again cancels the token of its last schedule, so that requests in quick succession
become one run. A run waits for its delay, then for its turn in the background lane, which does one
job at a time.
-/
namespace LanguageSessions

structure Task where
  name : String
  object : Nat
  deriving DecidableEq, Repr

abbrev Token := Nat

structure TaskEntry where
  task : Task
  token : Token
  deriving DecidableEq, Repr

structure FileTasks where
  file : String
  entries : List TaskEntry
  deriving DecidableEq, Repr

structure TaskRun where
  file : String
  task : Task
  token : Token
  deriving DecidableEq, Repr

structure Armed where
  run : TaskRun
  due : Nat
  deriving DecidableEq, Repr

inductive Job where
  | run (r : TaskRun)
  | rerunAll
  | own (n : Nat)
  deriving DecidableEq, Repr

structure Scheduler where
  debounce : Nat
  files : List FileTasks := []
  nextToken : Token := 0
  cancelled : List Token := []
  armed : List Armed := []
  background : List Job := []
  events : List Job := []
  deriving Repr

inductive RunEnd where
  | finished
  | interrupted
  | failed
  deriving DecidableEq, Repr

def samePath (p q : String) : Bool := Path.steps p == Path.steps q

namespace FileTasks

def entry (f : FileTasks) (name : String) : Option TaskEntry :=
  f.entries.find? (·.task.name == name)

def put (f : FileTasks) (e : TaskEntry) : FileTasks :=
  if f.entries.any (·.task.name == e.task.name) then
    { f with entries := f.entries.map fun o => if o.task.name == e.task.name then e else o }
  else { f with entries := f.entries ++ [e] }

end FileTasks

namespace Scheduler

def tasksOf? (s : Scheduler) (file : String) : Option FileTasks :=
  s.files.find? fun f => samePath f.file file

def entryOf? (s : Scheduler) (file name : String) : Option TaskEntry :=
  (s.tasksOf? file).bind (·.entry name)

def isCancelled (s : Scheduler) (t : Token) : Bool := s.cancelled.contains t

def cancelToken (s : Scheduler) (t : Token) : Scheduler :=
  { s with cancelled := t :: s.cancelled, armed := s.armed.filter (·.run.token != t) }

/-- Lets a run wait for a delay. Without one it is due at once, but it takes its place in the lane
only when it is posted, and until then it can be cancelled like any other. -/
def arm (s : Scheduler) (r : TaskRun) (delay now : Nat) : Scheduler :=
  { s with armed := s.armed ++ [⟨r, now + delay⟩] }

def register (s : Scheduler) (file : String) (task : Task) : Scheduler :=
  let e : TaskEntry := ⟨task, s.nextToken⟩
  let s := match s.entryOf? file task.name with
    | some old => s.cancelToken old.token
    | none => s
  let files := if s.files.any fun f => samePath f.file file then
      s.files.map fun f => if samePath f.file file then f.put e else f
    else s.files ++ [⟨file, [e]⟩]
  { s with files := files, nextToken := s.nextToken + 1 }

def install (s : Scheduler) (file : String) (task : Task) (delay now : Nat) : Scheduler :=
  (s.register file task).arm ⟨file, task, s.nextToken⟩ delay now

def schedule (s : Scheduler) (file : String) (task : Task) (now : Nat) : Scheduler :=
  s.install file task s.debounce now

def reschedule (s : Scheduler) (file name : String) (now : Nat) : Scheduler × Bool :=
  match s.entryOf? file name with
  | none => (s, false)
  | some e => (s.install file e.task s.debounce now, true)

def cancel (s : Scheduler) (file name : String) : Scheduler × Bool :=
  match s.entryOf? file name with
  | none => (s, false)
  | some e =>
    let files := s.files.map fun f =>
      if samePath f.file file then
        { f with entries := f.entries.filter (·.task.name != name) } else f
    ({ s with files := files.filter fun f => !f.entries.isEmpty }.cancelToken e.token, true)

def cancelAll (s : Scheduler) (file : String) : Scheduler × Nat :=
  match s.tasksOf? file with
  | none => (s, 0)
  | some tasks =>
    let s := { s with files := s.files.filter fun f => !samePath f.file file }
    (tasks.entries.foldl (fun s e => s.cancelToken e.token) s, tasks.entries.length)

/-- Runs all tasks of a file without a delay. The table of tasks has no order of its own: the one in
which they were first scheduled stands for any, as does that of the files in `rerunAll`. -/
def runAllNow (s : Scheduler) (file : String) (now : Nat) : Scheduler :=
  match s.tasksOf? file with
  | none => s
  | some tasks => tasks.entries.foldl (fun s e => s.install file e.task 0 now) s

def rerunAll (s : Scheduler) (now : Nat) : Scheduler :=
  (s.files.map FileTasks.file).foldl (fun s file => s.runAllNow file now) s

def taskNames (s : Scheduler) (file : String) : List String :=
  (((s.tasksOf? file).map FileTasks.entries).getD []).map (·.task.name)
    |>.mergeSort fun a b => !(b < a)

def fileNames (s : Scheduler) : List String := s.files.map FileTasks.file

def expire (s : Scheduler) (now : Nat) : Scheduler :=
  let (ended, waiting) := s.armed.partition (·.due ≤ now)
  { s with armed := waiting, background := s.background ++ ended.map fun a => .run a.run }

def due? (s : Scheduler) : Option Nat := (s.armed.map Armed.due).min?

def post (s : Scheduler) (j : Job) : Scheduler := { s with background := s.background ++ [j] }

def postEvent (s : Scheduler) (j : Job) : Scheduler := { s with events := s.events ++ [j] }

/-- A run has ended; one that was interrupted waits for the delay again, unless its token was
cancelled. -/
def ended (s : Scheduler) (r : TaskRun) (e : RunEnd) (now : Nat) : Scheduler :=
  match e with
  | .interrupted => if s.isCancelled r.token then s else s.arm r s.debounce now
  | _ => s

end Scheduler

end LanguageSessions
