namespace LanguageSessions.Shell

inductive RedirectionKind where
  | anew
  | append
  | stream
  deriving DecidableEq, Repr

mutual

inductive Piece where
  | text (s : String) (quoted : Bool)
  | value (parameter : String) (quoted : Bool)
  | length (parameter : String)
  | trimmed (parameter : String) (atEnd : Bool) (pattern : List Piece) (quoted : Bool)
  | output (commands : List Instruction) (quoted : Bool)

inductive Redirection where
  | mk (stream : Nat) (kind : RedirectionKind) (target : List Piece)

inductive Instruction where
  | simple (assignments : List (String × List Piece)) (words : List (List Piece))
      (redirections : List Redirection)
  | loop (condition body : List Instruction)
  | branch (condition yes no : List Instruction)
  | each (name : String) (words : List (List Piece)) (body : List Instruction)
  | choice (word : List Piece) (arms : List (List (List Piece) × List Instruction))
  | define (name : String) (body : List Instruction)
  | group (body : List Instruction)
  | negated (i : Instruction)
  | both (first second : Instruction)
  | either (first second : Instruction)
  | pipe (first second : Instruction)

end

instance : Inhabited Instruction := ⟨.simple [] [] []⟩

abbrev Word := List Piece

end LanguageSessions.Shell
