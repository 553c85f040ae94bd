import Runbook.Shell.Token

/-!
# Commands of a script

The tokens of a script as commands: simple ones, and those that are made of others.  A script is
read in portions that end at a line end outside every command; a portion that cannot be read ends
the script, and nothing of it is run.
-/

namespace Runbook.Shell

/-- Where the output of a descriptor goes. -/
structure Redirection where
  /-- The descriptor whose output is sent elsewhere. -/
  descriptor : Nat
  /-- The target names a descriptor. -/
  duplicate : Bool
  /-- The target. -/
  target : Word

/-- **A command.** -/
inductive Command
  /-- Does nothing. -/
  | nothing
  /-- Words, the name of the command first, on a line. -/
  | simple (words : List Word) (redirections : List Redirection) (line : Nat)
  /-- Fails where the command succeeds. -/
  | not (c : Command)
  /-- The right command reads what the left one writes. -/
  | pipe (left right : Command)
  /-- The right command runs if the left one succeeds. -/
  | and (left right : Command)
  /-- The right command runs if the left one fails. -/
  | or (left right : Command)
  /-- One command after the other. -/
  | seq (left right : Command)
  /-- One of two commands, as a test says. -/
  | branch (test yes no : Command)
  /-- A command for every field of words, to which a variable is set. -/
  | each (name : String) (words : List Word) (body : Command)
  /-- A command whose output goes elsewhere as a whole. -/
  | group (c : Command) (redirections : List Redirection)
  /-- A command that changes nothing but outputs. -/
  | subshell (c : Command) (redirections : List Redirection)

/-- What keeps a script from being read on. -/
inductive Fault
  /-- A token stands where it cannot. -/
  | unexpected (text : String) (line : Nat)
  /-- The script ends inside a command. -/
  | unexpectedEnd
  /-- A quote is never closed. -/
  | unclosed (quote : Char) (line : Nat)
deriving DecidableEq

namespace Command

/-- A command that was read, and the tokens after it. -/
abbrev Parsed (α : Type) := Except Fault (α × List Token)

/-- The word that a token spells, if all of it is unquoted text. -/
def keyword? : Token → Option String
  | .word [.text cs false] _ => some (String.ofList cs)
  | _ => none

/-- Words that open, join or close a command that is made of others. -/
def reserved : List String :=
  ["if", "then", "elif", "else", "fi", "for", "do", "done", "while", "until", "case", "esac",
    "\x7b", "\x7d", "!"]

/-- A token stands where it cannot. -/
def refuse {α : Type} : List Token → Parsed α
  | [] => .error .unexpectedEnd
  | .unclosed quote line :: _ => .error (.unclosed quote line)
  | .operator op line :: _ => .error (.unexpected op.spelling line)
  | .word w line :: _ =>
    let text := w.flatMap fun p => match p with
      | .text cs _ => cs
      | .variable name _ => '$' :: name.toList
      | .output script _ => script
    .error (.unexpected (String.ofList text) line)

/-- The tokens after a word. -/
def expect (word : String) : List Token → Parsed Unit
  | t :: rest => if keyword? t == some word then .ok ((), rest) else refuse (t :: rest)
  | [] => refuse []

/-- The tokens after line ends. -/
def skipLineEnds : List Token → List Token
  | .operator .lineEnd _ :: rest => skipLineEnds rest
  | rest => rest

/-- The redirections at the start of tokens. -/
def redirections : List Token → Parsed (List Redirection)
  | .operator (.output descriptor duplicate) _ :: .word w _ :: rest =>
    match redirections rest with
    | .error e => .error e
    | .ok (more, tail) => .ok (⟨descriptor, duplicate, w⟩ :: more, tail)
  | .operator (.output _ _) _ :: rest =>
    match rest with
    | [] => .error (.unexpected "newline" 1)
    | rest => refuse rest
  | rest => .ok ([], rest)

/-- The rest of a simple command. -/
def simpleRest (words : List Word) (outputs : List Redirection) (line : Nat) :
    List Token → Parsed Command
  | .word w line :: rest => simpleRest (words ++ [w]) outputs line rest
  | .operator (.output descriptor duplicate) _ :: .word w line :: rest =>
    simpleRest words (outputs ++ [⟨descriptor, duplicate, w⟩]) line rest
  | .operator (.output _ _) line :: rest =>
    match rest with
    | [] => .error (.unexpected "newline" line)
    | rest => refuse rest
  | .unclosed quote line :: _ => .error (.unclosed quote line)
  | rest => .ok (.simple words outputs line, rest)

/-- The words of a loop, up to the end of its line. -/
def loopWords (words : List Word) : List Token → Parsed (List Word)
  | .word w _ :: rest => loopWords (words ++ [w]) rest
  | .operator .lineEnd _ :: rest => .ok (words, rest)
  | .operator .semicolon _ :: rest => .ok (words, rest)
  | rest => refuse rest

/-- The tokens stand where a list of commands ends. -/
def endsList : List Token → Bool
  | [] => true
  | .operator .closeParen _ :: _ => true
  | t :: _ => match keyword? t with
    | some w => ["then", "elif", "else", "fi", "do", "done", "\x7d"].contains w
    | none => false

mutual

/-- A command that is not made of others by operators. -/
def primary (fuel : Nat) (tokens : List Token) : Parsed Command :=
  match fuel with
  | 0 => refuse tokens
  | fuel + 1 =>
    match tokens with
    | .operator .openParen _ :: rest =>
      match list fuel rest with
      | .ok (c, .operator .closeParen _ :: tail) =>
        (redirections tail).map fun (outputs, tail) => (.subshell c outputs, tail)
      | .ok (_, tail) => refuse tail
      | .error e => .error e
    | .operator (.output _ _) line :: _ => simpleRest [] [] line tokens
    | t :: rest =>
      match keyword? t with
      | some "\x7b" =>
        match list fuel rest with
        | .error e => .error e
        | .ok (c, tail) =>
          match expect "\x7d" tail with
          | .error e => .error e
          | .ok (_, tail) =>
            (redirections tail).map fun (outputs, tail) => (.group c outputs, tail)
      | some "if" => conditional fuel rest
      | some "for" => loop fuel rest
      | some w =>
        if reserved.contains w then refuse tokens else simpleRest [] [] 0 tokens
      | none =>
        match t with
        | .word _ line => simpleRest [] [] line tokens
        | _ => refuse tokens
    | [] => refuse []

/-- A conditional, after its first word or `elif`. -/
def conditional (fuel : Nat) (tokens : List Token) : Parsed Command :=
  match fuel with
  | 0 => refuse tokens
  | fuel + 1 =>
    match list fuel tokens with
    | .error e => .error e
    | .ok (test, tail) =>
      match expect "then" tail with
      | .error e => .error e
      | .ok (_, tail) =>
        match list fuel tail with
        | .error e => .error e
        | .ok (_, []) => refuse []
        | .ok (yes, t :: tail) =>
          match keyword? t with
          | some "elif" =>
            (conditional fuel tail).map fun (no, tail) => (.branch test yes no, tail)
          | some "else" =>
            match list fuel tail with
            | .error e => .error e
            | .ok (no, tail) =>
              (expect "fi" tail).map fun (_, tail) => (.branch test yes no, tail)
          | some "fi" => .ok (.branch test yes .nothing, tail)
          | _ => refuse (t :: tail)

/-- A loop over words, after its first word. -/
def loop (fuel : Nat) (tokens : List Token) : Parsed Command :=
  match fuel, tokens with
  | fuel + 1, name :: word :: rest =>
    match keyword? name, keyword? word with
    | some name, some "in" =>
      match loopWords [] rest with
      | .error e => .error e
      | .ok (words, tail) =>
        match expect "do" (skipLineEnds tail) with
        | .error e => .error e
        | .ok (_, tail) =>
          match list fuel tail with
          | .error e => .error e
          | .ok (body, tail) =>
            (expect "done" tail).map fun (_, tail) => (.each name words body, tail)
    | _, _ => refuse (word :: rest)
  | _, _ => refuse tokens

/-- Commands joined by bars. -/
def pipeline (fuel : Nat) (tokens : List Token) : Parsed Command :=
  match fuel with
  | 0 => refuse tokens
  | fuel + 1 =>
    match tokens with
    | t :: rest =>
      if keyword? t == some "!" then
        (pipeline fuel rest).map fun (c, tail) => (.not c, tail)
      else pipes fuel tokens
    | [] => refuse []

/-- Commands joined by bars, of which none is turned round. -/
def pipes (fuel : Nat) (tokens : List Token) : Parsed Command :=
  match fuel with
  | 0 => refuse tokens
  | fuel + 1 =>
    match primary fuel tokens with
    | .ok (c, .operator .pipe _ :: tail) =>
      (pipes fuel (skipLineEnds tail)).map fun (right, tail) => (.pipe c right, tail)
    | other => other

/-- Pipelines joined by `and` and `or`, after the first of them. -/
def chain (fuel : Nat) (left : Command) (tokens : List Token) : Parsed Command :=
  match fuel with
  | 0 => refuse tokens
  | fuel + 1 =>
    match tokens with
    | .operator .and _ :: rest =>
      match pipeline fuel (skipLineEnds rest) with
      | .error e => .error e
      | .ok (right, tail) => chain fuel (.and left right) tail
    | .operator .or _ :: rest =>
      match pipeline fuel (skipLineEnds rest) with
      | .error e => .error e
      | .ok (right, tail) => chain fuel (.or left right) tail
    | rest => .ok (left, rest)

/-- The commands of a list, which must not be empty, with line ends and semicolons between them. -/
def list (fuel : Nat) (tokens : List Token) : Parsed Command :=
  match fuel with
  | 0 => refuse tokens
  | fuel + 1 =>
    match pipeline fuel (skipLineEnds tokens) with
    | .error e => .error e
    | .ok (first, tail) =>
      match chain fuel first tail with
      | .error e => .error e
      | .ok (first, tail) =>
        match tail with
        | .operator .lineEnd _ :: _ => listRest fuel first (skipLineEnds tail)
        | .operator .semicolon _ :: rest => listRest fuel first (skipLineEnds rest)
        | tail => .ok (first, tail)

/-- The commands of a list after the first and its end. -/
def listRest (fuel : Nat) (first : Command) (tokens : List Token) : Parsed Command :=
  match fuel with
  | 0 => refuse tokens
  | fuel + 1 =>
    if endsList tokens then .ok (first, tokens)
    else (list fuel tokens).map fun (c, tail) => (.seq first c, tail)

end

/-- The commands of a line, and the tokens from its end on. -/
def unit (fuel : Nat) (tokens : List Token) : Parsed Command :=
  match fuel with
  | 0 => refuse tokens
  | fuel + 1 =>
    match pipeline fuel tokens with
    | .error e => .error e
    | .ok (first, tail) =>
      match chain fuel first tail with
      | .error e => .error e
      | .ok (first, tail) =>
        match tail with
        | [] => .ok (first, [])
        | .operator .lineEnd line :: rest => .ok (first, .operator .lineEnd line :: rest)
        | .operator .semicolon _ :: rest =>
          match rest with
          | [] => .ok (first, [])
          | .operator .lineEnd line :: rest => .ok (first, .operator .lineEnd line :: rest)
          | rest => (unit fuel rest).map fun (c, tail) => (.seq first c, tail)
        | tail => refuse tail

end Command

/-- **A part of a script that is read and run as a whole.** -/
structure Portion where
  /-- What is run. -/
  command : Command
  /-- The line at whose end it ends; `none` if nothing comes after it. -/
  line : Option Nat

namespace Command

/-- The portions of a script, up to one that cannot be read. -/
def portions (fuel : Nat) (tokens : List Token) : List (Except Fault Portion) :=
  match fuel with
  | 0 => []
  | fuel + 1 =>
    match skipLineEnds tokens with
    | [] => []
    | tokens =>
      match unit (8 * tokens.length + 8) tokens with
      | .error e => [.error e]
      | .ok (c, []) => [.ok ⟨c, none⟩]
      | .ok (c, t :: rest) =>
        .ok ⟨c, some t.line⟩ :: portions fuel (t :: rest)

end Command

/-- **The portions of a script**, up to one that cannot be read. -/
def portions (script : List Char) : List (Except Fault Portion) :=
  let tokens := Token.scan script
  Command.portions (tokens.length + 1) tokens

end Runbook.Shell
