import Runbook.Shell.Session

/-!
# Commands that scripts can use

What a command does, given its arguments.  The commands write text, compare texts and numbers, set
variables and end the script; they change nothing outside it.
-/

namespace Runbook.Shell

/-- What a command does: the session after it, its code, and what it writes. -/
structure Effect where
  session : Session
  status : Nat
  output : List UInt8
  diagnostics : List UInt8

namespace Session

/-- A command that only has a code. -/
def quiet (s : Session) (status : Nat) : Effect := ⟨s, status, [], []⟩

/-- A command that only writes. -/
def writing (s : Session) (bytes : List UInt8) : Effect := ⟨s, 0, bytes, []⟩

/-- A command that fails with a message as it stands. -/
def refusing (s : Session) (status : Nat) (text : String) : Effect :=
  ⟨s, status, [], Format.encode (text ++ "\n").toList⟩

/-- A command that fails with a message about a line. -/
def failing (s : Session) (line status : Nat) (text : String) : Effect :=
  s.refusing status s!"bash: line {line}: {text}"

/-- An option of `echo`. -/
def isEchoOption (a : String) : Bool :=
  match a.toList with
  | '-' :: c :: rest => (c :: rest).all fun c => c == 'n' || c == 'e' || c == 'E'
  | _ => false

/-- Writes its arguments with blanks between them. -/
def echo (s : Session) (arguments : List String) : Effect :=
  let options := (arguments.takeWhile isEchoOption).flatMap String.toList
  let text := " ".intercalate (arguments.dropWhile isEchoOption)
  let lineEnd : List UInt8 := if options.contains 'n' then [] else [10]
  if options.contains 'e' then
    let (bytes, goesOn) := Format.unescape text.toList
    s.writing (if goesOn then bytes ++ lineEnd else bytes)
  else s.writing (Format.encode text.toList ++ lineEnd)

/-- Writes its arguments as a format says. -/
def printf (s : Session) (line : Nat) (arguments : List String) : Effect :=
  match arguments with
  | [] => usage
  | ["--"] => usage
  | "--" :: format :: rest => formatted format rest
  | format :: rest => formatted format rest
where
  usage : Effect := s.refusing 2 "printf: usage: printf [-v var] format [arguments]"
  formatted (format : String) (rest : List String) : Effect :=
    let o := Format.write format rest
    let complaints := o.unfit.flatMap fun a =>
      Format.encode s!"bash: line {line}: printf: {a}: invalid number\n".toList
    ⟨s, if o.unfit.isEmpty then 0 else 1, o.bytes, complaints⟩

/-- Ends the script with a code. -/
def leave (s : Session) (code : Nat) : Effect :=
  { s with ending := some (.exited code) }.quiet code

/-- Ends the script. -/
def exit (s : Session) (line : Nat) (arguments : List String) : Effect :=
  match arguments with
  | [] => s.leave s.status
  | code :: more =>
    match code.toInt?, more with
    | some n, [] => s.leave (n % 256).toNat
    | some _, _ :: _ => s.failing line 1 "exit: too many arguments"
    | none, _ =>
      { s with ending := some (.exited 2) }.failing line 2
        s!"exit: {code}: numeric argument required"

/-- Sends a signal; one that reaches the shell itself kills it. -/
def kill (s : Session) (line : Nat) (arguments : List String) : Effect :=
  let targets := targets arguments
  let harmless := arguments.any fun a => ["-0", "-CONT", "-CHLD", "-18", "-17"].contains a
  if targets.contains processId then
    if harmless then s.quiet 0 else { s with ending := some .killed }.quiet 0
  else
    match targets with
    | [] =>
      s.refusing 2
        ("kill: usage: kill [-s sigspec | -n signum | -sigspec] pid | jobspec ..." ++
          " or kill -l [sigspec]")
    | target :: _ => s.failing line 1 s!"kill: ({target}) - No such process"
where
  /-- The processes that arguments name: neither options nor what belongs to one. -/
  targets : List String → List String
    | [] => []
    | "-s" :: _ :: rest => targets rest
    | "-n" :: _ :: rest => targets rest
    | a :: rest => if a.startsWith "-" then targets rest else a :: targets rest

/-! ## Conditions -/

/-- The integer that an operand of a comparison spells. -/
def operand (a : String) : Except String Int :=
  match a.toInt? with
  | some n => .ok n
  | none => .error s!"{a}: integer expression expected"

/-- The truth of a comparison; `none` if there is no such comparison. -/
def compare? (left operator right : String) : Option (Except String Bool) :=
  let numbers (holds : Int → Int → Bool) : Option (Except String Bool) :=
    some (do return holds (← operand left) (← operand right))
  match operator with
  | "=" => some (.ok (left == right))
  | "==" => some (.ok (left == right))
  | "!=" => some (.ok (left != right))
  | "<" => some (.ok (left < right))
  | ">" => some (.ok (right < left))
  | "-a" => some (.ok (!left.isEmpty && !right.isEmpty))
  | "-o" => some (.ok (!left.isEmpty || !right.isEmpty))
  | "-eq" => numbers (· == ·)
  | "-ne" => numbers (· != ·)
  | "-lt" => numbers (· < ·)
  | "-le" => numbers (· ≤ ·)
  | "-gt" => numbers (· > ·)
  | "-ge" => numbers (· ≥ ·)
  | _ => none

/-- The truth of a condition with one operand. -/
def single (operator a : String) : Except String Bool :=
  match operator with
  | "!" => .ok a.isEmpty
  | "-n" => .ok (!a.isEmpty)
  | "-z" => .ok a.isEmpty
  | _ => .error s!"{operator}: unary operator expected"

/-- The truth of a condition, or why it has none. -/
def condition : List String → Except String Bool
  | [] => .ok false
  | [a] => .ok (!a.isEmpty)
  | [operator, a] => single operator a
  | [a, operator, b] =>
    match compare? a operator b with
    | some result => result
    | none =>
      if a = "!" then (single operator b).map (!·)
      else if a = "(" && b = ")" then .ok (!operator.isEmpty)
      else .error s!"{operator}: binary operator expected"
  | "!" :: rest => (condition rest).map (!·)
  | _ => .error "too many arguments"

/-- Tests a condition. -/
def test (s : Session) (line : Nat) (name : String) (arguments : List String) : Effect :=
  match condition arguments with
  | .ok true => s.quiet 0
  | .ok false => s.quiet 1
  | .error reason => s.failing line 2 s!"{name}: {reason}"

/-! ## All commands -/

/-- Sets a variable. -/
def set (s : Session) (name value : String) : Session :=
  { s with values := s.values.put name value }

/-- Sets the variables that arguments assign. -/
def assignAll (s : Session) (arguments : List String) : Session :=
  arguments.foldl
    (fun s a =>
      match a.splitOn "=" with
      | name :: value@(_ :: _) => s.set name ("=".intercalate value)
      | _ => s)
    s

/-- An argument switches an option by this sign, whose letter is `e`. -/
def switches (sign : Char) (a : String) : Bool :=
  match a.toList with
  | c :: letters => c == sign && letters.contains 'e'
  | [] => false

/-- **What a command does.** -/
def perform (s : Session) (line : Nat) (name : String) (arguments : List String) : Effect :=
  match name with
  | "echo" => s.echo arguments
  | "printf" => s.printf line arguments
  | "true" => s.quiet 0
  | ":" => s.quiet 0
  | "sleep" => s.quiet 0
  | "false" => s.quiet 1
  | "exit" => s.exit line arguments
  | "kill" => s.kill line arguments
  | "cat" => { s with input := [] }.writing s.input
  | "test" => s.test line "test" arguments
  | "[" =>
    if arguments.getLast? = some "]" then s.test line "[" arguments.dropLast
    else s.failing line 2 "[: missing \x60]'"
  | "export" => (s.assignAll arguments).quiet 0
  | "unset" =>
    { s with values := s.values.filter fun v => !arguments.contains v.1 }.quiet 0
  | "set" =>
    if arguments.any (switches '-') then { s with stopsOnFailure := true }.quiet 0
    else if arguments.any (switches '+') then { s with stopsOnFailure := false }.quiet 0
    else s.quiet 0
  | _ =>
    if name.toList.contains '/' then s.failing line 127 s!"{name}: No such file or directory"
    else s.failing line 127 s!"{name}: command not found"

end Session

end Runbook.Shell
