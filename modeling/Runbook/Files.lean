import Runbook.Text.Lines

/-!
# A tree of files

The working directory of a command as a value: which paths name files, what these hold, and which
name directories.  A path is a text of names with slashes between them; an empty name and `.` stay
where they are, `..` goes up, and every name but the last has to lead to a directory.  A path that
starts with a slash starts from a root of its own.
-/

namespace Runbook

namespace Files

/-- **What a file holds**: a text, or bytes that need not be one. -/
inductive Content
  | text (s : String)
  | bytes (bs : List UInt8)

/-- What a path names. -/
inductive Entry
  | file (content : Content)
  | directory

/-- **Why a file cannot be used.** -/
inductive Fault
  /-- The path names nothing. -/
  | notFound
  /-- The path names something already. -/
  | exists
  /-- A name on the way is not a directory. -/
  | notDirectory
  /-- The path names a directory. -/
  | isDirectory
  /-- The bytes of the file are not a text. -/
  | undecodable
deriving DecidableEq

/-- The message of a fault. -/
def Fault.message : Fault → String
  | notFound => "No such file or directory (os error 2)"
  | .exists => "File exists (os error 17)"
  | notDirectory => "Not a directory (os error 20)"
  | isDirectory => "Is a directory (os error 21)"
  | undecodable => "stream did not contain valid UTF-8"

namespace Content

/-- The text that bytes encode. -/
def decode? (bs : List UInt8) : Option String :=
  String.fromUTF8? ⟨bs.toArray⟩

/-- The text of a file. -/
def text? : Content → Option String
  | text s => some s
  | bytes bs => decode? bs

/-- The lines of bytes, as `Text.lines` cuts them. -/
def byteLines : List UInt8 → List (List UInt8)
  | [] => []
  | 10 :: rest => [] :: byteLines rest
  | 13 :: 10 :: rest => [] :: byteLines rest
  | b :: rest => Text.consLine b (byteLines rest)

/-- The lines of a file, each on its own: `none` stands for one whose bytes are not a text. -/
def lines : Content → List (Option (List Char))
  | text s => (Text.lines s.toList).map some
  | bytes bs => (byteLines bs).map fun line => (decode? line).map String.toList

/-- The content with a text after it. -/
def append : Content → String → Content
  | text s, t => text (s ++ t)
  | bytes bs, t => bytes (bs ++ t.toUTF8.toList)

end Content

end Files

/-- **A tree of files**: what each path from the working directory names.  The working directory
itself is always there. -/
structure Files where
  /-- The entries, each with the names that lead to it. -/
  entries : List (List String × Files.Entry)

namespace Files

/-- The tree with nothing in it. -/
def empty : Files := ⟨[]⟩

/-- The names that lead to the root of paths that start with a slash. -/
def root : List String := ["/"]

/-- The names of a path, which slashes part. -/
def names (path : String) : List String :=
  (path.toList.splitOn '/').map String.ofList

/-- The directory from which a path is followed. -/
def origin (path : String) : List String :=
  if path.startsWith "/" then root else []

/-- What the names lead to.  The working directory and the root are always there. -/
def find? (fs : Files) (at_ : List String) : Option Entry :=
  if at_.isEmpty || at_ == root then some .directory
  else (fs.entries.find? fun e => e.1 == at_).map Prod.snd

/-- The tree with an entry at the names, instead of any that was there. -/
def set (fs : Files) (at_ : List String) (entry : Entry) : Files :=
  match fs.entries.any fun e => e.1 == at_ with
  | true => ⟨fs.entries.map fun e => if e.1 == at_ then (at_, entry) else e⟩
  | false => ⟨fs.entries ++ [(at_, entry)]⟩

/-- Follows the names of a path from a directory. -/
def walk (fs : Files) (here : List String) : List String → Except Fault (List String)
  | [] => .ok here
  | name :: rest =>
    match fs.find? here with
    | none => .error .notFound
    | some (.file _) => .error .notDirectory
    | some .directory =>
      if name == "" || name == "." then fs.walk here rest
      else if name == ".." then fs.walk here.dropLast rest
      else fs.walk (here ++ [name]) rest

/-- The names that a path leads to; whether something is there is another question. -/
def resolve (fs : Files) (path : String) : Except Fault (List String) :=
  if path.isEmpty then .error .notFound else fs.walk (origin path) (names path)

/-- **What a path names.** -/
def entry (fs : Files) (path : String) : Except Fault Entry :=
  match fs.resolve path with
  | .error e => .error e
  | .ok at_ =>
    match fs.find? at_ with
    | some e => .ok e
    | none => .error .notFound

/-- The path names something. -/
def has (fs : Files) (path : String) : Bool :=
  match fs.entry path with
  | .ok _ => true
  | .error _ => false

/-- The path names a file. -/
def isFile (fs : Files) (path : String) : Bool :=
  match fs.entry path with
  | .ok (.file _) => true
  | _ => false

/-- The path names a directory. -/
def isDirectory (fs : Files) (path : String) : Bool :=
  match fs.entry path with
  | .ok .directory => true
  | _ => false

/-- **The content of a file.** -/
def read (fs : Files) (path : String) : Except Fault Content :=
  match fs.entry path with
  | .ok (.file content) => .ok content
  | .ok .directory => .error .isDirectory
  | .error e => .error e

/-- **The text of a file.** -/
def readText (fs : Files) (path : String) : Except Fault String :=
  match fs.read path with
  | .error e => .error e
  | .ok content =>
    match content.text? with
    | some s => .ok s
    | none => .error .undecodable

/-- Changes the content of a file, which is made empty if there is none. -/
def update (fs : Files) (path : String) (f : Content → Content) : Except Fault Files :=
  match fs.resolve path with
  | .error e => .error e
  | .ok at_ =>
    match fs.find? at_ with
    | some .directory => .error .isDirectory
    | some (.file content) => .ok (fs.set at_ (.file (f content)))
    | none =>
      match fs.find? at_.dropLast with
      | some .directory => .ok (fs.set at_ (.file (f (.text ""))))
      | some (.file _) => .error .notDirectory
      | none => .error .notFound

/-- **Gives a file a text.** -/
def write (fs : Files) (path text : String) : Except Fault Files :=
  fs.update path fun _ => .text text

/-- **Appends a text to a file.** -/
def append (fs : Files) (path text : String) : Except Fault Files :=
  fs.update path fun content => content.append text

/-- Makes every directory on the way along the names that is not there yet. -/
def makeAlong (fs : Files) (here : List String) : List String → Except Fault Files
  | [] => .ok fs
  | name :: rest =>
    if name == "" || name == "." then fs.makeAlong here rest
    else if name == ".." then fs.makeAlong here.dropLast rest
    else
      match fs.find? (here ++ [name]) with
      | some .directory => fs.makeAlong (here ++ [name]) rest
      | some (.file _) => .error (if rest.isEmpty then .exists else .notDirectory)
      | none => (fs.set (here ++ [name]) .directory).makeAlong (here ++ [name]) rest

/-- **Makes a directory** and those on the way to it; the empty path asks for nothing. -/
def makeDirectories (fs : Files) (path : String) : Except Fault Files :=
  if path.isEmpty then .ok fs else fs.makeAlong (origin path) (names path)

/-! ## Paths -/

/-- `names` without the empty ones and points at its end. -/
def dropIdle (names : List String) : List String :=
  (names.reverse.dropWhile fun n => n == "" || n == ".").reverse

/-- The path of the directory that a path stands in. -/
def parent? (path : String) : Option String :=
  match names path with
  | [] => none
  | first :: rest =>
    match dropIdle rest with
    | [] => if first.isEmpty then none else some ""
    | names =>
      match dropIdle names.dropLast with
      | [] => some (if first.isEmpty then "/" else first)
      | before => some ("/".intercalate (first :: before))

/-- The path of a name inside a directory. -/
def join (directory name : String) : String :=
  if directory.isEmpty || directory.endsWith "/" then directory ++ name
  else directory ++ "/" ++ name

/-- The last name of a path, if it ends in one. -/
def lastName? (path : String) : Option String :=
  match (dropIdle (names path)).getLast? with
  | some ".." => none
  | last => last

/-- What stands after the last point of the last name; a point that opens a name opens no
extension. -/
def extension? (path : String) : Option String :=
  match lastName? path with
  | none => none
  | some name =>
    let after := name.toList.reverse.takeWhile (· != '.')
    if after.length + 1 < name.length then some (String.ofList after.reverse) else none

/-- The tree with an entry at a path and the directories that lead to it, if there is room for
them. -/
def place (fs : Files) (path : String) (entry : Entry) : Files :=
  match entry with
  | .directory => (fs.makeDirectories path).toOption.getD fs
  | .file content =>
    match fs.makeDirectories ((parent? path).getD "") with
    | .error _ => fs
    | .ok made => (made.update path fun _ => content).toOption.getD fs

/-- The tree that a list of entries gives, with the directories that lead to them. -/
def ofList (entries : List (String × Entry)) : Files :=
  entries.foldl (fun fs e => fs.place e.1 e.2) empty

end Files

end Runbook
