import ChaosPlus.PathText

/-!
# Files of a workspace

The daemon reads files of the workspace of a spawn. It resolves the path, rewrites the
separators of the result, compares that text with the workspace's and opens it; names are
split at `/` or, on Windows, at both separators. Links are not followed here.
-/
namespace WorkspaceFiles

open PathText

abbrev Text := List Char

def isSeparator (c : Char) : Bool := c = '/' || c = '\\'

/-! ### Windows paths -/

/-- A name that a host or a share can have. -/
abbrev PlainName := { name : Name // name ≠ [] ∧ ∀ c ∈ name, isSeparator c = false }

inductive Device where
  | drive (letter : { c : Char // c.isAlpha = true })
  | share (server folder : PlainName)
  deriving DecidableEq

def Device.names : Device → List Name
  | .drive letter => [[letter.1, ':']]
  | .share server folder => [[], [], server.1, folder.1]

/-- The device of the process, the current directory of each device, and the host language's
lower case; and how the file system folds the case of names. -/
structure Win32Process where
  device : Device
  dir : Device → List PlainName
  lower : Text → Text
  fold : Text → Text

structure WinPath where
  device : Device
  names : List Name
  deriving DecidableEq

def Device.text (device : Device) : Text := ['\\'].intercalate device.names

/-- A root ends in a separator. -/
def WinPath.text (path : WinPath) : Text :=
  ['\\'].intercalate (path.device.names ++ if path.names = [] then [[]] else path.names)

/-- Only the characters of the name are looked at. -/
local instance (priority := high) (name : Name) : Decidable (∀ c ∈ name, isSeparator c = false) :=
  List.decidableBAll _ _

/-- The device of a path, whether the path begins at a root, and the rest. -/
def parseRoot : List Name → Option Device × Bool × List Name
  | [] :: [] :: server :: rest =>
    match rest.dropWhile (· = []) with
    | folder :: tail =>
      if h : (server ≠ [] ∧ ∀ c ∈ server, isSeparator c = false) ∧ folder ≠ [] ∧ ∀ c ∈ folder,
        isSeparator c = false then
        (some (.share ⟨server, h.1⟩ ⟨folder, h.2⟩), true, tail)
      else (none, true, server :: rest)
    | [] => (none, true, server :: rest)
  | [] :: rest => (none, true, rest)
  | (letter :: ':' :: more) :: rest =>
    if h : letter.isAlpha = true then (some (.drive ⟨letter, h⟩), more = [] && rest ≠ [], more :: rest)
    else (none, false, (letter :: ':' :: more) :: rest)
  | names => (none, false, names)

section Win32

variable (proc : Win32Process)

/-- What is missing comes from the current directory. -/
def win32Arrive (device : Option Device) (rooted : Bool) (tail : List Name) : WinPath :=
  let device := device.getD proc.device
  ⟨device, clean (if rooted then tail else (proc.dir device).map (·.1) ++ tail)⟩

/-- From the last path to the first; a path on another device does not count. -/
def win32Walk : List Text → Option Device → Bool → List Name → WinPath
  | [], device, rooted, tail => win32Arrive proc device rooted tail
  | path :: rest, device, rooted, tail =>
    let (found, begins, names) := parseRoot (path.splitOnP isSeparator)
    if path = [] || found.any fun other => device.any fun device => proc.lower other.text ≠ proc.lower device.text then
      win32Walk rest device rooted tail
    else
      let device := device.or found
      let tail := if rooted then tail else names ++ tail
      let rooted := rooted || begins
      if rooted && device.isSome then win32Arrive proc device rooted tail
      else win32Walk rest device rooted tail

end Win32

/-! ### Both platforms -/

/-- On POSIX a process has a current directory, whose names have no slash. -/
inductive Platform where
  | posix (dir : List { name : Name // '/' ∉ name })
  | win32 (proc : Win32Process)

def posixText (names : List Name) : Text := '/' :: ['/'].intercalate names

def posixWalk (dir : List Name) : List Text → List Name → List Name
  | [], tail => clean (dir ++ tail)
  | path :: rest, tail =>
    if path = [] then posixWalk dir rest tail
    else if path.head? = some '/' then clean (path.splitOn '/' ++ tail)
    else posixWalk dir rest (path.splitOn '/' ++ tail)

/-- Where a path leads. On POSIX there is one root. -/
structure Location where
  device : Option Text
  names : List Name
  deriving DecidableEq

/-- Lexically inside a directory, or the directory itself. -/
def Location.Below (file dir : Location) : Prop := file.device = dir.device ∧ dir.names <+: file.names

instance (file dir : Location) : Decidable (file.Below dir) := inferInstanceAs (Decidable (_ ∧ _))

namespace Platform

/-- The host language's `resolve`. -/
def resolve : Platform → List Text → Text
  | .posix dir, paths => posixText (posixWalk (dir.map (·.1)) paths.reverse [])
  | .win32 proc, paths => (win32Walk proc paths.reverse none false []).text

/-- How the file system reads a text that begins at a root. -/
def location : Platform → Text → Location
  | .posix _, text => ⟨none, clean (text.splitOn '/')⟩
  | .win32 proc, text =>
    let (device, _, names) := parseRoot (text.splitOnP isSeparator)
    ⟨device.map fun device => proc.fold device.text, (clean names).map proc.fold⟩

end Platform

/-! ### The command -/

inductive Reply where
  | content (content : String)
  | error (message : String)
  deriving DecidableEq, Repr

def norm (path : Text) : Text := path.map fun c => if c = '\\' then '/' else c

section Command

variable (platform : Platform) (cwd path : Text)

def base : Text := norm (platform.resolve [cwd])

/-- The text that is compared, and opened. -/
def abs : Text := norm (platform.resolve [cwd, path])

def escapes : Bool := abs platform cwd path ≠ base platform cwd &&
  !(base platform cwd ++ ['/']).isPrefixOf (abs platform cwd path)

def openFile (fs : Text → Except String String) (file : Text) : Reply :=
  match fs file with
  | .ok content => .content content
  | .error message => .error message

def readFile (spawnCwd : String → Option Text) (fs : Text → Except String String) (spawnId : String)
    (path : Text) :
    Reply :=
  match spawnCwd spawnId with
  | none => .error ("no workspace for spawn " ++ spawnId)
  | some cwd =>
    if cwd = [] then .error ("no workspace for spawn " ++ spawnId)
    else if escapes platform cwd path then .error "path escapes workspace"
    else openFile fs (abs platform cwd path)

end Command

end WorkspaceFiles
