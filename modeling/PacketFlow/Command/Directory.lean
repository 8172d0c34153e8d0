import PacketFlow.Command.Host

/-!
A directory of files in memory. Its files can stand in directories inside it; a directory is there
if a file is in it. Nothing outside the directory can be reached.
-/
namespace PacketFlow.Command

/-- The files by where they stand: the names to go through, the file's own in last place. -/
structure Directory where
  files : List (List String × ByteArray)

namespace Directory

/-- The content of the file that stands there. -/
def content? (d : Directory) (place : List String) : Option ByteArray :=
  (d.files.find? fun file => file.1 == place).map Prod.snd

/-- Whether a directory stands there. -/
def isDirectory (d : Directory) (place : List String) : Bool :=
  place.isEmpty || d.files.any fun file => place.isPrefixOf file.1 && place != file.1

/-- Goes on from a place through the steps of a path. Every step starts from a directory. -/
def walk? (d : Directory) (place : List String) : List String → Option (List String)
  | [] => some place
  | step :: rest =>
    if !d.isDirectory place then none
    else if step == "" || step == "." then d.walk? place rest
    else if step == ".." then
      if place.isEmpty then none else d.walk? place.dropLast rest
    else d.walk? (place ++ [step]) rest

/-- The longest name that a file can have, in bytes. -/
def maxNameSize : Nat :=
  255

/-- The longest path that is followed, in bytes. -/
def maxPathSize : Nat :=
  4095

/-- Whether a path is one that can be followed inside the directory. -/
def isPath (path : String) (steps : List String) : Bool :=
  !path.isEmpty && path.toList.head? != some '/' && !path.toList.contains '\x00' &&
    path.utf8ByteSize ≤ maxPathSize && steps.all (·.utf8ByteSize ≤ maxNameSize)

/-- The place to which a path leads, whether or not anything is there. -/
def place? (d : Directory) (path : String) : Option (List String) :=
  let steps := (path.toList.splitOnP (· == '/')).map String.ofList
  if isPath path steps then d.walk? [] steps else none

/-- The content of the file at a path. -/
def read? (d : Directory) (path : String) : Option ByteArray :=
  (d.place? path).bind d.content?

/-- Whether there is a file or a directory at a path. -/
def has (d : Directory) (path : String) : Bool :=
  (d.place? path).any fun place => d.isDirectory place || (d.content? place).isSome

/-- The directory with that content in place of the file that stands there, or added to it. -/
def put (d : Directory) (place : List String) (content : ByteArray) : Directory :=
  ⟨(place, content) :: d.files.filter fun file => file.1 != place⟩

/-- The directory after a file has been written, if that can be done. -/
def write? (d : Directory) (path : String) (content : ByteArray) : Option Directory := do
  let place ← d.place? path
  if d.isDirectory place then none else some (d.put place content)

/-- A directory with the given files. A name that leads nowhere is passed over. -/
def ofFiles (files : List (String × ByteArray)) : Directory :=
  files.foldl
    (fun d (name, content) => d.put ((name.toList.splitOnP (· == '/')).map String.ofList) content)
    ⟨[]⟩

/-- The directory as a host, with those bytes on standard input. -/
def host (input : ByteArray) : Host (StateM Directory) where
  read? path := do return ((← get).read? path).bind String.fromUTF8?
  readInput? := return String.fromUTF8? input
  has path := do return (← get).has path
  write path text := do
    match (← get).write? path text.toUTF8 with
    | some d =>
      set d
      return true
    | none => return false

end Directory

end PacketFlow.Command
