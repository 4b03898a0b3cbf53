/-! # Where a table is kept

The name of a table is the path of a file. A name that begins with `file:` is more than a
path: a percent sign and two hexadecimal digits stand for a byte, a question mark begins
options that say how the file is used, and a number sign ends the name. A table without a
path, or with the path `:memory:`, is not kept.
-/

namespace Provenance

/-- How the file of a table may be used. -/
inductive Access where
  /-- The file is made if it is missing. -/
  | make
  /-- The file has to be there. -/
  | change
  /-- The file has to be there and stays as it is. -/
  | read
  /-- There is no file. -/
  | memory
  deriving DecidableEq, Repr, Inhabited

namespace Access

/-- The access of a name. -/
def ofName? : String → Option Access
  | "rwc" => some make
  | "rw" => some change
  | "ro" => some read
  | "memory" => some memory
  | _ => none

/-- How much an access asks for. -/
def demand : Access → Nat
  | memory => 0
  | read => 1
  | change => 2
  | make => 3

/-- How much may be asked for once an access is chosen. -/
def limit : Access → Nat
  | memory => 3
  | other => other.demand

end Access

/-- Where a table is kept. -/
structure Location where
  path : String
  access : Access
  deriving DecidableEq, Repr

namespace Location

/-- What stands before a byte, and what follows it. -/
def cut (c : Char) (text : List UInt8) : List UInt8 × List UInt8 :=
  let (before, rest) := text.span (· ≠ c.toUInt8)
  (before, rest.drop 1)

/-- The value of a byte as a hexadecimal digit. -/
def hexadecimal? (b : UInt8) : Option UInt8 :=
  if '0'.toUInt8 ≤ b && b ≤ '9'.toUInt8 then some (b - '0'.toUInt8)
  else if 'a'.toUInt8 ≤ b && b ≤ 'f'.toUInt8 then some (b - 'a'.toUInt8 + 10)
  else if 'A'.toUInt8 ≤ b && b ≤ 'F'.toUInt8 then some (b - 'A'.toUInt8 + 10)
  else none

/-- The byte that follows a percent sign as two digits. -/
def escaped? (text : List UInt8) : Option UInt8 :=
  match text with
  | high :: low :: _ => do return 16 * (← hexadecimal? high) + (← hexadecimal? low)
  | _ => none

/-- The bytes that a text with percent signs stands for; `skip` of them are still to be left
    out. A zero ends the text. -/
def decode : (skip : Nat) → List UInt8 → List UInt8
  | _, [] => []
  | skip + 1, _ :: rest => decode skip rest
  | 0, b :: rest =>
    match if b = '%'.toUInt8 then escaped? rest else none with
    | none => b :: decode 0 rest
    | some 0 => []
    | some byte => byte :: decode 2 rest

/-- The text of some bytes. -/
def text? (bytes : List UInt8) : Option String := String.fromUTF8? ⟨bytes.toArray⟩

/-- The options of a list with ampersands between them; each is a name, an equals sign and a
    value. Those without a name do not count. -/
def options (list : List UInt8) : List (List UInt8 × List UInt8) :=
  ((list.splitOn '&'.toUInt8).map fun option =>
    let (name, value) := cut '=' option
    (decode 0 name, decode 0 value)).filter (!·.1.isEmpty)

/-- The names of the ways to reach files; none of them makes a difference. -/
def fileDrivers : List String := ["unix", "unix-none", "unix-dotfile", "unix-excl"]

/-- The name of the way to do without files. -/
def memoryDriver : String := "memdb"

/-- What an option makes of the access that was chosen before. -/
def choose? (chosen : Access) (option : List UInt8 × List UInt8) : Option Access :=
  let value := text? option.2
  match text? option.1 with
  | some "mode" => do
    let wanted ← Access.ofName? (← value)
    if wanted.demand ≤ chosen.limit then some wanted else none
  | some "cache" => if value = some "shared" || value = some "private" then some chosen else none
  | _ => some chosen

/-- The path that is left when a way to reach files is chosen; the last choice counts. -/
def reach? (path : String) (options : List (List UInt8 × List UInt8)) : Option String :=
  match (options.filter fun option => text? option.1 = some "vfs").getLast? with
  | none => some path
  | some (_, value) => do
    let driver ← text? value
    if driver = memoryDriver then some "" else if driver ∈ fileDrivers then some path else none

/-- What follows the host that a path may begin with; the host can only be this one. -/
def afterHost? (text : List UInt8) : Option (List UInt8) :=
  let slash := '/'.toUInt8
  match text with
  | a :: b :: rest =>
    if a = slash && b = slash then
      let (host, rest) := rest.span (· ≠ slash)
      if host.isEmpty || text? host = some "localhost" then some rest else none
    else some text
  | _ => some text

/-- The location that a name with `file:` in front stands for, given what follows that. -/
def ofAddress? (address : List UInt8) : Option Location := do
  let (path, list) := cut '?' (cut '#' (← afterHost? address)).1
  let options := options list
  let access ← options.foldlM choose? .make
  pure ⟨← reach? (← text? (decode 0 path)) options, access⟩

/-- The location that a name stands for, if it stands for one. -/
def ofName? (name : String) : Option Location :=
  if name.contains '\x00' then none
  else if name.startsWith "file:" then ofAddress? (name.toUTF8.toList.drop 5)
  else some ⟨name, .make⟩

/-- Whether the table at the location is not kept. -/
def isTransient (location : Location) : Bool :=
  location.access = .memory || location.path.isEmpty || location.path = ":memory:"

end Location

end Provenance
