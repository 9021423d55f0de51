import BoardProxy.DaemonState

/-!
# Loading the configuration

A parsed TOML document is a tree. A table is the list of its entries in the order of
the map. Of a floating point number only the whole number it is equal to matters, and
of dates and times nothing. The loader works on copies of the document, and the copy
of a node has no position in the file. It throws a `runtime_error`, or it runs into
undefined behaviour: a null pointer or an empty `optional` that is read.
-/

namespace BoardProxy

structure SourcePosition where
  line : ℕ
  column : ℕ
deriving DecidableEq

namespace SourcePosition

def print (p : SourcePosition) : Bytes :=
  ascii "line " ++ ascii p.line.repr ++ ascii ", column " ++ ascii p.column.repr

/-- The position of a copied node. Its region has no path, either. -/
def copied : SourcePosition := ⟨0, 0⟩

end SourcePosition

inductive Toml
  | table (entries : List (Bytes × Toml))
  | array (items : List Toml)
  | string (value : Bytes)
  | integer (value : ℤ)
  | floating (whole : Option ℤ)
  | boolean (value : Bool)
  | date
  | time
  | dateTime

/-- The library calls of the loader: what `value<uint16_t>()` makes of a boolean,
and `fmt::vformat` with its named arguments, which throws a `runtime_error`. -/
structure ConfigLib where
  flag : Bool → Option ℕ
  vformat : Bytes → List (Bytes × Bytes) → Except Bytes Bytes

namespace Toml

structure Table where
  entries : List (Bytes × Toml)

def asTable : Toml → Option Table
  | table entries => some ⟨entries⟩
  | _ => none

def string? : Toml → Option Bytes
  | string s => some s
  | _ => none

def nodeIntegerCast (n : ℤ) : Option ℕ := if 0 ≤ n ∧ n ≤ 65535 then some n.toNat else none

/-- `value<uint16_t>()`. -/
def uint16? (lib : ConfigLib) : Toml → Option ℕ
  | integer n => nodeIntegerCast n
  | floating whole => whole.bind nodeIntegerCast
  | boolean b => lib.flag b
  | _ => none

namespace Table

/-- `board[key]`, `none` for a view of no node. -/
def find (t : Table) (key : Bytes) : Option Toml :=
  (KeyedList.lookup Prod.fst key t.entries).map Prod.snd

def string? (t : Table) (key : Bytes) : Option Bytes := (t.find key).bind Toml.string?

/-- `value_or("")`, whose result is a `const char*`. -/
def valueOr (t : Table) (key : Bytes) : Bytes := ((t.string? key).map cStr).getD []

end Table
end Toml

open Toml (Table)

inductive LoadError
  | runtimeError (what : Bytes)
  | nullDereference
  | emptyOptional
deriving DecidableEq

section Loader

variable (lib : ConfigLib)

def templateArg (entry : Bytes × Toml) : Except LoadError (Bytes × Bytes) :=
  match entry.2.string? with
  | none => .error (.runtimeError (ascii "value for " ++ entry.1 ++ ascii " is not string (at " ++
      SourcePosition.copied.print ++ ascii ")"))
  | some s => .ok (cStr entry.1, cStr s)

def getBoardField (key templ : Bytes) (board : Table) : Except LoadError Bytes :=
  match board.find key with
  | none =>
    match board.entries.mapM templateArg with
    | .error e => .error e
    | .ok args =>
      match lib.vformat templ args with
      | .error what => .error (.runtimeError what)
      | .ok s => .ok s
  | some node =>
    match node.string? with
    | none => .error (.runtimeError (key ++ ascii " is not a string at " ++
        SourcePosition.copied.print))
    | some s => .ok (cStr s)

/-- C++ leaves open in which order the two fields are made. -/
def createBoard (id commandTemplate closeCommandTemplate : Bytes) (board : Table) :
    Except LoadError BoardSpec :=
  match board.string? (ascii "ip_address") with
  | none => .error (.runtimeError (ascii "no or invalid ip_address for board at " ++
      SourcePosition.copied.print))
  | some ipAddress => do
    let command ← getBoardField lib (ascii "command") commandTemplate board
    let closeCommand ← getBoardField lib (ascii "close_command") closeCommandTemplate board
    return ⟨id, command, ipAddress, closeCommand, board.valueOr (ascii "reserved_for")⟩

/-- The text of the error for an entry that is not a table reads the position
through the null pointer that was just found. -/
def parseBoard (commandTemplate closeCommandTemplate : Bytes) (entry : Bytes × Toml) :
    Except LoadError BoardSpec :=
  match entry.2.asTable with
  | none => .error .nullDereference
  | some board => createBoard lib entry.1 commandTemplate closeCommandTemplate board

def parseBoards (filename : Bytes) (cfg : Table) : Except LoadError (List BoardSpec) :=
  match (cfg.find (ascii "boards")).bind Toml.asTable with
  | none => .error (.runtimeError (filename ++ ascii ": boards is not TOML table"))
  | some boards => boards.entries.mapM
      (parseBoard lib ((cfg.string? (ascii "command_template")).getD [])
        ((cfg.string? (ascii "close_command_template")).getD []))

def parseSocket (filename : Bytes) (entry : Bytes × Toml) : Except LoadError ProxyFactory :=
  match entry.2.asTable with
  | none => .error .nullDereference
  | some socket =>
    match socket.string? (ascii "type") with
    | none => .error (.runtimeError (filename ++ ascii ": sockets." ++ entry.1 ++
        ascii ".type missing (at " ++ SourcePosition.copied.print ++ ascii ")"))
    | some type =>
      if type = ascii "tcp" then
        match (socket.find (ascii "port")).bind (Toml.uint16? lib) with
        | none => .error .emptyOptional
        | some port => .ok (.tcp entry.1 port)
      else if type = ascii "wrproxy" then .ok (.wr entry.1)
      else .error (.runtimeError (filename ++ ascii ": Unexpected sockets." ++ entry.1 ++
        ascii ".type (at " ++ SourcePosition.copied.print ++ ascii ")"))

def parseSockets (filename : Bytes) (cfg : Table) : Except LoadError (List ProxyFactory) :=
  match cfg.find (ascii "sockets") with
  | none => .ok []
  | some node =>
    match node.asTable with
    | none => .error (.runtimeError (filename ++ ascii ": sockets is not TOML table"))
    | some sockets => sockets.entries.mapM (parseSocket lib filename)

structure Config where
  sockDir : Bytes
  boards : List BoardSpec
  proxyFactories : List ProxyFactory
deriving DecidableEq

/-- `toml::parse_error`, whose path is set because the file has a name. -/
structure ParseError where
  description : Bytes
  path : Bytes
  position : SourcePosition

def ParseError.what (err : ParseError) : Bytes :=
  ascii "Error parsing file '" ++ err.path ++ ascii "': " ++ err.description ++ ascii " (" ++
    err.position.print ++ ascii ")"

/-- `Config::Config`, with the result of `toml::parse_file`. -/
def Config.load (filename : Bytes) (parsed : Except ParseError Table) : Except LoadError Config :=
  if filename = [] then .ok ⟨[], [], []⟩
  else
    match parsed with
    | .error err => .error (.runtimeError err.what)
    | .ok cfg => do
      let boards ← parseBoards lib filename cfg
      let proxyFactories ← parseSockets lib filename cfg
      return ⟨(cfg.string? (ascii "sock_dir")).getD [], boards, proxyFactories⟩

end Loader
end BoardProxy
