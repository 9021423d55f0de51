import BoardProxy.KeyedList
import BoardProxy.SetupMessage
import BoardProxy.TcpProxy
import Mathlib.Tactic.Simps.Basic

/-!
# Boards, sessions and the state of the daemon

A `Board*` is an index into the board list, which never changes its length, and
a `Session*` is the number of the session, which is never used twice. A pointer
to a destroyed session finds nothing. A watcher is active exactly while its
callback can still run. The processes the daemon has started belong to the
kernel and stay in the table after they were reaped; `trace` lists the calls
that leave the daemon and those of `Daemon::close_session`, oldest first.
-/

namespace BoardProxy

structure BoardSpec where
  id : Bytes
  command : Bytes
  ipAddress : Bytes
  closeCommand : Bytes
  reservedFor : Bytes
deriving DecidableEq

def BoardSpec.Eligible (b : BoardSpec) (name : Bytes) : Prop :=
  b.reservedFor = [] ∨ b.reservedFor = name

instance (b : BoardSpec) (name : Bytes) : Decidable (b.Eligible name) :=
  inferInstanceAs (Decidable (_ ∨ _))

structure Board extends BoardSpec where
  owner : Option ℕ
deriving DecidableEq

namespace Board

def isAvailable (b : Board) : Bool := b.owner.isNone

def acquire (session : ℕ) (b : Board) : Board := { b with owner := some session }

def release (b : Board) : Board := { b with owner := none }

end Board

inductive ProxyConn
  | wr (p : WrProxy)
  | tcp (p : TcpProxy)
deriving DecidableEq

namespace ProxyConn

def closed : ProxyConn → Bool
  | .wr p => p.closed
  | .tcp p => p.closed

def target : ProxyConn → Option SockAddr
  | .wr p => p.target
  | .tcp p => some p.target

end ProxyConn

/-- A `SocketProxy`; `peer` is the process at the other end of its connection. -/
structure Proxy where
  id : ℕ
  peer : Pid
  conn : ProxyConn
deriving DecidableEq

inductive ProxyFactory
  | wr (sockName : Bytes)
  | tcp (sockName : Bytes) (port : ℕ)
deriving DecidableEq

/-- `ProxyFactory::create`, with the constructors it calls. `ip` is the address
of the session's board, `none` without a board. -/
def ProxyFactory.create (env : Env) (io : ConnectIo) (ip : Option Bytes) :
    ProxyFactory → Except Fault ProxyConn
  | .wr _ =>
    match io.socket with
    | .error e => .error (.systemError e)
    | .ok () => .ok (.wr WrProxy.new)
  | .tcp _ port =>
    match ip with
    | none => .error .nullDereference
    | some ip =>
      match TcpProxy.new env io ip port with
      | .error f => .error f
      | .ok p => .ok (.tcp p)

inductive Status
  | created
  | awaitingBoard
  | hasBoard
  | closingBoard
deriving DecidableEq

inductive ChildCallback
  | onProcessExit
  | onCloseCommandExit
deriving DecidableEq

structure ChildWatcher where
  pid : Pid
  callback : ChildCallback
deriving DecidableEq

structure Session where
  id : ℕ
  usernameCred : Bytes
  status : Status
  board : Option ℕ
  fdIn : ℤ
  fdOut : ℤ
  fdErr : ℤ
  ppid : Pid
  username : Bytes
  buffer : Memory
  sessionSince : ℤ
  boardSince : ℤ
  clientWatcher : Bool
  childWatcher : Option ChildWatcher
  proxies : List Proxy
  proxyCnt : ℕ

def Session.getUsername (s : Session) : Bytes :=
  if s.username = [] then s.usernameCred else s.username

inductive ProcessKind
  | command
  | closeCommand
deriving DecidableEq

inductive ProcessState
  | running
  | zombie
  | reaped
deriving DecidableEq

structure Process where
  pid : Pid
  kind : ProcessKind
  session : ℕ
  board : ℕ
  argv : List Bytes
  stdio : Option (ℤ × ℤ × ℤ)
  state : ProcessState
deriving DecidableEq

structure StatusLine where
  username : Bytes
  board : Bytes
  ipAddress : Bytes
  since : ℤ
deriving DecidableEq

inductive Action
  | receiveFds (session : ℕ) (fds : List ℤ)
  | close (session : ℕ) (fd : ℤ)
  | dprintf (session : ℕ) (fd : ℤ) (text : Bytes)
  | printStatus (session : ℕ) (fd : ℤ) (lines : List StatusLine)
  | kill (session : ℕ) (pid : Pid)
  | closeSession (session : ℕ)
deriving DecidableEq

structure Daemon where
  boards : List Board
  sessions : List Session
  waitQueue : List ℕ
  proxyListeners : List ProxyFactory
  isFromSystemd : Bool
  counter : ℕ
  breakLoop : Bool
  processes : List Process
  trace : List Action

namespace Daemon

def initial (boards : List BoardSpec) (factories : List ProxyFactory) (isFromSystemd : Bool) :
    Daemon where
  boards := boards.map fun b => ⟨b, none⟩
  sessions := []
  waitQueue := []
  proxyListeners := factories
  isFromSystemd := isFromSystemd
  counter := 0
  breakLoop := false
  processes := []
  trace := []

def session (d : Daemon) (sid : ℕ) : Option Session := KeyedList.lookup Session.id sid d.sessions

def owner (d : Daemon) (i : ℕ) : Option ℕ := d.boards[i]?.bind Board.owner

def spec (d : Daemon) (i : ℕ) : Option BoardSpec := d.boards[i]?.map Board.toBoardSpec

@[simps] def modifySession (d : Daemon) (sid : ℕ) (f : Session → Session) : Daemon :=
  { d with sessions := KeyedList.modify Session.id sid f d.sessions }

@[simps] def removeSession (d : Daemon) (sid : ℕ) : Daemon :=
  { d with sessions := KeyedList.remove Session.id sid d.sessions }

@[simps] def addSession (d : Daemon) (s : Session) : Daemon :=
  { d with sessions := d.sessions ++ [s], counter := d.counter + 1 }

@[simps] def modifyBoard (d : Daemon) (i : ℕ) (f : Board → Board) : Daemon :=
  { d with boards := d.boards.modify i f }

@[simps] def setQueue (d : Daemon) (q : List ℕ) : Daemon := { d with waitQueue := q }

@[simps] def setProcesses (d : Daemon) (ps : List Process) : Daemon := { d with processes := ps }

@[simps] def act (d : Daemon) (as : List Action) : Daemon := { d with trace := d.trace ++ as }

/-- `session.get_board()->ip_address`. -/
def boardIp (d : Daemon) (s : Session) : Option Bytes :=
  (s.board.bind d.spec).map BoardSpec.ipAddress

section Observers
variable (d : Daemon) (sid k i j : ℕ)

@[simp] theorem session_modifySession (f : Session → Session) (hf : ∀ s, (f s).id = s.id) :
    (d.modifySession sid f).session k = if k = sid then (d.session sid).map f else d.session k :=
  KeyedList.lookup_modify sid k f hf d.sessions

@[simp] theorem session_removeSession :
    (d.removeSession sid).session k = if k = sid then none else d.session k :=
  KeyedList.lookup_remove sid k d.sessions

theorem session_addSession (s : Session) :
    (d.addSession s).session k = (d.session k).or (if s.id = k then some s else none) :=
  KeyedList.lookup_append_singleton k d.sessions s

@[simp] theorem session_modifyBoard (f : Board → Board) :
    (d.modifyBoard i f).session k = d.session k := rfl

@[simp] theorem session_setQueue (q : List ℕ) : (d.setQueue q).session k = d.session k := rfl

@[simp] theorem session_setProcesses (ps : List Process) :
    (d.setProcesses ps).session k = d.session k := rfl

@[simp] theorem session_act (as : List Action) : (d.act as).session k = d.session k := rfl

@[simp] theorem owner_modifySession (f : Session → Session) :
    (d.modifySession sid f).owner i = d.owner i := rfl

@[simp] theorem owner_removeSession : (d.removeSession sid).owner i = d.owner i := rfl

@[simp] theorem owner_addSession (s : Session) : (d.addSession s).owner i = d.owner i := rfl

@[simp] theorem owner_setQueue (q : List ℕ) : (d.setQueue q).owner i = d.owner i := rfl

@[simp] theorem owner_setProcesses (ps : List Process) :
    (d.setProcesses ps).owner i = d.owner i := rfl

@[simp] theorem owner_act (as : List Action) : (d.act as).owner i = d.owner i := rfl

theorem owner_acquire (hi : i < d.boards.length) :
    (d.modifyBoard i (Board.acquire sid)).owner j = if j = i then some sid else d.owner j := by
  simp only [owner, modifyBoard, List.getElem?_modify]
  by_cases h : j = i
  · subst h
    simp [List.getElem?_eq_getElem hi, Board.acquire]
  · simp [h, Ne.symm h]

@[simp] theorem owner_release :
    (d.modifyBoard i Board.release).owner j = if j = i then none else d.owner j := by
  simp only [owner, modifyBoard, List.getElem?_modify]
  by_cases h : j = i
  · subst h
    cases d.boards[j]? <;> simp [Board.release]
  · simp [h, Ne.symm h]

@[simp] theorem spec_modifySession (f : Session → Session) :
    (d.modifySession sid f).spec i = d.spec i := rfl

@[simp] theorem spec_removeSession : (d.removeSession sid).spec i = d.spec i := rfl

@[simp] theorem spec_addSession (s : Session) : (d.addSession s).spec i = d.spec i := rfl

@[simp] theorem spec_setQueue (q : List ℕ) : (d.setQueue q).spec i = d.spec i := rfl

@[simp] theorem spec_setProcesses (ps : List Process) :
    (d.setProcesses ps).spec i = d.spec i := rfl

@[simp] theorem spec_act (as : List Action) : (d.act as).spec i = d.spec i := rfl

theorem spec_modifyBoard (f : Board → Board) (hf : ∀ b, (f b).toBoardSpec = b.toBoardSpec) :
    (d.modifyBoard i f).spec j = d.spec j := by
  simp only [spec, modifyBoard, List.getElem?_modify]
  by_cases h : i = j
  · subst h
    cases d.boards[i]? <;> simp [hf]
  · simp [h]

@[simp] theorem spec_acquire : (d.modifyBoard i (Board.acquire sid)).spec j = d.spec j :=
  d.spec_modifyBoard i j _ fun _ => rfl

@[simp] theorem spec_release : (d.modifyBoard i Board.release).spec j = d.spec j :=
  d.spec_modifyBoard i j _ fun _ => rfl

theorem id_of_session {s : Session} (h : d.session sid = some s) : s.id = sid :=
  KeyedList.key_of_lookup h

theorem mem_of_session {s : Session} (h : d.session sid = some s) : s ∈ d.sessions :=
  KeyedList.mem_of_lookup h

theorem lt_of_owner (h : d.owner i = some sid) : i < d.boards.length := by
  by_contra hn
  simp [owner, List.getElem?_eq_none (Nat.le_of_not_lt hn)] at h

theorem lt_of_spec {b : BoardSpec} (h : d.spec i = some b) : i < d.boards.length := by
  by_contra hn
  simp [spec, List.getElem?_eq_none (Nat.le_of_not_lt hn)] at h

end Observers
end Daemon
end BoardProxy
