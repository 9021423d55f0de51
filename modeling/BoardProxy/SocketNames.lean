import BoardProxy.DaemonState
import Mathlib.Logic.Function.Basic

/-!
# The names of sockets and the start of a daemon

`bind` gives a socket a name in the file system, and the name stays there when the process
ends. Names are compared as texts. A path is cut to 107 bytes where it is put into a
`sockaddr_un`, but not where it is unlinked. The results of system calls are inputs, except
that the kernel refuses to bind a name that exists and to make a directory that exists or
that has no name. The sockets of a daemon are numbered: 0 is `client_listener`.
-/

namespace BoardProxy

inductive Node
  | directory
  | file
  | socket (daemon listener : ℕ)
deriving DecidableEq

abbrev Names := Bytes → Option Node

def sunPath (path : Bytes) : Bytes := (cStr path).take 107

def addressInUse : Errno := 98
def alreadyExists : Errno := 17
def tryAgain : Errno := 11
def noEntry : Errno := 2
def refused : Errno := 111
def wrongType : Errno := 91

/-- The calls that a listener makes. `bind` is another reason to refuse a name. -/
structure SocketIo where
  socket : Except Errno Unit
  bind : Except Errno Unit
  getFlags : Except Errno Unit
  setFlags : Except Errno Unit
  listen : Except Errno Unit

structure Activation where
  listenFds : ℤ
  isSocket : ℤ

namespace UnixSocket

/-- The constructor, with the value of `is_from_systemd`. -/
def new (allowSocketActivation : Bool) (act : Activation) (io : SocketIo) : Except Fault Bool :=
  if allowSocketActivation && decide (0 < act.listenFds) then
    if act.isSocket < 0 then .error (.systemError (-act.isSocket).toNat)
    else if act.isSocket = 0 then .error .runtimeError
    else .ok true
  else
    match io.socket with
    | .error e => .error (.systemError e)
    | .ok () => .ok false

def makeNonblocking (io : SocketIo) : Except Fault Unit :=
  match io.getFlags with
  | .error e => .error (.systemError e)
  | .ok () =>
    match io.setFlags with
    | .error e => .error (.systemError e)
    | .ok () => .ok ()

def bind (io : SocketIo) (names : Names) (path : Bytes) (node : Node) : Outcome Names :=
  match io.bind with
  | .error e => .threw (.systemError e) names
  | .ok () =>
    match names (sunPath path) with
    | some _ => .threw (.systemError addressInUse) names
    | none =>
      let names := Function.update names (sunPath path) (some node)
      match makeNonblocking io with
      | .error f => .threw f names
      | .ok () => .returned names

def listen (io : SocketIo) : Except Fault Unit :=
  match io.listen with
  | .error e => if e ≠ tryAgain then .error (.systemError e) else .ok ()
  | .ok () => .ok ()

/-- The daemon that a client's `connect` reaches, while the daemons in `running` run. All
their sockets listen. -/
def connect (names : Names) (running : ℕ → Bool) (path : Bytes) : Except Errno ℕ :=
  match names (sunPath path) with
  | none => .error noEntry
  | some (.socket n listener) =>
    if running n then if listener = 0 then .ok n else .error wrongType
    else .error refused
  | some _ => .error refused

end UnixSocket

def unlink (names : Names) (path : Bytes) : Names :=
  match names path with
  | some .directory => names
  | _ => Function.update names path none

def ProxyFactory.sockName : ProxyFactory → Bytes
  | .wr sockName | .tcp sockName _ => sockName

def clientPath (sockDir : Bytes) : Bytes := sockDir ++ ascii "/boardproxy"

def proxyPath (sockDir : Bytes) (factory : ProxyFactory) : Bytes :=
  sockDir ++ ascii "/" ++ factory.sockName

structure StartIo where
  activation : Activation
  mkdir : Except Errno Unit
  client : SocketIo
  proxies : ℕ → SocketIo

def StartIo.activated (io : StartIo) : Bool := decide (0 < io.activation.listenFds)

namespace Daemon

def setupListener (io : SocketIo) (isFromSystemd : Bool) (names : Names) (sockName : Bytes)
    (node : Node) : Outcome Names :=
  if isFromSystemd then .returned names
  else
    (UnixSocket.bind io (unlink names (cStr sockName)) sockName node).bind fun names =>
      match UnixSocket.listen io with
      | .error f => .threw f names
      | .ok () => .returned names

/-- The loop over `proxy_factories`; `j` is the number of listeners before it. -/
def setupProxies (n : ℕ) (io : ℕ → SocketIo) (sockDir : Bytes) :
    ℕ → List ProxyFactory → Names → Outcome Names
  | _, [], names => .returned names
  | j, factory :: rest, names =>
    match UnixSocket.new false ⟨0, 0⟩ (io j) with
    | .error f => .threw f names
    | .ok isFromSystemd =>
      (setupListener (io j) isFromSystemd names (proxyPath sockDir factory)
        (.socket n (j + 1))).bind fun names => setupProxies n io sockDir (j + 1) rest names

/-- A directory that exists is used, whatever it is. -/
def makeSockDir (io : StartIo) (names : Names) (sockDir : Bytes) : Outcome Names :=
  if cStr sockDir = [] then .threw (.systemError noEntry) names
  else
    match names (cStr sockDir) with
    | some _ => .returned names
    | none =>
      match io.mkdir with
      | .error e => if e = alreadyExists then .returned names else .threw (.systemError e) names
      | .ok () => .returned (Function.update names (cStr sockDir) (some .directory))

/-- `Daemon::Daemon` of the daemon number `n`, and what it leaves in the file system. The
client listener is a member and exists before the body runs. -/
def new (n : ℕ) (io : StartIo) (names : Names) (sockDir : Bytes) (factories : List ProxyFactory) :
    Outcome Names :=
  match UnixSocket.new true io.activation io.client with
  | .error f => .threw f names
  | .ok isFromSystemd =>
    (makeSockDir io names sockDir).bind fun names =>
      (setupListener io.client isFromSystemd names (clientPath sockDir) (.socket n 0)).bind
        fun names => setupProxies n io.proxies sockDir 0 factories names

end Daemon

namespace Sample

def socketIo : SocketIo := ⟨.ok (), .ok (), .ok (), .ok (), .ok ()⟩

def startIo : StartIo := ⟨⟨0, 0⟩, .ok (), socketIo, fun _ => socketIo⟩

end Sample
end BoardProxy
