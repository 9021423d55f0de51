import BoardProxy.EventLoop
import Mathlib.Logic.Function.Basic

/-!
# Clients and the daemon

A client connects, sends its setup message and then waits in its event loop until the
daemon closes the connection. Nothing else is said between them: the daemon never
writes to this socket. A packet that was sent stays in the inbox of the connection
until the daemon receives it, and a connection stays in the backlog until it is
accepted. A client may be killed at any time, and the daemon may end at any time, by a
signal, an exception or the end of its event loop. `log` lists the callbacks of the
daemon, oldest first.
-/

namespace BoardProxy

inductive ClientCommand
  | connect
  | listSessions
deriving DecidableEq

def ClientCommand.value : ClientCommand → UInt32
  | .connect => 0
  | .listSessions => 1

structure ClientArgs where
  command : ClientCommand
  username : Bytes
  noWait : Bool
  ppid : Pid
deriving DecidableEq

inductive ClientProcess
  | starting
  | connected
  | watching
  | exited (code : ℕ)
  | killed
deriving DecidableEq

namespace ClientProcess

def connects : Except Errno Unit → ClientProcess
  | .ok () => .connected
  | .error _ => .exited 1

/-- `on_data_from_daemon` with the result of `read`. Without an active watcher the
loop ends, and `main` returns. -/
def onDataFromDaemon : Except Errno ℕ → ClientProcess
  | .ok 0 => .exited 0
  | _ => .watching

/-- `send_setup` does not look at an error of `sendmsg`, but `SIGPIPE` ends the process. -/
def unsent (e : Errno) : ClientProcess := if e = brokenPipe then .killed else .watching

def noData : Except Errno ℕ → Bool
  | .ok n => n == 0
  | .error _ => true

def isOver : ClientProcess → Bool
  | .exited _ | .killed => true
  | _ => false

end ClientProcess

def ClientArgs.farewell (args : ClientArgs) : Except Errno ℕ → Bytes
  | .ok 0 => if args.command = .connect then ascii "Server closed connection\n" else []
  | _ => []

/-- A client process and its connection to the daemon. `stderr` is what
`on_data_from_daemon` has printed. -/
structure Peer where
  args : ClientArgs
  process : ClientProcess
  stderr : Bytes
  session : Option ℕ
  inbox : List Packet

/-- The state of the daemon is its last one when its process has ended. -/
structure Installation where
  daemon : Daemon
  log : List Event
  peers : ℕ → Option Peer
  backlog : List ℕ
  up : Bool

structure Delivery where
  pad : UInt8 × UInt8 × UInt8
  fdIn : ℤ
  fdOut : ℤ
  fdErr : ℤ
  stale : ℕ → ℤ

def ClientArgs.setup (args : ClientArgs) (v : Delivery) : Packet :=
  Client.sendSetup args.command.value args.ppid args.username args.noWait v.pad v.fdIn v.fdOut
    v.fdErr v.stale

inductive Move
  | launch (c : ℕ) (args : ClientArgs)
  | connects (c : ℕ) (result : Except Errno Unit)
  | sends (c : ℕ) (result : Except Errno Delivery)
  | reads (c : ℕ) (result : Except Errno ℕ)
  | dies (c : ℕ)
  | stops
  | accepts (cred : Bytes) (ppid : Pid) (buffer : Memory) (now : ℤ)
  | receives (c : ℕ) (failure : Option Errno) (stale : ℕ → ℤ) (sys : Sys)
  | other (e : Event)

def Event.isClient : Event → Bool
  | .clientConnecting .. | .clientData .. => true
  | _ => false

namespace Installation

def initial (bs : List BoardSpec) (fs : List ProxyFactory) (sd : Bool) : Installation :=
  ⟨Daemon.initial bs fs sd, [], fun _ => none, [], true⟩

def setPeer (w : Installation) (c : ℕ) (p : Peer) : Installation :=
  { w with peers := Function.update w.peers c (some p) }

/-- There is a listening socket. The service manager keeps the one that it has passed. -/
def listening (w : Installation) : Bool := w.up || w.daemon.isFromSystemd

/-- The other end of the connection is closed: with the session, with the daemon, or with
the listening socket if it was never accepted. -/
def hasClosed (w : Installation) (p : Peer) : Bool :=
  match p.session with
  | some sid => !w.up || (w.daemon.session sid).isNone
  | none => !w.listening

/-- What `recvmsg` returns on the connection, `none` if nothing has arrived. -/
def recv (p : Peer) (stale : ℕ → ℤ) : Option Errno → Option (Except Errno Packet)
  | some e => some (.error e)
  | none =>
    match p.inbox with
    | pkt :: _ => some (.ok pkt)
    | [] => if p.process.isOver then some (.ok ⟨[], [], stale⟩) else none

def dispatch (env : Env) (w : Installation) (e : Event) : Option Installation :=
  if w.up then (w.daemon.next env e).map fun d => { w with daemon := d, log := w.log ++ [e] }
  else none

def next (env : Env) (w : Installation) : Move → Option Installation
  | .launch c args =>
    match w.peers c with
    | some _ => none
    | none => some (w.setPeer c ⟨args, .starting, [], none, []⟩)
  | .connects c result => (w.peers c).bind fun p =>
    if p.process = .starting then
      let w := w.setPeer c { p with process := .connects result }
      match result with
      | .ok () => if w.listening then some { w with backlog := w.backlog ++ [c] } else none
      | .error _ => some w
    else none
  | .sends c result => (w.peers c).bind fun p =>
    if p.process = .connected then
      match result with
      | .ok v => some (w.setPeer c { p with
          process := .watching, inbox := p.inbox ++ [p.args.setup v] })
      | .error e => some (w.setPeer c { p with process := .unsent e })
    else none
  | .reads c result => (w.peers c).bind fun p =>
    if p.process = .watching ∧ w.hasClosed p = true ∧ ClientProcess.noData result = true then
      some (w.setPeer c { p with
        process := .onDataFromDaemon result, stderr := p.stderr ++ p.args.farewell result })
    else none
  | .dies c => (w.peers c).bind fun p =>
    if p.process.isOver then none else some (w.setPeer c { p with process := .killed })
  | .stops => if w.up then some { w with up := false } else none
  | .accepts cred ppid buffer now =>
    match w.backlog with
    | [] => none
    | c :: rest => (w.peers c).bind fun p =>
      (w.dispatch env (.clientConnecting cred ppid buffer now)).map fun w' =>
        { w'.setPeer c { p with session := some w.daemon.counter } with backlog := rest }
  | .receives c failure stale sys => (w.peers c).bind fun p =>
    p.session.bind fun sid => (recv p stale failure).bind fun r =>
      (w.dispatch env (.clientData sid r sys)).map fun w' =>
        w'.setPeer c { p with inbox := if failure = none then p.inbox.tail else p.inbox }
  | .other e => if e.isClient then none else w.dispatch env e

def Next (env : Env) (w : Installation) (m : Move) (w' : Installation) : Prop :=
  w.next env m = some w'

end Installation

namespace Sample

def client (noWait : Bool) (ppid : Pid) : ClientArgs := ⟨.connect, ascii "joe", noWait, ppid⟩

def arrives (c : ℕ) (args : ClientArgs) (child : Pid) : List Move :=
  [.launch c args, .connects c (.ok ()), .sends c (.ok ⟨(0, 0, 0), 3, 4, 5, fun _ => 0⟩),
    .accepts (ascii "joe") 0 (fun _ => 0) 0, .receives c none (fun _ => 0) (Sample.sys child)]

def ends (pid child : Pid) : List Move :=
  [.other (.processExits pid), .other (.childReaped pid (Sample.sys child))]

end Sample
end BoardProxy
