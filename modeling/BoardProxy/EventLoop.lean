import BoardProxy.SessionLifecycle
import BoardProxy.GuardedRun

/-!
# Callbacks of the event loop and runs of the daemon

An event is one callback with the results of its system calls, or the end of a
child process. The kernel turns a process that ends into a zombie; when libev
reaps it, the callback of the session that watches the pid runs at once, and a
child that nobody watches any more is reaped silently. `enabled` says that the
watcher is active and that `fork` returns no pid that is still in use.
-/

namespace BoardProxy

inductive Event
  | clientConnecting (cred : Bytes) (ppid : Pid) (buffer : Memory) (now : ℤ)
  | acceptFailed (errno : Errno)
  | clientData (sid : ℕ) (recv : Except Errno Packet) (sys : Sys)
  | processExits (pid : Pid)
  | childReaped (pid : Pid) (sys : Sys)
  | socketConnecting (listener : ℕ) (peer : Pid) (io : ConnectIo)
  | wrClientData (sid pid : ℕ) (io : WrClientIo)
  | wrTargetData (sid pid : ℕ) (io : WrTargetIo)
  | tcpTargetConnected (sid pid : ℕ) (io : ConnectIo)
  | tcpClientData (sid pid : ℕ) (io : RelayIo)
  | tcpTargetData (sid pid : ℕ) (io : RelayIo)
  | signal

namespace ProxyConn

def wrClientData (env : Env) (io : WrClientIo) (ip : Option Bytes) :
    ProxyConn → Outcome ProxyConn
  | .wr p => (p.onClientData env io ip).map .wr
  | c => .returned c

def wrTargetData (io : WrTargetIo) : ProxyConn → Outcome ProxyConn
  | .wr p => (p.onTargetData io).map .wr
  | c => .returned c

def tcpTargetConnected (env : Env) (io : ConnectIo) : ProxyConn → Outcome ProxyConn
  | .tcp p => (p.onTargetConnected env io).map .tcp
  | c => .returned c

def tcpClientData (env : Env) (io : RelayIo) : ProxyConn → Outcome ProxyConn
  | .tcp p => (p.onClientData env io).map .tcp
  | c => .returned c

def tcpTargetData (env : Env) (io : RelayIo) : ProxyConn → Outcome ProxyConn
  | .tcp p => (p.onTargetData env io).map .tcp
  | c => .returned c

def isWr : ProxyConn → Bool
  | .wr _ => true
  | .tcp _ => false

def clientActive : ProxyConn → Bool
  | .wr _ => false
  | .tcp p => p.clientWatcher

def targetActive (cb : TcpCallback) : ProxyConn → Bool
  | .wr _ => false
  | .tcp p => p.targetWatcher = some cb

end ProxyConn

namespace Daemon

def moveProcess (d : Daemon) (pid : Pid) (a b : ProcessState) : Daemon :=
  d.setProcesses (d.processes.map fun p =>
    if p.pid = pid ∧ p.state = a then { p with state := b } else p)

def watches (pid : Pid) (s : Session) : Bool := s.childWatcher.any fun c => c.pid = pid

def onChild (env : Env) (sys : Sys) (d : Daemon) (pid : Pid) : Outcome Daemon :=
  match d.sessions.find? (watches pid) with
  | none => .returned d
  | some s =>
    match s.childWatcher with
    | none => .returned d
    | some c =>
      match c.callback with
      | .onProcessExit => Session.onProcessExit env sys d s.id
      | .onCloseCommandExit => Session.onCloseCommandExit env sys d s.id

def step (env : Env) (d : Daemon) : Event → Outcome Daemon
  | .clientConnecting cred ppid buffer now => .returned (d.onClientConnecting cred ppid buffer now)
  | .acceptFailed e => .threw (.systemError e) d
  | .clientData sid recv sys => Session.onDataFromClient env sys d sid recv
  | .processExits pid => .returned (d.moveProcess pid .running .zombie)
  | .childReaped pid sys => onChild env sys (d.moveProcess pid .zombie .reaped) pid
  | .socketConnecting listener peer io => onSocketConnecting env io d listener peer
  | .wrClientData sid pid io =>
    Session.runProxy d sid pid fun s c => c.wrClientData env io (d.boardIp s)
  | .wrTargetData sid pid io => Session.runProxy d sid pid fun _ c => c.wrTargetData io
  | .tcpTargetConnected sid pid io =>
    Session.runProxy d sid pid fun _ c => c.tcpTargetConnected env io
  | .tcpClientData sid pid io => Session.runProxy d sid pid fun _ c => c.tcpClientData env io
  | .tcpTargetData sid pid io => Session.runProxy d sid pid fun _ c => c.tcpTargetData env io
  | .signal => .returned { d with breakLoop := true }

def forkFresh (sys : Sys) (ps : List Process) : Bool :=
  match sys.fork with
  | .error _ => true
  | .ok pid => ps.all fun p => decide (p.pid = pid → p.state = .reaped)

def hasProcess (d : Daemon) (pid : Pid) (a : ProcessState) : Bool :=
  d.processes.any fun p => decide (p.pid = pid ∧ p.state = a)

def proxyReady (d : Daemon) (sid pid : ℕ) (ready : ProxyConn → Bool) : Bool :=
  (d.session sid).any fun s => (KeyedList.lookup Proxy.id pid s.proxies).any fun p => ready p.conn

def enabled (d : Daemon) : Event → Bool
  | .clientConnecting .. | .acceptFailed _ | .signal => true
  | .clientData sid _ sys => (d.session sid).any Session.clientWatcher && forkFresh sys d.processes
  | .processExits pid => d.hasProcess pid .running
  | .childReaped pid sys =>
    d.hasProcess pid .zombie && forkFresh sys (d.moveProcess pid .zombie .reaped).processes
  | .socketConnecting listener _ _ => listener < d.proxyListeners.length
  | .wrClientData sid pid _ | .wrTargetData sid pid _ => d.proxyReady sid pid ProxyConn.isWr
  | .tcpTargetConnected sid pid _ =>
    d.proxyReady sid pid (ProxyConn.targetActive .onTargetConnected)
  | .tcpClientData sid pid _ => d.proxyReady sid pid ProxyConn.clientActive
  | .tcpTargetData sid pid _ => d.proxyReady sid pid (ProxyConn.targetActive .onTargetData)

/-- One callback that can run and returns. -/
def next (env : Env) (d : Daemon) (e : Event) : Option Daemon :=
  if d.enabled e then (d.step env e).toOption else none

def Next (env : Env) (d : Daemon) (e : Event) (d' : Daemon) : Prop := d.next env e = some d'

theorem next_iff {env : Env} {d d' : Daemon} {e : Event} :
    d.Next env e d' ↔ d.enabled e = true ∧ d.step env e = .returned d' := by
  by_cases h : d.enabled e = true <;> simp [Next, next, h, Outcome.toOption_eq_some]

end Daemon

namespace Event

/-- The session and the contents of the packet, for a packet that reaches
`on_setup_msg`. -/
def setup? : Event → Option (ℕ × Packet)
  | .clientData sid (.ok pkt) _ =>
    let data := pkt.data.take Proto.bufferSize
    if Proto.headerSize ≤ data.length ∧ Memory.word (fun i => data.getD i 0) 0 = Proto.msgTypeSetup
    then some (sid, pkt)
    else none
  | _ => none

theorem isSome_setup_iff {sid : ℕ} {pkt : Packet} {sys : Sys} :
    (clientData sid (.ok pkt) sys).setup?.isSome = true ↔
      Proto.headerSize ≤ (pkt.data.take Proto.bufferSize).length ∧
        Memory.word (fun i => (pkt.data.take Proto.bufferSize).getD i 0) 0 =
          Proto.msgTypeSetup := by
  simp only [setup?]
  split_ifs with h
  · exact iff_of_true rfl h
  · exact iff_of_false Bool.false_ne_true h

theorem setup_cases (sid : ℕ) (pkt : Packet) (sys : Sys) :
    (clientData sid (.ok pkt) sys).setup? = none ∨
      (clientData sid (.ok pkt) sys).setup? = some (sid, pkt) := by
  simp only [setup?]
  split_ifs
  · exact Or.inr rfl
  · exact Or.inl rfl

theorem eq_of_setup {e : Event} {sid : ℕ} {pkt : Packet} (h : e.setup? = some (sid, pkt)) :
    ∃ sys, e = .clientData sid (.ok pkt) sys := by
  cases e with
  | clientData k recv sys =>
    cases recv with
    | error _ => cases h
    | ok p =>
      simp only [setup?] at h
      split_ifs at h
      cases h
      exact ⟨sys, rfl⟩
  | _ => cases h

def IsSetupFor (e : Event) (sid : ℕ) : Prop := e.setup?.map Prod.fst = some sid

end Event

def setUps (es : List Event) : List ℕ := es.filterMap fun e => e.setup?.map Prod.fst

/-- Every client sends at most one setup message. -/
def AtMostOneSetup (es : List Event) : Prop := (setUps es).Nodup

instance (es : List Event) : Decidable (AtMostOneSetup es) :=
  inferInstanceAs (Decidable (setUps es).Nodup)

theorem setUps_append (es fs : List Event) : setUps (es ++ fs) = setUps es ++ setUps fs :=
  List.filterMap_append

theorem mem_setUps_singleton {e : Event} {sid : ℕ} : sid ∈ setUps [e] ↔ e.IsSetupFor sid := by
  cases h : e.setup? <;> simp [setUps, Event.IsSetupFor, h, eq_comm]

namespace AtMostOneSetup

theorem of_append {es fs : List Event} (h : AtMostOneSetup (es ++ fs)) : AtMostOneSetup es := by
  rw [AtMostOneSetup, setUps_append] at h
  exact (List.nodup_append.1 h).1

theorem notMem {es : List Event} {e : Event} {sid : ℕ} (h : AtMostOneSetup (es ++ [e]))
    (he : e.IsSetupFor sid) : sid ∉ setUps es := by
  rw [AtMostOneSetup, setUps_append] at h
  intro hmem
  exact (List.nodup_append.1 h).2.2 sid hmem sid (mem_setUps_singleton.2 he) rfl

end AtMostOneSetup

/-! A small installation and its events, for concrete runs. -/

namespace Sample

def env : Env where
  splitUnix s := some [s]
  inetAton s := if s = ascii "10.0.0.1" then some 0x0100000a else none
  strerror _ := ascii "error"
  strerror_plain _ := by decide

def board (closeCommand reservedFor : Bytes) : BoardSpec :=
  ⟨ascii "rpi", ascii "minicom", ascii "10.0.0.1", closeCommand, reservedFor⟩

def sys (child : Pid) : Sys := ⟨.ok child, 0, fun _ => false⟩

def accept : Event := .clientConnecting (ascii "joe") 0 (fun _ => 0) 0

def setup (sid : ℕ) (cmd : UInt32) (ppid : Pid) (name : Bytes) (noWait : Bool) (child : Pid) :
    Event :=
  .clientData sid (.ok (Client.sendSetup cmd ppid name noWait (0, 0, 0) 3 4 5 fun _ => 0))
    (sys child)

def connect (sid : ℕ) (ppid child : Pid) : Event := setup sid 0 ppid [] false child

def eof (sid : ℕ) (child : Pid) : Event :=
  .clientData sid (.ok ⟨[], [], fun _ => 0⟩) (sys child)

def read (bytes : Bytes) : WrClientIo := ⟨.ok bytes, .ok (), .ok (), .ok 3, .ok 0⟩

end Sample
end BoardProxy
