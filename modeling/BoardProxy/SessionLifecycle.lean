import BoardProxy.DaemonState

/-!
# The methods of `Session` and `Daemon`

The functions follow the source statement by statement. A method of a session
starts with `deref`, so that a call on a destroyed session is a fault, and so
does every later use of `this` behind a call that may destroy the session.
`Sys` holds the results of the system calls made on the way: a callback forks
at most once. `brokenPipe` are the descriptors whose reader is gone. Of the calls
that print to a client only the end by `SIGPIPE` is kept; any other error of
`dprintf` is ignored by the source.
-/

namespace BoardProxy

structure Sys where
  fork : Except Errno Pid
  now : ℤ
  brokenPipe : ℤ → Bool

namespace Daemon

def deref (d : Daemon) (sid : ℕ) (k : Session → Outcome Daemon) : Outcome Daemon :=
  match d.session sid with
  | none => .threw .useAfterFree d
  | some s => k s

def derefBoard (d : Daemon) (s : Session) (k : ℕ → BoardSpec → Outcome Daemon) :
    Outcome Daemon :=
  match s.board with
  | none => .threw .nullDereference d
  | some i =>
    match d.spec i with
    | none => .threw .nullDereference d
    | some b => k i b

def dprintf (sys : Sys) (d : Daemon) (sid : ℕ) (fd : ℤ) (text : Bytes) : Outcome Daemon :=
  if sys.brokenPipe fd then .threw .brokenPipe d
  else .returned (d.act [.dprintf sid fd text])

end Daemon

namespace Session

def startProcess (env : Env) (sys : Sys) (d : Daemon) (sid : ℕ) : Outcome Daemon :=
  d.deref sid fun s => d.derefBoard s fun i b =>
    match env.splitUnix b.command with
    | none => .threw .commandSyntax d
    | some argv =>
      match sys.fork with
      | .error e => .threw (.systemError e) d
      | .ok pid =>
        let d := d.setProcesses (d.processes ++
          [⟨pid, .command, sid, i, argv, some (s.fdIn, s.fdOut, s.fdErr), .running⟩])
        let d := d.act [.close sid s.fdIn, .close sid s.fdOut, .close sid s.fdErr]
        .returned (d.modifySession sid fun s => { s with
          fdIn := -1
          fdOut := -1
          fdErr := -1
          childWatcher := some ⟨pid, .onProcessExit⟩ })

def assignBoard (env : Env) (sys : Sys) (d : Daemon) (sid i : ℕ) : Outcome Daemon :=
  d.deref sid fun s =>
    match d.spec i with
    | none => .threw .nullDereference d
    | some b =>
      let d := d.modifySession sid fun s => { s with
        status := .hasBoard
        board := some i
        boardSince := sys.now }
      let d := d.modifyBoard i (Board.acquire sid)
      (d.dprintf sys sid s.fdErr (ascii "Connecting to board " ++ cStr b.id ++ [10])).bind fun d =>
        startProcess env sys d sid

def startCloseCommand (env : Env) (sys : Sys) (d : Daemon) (sid : ℕ) : Outcome Daemon :=
  d.deref sid fun s => d.derefBoard s fun i b =>
    match env.splitUnix b.closeCommand with
    | none => .threw .commandSyntax d
    | some argv =>
      match sys.fork with
      | .error e => .threw (.systemError e) d
      | .ok pid =>
        let d := d.setProcesses (d.processes ++
          [⟨pid, .closeCommand, sid, i, argv, none, .running⟩])
        .returned (d.modifySession sid fun s => { s with
          childWatcher := some ⟨pid, .onCloseCommandExit⟩ })

def destroy (d : Daemon) (sid : ℕ) : Daemon :=
  match d.session sid with
  | none => d
  | some s =>
    let d := match s.board with
      | none => d
      | some i => d.modifyBoard i Board.release
    let d := d.act [.close sid s.fdIn, .close sid s.fdOut, .close sid s.fdErr]
    d.removeSession sid

end Session

namespace Daemon

def findAvailableBoard (d : Daemon) (username : Bytes) : Option ℕ :=
  match d.boards.findIdx? fun b =>
      b.isAvailable && decide (b.reservedFor ≠ []) && decide (b.reservedFor = username) with
  | some i => some i
  | none => d.boards.findIdx? fun b => b.isAvailable && decide (b.reservedFor = [])

def assignBoard (env : Env) (sys : Sys) (d : Daemon) (sid : ℕ) : Outcome Daemon :=
  d.deref sid fun s =>
    match d.findAvailableBoard s.getUsername with
    | some i => Session.assignBoard env sys d sid i
    | none => .returned (d.setQueue (d.waitQueue ++ [sid]))

/-- The loop of `close_session` over the wait queue, up to its `break`. -/
def findWaiting (d : Daemon) : List ℕ → Except Fault (Option (ℕ × ℕ))
  | [] => .ok none
  | waiting :: rest =>
    match d.session waiting with
    | none => .error .useAfterFree
    | some s =>
      match d.findAvailableBoard s.getUsername with
      | some i => .ok (some (waiting, i))
      | none => findWaiting d rest

def dequeue (d : Daemon) (sid : ℕ) : Daemon :=
  d.setQueue (d.waitQueue.filter fun k => decide (k ≠ sid))

def serveWaiting (env : Env) (sys : Sys) (d : Daemon) : Outcome Daemon :=
  match d.findWaiting d.waitQueue with
  | .error f => .threw f d
  | .ok none => .returned d
  | .ok (some (waiting, i)) => Session.assignBoard env sys (d.dequeue waiting) waiting i

def exitIfIdle (d : Daemon) : Daemon :=
  if d.isFromSystemd ∧ d.sessions = [] then { d with breakLoop := true } else d

def closeSession (env : Env) (sys : Sys) (d : Daemon) (sid : ℕ) : Outcome Daemon :=
  let d := d.act [.closeSession sid]
  (serveWaiting env sys (Session.destroy (d.dequeue sid) sid)).map exitIfIdle

end Daemon

namespace Session

/-- A destroyed session still has the fields with which it was closed, so that a second
call takes the same way and the daemon is called again. -/
def closeSession (env : Env) (sys : Sys) (d : Daemon) (sid : ℕ) : Outcome Daemon :=
  match d.session sid with
  | none => .threw .useAfterFree (d.act [.closeSession sid])
  | some s =>
    if s.status = .hasBoard then
      match s.childWatcher with
      | some c => .returned (d.act [.kill sid c.pid])
      | none => d.derefBoard s fun _ b =>
        if b.closeCommand = [] then Daemon.closeSession env sys d sid
        else startCloseCommand env sys
          (d.modifySession sid fun s => { s with status := .closingBoard }) sid
    else Daemon.closeSession env sys d sid

def stopChildWatcher (d : Daemon) (sid : ℕ) : Daemon :=
  d.modifySession sid fun s => { s with childWatcher := none }

def onProcessExit (env : Env) (sys : Sys) (d : Daemon) (sid : ℕ) : Outcome Daemon :=
  closeSession env sys (stopChildWatcher d sid) sid

def onCloseCommandExit (env : Env) (sys : Sys) (d : Daemon) (sid : ℕ) : Outcome Daemon :=
  closeSession env sys (stopChildWatcher d sid) sid

def getStatusLine (d : Daemon) (s : Session) : StatusLine :=
  match s.board.bind d.spec with
  | none => ⟨s.getUsername, [], ascii "waiting", s.sessionSince⟩
  | some b => ⟨s.getUsername, b.id, b.ipAddress, s.boardSince⟩

end Session

def Daemon.statusLines (d : Daemon) : List StatusLine :=
  (d.sessions.filter fun s => decide (s.status ≠ .created)).map (Session.getStatusLine d)

/-- Without a session to list, nothing is written. -/
def Daemon.printStatus (sys : Sys) (d : Daemon) (sid : ℕ) (fd : ℤ) : Outcome Daemon :=
  if d.statusLines ≠ [] ∧ sys.brokenPipe fd then .threw .brokenPipe d
  else .returned (d.act [.printStatus sid fd d.statusLines])

namespace Session

/-- Descriptors that fit into the control buffer of 32 bytes. -/
def maxFds : ℕ := 4

/-- `msg_controllen` after `recvmsg`: `CMSG_SPACE` of the descriptors. -/
def controlLen (n : ℕ) : ℕ := if n = 0 then 0 else 16 + 8 * ((n + 1) / 2)

theorem controlLen_lt_iff {l : List ℤ} : controlLen l.length < 12 ↔ l = [] := by
  rw [controlLen, ← List.length_eq_zero_iff]
  split_ifs with hl
  · simp [hl]
  · omega

/-- The `connect` branch, behind the assignment of the fields. -/
def onConnect (env : Env) (sys : Sys) (d : Daemon) (sid : ℕ) (noWait : Bool) : Outcome Daemon :=
  let d := d.modifySession sid fun s => { s with status := .awaitingBoard }
  (Daemon.assignBoard env sys d sid).bind fun d =>
    d.deref sid fun s =>
      if s.status = .awaitingBoard then
        (d.printStatus sys sid s.fdErr).bind fun d =>
        (d.dprintf sys sid s.fdErr (ascii "No board currently available." ++
          (if noWait then [] else ascii " Waiting...") ++ [10])).bind fun d =>
        if noWait then closeSession env sys d sid else .returned d
      else .returned d

def onSetupMsg (env : Env) (sys : Sys) (d : Daemon) (sid : ℕ) (pkt : Packet) : Outcome Daemon :=
  let fds := pkt.fds.take maxFds
  (if controlLen fds.length < 12 then closeSession env sys d sid else .returned d).bind fun d =>
    if fds = [] then closeSession env sys d sid
    else d.deref sid fun s =>
      match Proto.readSetup s.buffer with
      | none => .threw .overread d
      | some r =>
        let d := d.modifySession sid fun s => { s with
          fdIn := fds.getD 0 (pkt.stale 0)
          fdOut := fds.getD 1 (pkt.stale 1)
          fdErr := fds.getD 2 (pkt.stale 2)
          ppid := r.ppid
          username := r.username }
        if r.cmd = Proto.connect then onConnect env sys d sid r.noWait
        else if r.cmd = Proto.listSessions then
          (d.printStatus sys sid (fds.getD 1 (pkt.stale 1))).bind fun d =>
            closeSession env sys d sid
        else .returned d

def disconnect (env : Env) (sys : Sys) (d : Daemon) (sid : ℕ) : Outcome Daemon :=
  closeSession env sys (d.modifySession sid fun s => { s with clientWatcher := false }) sid

def onDataFromClient (env : Env) (sys : Sys) (d : Daemon) (sid : ℕ) :
    Except Errno Packet → Outcome Daemon
  | .error _ => disconnect env sys d sid
  | .ok pkt =>
    let data := pkt.data.take Proto.bufferSize
    let d := d.act [.receiveFds sid (pkt.fds.take maxFds)]
    if data = [] then disconnect env sys d sid
    else
      let d := d.modifySession sid fun s => { s with buffer := s.buffer.store data }
      if data.length < Proto.headerSize then .returned d
      else d.deref sid fun s =>
        if s.buffer.word 0 = Proto.msgTypeSetup then onSetupMsg env sys d sid pkt
        else .returned d

def addProxy (d : Daemon) (sid : ℕ) (peer : Pid) (conn : ProxyConn) : Daemon :=
  d.modifySession sid fun s => { s with
    proxies := s.proxies ++ [⟨s.proxyCnt, peer, conn⟩]
    proxyCnt := s.proxyCnt + 1 }

def newSocketConnection (env : Env) (io : ConnectIo) (d : Daemon) (sid : ℕ)
    (factory : ProxyFactory) (peer : Pid) : Outcome Daemon :=
  d.deref sid fun s =>
    if s.status ≠ .hasBoard then .returned d
    else
      match factory.create env io (d.boardIp s) with
      | .error f => .threw f (d.modifySession sid fun s => { s with proxyCnt := s.proxyCnt + 1 })
      | .ok conn => .returned (addProxy d sid peer conn)

def runProxy (d : Daemon) (sid pid : ℕ) (run : Session → ProxyConn → Outcome ProxyConn) :
    Outcome Daemon :=
  d.deref sid fun s =>
    match KeyedList.lookup Proxy.id pid s.proxies with
    | none => .threw .useAfterFree d
    | some p => (run s p.conn).map fun conn => d.modifySession sid fun s => { s with
        proxies :=
          if conn.closed then KeyedList.remove Proxy.id pid s.proxies
          else KeyedList.modify Proxy.id pid (fun p => { p with conn := conn }) s.proxies }

end Session

namespace Daemon

def onClientConnecting (d : Daemon) (cred : Bytes) (ppid : Pid) (buffer : Memory) (now : ℤ) :
    Daemon :=
  d.addSession ⟨d.counter, cred, .created, none, -1, -1, -1, ppid, [], buffer, now, 0, true, none,
    [], 0⟩

def findSessionByPpid (d : Daemon) (ppid : Pid) : Option Session :=
  d.sessions.find? fun s => decide (s.ppid = ppid)

def onSocketConnecting (env : Env) (io : ConnectIo) (d : Daemon) (listener : ℕ) (peer : Pid) :
    Outcome Daemon :=
  match d.proxyListeners[listener]? with
  | none => .threw .runtimeError d
  | some factory =>
    match d.findSessionByPpid peer with
    | some s => Session.newSocketConnection env io d s.id factory peer
    | none => .returned d

end Daemon
end BoardProxy
