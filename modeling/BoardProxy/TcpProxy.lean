import BoardProxy.WrProxy

/-!
# The TCP relay connection

Both directions share `onData` with the buffers and the peers' names exchanged.
The target watcher holds the callback that runs next, or nothing while it is
stopped. A connection that succeeds at once runs `onTargetConnected` inside the
constructor, where `close()` finds nothing to remove. A `send` to a peer that has
closed its end raises `SIGPIPE`.
-/

namespace BoardProxy

inductive TcpCallback
  | onTargetConnected
  | onTargetData
deriving DecidableEq

inductive Direction
  | clientToTarget
  | targetToClient
deriving DecidableEq

structure TcpProxy where
  target : SockAddr
  targetWatcher : Option TcpCallback
  clientWatcher : Bool
  bufC2t : Bytes
  bufT2c : Bytes
  toTarget : Bytes -- bytes accepted by the target's socket
  toClient : Bytes -- bytes accepted by the client's socket
  closed : Bool
deriving DecidableEq

structure ConnectIo where
  socket : Except Errno Unit
  connect : Except Errno Unit
  getsockopt : Except Errno Errno

structure RelayIo where
  read : Except Errno Bytes
  send : Except Errno ℕ

/-- `EINPROGRESS` on Linux. -/
def inProgress : Errno := 115

namespace TcpProxy

def capacity : ℕ := 65536

def close (p : TcpProxy) : TcpProxy := { p with closed := true }

def onTargetConnected (env : Env) (io : ConnectIo) (p : TcpProxy) : Outcome TcpProxy :=
  match io.getsockopt with
  | .error e => SocketProxy.fail close p (ascii "getsockopt(SO_ERROR): ") [env.strerror e]
  | .ok soErr =>
    if soErr ≠ 0 then
      SocketProxy.fail close p (ascii "connect failure: \x7b\x7d") [env.strerror soErr]
    else .returned { p with targetWatcher := some .onTargetData, clientWatcher := true }

def new (env : Env) (io : ConnectIo) (ip : Bytes) (port : ℕ) : Except Fault TcpProxy :=
  match env.inetAton (cStr ip) with
  | none => .error .runtimeError
  | some addr =>
    match io.socket with
    | .error e => .error (.systemError e)
    | .ok () =>
      let p : TcpProxy := ⟨⟨port, addr⟩, none, false, [], [], [], [], false⟩
      match io.connect with
      | .error e =>
        if e = inProgress then .ok { p with targetWatcher := some .onTargetConnected }
        else .error (.systemError e)
      | .ok () =>
        match p.onTargetConnected env io with
        | .threw f _ => .error f
        | .returned p => .ok { p with closed := false }

def buffer (p : TcpProxy) : Direction → Bytes
  | .clientToTarget => p.bufC2t
  | .targetToClient => p.bufT2c

def setBuffer (p : TcpProxy) (buf : Bytes) : Direction → TcpProxy
  | .clientToTarget => { p with bufC2t := buf }
  | .targetToClient => { p with bufT2c := buf }

def accepted (p : TcpProxy) (data : Bytes) : Direction → TcpProxy
  | .clientToTarget => { p with toTarget := p.toTarget ++ data }
  | .targetToClient => { p with toClient := p.toClient ++ data }

def fromName : Direction → Bytes
  | .clientToTarget => ascii "client"
  | .targetToClient => ascii "target"

def toName : Direction → Bytes
  | .clientToTarget => ascii "target"
  | .targetToClient => ascii "client"

def onData (env : Env) (io : RelayIo) (dir : Direction) (p : TcpProxy) : Outcome TcpProxy :=
  match io.read with
  | .error e =>
    SocketProxy.fail close p (ascii "\x7b\x7d read error: \x7b\x7d") [fromName dir, env.strerror e]
  | .ok bytes =>
    let got := bytes.take (capacity - (p.buffer dir).length)
    if got = [] then .returned p.close
    else
      let buf := p.buffer dir ++ got
      match io.send with
      | .error e =>
        if e = brokenPipe then .threw .brokenPipe (p.setBuffer buf dir)
        else
          SocketProxy.fail close (p.setBuffer buf dir) (ascii "\x7b\x7d send error: \x7b\x7d")
            [toName dir, env.strerror e]
      | .ok n => .returned ((p.setBuffer (buf.drop n) dir).accepted (buf.take n) dir)

def onClientData (env : Env) (io : RelayIo) (p : TcpProxy) : Outcome TcpProxy :=
  p.onData env io .clientToTarget

def onTargetData (env : Env) (io : RelayIo) (p : TcpProxy) : Outcome TcpProxy :=
  p.onData env io .targetToClient

end TcpProxy
end BoardProxy
