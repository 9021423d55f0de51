import BoardProxy.SystemCalls
import BoardProxy.InputStream

/-!
# The WindRiver proxy connection

`WrProxy` is one proxied connection: its state, the client-to-target buffer, and
what the kernel has accepted on its two sockets. `closed` records that `close()`
was called, which takes the proxy out of its session. Each callback is a total
function of the connection and of the results of the system calls it makes. The
target is a datagram socket, where no write raises `SIGPIPE`. A `read` returns no
more bytes than the free space of the buffer, and none at all for a full buffer.
Logging is left out, except that `fail` formats its message a second time for the log.
-/

namespace BoardProxy

/-- `SocketProxy::fail`: the message is a format string here, too. -/
def SocketProxy.fail {α : Type*} (close : α → α) (p : α) (fmt : Bytes) (args : List Bytes) :
    Outcome α :=
  match format fmt args with
  | none => .threw .formatError p
  | some _ => .returned (close p)

theorem SocketProxy.fail_returned {α : Type*} {close : α → α} {p q : α} {fmt : Bytes}
    {args : List Bytes} (h : SocketProxy.fail close p fmt args = .returned q) : q = close p := by
  unfold SocketProxy.fail at h
  cases hf : format fmt args with
  | none => simp [hf] at h
  | some msg =>
    simp only [hf, Outcome.returned.injEq] at h
    exact h.symm

structure SockAddr where
  port : ℕ
  addr : InAddr
deriving DecidableEq

inductive WrState
  | command
  | data
deriving DecidableEq

structure WrProxy where
  state : WrState
  bufC2t : Bytes
  target : Option SockAddr
  sent : List Bytes -- datagrams written to the target
  toClient : Bytes -- bytes accepted by the client's socket
  closed : Bool
deriving DecidableEq

structure WrClientIo where
  read : Except Errno Bytes
  writeTarget : Except Errno Unit
  connect : Except Errno Unit
  writeOk : Except Errno ℕ
  writeReply : Except Errno ℕ

def WrClientIo.bytes (io : WrClientIo) : Bytes := io.read.toOption.getD []

structure WrTargetIo where
  read : Except Errno Bytes
  writeLen : Except Errno ℕ
  writeData : Except Errno ℕ

structure ConnectParams where
  type : Bytes
  tgt : Bytes
  port : Bytes
  mode : Bytes
deriving DecidableEq

namespace WrProxy

def capacity : ℕ := 65536

def targetBufferSize : ℕ := 65535

def new : WrProxy where
  state := .command
  bufC2t := []
  target := none
  sent := []
  toClient := []
  closed := false

def close (p : WrProxy) : WrProxy := { p with closed := true }

def wrote (p : WrProxy) (data : Bytes) : Except Errno ℕ → WrProxy
  | .error _ => p
  | .ok n => { p with toClient := p.toClient ++ data.take n }

/-- A write to the client, of which the source does not look at the result. -/
def writeClient (p : WrProxy) (data : Bytes) (res : Except Errno ℕ) : Outcome WrProxy :=
  if isBrokenPipe res then .threw .brokenPipe p else .returned (p.wrote data res)

@[simp] theorem writeClient_ok (p : WrProxy) (data : Bytes) (n : ℕ) :
    p.writeClient data (.ok n) = .returned (p.wrote data (.ok n)) := rfl

theorem writeClient_returned {p q : WrProxy} {data : Bytes} {res : Except Errno ℕ} :
    p.writeClient data res = .returned q ↔ isBrokenPipe res = false ∧ q = p.wrote data res := by
  cases h : isBrokenPipe res <;> simp [writeClient, h, eq_comm]

def fail (io : WrClientIo) (p : WrProxy) (fmt : Bytes) (args : List Bytes) : Outcome WrProxy :=
  match format fmt args with
  | none => .threw .formatError p
  | some msg =>
    match format (ascii "error wrproxy: \x7b\x7d") [msg] with
    | none => .threw .formatError p
    | some resp =>
      (p.writeClient (resp ++ [0]) io.writeReply).bind fun p => SocketProxy.fail close p msg []

/-- The parameter loop of `handle_connect`: the parameters, or the format string
and the argument of the failure. Each round consumes at least the delimiter, so
that the length of the text bounds the number of rounds. -/
def parseParams : ℕ → InputStream → ConnectParams → Except (Bytes × Bytes) ConnectParams
  | 0, _, c => .ok c
  | n + 1, cmd, c =>
    if cmd.eof then .ok c
    else
      let (param, cmd) := cmd.getline 59
      if (61 : UInt8) ∉ param then
        .error (ascii "Missing '=' in connect parameter: \x7b\x7d", param)
      else
        let key := param.takeWhile fun b => decide (b ≠ 61)
        let val := (param.dropWhile fun b => decide (b ≠ 61)).drop 1
        if key = ascii "type" then parseParams n cmd { c with type := val }
        else if key = ascii "tgt" then parseParams n cmd { c with tgt := val }
        else if key = ascii "port" then parseParams n cmd { c with port := val }
        else if key = ascii "mode" then parseParams n cmd { c with mode := val }
        else .error (ascii "Unsupported parameter: \x7b\x7d", param)

def handleConnect (env : Env) (io : WrClientIo) (ip : Option Bytes) (p : WrProxy)
    (cmd : InputStream) : Outcome WrProxy :=
  match parseParams (cmd.rest.length + 1) cmd ⟨[], [], [], []⟩ with
  | .error (fmt, param) => p.fail io fmt [param]
  | .ok c =>
    if c.type = ascii "udpsock" ∧ c.mode = ascii "packet" then
      match stoi c.port with
      | none => p.fail io (ascii "Bad port \x7b\x7d") [c.port]
      | some v =>
        match ip with
        | none => p.fail io (ascii "No board assigned") []
        | some ip =>
          match env.inetAton (cStr ip) with
          | none => p.fail io (ascii "Invalid board IP address: \x7b\x7d") [ip]
          | some addr =>
            match io.connect with
            | .error e =>
              p.fail io (ascii "connect \x7b\x7d:\x7b\x7d: \x7b\x7d") [ip, c.port, env.strerror e]
            | .ok () =>
              -- the conversion of `htons` keeps the low 16 bits
              let p := { p with
                target := some ⟨(v % 65536).toNat, addr⟩
                state := .data
                bufC2t := [] }
              match io.writeOk with
              | .error e =>
                if e = brokenPipe then .threw .brokenPipe p
                else p.fail io (ascii "Writing ok response failed: \x7b\x7d") [env.strerror e]
              | .ok n => .returned (p.wrote [111, 107, 0] (.ok n))
    else p.fail io (ascii "Unsupported type (\x7b\x7d) or mode (\x7b\x7d)") [c.type, c.mode]

def isTerminator (b : UInt8) : Bool := b = 0 || b = 10 || b = 13

-- the bytes of the buffer are tried, not all bytes there are
instance (l : Bytes) : Decidable (∀ b ∈ l, isTerminator b = false) :=
  List.decidableBAll (fun b => isTerminator b = false) l

def parseCommand (env : Env) (io : WrClientIo) (ip : Option Bytes) (p : WrProxy) :
    Outcome WrProxy :=
  if ∀ b ∈ p.bufC2t, isTerminator b = false then .returned p
  else
    let buf := p.bufC2t.takeWhile fun b => !isTerminator b
    let (command, cmd) := (InputStream.ofText buf).getline 32
    let cmd := cmd.skip 32
    if command = ascii "connect" then p.handleConnect env io ip cmd
    else
      match format (ascii "Unsupported command: \x7b\x7d") [command] with
      | none => .threw .formatError p
      | some msg => p.fail io msg []

/-- The `DATA` branch: at most one frame is written to the target. -/
def forwardFrame (io : WrClientIo) (p : WrProxy) : WrProxy :=
  match p.bufC2t with
  | a :: b :: c :: d :: body =>
    let len := word32 d c b a
    if body.length < len then p
    else
      match io.writeTarget with
      | .error _ => p.close
      | .ok () => { p with sent := p.sent ++ [body.take len], bufC2t := body.drop len }
  | _ => p

def onClientData (env : Env) (io : WrClientIo) (ip : Option Bytes) (p : WrProxy) :
    Outcome WrProxy :=
  match io.read with
  | .error _ => .returned p.close
  | .ok bytes =>
    let got := bytes.take (capacity - p.bufC2t.length)
    if got = [] then .returned p.close
    else
      let p := { p with bufC2t := p.bufC2t ++ got }
      match p.state with
      | .command => p.parseCommand env io ip
      | .data => .returned (p.forwardFrame io)

def onTargetData (io : WrTargetIo) (p : WrProxy) : Outcome WrProxy :=
  match io.read with
  | .error _ => .returned p.close
  | .ok bytes =>
    let buf := bytes.take targetBufferSize
    if buf = [] then .returned p.close
    else
      -- the result of the first write is overwritten
      (p.writeClient (be32 buf.length) io.writeLen).bind fun p =>
        match io.writeData with
        | .error e => if e = brokenPipe then .threw .brokenPipe p else .returned p.close
        | .ok n => .returned (p.wrote buf (.ok n))

end WrProxy
end BoardProxy
