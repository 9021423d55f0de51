import BoardProxy.ConnectGrammar
import BoardProxy.ConnectionHistory
import BoardProxy.Routing

/-!
# Client bytes that take the daemon down

The text of an error reply is formatted once more for the log, and the name of an
unsupported command twice. An unpaired brace in the part of the line that the reply
repeats is then a format error, which no callback catches. The reply itself ends the
daemon by `SIGPIPE` if the client has closed its end. `LineSafe` says what the reply
repeats; only the read that completes the command line can fail.
-/

namespace BoardProxy

def unescaped (s : Bytes) : Bytes := (format s []).getD []

namespace WrProxy

open ConnectLine

variable {env : Env} {io : WrClientIo} {ip : Option Bytes} {p q : WrProxy} {fmt : Bytes}
  {args : List Bytes}

/-- An error reply that repeats these texts: it has a reader and no unpaired brace. -/
def ReplySafe (io : WrClientIo) (texts : List Bytes) : Prop :=
  isBrokenPipe io.writeReply = false ∧ ∀ t ∈ texts, bracesPaired t = true

def ConnectSafe (env : Env) (ip : Option Bytes) (io : WrClientIo) (c : ConnectParams) : Prop :=
  if c.type = ascii "udpsock" ∧ c.mode = ascii "packet" then
    match stoi c.port, ip with
    | none, _ => ReplySafe io [c.port]
    | some _, none => ReplySafe io []
    | some _, some x =>
      match env.inetAton (cStr x), io.connect with
      | none, _ => ReplySafe io [x]
      | some _, .error _ => ReplySafe io [x, c.port]
      | some _, .ok () =>
        match io.writeOk with
        | .error e => e ≠ brokenPipe ∧ ReplySafe io []
        | .ok _ => True
  else ReplySafe io [c.type, c.mode]

def LineSafe (env : Env) (ip : Option Bytes) (io : WrClientIo) (line : Bytes) : Prop :=
  if word line = ascii "connect" then
    match (parameters line).find? fun p => decide ¬Known p with
    | some bad => ReplySafe io [bad]
    | none => ConnectSafe env ip io (params (parameters line))
  else ReplySafe io [word line, unescaped (word line)]

theorem fail_none (hf : format fmt args = none) :
    p.fail io fmt args = .threw .formatError p := by
  simp only [fail, hf]

/-- The reply repeats the message, which `SocketProxy.fail` then formats once more. -/
theorem fail_some {msg : Bytes} (hf : format fmt args = some msg) :
    p.fail io fmt args =
      (p.writeClient (ascii "error wrproxy: " ++ msg ++ [0]) io.writeReply).bind fun p =>
        SocketProxy.fail close p msg [] := by
  have hplain : NoBrace (ascii "error wrproxy: ") := by decide
  have hr : format (ascii "error wrproxy: \x7b\x7d") [msg] =
      some (ascii "error wrproxy: " ++ msg) :=
    format_plain_field hplain msg []
  simp only [fail, hf, hr]

theorem fail_returns_iff : (p.fail io fmt args).Returns ↔
    ∃ msg, format fmt args = some msg ∧ ReplySafe io [msg] := by
  cases hf : format fmt args with
  | none => simp [fail_none hf]
  | some msg =>
    have hs := format_nil_isSome msg
    rw [fail_some hf]
    simp only [writeClient, Option.some.injEq, exists_eq_left', ReplySafe, List.mem_singleton,
      forall_eq]
    cases hr : isBrokenPipe io.writeReply with
    | true =>
      refine iff_of_false ?_ fun h => (by cases h.1)
      exact Outcome.not_returns_threw _ _
    | false =>
      simp only [Bool.false_eq_true, ↓reduceIte, Outcome.returned_bind, SocketProxy.fail, true_and]
      cases hm : format msg [] with
      | none =>
        rw [hm] at hs
        simp [← hs]
      | some t =>
        rw [hm] at hs
        simp [← hs]

theorem fail_field_returns_iff {l : Bytes} (hl : NoBrace l) (x : Bytes)
    (hf : fmt = l ++ [openBrace, closeBrace]) :
    (p.fail io fmt [x]).Returns ↔ ReplySafe io [x] := by
  rw [fail_returns_iff, hf, format_plain_field hl]
  simp [ReplySafe, bracesPaired_append hl]

theorem fail_plain_returns_iff {l : Bytes} (hl : NoBrace l) :
    (p.fail io l []).Returns ↔ ReplySafe io [] := by
  rw [fail_returns_iff, format_plain hl]
  simp [ReplySafe, bracesPaired_plain hl]

theorem fail_complaint_returns_iff (x : Bytes) :
    (p.fail io (complaint x) [x]).Returns ↔ ReplySafe io [x] := by
  unfold complaint
  split_ifs
  · have hl : NoBrace (ascii "Unsupported parameter: ") := by decide
    exact fail_field_returns_iff hl x (by decide +kernel)
  · have hl : NoBrace (ascii "Missing '=' in connect parameter: ") := by decide
    exact fail_field_returns_iff hl x (by decide +kernel)

theorem fail_type_returns_iff (t m : Bytes) :
    (p.fail io (ascii "Unsupported type (\x7b\x7d) or mode (\x7b\x7d)") [t, m]).Returns ↔
      ReplySafe io [t, m] := by
  have h1 : NoBrace (ascii "Unsupported type (") := by decide
  have h2 : NoBrace (41 :: ascii " or mode (") := by decide
  have h3 : NoBrace [41] := by decide
  have h4 : NoBrace (ascii " or mode (") := by decide
  have hc : (41 : UInt8) ≠ openBrace ∧ (41 : UInt8) ≠ closeBrace := by decide
  have hfmt : ascii "Unsupported type (\x7b\x7d) or mode (\x7b\x7d)" =
      ascii "Unsupported type (" ++ (openBrace :: closeBrace :: (41 :: ascii " or mode (" ++
        (openBrace :: closeBrace :: [41]))) := by decide +kernel
  have hb : bracesPaired (t ++ 41 :: (ascii " or mode (" ++ (m ++ [41]))) =
      (bracesPaired t && bracesPaired m) := by
    rw [bracesPaired_append_cons hc.1 hc.2, bracesPaired_append h4,
      bracesPaired_append_cons hc.1 hc.2, bracesPaired, Bool.and_true]
  rw [fail_returns_iff, hfmt, format_append h1, format_field, format_append h2, format_field,
    format_plain h3]
  simp [ReplySafe, bracesPaired_append h1, hb]

theorem fail_connect_returns_iff (x port : Bytes) (e : Errno) :
    (p.fail io (ascii "connect \x7b\x7d:\x7b\x7d: \x7b\x7d") [x, port, env.strerror e]).Returns ↔
      ReplySafe io [x, port] := by
  have h1 : NoBrace (ascii "connect ") := by decide
  have h2 : NoBrace [58] := by decide
  have h3 : NoBrace [58, 32] := by decide
  have h4 : NoBrace (32 :: env.strerror e) := noBrace_append.2 ⟨(by decide : NoBrace [32]),
    env.strerror_plain e⟩
  have hc : (58 : UInt8) ≠ openBrace ∧ (58 : UInt8) ≠ closeBrace := by decide
  have hfmt : ascii "connect \x7b\x7d:\x7b\x7d: \x7b\x7d" =
      ascii "connect " ++ (openBrace :: closeBrace :: ([58] ++
        (openBrace :: closeBrace :: ([58, 32] ++ [openBrace, closeBrace])))) := by decide +kernel
  have hb : bracesPaired (x ++ 58 :: (port ++ 58 :: 32 :: env.strerror e)) =
      (bracesPaired x && bracesPaired port) := by
    rw [bracesPaired_append_cons hc.1 hc.2, bracesPaired_append_cons hc.1 hc.2,
      bracesPaired_plain h4, Bool.and_true]
  rw [fail_returns_iff, hfmt, format_append h1, format_field, format_append h2, format_field,
    format_plain_field h3]
  simp [ReplySafe, bracesPaired_append h1, hb]

theorem handleConnect_returns_iff {cmd : InputStream} {ps : List Bytes}
    (h : parseParams (cmd.rest.length + 1) cmd ⟨[], [], [], []⟩ = parsed ps) :
    (p.handleConnect env io ip cmd).Returns ↔
      match ps.find? fun p => decide ¬Known p with
      | some bad => ReplySafe io [bad]
      | none => ConnectSafe env ip io (params ps) := by
  cases hf : ps.find? fun p => decide ¬Known p with
  | some bad =>
    have hp : parsed ps = .error (complaint bad, bad) := by rw [parsed, hf]
    simp only [handleConnect, h, hp]
    exact fail_complaint_returns_iff bad
  | none =>
    have hp : parsed ps = .ok (params ps) := by rw [parsed, hf]
    generalize params ps = c at hp
    simp only [handleConnect, h, hp, ConnectSafe]
    by_cases htm : c.type = ascii "udpsock" ∧ c.mode = ascii "packet"
    · rw [if_pos htm, if_pos htm]
      cases hv : stoi c.port with
      | none =>
        have hl : NoBrace (ascii "Bad port ") := by decide
        exact fail_field_returns_iff hl c.port (by decide +kernel)
      | some v =>
        cases ip with
        | none =>
          have hl : NoBrace (ascii "No board assigned") := by decide
          exact fail_plain_returns_iff hl
        | some x =>
          cases ha : env.inetAton (cStr x) with
          | none =>
            have hl : NoBrace (ascii "Invalid board IP address: ") := by decide
            simp only [ha]
            exact fail_field_returns_iff hl x (by decide +kernel)
          | some addr =>
            cases hc : io.connect with
            | error e =>
              simp only [ha]
              exact fail_connect_returns_iff x c.port e
            | ok u =>
              simp only [ha]
              cases hw : io.writeOk with
              | error e =>
                have hl : NoBrace (ascii "Writing ok response failed: ") := by decide
                by_cases hp : e = brokenPipe
                · simp [hp]
                · simp only [hp, ↓reduceIte, ne_eq, not_false_eq_true, true_and]
                  refine (fail_field_returns_iff hl (env.strerror e) (by decide +kernel)).trans ?_
                  simp [ReplySafe, bracesPaired_plain (env.strerror_plain e)]
              | ok n => exact iff_of_true (Outcome.returns_returned _) trivial
    · rw [if_neg htm, if_neg htm]
      exact fail_type_returns_iff c.type c.mode

theorem unsupported_returns_iff (w : Bytes) :
    (p.fail io (ascii "Unsupported command: " ++ w) []).Returns ↔
      ReplySafe io [w, unescaped w] := by
  have hl : NoBrace (ascii "Unsupported command: ") := by decide
  rw [fail_returns_iff, format_append hl]
  have hs := format_nil_isSome w
  cases hf : format w [] with
  | none =>
    rw [hf] at hs
    simp [ReplySafe, ← hs]
  | some u =>
    rw [hf] at hs
    simp [ReplySafe, ← hs, unescaped, hf, bracesPaired_append hl]

def HasLine (buf : Bytes) : Prop := ∃ b ∈ buf, isTerminator b = true

def line (buf : Bytes) : Bytes := buf.takeWhile fun b => !isTerminator b

theorem not_hasLine {buf : Bytes} : ¬HasLine buf ↔ ∀ b ∈ buf, isTerminator b = false := by
  simp [HasLine]

theorem parseCommand_of_not_hasLine (h : ¬HasLine p.bufC2t) :
    p.parseCommand env io ip = .returned p := by
  rw [parseCommand, if_pos (not_hasLine.1 h)]

theorem parseCommand_returns_iff (h : HasLine p.bufC2t) :
    (p.parseCommand env io ip).Returns ↔ LineSafe env ip io (line p.bufC2t) := by
  have hline : (p.bufC2t.takeWhile fun b => !isTerminator b) = line p.bufC2t := rfl
  obtain ⟨cmd, hg, hp⟩ := parse_line (line p.bufC2t)
  simp only [parseCommand, if_neg (mt not_hasLine.2 (not_not.2 h)), hline, hg, LineSafe]
  by_cases hw : word (line p.bufC2t) = ascii "connect"
  · rw [if_pos hw, if_pos hw]
    exact handleConnect_returns_iff hp
  · have hl : NoBrace (ascii "Unsupported command: ") := by decide
    have hf := format_plain_field hl (word (line p.bufC2t)) []
    rw [if_neg hw, if_neg hw, show ascii "Unsupported command: \x7b\x7d" =
      ascii "Unsupported command: " ++ [openBrace, closeBrace] from rfl, hf]
    exact unsupported_returns_iff _

def Answered (p : WrProxy) : Prop := p.closed = true ∨ p.state = .data

theorem answered_fail (h : p.fail io fmt args = .returned q) : q.Answered := by
  cases hf : format fmt args with
  | none =>
    rw [fail_none hf] at h
    cases h
  | some msg =>
    rw [fail_some hf] at h
    obtain ⟨_, _, h⟩ := Outcome.bind_eq_returned.1 h
    rw [SocketProxy.fail_returned h]
    exact Or.inl rfl

theorem answered_handleConnect {cmd : InputStream}
    (h : p.handleConnect env io ip cmd = .returned q) : q.Answered := by
  unfold handleConnect at h
  cases hp : parseParams (cmd.rest.length + 1) cmd ⟨[], [], [], []⟩ with
  | error x =>
    simp only [hp] at h
    exact answered_fail h
  | ok c =>
    simp only [hp] at h
    split_ifs at h
    · split at h
      · exact answered_fail h
      · split at h
        · exact answered_fail h
        · split at h
          · exact answered_fail h
          · split at h
            · exact answered_fail h
            · split at h
              · split_ifs at h
                exact answered_fail h
              · rw [← Outcome.returned.inj h]
                exact Or.inr rfl
    · exact answered_fail h

theorem answered_parseCommand (hl : HasLine p.bufC2t)
    (h : p.parseCommand env io ip = .returned q) : q.Answered := by
  simp only [parseCommand, if_neg (mt not_hasLine.2 (not_not.2 hl))] at h
  split at h
  · exact answered_handleConnect h
  · split at h
    · cases h
    · exact answered_fail h

theorem answered_forwardFrame (h : p.Answered) : (p.forwardFrame io).Answered := by
  unfold forwardFrame
  split
  · dsimp only
    split_ifs
    · exact h
    · split
      · exact Or.inl rfl
      · exact h
  · exact h

theorem onClientData_of_data (h : p.state = .data) :
    ∃ q, p.onClientData env io ip = .returned q ∧ q.Answered := by
  unfold onClientData
  split
  · exact ⟨_, rfl, Or.inl rfl⟩
  · dsimp only
    split_ifs
    · exact ⟨_, rfl, Or.inl rfl⟩
    · simp only [h]
      exact ⟨_, rfl, answered_forwardFrame (Or.inr rfl)⟩

variable {ios : List WrClientIo}

def received (ios : List WrClientIo) : Bytes := (ios.flatMap WrClientIo.bytes).take capacity

theorem received_snoc : received (ios ++ [io]) =
    received ios ++ io.bytes.take (capacity - (received ios).length) := by
  have hroom : capacity - (received ios).length =
      capacity - (ios.flatMap WrClientIo.bytes).length := by
    rw [received, List.length_take]
    omega
  rw [hroom, received, received, List.flatMap_append, List.take_append, List.flatMap_singleton]

theorem HasLine.received_snoc (h : HasLine (received ios)) : HasLine (received (ios ++ [io])) := by
  obtain ⟨b, hb, ht⟩ := h
  rw [WrProxy.received_snoc]
  exact ⟨b, List.mem_append_left _ hb, ht⟩

/-- If this read completes the command line, then its reply is safe. -/
def SafeRead (env : Env) (ip : Option Bytes) (ios : List WrClientIo) (io : WrClientIo) : Prop :=
  ¬HasLine (received ios) → HasLine (received (ios ++ [io])) →
    LineSafe env ip io (line (received (ios ++ [io])))

def Tracks (ios : List WrClientIo) (p : WrProxy) : Prop :=
  match p.state with
  | .command => p.bufC2t = received ios ∧ ¬HasLine (received ios)
  | .data => HasLine (received ios)

theorem tracks_command (hst : p.state = .command) :
    p.Tracks ios ↔ p.bufC2t = received ios ∧ ¬HasLine (received ios) := by
  rw [Tracks, hst]

theorem tracks_data (hst : p.state = .data) : p.Tracks ios ↔ HasLine (received ios) := by
  rw [Tracks, hst]

theorem onClientData_command (hst : p.state = .command) (hbuf : p.bufC2t = received ios) :
    (p.onClientData env io ip = .returned p.close ∧ received (ios ++ [io]) = received ios) ∨
      p.onClientData env io ip =
        parseCommand env io ip { p with bufC2t := received (ios ++ [io]) } := by
  rw [received_snoc, ← hbuf]
  cases hr : io.read with
  | error e =>
    have hb : io.bytes = [] := by simp [WrClientIo.bytes, hr, Except.toOption]
    refine Or.inl ⟨by simp only [onClientData, hr], ?_⟩
    rw [hb, List.take_nil, List.append_nil]
  | ok bytes =>
    have hb : io.bytes = bytes := by simp [WrClientIo.bytes, hr, Except.toOption]
    rw [hb]
    by_cases hgot : bytes.take (capacity - p.bufC2t.length) = []
    · refine Or.inl ⟨by simp only [onClientData, hr, hgot, ↓reduceIte], ?_⟩
      rw [hgot, List.append_nil]
    · refine Or.inr ?_
      simp only [onClientData, hr, if_neg hgot, hst]

theorem onClientData_returns_iff (h : p.Tracks ios) :
    (p.onClientData env io ip).Returns ↔ SafeRead env ip ios io := by
  cases hst : p.state with
  | data =>
    obtain ⟨q, hq, _⟩ : ∃ q, p.onClientData env io ip = .returned q ∧ q.Answered :=
      onClientData_of_data hst
    exact iff_of_true ⟨q, hq⟩ fun hn => absurd ((tracks_data hst).1 h) hn
  | command =>
    obtain ⟨hbuf, hno⟩ := (tracks_command hst).1 h
    rcases onClientData_command hst hbuf with ⟨hc, hsame⟩ | hc
    · exact iff_of_true ⟨_, hc⟩ fun _ hl => absurd (hsame ▸ hl) hno
    · rw [hc]
      by_cases hl : HasLine (received (ios ++ [io]))
      · rw [parseCommand_returns_iff hl]
        exact ⟨fun hs _ _ => hs, fun hs => hs hno hl⟩
      · rw [parseCommand_of_not_hasLine hl]
        exact iff_of_true (Outcome.returns_returned _) fun _ hn => absurd hn hl

theorem Tracks.onClientData (h : p.Tracks ios) (hr : p.onClientData env io ip = .returned q)
    (hcl : q.closed = false) : q.Tracks (ios ++ [io]) := by
  have hans : HasLine (received (ios ++ [io])) → q.Answered → q.Tracks (ios ++ [io]) := by
    intro hl ha
    rcases ha with ha | ha
    · rw [hcl] at ha
      cases ha
    · exact (tracks_data ha).2 hl
  cases hst : p.state with
  | data =>
    obtain ⟨q', hq', ha⟩ : ∃ q, p.onClientData env io ip = .returned q ∧ q.Answered :=
      onClientData_of_data hst
    rw [hr, Outcome.returned.injEq] at hq'
    exact hans ((tracks_data hst).1 h).received_snoc (hq' ▸ ha)
  | command =>
    obtain ⟨hbuf, hno⟩ := (tracks_command hst).1 h
    rcases onClientData_command hst hbuf with ⟨hc, _⟩ | hc
    · rw [hr, Outcome.returned.injEq] at hc
      rw [hc] at hcl
      cases hcl
    · rw [hr] at hc
      by_cases hl : HasLine (received (ios ++ [io]))
      · exact hans hl (answered_parseCommand hl hc.symm)
      · rw [parseCommand_of_not_hasLine hl, Outcome.returned.injEq] at hc
        rw [hc]
        refine (tracks_command ?_).2 ⟨rfl, hl⟩
        exact hst

theorem onTargetData_returned {io : WrTargetIo} (h : p.onTargetData io = .returned q) :
    q.state = p.state ∧ q.sent = p.sent ∧ q.bufC2t = p.bufC2t := by
  have hw : ∀ (p : WrProxy) data r, (p.wrote data r).state = p.state ∧
      (p.wrote data r).sent = p.sent ∧ (p.wrote data r).bufC2t = p.bufC2t := by
    intro p data r
    cases r <;> exact ⟨rfl, rfl, rfl⟩
  unfold onTargetData at h
  split at h
  · rw [← Outcome.returned.inj h]
    exact ⟨rfl, rfl, rfl⟩
  · dsimp only at h
    split_ifs at h
    · rw [← Outcome.returned.inj h]
      exact ⟨rfl, rfl, rfl⟩
    · obtain ⟨p', hl, h⟩ := Outcome.bind_eq_returned.1 h
      obtain ⟨_, rfl⟩ := writeClient_returned.1 hl
      split at h
      · split_ifs at h
        rw [← Outcome.returned.inj h]
        exact hw ..
      · rw [← Outcome.returned.inj h]
        obtain ⟨hst₁, hsent₁, hbuf₁⟩ :=
          hw p (be32 (List.take targetBufferSize _).length) io.writeLen
        obtain ⟨hst₂, hsent₂, hbuf₂⟩ := hw (p.wrote _ io.writeLen) _ (.ok _)
        exact ⟨hst₂.trans hst₁, hsent₂.trans hsent₁, hbuf₂.trans hbuf₁⟩

theorem Tracks.onTargetData {io : WrTargetIo} (h : p.Tracks ios)
    (hr : p.onTargetData io = .returned q) : q.Tracks ios := by
  obtain ⟨hst, _, hbuf⟩ := onTargetData_returned hr
  rw [Tracks, hst, hbuf]
  exact h

end WrProxy

def clientReads (es : List Event) : List WrClientIo :=
  es.filterMap fun
    | .wrClientData _ _ io => some io
    | _ => none

def ProxyConn.Tracks (es : List Event) : ProxyConn → Prop
  | .wr p => p.Tracks (clientReads es)
  | .tcp _ => True

namespace ProxyConn

variable {env : Env} {io : ConnectIo} {ip : Option Bytes} {es : List Event} {e : Event}
  {c c' : ProxyConn} {factory : ProxyFactory}

theorem tracks_create (h : factory.create env io ip = .ok c) : c.Tracks [] := by
  have hnew : WrProxy.new.Tracks [] := by
    refine (WrProxy.tracks_command rfl).2 ⟨rfl, ?_⟩
    rintro ⟨b, hb, _⟩
    cases hb
  cases factory with
  | wr name =>
    simp only [ProxyFactory.create] at h
    split at h
    · cases h
    · rw [← Except.ok.inj h]
      exact hnew
  | tcp name port =>
    simp only [ProxyFactory.create] at h
    split at h
    · cases h
    · split at h
      · cases h
      · rw [← Except.ok.inj h]
        trivial

theorem Tracks.callback (h : c.Tracks es) (hr : c.callback env ip e = .returned c')
    (hcl : c'.closed = false) : c'.Tracks (es ++ [e]) := by
  have hother : (∀ k q io, e ≠ .wrClientData k q io) →
      clientReads (es ++ [e]) = clientReads es := by
    intro hne
    cases e with
    | wrClientData k q io => exact absurd rfl (hne k q io)
    | _ => simp [clientReads]
  cases c with
  | tcp p =>
    cases c' with
    | tcp q => trivial
    | wr q =>
      -- a callback does not turn one kind of connection into the other
      cases e with
      | tcpTargetConnected => obtain ⟨_, _, h⟩ := Outcome.map_eq_returned.1 hr; cases h
      | tcpClientData => obtain ⟨_, _, h⟩ := Outcome.map_eq_returned.1 hr; cases h
      | tcpTargetData => obtain ⟨_, _, h⟩ := Outcome.map_eq_returned.1 hr; cases h
      | _ => cases hr
  | wr p =>
    cases e with
    | wrClientData k j io =>
      obtain ⟨q, hq, rfl⟩ := Outcome.map_eq_returned.1 hr
      have happ : clientReads (es ++ [.wrClientData k j io]) = clientReads es ++ [io] := by
        simp [clientReads]
      rw [Tracks, happ]
      exact WrProxy.Tracks.onClientData h hq hcl
    | wrTargetData k j io =>
      obtain ⟨q, hq, rfl⟩ := Outcome.map_eq_returned.1 hr
      rw [Tracks, hother fun _ _ _ he => (by cases he)]
      exact WrProxy.Tracks.onTargetData h hq
    | _ =>
      rw [← Outcome.returned.inj hr, Tracks, hother fun _ _ _ he => (by cases he)]
      exact h

end ProxyConn

namespace Daemon

variable {env : Env} {d : Daemon} {es : List Event} {sid pid : ℕ} {s : Session} {io : WrClientIo}
  {bs : List BoardSpec} {fs : List ProxyFactory} {sd : Bool}

theorem tracks_run (h : Run (Next env) (initial bs fs sd) es d) :
    Recorded ProxyConn.Tracks es d :=
  connection_run ProxyConn.Tracks (fun _ _ _ _ => ProxyConn.tracks_create)
    (fun _ _ _ _ _ hP hr hcl => ProxyConn.Tracks.callback hP hr hcl) h

/-- The daemon is the same, except for one proxy of one session, which may be gone. -/
def ProxyOnly (sid pid : ℕ) (d d' : Daemon) : Prop :=
  ∃ f, d' = d.modifySession sid (Session.withProxies f 0) ∧ ∀ ps,
    KeyedList.remove Proxy.id pid (f ps) = KeyedList.remove Proxy.id pid ps ∧
      ((f ps).map Proxy.id).Sublist (ps.map Proxy.id)

theorem remove_setProxy (conn : ProxyConn) (ps : List Proxy) :
    KeyedList.remove Proxy.id pid (setProxy pid conn ps) = KeyedList.remove Proxy.id pid ps ∧
      ((setProxy pid conn ps).map Proxy.id).Sublist (ps.map Proxy.id) := by
  unfold setProxy
  split_ifs
  · exact ⟨KeyedList.remove_remove pid ps, List.filter_sublist.map Proxy.id⟩
  · refine ⟨?_, ?_⟩
    · apply KeyedList.remove_modify
      exact fun _ => rfl
    · rw [KeyedList.keys_modify]
      exact fun _ => rfl

/-- Every call of `on_client_data`, in every run and however the bytes came: it
returns, and touches nothing but its own proxy, exactly if the read is safe. -/
theorem run_client_bytes_iff (h : Run (Next env) (initial bs fs sd) es d)
    (hs : d.session sid = some s) (he : d.enabled (.wrClientData sid pid io) = true) :
    (∃ d', d.step env (.wrClientData sid pid io) = .returned d' ∧ ProxyOnly sid pid d d') ↔
      WrProxy.SafeRead env (d.boardIp s) (clientReads (calls sid pid es)) io := by
  obtain ⟨q, hq, hwr⟩ : ∃ q, KeyedList.lookup Proxy.id pid s.proxies = some q ∧
      q.conn.isWr = true := by
    simpa [enabled, proxyReady, hs, Option.any_eq_true] using he
  have ht := (tracks_run h).conn sid s hs q (KeyedList.mem_of_lookup hq)
  rw [KeyedList.key_of_lookup hq] at ht
  cases hc : q.conn with
  | tcp p =>
    rw [hc] at hwr
    cases hwr
  | wr p =>
    rw [hc] at ht
    rw [← WrProxy.onClientData_returns_iff ht]
    constructor
    · rintro ⟨d', hd, _⟩
      obtain ⟨s', q', conn, hs', hq', hr, _⟩ := runProxy_returned hd
      rw [hs, Option.some.injEq] at hs'
      subst hs'
      rw [hq, Option.some.injEq] at hq'
      subst hq'
      rw [hc] at hr
      obtain ⟨p', hp', _⟩ := Outcome.map_eq_returned.1 hr
      exact ⟨p', hp'⟩
    · rintro ⟨p', hp'⟩
      refine ⟨d.modifySession sid (Session.withProxies (setProxy pid (.wr p')) 0), ?_, _, rfl,
        remove_setProxy _⟩
      simp only [step, Session.runProxy, deref, hs, hq, hc, ProxyConn.wrClientData, hp',
        Outcome.map]
      rfl

/-- A command line in two reads. -/
theorem run_client_bytes_unknown_command : ∃ d,
    (Run (Next Sample.env) (initial [Sample.board [] []] [.wr (ascii "wrproxy")] false)
      [Sample.accept, Sample.connect 0 7 100, .socketConnecting 0 7 ⟨.ok (), .ok (), .ok 0⟩,
        .wrClientData 0 0 (Sample.read (ascii "hel"))] d ∧
      ((d.session 0).isSome, d.enabled (.wrClientData 0 0 (Sample.read (ascii "lo\n")))) =
        (true, true)) ∧
    ∃ d', d.step Sample.env (.wrClientData 0 0 (Sample.read (ascii "lo\n"))) =
      .returned d' ∧ ProxyOnly 0 0 d d' := by
  refine Exists.imp (fun d hr => ⟨hr, ?_⟩) (exists_run (fun d : Daemon =>
    ((d.session 0).isSome, d.enabled (.wrClientData 0 0 (Sample.read (ascii "lo\n")))))
    (by decide +kernel))
  obtain ⟨hrun, hd⟩ := hr
  obtain ⟨hss, hen⟩ := Prod.mk.inj hd
  obtain ⟨s, hs⟩ := Option.isSome_iff_exists.1 hss
  refine (run_client_bytes_iff hrun hs hen).2 fun _ _ => ?_
  rw [WrProxy.LineSafe, if_neg (by decide +kernel)]
  exact ⟨rfl, by decide +kernel⟩

/-- An opening brace and a newline, sent to a proxy that has just been accepted. -/
theorem brace_ends_daemon : ∃ d,
    Run (Next Sample.env) (initial [Sample.board [] []] [.wr (ascii "wrproxy")] false)
      [Sample.accept, Sample.connect 0 7 100, .socketConnecting 0 7 ⟨.ok (), .ok (), .ok 0⟩] d ∧
    (d.enabled (.wrClientData 0 0 (Sample.read [123, 10])),
      (d.step Sample.env (.wrClientData 0 0 (Sample.read [123, 10]))).fault?) =
        (true, some .formatError) :=
  exists_run (fun d : Daemon =>
    (d.enabled (.wrClientData 0 0 (Sample.read [123, 10])),
      (d.step Sample.env (.wrClientData 0 0 (Sample.read [123, 10]))).fault?)) (by decide +kernel)

end Daemon
end BoardProxy
