import BoardProxy.CommandSwitch
import BoardProxy.WhileLoop

/-!
# The `connect` command

The parameter loop of `handle_connect` as an unbounded loop: every round consumes some
of the text, so it ends, and it ends with the parameters exactly for the lines of the
grammar. Behind it the port is read with `stoi` and cut to 16 bits, so that the port
of the connection is the one of the command only for plain numerals in range.
-/

namespace BoardProxy

def InputStream.unread (s : InputStream) : ℕ := if s.eof then 0 else s.rest.length + 1

theorem InputStream.unread_getline {s : InputStream} {delim : UInt8} (he : s.eof = false)
    (hne : (s.getline delim).1 ≠ []) : (s.getline delim).2.unread < s.unread := by
  have hs : s.unread = s.rest.length + 1 := by simp [unread, he]
  rw [hs]
  cases hf : s.fail with
  | true => simp [getline, he, hf] at hne
  | false =>
    simp only [getline, he, hf, Bool.or_self, Bool.false_eq_true, ↓reduceIte]
    split
    · simp [unread]
    · rename_i b rest hd
      have hle := (s.rest.dropWhile_suffix fun b => decide (b ≠ delim)).length_le
      rw [hd, List.length_cons] at hle
      simpa [unread] using Nat.lt_of_succ_le hle

namespace WrProxy

open ConnectLine

variable {env : Env} {io : WrClientIo} {ip : Option Bytes} {p q : WrProxy} {l : Bytes}
  {c : ConnectParams} {s t : InputStream × ConnectParams}
  {r : Except (Bytes × Bytes) (InputStream × ConnectParams)}

def paramRound (s : InputStream × ConnectParams) :
    Except (Bytes × Bytes) (InputStream × ConnectParams) :=
  let (param, cmd) := s.1.getline 59
  if (61 : UInt8) ∉ param then
    .error (ascii "Missing '=' in connect parameter: \x7b\x7d", param)
  else
    let key := param.takeWhile fun b => decide (b ≠ 61)
    let val := (param.dropWhile fun b => decide (b ≠ 61)).drop 1
    if key = ascii "type" then .ok (cmd, { s.2 with type := val })
    else if key = ascii "tgt" then .ok (cmd, { s.2 with tgt := val })
    else if key = ascii "port" then .ok (cmd, { s.2 with port := val })
    else if key = ascii "mode" then .ok (cmd, { s.2 with mode := val })
    else .error (ascii "Unsupported parameter: \x7b\x7d", param)

/-- `while (!cmd.eof())`, without a bound on the rounds. -/
def ParamLoop (s : InputStream × ConnectParams)
    (r : Except (Bytes × Bytes) (InputStream × ConnectParams)) : Prop :=
  Loop (fun s : InputStream × ConnectParams => s.1.eof) paramRound s r

theorem paramRound_ok (h : paramRound s = .ok t) :
    (61 : UInt8) ∈ (s.1.getline 59).1 ∧ t.1 = (s.1.getline 59).2 := by
  simp only [paramRound] at h
  split_ifs at h with h61
  · exact ⟨h61, by rw [← Except.ok.inj h]⟩
  · exact ⟨h61, by rw [← Except.ok.inj h]⟩
  · exact ⟨h61, by rw [← Except.ok.inj h]⟩
  · exact ⟨h61, by rw [← Except.ok.inj h]⟩

theorem paramRound_unread (he : s.1.eof = false) (h : paramRound s = .ok t) :
    t.1.unread < s.1.unread := by
  obtain ⟨h61, ht⟩ := paramRound_ok h
  rw [ht]
  exact InputStream.unread_getline he (List.ne_nil_of_mem h61)

theorem paramLoop_total (s : InputStream × ConnectParams) : ∃ r, ParamLoop s r :=
  Loop.total (fun s => s.1.unread) (fun _ _ => paramRound_unread) s

theorem parseParams_succ (n : ℕ) (he : s.1.eof = false) :
    parseParams (n + 1) s.1 s.2 = (paramRound s).bind fun t => parseParams n t.1 t.2 := by
  simp only [parseParams, he, Bool.false_eq_true, ↓reduceIte, paramRound]
  split_ifs <;> rfl

/-- The bound of the definition is never reached. -/
theorem parseParams_of_loop (h : ParamLoop s r) {n : ℕ} (hn : s.1.unread ≤ n) :
    parseParams n s.1 s.2 = r.map Prod.snd := by
  induction h generalizing n with
  | done he => exact parseParams_eof n he _
  | exit he hb =>
    obtain ⟨k, rfl⟩ : ∃ k, n = k + 1 := ⟨n - 1, by simp [InputStream.unread, he] at hn; omega⟩
    rw [parseParams_succ k he, hb]
    rfl
  | next he hb _ ih =>
    have hlt := paramRound_unread he hb
    obtain ⟨k, rfl⟩ : ∃ k, n = k + 1 := ⟨n - 1, by omega⟩
    rw [parseParams_succ k he, hb]
    exact ih (by omega)

def atParameters (line : Bytes) : InputStream × ConnectParams :=
  (((InputStream.ofText line).getline 32).2.skip 32, ⟨[], [], [], []⟩)

def PastParameters (line : Bytes) (c : ConnectParams) : Prop :=
  ((InputStream.ofText line).getline 32).1 = ascii "connect" ∧
    ∃ cmd, ParamLoop (atParameters line) (.ok (cmd, c))

theorem command_word (line : Bytes) : ((InputStream.ofText line).getline 32).1 = word line := by
  obtain ⟨cmd, hg, _⟩ := parse_line line
  rw [hg]

theorem parseParams_atParameters (line : Bytes) :
    parseParams ((atParameters line).1.rest.length + 1) (atParameters line).1
      (atParameters line).2 = parsed (parameters line) := by
  obtain ⟨cmd, hg, hp⟩ := parse_line line
  rw [atParameters, hg]
  exact hp

theorem loop_result (h : ParamLoop (atParameters l) r) :
    r.map Prod.snd = parsed (parameters l) := by
  rw [← parseParams_atParameters]
  refine (parseParams_of_loop h ?_).symm
  rw [InputStream.unread]
  split_ifs
  · exact Nat.zero_le _
  · exact Nat.le_refl _

theorem pastParameters_iff : PastParameters l c ↔
    word l = ascii "connect" ∧ (∀ x ∈ parameters l, Known x) ∧ c = params (parameters l) := by
  rw [PastParameters, command_word, ← parsed_eq_ok]
  refine and_congr_right fun _ => ⟨?_, fun hp => ?_⟩
  · rintro ⟨cmd, h⟩
    exact (loop_result h).symm
  · obtain ⟨r, hr⟩ := paramLoop_total (atParameters l)
    have hres := loop_result hr
    rw [hp] at hres
    cases r with
    | error x => cases hres
    | ok t =>
      obtain rfl : t.2 = c := Except.ok.inj hres
      exact ⟨t.1, hr⟩

/-- `handle_connect` behind its parameter loop. -/
def openTarget (env : Env) (io : WrClientIo) (ip : Option Bytes) (p : WrProxy) (c : ConnectParams) :
    Outcome WrProxy :=
  if c.type = ascii "udpsock" ∧ c.mode = ascii "packet" then
    match stoi c.port with
    | none => p.fail io (ascii "Bad port \x7b\x7d") [c.port]
    | some v =>
      match ip with
      | none => p.fail io (ascii "No board assigned") []
      | some ip =>
        match env.inetAton (cStr ip) with
        | none => p.fail io (ascii "Invalid board IP address: \x7b\x7d") [ip]
        | some addr =>
          match io.connect with
          | .error e =>
            p.fail io (ascii "connect \x7b\x7d:\x7b\x7d: \x7b\x7d") [ip, c.port, env.strerror e]
          | .ok () =>
            let p := { p with
              target := some ⟨(v % 65536).toNat, addr⟩
              state := .data
              bufC2t := [] }
            match io.writeOk with
            | .error e =>
              if e = brokenPipe then .threw .brokenPipe p
              else p.fail io (ascii "Writing ok response failed: \x7b\x7d") [env.strerror e]
            | .ok n => .returned (p.wrote [111, 107, 0] (.ok n))
  else p.fail io (ascii "Unsupported type (\x7b\x7d) or mode (\x7b\x7d)") [c.type, c.mode]

theorem handleConnect_eq (cmd : InputStream) : p.handleConnect env io ip cmd =
    match parseParams (cmd.rest.length + 1) cmd ⟨[], [], [], []⟩ with
    | .error (fmt, param) => p.fail io fmt [param]
    | .ok c => p.openTarget env io ip c := rfl

theorem parseCommand_eq (hl : HasLine p.bufC2t) : p.parseCommand env io ip =
    if word (line p.bufC2t) = ascii "connect" then
      match parsed (parameters (line p.bufC2t)) with
      | .error (fmt, param) => p.fail io fmt [param]
      | .ok c => p.openTarget env io ip c
    else
      match format (ascii "Unsupported command: \x7b\x7d") [word (line p.bufC2t)] with
      | none => .threw .formatError p
      | some msg => p.fail io msg [] := by
  have hline : (p.bufC2t.takeWhile fun b => !isTerminator b) = line p.bufC2t := rfl
  obtain ⟨cmd, hg, hp⟩ := parse_line (line p.bufC2t)
  by_cases hw : word (line p.bufC2t) = ascii "connect"
  · cases hk : parsed (parameters (line p.bufC2t)) <;>
      simp only [parseCommand, if_neg (mt not_hasLine.2 (not_not.2 hl)), hline, hg,
        handleConnect_eq, hp, hk, hw, ↓reduceIte]
  · cases hm : format (ascii "Unsupported command: \x7b\x7d") [word (line p.bufC2t)] <;>
      simp only [parseCommand, if_neg (mt not_hasLine.2 (not_not.2 hl)), hline, hg, hm, hw,
        ↓reduceIte]

theorem parseCommand_accepted (hl : HasLine p.bufC2t) (h : PastParameters (line p.bufC2t) c) :
    p.parseCommand env io ip = p.openTarget env io ip c := by
  obtain ⟨hw, hk, rfl⟩ := pastParameters_iff.1 h
  rw [parseCommand_eq hl, if_pos hw, parsed_known hk]

theorem parseCommand_rejected (hl : HasLine p.bufC2t)
    (h : ∀ c, ¬PastParameters (line p.bufC2t) c) :
    ∃ fmt args, p.parseCommand env io ip = p.fail io fmt args := by
  rw [parseCommand_eq hl]
  split_ifs with hw
  · cases hp : parsed (parameters (line p.bufC2t)) with
    | error x => exact ⟨_, _, rfl⟩
    | ok c => exact absurd (pastParameters_iff.2 ⟨hw, parsed_eq_ok.1 hp⟩) (h c)
  · have hplain : NoBrace (ascii "Unsupported command: ") := by decide
    have hf := format_plain_field hplain (word (line p.bufC2t)) []
    rw [show ascii "Unsupported command: \x7b\x7d" =
      ascii "Unsupported command: " ++ [openBrace, closeBrace] from rfl, hf]
    exact ⟨_, _, rfl⟩

/-- The same parameters in another order, which keeps the order of equal keys. -/
structure Reordered (ps qs : List Bytes) : Prop where
  perm : ps.Perm qs
  order : ∀ k, (ps.filter fun x => decide (key x = k)) = qs.filter fun x => decide (key x = k)

theorem Reordered.params_eq {ps qs : List Bytes} (h : Reordered ps qs) : params ps = params qs := by
  simp only [params, lastValue, h.order]

theorem Reordered.pastParameters {l' : Bytes} (h : Reordered (parameters l) (parameters l'))
    (hw : word l = word l') (hl : PastParameters l c) : PastParameters l' c := by
  rw [pastParameters_iff] at hl ⊢
  obtain ⟨hword, hknown, hc⟩ := hl
  exact ⟨hw ▸ hword, fun x hx => hknown x (h.perm.mem_iff.2 hx), hc.trans h.params_eq⟩

def flushed (p : WrProxy) : WrProxy := { p with bufC2t := [] }

theorem flushed_fail {fmt : Bytes} {args : List Bytes} (hq : p.flushed = q.flushed) :
    (p.fail io fmt args).map flushed = (q.fail io fmt args).map flushed := by
  have hw : ∀ data r, (p.wrote data r).close.flushed = (q.wrote data r).close.flushed ∧
      (p.wrote data r).flushed = (q.wrote data r).flushed := by
    intro data r
    simp only [flushed, WrProxy.mk.injEq] at hq
    cases r <;> simp [flushed, wrote, close, hq]
  cases hf : format fmt args with
  | none => simp only [fail_none hf, Outcome.map, hq]
  | some msg =>
    rw [fail_some hf, fail_some hf]
    unfold writeClient
    split_ifs
    · simp only [Outcome.bind, Outcome.map, hq]
    · simp only [Outcome.returned_bind]
      cases hm : format msg [] with
      | none => simp only [SocketProxy.fail, hm, Outcome.map, (hw _ _).2]
      | some _ => simp only [SocketProxy.fail, hm, Outcome.map, (hw _ _).1]

theorem flushed_openTarget (hq : p.flushed = q.flushed) :
    (p.openTarget env io ip c).map flushed = (q.openTarget env io ip c).map flushed := by
  have hopen : ∀ a, { p with target := a, state := .data, bufC2t := [] } =
      { q with target := a, state := .data, bufC2t := [] } := by
    intro a
    simp only [flushed, WrProxy.mk.injEq] at hq
    simp [hq]
  unfold openTarget
  split
  · split
    · exact flushed_fail hq
    · split
      · exact flushed_fail hq
      · split
        · exact flushed_fail hq
        · split
          · exact flushed_fail hq
          · simp only [hopen]
  · exact flushed_fail hq

/-- A command line, with any bytes: the parameter loop terminates, and it is passed
exactly by the lines of the grammar, with the last value of each key. What happens then
is a matter of these values alone, so that it does not depend on the order of
parameters with different keys; any other line is refused. -/
theorem connect_grammar (l : Bytes) :
    (∃ r, ParamLoop (atParameters l) r) ∧
    (∀ c, PastParameters l c ↔ word l = ascii "connect" ∧
      (arguments l = [] ∨ ∀ x ∈ (arguments l).splitOn 59, (61 : UInt8) ∈ x ∧ key x ∈ keys) ∧
      c = ⟨lastValue (ascii "type") (parameters l), lastValue (ascii "tgt") (parameters l),
        lastValue (ascii "port") (parameters l), lastValue (ascii "mode") (parameters l)⟩) ∧
    (∀ env io ip (p : WrProxy), HasLine p.bufC2t → line p.bufC2t = l →
      (∀ c, PastParameters l c → p.parseCommand env io ip = p.openTarget env io ip c) ∧
      ((∀ c, ¬PastParameters l c) → ∃ fmt args, p.parseCommand env io ip = p.fail io fmt args)) ∧
    ∀ l', word l = word l' → Reordered (parameters l) (parameters l') → ∀ c, PastParameters l c →
      PastParameters l' c ∧ ∀ env io ip (p q : WrProxy), HasLine p.bufC2t → line p.bufC2t = l →
        HasLine q.bufC2t → line q.bufC2t = l' → p.flushed = q.flushed →
        (p.parseCommand env io ip).map flushed = (q.parseCommand env io ip).map flushed := by
  refine ⟨paramLoop_total _, fun c => ?_, fun env io ip p hp hl => ?_, fun l' hw hr c hc => ?_⟩
  · rw [pastParameters_iff, parameters]
    split_ifs with hargs
    · simp [hargs, params]
    · simp only [hargs, false_or]
      rfl
  · subst hl
    exact ⟨fun c hc => parseCommand_accepted hp hc, parseCommand_rejected hp⟩
  · have hc' := hr.pastParameters hw hc
    refine ⟨hc', fun env io ip p q hp hlp hq hlq hpq => ?_⟩
    rw [parseCommand_accepted hp (hlp ▸ hc), parseCommand_accepted hq (hlq ▸ hc')]
    exact flushed_openTarget hpq

end WrProxy

def Numeral (s : Bytes) : Prop := s ≠ [] ∧ ∀ b ∈ s, isDigit b = true

theorem not_isSpace_of_isDigit {b : UInt8} (h : isDigit b = true) :
    isSpace b = false ∧ b ≠ 45 ∧ b ≠ 43 := by
  refine ⟨Bool.eq_false_iff.2 fun hs => ?_, ?_, ?_⟩
  · simp only [isDigit, isSpace, Bool.or_eq_true, Bool.and_eq_true, decide_eq_true_eq,
      UInt8.le_iff_toNat_le, UInt8.reduceToNat] at h hs
    rcases hs with rfl | hs
    · exact absurd h (by decide)
    · omega
  · rintro rfl
    exact absurd h (by decide)
  · rintro rfl
    exact absurd h (by decide)

theorem stoi_numeral {s : Bytes} (h : Numeral s) (hmax : decimalValue s ≤ 2147483647) :
    stoi s = some (decimalValue s : ℤ) := by
  obtain ⟨b, rest, rfl⟩ := List.exists_cons_of_ne_nil h.1
  obtain ⟨hsp, hminus, hplus⟩ := not_isSpace_of_isDigit (h.2 b List.mem_cons_self)
  have hdigits : (b :: rest).takeWhile isDigit = b :: rest := List.takeWhile_eq_self_iff.2 h.2
  have hsign : splitSign ((b :: rest).dropWhile isSpace) = (false, b :: rest) := by
    rw [List.dropWhile_cons_of_neg (by simp [hsp]), splitSign, if_neg hminus, if_neg hplus]
  simp only [stoi, hsign, hdigits, reduceCtorEq, ↓reduceIte, Bool.false_eq_true]
  rw [if_pos (by omega)]

namespace WrProxy

open ConnectLine

variable {env : Env} {io : WrClientIo} {ip : Option Bytes} {p q : WrProxy} {l : Bytes}
  {c : ConnectParams}

/-- The client gets an error reply, as far as its socket takes it, and the connection is
closed. -/
def Refused (io : WrClientIo) (p q : WrProxy) : Prop :=
  ∃ msg, q = (p.wrote (ascii "error wrproxy: " ++ msg ++ [0]) io.writeReply).close

theorem refused_fail {fmt : Bytes} {args : List Bytes} (h : p.fail io fmt args = .returned q) :
    Refused io p q := by
  cases hf : format fmt args with
  | none =>
    rw [fail_none hf] at h
    cases h
  | some msg =>
    rw [fail_some hf] at h
    obtain ⟨p₁, hw, h⟩ := Outcome.bind_eq_returned.1 h
    obtain ⟨_, rfl⟩ := writeClient_returned.1 hw
    exact ⟨msg, SocketProxy.fail_returned h⟩

theorem state_fail {fmt : Bytes} {args : List Bytes} :
    (p.fail io fmt args).state.state = p.state ∧ (p.fail io fmt args).state.target = p.target := by
  have hw : ∀ data r, (p.wrote data r).state = p.state ∧ (p.wrote data r).target = p.target := by
    intro data r
    cases r <;> exact ⟨rfl, rfl⟩
  cases hf : format fmt args with
  | none => simp only [fail_none hf, Outcome.state, and_self]
  | some msg =>
    rw [fail_some hf]
    unfold writeClient
    split_ifs
    · exact ⟨rfl, rfl⟩
    · simp only [Outcome.returned_bind]
      cases hm : format msg [] with
      | none => simp only [SocketProxy.fail, hm, Outcome.state, hw, and_self]
      | some _ => simp only [SocketProxy.fail, hm, Outcome.state, close, hw, and_self]

theorem openTarget_data (hst : p.state = .command)
    (h : (p.openTarget env io ip c).state.state = .data) : ∃ v addr, stoi c.port = some v ∧
      (p.openTarget env io ip c).state.target = some ⟨(v % 65536).toNat, addr⟩ := by
  have hno : ∀ fmt args, (p.fail io fmt args).state.state ≠ .data := by
    intro fmt args hd
    rw [state_fail.1, hst] at hd
    cases hd
  unfold openTarget at h ⊢
  split at h
  · rename_i htm
    rw [if_pos htm]
    split at h
    · exact absurd h (hno _ _)
    · rename_i v hv
      split at h
      · exact absurd h (hno _ _)
      · rename_i x
        split at h
        · exact absurd h (hno _ _)
        · rename_i addr haddr
          split at h
          · exact absurd h (hno _ _)
          · refine ⟨v, addr, hv, ?_⟩
            split
            · split_ifs
              · rfl
              · exact state_fail.2
            · rfl
  · exact absurd h (hno _ _)

/-- On every connection that reads this line: in the `DATA` state the port text is a
numeral and the target socket is connected to its value, and with any other text the
command is refused, if there is a client to write the reply to. -/
def PortHonoured (l port : Bytes) : Prop :=
  ∀ env io ip (p : WrProxy), p.state = .command → HasLine p.bufC2t → line p.bufC2t = l →
    ((p.parseCommand env io ip).state.state = .data →
      Numeral port ∧ decimalValue port ≤ 65535 ∧
        ∃ addr, (p.parseCommand env io ip).state.target = some ⟨decimalValue port, addr⟩) ∧
    (¬(Numeral port ∧ decimalValue port ≤ 65535) → isBrokenPipe io.writeReply = false →
      ∃ q, p.parseCommand env io ip = .returned q ∧ Refused io p q)

theorem parseCommand_bad_port (hl : HasLine p.bufC2t) (hc : PastParameters (line p.bufC2t) c)
    (htm : c.type = ascii "udpsock" ∧ c.mode = ascii "packet") (hno : stoi c.port = none) :
    p.parseCommand env io ip = p.fail io (ascii "Bad port \x7b\x7d") [c.port] := by
  rw [parseCommand_accepted hl hc, openTarget, if_pos htm, hno]

theorem bad_port_returns_iff :
    (p.fail io (ascii "Bad port \x7b\x7d") [c.port]).Returns ↔ ReplySafe io [c.port] :=
  fail_field_returns_iff (by decide : NoBrace (ascii "Bad port ")) c.port (by decide +kernel)

theorem line_append_newline (hl : ∀ b ∈ l, isTerminator b = false) :
    HasLine (l ++ [10]) ∧ line (l ++ [10]) = l := by
  refine ⟨⟨10, List.mem_append_right _ (List.mem_singleton_self _), rfl⟩, ?_⟩
  rw [line, List.takeWhile_append_of_pos]
  · exact List.append_nil l
  · intro b hb
    simp [hl b hb]

theorem portHonoured_of_numeral (hc : PastParameters l c) (hn : Numeral c.port)
    (hmax : decimalValue c.port ≤ 65535) : PortHonoured l c.port := by
  intro env io ip p hst hline hl
  refine ⟨fun hd => ⟨hn, hmax, ?_⟩, fun hno => absurd ⟨hn, hmax⟩ hno⟩
  subst hl
  rw [parseCommand_accepted hline hc] at hd ⊢
  obtain ⟨v, addr, hv, htgt⟩ := openTarget_data hst hd
  rw [stoi_numeral hn (by omega), Option.some.injEq] at hv
  refine ⟨addr, htgt.trans ?_⟩
  rw [← hv, Int.emod_eq_of_lt (by omega) (by omega), Int.toNat_natCast]

theorem portHonoured_of_none (hc : PastParameters l c)
    (htm : c.type = ascii "udpsock" ∧ c.mode = ascii "packet") (hno : stoi c.port = none)
    (hb : bracesPaired c.port = true) : PortHonoured l c.port := by
  intro env io ip p hst hline hl
  subst hl
  rw [parseCommand_bad_port hline hc htm hno]
  refine ⟨fun hd => ?_, fun _ hw => ?_⟩
  · rw [state_fail.1, hst] at hd
    cases hd
  · obtain ⟨q, hq⟩ : (p.fail io (ascii "Bad port \x7b\x7d") [c.port]).Returns :=
      bad_port_returns_iff.2 ⟨hw, fun _ ht => List.mem_singleton.1 ht ▸ hb⟩
    exact ⟨q, hq, refused_fail hq⟩

/-- Whatever the board and the results of the system calls are: the port used is the
port requested exactly if the text is a numeral in range, or `stoi` finds no number in
it and its braces do not upset the error message. -/
theorem port_honoured_iff (hl : ∀ b ∈ l, isTerminator b = false) (hc : PastParameters l c)
    (ht : c.type = ascii "udpsock") (hm : c.mode = ascii "packet") :
    PortHonoured l c.port ↔ (Numeral c.port ∧ decimalValue c.port ≤ 65535) ∨
      (stoi c.port = none ∧ bracesPaired c.port = true) := by
  constructor
  · intro h
    by_contra hcon
    obtain ⟨hnum, hnone⟩ := not_or.1 hcon
    obtain ⟨hline, heq⟩ := line_append_newline hl
    obtain ⟨hdata, hrefused⟩ := h Sample.env (Sample.read []) (some (ascii "10.0.0.1"))
      { new with bufC2t := l ++ [10] } rfl hline heq
    cases hv : stoi c.port with
    | none =>
      obtain ⟨q, hq, _⟩ := hrefused hnum rfl
      rw [parseCommand_bad_port hline (heq.symm ▸ hc) ⟨ht, hm⟩ hv] at hq
      have hsafe := bad_port_returns_iff.1 ⟨q, hq⟩
      exact hnone ⟨hv, hsafe.2 _ (List.mem_singleton_self _)⟩
    | some v =>
      obtain ⟨hn, hmax, _⟩ := hdata (by
        rw [parseCommand_accepted hline (heq.symm ▸ hc), openTarget, if_pos ⟨ht, hm⟩, hv]
        rfl)
      exact hnum ⟨hn, hmax⟩
  · rintro (⟨hn, hmax⟩ | ⟨hno, hb⟩)
    · exact portHonoured_of_numeral hc hn hmax
    · exact portHonoured_of_none hc ⟨ht, hm⟩ hno hb

theorem port_honoured_workbench :
    PortHonoured (ascii "connect type=udpsock;tgt=10.35.95.50;port=17185;mode=packet;mode=packet")
      (ascii "17185") := by
  refine (port_honoured_iff (c := ⟨ascii "udpsock", ascii "10.35.95.50", ascii "17185",
    ascii "packet"⟩) (by decide +kernel) (pastParameters_iff.2 (by decide +kernel)) rfl rfl).2
    (Or.inl ⟨⟨by decide, by decide +kernel⟩, by decide⟩)

/-- A port that does not fit into 16 bits leads to another port without an error. -/
theorem port_wraps_around : ∃ q,
    Run (Calls Sample.env (some (ascii "10.0.0.1"))) new
      [.chunk (ascii "connect type=udpsock;port=82721;mode=packet\n")] q ∧
    q.state = .data ∧ q.closed = false ∧ q.target = some ⟨17185, 0x0100000a⟩ ∧
    ¬decimalValue (ascii "82721") ≤ 65535 := by
  refine ⟨switched ⟨17185, 0x0100000a⟩, .snoc .nil ⟨rfl, by decide, ?_⟩, rfl, rfl, rfl, by decide⟩
  exact Outcome.toOption_eq_some.1 (by decide +kernel)

end WrProxy
end BoardProxy
