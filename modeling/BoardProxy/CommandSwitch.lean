import BoardProxy.WrRelay

/-!
# From the command line to the data

The read that completes a `connect` line switches to the `DATA` state and empties the
buffer, whatever is behind the first terminator. So the data begin right behind the
terminator exactly if that read is the last one of it: a terminator in two reads
leaves its rest at the front of the first frame.
-/

namespace BoardProxy

def WrCall.chunk (bytes : Bytes) : WrCall := .client ⟨.ok bytes, .ok (), .ok (), .ok 3, .ok 0⟩

def ConnectLine.target (env : Env) (ip : Option Bytes) (line : Bytes) : Option SockAddr :=
  let c := params (parameters line)
  if word line = ascii "connect" ∧ (∀ x ∈ parameters line, Known x) ∧ c.type = ascii "udpsock" ∧
      c.mode = ascii "packet" then
    match stoi c.port, ip.bind fun x => env.inetAton (cStr x) with
    | some v, some addr => some ⟨(v % 65536).toNat, addr⟩
    | _, _ => none
  else none

theorem ConnectLine.target_eq_some {env : Env} {ip : Option Bytes} {l : Bytes} {a : SockAddr}
    (h : target env ip l = some a) : word l = ascii "connect" ∧ (∀ x ∈ parameters l, Known x) ∧
      (params (parameters l)).type = ascii "udpsock" ∧
      (params (parameters l)).mode = ascii "packet" ∧
      ∃ v x addr, stoi (params (parameters l)).port = some v ∧ ip = some x ∧
        env.inetAton (cStr x) = some addr ∧ a = ⟨(v % 65536).toNat, addr⟩ := by
  simp only [target] at h
  split_ifs at h with hvalid
  refine ⟨hvalid.1, hvalid.2.1, hvalid.2.2.1, hvalid.2.2.2, ?_⟩
  split at h
  · rename_i v addr hv haddr
    obtain ⟨x, hx, haddr⟩ := Option.bind_eq_some_iff.1 haddr
    exact ⟨v, x, addr, hv, hx, haddr, (Option.some.inj h).symm⟩
  · cases h

namespace WrProxy

open ConnectLine

variable {env : Env} {ip : Option Bytes} {a : SockAddr} {l t c : Bytes} {cs : List Bytes}
  {p q : WrProxy}

def switched (a : SockAddr) : WrProxy := ⟨.data, [], some a, [], [111, 107, 0], false⟩

theorem call_chunk (hst : p.state = .command) (hc : c ≠ [])
    (hfit : c.length ≤ capacity - p.bufC2t.length) : p.call env ip (.chunk c) =
      parseCommand env ⟨.ok c, .ok (), .ok (), .ok 3, .ok 0⟩ ip
        { p with bufC2t := p.bufC2t ++ c } := by
  simp only [call, WrCall.chunk, onClientData, List.take_of_length_le hfit, if_neg hc, hst]

theorem handleConnect_target {io : WrClientIo} {cmd : InputStream} {n : ℕ}
    (hcmd : parseParams (cmd.rest.length + 1) cmd ⟨[], [], [], []⟩ = parsed (parameters l))
    (ha : ConnectLine.target env ip l = some a) (hcon : io.connect = .ok ())
    (hok : io.writeOk = .ok n) : p.handleConnect env io ip cmd =
      .returned ({ p with target := some a, state := .data, bufC2t := [] }.wrote
        [111, 107, 0] (.ok n)) := by
  obtain ⟨_, hknown, htype, hmode, v, x, addr, hv, rfl, haddr, rfl⟩ := target_eq_some ha
  simp only [handleConnect, hcmd, parsed_known hknown, htype, hmode, and_self, ↓reduceIte, hv,
    haddr, hcon, hok]

theorem parseCommand_target {io : WrClientIo} {n : ℕ} (hl : ∀ b ∈ l, isTerminator b = false)
    (ht : ∀ b ∈ t, isTerminator b = true) (hne : t ≠ []) (hbuf : p.bufC2t = l ++ t)
    (ha : ConnectLine.target env ip l = some a) (hcon : io.connect = .ok ())
    (hok : io.writeOk = .ok n) : p.parseCommand env io ip =
      .returned ({ p with target := some a, state := .data, bufC2t := [] }.wrote
        [111, 107, 0] (.ok n)) := by
  have hline : (p.bufC2t.takeWhile fun b => !isTerminator b) = l := by
    obtain ⟨b, rest, rfl⟩ := List.exists_cons_of_ne_nil hne
    rw [hbuf, List.takeWhile_append_of_pos]
    · simp [ht b List.mem_cons_self]
    · intro b hb
      simp [hl b hb]
  have hsome : ¬∀ b ∈ p.bufC2t, isTerminator b = false := by
    obtain ⟨b, rest, rfl⟩ := List.exists_cons_of_ne_nil hne
    intro hall
    have hb := hall b (hbuf ▸ List.mem_append_right _ List.mem_cons_self)
    rw [ht b List.mem_cons_self] at hb
    cases hb
  obtain ⟨cmd, hg, hp⟩ := parse_line l
  simp only [parseCommand, if_neg hsome, hline, hg, (target_eq_some ha).1, ↓reduceIte]
  exact handleConnect_target hp ha hcon hok

theorem nil_notMem_concat : [] ∉ cs ++ [c] ↔ [] ∉ cs ∧ c ≠ [] := by
  rw [List.mem_append, List.mem_singleton, not_or, ne_comm]

section Line

variable (hl : ∀ b ∈ l, isTerminator b = false)
include hl

theorem call_within_line (hst : p.state = .command) (hc : c ≠ []) (hpre : p.bufC2t ++ c <+: l)
    (hfit : c.length ≤ capacity - p.bufC2t.length) :
    p.call env ip (.chunk c) = .returned { p with bufC2t := p.bufC2t ++ c } := by
  rw [call_chunk hst hc hfit]
  refine parseCommand_of_not_hasLine (not_hasLine.2 fun b hb => hl b ?_)
  exact hpre.subset hb

theorem call_switches (ht : ∀ b ∈ t, isTerminator b = true)
    (ha : ConnectLine.target env ip l = some a) (hc : c ≠ [])
    (hpre : cs.flatten ++ c <+: l ++ t) (hlen : l.length < (cs.flatten ++ c).length)
    (hfit : c.length ≤ capacity - cs.flatten.length) :
    call env ip { new with bufC2t := cs.flatten } (.chunk c) = .returned (switched a) := by
  rcases Splitter.prefix_append_cases hpre with ⟨hlt, _⟩ | ⟨w, hw, hwt⟩
  · exact absurd hlt (Nat.not_lt.2 (Nat.le_of_lt hlen))
  · have hne : w ≠ [] := by
      rintro rfl
      rw [hw, List.append_nil] at hlen
      exact absurd hlen (Nat.lt_irrefl _)
    rw [call_chunk rfl hc hfit]
    rw [parseCommand_target hl (fun b hb => ht b (hwt.subset hb)) hne hw ha rfl rfl]
    rfl

theorem line_run (hne : [] ∉ cs) (hpre : cs.flatten <+: l) (hroom : l.length ≤ capacity) :
    Run (Calls env ip) new (cs.map .chunk) { new with bufC2t := cs.flatten } := by
  induction cs using List.reverseRecOn with
  | nil => exact .nil
  | append_singleton cs c ih =>
    obtain ⟨hcs, hc⟩ := nil_notMem_concat.1 hne
    rw [List.flatten_append, List.flatten_singleton] at hpre ⊢
    have hlen := hpre.length_le
    rw [List.length_append] at hlen
    have hfit : c.length ≤ capacity - cs.flatten.length := by omega
    rw [List.map_append]
    exact .snoc (ih hcs ((List.prefix_append _ _).trans hpre))
      ⟨rfl, hfit, call_within_line hl rfl hc hpre hfit⟩

/-- Before the first terminator everything is in the buffer. Behind the read that
brings it, the connection runs from the start of the data. -/
theorem switch_cases (ht : ∀ b ∈ t, isTerminator b = true)
    (ha : ConnectLine.target env ip l = some a) (hne : [] ∉ cs) (hpre : cs.flatten <+: l ++ t)
    (h : Run (Calls env ip) new (cs.map .chunk) q) :
    (cs.flatten.length ≤ l.length ∧ q = { new with bufC2t := cs.flatten }) ∨
      ∃ xs c ys, cs = xs ++ c :: ys ∧ xs.flatten.length ≤ l.length ∧
        (xs.flatten ++ c).length ≤ capacity ∧
        Run (Calls env ip) (switched a) (ys.map .chunk) q := by
  induction cs using List.reverseRecOn generalizing q with
  | nil => exact Or.inl ⟨Nat.zero_le _, h.nil_inv⟩
  | append_singleton cs c ih =>
    rw [List.map_append] at h
    obtain ⟨u, hu, hcall⟩ := h.snoc_inv
    obtain ⟨hcs, hc⟩ := nil_notMem_concat.1 hne
    rw [List.flatten_append, List.flatten_singleton] at hpre ⊢
    rcases ih hcs ((List.prefix_append _ _).trans hpre) hu with
        ⟨hlen, rfl⟩ | ⟨xs, d, ys, rfl, hxs, hroom, hr⟩
    · have hres := hcall.result
      rcases Nat.lt_or_ge l.length (cs.flatten ++ c).length with hlt | hge
      · rw [call_switches hl ht ha hc hpre hlt hcall.fits, Outcome.returned.injEq] at hres
        refine Or.inr ⟨cs, c, [], rfl, hlen, ?_, hres ▸ .nil⟩
        have hpos := List.length_pos_iff.2 hc
        have hfit : c.length ≤ capacity - cs.flatten.length := hcall.fits
        rw [List.length_append]
        omega
      · have hin : cs.flatten ++ c <+: l :=
          List.prefix_of_prefix_length_le hpre (List.prefix_append _ _) hge
        rw [call_within_line hl rfl hc hin hcall.fits, Outcome.returned.injEq] at hres
        exact Or.inl ⟨hge, hres.symm⟩
    · refine Or.inr ⟨xs, d, ys ++ [c], List.append_assoc .., hxs, hroom, ?_⟩
      rw [List.map_append]
      exact .snoc hr hcall

end Line

theorem eq_nil_of_run_switched (h : Run (Calls env ip) (switched a) (cs.map .chunk) q)
    (hne : [] ∉ cs) (hsent : q.sent = []) (hbuf : q.bufC2t = []) : cs = [] := by
  obtain ⟨ds, hds⟩ := framed_run rfl rfl h
  have hnil : ds = [] := by
    have hsent' := hds.sent
    rw [hsent] at hsent'
    exact hsent'.symm
  have hbytes := hds.stream
  rw [hnil, hbuf] at hbytes
  rcases cs with _ | ⟨c, cs⟩
  · rfl
  · have hc : c = [] := (List.append_eq_nil_iff.1 hbytes).1
    exact absurd (hc ▸ List.mem_cons_self) hne

def StartsData (env : Env) (ip : Option Bytes) (cs : List Bytes) : Prop :=
  ∃ q, Run (Calls env ip) new (cs.map .chunk) q ∧ q.state = .data ∧ q.bufC2t = [] ∧ q.sent = [] ∧
    q.closed = false

/-- The line and the terminator fit into the buffer, and no read but the last one
reaches the terminator. -/
def TerminatorAtOnce (l t : Bytes) (cs : List Bytes) : Prop :=
  (l ++ t).length ≤ capacity ∧ cs.dropLast.flatten.length ≤ l.length

instance (l t : Bytes) (cs : List Bytes) : Decidable (TerminatorAtOnce l t cs) :=
  inferInstanceAs (Decidable (_ ∧ _))

section Switch

variable (hl : ∀ b ∈ l, isTerminator b = false) (ht : ∀ b ∈ t, isTerminator b = true)
  (htne : t ≠ []) (ha : ConnectLine.target env ip l = some a)
include hl ht htne ha

theorem switched_run (hne : [] ∉ cs) (hcs : cs.flatten = l ++ t) (h : TerminatorAtOnce l t cs) :
    Run (Calls env ip) new (cs.map .chunk) (switched a) := by
  have hlt : l.length < (l ++ t).length := by
    have hpos := List.length_pos_iff.2 htne
    rw [List.length_append]
    omega
  rcases List.eq_nil_or_concat' cs with rfl | ⟨cs, c, rfl⟩
  · rw [← hcs] at hlt
    exact absurd hlt (Nat.not_lt_zero _)
  · obtain ⟨hroom, hin⟩ := h
    rw [List.dropLast_concat] at hin
    rw [List.flatten_append, List.flatten_singleton] at hcs
    obtain ⟨hne, hc⟩ := nil_notMem_concat.1 hne
    have hpre : cs.flatten <+: l := List.prefix_of_prefix_length_le
      (hcs ▸ List.prefix_append _ _) (List.prefix_append _ _) hin
    have hsum := congrArg List.length hcs
    rw [List.length_append] at hsum
    have hfit : c.length ≤ capacity - cs.flatten.length := by omega
    rw [List.map_append]
    refine .snoc (line_run hl hne hpre (by omega)) ⟨rfl, hfit, ?_⟩
    refine call_switches hl ht ha hc ?_ ?_ hfit
    · rw [hcs]
    · rwa [hcs]

theorem startsData_iff (hne : [] ∉ cs) (hcs : cs.flatten = l ++ t) :
    StartsData env ip cs ↔ TerminatorAtOnce l t cs := by
  constructor
  · rintro ⟨q, hrun, _, hbuf, hsent, _⟩
    have hlt : l.length < cs.flatten.length := by
      have hpos := List.length_pos_iff.2 htne
      rw [hcs, List.length_append]
      omega
    have hpre : cs.flatten <+: l ++ t := by rw [hcs]
    rcases switch_cases hl ht ha hne hpre hrun with ⟨hlen, _⟩ | ⟨xs, c, ys, rfl, hxs, hroom, hr⟩
    · exact absurd hlt (Nat.not_lt.2 hlen)
    · have hys : [] ∉ ys := fun hmem => hne (List.mem_append_right _ (List.mem_cons_of_mem _ hmem))
      obtain rfl := eq_nil_of_run_switched hr hys hsent hbuf
      refine ⟨?_, ?_⟩
      · rw [← hcs, List.flatten_append, List.flatten_singleton]
        exact hroom
      · rwa [List.dropLast_concat]
  · intro h
    exact ⟨_, switched_run hl ht htne ha hne hcs h, rfl, rfl, rfl, rfl⟩

end Switch

theorem Calls.unique {d : WrCall} {r : WrProxy} (h : Calls env ip p d q) (h' : Calls env ip p d r) :
    q = r :=
  Outcome.returned.inj (h.result.symm.trans h'.result)

/-- Two ways to read a valid `connect` line and its terminator: both lead to the start
of the data, with the same datagrams for all that follows, exactly if the terminator
is read at once in both. -/
theorem switch_insensitive_iff {cs₁ cs₂ : List Bytes} (hl : ∀ b ∈ l, isTerminator b = false)
    (ht : ∀ b ∈ t, isTerminator b = true) (htne : t ≠ [])
    (ha : ConnectLine.target env ip l = some a) (hne₁ : [] ∉ cs₁) (hcs₁ : cs₁.flatten = l ++ t)
    (hne₂ : [] ∉ cs₂) (hcs₂ : cs₂.flatten = l ++ t) :
    (StartsData env ip cs₁ ∧ StartsData env ip cs₂ ∧
      ∀ fs q₁ q₂, Run (Calls env ip) new (cs₁.map .chunk ++ fs) q₁ →
        Run (Calls env ip) new (cs₂.map .chunk ++ fs) q₂ → q₁.sent = q₂.sent) ↔
      TerminatorAtOnce l t cs₁ ∧ TerminatorAtOnce l t cs₂ := by
  rw [startsData_iff hl ht htne ha hne₁ hcs₁, startsData_iff hl ht htne ha hne₂ hcs₂]
  refine ⟨fun h => ⟨h.1, h.2.1⟩, fun h => ⟨h.1, h.2, fun fs q₁ q₂ hr₁ hr₂ => ?_⟩⟩
  have hdet : ∀ p c q r, Calls env ip p c q → Calls env ip p c r → q = r :=
    fun _ _ _ _ hq hr => hq.unique hr
  obtain ⟨u₁, hu₁, hf₁⟩ := hr₁.append_inv
  obtain ⟨u₂, hu₂, hf₂⟩ := hr₂.append_inv
  rw [hu₁.unique hdet (switched_run hl ht htne ha hne₁ hcs₁ h.1)] at hf₁
  rw [hu₂.unique hdet (switched_run hl ht htne ha hne₂ hcs₂ h.2)] at hf₂
  rw [hf₁.unique hdet hf₂]

theorem switch_insensitive_two_reads :
    let ip := some (ascii "10.0.0.1")
    let one := [ascii "connect type=udpsock;port=17185;mode=packet\x0d\n"]
    let two := [ascii "connect type=udpsock;port=17", ascii "185;mode=packet\x0d\n"]
    StartsData Sample.env ip one ∧ StartsData Sample.env ip two ∧
      ∀ fs q₁ q₂, Run (Calls Sample.env ip) new (one.map .chunk ++ fs) q₁ →
        Run (Calls Sample.env ip) new (two.map .chunk ++ fs) q₂ → q₁.sent = q₂.sent := by
  have hterm : ∀ b ∈ ([13, 10] : Bytes), isTerminator b = true := by decide +kernel
  refine (switch_insensitive_iff (l := ascii "connect type=udpsock;port=17185;mode=packet")
    (a := ⟨17185, 0x0100000a⟩) ?_ hterm (by decide) ?_ ?_ ?_ ?_ ?_).2 ⟨?_, ?_⟩ <;> decide +kernel

/-- With CR and LF in two reads the LF stays in front of the frame, which is then
never sent. -/
theorem split_terminator_shifts_frames : ∃ q₁ q₂,
    Run (Calls Sample.env (some (ascii "10.0.0.1"))) new
      [.chunk (ascii "connect type=udpsock;port=17185;mode=packet\x0d\n"), .chunk (frame [7])] q₁ ∧
    Run (Calls Sample.env (some (ascii "10.0.0.1"))) new
      [.chunk (ascii "connect type=udpsock;port=17185;mode=packet\x0d"), .chunk (ascii "\n"),
        .chunk (frame [7])] q₂ ∧
    q₁.sent = [[7]] ∧ q₂.sent = [] := by
  refine ⟨{ switched ⟨17185, 0x0100000a⟩ with sent := [[7]] },
    { switched ⟨17185, 0x0100000a⟩ with bufC2t := 10 :: frame [7] }, ?_, ?_, rfl, rfl⟩
  · refine .snoc (t := switched ⟨17185, 0x0100000a⟩) (.snoc .nil ?_) ?_
    · exact ⟨rfl, by decide, Outcome.toOption_eq_some.1 (by decide +kernel)⟩
    · exact ⟨rfl, by decide, rfl⟩
  · refine .snoc (t := { switched ⟨17185, 0x0100000a⟩ with bufC2t := [10] })
      (.snoc (t := switched ⟨17185, 0x0100000a⟩) (.snoc .nil ?_) ?_) ?_
    · exact ⟨rfl, by decide, Outcome.toOption_eq_some.1 (by decide +kernel)⟩
    · exact ⟨rfl, by decide, rfl⟩
    · exact ⟨rfl, by decide, rfl⟩

end WrProxy
end BoardProxy
