import BoardProxy.CallbackCases

/-!
# A setup request and its own packet

`on_setup_msg` reads a whole `proto::setup` from the receive buffer, of which the packet
may have filled less, and the user name as a C string, which may run on behind its
field. The request is a function of the packet alone exactly if the packet reaches
the flag behind the name and the name ends in its field.
-/

namespace BoardProxy

/-- What `on_setup_msg` takes from a packet received into a buffer with these contents:
nothing if there is no descriptor with it, which ends the session, and otherwise the
fields of the request. -/
def Session.takeSetup (m : Memory) (pkt : Packet) : Except Fault (Option Proto.Request) :=
  if pkt.fds.take Session.maxFds = [] then .ok none
  else
    match Proto.readSetup (m.store (pkt.data.take Proto.bufferSize)) with
    | none => .error .overread
    | some r => .ok (some r)

namespace Daemon

variable {env : Env} {sys : Sys} {d : Daemon} {sid : ℕ} {s : Session} {pkt : Packet}

def actOnSetup (env : Env) (sys : Sys) (d : Daemon) (sid : ℕ) (s : Session) (pkt : Packet) :
    Except Fault (Option Proto.Request) → Outcome Daemon
  | .error f => .threw f (d.receive sid pkt)
  | .ok none => (Session.closeSession env sys (d.receive sid pkt) sid).bind fun d =>
      Session.closeSession env sys d sid
  | .ok (some r) =>
    if r.cmd = Proto.connect then Session.onConnect env sys (d.introduce sid pkt r) sid r.noWait
    else if r.cmd = Proto.listSessions then
      ((d.introduce sid pkt r).printStatus sys sid (s.introduced pkt r).fdOut).bind fun d =>
        Session.closeSession env sys d sid
    else .returned (d.introduce sid pkt r)

theorem onDataFromClient_takeSetup (hs : d.session sid = some s)
    (hset : (Event.clientData sid (.ok pkt) sys).setup? = some (sid, pkt)) :
    Session.onDataFromClient env sys d sid (.ok pkt) =
      actOnSetup env sys d sid s pkt (Session.takeSetup s.buffer pkt) := by
  have hd : pkt.data ≠ [] := by
    intro hd
    simp [Event.setup?, hd, Proto.headerSize] at hset
  have hrec := session_receive_self pkt hs
  by_cases hf : pkt.fds.take Session.maxFds = []
  · rw [onDataFromClient_packet hs hd, hset, if_pos Option.isSome_some]
    simp only [Session.onSetupMsg, if_pos (Session.controlLen_lt_iff.2 hf), if_pos hf,
      Session.takeSetup, actOnSetup]
  · cases hr : Proto.readSetup (s.buffer.store (pkt.data.take Proto.bufferSize)) with
    | some r =>
      rw [onDataFromClient_request hs hset hf hr]
      simp only [Session.takeSetup, if_neg hf, hr, actOnSetup]
    | none =>
      rw [onDataFromClient_packet hs hd, hset, if_pos Option.isSome_some]
      simp only [Session.onSetupMsg, if_neg (mt Session.controlLen_lt_iff.1 hf), Outcome.bind,
        if_neg hf, deref, hrec, Session.received, hr, Session.takeSetup,
        actOnSetup]

end Daemon

namespace Packet

open Session (takeSetup)

variable {pkt : Packet}

/-- Whatever the receive buffer held before: the packet is rejected, or its request is
the same and the name fits into its field. -/
def OwnRequest (pkt : Packet) : Prop :=
  ∀ m m', (takeSetup m pkt = .ok none ∧ takeSetup m' pkt = .ok none) ∨
    ∃ r, takeSetup m pkt = .ok (some r) ∧ takeSetup m' pkt = .ok (some r) ∧ r.username.length ≤ 31

/-- The packet reaches the flag behind the name, and the name ends in its field. -/
def SelfContained (pkt : Packet) : Prop :=
  49 ≤ pkt.data.length ∧ ∃ i < Proto.usernameSize, pkt.data[Proto.usernameOffset + i]? = some 0

theorem takeSetup_eq_request {m : Memory} {r : Proto.Request}
    (hf : pkt.fds.take Session.maxFds ≠ []) : takeSetup m pkt = .ok (some r) ↔
      Proto.readSetup (m.store (pkt.data.take Proto.bufferSize)) = some r := by
  rw [takeSetup, if_neg hf]
  cases Proto.readSetup (m.store (pkt.data.take Proto.bufferSize)) <;> simp

theorem SelfContained.readSetup (h : pkt.SelfContained) (m m' : Memory) :
    ∃ r, Proto.readSetup (m.store (pkt.data.take Proto.bufferSize)) = some r ∧
      Proto.readSetup (m'.store (pkt.data.take Proto.bufferSize)) = some r ∧
      r.username.length ≤ 31 := by
  obtain ⟨hlen, i, hi, hz⟩ := h
  have hoff : Proto.usernameOffset = 16 := rfl
  have hsize : Proto.usernameSize = 32 ∧ Proto.bufferSize = 65536 := ⟨rfl, rfl⟩
  rw [← List.getElem?_take_of_lt (show _ < Proto.bufferSize by omega)] at hz
  have hdata : 49 ≤ (pkt.data.take Proto.bufferSize).length := by
    rw [List.length_take]
    omega
  generalize pkt.data.take Proto.bufferSize = data at hdata hz ⊢
  have hstore : ∀ j < 49, m.store data j = m'.store data j := by
    intro j hj
    rw [Memory.store_of_lt m (by omega), Memory.store_of_lt m' (by omega)]
  have hword : ∀ off, off + 4 ≤ 49 → (m.store data).word off = (m'.store data).word off := by
    intro off h
    rw [Memory.word_store m (by omega), Memory.word_store m' (by omega)]
  have hnul : m.store data (Proto.usernameOffset + i) = 0 := by
    simp [Memory.store, List.getD_eq_getElem?_getD, hz]
  have hfield : ∀ j ≤ i, m.store data (Proto.usernameOffset + j) =
      m'.store data (Proto.usernameOffset + j) := fun j hj => hstore _ (by omega)
  obtain ⟨name, hname, hname', hle⟩ := Memory.cString_congr
    (n := Proto.bufferSize - Proto.usernameOffset) hnul (by omega) hfield
  refine ⟨⟨(m.store data).word 8, UInt32.ofNat ((m.store data).word 12), name,
    decide (m.store data 48 ≠ 0)⟩, ?_, ?_, ?_⟩
  · rw [Proto.readSetup, hname]
    rfl
  · rw [Proto.readSetup, hname', hword 8 (by omega), hword 12 (by omega), hstore 48 (by omega)]
    rfl
  · exact hle.trans (by omega)

theorem SelfContained.ownRequest (h : pkt.SelfContained)
    (hf : pkt.fds.take Session.maxFds ≠ []) : pkt.OwnRequest := by
  intro m m'
  obtain ⟨r, hr, hr', hlen⟩ := h.readSetup m m'
  exact Or.inr ⟨r, (takeSetup_eq_request hf).2 hr, (takeSetup_eq_request hf).2 hr', hlen⟩

/-- The flag is taken from the packet: two buffers that differ in this byte give the
same one. -/
theorem OwnRequest.selfContained (h : pkt.OwnRequest) (hf : pkt.fds.take Session.maxFds ≠ []) :
    pkt.SelfContained := by
  have hrej : ∀ m, takeSetup m pkt ≠ .ok none := by
    intro m hm
    rw [takeSetup, if_neg hf] at hm
    split at hm
    · cases hm
    · cases hm
  obtain ⟨hm, _⟩ | ⟨r, hr, hr', hlen⟩ := h (fun _ => 0) fun i => if i = 48 then 1 else 0
  · exact absurd hm (hrej _)
  rw [takeSetup_eq_request hf] at hr hr'
  obtain ⟨name, hname, rfl⟩ := Option.map_eq_some_iff.1 hr
  obtain ⟨name', _, heq⟩ := Option.map_eq_some_iff.1 hr'
  have hdata : 49 ≤ (pkt.data.take Proto.bufferSize).length := by
    by_contra hshort
    have hwait := congrArg Proto.Request.noWait heq
    simp only [Memory.store_of_le _ (show (pkt.data.take Proto.bufferSize).length ≤ 48 by omega)]
      at hwait
    cases hwait
  have hend := Memory.cString_terminator hname
  have hoff : Proto.usernameOffset = 16 := rfl
  have hlt : Proto.usernameOffset + name.length < 49 := by
    simp only at hlen
    omega
  rw [Memory.store_of_lt _ (by omega)] at hend
  have hlen' : 49 ≤ pkt.data.length := by
    rw [List.length_take] at hdata
    omega
  refine ⟨hlen', name.length, Nat.lt_succ_of_le hlen, ?_⟩
  rw [List.getD_eq_getElem?_getD, List.getElem?_take_of_lt (by simp only [Proto.bufferSize]; omega)]
    at hend
  rw [List.getElem?_eq_getElem (by omega)] at hend ⊢
  exact congrArg some hend

/-- A packet with the header of a setup message: what the daemon does is a matter of what
it takes from the packet, and this is the same for all earlier contents of the buffer
exactly if the packet is rejected or self-contained. -/
theorem own_request_iff {sid : ℕ} {sys : Sys}
    (hset : (Event.clientData sid (.ok pkt) sys).setup? = some (sid, pkt)) :
    (∀ env (d : Daemon) s, d.session sid = some s →
      Session.onDataFromClient env sys d sid (.ok pkt) =
        d.actOnSetup env sys sid s pkt (takeSetup s.buffer pkt)) ∧
    (pkt.OwnRequest ↔ pkt.fds.take Session.maxFds = [] ∨ pkt.SelfContained) := by
  refine ⟨fun env d s hs => Daemon.onDataFromClient_takeSetup hs hset, ?_⟩
  by_cases hf : pkt.fds.take Session.maxFds = []
  · refine iff_of_true (fun m m' => Or.inl ⟨?_, ?_⟩) (Or.inl hf)
    · rw [takeSetup, if_pos hf]
    · rw [takeSetup, if_pos hf]
  · exact ⟨fun h => Or.inr (h.selfContained hf), fun h => (h.resolve_left hf).ownRequest hf⟩

/-- What the client of this repository sends is read from its own packet. -/
theorem own_request_sendSetup :
    (Client.sendSetup 0 7 (ascii "joe") false (0, 0, 0) 3 4 5 fun _ => 0).OwnRequest := by
  have hset : (Event.clientData 0 (.ok (Client.sendSetup 0 7 (ascii "joe") false (0, 0, 0) 3 4 5
      fun _ => 0)) (Sample.sys 100)).setup? = some (0, Client.sendSetup 0 7 (ascii "joe") false
        (0, 0, 0) 3 4 5 fun _ => 0) := by
    rw [Event.setup?, if_pos (by decide +kernel)]
  exact (own_request_iff hset).2.2 (Or.inr ⟨by decide +kernel, 3, by decide, by decide +kernel⟩)

/-- A setup message that ends behind the parent pid: the name is what an earlier packet
has left in the buffer. -/
theorem short_setup_takes_old_name :
    let pkt : Packet := ⟨le32 0 ++ le32 52 ++ le32 0 ++ le32 7, [3, 4, 5], fun _ => 0⟩
    let old : Memory := fun i => (le32 1 ++ le32 20 ++ le32 0 ++ le32 0 ++ ascii "ann").getD i 0
    ((Event.clientData 0 (.ok pkt) (Sample.sys 100)).setup?.isSome,
      (takeSetup (fun _ => 0) pkt).toOption, (takeSetup old pkt).toOption) =
    (true, some (some ⟨0, 7, [], false⟩), some (some ⟨0, 7, ascii "ann", false⟩)) := by
  decide +kernel

end Packet
end BoardProxy
