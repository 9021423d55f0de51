import BoardProxy.SessionHistory
import BoardProxy.WaitQueue

/-!
# Reservations and the name in the setup message

The name that a client sends is cut at 31 bytes, and boards are reserved for
names of any length. A session holds a reserved board only under the name that
the daemon has read. The boards are looked at in the state in which the callback
is left, also when the command cannot be started.
-/

namespace BoardProxy

theorem Outcome.state_map {α β : Type*} (g : α → β) (o : Outcome α) :
    (o.map g).state = g o.state := by
  cases o <;> rfl

namespace Tenancy

def Entitled (spec : ℕ → Option BoardSpec) (f : ℕ → Option Tenant) : Prop :=
  ∀ k t i b, f k = some t → t.board = some i → spec i = some b → b.Eligible t.name

namespace Entitled

variable {spec : ℕ → Option BoardSpec} {f : ℕ → Option Tenant} {sid : ℕ} {t u : Tenant}
  {v v' : Tenancy} {T : ℕ → Prop} {forced : List Process → ℕ → Prop}

theorem update (h : Entitled spec f)
    (hu : ∀ i b, u.board = some i → spec i = some b → b.Eligible u.name) :
    Entitled spec (Function.update f sid (some u)) := by
  intro k w i b hw hb hs
  rcases update_eq_some hw with ⟨_, rfl⟩ | ⟨_, hw⟩
  · exact hu i b hb hs
  · exact h k w i b hw hb hs

theorem update_none (h : Entitled spec f) (hu : u.board = none) :
    Entitled spec (Function.update f sid (some u)) :=
  h.update fun i b hb _ => by
    rw [hu] at hb
    cases hb

theorem amend (h : Entitled spec f) (ht : f sid = some t) (hb : u.board = t.board)
    (hn : u.name = t.name) : Entitled spec (Function.update f sid (some u)) :=
  h.update fun i b hub hs => hn ▸ h sid t i b ht (hb ▸ hub) hs

theorem remove (h : Entitled spec f) : Entitled spec (Function.update f sid none) := by
  intro k w i b hw hb hs
  rw [Function.update_apply] at hw
  by_cases hk : k = sid
  · rw [if_pos hk] at hw
    cases hw
  · rw [if_neg hk] at hw
    exact h k w i b hw hb hs

theorem serve (h : Entitled spec f) {i : ℕ} (hi : u.board = some i)
    (hm : ∃ b, spec i = some b ∧ b.Eligible u.name) :
    Entitled spec (Function.update f sid (some u)) := by
  refine h.update fun j b hj hs => ?_
  obtain ⟨c, hc, he⟩ := hm
  rw [hi, Option.some.injEq] at hj
  rw [← hj, hc, Option.some.injEq] at hs
  exact hs ▸ he

theorem step (hc : Coherent v) (h : Entitled v.spec v.tenant)
    (hs : Step (Once T) forced v v') : Entitled v'.spec v'.tenant := by
  cases hs with
  | accept => exact h.update_none rfl
  | @rename sid t name ht hset => exact h.update_none ((hc.board_none sid t ht).2 (Or.inl hset.1))
  | wait _ _ hb => exact h.update_none hb
  | grant _ _ _ _ hf => exact h.serve rfl hf.2
  | close ht _ _ hb => exact h.amend ht hb.symm rfl
  | leave => exact h.remove
  | handOver _ _ _ _ hf => exact h.remove.serve rfl hf.2
  | exits => exact h
  | reapUnwatched => exact h
  | reap ht => exact h.amend ht rfl rfl

end Entitled
end Tenancy

namespace Daemon

variable {env : Env} {sys : Sys} {d d' : Daemon} {sid i j : ℕ} {s : Session} {b : BoardSpec}

theorem owner_startProcess : (Session.startProcess env sys d sid).state.owner j = d.owner j := by
  simp only [Session.startProcess, deref, derefBoard]
  cases d.session sid with
  | none => rfl
  | some s =>
    cases hi : s.board with
    | none =>
      simp only [hi]
      rfl
    | some i =>
      cases hb : d.spec i with
      | none =>
        simp only [hi, hb]
        rfl
      | some b =>
        cases hc : env.splitUnix b.command with
        | none =>
          simp only [hi, hb, hc]
          rfl
        | some argv =>
          cases sys.fork with
          | error e =>
            simp only [hi, hb, hc]
            rfl
          | ok pid =>
            simp only [hi, hb, hc]
            rfl

theorem owner_assignBoard (hs : d.session sid = some s) (hb : d.spec i = some b) :
    (Session.assignBoard env sys d sid i).state.owner j =
      if j = i then some sid else d.owner j := by
  have hown : ∀ f, ((d.modifySession sid f).modifyBoard i (Board.acquire sid)).owner j =
      if j = i then some sid else d.owner j := fun f => by
    rw [owner_acquire]
    · rfl
    · exact lt_of_spec d i hb
  simp only [Session.assignBoard, deref, hs, hb, dprintf]
  cases sys.brokenPipe s.fdErr with
  | true => exact hown _
  | false =>
    rw [if_neg Bool.false_ne_true, Outcome.returned_bind, owner_startProcess, owner_act, hown]

theorem not_owner_closeSession (hs : d.session sid = some s) (hown : ∀ j, d.owner j ≠ some sid) :
    (Daemon.closeSession env sys d sid).state.owner j ≠ some sid := by
  have hdep : ∀ j, (d.departed sid).owner j ≠ some sid := by
    intro j
    rw [departed_owner hs]
    by_cases hb : s.board = some j
    · simp [hb]
    · rw [if_neg hb]
      exact hown j
  unfold closeSession
  rw [Outcome.state_map, exitIfIdle_eq_silent]
  change (serveWaiting env sys (d.departed sid)).state.owner j ≠ some sid
  unfold serveWaiting
  cases hf : (d.departed sid).findWaiting (d.departed sid).waitQueue with
  | error f => exact hdep j
  | ok o =>
    cases o with
    | none => exact hdep j
    | some x =>
      obtain ⟨w, i⟩ := x
      obtain ⟨pre, post, t, hq, ht, hav, _⟩ := findWaiting_some hf
      obtain ⟨_, b, hb, _⟩ := findAvailableBoard_some hav
      have hw : w ≠ sid := by
        intro he
        rw [departed_session, if_pos he] at ht
        cases ht
      simp only
      rw [owner_assignBoard (d := (d.departed sid).dequeue w) ht hb]
      by_cases hj : j = i
      · rw [if_pos hj]
        exact fun h => hw (Option.some.inj h)
      · rw [if_neg hj]
        exact hdep j

theorem owner_onConnect_some {noWait : Bool} (hs : d.session sid = some s)
    (hf : d.findAvailableBoard s.getUsername = some i) :
    (Session.onConnect env sys d sid noWait).state.owner j =
      if j = i then some sid else d.owner j := by
  obtain ⟨_, b, hb, _⟩ := findAvailableBoard_some hf
  have hsa := setAwaiting_session_self hs
  rw [onConnect_of_available noWait hs hf]
  exact owner_assignBoard hsa hb

theorem not_owner_onConnect {noWait : Bool} (hs : d.session sid = some s)
    (hf : d.findAvailableBoard s.getUsername = none) (hown : ∀ j, d.owner j ≠ some sid) :
    (Session.onConnect env sys d sid noWait).state.owner j ≠ some sid := by
  rw [onConnect_of_none noWait hs hf]
  split_ifs
  · exact hown j
  · exact not_owner_closeSession (enqueue_session_self hs) hown
  · exact hown j

theorem findAvailableBoard_reserved {name : Bytes} (hn : name ≠ [])
    (h : ∃ i b, d.owner i = none ∧ d.spec i = some b ∧ b.reservedFor = name) :
    ∃ i b, d.findAvailableBoard name = some i ∧ d.spec i = some b ∧ b.reservedFor = name := by
  obtain ⟨i, b, ho, hb, hr⟩ := h
  obtain ⟨c, hc, rfl⟩ := Option.map_eq_some_iff.1 hb
  have hfree : c.owner = none := by
    rw [owner, hc, Option.bind_some] at ho
    exact ho
  have hsome : (d.boards.findIdx? fun b =>
      b.isAvailable && decide (b.reservedFor ≠ []) && decide (b.reservedFor = name)).isSome := by
    rw [List.findIdx?_isSome, List.any_eq_true]
    refine ⟨c, List.mem_of_getElem? hc, ?_⟩
    simp [Board.isAvailable, hfree, hr, hn]
  obtain ⟨j, hj⟩ := Option.isSome_iff_exists.1 hsome
  obtain ⟨hlt, hp, _⟩ := List.findIdx?_eq_some_iff_getElem.1 hj
  refine ⟨j, d.boards[j].toBoardSpec, ?_, ?_, ?_⟩
  · simp only [findAvailableBoard, hj]
  · rw [spec, List.getElem?_eq_getElem hlt, Option.map_some]
  · simp only [Bool.and_eq_true, decide_eq_true_eq] at hp
    exact hp.2

theorem owner_after_connect {pkt : Packet} {r : Proto.Request} (hs : d.session sid = some s)
    (hset : (Event.clientData sid (.ok pkt) sys).setup? = some (sid, pkt))
    (hfds : pkt.fds.take Session.maxFds ≠ [])
    (hr : Proto.readSetup (s.buffer.store (pkt.data.take Proto.bufferSize)) = some r)
    (hcmd : r.cmd = Proto.connect) (hown : ∀ j, d.owner j ≠ some sid) :
    (Session.onDataFromClient env sys d sid (.ok pkt)).state.owner i = some sid ↔
      d.findAvailableBoard (r.name s.usernameCred) = some i := by
  rw [onDataFromClient_request hs hset hfds hr, if_pos hcmd]
  have hsi := session_introduce_self pkt r hs
  cases hf : d.findAvailableBoard (r.name s.usernameCred) with
  | none =>
    have hno : (Session.onConnect env sys (d.introduce sid pkt r) sid r.noWait).state.owner i ≠
        some sid := not_owner_onConnect hsi hf hown
    simp [hno]
  | some j =>
    rw [owner_onConnect_some hsi hf, Option.some.injEq]
    by_cases hij : i = j
    · simp [hij]
    · rw [if_neg hij]
      exact ⟨fun h => absurd h (hown i), fun h => absurd h.symm hij⟩

section Runs

variable {e : Event} {es : List Event} {bs : List BoardSpec} {fs : List ProxyFactory} {sd : Bool}
  {ppid : Pid} {n : Bytes} {noWait : Bool} {pad : UInt8 × UInt8 × UInt8} {fdIn fdOut fdErr : ℤ}
  {stale : ℕ → ℤ} {pkt : Packet}

theorem entitled_run (h : Run (Next env) (initial bs fs sd) es d) (ho : AtMostOneSetup es) :
    Tenancy.Entitled d.view.spec d.view.tenant := by
  refine h.history (fun es d => AtMostOneSetup es → Tenancy.Entitled d.view.spec d.view.tenant)
    ?_ ?_ ho
  · exact fun _ k t i b ht => (by cases ht)
  · intro es d e d' hr ih hn ho
    have hor := orderly_run hr ho.of_append
    exact invariant_path (P := fun v => Tenancy.Entitled v.spec v.tenant) hor.settled.coherent
      (ih ho.of_append) (fun _ _ hu hen hs => hen.step hu hs) (hor.anyPath ho hn)

theorem setup_sendSetup (hpkt : pkt = Client.sendSetup 0 ppid n noWait pad fdIn fdOut fdErr stale) :
    (Event.clientData sid (.ok pkt) sys).setup? = some (sid, pkt) := by
  subst hpkt
  have htake := Client.take_sendSetup 0 ppid n noWait pad fdIn fdOut fdErr stale
  have hlen := (Proto.Setup.new 0 ppid n noWait).bytes_length pad
  simp only [Event.setup?, htake]
  refine if_pos ⟨?_, ?_⟩
  · rw [hlen]
    decide
  · rw [← Memory.word_store (fun _ => 0) (by rw [hlen]; decide), Proto.bytes_msgType]

theorem findAvailableBoard_take_iff (hn : n ≠ []) :
    ((∀ i b, d.findAvailableBoard (n.take 31) = some i → d.spec i = some b →
        b.reservedFor ≠ [] → b.reservedFor = n) ∧
      ((∃ i b, d.owner i = none ∧ d.spec i = some b ∧ b.reservedFor = n) →
        ∃ i b, d.findAvailableBoard (n.take 31) = some i ∧ d.spec i = some b ∧
          b.reservedFor = n)) ↔
      (n.length ≤ 31 ∨ ∀ i b, d.owner i = none → d.spec i = some b →
        b.reservedFor ≠ n ∧ b.reservedFor ≠ n.take 31) := by
  have hm : n.take 31 ≠ [] := by simp [hn]
  -- the board that is found is free, and reserved for the cut name or for nobody
  have hfound : ∀ i b, d.findAvailableBoard (n.take 31) = some i → d.spec i = some b →
      d.owner i = none ∧ (b.reservedFor = [] ∨ b.reservedFor = n.take 31) := by
    intro i b hf hb
    obtain ⟨ho, c, hc, he⟩ := findAvailableBoard_some hf
    rw [hb, Option.some.injEq] at hc
    exact ⟨ho, hc ▸ he⟩
  constructor
  · intro ⟨honly, hall⟩
    by_cases hlen : n.length ≤ 31
    · exact Or.inl hlen
    · have hcut : n.take 31 ≠ n := fun h => hlen ((List.take_eq_self_iff n).1 h)
      refine Or.inr fun i b ho hb => ⟨fun hr => ?_, fun hr => ?_⟩
      · obtain ⟨j, c, hj, hc, hcr⟩ := hall ⟨i, b, ho, hb, hr⟩
        rcases (hfound j c hj hc).2 with he | he
        · exact hn (hcr.symm.trans he)
        · exact hcut (he.symm.trans hcr)
      · obtain ⟨j, c, hj, hc, hcr⟩ := findAvailableBoard_reserved hm ⟨i, b, ho, hb, hr⟩
        exact hcut (hcr.symm.trans (honly j c hj hc (hcr ▸ hm)))
  · intro hcond
    refine ⟨fun i b hf hb hr => ?_, fun hex => ?_⟩
    · obtain ⟨ho, he | he⟩ := hfound i b hf hb
      · exact absurd he hr
      · rcases hcond with hlen | hno
        · exact he.trans ((List.take_eq_self_iff n).2 hlen)
        · exact absurd he (hno i b ho hb).2
    · rcases hcond with hlen | hno
      · have hcut := (List.take_eq_self_iff n).2 hlen
        rw [hcut]
        exact findAvailableBoard_reserved hn hex
      · obtain ⟨i, b, ho, hb, hr⟩ := hex
        exact absurd hr (hno i b ho hb).1

theorem reserved_for_carried (h : Run (Next env) (initial bs fs sd) es d) (ho : AtMostOneSetup es)
    (hpkt : pkt = Client.sendSetup 0 ppid n noWait pad fdIn fdOut fdErr stale)
    (hmem : (sid, pkt) ∈ setupPackets es) (hn : n ≠ []) (h0 : (0 : UInt8) ∉ n)
    (hown : d.owner i = some sid) (hb : d.spec i = some b) (hr : b.reservedFor ≠ []) :
    b.reservedFor = n.take 31 := by
  have hc := (orderly_run h ho).settled.coherent
  obtain ⟨t, ht, hbt⟩ := (hc.owner_iff i sid).1 hown
  obtain ⟨s, hs, rfl⟩ := exists_of_view_tenant ht
  have hst : s.status ≠ .created := fun hst =>
    hc.not_owned ht ((hc.board_none sid s.tenant ht).2 (Or.inl hst)) i hown
  obtain ⟨q, r, hq, ⟨m, hrd⟩, _, hu⟩ := introduced_run h ho sid s hs hst
  rw [ho.packet_unique hq hmem, hpkt, Client.readSetup_sendSetup, cStr_of_nulFree h0,
    Option.some.injEq] at hrd
  have hname : s.getUsername = n.take 31 := by
    have hne : n.take 31 ≠ [] := by simp [hn]
    rw [Session.getUsername, hu, ← hrd, if_neg hne]
  rcases entitled_run h ho sid s.tenant i b ht hbt hb with he | he
  · exact absurd he hr
  · exact he.trans hname

/-- A message with the name `n` brings the boards reserved for `n` and no other
reserved board, exactly when the name fits into its field or no free board is
reserved for the name or for what is left of it. Later on, too, the session holds
no board that is reserved for another name as long as the name fits. -/
theorem once_run_reservation_iff (h : Run (Next env) (initial bs fs sd) es d)
    (ho : AtMostOneSetup (es ++ [.clientData sid (.ok pkt) sys])) (hs : d.session sid = some s)
    (hpkt : pkt = Client.sendSetup 0 ppid n noWait pad fdIn fdOut fdErr stale) (hn : n ≠ [])
    (h0 : (0 : UInt8) ∉ n) :
    (((∀ i b, (d.step env (.clientData sid (.ok pkt) sys)).state.owner i = some sid →
        d.spec i = some b → b.reservedFor ≠ [] → b.reservedFor = n) ∧
      ((∃ i b, d.owner i = none ∧ d.spec i = some b ∧ b.reservedFor = n) →
        ∃ i b, (d.step env (.clientData sid (.ok pkt) sys)).state.owner i = some sid ∧
          d.spec i = some b ∧ b.reservedFor = n)) ↔
      (n.length ≤ 31 ∨ ∀ i b, d.owner i = none → d.spec i = some b →
        b.reservedFor ≠ n ∧ b.reservedFor ≠ n.take 31)) ∧
    (∀ es' d', Run (Next env) (initial bs fs sd) (es ++ .clientData sid (.ok pkt) sys :: es') d' →
      AtMostOneSetup (es ++ .clientData sid (.ok pkt) sys :: es') →
      ∀ i b, d'.owner i = some sid → d'.spec i = some b → b.reservedFor ≠ [] →
        (b.reservedFor = n ↔ n.length ≤ 31)) := by
  have hset : (Event.clientData sid (.ok pkt) sys).setup? = some (sid, pkt) := setup_sendSetup hpkt
  have hor := orderly_run h ho.of_append
  have hm : n.take 31 ≠ [] := by simp [hn]
  have hcreated : s.status = .created := hor.created ho (by simp [Event.IsSetupFor, hset]) hs
  have hc := hor.settled.coherent
  have hown : ∀ j, d.owner j ≠ some sid :=
    hc.not_owned (view_tenant hs)
      ((hc.board_none sid s.tenant (view_tenant hs)).2 (Or.inl hcreated))
  have hgot : ∀ i, (d.step env (.clientData sid (.ok pkt) sys)).state.owner i = some sid ↔
      d.findAvailableBoard (n.take 31) = some i := by
    intro i
    have hr : Proto.readSetup (s.buffer.store (pkt.data.take Proto.bufferSize)) =
        some ⟨Proto.connect, ppid, n.take 31, noWait⟩ := by
      rw [hpkt, Client.readSetup_sendSetup, cStr_of_nulFree h0]
      rfl
    have hfds : pkt.fds.take Session.maxFds ≠ [] := by
      rw [hpkt]
      simp [Client.sendSetup, Session.maxFds]
    have hnm : Proto.Request.name ⟨Proto.connect, ppid, n.take 31, noWait⟩ s.usernameCred =
        n.take 31 := if_neg hm
    rw [← hnm]
    exact owner_after_connect hs hset hfds hr rfl hown
  refine ⟨?_, ?_⟩
  · simp only [hgot]
    exact findAvailableBoard_take_iff hn
  · intro es' d' hrun ho' i b hi hb hr
    have hmem : (sid, pkt) ∈ setupPackets (es ++ .clientData sid (.ok pkt) sys :: es') := by
      rw [setupPackets, List.filterMap_append, List.filterMap_cons, hset]
      exact List.mem_append_right _ List.mem_cons_self
    rw [reserved_for_carried hrun ho' hpkt hmem hn h0 hi hb hr]
    exact List.take_eq_self_iff n

/-- A short name, and a board that is reserved for it. -/
theorem once_run_reservation_short_name : ∃ d,
    (Run (Next Sample.env) (initial [Sample.board [] [], Sample.board [] (ascii "amy")] [] false)
      [Sample.accept] d ∧
      (d.owner 1, (d.spec 1).map BoardSpec.reservedFor, (d.session 0).isSome) =
        (none, some (ascii "amy"), true)) ∧
    ∃ i b, (d.step Sample.env (Sample.setup 0 0 7 (ascii "amy") false 100)).state.owner i = some 0 ∧
      d.spec i = some b ∧ b.reservedFor = ascii "amy" := by
  refine Exists.imp (fun d hr => ⟨hr, ?_⟩) (exists_run (fun d : Daemon =>
    (d.owner 1, (d.spec 1).map BoardSpec.reservedFor, (d.session 0).isSome)) (by decide +kernel))
  obtain ⟨hrun, hd⟩ := hr
  simp only [Prod.mk.injEq] at hd
  obtain ⟨s, hs⟩ := Option.isSome_iff_exists.1 hd.2.2
  obtain ⟨b, hb, hbr⟩ := Option.map_eq_some_iff.1 hd.2.1
  exact ((once_run_reservation_iff hrun (by decide +kernel) hs rfl (by decide) (by decide)).1.2
    (Or.inl (by decide))).2 ⟨1, b, hd.1, hb, hbr⟩

/-- A name of 32 bytes brings a board that is reserved for its first 31 bytes. -/
theorem long_name_takes_other_reservation : ∃ d,
    Run (Next Sample.env)
      (initial [Sample.board [] (List.replicate 31 97)] [] false)
      [Sample.accept, Sample.setup 0 0 7 (List.replicate 32 97) false 100] d ∧
    (d.owner 0, (d.spec 0).map BoardSpec.reservedFor) = (some 0, some (List.replicate 31 97)) :=
  exists_run (fun d : Daemon => (d.owner 0, (d.spec 0).map BoardSpec.reservedFor))
    (by decide +kernel)

end Runs
end Daemon
end BoardProxy
