import BoardProxy.ClientProcess
import BoardProxy.IdleExit
import BoardProxy.SessionHistory

/-!
# One setup message for every client

Whatever the order in which clients start, connect, send and die and in which the
daemon runs its callbacks: the daemon sees a run in which every client sends at most
one setup message, a complete one with three descriptors, and every session has one
client.
-/

namespace BoardProxy
namespace Daemon

variable {env : Env} {d d' : Daemon} {e : Event}

theorem counter_of_callback (h : Callback env d e d') (he : e.isAccept = false) :
    d'.counter = d.counter := by
  cases h with
  | accept => cases he
  | hangUp _ hs _ _ hcl => exact (KeepsProxies.closes (session_hangUp_self _ hs) hcl).counter
  | noFds _ _ _ ht hcl h₂ =>
    obtain ⟨u, hu, hcl'⟩ := closes_of_closeSession h₂
    exact (KeepsProxies.closes hu hcl').counter.trans (KeepsProxies.closes ht hcl).counter
  | connect _ hs _ _ hcon =>
    exact (KeepsProxies.connects (session_introduce_self _ _ hs) hcon).counter
  | @listSessions sid pkt sys r as s d' _ hs _ _ hcl =>
    have hsi : ((d.introduce sid pkt r).act as).session sid = _ := session_introduce_self pkt r hs
    exact (KeepsProxies.closes hsi hcl).counter
  | reap _ _ _ _ _ ht hcl => exact (KeepsProxies.closes (session_stop_moveProcess ht) hcl).counter
  | _ => rfl

end Daemon

namespace Installation

variable {env : Env} {w w' : Installation} {m : Move} {c : ℕ} {p : Peer}

inductive Step (env : Env) (w : Installation) : Move → Installation → Prop
  | launch {c : ℕ} {args : ClientArgs} : w.peers c = none →
      Step env w (.launch c args) (w.setPeer c ⟨args, .starting, [], none, []⟩)
  | connected {c : ℕ} {p : Peer} : w.peers c = some p → p.process = .starting →
      w.listening = true → Step env w (.connects c (.ok ()))
        { w.setPeer c { p with process := .connected } with backlog := w.backlog ++ [c] }
  | refused {c : ℕ} {p : Peer} {e : Errno} : w.peers c = some p → p.process = .starting →
      Step env w (.connects c (.error e)) (w.setPeer c { p with process := .exited 1 })
  | sent {c : ℕ} {p : Peer} {v : Delivery} : w.peers c = some p → p.process = .connected →
      Step env w (.sends c (.ok v)) (w.setPeer c { p with
        process := .watching, inbox := p.inbox ++ [p.args.setup v] })
  | unsent {c : ℕ} {p : Peer} {e : Errno} : w.peers c = some p → p.process = .connected →
      Step env w (.sends c (.error e)) (w.setPeer c { p with process := .unsent e })
  | read {c : ℕ} {p : Peer} {r : Except Errno ℕ} : w.peers c = some p → p.process = .watching →
      w.hasClosed p = true → ClientProcess.noData r = true →
      Step env w (.reads c r) (w.setPeer c { p with
        process := .onDataFromDaemon r, stderr := p.stderr ++ p.args.farewell r })
  | died {c : ℕ} {p : Peer} : w.peers c = some p → p.process.isOver = false →
      Step env w (.dies c) (w.setPeer c { p with process := .killed })
  | stopped : w.up = true → Step env w .stops { w with up := false }
  | accepted {c : ℕ} {rest : List ℕ} {p : Peer} {cred : Bytes} {ppid : Pid} {buffer : Memory}
      {now : ℤ} {d' : Daemon} : w.up = true → w.backlog = c :: rest → w.peers c = some p →
      w.daemon.Next env (.clientConnecting cred ppid buffer now) d' →
      Step env w (.accepts cred ppid buffer now)
        ⟨d', w.log ++ [.clientConnecting cred ppid buffer now],
          Function.update w.peers c (some { p with session := some w.daemon.counter }), rest,
          w.up⟩
  | received {c sid : ℕ} {p : Peer} {failure : Option Errno} {stale : ℕ → ℤ} {sys : Sys}
      {r : Except Errno Packet} {d' : Daemon} : w.up = true → w.peers c = some p →
      p.session = some sid → recv p stale failure = some r →
      w.daemon.Next env (.clientData sid r sys) d' →
      Step env w (.receives c failure stale sys)
        ⟨d', w.log ++ [.clientData sid r sys], Function.update w.peers c
          (some { p with inbox := if failure = none then p.inbox.tail else p.inbox }), w.backlog,
          w.up⟩
  | other {e : Event} {d' : Daemon} : w.up = true → e.isClient = false → w.daemon.Next env e d' →
      Step env w (.other e) { w with daemon := d', log := w.log ++ [e] }

theorem dispatch_eq_some {e : Event} : w.dispatch env e = some w' ↔
    w.up = true ∧
      ∃ d', w.daemon.Next env e d' ∧ w' = { w with daemon := d', log := w.log ++ [e] } := by
  unfold dispatch
  split_ifs with hup
  · rw [Option.map_eq_some_iff]
    constructor
    · rintro ⟨d', hd, rfl⟩
      exact ⟨hup, d', hd, rfl⟩
    · rintro ⟨_, d', hd, rfl⟩
      exact ⟨d', hd, rfl⟩
  · exact iff_of_false (fun h => by cases h) fun h => hup h.1

theorem step_of_next (h : w.Next env m w') : Step env w m w' := by
  cases m with
  | launch c args =>
    simp only [Next, next] at h
    cases hp : w.peers c with
    | some p => simp [hp] at h
    | none =>
      rw [hp, Option.some.injEq] at h
      exact h ▸ .launch hp
  | connects c r =>
    obtain ⟨p, hp, h⟩ := Option.bind_eq_some_iff.1 h
    split_ifs at h with hs
    cases r with
    | ok =>
      dsimp only at h
      split_ifs at h with hl
      exact Option.some.inj h ▸ .connected hp hs hl
    | error e => exact Option.some.inj h ▸ .refused hp hs
  | sends c r =>
    obtain ⟨p, hp, h⟩ := Option.bind_eq_some_iff.1 h
    split_ifs at h with hs
    cases r with
    | ok v => exact Option.some.inj h ▸ .sent hp hs
    | error e => exact Option.some.inj h ▸ .unsent hp hs
  | reads c r =>
    obtain ⟨p, hp, h⟩ := Option.bind_eq_some_iff.1 h
    split_ifs at h with hs
    exact Option.some.inj h ▸ .read hp hs.1 hs.2.1 hs.2.2
  | dies c =>
    obtain ⟨p, hp, h⟩ := Option.bind_eq_some_iff.1 h
    split_ifs at h with hs
    exact Option.some.inj h ▸ .died hp (Bool.eq_false_iff.2 hs)
  | stops =>
    simp only [Next, next] at h
    split_ifs at h with hup
    exact Option.some.inj h ▸ .stopped hup
  | accepts cred ppid buffer now =>
    simp only [Next, next] at h
    cases hb : w.backlog with
    | nil => simp [hb] at h
    | cons c rest =>
      rw [hb] at h
      obtain ⟨p, hp, h⟩ := Option.bind_eq_some_iff.1 h
      obtain ⟨w₁, hw, rfl⟩ := Option.map_eq_some_iff.1 h
      obtain ⟨hup, d', hd, rfl⟩ := dispatch_eq_some.1 hw
      exact .accepted hup hb hp hd
  | receives c failure stale sys =>
    obtain ⟨p, hp, h⟩ := Option.bind_eq_some_iff.1 h
    obtain ⟨sid, hsid, h⟩ := Option.bind_eq_some_iff.1 h
    obtain ⟨r, hr, h⟩ := Option.bind_eq_some_iff.1 h
    obtain ⟨w₁, hw, rfl⟩ := Option.map_eq_some_iff.1 h
    obtain ⟨hup, d', hd, rfl⟩ := dispatch_eq_some.1 hw
    exact .received hup hp hsid hr hd
  | other e =>
    simp only [Next, next] at h
    split_ifs at h with he
    obtain ⟨hup, d', hd, rfl⟩ := dispatch_eq_some.1 h
    exact .other hup (Bool.eq_false_iff.2 he) hd

end Installation

/-- The inbox holds the setup message of the client or nothing, and nothing behind its
delivery. `S` holds of the sessions whose setup message was received. -/
structure Peer.Proper (S : ℕ → Prop) (p : Peer) : Prop where
  starting : p.process = .starting → p.session = none
  unsent : p.process = .starting ∨ p.process = .connected →
    p.inbox = [] ∧ ∀ sid, p.session = some sid → ¬S sid
  inbox : p.inbox = [] ∨ (∃ v, p.inbox = [p.args.setup v]) ∧ ∀ sid, p.session = some sid → ¬S sid

namespace Peer.Proper

variable {S T : ℕ → Prop} {p : Peer}

theorem mono (h : p.Proper S) (hS : ∀ sid, p.session = some sid → T sid → S sid) : p.Proper T := by
  refine ⟨h.starting, fun hp => ?_, ?_⟩
  · exact ⟨(h.unsent hp).1, fun sid hs ht => (h.unsent hp).2 sid hs (hS sid hs ht)⟩
  · rcases h.inbox with hi | ⟨hi, hs⟩
    · exact Or.inl hi
    · exact Or.inr ⟨hi, fun sid hsid ht => hs sid hsid (hS sid hsid ht)⟩

theorem moves (h : p.Proper S) {q : ClientProcess} {err : Bytes} (hq : q ≠ .starting)
    (hc : q = .connected → p.process = .starting) :
    ({ p with process := q, stderr := err } : Peer).Proper S := by
  refine ⟨fun hs => absurd hs hq, fun hp => ?_, h.inbox⟩
  rcases hp with hp | hp
  · exact absurd hp hq
  · exact h.unsent (Or.inl (hc hp))

theorem sends (h : p.Proper S) (hp : p.process = .connected) (v : Delivery) :
    ({ p with process := .watching, inbox := p.inbox ++ [p.args.setup v] } : Peer).Proper S := by
  obtain ⟨hi, hs⟩ := h.unsent (Or.inr hp)
  refine ⟨fun hq => (by cases hq), fun hq => ?_, Or.inr ⟨⟨v, ?_⟩, hs⟩⟩
  · rcases hq with hq | hq <;> cases hq
  · simp only [hi, List.nil_append]

theorem received (h : p.Proper S) (hp : p.inbox ≠ []) : ({ p with inbox := [] } : Peer).Proper T :=
  ⟨h.starting, fun hq => absurd (h.unsent hq).1 hp, Or.inl rfl⟩

theorem accepted (h : p.Proper S) (hp : p.process ≠ .starting) {sid : ℕ} (hs : ¬S sid) :
    ({ p with session := some sid } : Peer).Proper S := by
  have hsid : ∀ k, some sid = some k → ¬S k := fun k hk => Option.some.inj hk ▸ hs
  refine ⟨fun hq => absurd hq hp, fun hq => ⟨(h.unsent hq).1, hsid⟩, ?_⟩
  rcases h.inbox with hi | ⟨hi, _⟩
  · exact Or.inl hi
  · exact Or.inr ⟨hi, hsid⟩

end Peer.Proper

/-- Clients and sessions belong together, and what the daemon has received comes from
the client of the session. -/
structure Installation.Paired (w : Installation) : Prop where
  nodup : w.backlog.Nodup
  backlog : ∀ c ∈ w.backlog, ∃ p, w.peers c = some p ∧ p.session = none ∧ p.process ≠ .starting
  session_lt : ∀ c p sid, w.peers c = some p → p.session = some sid → sid < w.daemon.counter
  session_inj : ∀ c c' p p' sid, w.peers c = some p → w.peers c' = some p' →
    p.session = some sid → p'.session = some sid → c = c'
  client : ∀ sid < w.daemon.counter, ∃ c p, w.peers c = some p ∧ p.session = some sid
  proper : ∀ c p, w.peers c = some p → p.Proper (· ∈ setUps w.log)
  setup : ∀ x ∈ setupPackets w.log, ∃ c p v, w.peers c = some p ∧ p.session = some x.1 ∧
    x.2 = p.args.setup v
  once : AtMostOneSetup w.log

theorem ClientArgs.setup_received (args : ClientArgs) (v : Delivery) (sid : ℕ) (sys : Sys) :
    (Event.clientData sid (.ok (args.setup v)) sys).setup? = some (sid, args.setup v) := by
  have htake : (args.setup v).data.take Proto.bufferSize = _ := Client.take_sendSetup ..
  have hlen := (Proto.Setup.new args.command.value args.ppid args.username args.noWait).bytes_length
    v.pad
  simp only [Event.setup?, htake]
  refine if_pos ⟨?_, ?_⟩
  · rw [hlen]
    decide
  · rw [← Memory.word_store (fun _ => 0) (by rw [hlen]; decide), Proto.bytes_msgType]

namespace Installation

variable {env : Env} {w w' : Installation} {m : Move} {c k : ℕ} {p q : Peer} {e : Event}
  {d' : Daemon}

theorem peer_update (h : Function.update w.peers c (some p) k = some q) :
    (k = c ∧ q = p) ∨ k ≠ c ∧ w.peers k = some q := by
  rw [Function.update_apply] at h
  by_cases hk : k = c
  · rw [if_pos hk, Option.some.injEq] at h
    exact Or.inl ⟨hk, h.symm⟩
  · rw [if_neg hk] at h
    exact Or.inr ⟨hk, h⟩

theorem exists_peer_update {P : Peer → Prop} (hp : w.peers c = some p) (hq : P p → P q)
    (h : ∃ k r, w.peers k = some r ∧ P r) :
    ∃ k r, Function.update w.peers c (some q) k = some r ∧ P r := by
  obtain ⟨k, r, hk, hr⟩ := h
  by_cases hkc : k = c
  · subst hkc
    rw [hp, Option.some.injEq] at hk
    exact ⟨k, q, Function.update_self .., hq (hk ▸ hr)⟩
  · exact ⟨k, r, (Function.update_of_ne hkc ..).trans hk, hr⟩

namespace Paired

theorem update (h : w.Paired) (hp : w.peers c = some p) (hs : q.session = p.session)
    (ha : q.args = p.args) (hq : q.process ≠ .starting) (hq' : q.Proper (· ∈ setUps w.log)) :
    (w.setPeer c q).Paired := by
  -- every peer stands for one of before, with the same session
  have hold : ∀ {k r}, Function.update w.peers c (some q) k = some r →
      ∃ r', w.peers k = some r' ∧ r.session = r'.session := by
    intro k r hr
    rcases peer_update hr with ⟨rfl, rfl⟩ | ⟨_, hr⟩
    · exact ⟨p, hp, hs⟩
    · exact ⟨r, hr, rfl⟩
  refine ⟨h.nodup, ?_, ?_, ?_, ?_, ?_, ?_, h.once⟩
  · intro k hk
    obtain ⟨r, hr, hrs, hrp⟩ := h.backlog k hk
    by_cases hkc : k = c
    · subst hkc
      rw [hp, Option.some.injEq] at hr
      exact ⟨q, Function.update_self .., hs.trans (hr ▸ hrs), hq⟩
    · exact ⟨r, (Function.update_of_ne hkc ..).trans hr, hrs, hrp⟩
  · intro k r sid hr hsid
    obtain ⟨r', hr', he⟩ := hold hr
    exact h.session_lt k r' sid hr' (he ▸ hsid)
  · intro k k' r r' sid hr hr' hsid hsid'
    obtain ⟨r₁, hr₁, he⟩ := hold hr
    obtain ⟨r₂, hr₂, he'⟩ := hold hr'
    exact h.session_inj k k' r₁ r₂ sid hr₁ hr₂ (he ▸ hsid) (he' ▸ hsid')
  · intro sid hsid
    exact exists_peer_update hp (fun hps => hs.trans hps) (h.client sid hsid)
  · intro k r hr
    rcases peer_update hr with ⟨rfl, rfl⟩ | ⟨_, hr⟩
    · exact hq'
    · exact h.proper k r hr
  · intro x hx
    obtain ⟨k, r, v, hr, hrs, hrv⟩ := h.setup x hx
    obtain ⟨k, r, hk, hrs, v, hrv⟩ := exists_peer_update
      (P := fun r => r.session = some x.1 ∧ ∃ v, x.2 = r.args.setup v) (q := q) hp
      (fun ⟨h₁, v, h₂⟩ => ⟨hs.trans h₁, v, ha ▸ h₂⟩) ⟨k, r, hr, hrs, v, hrv⟩
    exact ⟨k, r, v, hk, hrs, hrv⟩

theorem callback (h : w.Paired) (hn : w.daemon.Next env e d') (ha : e.isAccept = false)
    (he : e.setup? = none) :
    ({ w with daemon := d', log := w.log ++ [e] } : Installation).Paired := by
  have hc : d'.counter = w.daemon.counter :=
    Daemon.counter_of_callback (Daemon.callback_of_next hn) ha
  have hs : setUps (w.log ++ [e]) = setUps w.log := by
    simp [setUps, he]
  have hsp : setupPackets (w.log ++ [e]) = setupPackets w.log := by
    simp [setupPackets, he]
  refine ⟨h.nodup, h.backlog, ?_, h.session_inj, ?_, ?_, ?_, ?_⟩
  · exact fun k r sid hr hsid => hc ▸ h.session_lt k r sid hr hsid
  · exact fun sid hsid => h.client sid (hc ▸ hsid)
  · intro k r hr
    rw [hs]
    exact h.proper k r hr
  · intro x hx
    rw [hsp] at hx
    exact h.setup x hx
  · rw [AtMostOneSetup, hs]
    exact h.once

theorem launch (h : w.Paired) (hc : w.peers c = none) (args : ClientArgs) :
    (w.setPeer c ⟨args, .starting, [], none, []⟩).Paired := by
  have hkeep : ∀ {k r}, w.peers k = some r →
      Function.update w.peers c (some ⟨args, .starting, [], none, []⟩) k = some r := by
    intro k r hr
    have hkc : k ≠ c := fun hkc => by simp [hkc, hc] at hr
    exact (Function.update_of_ne hkc ..).trans hr
  have hold : ∀ {k r sid}, Function.update w.peers c (some ⟨args, .starting, [], none, []⟩) k =
      some r → r.session = some sid → w.peers k = some r := by
    intro k r sid hr hsid
    rcases peer_update hr with ⟨_, rfl⟩ | ⟨_, hr⟩
    · cases hsid
    · exact hr
  refine ⟨h.nodup, ?_, ?_, ?_, ?_, ?_, ?_, h.once⟩
  · intro k hk
    obtain ⟨r, hr, hrs⟩ := h.backlog k hk
    exact ⟨r, hkeep hr, hrs⟩
  · exact fun k r sid hr hsid => h.session_lt k r sid (hold hr hsid) hsid
  · exact fun k k' r r' sid hr hr' hsid hsid' =>
      h.session_inj k k' r r' sid (hold hr hsid) (hold hr' hsid') hsid hsid'
  · intro sid hsid
    obtain ⟨k, r, hr, hrs⟩ := h.client sid hsid
    exact ⟨k, r, hkeep hr, hrs⟩
  · intro k r hr
    rcases peer_update hr with ⟨_, rfl⟩ | ⟨_, hr⟩
    · exact ⟨fun _ => rfl, fun _ => ⟨rfl, fun _ hs => (by cases hs)⟩, Or.inl rfl⟩
    · exact h.proper k r hr
  · intro x hx
    obtain ⟨k, r, v, hr, hrs⟩ := h.setup x hx
    exact ⟨k, r, v, hkeep hr, hrs⟩

theorem connected (h : w.Paired) (hp : w.peers c = some p) (hs : p.process = .starting) :
    ({ w.setPeer c { p with process := .connected } with backlog := w.backlog ++ [c] } :
      Installation).Paired := by
  have hpr := h.proper c p hp
  have hu : (w.setPeer c { p with process := .connected }).Paired :=
    h.update hp rfl rfl (fun hq => (by cases hq)) (hpr.moves (by decide) fun _ => hs)
  refine ⟨?_, ?_, hu.session_lt, hu.session_inj, hu.client, hu.proper, hu.setup, hu.once⟩
  · refine List.nodup_append.2 ⟨h.nodup, List.nodup_singleton c, ?_⟩
    rintro a ha b hb rfl
    obtain ⟨r, hr, _, hrp⟩ := h.backlog a ha
    rw [List.mem_singleton.1 hb, hp, Option.some.injEq] at hr
    exact hrp (hr ▸ hs)
  · intro k hk
    rcases List.mem_append.1 hk with hk | hk
    · exact hu.backlog k hk
    · rw [List.mem_singleton.1 hk]
      exact ⟨_, Function.update_self .., hpr.starting hs, fun hq => (by cases hq)⟩

theorem setUps_lt (h : w.Paired) {sid : ℕ} (hs : sid ∈ setUps w.log) : sid < w.daemon.counter := by
  rw [setUps_eq_map] at hs
  obtain ⟨x, hx, rfl⟩ := List.mem_map.1 hs
  obtain ⟨k, r, v, hr, hrs, _⟩ := h.setup x hx
  exact h.session_lt k r x.1 hr hrs

theorem accepted {rest : List ℕ} {cred : Bytes} {ppid : Pid} {buffer : Memory} {now : ℤ}
    (h : w.Paired) (hb : w.backlog = c :: rest)
    (hp : w.peers c = some p) (hn : w.daemon.Next env (.clientConnecting cred ppid buffer now) d') :
    (⟨d', w.log ++ [.clientConnecting cred ppid buffer now],
      Function.update w.peers c (some { p with session := some w.daemon.counter }), rest, w.up⟩ :
      Installation).Paired := by
  have hd : d'.counter = w.daemon.counter + 1 := by
    cases Daemon.callback_of_next hn with
    | accept => rfl
    | proxied he => cases he
  have hlog : setUps (w.log ++ [.clientConnecting cred ppid buffer now]) = setUps w.log := by
    simp [setUps, Event.setup?]
  have hpk : setupPackets (w.log ++ [.clientConnecting cred ppid buffer now]) =
      setupPackets w.log := by
    simp [setupPackets, Event.setup?]
  obtain ⟨r, hr, hrs, hrp⟩ := h.backlog c (hb ▸ List.mem_cons_self)
  rw [hp, Option.some.injEq] at hr
  subst hr
  have hnd := hb ▸ h.nodup
  have hnew : ∀ {k r sid}, Function.update w.peers c
      (some { p with session := some w.daemon.counter }) k = some r → r.session = some sid →
      (k = c ∧ sid = w.daemon.counter) ∨ sid < w.daemon.counter ∧ w.peers k = some r := by
    intro k r sid hr hsid
    rcases peer_update hr with ⟨hk, rfl⟩ | ⟨_, hr⟩
    · exact Or.inl ⟨hk, (Option.some.inj hsid).symm⟩
    · exact Or.inr ⟨h.session_lt k r sid hr hsid, hr⟩
  have hkeep : ∀ {k r sid}, w.peers k = some r → r.session = some sid → Function.update w.peers c
      (some { p with session := some w.daemon.counter }) k = some r := by
    intro k r sid hr hsid
    have hkc : k ≠ c := by
      rintro rfl
      rw [hp, Option.some.injEq] at hr
      rw [← hr, hrs] at hsid
      cases hsid
    exact (Function.update_of_ne hkc ..).trans hr
  refine ⟨hnd.of_cons, ?_, ?_, ?_, ?_, ?_, ?_, ?_⟩
  · intro k hk
    have hkc : k ≠ c := fun he => (List.nodup_cons.1 hnd).1 (he ▸ hk)
    obtain ⟨r, hr, hrest⟩ := h.backlog k (hb ▸ List.mem_cons_of_mem c hk)
    exact ⟨r, (Function.update_of_ne hkc ..).trans hr, hrest⟩
  · intro k r sid hr hsid
    rw [hd]
    rcases hnew hr hsid with ⟨_, rfl⟩ | ⟨hlt, _⟩
    · exact Nat.lt_succ_self _
    · exact Nat.lt_succ_of_lt hlt
  · intro k k' r r' sid hr hr' hsid hsid'
    rcases hnew hr hsid with ⟨hk, he⟩ | ⟨hlt, hr₁⟩ <;>
      rcases hnew hr' hsid' with ⟨hk', he'⟩ | ⟨hlt', hr₂⟩
    · exact hk.trans hk'.symm
    · exact absurd he (Nat.ne_of_lt hlt')
    · exact absurd he' (Nat.ne_of_lt hlt)
    · exact h.session_inj k k' r r' sid hr₁ hr₂ hsid hsid'
  · intro sid hsid
    rw [hd] at hsid
    rcases Nat.lt_succ_iff_lt_or_eq.1 hsid with hlt | rfl
    · obtain ⟨k, r, hr, hrs⟩ := h.client sid hlt
      exact ⟨k, r, hkeep hr hrs, hrs⟩
    · exact ⟨c, _, Function.update_self .., rfl⟩
  · intro k r hr
    rw [hlog]
    rcases peer_update hr with ⟨_, rfl⟩ | ⟨_, hr⟩
    · exact (h.proper c p hp).accepted hrp fun hmem => Nat.lt_irrefl _ (h.setUps_lt hmem)
    · exact h.proper k r hr
  · intro x hx
    rw [hpk] at hx
    obtain ⟨k, r, v, hr, hrs, hv⟩ := h.setup x hx
    exact ⟨k, r, v, hkeep hr hrs, hrs, hv⟩
  · rw [AtMostOneSetup, hlog]
    exact h.once

theorem received {sid : ℕ} {v : Delivery} {sys : Sys} (h : w.Paired) (hp : w.peers c = some p)
    (hsid : p.session = some sid) (hi : p.inbox = [p.args.setup v])
    (hn : w.daemon.Next env (.clientData sid (.ok (p.args.setup v)) sys) d') :
    (⟨d', w.log ++ [.clientData sid (.ok (p.args.setup v)) sys],
      Function.update w.peers c (some { p with inbox := [] }), w.backlog, w.up⟩ :
      Installation).Paired := by
  have hset := p.args.setup_received v sid sys
  have hlog : setUps (w.log ++ [.clientData sid (.ok (p.args.setup v)) sys]) =
      setUps w.log ++ [sid] := by
    simp [setUps, hset]
  have hpk : setupPackets (w.log ++ [.clientData sid (.ok (p.args.setup v)) sys]) =
      setupPackets w.log ++ [(sid, p.args.setup v)] := by
    simp [setupPackets, hset]
  have hne : p.inbox ≠ [] := by
    rw [hi]
    exact List.cons_ne_nil _ _
  have hnew : sid ∉ setUps w.log := by
    rcases (h.proper c p hp).inbox with hn | ⟨_, hs⟩
    · exact absurd hn hne
    · exact hs sid hsid
  have hc : d'.counter = w.daemon.counter :=
    Daemon.counter_of_callback (Daemon.callback_of_next hn) rfl
  have hq : p.process ≠ .starting := fun hs => hne ((h.proper c p hp).unsent (Or.inl hs)).1
  have hu : (w.setPeer c { p with inbox := [] }).Paired :=
    h.update hp rfl rfl hq ((h.proper c p hp).received hne)
  refine ⟨h.nodup, hu.backlog, ?_, hu.session_inj, ?_, ?_, ?_, ?_⟩
  · exact fun k r j hr hj => hc ▸ hu.session_lt k r j hr hj
  · exact fun j hj => hu.client j (hc ▸ hj)
  · intro k r hr
    rcases peer_update hr with ⟨_, rfl⟩ | ⟨hkc, hold⟩
    · exact (h.proper c p hp).received hne
    · refine (h.proper k r hold).mono fun j hj hmem => ?_
      rw [hlog, List.mem_append, List.mem_singleton] at hmem
      refine hmem.resolve_right ?_
      rintro rfl
      exact hkc (h.session_inj k c r p j hold hp hj hsid)
  · intro x hx
    rw [hpk, List.mem_append, List.mem_singleton] at hx
    rcases hx with hx | rfl
    · exact hu.setup x hx
    · exact ⟨c, _, v, Function.update_self .., hsid, rfl⟩
  · rw [AtMostOneSetup, hlog]
    exact List.nodup_append.2 ⟨h.once, List.nodup_singleton sid, fun a ha b hb he =>
      hnew (List.mem_singleton.1 hb ▸ he ▸ ha)⟩

theorem unreceived {sid : ℕ} {r : Except Errno Packet} {sys : Sys} (h : w.Paired)
    (hn : w.daemon.Next env (.clientData sid r sys) d')
    (hr : (Event.clientData sid r sys).setup? = none) (hp : w.peers c = some p) :
    (⟨d', w.log ++ [.clientData sid r sys], Function.update w.peers c (some p), w.backlog, w.up⟩ :
      Installation).Paired := by
  rw [← hp, Function.update_eq_self]
  exact h.callback hn rfl hr

theorem step (h : w.Paired) (hs : Step env w m w') : w'.Paired := by
  cases hs with
  | launch hc => exact h.launch hc _
  | connected hp hs _ => exact h.connected hp hs
  | refused hp hs =>
    exact h.update hp rfl rfl (fun hq => (by cases hq))
      ((h.proper _ _ hp).moves (by decide) fun hq => (by cases hq))
  | @sent c p v hp hs =>
    exact h.update hp rfl rfl (fun hq => (by cases hq)) ((h.proper c p hp).sends hs v)
  | @unsent c p e hp hs =>
    have he : ClientProcess.unsent e ≠ .starting ∧ ClientProcess.unsent e ≠ .connected := by
      unfold ClientProcess.unsent
      split_ifs <;> exact ⟨by decide, by decide⟩
    exact h.update hp rfl rfl he.1 ((h.proper c p hp).moves he.1 fun hq => absurd hq he.2)
  | @read c p r hp _ _ _ =>
    have hr : ClientProcess.onDataFromDaemon r ≠ .starting ∧
        ClientProcess.onDataFromDaemon r ≠ .connected := by
      unfold ClientProcess.onDataFromDaemon
      split <;> exact ⟨by decide, by decide⟩
    exact h.update hp rfl rfl hr.1 ((h.proper c p hp).moves hr.1 fun hq => absurd hq hr.2)
  | died hp =>
    exact h.update hp rfl rfl (fun hq => (by cases hq))
      ((h.proper _ _ hp).moves (by decide) fun hq => (by cases hq))
  | stopped =>
    exact ⟨h.nodup, h.backlog, h.session_lt, h.session_inj, h.client, h.proper, h.setup, h.once⟩
  | accepted _ hb hp hn => exact h.accepted hb hp hn
  | @received c sid p failure stale sys r d' _ hp hsid hr hn =>
    cases failure with
    | some e =>
      obtain rfl := Option.some.inj hr
      exact h.unreceived hn rfl hp
    | none =>
      rcases (h.proper c p hp).inbox with hi | ⟨⟨v, hi⟩, _⟩
      · simp only [recv, hi] at hr
        split_ifs at hr
        obtain rfl := Option.some.inj hr
        have hnone : (Event.clientData sid (.ok ⟨[], [], stale⟩) sys).setup? = none := rfl
        have he : ({ p with inbox := p.inbox.tail } : Peer) = p := by
          rw [hi]
          exact congrArg (fun l => { p with inbox := l }) hi.symm
        have hpair := h.unreceived hn hnone hp
        rwa [← he] at hpair
      · simp only [recv, hi, Option.some.injEq] at hr
        subst hr
        have hpair := h.received hp hsid hi hn
        rw [hi]
        exact hpair
  | @other e d' _ he hn =>
    have hs : e.isAccept = false ∧ e.setup? = none := by
      cases e with
      | clientConnecting => cases he
      | clientData => cases he
      | _ => exact ⟨rfl, rfl⟩
    exact h.callback hn hs.1 hs.2

end Paired

variable {bs : List BoardSpec} {fs : List ProxyFactory} {sd : Bool} {ms : List Move}

theorem paired_initial : (initial bs fs sd).Paired :=
  ⟨List.nodup_nil, fun _ h => (by cases h), fun _ _ _ h => (by cases h),
    fun _ _ _ _ _ h => (by cases h), fun _ h => (by cases h), fun _ _ h => (by cases h),
    fun _ h => (by cases h), List.nodup_nil⟩

theorem daemon_of_step (hs : Step env w m w') :
    (w'.daemon = w.daemon ∧ w'.log = w.log) ∨
      ∃ e, w.daemon.Next env e w'.daemon ∧ w'.log = w.log ++ [e] := by
  cases hs with
  | accepted _ _ _ hn => exact Or.inr ⟨_, hn, rfl⟩
  | received _ _ _ _ hn => exact Or.inr ⟨_, hn, rfl⟩
  | other _ _ hn => exact Or.inr ⟨_, hn, rfl⟩
  | _ => exact Or.inl ⟨rfl, rfl⟩

theorem paired_run (h : Run (Next env) (initial bs fs sd) ms w) : w.Paired :=
  h.invariant Paired paired_initial fun _ _ _ hp hn => hp.step (step_of_next hn)

theorem daemon_run (h : Run (Next env) (initial bs fs sd) ms w) :
    Run (Daemon.Next env) (Daemon.initial bs fs sd) w.log w.daemon := by
  refine h.invariant (fun w => Run (Daemon.Next env) (Daemon.initial bs fs sd) w.log w.daemon)
    .nil ?_
  intro w m w' hr hn
  rcases daemon_of_step (step_of_next hn) with ⟨hd, hl⟩ | ⟨e, he, hl⟩
  · rw [hd, hl]
    exact hr
  · rw [hl]
    exact .snoc hr he

theorem orderly_run (h : Run (Next env) (initial bs fs sd) ms w) :
    Daemon.Orderly w.log w.daemon :=
  Daemon.orderly_run (daemon_run h) (paired_run h).once

end Installation
end BoardProxy
