import BoardProxy.ClientStages
import BoardProxy.Descriptors

/-!
# The sessions of clients

The daemon knows a session under the name and the parent process of the one client
that belongs to it, and it keeps the session only if the client has asked for a board.
-/

namespace BoardProxy

def ClientArgs.request (args : ClientArgs) : Proto.Request where
  cmd := args.command.value.toNat
  ppid := args.ppid
  username := (cStr args.username).take 31
  noWait := args.noWait

theorem ClientCommand.toNat_value (c : ClientCommand) :
    c.value.toNat = Proto.connect ∧ c = .connect ∨
      c.value.toNat = Proto.listSessions ∧ c = .listSessions := by
  cases c with
  | connect => exact Or.inl ⟨rfl, rfl⟩
  | listSessions => exact Or.inr ⟨rfl, rfl⟩

theorem ClientArgs.readSetup_setup (args : ClientArgs) (v : Delivery) (m : Memory) :
    Proto.readSetup (m.store ((args.setup v).data.take Proto.bufferSize)) = some args.request :=
  Client.readSetup_sendSetup ..

namespace Daemon

variable {env : Env} {sys : Sys} {d d' : Daemon} {e : Event} {es : List Event} {sid k i : ℕ}
  {s s' : Session} {args : ClientArgs} {v : Delivery} {bs : List BoardSpec}
  {fs : List ProxyFactory} {sd : Bool}

theorem eq_of_request {pkt : Packet} {r : Proto.Request}
    (h : d.request? (.clientData sid (.ok (args.setup v)) sys) = some (k, pkt, r)) :
    k = sid ∧ pkt = args.setup v ∧ r = args.request := by
  obtain ⟨hset, _, s, _, hr⟩ := of_request h
  rw [args.setup_received v sid sys, Option.some.injEq, Prod.mk.injEq] at hset
  obtain ⟨rfl, rfl⟩ := hset
  rw [args.readSetup_setup, Option.some.injEq] at hr
  exact ⟨rfl, rfl, hr.symm⟩

theorem grant_session_self {b : BoardSpec} {argv : List Bytes} {pid : Pid} {now : ℤ}
    (hs : d.session sid = some s) :
    (d.grant sid i s' b argv pid now).session sid = some (s.granted i pid now) := by
  rw [grant_session, if_pos rfl, hs, Option.map_some]

theorem answer_of_setup (h : Orderly es d)
    (ho : AtMostOneSetup (es ++ [.clientData sid (.ok (args.setup v)) sys]))
    (hn : d.Next env (.clientData sid (.ok (args.setup v)) sys) d') :
    (args.command = .connect ∧ ∃ s, d'.session sid = some s ∧ s.status ≠ .created) ∨
      d'.session sid = none ∧ (args.command = .connect → args.noWait = true) := by
  have hset := args.setup_received v sid sys
  have hfor : (Event.clientData sid (.ok (args.setup v)) sys).IsSetupFor sid := by
    rw [Event.IsSetupFor, hset, Option.map_some]
  have hcmd := args.command.toNat_value
  cases callback_of_next hn with
  | hangUp hr =>
    rw [setup_eq_none_of_recvEnds hr] at hset
    cases hset
  | ignore hnone =>
    rw [hnone] at hset
    cases hset
  | noFds _ hs _ ht hcl h₂ =>
    obtain ⟨c, hst, _⟩ := noFds_kills (settled_receive h.settled hs) ht hcl h₂
    rw [session_receive_self _ hs, Option.some.injEq] at ht
    have hcr := h.created ho hfor hs
    rw [← ht] at hst
    exact absurd (hst.symm.trans hcr) (by decide)
  | @connect _ _ _ r s d' hreq hs _ hc hcon =>
    obtain ⟨_, _, rfl⟩ := eq_of_request hreq
    have hconn : args.command = .connect := by
      rcases hcmd with ⟨_, hcc⟩ | ⟨hl, _⟩
      · exact hcc
      · exact absurd (hl.symm.trans hc) (by decide)
    have hsi := session_introduce_self (args.setup v) args.request hs
    cases hcon with
    | grant => exact Or.inl ⟨hconn, _, grant_session_self hsi, fun hst => (by cases hst)⟩
    | wait => exact Or.inl ⟨hconn, _, enqueue_session_self hsi, by simp⟩
    | turnAway _ hnw hl => exact Or.inr ⟨leaves_session_self hl, fun _ => hnw⟩
  | @listSessions _ _ _ r as s d' hreq hs _ hl hcl =>
    obtain ⟨_, _, rfl⟩ := eq_of_request hreq
    have hcr := h.created ho hfor hs
    have hne : args.command ≠ .connect := by
      rcases hcmd with ⟨hc, _⟩ | ⟨_, hcc⟩
      · exact absurd (hc.symm.trans hl) (by decide)
      · rw [hcc]
        decide
    cases hcl with
    | kill hst => exact absurd (hst.symm.trans hcr) (by decide)
    | startClosing hst => exact absurd (hst.symm.trans hcr) (by decide)
    | leave _ hlv => exact Or.inr ⟨leaves_session_self hlv, fun hc => absurd hc hne⟩
  | otherCommand hreq _ hc hl =>
    obtain ⟨_, _, rfl⟩ := eq_of_request hreq
    rcases hcmd with ⟨hcc, _⟩ | ⟨hll, _⟩
    · exact absurd hcc hc
    · exact absurd hll hl
  | proxied he => cases he

theorem created_iff_of_callback (hs : Settled d) (hc : Callback env d e d')
    (hk : d'.session k = some s') (he : ¬e.IsSetupFor k) :
    (d.session k = none ∧ s'.status = .created) ∨
      ∃ s, d.session k = some s ∧ (s'.status = .created ↔ s.status = .created) := by
  rcases session_of_callback hs hc hk with ⟨hn, hcr, _⟩ | ⟨s, hss, hch⟩
  · exact Or.inl ⟨hn, hcr⟩
  · refine Or.inr ⟨s, hss, ?_⟩
    cases hch with
    | kept _ hst => rw [hst]
    | setUp hreq =>
      rw [id_of_session d k hss] at hreq
      exact absurd (isSetupFor_of_request hreq) he
    | served _ h₁ h₂ =>
      rw [h₁, h₂]
      decide
    | closing _ h₁ h₂ =>
      rw [h₁, h₂]
      decide
    | attached _ _ hs' => rw [hs', Session.withProxies]
    | proxied _ _ hs' => rw [hs', Session.withProxies]

theorem setUps_lt_run (h : Run (Next env) (initial bs fs sd) es d) (hk : k ∈ setUps es) :
    k < d.counter := by
  refine h.history (fun es d => k ∈ setUps es → k < d.counter) (fun hk => (by cases hk)) ?_ hk
  intro es d e d' hr ih hn hk
  rw [setUps_append, List.mem_append] at hk
  refine Nat.lt_of_lt_of_le ?_ (counter_le_of_next hn)
  rcases hk with hk | hk
  · exact ih hk
  · obtain ⟨⟨j, pkt⟩, hpkt, hj⟩ := Option.map_eq_some_iff.1 (mem_setUps_singleton.1 hk)
    obtain rfl : j = k := hj
    obtain ⟨sys, rfl⟩ := Event.eq_of_setup hpkt
    have hen := (next_iff.1 hn).1
    simp only [enabled, Bool.and_eq_true, Option.any_eq_true] at hen
    obtain ⟨⟨s, hs, _⟩, _⟩ := hen
    exact (sound_run hr).fresh j s hs

def Genuine (es : List Event) : Prop :=
  ∀ x ∈ setupPackets es, ∃ (args : ClientArgs) (v : Delivery), x.2 = args.setup v

theorem Genuine.of_append {fs : List Event} (h : Genuine (es ++ fs)) : Genuine es := by
  intro x hx
  refine h x ?_
  rw [setupPackets, List.filterMap_append]
  exact List.mem_append_left _ hx

def Asked (es : List Event) (k : ℕ) (s : Session) : Prop :=
  (s.status = .created → k ∉ setUps es) ∧
    (s.status ≠ .created → ∃ (args : ClientArgs) (v : Delivery),
      (k, args.setup v) ∈ setupPackets es ∧ args.command = .connect)

theorem asked_of_setup (ho : Orderly es d) (hone : AtMostOneSetup (es ++ [e]))
    (hg : Genuine (es ++ [e])) (hn : d.Next env e d') (he : e.IsSetupFor k)
    (hk : d'.session k = some s') : Asked (es ++ [e]) k s' := by
  obtain ⟨⟨j, pkt⟩, hpkt, hj⟩ := Option.map_eq_some_iff.1 he
  obtain rfl : j = k := hj
  have hin : (j, pkt) ∈ setupPackets (es ++ [e]) := by
    rw [setupPackets, List.filterMap_append]
    exact List.mem_append_right _ (by simp [hpkt])
  obtain ⟨args, v, hav⟩ := hg _ hin
  obtain ⟨sys, rfl⟩ := Event.eq_of_setup hpkt
  obtain rfl : pkt = args.setup v := hav
  rcases answer_of_setup ho hone hn with ⟨hcon, s, hs, hst⟩ | ⟨hnone, _⟩
  · rw [hs, Option.some.injEq] at hk
    subst hk
    exact ⟨fun hc => absurd hc hst, fun _ => ⟨args, v, hin, hcon⟩⟩
  · rw [hnone] at hk
    cases hk

theorem Asked.snoc {s : Session} (h : Asked es k s) (he : ¬e.IsSetupFor k)
    (hst : s'.status = .created ↔ s.status = .created) : Asked (es ++ [e]) k s' := by
  refine ⟨fun hc hin => ?_, fun hc => ?_⟩
  · rw [setUps_append, List.mem_append] at hin
    exact hin.elim (h.1 (hst.1 hc)) fun hin => he (mem_setUps_singleton.1 hin)
  · obtain ⟨args, v, hmem, hcmd⟩ := h.2 (mt hst.2 hc)
    rw [setupPackets, List.filterMap_append]
    exact ⟨args, v, List.mem_append_left _ hmem, hcmd⟩

theorem asked_run (h : Run (Next env) (initial bs fs sd) es d) (ho : AtMostOneSetup es)
    (hg : Genuine es) (hs : d.session k = some s) : Asked es k s := by
  refine h.history (fun es d => AtMostOneSetup es → Genuine es → ∀ s, d.session k = some s →
    Asked es k s) (fun _ _ s hs => (by cases hs)) ?_ ho hg s hs
  intro es d e d' hr ih hn ho hg s' hk
  have hord := orderly_run hr ho.of_append
  by_cases he : e.IsSetupFor k
  · exact asked_of_setup hord ho hg hn he hk
  · rcases created_iff_of_callback hord.settled (callback_of_next hn) hk he with
      ⟨hnone, hcr⟩ | ⟨s, hs, hiff⟩
    · refine ⟨fun _ hin => ?_, fun hc => absurd hcr hc⟩
      rw [setUps_append, List.mem_append] at hin
      have hin := hin.resolve_right fun hin => he (mem_setUps_singleton.1 hin)
      exact absurd ((gone_of_next hn (setUps_lt_run hr hin) hnone).symm.trans hk) (by simp)
    · exact (ih ho.of_append hg.of_append s hs).snoc he hiff

end Daemon

namespace Installation

variable {env : Env} {w w' : Installation} {m : Move} {ms : List Move} {c sid : ℕ} {p : Peer}
  {s : Session} {bs : List BoardSpec} {fs : List ProxyFactory} {sd : Bool}

theorem Paired.genuine (h : w.Paired) : Daemon.Genuine w.log := by
  intro x hx
  obtain ⟨_, p, v, _, _, hv⟩ := h.setup x hx
  exact ⟨p.args, v, hv⟩

/-- Every session belongs to one client. It is new until the one setup message of this
client arrives, and from then on it is a request for a board, in the name and for the
parent process that the client has given. -/
theorem session_of_client (h : Run (Next env) (initial bs fs sd) ms w)
    (hs : w.daemon.session sid = some s) :
    ∃ c p, w.peers c = some p ∧ p.session = some sid ∧
      (∀ c', w.session c' = some sid → c' = c) ∧
      (s.status = .created → (setUps w.log).count sid = 0) ∧
      (s.status ≠ .created → (setUps w.log).count sid = 1 ∧ p.args.command = .connect ∧
        s.ppid = p.args.ppid ∧ s.username = (cStr p.args.username).take 31) := by
  have hpair := paired_run h
  have hrun := daemon_run h
  obtain ⟨c, p, hp, hps⟩ := hpair.client sid ((Daemon.sound_run hrun).fresh sid s hs)
  have hasked := Daemon.asked_run hrun hpair.once hpair.genuine hs
  refine ⟨c, p, hp, hps, ?_, ?_, ?_⟩
  · intro c' hc'
    obtain ⟨p', hp', hps'⟩ := session_eq_some.1 hc'
    exact hpair.session_inj c' c p' p sid hp' hp hps' hps
  · exact fun hcr => List.count_eq_zero.2 (hasked.1 hcr)
  · intro hst
    -- the packets in the three sources are the one packet of this client
    obtain ⟨args, v, hmem, hcmd⟩ := hasked.2 hst
    obtain ⟨pkt, r, hpkt, ⟨m, hr⟩, hpp, huu⟩ :=
      Daemon.introduced_run hrun hpair.once sid s hs hst
    obtain ⟨c', p', v', hp', hps', hv'⟩ := hpair.setup _ hmem
    obtain rfl := hpair.session_inj c' c p' p sid hp' hp hps' hps
    rw [hp, Option.some.injEq] at hp'
    subst hp'
    obtain rfl := hpair.once.packet_unique hmem hpkt
    have hreq : args.request = p.args.request := by
      have h₁ := args.readSetup_setup v m
      rw [show args.setup v = p.args.setup v' from hv', p.args.readSetup_setup] at h₁
      exact (Option.some.inj h₁).symm
    rw [args.readSetup_setup, Option.some.injEq, hreq] at hr
    subst hr
    refine ⟨List.count_eq_one_of_mem hpair.once ?_, ?_, hpp, huu⟩
    · rw [setUps_eq_map]
      exact List.mem_map_of_mem hmem
    · rcases p.args.command.toNat_value with ⟨_, hc⟩ | ⟨hl, _⟩
      · exact hc
      · have hval : args.command.value.toNat = p.args.command.value.toNat :=
          congrArg Proto.Request.cmd hreq
        rw [hcmd, hl] at hval
        exact absurd hval (by decide)

theorem session_of_client_waiting : ∃ w s,
    (Run (Next Sample.env) (initial [Sample.board [] []] [] false)
      (Sample.arrives 0 (Sample.client false 7) 100 ++ Sample.arrives 1 (Sample.client false 8) 101)
      w ∧ w.daemon.session 1 = some s ∧ s.status = .awaitingBoard) ∧
    ∃ c p, w.peers c = some p ∧ p.session = some 1 ∧ s.ppid = p.args.ppid := by
  obtain ⟨w, hr, hv⟩ : ∃ w, Run (Next Sample.env) (initial [Sample.board [] []] [] false)
      (Sample.arrives 0 (Sample.client false 7) 100 ++ Sample.arrives 1 (Sample.client false 8) 101)
      w ∧ (w.daemon.session 1).map Session.status = some .awaitingBoard :=
    exists_run (fun w : Installation => (w.daemon.session 1).map Session.status) (by decide +kernel)
  obtain ⟨s, hs, hst⟩ := Option.map_eq_some_iff.1 hv
  obtain ⟨c, p, hp, hps, _, _, htold⟩ := session_of_client hr hs
  exact ⟨w, s, ⟨hr, hs, hst⟩, c, p, hp, hps, (htold (by rw [hst]; decide)).2.2.1⟩

end Installation
end BoardProxy
