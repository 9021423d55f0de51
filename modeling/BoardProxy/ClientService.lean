import BoardProxy.ClientSessions

/-!
# What a client gets

A client that is not killed and that wants to wait comes back only after it had a
board, and after the commands of this board have ended.
-/

namespace BoardProxy

namespace Tenancy

variable {v v' : Tenancy} {k i : ℕ} {t : Tenant}

def Served (v : Tenancy) (k : ℕ) : Prop :=
  ∃ i b, v.spec i = some b ∧
    (∃ q ∈ v.processes, q.kind = .command ∧ q.session = k ∧ q.board = i) ∧
    (b.closeCommand ≠ [] →
      ∃ q ∈ v.processes, q.kind = .closeCommand ∧ q.session = k ∧ q.board = i) ∧
    ∀ q ∈ v.processes, q.session = k → q.state = .reaped

namespace Served

theorem append (h : Served v k) {n : Process} (hn : n.session ≠ k) (hs : v'.spec = v.spec)
    (hp : v'.processes = v.processes ++ [n]) : Served v' k := by
  obtain ⟨i, b, hb, ⟨q, hq, hqk⟩, hcl, hall⟩ := h
  refine ⟨i, b, hs ▸ hb, ⟨q, ?_, hqk⟩, fun hne => ?_, ?_⟩
  · rw [hp]
    exact List.mem_append_left _ hq
  · obtain ⟨q, hq, hqk⟩ := hcl hne
    refine ⟨q, ?_, hqk⟩
    rw [hp]
    exact List.mem_append_left _ hq
  · intro q hq hqs
    rw [hp, List.mem_append, List.mem_singleton] at hq
    rcases hq with hq | rfl
    · exact hall q hq hqs
    · exact absurd hqs hn

theorem move (h : Served v k) {pid : Pid} {a b : ProcessState} (ha : a ≠ .reaped) :
    Served (v.move pid a b) k := by
  obtain ⟨i, c, hc, hcmd, hcl, hall⟩ := h
  refine ⟨i, c, hc, Coherent.exists_move hcmd, fun hne => Coherent.exists_move (hcl hne), ?_⟩
  intro q hq hqs
  obtain ⟨r, hr, rfl, _, _, hs, _⟩ := Coherent.mem_move hq
  have hrr := hall r hr (hs ▸ hqs)
  rw [Process.moved, if_neg]
  · exact hrr
  · rintro ⟨_, hra⟩
    exact ha (hra.symm.trans hrr)

theorem step {setup : ℕ → Tenant → Prop} {forced : List Process → ℕ → Prop} (h : Served v k)
    (hk : v.stage k = .gone) (hs : Step setup forced v v') : Served v' k := by
  have hne : ∀ {sid t}, v.tenant sid = some t → sid ≠ k := by
    rintro sid t ht rfl
    have hedge := Stage.ofTenant_gone (decide (sid < v.counter)) t
    rw [← ht, ← stage, hk] at hedge
    cases hedge
  cases hs with
  | accept => exact h
  | rename => exact h
  | wait => exact h
  | grant ht => exact h.append (hne ht) rfl rfl
  | close ht => exact h.append (hne ht) rfl rfl
  | leave => exact h
  | @handOver sid j _ t u _ _ _ _ _ ht _ _ hj =>
    have hju : v.tenant j = some u := by
      by_cases hjs : j = sid
      · simp [Tenancy.leave, hjs] at hj
      · exact (Function.update_of_ne hjs ..).symm.trans hj
    exact h.append (hne hju) rfl rfl
  | exits => exact h.move (by decide)
  | reapUnwatched => exact h.move (by decide)
  | reap => exact h.move (by decide)

end Served
end Tenancy

namespace Daemon

variable {env : Env} {d d' : Daemon} {e : Event} {es : List Event} {k i : ℕ} {s : Session}

theorem gone_iff : d.view.stage k = .gone ↔ k < d.counter ∧ d.session k = none := by
  cases hs : d.session k with
  | none =>
    have ht : d.view.tenant k = none := by simp [view, hs]
    rw [Tenancy.stage, ht]
    by_cases hk : k < d.counter
    · exact iff_of_true (if_pos (decide_eq_true hk)) ⟨hk, rfl⟩
    · refine iff_of_false (fun hg => ?_) fun hg => hk hg.1
      rw [show decide (k < d.view.counter) = false from decide_eq_false hk] at hg
      cases hg
  | some s =>
    rw [Tenancy.stage, view_tenant hs]
    refine iff_of_false (fun hg => ?_) fun hg => (by cases hg.2)
    have hedge := Stage.ofTenant_gone (decide (k < d.view.counter)) s.tenant
    rw [hg] at hedge
    cases hedge

theorem board_of_end (h : Orderly es d) (hn : d.Next env e d') (hs : d.session k = some s)
    (hg : d'.session k = none) (hh : e.hangUp? ≠ some k) (he : ¬e.IsSetupFor k) :
    s.board ≠ none := by
  have hne : ¬d.session k = none := by simp [hs]
  have hset : ∀ {sid}, e.IsSetupFor sid → k ≠ sid := by
    rintro sid hsid rfl
    exact he hsid
  cases callback_of_next hn with
  | accept =>
    rw [onClientConnecting, session_addSession, hs, Option.some_or] at hg
    cases hg
  | @hangUp sid recv sys as t _ hr ht _ hf hcl =>
    obtain ⟨u, hu⟩ := Option.ne_none_iff_exists'.1 (fun hn =>
      hne (gone_modifySession (d := d.act as) (f := Session.hungUp) hn fun _ => rfl))
    obtain ⟨rfl, _⟩ := closes_gone hcl hg hu
    exact absurd (if_pos hr) hh
  | ignore => exact absurd (gone_modifySession hg fun _ => rfl) hne
  | noFds _ ht _ hrt hcl h₂ =>
    obtain ⟨c, _, _, rfl⟩ := noFds_kills (settled_receive h.settled ht) hrt hcl h₂
    exact absurd (gone_modifySession (d := d.act _) hg fun _ => rfl) hne
  | @connect sid pkt sys r t _ hreq ht hf hcmd hcon =>
    have hk := hset (isSetupFor_of_request hreq)
    refine absurd (connects_gone hcon hg (s := s) ?_) hk
    rw [session_introduce, if_neg hk, hs]
  | @listSessions sid pkt sys r as t _ hreq ht hf _ hcl =>
    have hk := hset (isSetupFor_of_request hreq)
    refine absurd (closes_gone hcl hg (s := s) ?_).1 hk
    rw [session_act, session_introduce, if_neg hk, hs]
  | @otherCommand sid pkt sys r t hreq ht =>
    have hk := hset (isSetupFor_of_request hreq)
    rw [session_introduce, if_neg hk] at hg
    exact absurd hg hne
  | processExits => exact absurd hg hne
  | reapUnwatched => exact absurd hg hne
  | @reap pid sys t t' c _ hz hf ht hc hpid ht' hcl =>
    -- the child that it watches was started for a board
    have htt := h.settled.session_of_mem ht
    obtain ⟨u, hu⟩ : ∃ u, (Session.stopChildWatcher (d.moveProcess pid .zombie .reaped)
        t.id).session k = some u := Option.ne_none_iff_exists'.1 (fun hn =>
      hne (gone_modifySession (d := d.moveProcess pid .zombie .reaped) hn fun _ => rfl))
    obtain ⟨rfl, _⟩ := closes_gone hcl hg hu
    rw [htt, Option.some.injEq] at hs
    subst hs
    obtain ⟨q, hq, hqr, hqs, _⟩ := h.settled.coherent.watched t.id t.tenant c (view_tenant htt) hc
    have hb := (h.settled.coherent.live q hq hqr t.tenant (hqs ▸ view_tenant htt)).2.1
    rw [show t.board = some q.board from hb]
    exact Option.some_ne_none _
  | unrouted => exact absurd hg hne
  | attach => exact absurd (gone_modifySession hg fun _ => rfl) hne
  | proxied => exact absurd (gone_modifySession hg fun _ => rfl) hne
  | signal => exact absurd hg hne

theorem served_leaves {sys : Sys} (h : d.view.Served k) (hs : d.session k = some s)
    (hl : Leaves env sys d k d') : d'.view.Served k := by
  have hdep : (d.departed k).view.Served k := view_departed hs ▸ h
  cases hl with
  | idle =>
    rw [view_exitIfIdle]
    exact hdep
  | @handOver v i t b argv pid _ ht hb =>
    have hv : v ≠ k := by
      rintro rfl
      rw [departed_session, if_pos rfl] at ht
      cases ht
    rw [view_handOver ht hb]
    exact hdep.append hv rfl rfl

theorem served_of_end (h : Orderly es d) (ho : AtMostOneSetup (es ++ [e])) (hn : d.Next env e d')
    (hs : d.session k = some s) (hg : d'.session k = none) (hh : e.hangUp? ≠ some k)
    (he : ¬e.IsSetupFor k) : d'.view.Served k := by
  have hc := h.settled.coherent
  have hb := board_of_end h hn hs hg hh he
  obtain ⟨i, hi⟩ := Option.ne_none_iff_exists'.1 hb
  have hown := (hc.owner_iff i k).2 ⟨s.tenant, view_tenant hs, hi⟩
  obtain ⟨b, hbs⟩ : ∃ b, d.spec i = some b := by
    have hlt := lt_of_owner d k i hown
    exact ⟨_, by rw [spec, List.getElem?_eq_getElem hlt, Option.map_some]⟩
  have hd := departs_of_next h ho hn hs hb hg
  have hclosed := fun hcc => closed_of_departs h.settled hs hi hd hbs hcc
  cases hd with
  | hangUp hhu => exact absurd hhu hh
  | @reap sys d₁ s₁ c z hwc hz hzp hzs hv hs₁ _ _ hl =>
    refine served_leaves ?_ hs₁ hl
    have hstep : Tenancy.Step (fun _ _ => True) (fun _ _ => True) d.view _ :=
      .reap (view_tenant hs) hwc hz hzp hzs
    have hc₁ := hc.step hstep
    rw [hv]
    refine ⟨i, b, hbs, ?_, fun hcc => ?_, ?_⟩
    · exact Tenancy.Coherent.exists_move (hc.started k s.tenant i (view_tenant hs) hi).1
    · exact Tenancy.Coherent.exists_move (hclosed hcc)
    · exact hc₁.all_reaped (Tenancy.unwatch_self ..) rfl

end Daemon

structure Peer.Ending (w : Installation) (c : ℕ) (p : Peer) : Prop where
  done : p.process = .exited 0 → w.hasClosed p = true ∧ p.stderr = p.args.farewell (.ok 0)
  failed : ∀ n, p.process = .exited n → n ≠ 0 → p.session = none ∧ c ∉ w.backlog
  quiet : p.process ≠ .exited 0 → p.stderr = []

namespace Installation

variable {env : Env} {w w' : Installation} {m : Move} {ms : List Move} {c k sid : ℕ} {p q : Peer}
  {s : Session} {bs : List BoardSpec} {fs : List ProxyFactory} {sd : Bool}

theorem hasClosed_some (hs : p.session = some sid) :
    w.hasClosed p = true ↔ w.up = false ∨ w.daemon.session sid = none := by
  simp [hasClosed, hs]

theorem hasClosed_none (hs : p.session = none) :
    w.hasClosed p = true ↔ w.up = false ∧ w.daemon.isFromSystemd = false := by
  simp [hasClosed, hs, listening]

theorem hasClosed_of_up (hup : w.up = true) : w.hasClosed p = true ↔
    ∃ sid, p.session = some sid ∧ w.daemon.session sid = none := by
  cases hs : p.session with
  | none => simp [hasClosed_none hs, hup]
  | some sid => simp [hasClosed_some hs, hup]

theorem isFromSystemd_of_step (hs : Step env w m w') :
    w'.daemon.isFromSystemd = w.daemon.isFromSystemd := by
  rcases daemon_of_step hs with ⟨hd, _⟩ | ⟨e, hn, _⟩
  · rw [hd]
  · exact congrArg Prod.snd (Daemon.listeners_callback (Daemon.callback_of_next hn))

theorem up_of_step (hs : Step env w m w') (hup : w'.up = true) : w.up = true := by
  cases hs with
  | stopped => cases hup
  | _ => exact hup

theorem hasClosed_step (hp : w.Paired) (hs : Step env w m w') (hk : w.peers k = some p)
    (hc : w.hasClosed p = true) (hq : q.session = p.session) : w'.hasClosed q = true := by
  have hdown : w.up = false → w'.up = false := fun hd =>
    Bool.eq_false_iff.2 fun hup => by simp [up_of_step hs hup] at hd
  cases hsid : p.session with
  | none =>
    obtain ⟨hd, hsd⟩ := (hasClosed_none hsid).1 hc
    refine (hasClosed_none (hq.trans hsid)).2 ⟨hdown hd, ?_⟩
    rw [isFromSystemd_of_step hs]
    exact hsd
  | some sid =>
    refine (hasClosed_some (hq.trans hsid)).2 ?_
    rcases (hasClosed_some hsid).1 hc with hd | hg
    · exact Or.inl (hdown hd)
    · rcases daemon_of_step hs with ⟨hd, _⟩ | ⟨e, hn, _⟩
      · rw [hd]
        exact Or.inr hg
      · exact Or.inr (Daemon.gone_of_next hn (hp.session_lt k p sid hk hsid) hg)

theorem ending_step (h : ∀ k p, w.peers k = some p → p.Ending w k) (hp : w.Paired)
    (hs : Step env w m w') (hk : w'.peers k = some q) : q.Ending w' k := by
  -- a peer that keeps its process and its session
  have hkeep : ∀ {p}, w.peers k = some p → q.process = p.process → q.stderr = p.stderr →
      q.args = p.args → q.session = p.session → (k ∈ w'.backlog → k ∈ w.backlog) →
      q.Ending w' k := by
    intro p hpk hproc herr hargs hsess hback
    have hold := h k p hpk
    refine ⟨fun hx => ?_, fun n hx hn => ?_, fun hx => ?_⟩
    · obtain ⟨hcl, hst⟩ := hold.done (hproc ▸ hx)
      exact ⟨hasClosed_step hp hs hpk hcl hsess, by rw [herr, hargs, hst]⟩
    · obtain ⟨hnone, hb⟩ := hold.failed n (hproc ▸ hx) hn
      exact ⟨hsess.trans hnone, fun hin => hb (hback hin)⟩
    · rw [herr]
      exact hold.quiet (hproc ▸ hx)
  have hsame : w.peers k = some q → (k ∈ w'.backlog → k ∈ w.backlog) → q.Ending w' k :=
    fun hq => hkeep hq rfl rfl rfl rfl
  -- a process that goes on
  have hmove : ∀ {p}, w.peers k = some p → p.process ≠ .exited 0 → (∀ n, q.process ≠ .exited n) →
      q.stderr = p.stderr → q.Ending w' k := by
    intro p hpk hproc hx herr
    exact ⟨fun h0 => absurd h0 (hx 0), fun n hn _ => absurd hn (hx n),
      fun _ => herr.trans ((h k p hpk).quiet hproc)⟩
  cases hs with
  | launch =>
    rcases peer_update hk with ⟨_, rfl⟩ | ⟨_, hq⟩
    · exact ⟨fun hx => (by cases hx), fun _ hx => (by cases hx), fun _ => rfl⟩
    · exact hsame hq id
  | @connected c p hpc hst _ =>
    rcases peer_update hk with ⟨rfl, rfl⟩ | ⟨hkc, hq⟩
    · exact hmove hpc (by rw [hst]; decide) (fun _ hx => (by cases hx)) rfl
    · exact hsame hq fun hin => (List.mem_append.1 hin).resolve_right fun hin =>
        hkc (List.mem_singleton.1 hin)
  | @refused c p e hpc hst =>
    rcases peer_update hk with ⟨rfl, rfl⟩ | ⟨_, hq⟩
    · have herr := (h k p hpc).quiet (by rw [hst]; decide)
      refine ⟨fun hx => (by cases hx), fun _ _ _ => ⟨(hp.proper k p hpc).starting hst, ?_⟩,
        fun _ => herr⟩
      intro hin
      obtain ⟨r, hr, _, hrp⟩ := hp.backlog k hin
      rw [hpc, Option.some.injEq] at hr
      exact hrp (hr ▸ hst)
    · exact hsame hq id
  | sent hpc hst =>
    rcases peer_update hk with ⟨rfl, rfl⟩ | ⟨_, hq⟩
    · exact hmove hpc (by rw [hst]; decide) (fun _ hx => (by cases hx)) rfl
    · exact hsame hq id
  | @unsent c p e hpc hst =>
    rcases peer_update hk with ⟨rfl, rfl⟩ | ⟨_, hq⟩
    · refine hmove hpc (by rw [hst]; decide) (fun n hx => ?_) rfl
      simp only [ClientProcess.unsent] at hx
      split_ifs at hx
    · exact hsame hq id
  | @read c p r hpc hst hcl hr =>
    rcases peer_update hk with ⟨rfl, rfl⟩ | ⟨_, hq⟩
    · have herr := (h k p hpc).quiet (by rw [hst]; decide)
      cases r with
      | error e =>
        refine hmove hpc (by rw [hst]; decide) (fun _ hx => (by cases hx)) ?_
        exact List.append_nil _
      | ok n =>
        obtain rfl : n = 0 := by simpa [ClientProcess.noData] using hr
        refine ⟨fun _ => ⟨hcl, ?_⟩, fun n hx hn => ?_, fun hx => absurd rfl hx⟩
        · rw [herr, List.nil_append]
        · exact absurd (ClientProcess.exited.inj hx).symm hn
    · exact hsame hq id
  | died hpc hover =>
    rcases peer_update hk with ⟨rfl, rfl⟩ | ⟨_, hq⟩
    · refine hmove hpc (fun hx => ?_) (fun _ hx => (by cases hx)) rfl
      rw [hx] at hover
      cases hover
    · exact hsame hq id
  | stopped => exact hsame hk id
  | @accepted c rest p cred ppid buffer now d' hup hb hpc hn =>
    rcases peer_update hk with ⟨rfl, rfl⟩ | ⟨_, hq⟩
    · have hin : k ∈ w.backlog := hb ▸ List.mem_cons_self
      obtain ⟨r, hr, hrs, _⟩ := hp.backlog k hin
      rw [hpc, Option.some.injEq] at hr
      subst hr
      have hx : ∀ n, p.process ≠ .exited n := by
        intro n hx
        by_cases hn : n = 0
        · subst hn
          obtain ⟨hdown, _⟩ := (hasClosed_none hrs).1 ((h k p hpc).done hx).1
          rw [hup] at hdown
          cases hdown
        · exact ((h k p hpc).failed n hx hn).2 hin
      exact hmove hpc (hx 0) hx rfl
    · exact hsame hq fun hin => hb ▸ List.mem_cons_of_mem c hin
  | received _ hpc =>
    rcases peer_update hk with ⟨rfl, rfl⟩ | ⟨_, hq⟩
    · exact hkeep hpc rfl rfl rfl rfl id
    · exact hsame hq id
  | other => exact hsame hk id

theorem ending_run (h : Run (Next env) (initial bs fs sd) ms w) (hk : w.peers c = some p) :
    p.Ending w c := by
  refine h.history (fun _ w => ∀ k p, w.peers k = some p → p.Ending w k)
    (fun k p hk => (by cases hk)) ?_ c p hk
  intro ms w m w' hr ih hn k q hq
  exact ending_step ih (paired_run hr) (step_of_next hn) hq

theorem hangUp_of_step {e : Event} (hp : w.Paired) (hs : Step env w m w')
    (hl : w'.log = w.log ++ [e]) (he : e.hangUp? = some sid) :
    ∃ c p failure stale sys, m = .receives c failure stale sys ∧ w.peers c = some p ∧
      p.session = some sid ∧ (failure = none → p.process.isOver = true) := by
  have hno : ∀ {f}, w.log ++ [f] = w.log ++ [e] → f.hangUp? = none → False := by
    intro f hf hn
    rw [List.append_cancel_left_eq, List.singleton_inj] at hf
    rw [← hf, hn] at he
    cases he
  have hsame : w.log ≠ w.log ++ [e] := by simp
  cases hs with
  | accepted => exact (hno hl rfl).elim
  | @other f d' _ hf hn =>
    refine (hno hl ?_).elim
    cases f with
    | clientData => cases hf
    | _ => rfl
  | @received c j p failure stale sys r d' _ hpc hsid hr hn =>
    rw [List.append_cancel_left_eq, List.singleton_inj] at hl
    subst hl
    obtain ⟨hends, hj⟩ : recvEnds r = true ∧ j = sid := by simpa [Event.hangUp?] using he
    subst hj
    refine ⟨c, p, failure, stale, sys, rfl, hpc, hsid, ?_⟩
    rintro rfl
    rcases (hp.proper c p hpc).inbox with hi | ⟨⟨v, hi⟩, _⟩
    · by_contra hover
      rw [recv, hi, if_neg hover] at hr
      cases hr
    · rw [recv, hi, Option.some.injEq] at hr
      subst hr
      have hset := p.args.setup_received v j sys
      rw [Daemon.setup_eq_none_of_recvEnds hends] at hset
      cases hset
  | _ => exact absurd hl hsame

theorem Paired.setup_last {e : Event} {es : List Event} (hp : w.Paired) (hl : w.log = es ++ [e])
    (he : e.IsSetupFor sid) : ∃ c p v sys, w.peers c = some p ∧ p.session = some sid ∧
      e = .clientData sid (.ok (p.args.setup v)) sys := by
  obtain ⟨⟨j, pkt⟩, hpkt, hj⟩ := Option.map_eq_some_iff.1 he
  obtain rfl : j = sid := hj
  obtain ⟨sys, rfl⟩ := Event.eq_of_setup hpkt
  have hin : (j, pkt) ∈ setupPackets w.log := by
    rw [hl, setupPackets, List.filterMap_append]
    exact List.mem_append_right _ (by simp [hpkt])
  obtain ⟨c, q, v, hq, hqs, hv⟩ := hp.setup _ hin
  obtain rfl : pkt = q.args.setup v := hv
  exact ⟨c, q, v, sys, hq, hqs, rfl⟩

theorem peer_of_step (hs : Step env w m w') (hp : w.peers k = some p) :
    ∃ q, w'.peers k = some q ∧ q.args = p.args ∧ (p.process = .killed → q.process = .killed) := by
  have hset : ∀ {c r q}, w.peers c = some r → w'.peers = Function.update w.peers c (some q) →
      q.args = r.args → (r.process = .killed → q.process = .killed) →
      ∃ q, w'.peers k = some q ∧ q.args = p.args ∧ (p.process = .killed → q.process = .killed) := by
    intro c r q hr hw hargs hkill
    rw [hw]
    by_cases hk : k = c
    · subst hk
      rw [hp, Option.some.injEq] at hr
      subst hr
      exact ⟨q, Function.update_self .., hargs, hkill⟩
    · exact ⟨p, (Function.update_of_ne hk ..).trans hp, rfl, id⟩
  cases hs with
  | @launch c args hc =>
    have hk : k ≠ c := by
      rintro rfl
      rw [hp] at hc
      cases hc
    exact ⟨p, (Function.update_of_ne hk ..).trans hp, rfl, id⟩
  | connected hr hst => exact hset hr rfl rfl fun hk => (by rw [hst] at hk; cases hk)
  | refused hr hst => exact hset hr rfl rfl fun hk => (by rw [hst] at hk; cases hk)
  | sent hr hst => exact hset hr rfl rfl fun hk => (by rw [hst] at hk; cases hk)
  | unsent hr hst => exact hset hr rfl rfl fun hk => (by rw [hst] at hk; cases hk)
  | read hr hst => exact hset hr rfl rfl fun hk => (by rw [hst] at hk; cases hk)
  | died hr => exact hset hr rfl rfl fun _ => rfl
  | stopped => exact ⟨p, hp, rfl, id⟩
  | accepted _ _ hr => exact hset hr rfl rfl id
  | received _ hr => exact hset hr rfl rfl id
  | other => exact ⟨p, hp, rfl, id⟩

end Installation

/-- The client for whose connection `recvmsg` fails. -/
def Move.failed? : Move → Option ℕ
  | .receives c (some _) _ _ => some c
  | _ => none

structure Peer.Waits (p : Peer) : Prop where
  command : p.args.command = .connect
  noWait : p.args.noWait = false
  alive : p.process ≠ .killed

theorem Stage.eq_gone {a : Stage} (h : Stage.gone.Leads a) : a = .gone := by
  cases Relation.ReflTransGen.cases_head h with
  | inl he => exact he.symm
  | inr he =>
    obtain ⟨_, hedge, _⟩ := he
    cases hedge

theorem Daemon.served_of_next {env : Env} {d d' : Daemon} {e : Event} {es : List Event} {k : ℕ}
    (h : Orderly es d) (ho : AtMostOneSetup (es ++ [e])) (hn : d.Next env e d')
    (hg : d.view.stage k = .gone) (hs : d.view.Served k) : d'.view.Served k := by
  refine (invariant_path (P := fun v => v.stage k = .gone ∧ v.Served k) h.settled.coherent
    ⟨hg, hs⟩ ?_ (h.path ho hn (fun _ _ => True) fun _ _ _ _ _ => trivial)).2
  rintro u v hc ⟨hgu, hsu⟩ hst
  exact ⟨Stage.eq_gone (hgu ▸ Tenancy.leads_step hc hst k), hsu.step hgu hst⟩

namespace Installation

variable {env : Env} {w w' : Installation} {m : Move} {ms : List Move} {c k sid : ℕ} {p q : Peer}
  {s : Session} {bs : List BoardSpec} {fs : List ProxyFactory} {sd : Bool}

theorem served_step (hr : Run (Next env) (initial bs fs sd) ms w) (hs : Step env w m w')
    (ih : ∀ p, w.peers c = some p → p.session = some sid → p.Waits →
      w.daemon.session sid = none → w.daemon.view.Served sid)
    (hq : w'.peers c = some q) (hqs : q.session = some sid) (hw : q.Waits)
    (hf : m.failed? ≠ some c) (hg : w'.daemon.session sid = none) : w'.daemon.view.Served sid := by
  have hpair := paired_run hr
  have hpair' := hpair.step hs
  rcases session_of_step hpair hs c with he | ⟨_, hsome, hnew⟩
  · obtain ⟨p, hp, hps⟩ := session_eq_some.1 (he.symm.trans (session_eq_some.2 ⟨q, hq, hqs⟩))
    obtain ⟨q', hq', hargs, hkill⟩ := peer_of_step hs hp
    rw [hq, Option.some.injEq] at hq'
    subst hq'
    have hpw : p.Waits := ⟨hargs ▸ hw.command, hargs ▸ hw.noWait, mt hkill hw.alive⟩
    rcases daemon_of_step hs with ⟨hd, _⟩ | ⟨e, hn, hl⟩
    · rw [hd] at hg ⊢
      exact ih p hp hps hpw hg
    · have hord := orderly_run hr
      have hone : AtMostOneSetup (w.log ++ [e]) := hl ▸ hpair'.once
      cases hses : w.daemon.session sid with
      | none =>
        exact Daemon.served_of_next hord hone hn
          (Daemon.gone_iff.2 ⟨hpair.session_lt c p sid hp hps, hses⟩) (ih p hp hps hpw hses)
      | some s =>
        refine Daemon.served_of_end hord hone hn hses hg (fun hhu => ?_) fun hset => ?_
        · -- the connection of a living client does not end
          obtain ⟨c', p', failure, stale, sys, rfl, hp', hps', hover⟩ :=
            hangUp_of_step hpair hs hl hhu
          obtain rfl := hpair.session_inj c' c p' p sid hp' hp hps' hps
          rw [hp, Option.some.injEq] at hp'
          subst hp'
          cases failure with
          | some _ => exact hf rfl
          | none =>
            have hend := ending_run hr hp
            cases hproc : p.process with
            | exited n =>
              by_cases hn0 : n = 0
              · subst hn0
                have hup : w.up = true := by
                  cases hs with
                  | received hup => exact hup
                obtain ⟨j, hj, hjg⟩ := (hasClosed_of_up hup).1 (hend.done hproc).1
                rw [hps, Option.some.injEq] at hj
                rw [← hj, hses] at hjg
                cases hjg
              · rw [(hend.failed n hproc hn0).1] at hps
                cases hps
            | killed => exact hpw.alive hproc
            | _ => simp [hproc, ClientProcess.isOver] at hover
        · -- its setup message asks for a board
          obtain ⟨c', p', v, sys, hp', hps', rfl⟩ := hpair'.setup_last hl hset
          obtain rfl := hpair'.session_inj c' c p' q sid hp' hq hps' hqs
          rw [hq, Option.some.injEq] at hp'
          subst hp'
          rcases Daemon.answer_of_setup hord hone hn with ⟨_, s', hs', _⟩ | ⟨_, hno⟩
          · rw [hg] at hs'
            cases hs'
          · rw [hw.noWait] at hno
            cases hno hw.command
  · have hsid := hsome.symm.trans (session_eq_some.2 ⟨q, hq, hqs⟩)
    rw [Option.some.inj hsid] at hnew
    exact absurd hg hnew

theorem served_run (h : Run (Next env) (initial bs fs sd) ms w) (hp : w.peers c = some p)
    (hps : p.session = some sid) (hw : p.Waits) (hf : ∀ m ∈ ms, m.failed? ≠ some c)
    (hg : w.daemon.session sid = none) : w.daemon.view.Served sid := by
  refine h.history (fun ms w => (∀ m ∈ ms, m.failed? ≠ some c) → ∀ p, w.peers c = some p →
    p.session = some sid → p.Waits → w.daemon.session sid = none → w.daemon.view.Served sid)
    (fun _ p hp => (by cases hp)) ?_ hf p hp hps hw hg
  intro ms w m w' hr ih hn hf q hq hqs hw hg
  exact served_step hr (step_of_next hn) (ih fun m hm => hf m (List.mem_append_left _ hm)) hq hqs hw
    (hf m (List.mem_append_right _ List.mem_cons_self)) hg

end Installation
end BoardProxy
