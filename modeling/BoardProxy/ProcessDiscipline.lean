import BoardProxy.Reservation

/-!
# The processes of a session

A session starts its command once, then at most one close command, and it always
watches the one child that has not been reaped. The signal of `close_session` is
therefore meant for the command, and nothing else has its pid.
-/

namespace BoardProxy

def Process.watcher (p : Process) : ChildWatcher := ⟨p.pid, p.kind.callback⟩

theorem ProcessKind.status_inj {a b : ProcessKind} (h : a.status = b.status) : a = b := by
  cases a <;> cases b <;> first | rfl | cases h

namespace Tenancy

variable {v v' : Tenancy} {ps : List Process} {f : ℕ → Option Tenant} {sid k i : ℕ} {t u : Tenant}
  {n : Process} {pid : Pid}

def children (ps : List Process) (kind : ProcessKind) (k : ℕ) : List Process :=
  ps.filter fun p => p.kind = kind ∧ p.session = k

def unreaped (ps : List Process) (k : ℕ) : List Process :=
  ps.filter fun p => p.session = k ∧ p.state ≠ .reaped

/-- Every tenant starts its command before its close command, and each of them
at most once. -/
structure Tidy (ps : List Process) (f : ℕ → Option Tenant) : Prop where
  once : ∀ kind k, (children ps kind k).length ≤ 1
  boardless : ∀ k t, f k = some t → t.board = none → ∀ p ∈ ps, p.session ≠ k
  command : ∀ k t, f k = some t → t.status = .hasBoard → ∀ p ∈ ps, p.session = k →
    p.kind = .command
  after : ∀ p ∈ ps, p.kind = .closeCommand → ∃ q ∈ ps, q.kind = .command ∧
    q.session = p.session ∧ q.board = p.board ∧ q.state = .reaped

namespace Tidy

theorem update (h : Tidy ps f) (hb : u.board = none → ∀ p ∈ ps, p.session ≠ sid)
    (hs : u.status = .hasBoard → ∀ p ∈ ps, p.session = sid → p.kind = .command) :
    Tidy ps (Function.update f sid (some u)) := by
  refine { once := h.once, boardless := ?_, command := ?_, after := h.after }
  · intro k t ht
    rcases update_eq_some ht with ⟨rfl, rfl⟩ | ⟨_, ht⟩
    · exact hb
    · exact h.boardless k t ht
  · intro k t ht
    rcases update_eq_some ht with ⟨rfl, rfl⟩ | ⟨_, ht⟩
    · exact hs
    · exact h.command k t ht

theorem amend (h : Tidy ps f) (ht : f sid = some t) (hb : u.board = t.board)
    (hs : u.status = t.status) : Tidy ps (Function.update f sid (some u)) :=
  h.update (fun hn => h.boardless sid t ht (hb.symm.trans hn))
    fun hn => h.command sid t ht (hs.symm.trans hn)

theorem remove (h : Tidy ps f) : Tidy ps (Function.update f sid none) := by
  have hold : ∀ k t, Function.update f sid none k = some t → f k = some t := by
    intro k t ht
    rw [Function.update_apply] at ht
    by_cases hk : k = sid
    · rw [if_pos hk] at ht
      cases ht
    · rwa [if_neg hk] at ht
  exact { once := h.once, boardless := fun k t ht => h.boardless k t (hold k t ht),
          command := fun k t ht => h.command k t (hold k t ht), after := h.after }

theorem once_append (h : Tidy ps f) (hn : ∀ p ∈ ps, p.session = n.session → p.kind ≠ n.kind)
    (kind : ProcessKind) (k : ℕ) : (children (ps ++ [n]) kind k).length ≤ 1 := by
  rw [children, List.filter_append, List.length_append]
  by_cases hm : n.kind = kind ∧ n.session = k
  · have hnone : ps.filter (fun p => p.kind = kind ∧ p.session = k) = [] := by
      rw [List.filter_eq_nil_iff]
      intro p hp hpk
      obtain ⟨hkind, hsession⟩ := of_decide_eq_true hpk
      exact hn p hp (hsession.trans hm.2.symm) (hkind.trans hm.1.symm)
    rw [hnone, List.length_nil, Nat.zero_add]
    exact List.length_filter_le _ _
  · have hnil : [n].filter (fun p => p.kind = kind ∧ p.session = k) = [] := by
      rw [List.filter_cons_of_neg (by simpa using hm), List.filter_nil]
    rw [hnil, List.length_nil, Nat.add_zero]
    exact h.once kind k

theorem start (h : Tidy ps f) (hb : u.board ≠ none) (hs : u.status = n.kind.status)
    (hn : ∀ p ∈ ps, p.session = n.session → p.kind ≠ n.kind ∧ p.kind = .command)
    (hc : n.kind = .closeCommand → ∃ q ∈ ps, q.kind = .command ∧ q.session = n.session ∧
      q.board = n.board ∧ q.state = .reaped) :
    Tidy (ps ++ [n]) (Function.update f n.session (some u)) := by
  refine { once := h.once_append fun p hp hps => (hn p hp hps).1, boardless := ?_, command := ?_,
           after := ?_ }
  · intro k t ht htb p hp
    rcases update_eq_some ht with ⟨_, rfl⟩ | ⟨hk, ht⟩
    · exact absurd htb hb
    · rcases List.mem_append.1 hp with hp | hp
      · exact h.boardless k t ht htb p hp
      · rw [List.mem_singleton.1 hp]
        exact Ne.symm hk
  · intro k t ht hst p hp hps
    rcases update_eq_some ht with ⟨rfl, rfl⟩ | ⟨hk, ht⟩
    · rcases List.mem_append.1 hp with hp | hp
      · exact (hn p hp hps).2
      · rw [List.mem_singleton.1 hp]
        exact ProcessKind.status_inj (hs.symm.trans hst)
    · rcases List.mem_append.1 hp with hp | hp
      · exact h.command k t ht hst p hp hps
      · rw [List.mem_singleton.1 hp] at hps
        exact absurd hps.symm hk
  · intro p hp hk
    have hex : ∃ q ∈ ps, q.kind = .command ∧ q.session = p.session ∧ q.board = p.board ∧
        q.state = .reaped := by
      rcases List.mem_append.1 hp with hp | hp
      · exact h.after p hp hk
      · rw [List.mem_singleton.1 hp] at hk ⊢
        exact hc hk
    obtain ⟨q, hq, hqp⟩ := hex
    exact ⟨q, List.mem_append_left _ hq, hqp⟩

theorem move (h : Tidy ps f) {a b : ProcessState} (ha : a ≠ .reaped) :
    Tidy (ps.map (Process.moved pid a b)) f := by
  refine { once := ?_, boardless := ?_, command := ?_, after := ?_ }
  · intro kind k
    have hcomp : ((fun p => decide (p.kind = kind ∧ p.session = k)) ∘ Process.moved pid a b) =
        fun p => decide (p.kind = kind ∧ p.session = k) := by
      funext p
      obtain ⟨_, hk, hs, _⟩ := p.moved_fields pid a b
      rw [Function.comp_apply, hk, hs]
    rw [children, List.filter_map, hcomp, List.length_map]
    exact h.once kind k
  · intro k t ht hb p hp
    obtain ⟨q, hq, rfl⟩ := List.mem_map.1 hp
    rw [(q.moved_fields pid a b).2.2.1]
    exact h.boardless k t ht hb q hq
  · intro k t ht hst p hp hps
    obtain ⟨q, hq, rfl⟩ := List.mem_map.1 hp
    obtain ⟨_, hqk, hqs, _⟩ := q.moved_fields pid a b
    rw [hqs] at hps
    rw [hqk]
    exact h.command k t ht hst q hq hps
  · intro p hp hk
    obtain ⟨r, hr, rfl⟩ := List.mem_map.1 hp
    obtain ⟨_, hrk, hrs, hrb⟩ := r.moved_fields pid a b
    rw [hrk] at hk
    obtain ⟨q, hq, hqk, hqs, hqb, hqr⟩ := h.after r hr hk
    have hsame : q.moved pid a b = q := by
      rw [Process.moved, if_neg]
      rintro ⟨_, hqa⟩
      exact ha (hqa.symm.trans hqr)
    refine ⟨q, ?_, hqk, hqs.trans hrs.symm, hqb.trans hrb.symm, hqr⟩
    rw [← hsame]
    exact List.mem_map_of_mem hq

theorem grant (h : Tidy ps f) (hb : u.board ≠ none) (hs : u.status = n.kind.status)
    (hn : ∀ p ∈ ps, p.session ≠ n.session) (hk : n.kind = .command) :
    Tidy (ps ++ [n]) (Function.update f n.session (some u)) := by
  refine h.start hb hs (fun p hp hps => absurd hps (hn p hp)) fun hc => ?_
  rw [hk] at hc
  cases hc

theorem step {setup : ℕ → Tenant → Prop} {forced : List Process → ℕ → Prop} (hc : Coherent v)
    (h : Tidy v.processes v.tenant) (hs : Step setup forced v v') :
    Tidy v'.processes v'.tenant := by
  cases hs with
  | accept => exact h.update (fun _ p hp => Nat.ne_of_lt (hc.known p hp)) fun hn => (by cases hn)
  | rename ht => exact h.amend ht rfl rfl
  | wait ht _ hb => exact h.update (fun _ => h.boardless _ _ ht hb) fun hn => (by cases hn)
  | grant ht _ hb => exact h.grant (by simp) rfl (h.boardless _ _ ht hb) rfl
  | @close sid i t pid argv ht hst hw hb =>
    refine h.start (by simp) rfl ?_ fun _ => ?_
    · intro p hp hps
      have hk := h.command sid t ht hst p hp hps
      exact ⟨fun hn => (by cases hk.symm.trans hn), hk⟩
    · obtain ⟨⟨q, hq, hqk, hqs, hqb⟩, _⟩ := hc.started sid t i ht hb
      exact ⟨q, hq, hqk, hqs, hqb, hc.all_reaped ht hw q hq hqs⟩
  | leave => exact h.remove
  | @handOver sid k i t u pid argv stdio pre post ht hm hq hk =>
    have hb := (hc.leave ht fun hst => (hm.command hst).1).board_of_queue hq hk
    have hr : Tidy v.processes (v.leave sid t).tenant := h.remove
    exact hr.grant (by simp) rfl (hr.boardless k u hk hb) rfl
  | exits => exact h.move (by decide)
  | reapUnwatched => exact h.move (by decide)
  | reap ht => exact (h.move (by decide)).amend ht rfl rfl

theorem unreaped_eq (hc : Coherent v) (h : Tidy v.processes v.tenant) (ht : v.tenant k = some t) :
    (unreaped v.processes k).map Process.watcher = t.watch.toList := by
  have hmem : ∀ {p}, p ∈ unreaped v.processes k →
      p ∈ v.processes ∧ p.session = k ∧ p.state ≠ .reaped := by
    intro p hp
    obtain ⟨hp, hpk⟩ := List.mem_filter.1 hp
    exact ⟨hp, of_decide_eq_true hpk⟩
  cases hw : t.watch with
  | none =>
    have hnil : unreaped v.processes k = [] := by
      rw [List.eq_nil_iff_forall_not_mem]
      intro p hp
      obtain ⟨hp, hps, hpr⟩ := hmem hp
      exact hpr (hc.all_reaped ht hw p hp hps)
    rw [hnil, List.map_nil, Option.toList_none]
  | some c =>
    obtain ⟨p, hp, hpr, hps, _⟩ := hc.watched k t c ht hw
    have hpu : p ∈ unreaped v.processes k :=
      List.mem_filter.2 ⟨hp, decide_eq_true ⟨hps, hpr⟩⟩
    obtain ⟨hpst, _, hpw⟩ := hc.live p hp hpr t (hps ▸ ht)
    have hone : (unreaped v.processes k).length ≤ 1 := by
      refine le_trans ?_ (h.once p.kind k)
      rw [unreaped, children, ← List.countP_eq_length_filter, ← List.countP_eq_length_filter]
      refine List.countP_mono_left fun q hq hqu => ?_
      obtain ⟨hqs, hqr⟩ := of_decide_eq_true hqu
      have hqst := (hc.live q hq hqr t (hqs ▸ ht)).1
      exact decide_eq_true ⟨ProcessKind.status_inj (hqst.symm.trans hpst), hqs⟩
    obtain ⟨q, hq⟩ := List.length_eq_one_iff.1
      (Nat.le_antisymm hone (List.length_pos_of_mem hpu))
    rw [hq, List.mem_singleton] at hpu
    rw [hq, ← hpu, List.map_singleton, ← hw, hpw]
    rfl

end Tidy

def Meant (v : Tenancy) : Prop :=
  ∀ p ∈ v.processes, p.kind = .closeCommand → ∃ b, v.spec p.board = some b ∧ b.closeCommand ≠ []

namespace Meant

theorem start (h : Meant v) {kind : ProcessKind} {argv : List Bytes}
    {stdio : Option (ℤ × ℤ × ℤ)}
    (hk : kind = .closeCommand → ∃ b, v.spec i = some b ∧ b.closeCommand ≠ []) :
    Meant (v.start sid i t kind pid argv stdio) := by
  intro p hp hpk
  rcases List.mem_append.1 hp with hp | hp
  · exact h p hp hpk
  · rw [List.mem_singleton.1 hp] at hpk ⊢
    exact hk hpk

theorem move (h : Meant v) (a b : ProcessState) : Meant (v.move pid a b) := by
  intro p hp hpk
  obtain ⟨q, hq, _, _, hk, _, hb⟩ := Coherent.mem_move hp
  rw [hb]
  exact h q hq (hk.symm.trans hpk)

end Meant
end Tenancy

def Action.kill? : Action → Option (ℕ × Pid)
  | .kill sid pid => some (sid, pid)
  | _ => none

namespace Daemon

variable {env : Env} {sys : Sys} {d d' m : Daemon} {e : Event} {es : List Event} {sid k i : ℕ}
  {s : Session} {bs : List BoardSpec} {fs : List ProxyFactory} {sd : Bool} {pid : Pid}

def kills (d : Daemon) : List (ℕ × Pid) := d.trace.filterMap Action.kill?

def Watches (d : Daemon) (k : ℕ) (pid : Pid) : Prop :=
  ∃ s c, d.session k = some s ∧ s.status = .hasBoard ∧ s.childWatcher = some c ∧ c.pid = pid

def Signals (d d' : Daemon) : Prop :=
  ∃ l, d'.kills = d.kills ++ l ∧ ∀ x ∈ l, d.Watches x.1 x.2

theorem kills_act (as : List Action) : (d.act as).kills = d.kills ++ as.filterMap Action.kill? :=
  List.filterMap_append

theorem kills_grant (b : BoardSpec) (argv : List Bytes) (pid : Pid) (now : ℤ) :
    (d.grant sid i s b argv pid now).kills = d.kills := by
  simp [grant, kills, Action.kill?]

theorem kills_leaves (h : Leaves env sys d sid d') (hs : d.session sid = some s) :
    d'.kills = d.kills := by
  have hdep : (d.departed sid).kills = d.kills := by
    simp [kills, departed_trace hs, Action.kill?]
  cases h with
  | idle =>
    rw [exitIfIdle_eq_silent]
    exact hdep
  | @handOver v i t b argv pid =>
    rw [exitIfIdle_eq_silent]
    exact (kills_grant (d := (d.departed sid).dequeue v) b argv pid sys.now).trans hdep

theorem kills_onConnect {noWait : Bool}
    (h : Session.onConnect env sys d sid noWait = .returned d') :
    d'.kills = d.kills := by
  obtain ⟨s, hs, hcase⟩ := onConnect_returned h
  have hnotice : ((d.enqueue sid).act ((d.enqueue sid).waitNotice sid s.fdErr noWait)).kills =
      d.kills := by
    have hn : ((d.enqueue sid).waitNotice sid s.fdErr noWait).filterMap Action.kill? = [] := rfl
    rw [kills_act, hn, List.append_nil]
    rfl
  rcases hcase with ⟨i, _, ha⟩ | ⟨_, _, rfl⟩ | ⟨_, _, hc⟩
  · obtain ⟨t, b, argv, pid, _, _, _, _, rfl⟩ := sessionAssignBoard_returned ha
    exact kills_grant (d := d.setAwaiting sid) b argv pid sys.now
  · exact hnotice
  · have hl := leaves_of_closeSession hc
    exact (kills_leaves hl (enqueue_session_self hs)).trans hnotice

theorem watches_modifySession {f : Session → Session}
    (h : (d.modifySession sid f).Watches k pid) (hid : ∀ s, (f s).id = s.id)
    (hf : ∀ s c, (f s).status = .hasBoard → (f s).childWatcher = some c →
      s.status = .hasBoard ∧ s.childWatcher = some c) : d.Watches k pid := by
  obtain ⟨t, c, ht, hst, hc, hp⟩ := h
  rw [session_modifySession d sid k f hid] at ht
  by_cases hk : k = sid
  · subst hk
    rw [if_pos rfl, Option.map_eq_some_iff] at ht
    obtain ⟨s, hs, rfl⟩ := ht
    obtain ⟨hst, hc⟩ := hf s c hst hc
    exact ⟨s, c, hs, hst, hc, hp⟩
  · rw [if_neg hk] at ht
    exact ⟨t, c, ht, hst, hc, hp⟩

namespace Signals

theorem of_eq (h : d'.kills = d.kills) : Signals d d' := ⟨[], by rw [h, List.append_nil], nofun⟩

theorem of_quiet (h : Signals m d') (hk : m.kills = d.kills)
    (hw : ∀ k pid, m.Watches k pid → d.Watches k pid) : Signals d d' := by
  obtain ⟨l, hl, hx⟩ := h
  exact ⟨l, by rw [hl, hk], fun x hmem => hw _ _ (hx x hmem)⟩

theorem closes (hs : d.session sid = some s) (h : Closes env sys d sid s d') : Signals d d' := by
  cases h with
  | @kill c hst hw =>
    refine ⟨[(sid, c.pid)], kills_act _, fun x hx => ?_⟩
    rw [List.mem_singleton.1 hx]
    exact ⟨s, c, hs, hst, hw, rfl⟩
  | startClosing => exact of_eq rfl
  | leave _ hl => exact of_eq (kills_leaves hl hs)

theorem closeSession (h : Session.closeSession env sys d sid = .returned d') : Signals d d' := by
  obtain ⟨s, hs, hc⟩ := closes_of_closeSession h
  exact closes hs hc

theorem clientData {recv : Except Errno Packet} (hset : Settled d) (hs : d.session sid = some s)
    (h : step env d (.clientData sid recv sys) = .returned d') : Signals d d' := by
  have hreceive : ∀ pkt, (d.receive sid pkt).kills = d.kills := by
    intro pkt
    exact (kills_act _).trans (List.append_nil _)
  have hwreceive : ∀ pkt k pid, (d.receive sid pkt).Watches k pid → d.Watches k pid := by
    intro pkt k pid hw
    exact watches_modifySession (d := d.act _) hw (fun _ => rfl) fun _ _ hst hc => ⟨hst, hc⟩
  rcases onDataFromClient_returned hs h with ⟨_, hc⟩ | ⟨pkt, rfl, ⟨_, rfl⟩ | ⟨_, hsetup⟩⟩
  · refine (closeSession hc).of_quiet ?_ fun k pid hw => ?_
    · cases recv with
      | error e => exact (kills_act []).trans (List.append_nil _)
      | ok pkt => exact (kills_act _).trans (List.append_nil _)
    · exact watches_modifySession hw (fun _ => rfl) fun _ _ hst hc => ⟨hst, hc⟩
  · exact of_eq (hreceive pkt)
  · rcases onSetupMsg_returned hsetup with ⟨_, d₁, h₁, h₂⟩ | ⟨_, t, r, ht, _, hcase⟩
    · obtain ⟨u, hu, hc⟩ := closes_of_closeSession h₁
      obtain ⟨c, hst, hw, rfl⟩ := noFds_kills (settled_receive hset hs) hu hc h₂
      refine ⟨[(sid, c.pid), (sid, c.pid)], ?_, fun x hx => ?_⟩
      · rw [kills_act, kills_act, hreceive, List.append_assoc]
        rfl
      · have hx' : x = (sid, c.pid) := by simpa using hx
        rw [hx']
        exact hwreceive pkt sid c.pid ⟨u, c, hu, hst, hw, rfl⟩
    · have hi : (d.introduce sid pkt r).kills = d.kills := hreceive pkt
      have hwi : ∀ k pid, (d.introduce sid pkt r).Watches k pid → d.Watches k pid := by
        intro k pid hw
        exact hwreceive pkt k pid (watches_modifySession hw (fun _ => rfl)
          fun _ _ hst hc => ⟨hst, hc⟩)
      rcases hcase with ⟨_, hcon⟩ | ⟨_, _, hcl⟩ | ⟨_, _, rfl⟩
      · exact of_eq ((kills_onConnect hcon).trans hi)
      · exact (closeSession hcl).of_quiet ((kills_act _).trans ((List.append_nil _).trans hi)) hwi
      · exact of_eq hi

theorem next (hset : Settled d) (hn : d.Next env e d') : Signals d d' := by
  have hstep := (next_iff.1 hn).2
  cases callback_of_next hn with
  | hangUp _ hs => exact clientData hset hs hstep
  | ignore _ hs => exact clientData hset hs hstep
  | noFds _ hs => exact clientData hset hs hstep
  | connect _ hs => exact clientData hset hs hstep
  | listSessions _ hs => exact clientData hset hs hstep
  | otherCommand _ hs => exact clientData hset hs hstep
  | @reap pid sys s t c d' _ _ _ _ _ ht hcl =>
    refine of_quiet (m := Session.stopChildWatcher (d.moveProcess pid .zombie .reaped) s.id)
      (closes (session_stop_moveProcess ht) hcl) rfl fun k p hw => ?_
    exact watches_modifySession (d := d.moveProcess pid .zombie .reaped) hw (fun _ => rfl)
      fun _ _ _ hc => (by cases hc)
  | accept => exact of_eq rfl
  | processExits => exact of_eq rfl
  | reapUnwatched => exact of_eq rfl
  | unrouted => exact of_eq rfl
  | attach => exact of_eq rfl
  | proxied => exact of_eq rfl
  | signal => exact of_eq rfl

end Signals

open Tenancy (Meant Tidy children unreaped)

theorem meant_leaves (h : d.view.Meant) (hs : d.session sid = some s)
    (hl : Leaves env sys d sid d') : d'.view.Meant := by
  have hdep : (d.departed sid).view.Meant := by
    rw [view_departed hs]
    exact h
  cases hl with
  | idle => rwa [view_exitIfIdle]
  | @handOver k i t b argv pid _ ht hb =>
    rw [view_handOver ht hb]
    exact Meant.start (v := (d.departed sid).view.dequeue k) hdep fun hk => (by cases hk)

theorem meant_closes (hv : d.view.Coherent) (h : d.view.Meant) (hs : d.session sid = some s)
    (hc : Closes env sys d sid s d') : d'.view.Meant := by
  cases hc with
  | kill => exact h
  | @startClosing i b argv pid _ _ hi hb hcc =>
    have ho : d.owner i = some sid := (hv.owner_iff i sid).2 ⟨s.tenant, view_tenant hs, hi⟩
    rw [view_startClosing hs hi ho]
    exact h.start fun _ => ⟨b, hb, hcc⟩
  | leave _ hl => exact meant_leaves h hs hl

theorem meant_connects {noWait : Bool} (h : d.view.Meant) (hs : d.session sid = some s)
    (hc : Connects env sys d sid s noWait d') : d'.view.Meant := by
  have hw : (d.enqueue sid).view.Meant := by
    rw [view_enqueue hs]
    exact h
  cases hc with
  | @grant i b argv pid _ hbs =>
    rw [view_grant hs (lt_of_spec d i hbs)]
    exact h.start fun hk => (by cases hk)
  | wait => exact hw
  | @turnAway as _ _ _ hl =>
    exact meant_leaves (d := (d.enqueue sid).act as) hw (enqueue_session_self hs) hl

theorem meant_callback (hset : Settled d) (h : d.view.Meant) (hc : Callback env d e d') :
    d'.view.Meant := by
  have hintro : ∀ {sid s pkt r}, d.session sid = some s →
      (d.introduce sid pkt r).view.Coherent ∧ (d.introduce sid pkt r).view.Meant := by
    intro sid s pkt r hs
    rw [view_introduce hs]
    exact ⟨hset.coherent.rename (view_tenant hs) _, h⟩
  cases hc with
  | accept => exact h
  | @hangUp sid recv sys as s d' _ hs _ _ hcl =>
    have hv := view_hangUp as hs
    exact meant_closes (hv ▸ hset.coherent) (hv ▸ h) (session_hangUp_self as hs) hcl
  | ignore _ hs =>
    rw [view_receive hs]
    exact h
  | noFds _ hs _ ht hcl h₂ =>
    obtain ⟨c, _, _, rfl⟩ := noFds_kills (settled_receive hset hs) ht hcl h₂
    rw [view_act, view_act, view_receive hs]
    exact h
  | @connect sid pkt sys r s d' _ hs _ _ hcon =>
    exact meant_connects (hintro hs).2 (session_introduce_self pkt r hs) hcon
  | @listSessions sid pkt sys r as s d' _ hs _ _ hcl =>
    exact meant_closes (d := (d.introduce sid pkt r).act as) (hintro hs).1 (hintro hs).2
      (session_introduce_self pkt r hs) hcl
  | otherCommand _ hs => exact (hintro hs).2
  | processExits => exact h.move _ _
  | reapUnwatched => exact h.move _ _
  | @reap pid sys s t c d' hz hf hs hc hpid ht hcl =>
    subst hpid
    have hst : d.session s.id = some s := hset.session_of_mem hs
    rw [hst, Option.some.injEq] at ht
    subst ht
    have hstep := view_reap (fun _ _ => True) (fun _ _ => True) hst hc hz
    refine meant_closes (hset.coherent.step hstep) ?_ (session_stop_moveProcess hst) hcl
    rw [view_stopChildWatcher (d := d.moveProcess c.pid .zombie .reaped) hst]
    exact h.move _ _
  | unrouted => exact h
  | attach _ _ hs =>
    rw [view_addProxy hs]
    exact h
  | proxied _ hs =>
    rw [view_withProxies hs]
    exact h
  | signal => exact h

theorem tidy_run (h : Run (Next env) (initial bs fs sd) es d) (ho : AtMostOneSetup es) :
    Tidy d.processes d.view.tenant ∧ d.view.Meant := by
  refine h.history (fun es d => AtMostOneSetup es →
    Tidy d.processes d.view.tenant ∧ d.view.Meant) ?_ ?_ ho
  · refine fun _ => ⟨⟨fun _ _ => Nat.zero_le 1, ?_, ?_, ?_⟩, ?_⟩
    · exact fun _ _ ht => (by cases ht)
    · exact fun _ _ ht => (by cases ht)
    · exact fun _ hp => (by cases hp)
    · exact fun _ hp => (by cases hp)
  · intro es d e d' hr ih hn ho
    have hor := orderly_run hr ho.of_append
    obtain ⟨htidy, hmeant⟩ := ih ho.of_append
    refine ⟨?_, meant_callback hor.settled hmeant (callback_of_next hn)⟩
    exact invariant_path (P := fun v => Tidy v.processes v.tenant) hor.settled.coherent htidy
      (fun _ _ hu ht hs => ht.step hu hs) (hor.anyPath ho hn)

theorem Settled.watches (h : Settled d) (hw : d.Watches k pid) :
    ∃ p ∈ d.processes, p.kind = .command ∧ p.session = k ∧ p.pid = pid ∧ p.state ≠ .reaped ∧
      ∀ q ∈ d.processes, q.pid = pid → q.state ≠ .reaped → q = p := by
  obtain ⟨s, c, hs, hst, hc, rfl⟩ := hw
  obtain ⟨p, hp, hpr, rfl, hpid⟩ := h.coherent.watched k s.tenant c (view_tenant hs) hc
  have hkind := (h.coherent.live p hp hpr s.tenant (view_tenant hs)).1
  refine ⟨p, hp, ProcessKind.status_inj (hkind.symm.trans hst), rfl, hpid, hpr, ?_⟩
  intro q hq hqp hqr
  exact h.coherent.pids q hq p hp hqr hpr (hqp.trans hpid.symm)

/-- The process discipline of every session, and the targets of the signals that
the next callback can send. -/
theorem once_run_process_discipline (h : Run (Next env) (initial bs fs sd) es d)
    (ho : AtMostOneSetup es) :
    (∀ s ∈ d.sessions, (unreaped d.processes s.id).map Process.watcher = s.childWatcher.toList) ∧
    (∀ k, (children d.processes .closeCommand k).length ≤ 1) ∧
    (∀ p ∈ d.processes, p.kind = .closeCommand →
      (∃ q ∈ children d.processes .command p.session, q.board = p.board) ∧
      (∀ q ∈ children d.processes .command p.session, q.state = .reaped) ∧
      ∃ b, d.spec p.board = some b ∧ b.closeCommand ≠ []) ∧
    ∀ e d', d.Next env e d' → ∃ l, d'.kills = d.kills ++ l ∧ ∀ x ∈ l,
      ∃ p ∈ d.processes, p.kind = .command ∧ p.session = x.1 ∧ p.pid = x.2 ∧ p.state ≠ .reaped ∧
        ∀ q ∈ d.processes, q.pid = x.2 → q.state ≠ .reaped → q = p := by
  have hor := orderly_run h ho
  obtain ⟨htidy, hmeant⟩ := tidy_run h ho
  refine ⟨?_, fun k => htidy.once .closeCommand k, ?_, ?_⟩
  · intro s hs
    exact htidy.unreaped_eq hor.settled.coherent (view_tenant (hor.settled.session_of_mem hs))
  · intro p hp hk
    obtain ⟨q, hq, hqk, hqs, hqb, hqr⟩ := htidy.after p hp hk
    have hqc : q ∈ children d.processes .command p.session :=
      List.mem_filter.2 ⟨hq, decide_eq_true ⟨hqk, hqs⟩⟩
    refine ⟨⟨q, hqc, hqb⟩, fun r hr => ?_, hmeant p hp hk⟩
    have hone := htidy.once .command p.session
    obtain ⟨a, ha⟩ := List.length_eq_one_iff.1 (Nat.le_antisymm hone (List.length_pos_of_mem hqc))
    rw [ha, List.mem_singleton] at hqc hr
    rw [hr, ← hqc]
    exact hqr
  · intro e d' hn
    obtain ⟨l, hl, hx⟩ := Signals.next hor.settled hn
    exact ⟨l, hl, fun x hmem => hor.settled.watches (hx x hmem)⟩

theorem once_run_process_discipline_hang_up : ∃ d,
    (Run (Next Sample.env) (initial [Sample.board (ascii "off") []] [] false)
      [Sample.accept, Sample.connect 0 7 100, Sample.eof 0 101, .processExits 100,
        .childReaped 100 (Sample.sys 101)] d ∧
      (d.kills, d.processes.map fun p => (p.kind, p.pid, p.state)) =
        ([(0, 100)], [(.command, 100, .reaped), (.closeCommand, 101, .running)])) ∧
    (∀ s ∈ d.sessions, (unreaped d.processes s.id).map Process.watcher = s.childWatcher.toList) ∧
    ∀ k, (children d.processes .closeCommand k).length ≤ 1 := by
  refine Exists.imp (fun d hr => ⟨hr, ?_⟩) (exists_run (fun d : Daemon =>
    (d.kills, d.processes.map fun p => (p.kind, p.pid, p.state))) (by decide +kernel))
  obtain ⟨hwatched, honce, _⟩ := once_run_process_discipline hr.1 (by decide +kernel)
  exact ⟨hwatched, honce⟩

end Daemon
end BoardProxy
