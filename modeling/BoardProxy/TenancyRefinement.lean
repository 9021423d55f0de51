import BoardProxy.CallbackCases
import BoardProxy.Tenancy
import Mathlib.Logic.Relation

/-!
# The daemon keeps its tenancies coherent

`view` forgets everything but the tenancies. Each update of the daemon is one
operation on the view, and each callback is a few of them. A callback finds and
leaves the tenancies `Settled` as long as no `connect` request meets a session
that already has a board, or that waits while the request could be served.
-/

namespace BoardProxy

def Session.tenant (s : Session) : Tenant := ⟨s.status, s.board, s.childWatcher, s.getUsername⟩

def Proto.Request.name (r : Proto.Request) (cred : Bytes) : Bytes :=
  if r.username = [] then cred else r.username

namespace Daemon

variable {env : Env} {sys : Sys} {d d' : Daemon} {sid k i j : ℕ} {s : Session} {e : Event}
  {pid : Pid} {argv : List Bytes}

def view (d : Daemon) : Tenancy where
  tenant k := (d.session k).map Session.tenant
  owner := d.owner
  queue := d.waitQueue
  ids := d.sessions.map Session.id
  counter := d.counter
  processes := d.processes
  spec := d.spec

theorem view_tenant (hs : d.session sid = some s) : d.view.tenant sid = some s.tenant := by
  simp [view, hs]

theorem exists_of_view_tenant {t : Tenant} (h : d.view.tenant k = some t) :
    ∃ s, d.session k = some s ∧ s.tenant = t := Option.map_eq_some_iff.1 h

theorem view_act (as : List Action) : (d.act as).view = d.view := rfl

theorem view_exitIfIdle : d.exitIfIdle.view = d.view := by
  rw [exitIfIdle_eq_silent]
  rfl

theorem view_moveProcess (a b : ProcessState) :
    (d.moveProcess pid a b).view = d.view.move pid a b :=
  rfl

theorem view_dequeue : (d.dequeue sid).view = d.view.dequeue sid := rfl

theorem view_modifySession {f : Session → Session} (hf : ∀ s, (f s).id = s.id)
    (hs : d.session sid = some s) : (d.modifySession sid f).view =
      { d.view with tenant := Function.update d.view.tenant sid (some (f s).tenant) } := by
  apply Tenancy.ext
  · funext k
    simp only [view, session_modifySession _ _ _ f hf, Function.update_apply]
    by_cases hk : k = sid
    · simp [hk, hs]
    · simp [hk]
  · rfl
  · rfl
  · exact KeyedList.keys_modify sid f hf d.sessions
  · rfl
  · rfl
  · rfl

theorem view_modifySession_quiet {f : Session → Session} (hf : ∀ s, (f s).id = s.id)
    (ht : ∀ s, (f s).tenant = s.tenant) (hs : d.session sid = some s) :
    (d.modifySession sid f).view = d.view := by
  rw [view_modifySession hf hs, ht, ← view_tenant hs, Function.update_eq_self]

theorem view_receive {pkt : Packet} (hs : d.session sid = some s) :
    (d.receive sid pkt).view = d.view :=
  view_modifySession_quiet (d := d.act _) (fun _ => rfl) (fun _ => rfl) hs

theorem view_addProxy {peer : Pid} {conn : ProxyConn} (hs : d.session sid = some s) :
    (Session.addProxy d sid peer conn).view = d.view :=
  view_modifySession_quiet (fun _ => rfl) (fun _ => rfl) hs

theorem view_withProxies {f : List Proxy → List Proxy} {n : ℕ} (hs : d.session sid = some s) :
    (d.modifySession sid (Session.withProxies f n)).view = d.view :=
  view_modifySession_quiet (fun _ => rfl) (fun _ => rfl) hs

theorem view_hangUp (as : List Action) (hs : d.session sid = some s) :
    ((d.act as).modifySession sid Session.hungUp).view = d.view :=
  view_modifySession_quiet (d := d.act as) (fun _ => rfl) (fun _ => rfl) hs

theorem view_introduce {pkt : Packet} {r : Proto.Request} (hs : d.session sid = some s) :
    (d.introduce sid pkt r).view = d.view.rename sid s.tenant (r.name s.usernameCred) := by
  rw [introduce, view_modifySession (f := Session.introduced pkt r) (fun _ => rfl)
    (session_receive_self pkt hs), view_receive hs]
  rfl

theorem view_enqueue (hs : d.session sid = some s) :
    (d.enqueue sid).view = d.view.wait sid s.tenant := by
  have h := view_modifySession (d := d)
    (f := fun s => { s with status := .awaitingBoard }) (fun _ => rfl) hs
  simp only [Tenancy.ext_iff] at h ⊢
  exact ⟨h.1, h.2.1, rfl, h.2.2.2⟩

theorem view_stopChildWatcher (hs : d.session sid = some s) :
    (Session.stopChildWatcher d sid).view = d.view.unwatch sid s.tenant :=
  view_modifySession (fun _ => rfl) hs

theorem view_grant (hs : d.session sid = some s) (hi : i < d.boards.length) (b : BoardSpec)
    (now : ℤ) : (d.grant sid i s b argv pid now).view =
      d.view.start sid i s.tenant .command pid argv (some (s.fdIn, s.fdOut, s.fdErr)) := by
  obtain ⟨hq, hp, hc⟩ := @grant_fields d sid i s b argv pid now
  apply Tenancy.ext
  · funext k
    simp only [view, grant_session, Tenancy.start, Function.update_apply]
    by_cases hk : k = sid
    · simp only [hk, ↓reduceIte, hs, Option.map_some]
      rfl
    · simp [hk]
  · funext j
    simp only [view, grant_owner hi, Tenancy.start, Function.update_apply]
  · exact hq
  · exact grant_keys b argv pid now
  · exact hc
  · exact hp
  · exact funext fun j => grant_spec b argv pid now

theorem view_startClosing (hs : d.session sid = some s) (hb : s.board = some i)
    (ho : d.owner i = some sid) : (d.startClosing sid i argv pid).view =
      d.view.start sid i s.tenant .closeCommand pid argv none := by
  obtain ⟨hbo, hq, hp, hc⟩ := @startClosing_fields d sid i argv pid
  apply Tenancy.ext
  · funext k
    simp only [view, startClosing_session, Tenancy.start, Function.update_apply]
    by_cases hk : k = sid
    · simp only [hk, ↓reduceIte, hs, Option.map_some]
      simp only [Session.tenant, Session.closing, hb, ProcessKind.status, ProcessKind.callback]
      rfl
    · simp [hk]
  · funext j
    simp only [view, Tenancy.start, Function.update_apply, owner, hbo]
    by_cases hj : j = i
    · rw [if_pos hj, hj]
      exact ho
    · rw [if_neg hj]
  · exact hq
  · exact startClosing_keys argv pid
  · exact hc
  · exact hp
  · funext j
    simp only [view, Tenancy.start, spec, hbo]

theorem view_departed (hs : d.session sid = some s) :
    (d.departed sid).view = d.view.leave sid s.tenant := by
  obtain ⟨hq, hp, hc, hl⟩ := departed_fields hs
  apply Tenancy.ext
  · funext k
    simp only [view, departed_session, Tenancy.leave, Function.update_apply]
    by_cases hk : k = sid <;> simp [hk]
  · funext j
    simp only [view, departed_owner hs, Tenancy.leave]
    rfl
  · simp only [view, hq, Tenancy.leave]
  · simp only [view, hl, Tenancy.leave, KeyedList.keys_remove]
  · exact hc
  · exact hp
  · exact funext fun j => departed_spec

theorem view_accept {cred : Bytes} {ppid : Pid} {buffer : Memory} {now : ℤ}
    (h : d.session d.counter = none) :
    (d.onClientConnecting cred ppid buffer now).view = d.view.accept cred := by
  apply Tenancy.ext
  · funext k
    simp only [view, onClientConnecting, session_addSession, Tenancy.accept, Function.update_apply]
    by_cases hk : k = d.counter
    · simp [hk, h, Session.tenant, Session.getUsername]
    · simp [hk, Ne.symm hk]
  · rfl
  · rfl
  · simp [view, onClientConnecting, Tenancy.accept]
  · rfl
  · rfl
  · rfl

theorem view_handOver {t : Session} {b : BoardSpec} {now : ℤ}
    (ht : (d.departed sid).session k = some t) (hb : d.spec i = some b) :
    (((d.departed sid).dequeue k).grant k i t b argv pid now).exitIfIdle.view =
      ((d.departed sid).view.dequeue k).start k i t.tenant .command pid argv
        (some (t.fdIn, t.fdOut, t.fdErr)) := by
  rw [view_exitIfIdle, view_grant (d := (d.departed sid).dequeue k) ht (lt_departed_boards hb),
    view_dequeue]

theorem unused_of_forkFresh (hf : forkFresh sys d.processes = true) (hp : sys.fork = .ok pid) :
    d.view.Unused pid := by
  intro p hmem hpid
  simp only [forkFresh, hp, List.all_eq_true, decide_eq_true_eq] at hf
  exact hf p hmem hpid

theorem free_of_available {name : Bytes} (h : d.findAvailableBoard name = some i) :
    d.view.Free i name := findAvailableBoard_some h

theorem not_free_of_unavailable {name : Bytes} (h : d.findAvailableBoard name = none) :
    ∀ i, ¬d.view.Free i name := by
  intro i ⟨ho, b, hb, he⟩
  exact findAvailableBoard_none.1 h i b hb ho he

section Paths

variable {setup : ℕ → Tenant → Prop} {forced : List Process → ℕ → Prop}

theorem leaves_step (hs : d.session sid = some s)
    (hm : Tenancy.MayLeave forced d.view sid s.tenant) (hf : forkFresh sys d.processes = true)
    (hl : Leaves env sys d sid d') : Tenancy.Step setup forced d.view d'.view := by
  have hdep := view_departed hs
  cases hl with
  | idle hfw =>
    rw [view_exitIfIdle, hdep]
    refine .leave (view_tenant hs) hm ?_
    rw [← hdep]
    intro k hk u hu
    obtain ⟨w, hw, hno⟩ := findWaiting_none.1 hfw k hk
    rw [view_tenant hw, Option.some.injEq] at hu
    subst hu
    exact not_free_of_unavailable hno
  | @handOver k i t b argv pid hfw ht hb _ hp =>
    obtain ⟨pre, post, u, hq, hu, hav, hpre⟩ := findWaiting_some hfw
    rw [ht, Option.some.injEq] at hu
    subst hu
    rw [view_handOver ht hb, hdep]
    have hq' : (d.view.leave sid s.tenant).queue = pre ++ k :: post := by
      rw [← hdep]
      exact hq
    refine .handOver (view_tenant hs) hm hq' ?_ ?_ ?_ (unused_of_forkFresh hf hp)
    · rw [← hdep]
      exact view_tenant ht
    · rw [← hdep]
      exact free_of_available hav
    · rw [← hdep]
      intro j hj w hw
      obtain ⟨r, hr, hno⟩ := hpre j hj
      rw [view_tenant hr, Option.some.injEq] at hw
      subst hw
      exact not_free_of_unavailable hno

theorem closes_path (h : d.view.Coherent) (hs : d.session sid = some s)
    (hc : s.status = .closingBoard → s.childWatcher = none ∨ forced d.processes sid)
    (hf : forkFresh sys d.processes = true) (hcl : Closes env sys d sid s d') :
    Relation.ReflTransGen (Tenancy.Step setup forced) d.view d'.view := by
  cases hcl with
  | kill => exact .refl
  | @startClosing i b argv pid hst hw hi hb hcc hp =>
    have ho : d.owner i = some sid := (h.owner_iff i sid).2 ⟨s.tenant, view_tenant hs, hi⟩
    rw [view_startClosing hs hi ho]
    exact .single (.close (view_tenant hs) hst hw hi (unused_of_forkFresh hf hp))
  | leave hg hl => exact .single (leaves_step hs ⟨hg, hc⟩ hf hl)

theorem connects_path {noWait : Bool} (h : d.view.Coherent) (hs : d.session sid = some s)
    (hset : setup sid s.tenant) (hb : s.board = none)
    (hq : s.status = .awaitingBoard → d.findAvailableBoard s.getUsername = none)
    (hf : forkFresh sys d.processes = true) (hc : Connects env sys d sid s noWait d') :
    Relation.ReflTransGen (Tenancy.Step setup forced) d.view d'.view := by
  cases hc with
  | @grant i b argv pid hav hbs _ hp =>
    have hnq : sid ∉ d.view.queue := by
      intro hmem
      obtain ⟨t, ht, hst⟩ := h.queued sid hmem
      rw [view_tenant hs, Option.some.injEq] at ht
      subst ht
      rw [hq hst] at hav
      cases hav
    rw [view_grant hs (lt_of_spec d i hbs)]
    exact .single (.grant (view_tenant hs) hset hb hnq (free_of_available hav)
      (unused_of_forkFresh hf hp))
  | @wait as hno _ =>
    rw [view_act, view_enqueue hs]
    exact .single (.wait (view_tenant hs) hset hb (not_free_of_unavailable hno))
  | @turnAway as d' hno _ hl =>
    have hes := enqueue_session_self hs
    have hw : Tenancy.Step setup forced d.view ((d.enqueue sid).act as).view := by
      rw [view_act, view_enqueue hs]
      exact .wait (view_tenant hs) hset hb (not_free_of_unavailable hno)
    refine .tail (.single hw) (leaves_step hes ⟨fun hst => ?_, fun hst => ?_⟩ hf hl)
    · cases hst
    · cases hst

end Paths

section Attention

open Tenancy (Attended)

theorem attended_leaves (h : Attended (some sid) d.view.tenant) (hs : d.session sid = some s)
    (hl : Leaves env sys d sid d') : Attended none d'.view.tenant := by
  have hdep : Attended none (d.departed sid).view.tenant := by
    rw [view_departed hs]
    exact h.remove
  cases hl with
  | idle => rwa [view_exitIfIdle]
  | @handOver k i t b argv pid hfw ht hb _ hp =>
    rw [view_handOver ht hb]
    exact (hdep.weaken _).update fun _ hn => (by cases hn)

theorem attended_closes (hv : d.view.Coherent) (h : Attended (some sid) d.view.tenant)
    (hs : d.session sid = some s) (hc : Closes env sys d sid s d') :
    Attended none d'.view.tenant := by
  cases hc with
  | @kill c hst hw =>
    have ha := h.update (u := s.tenant) fun _ hn => absurd (hw.symm.trans hn) (by simp)
    rwa [← view_tenant hs, Function.update_eq_self] at ha
  | @startClosing i b argv pid hst hw hi hb hcc hp =>
    have ho : d.owner i = some sid := (hv.owner_iff i sid).2 ⟨s.tenant, view_tenant hs, hi⟩
    rw [view_startClosing hs hi ho]
    exact h.update fun hn => (by cases hn)
  | leave _ hl => exact attended_leaves h hs hl

theorem attended_connects {noWait : Bool} (h : Attended none d.view.tenant)
    (hs : d.session sid = some s) (hc : Connects env sys d sid s noWait d') :
    Attended none d'.view.tenant := by
  have hw : Attended none (d.enqueue sid).view.tenant := by
    rw [view_enqueue hs]
    exact (h.weaken _).update fun hn => (by cases hn)
  cases hc with
  | @grant i b argv pid hav hbs _ hp =>
    rw [view_grant hs (lt_of_spec d i hbs)]
    exact (h.weaken _).update fun _ hn => (by cases hn)
  | wait => exact hw
  | @turnAway as d' _ _ hl =>
    have hes := enqueue_session_self hs
    exact attended_leaves (d := (d.enqueue sid).act as) (hw.weaken _) hes hl

theorem attended_introduce (h : Attended none d.view.tenant) (hs : d.session sid = some s)
    (pkt : Packet) (r : Proto.Request) : Attended none (d.introduce sid pkt r).view.tenant := by
  rw [view_introduce hs]
  exact (h.weaken _).update fun hst => h sid s.tenant (by simp) (view_tenant hs) hst

structure Settled (d : Daemon) : Prop where
  coherent : d.view.Coherent
  attended : Attended none d.view.tenant

theorem settled_receive {pkt : Packet} (h : Settled d) (hs : d.session sid = some s) :
    Settled (d.receive sid pkt) := by
  refine ⟨?_, ?_⟩
  · rw [view_receive hs]
    exact h.coherent
  · rw [view_receive hs]
    exact h.attended

end Attention

/-- The condition under which a `connect` request cannot confuse the tenancies:
the session has no board, and if it waits, the request has to wait again. -/
def Disciplined (d : Daemon) (e : Event) : Prop :=
  ∀ x ∈ d.request? e, x.2.2.cmd = Proto.connect → ∀ s ∈ d.session x.1, s.board = none ∧
    (s.status = .awaitingBoard → d.findAvailableBoard (x.2.2.name s.usernameCred) = none)

instance (d : Daemon) (e : Event) : Decidable (d.Disciplined e) :=
  inferInstanceAs (Decidable (∀ x ∈ d.request? e, _ → ∀ s ∈ d.session x.1, _ ∧ _))

theorem leaves_session_self (hl : Leaves env sys d sid d') : d'.session sid = none := by
  cases hl with
  | idle =>
    rw [exitIfIdle_eq_silent]
    exact departed_session.trans (if_pos rfl)
  | @handOver v i t b argv pid _ ht =>
    have hne : sid ≠ v := by
      intro he
      rw [departed_session, if_pos he.symm] at ht
      cases ht
    rw [exitIfIdle_eq_silent]
    change (((d.departed sid).dequeue v).grant v i t b argv pid sys.now).session sid = none
    rw [grant_session, if_neg hne]
    exact departed_session.trans (if_pos rfl)

/-- A setup message without descriptors closes the session twice, which only
returns if the first close sent a signal. -/
theorem noFds_kills {t : Session} {d₁ : Daemon} (h : Settled d) (hs : d.session sid = some t)
    (hc : Closes env sys d sid t d₁) (h₂ : Session.closeSession env sys d₁ sid = .returned d') :
    ∃ c, t.status = .hasBoard ∧ t.childWatcher = some c ∧
      d' = (d.act [.kill sid c.pid]).act [.kill sid c.pid] := by
  cases hc with
  | @kill c hst hw =>
    obtain ⟨u, hu, hcase⟩ := closeSession_returned h₂
    rw [session_act, hs, Option.some.injEq] at hu
    subst hu
    rcases hcase with ⟨c', _, hc', rfl⟩ | ⟨_, _, _, _, _, hn, _⟩ | ⟨hg, _⟩
    · rw [hw, Option.some.injEq] at hc'
      subst hc'
      exact ⟨c, hst, hw, rfl⟩
    · rw [hw] at hn
      cases hn
    · rw [hw] at hg
      cases (hg hst).1
  | startClosing hst hw => exact absurd hw (h.attended sid t.tenant (by simp) (view_tenant hs) hst)
  | leave _ hl =>
    obtain ⟨u, hu, _⟩ := closeSession_returned h₂
    rw [leaves_session_self hl] at hu
    cases hu

end Daemon

/-- The session whose client has closed its end, or whose receive call fails. -/
def Event.hangUp? : Event → Option ℕ
  | .clientData sid recv _ => if recvEnds recv then some sid else none
  | _ => none

namespace Daemon

variable {env : Env} {sys : Sys} {d d' : Daemon} {sid k i j : ℕ} {s : Session} {e : Event}
  {pid : Pid} {argv : List Bytes} (setup : ℕ → Tenant → Prop) (forced : List Process → ℕ → Prop)

theorem isSetupFor_of_request {pkt : Packet} {r : Proto.Request}
    (h : d.request? e = some (sid, pkt, r)) : e.IsSetupFor sid := by
  rw [Event.IsSetupFor, (of_request h).1, Option.map_some]

theorem view_reap {c : ChildWatcher} (hs : d.session sid = some s)
    (hc : s.childWatcher = some c) (hz : d.hasProcess c.pid .zombie = true) :
    Tenancy.Step setup forced d.view
      (Session.stopChildWatcher (d.moveProcess c.pid .zombie .reaped) sid).view := by
  simp only [hasProcess, List.any_eq_true, decide_eq_true_eq] at hz
  obtain ⟨z, hzm, hzp, hzs⟩ := hz
  rw [view_stopChildWatcher (d := d.moveProcess c.pid .zombie .reaped) hs, view_moveProcess]
  exact .reap (view_tenant hs) hc hzm hzp hzs

/-- The daemon refines the tenancies: a callback is a sequence of their steps. -/
theorem callback_path (h : Settled d) (hg : Disciplined d e)
    (hset : ∀ sid s name, e.IsSetupFor sid → d.session sid = some s →
      setup sid ⟨s.status, s.board, s.childWatcher, name⟩)
    (hfor : ∀ sid s, e.hangUp? = some sid ∨ e.IsSetupFor sid → d.session sid = some s →
      s.status = .closingBoard → forced d.processes sid)
    (hc : Callback env d e d') :
    Relation.ReflTransGen (Tenancy.Step setup forced) d.view d'.view := by
  have hrename : ∀ {sid s pkt r}, d.request? e = some (sid, pkt, r) → d.session sid = some s →
      Tenancy.Step setup forced d.view (d.introduce sid pkt r).view := by
    intro sid s pkt r hreq hs
    rw [view_introduce hs]
    exact .rename (view_tenant hs) (hset sid s _ (isSetupFor_of_request hreq) hs)
  cases hc with
  | accept =>
    have hn : d.session d.counter = none := by
      cases hs : d.session d.counter with
      | none => rfl
      | some s => exact absurd (h.coherent.tenant_lt _ _ (view_tenant hs)) (Nat.lt_irrefl _)
    rw [view_accept hn]
    exact .single .accept
  | @hangUp sid recv sys as s d' hr hs _ hf hcl =>
    have hv := view_hangUp as hs
    have hsh := session_hangUp_self as hs
    rw [← hv]
    refine closes_path (hv ▸ h.coherent) hsh ?_ hf hcl
    exact fun hst => Or.inr (hfor sid s (Or.inl (if_pos hr)) hs hst)
  | ignore _ hs =>
    rw [view_receive hs]
  | @noFds sid pkt sys s t d₁ d' _ hs _ ht hcl h₂ =>
    obtain ⟨c, _, _, rfl⟩ := noFds_kills (settled_receive h hs) ht hcl h₂
    rw [view_act, view_act, view_receive hs]
  | @connect sid pkt sys r s d' hreq hs hf hcmd hcon =>
    obtain ⟨hb, hq⟩ := hg _ hreq hcmd _ hs
    have hstep := hrename hreq hs
    refine .trans (.single hstep) (connects_path (h.coherent.step hstep)
      (session_introduce_self pkt r hs) ?_ hb hq hf hcon)
    exact hset sid s _ (isSetupFor_of_request hreq) hs
  | @listSessions sid pkt sys r as s d' hreq hs hf _ hcl =>
    have hstep := hrename hreq hs
    refine .trans (.single hstep) (closes_path (d := (d.introduce sid pkt r).act as)
      (h.coherent.step hstep) (session_introduce_self pkt r hs) ?_ hf hcl)
    exact fun hst => Or.inr (hfor sid s (Or.inr (isSetupFor_of_request hreq)) hs hst)
  | otherCommand hreq hs => exact .single (hrename hreq hs)
  | processExits => exact .single .exits
  | reapUnwatched hn =>
    refine .single (.reapUnwatched ?_)
    intro k t c ht hc
    obtain ⟨s, hs, rfl⟩ := exists_of_view_tenant ht
    exact hn s (mem_of_session d k hs) c hc
  | @reap pid sys s t c d' hz hf hs hc hpid ht hcl =>
    subst hpid
    have hst : d.session s.id = some s := KeyedList.lookup_of_mem h.coherent.ids_nodup hs
    rw [hst, Option.some.injEq] at ht
    subst ht
    have hstep := view_reap setup forced hst hc hz
    exact .trans (.single hstep) (closes_path (h.coherent.step hstep)
      (session_stop_moveProcess hst) (fun _ => Or.inl rfl) hf hcl)
  | unrouted => exact .refl
  | attach _ _ hs => rw [view_addProxy hs]
  | proxied _ hs => rw [view_withProxies hs]
  | signal => exact .refl

theorem coherent_path {setup : ℕ → Tenant → Prop} {forced : List Process → ℕ → Prop}
    {v v' : Tenancy} (h : v.Coherent)
    (hp : Relation.ReflTransGen (Tenancy.Step setup forced) v v') : v'.Coherent := by
  induction hp with
  | refl => exact h
  | tail _ hs ih => exact ih.step hs

theorem invariant_path {setup : ℕ → Tenant → Prop} {forced : List Process → ℕ → Prop}
    {P : Tenancy → Prop} {v v' : Tenancy} (hc : v.Coherent) (h : P v)
    (hstep : ∀ u w, u.Coherent → P u → Tenancy.Step setup forced u w → P w)
    (hp : Relation.ReflTransGen (Tenancy.Step setup forced) v v') : P v' := by
  induction hp with
  | refl => exact h
  | tail hp hs ih => exact hstep _ _ (coherent_path hc hp) ih hs

theorem attended_callback (h : Settled d) (hc : Callback env d e d') :
    Tenancy.Attended none d'.view.tenant := by
  cases hc with
  | accept =>
    have hn : d.session d.counter = none := by
      cases hs : d.session d.counter with
      | none => rfl
      | some s => exact absurd (h.coherent.tenant_lt _ _ (view_tenant hs)) (Nat.lt_irrefl _)
    rw [view_accept hn]
    exact (h.attended.weaken _).update fun hst => (by cases hst)
  | @hangUp sid recv sys as s d' _ hs _ _ hcl =>
    have hv := view_hangUp as hs
    have hsh := session_hangUp_self as hs
    exact attended_closes (hv ▸ h.coherent) (hv ▸ h.attended.weaken _) hsh hcl
  | ignore _ hs =>
    rw [view_receive hs]
    exact h.attended
  | @noFds sid pkt sys s t d₁ d' _ hs _ ht hcl h₂ =>
    obtain ⟨c, _, _, rfl⟩ := noFds_kills (settled_receive h hs) ht hcl h₂
    rw [view_act, view_act, view_receive hs]
    exact h.attended
  | @connect sid pkt sys r s d' _ hs _ _ hcon =>
    exact attended_connects (attended_introduce h.attended hs pkt r)
      (session_introduce_self pkt r hs) hcon
  | @listSessions sid pkt sys r as s d' _ hs _ _ hcl =>
    have hv : ((d.introduce sid pkt r).act as).view.Coherent := by
      rw [view_act, view_introduce hs]
      exact h.coherent.rename (view_tenant hs) _
    exact attended_closes hv ((attended_introduce h.attended hs pkt r).weaken _)
      (session_introduce_self pkt r hs) hcl
  | otherCommand _ hs => exact attended_introduce h.attended hs _ _
  | processExits => exact h.attended
  | reapUnwatched => exact h.attended
  | @reap pid sys s t c d' hz hf hs hc hpid ht hcl =>
    subst hpid
    have hst : d.session s.id = some s := KeyedList.lookup_of_mem h.coherent.ids_nodup hs
    rw [hst, Option.some.injEq] at ht
    subst ht
    have hstep := view_reap (fun _ _ => True) (fun _ _ => True) hst hc hz
    refine attended_closes (h.coherent.step hstep) ?_ (session_stop_moveProcess hst) hcl
    rw [view_stopChildWatcher (d := d.moveProcess c.pid .zombie .reaped) hst]
    exact h.attended.unwatch _
  | unrouted => exact h.attended
  | attach _ _ hs =>
    rw [view_addProxy hs]
    exact h.attended
  | proxied _ hs =>
    rw [view_withProxies hs]
    exact h.attended
  | signal => exact h.attended

theorem settled_callback (h : Settled d) (hg : Disciplined d e) (hc : Callback env d e d') :
    Settled d' :=
  ⟨coherent_path h.coherent (callback_path (fun _ _ => True) (fun _ _ => True) h hg
    (fun _ _ _ _ _ => trivial) (fun _ _ _ _ _ => trivial) hc), attended_callback h hc⟩

theorem settled_initial (bs : List BoardSpec) (fs : List ProxyFactory) (sd : Bool) :
    Settled (initial bs fs sd) := by
  have ho : ∀ i k, (initial bs fs sd).owner i ≠ some k := by
    intro i k
    cases hb : bs[i]? <;> simp [owner, initial, hb]
  have ht : ∀ k t, (initial bs fs sd).view.tenant k ≠ some t := fun k t h => by cases h
  refine ⟨⟨⟨List.nodup_nil, ?_, ?_, ?_, ?_, ?_⟩, ⟨?_, ?_, ?_, ?_, ?_, ?_⟩⟩, ?_⟩
  · exact fun k hk => by cases hk
  · exact fun k t h => absurd h (ht k t)
  · intro i k
    refine iff_of_false (ho i k) ?_
    rintro ⟨t, h, _⟩
    exact ht k t h
  · exact fun k t h => absurd h (ht k t)
  · exact fun k hk => by cases hk
  · exact fun p hp => by cases hp
  · exact fun p hp => by cases hp
  · exact fun p hp => by cases hp
  · exact fun p hp => by cases hp
  · exact fun k t c h => absurd h (ht k t)
  · exact fun k t i h => absurd h (ht k t)
  · exact fun k t _ h => absurd h (ht k t)

end Daemon
end BoardProxy
