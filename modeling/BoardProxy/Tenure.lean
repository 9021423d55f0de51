import BoardProxy.Ownership

/-!
# The end of a tenancy

A board is given back only by the callback that ends its session, and that
callback is the end of the client connection or the end of the watched child.
The first kind may come while the close command runs; without it, a board that
is given back has no running process left.
-/

namespace BoardProxy
namespace Tenancy

variable {v v' : Tenancy} {S : ℕ → Prop} {sid k i : ℕ} {t : Tenant}

def Stopped (ps : List Process) (k : ℕ) : Prop := ∀ p ∈ ps, p.session = k → p.state ≠ .running

instance (ps : List Process) (k : ℕ) : Decidable (Stopped ps k) :=
  inferInstanceAs (Decidable (∀ p ∈ ps, _ → _))

def Accounted (v : Tenancy) : Prop :=
  ∀ p ∈ v.processes, p.state = .running → ∃ t, v.tenant p.session = some t

theorem Coherent.stopped_of_mayLeave (h : Coherent v) (ht : v.tenant sid = some t)
    (hm : MayLeave Stopped v sid t) : Stopped v.processes sid := by
  intro p hp hs hr
  have hnr : p.state ≠ .reaped := by
    rw [hr]
    decide
  obtain ⟨hst, _, hw⟩ := h.live p hp hnr t (hs ▸ ht)
  cases hk : p.kind with
  | command =>
    rw [hk] at hst
    rw [(hm.command hst).1] at hw
    cases hw
  | closeCommand =>
    rw [hk] at hst
    rcases hm.closing hst with hn | hn
    · rw [hn] at hw
      cases hw
    · exact hn p hp hs hr

namespace Accounted

theorem update (h : Accounted v) (u : Tenant) :
    Accounted { v with tenant := Function.update v.tenant sid (some u) } :=
  fun p hp hr => exists_update u (h p hp hr)

theorem start {kind : ProcessKind} {pid : Pid} {argv : List Bytes} {stdio : Option (ℤ × ℤ × ℤ)}
    (h : Accounted v) : Accounted (v.start sid i t kind pid argv stdio) := by
  intro p hp hr
  rcases List.mem_append.1 hp with hp | hp
  · exact exists_update _ (h p hp hr)
  · rw [List.mem_singleton.1 hp]
    exact ⟨_, Function.update_self ..⟩

theorem leave (h : Accounted v) (hn : Stopped v.processes sid) : Accounted (v.leave sid t) := by
  intro p hp hr
  have hs : p.session ≠ sid := fun hs => hn p hp hs hr
  obtain ⟨u, hu⟩ := h p hp hr
  exact ⟨u, by simp [Tenancy.leave, hs, hu]⟩

theorem move {pid : Pid} {a b : ProcessState} (h : Accounted v) (hb : b ≠ .running) :
    Accounted (v.move pid a b) := by
  intro p hp hr
  obtain ⟨q, hq, rfl, _, _, hs, _⟩ := Coherent.mem_move hp
  rw [hs]
  refine h q hq ?_
  by_cases hc : q.pid = pid ∧ q.state = a
  · simp only [Process.moved, hc, and_self, ↓reduceIte] at hr
    exact absurd hr hb
  · simpa [Process.moved, hc] using hr

theorem step {setup : ℕ → Tenant → Prop} (hc : Coherent v) (h : Accounted v)
    (hs : Step setup Stopped v v') : Accounted v' := by
  cases hs with
  | accept => exact h.update _
  | rename => exact h.update _
  | wait => exact h.update _
  | grant => exact h.start
  | close => exact h.start
  | leave ht hm => exact h.leave (hc.stopped_of_mayLeave ht hm)
  | @handOver sid k _ t _ _ _ _ _ _ ht hm =>
    have hl : Accounted ((v.leave sid t).dequeue k) :=
      h.leave (t := t) (hc.stopped_of_mayLeave ht hm)
    exact hl.start
  | exits => exact h.move (by decide)
  | reapUnwatched => exact h.move (by decide)
  | reap => exact (h.move (by decide)).update _

theorem owner_eq (hc : Coherent v) (h : Accounted v) {p : Process} (hp : p ∈ v.processes)
    (hr : p.state = .running) : v.owner p.board = some p.session := by
  obtain ⟨t, ht⟩ := h p hp hr
  have hnr : p.state ≠ .reaped := by
    rw [hr]
    decide
  exact (hc.owner_iff _ _).2 ⟨t, ht, (hc.live p hp hnr t ht).2.1⟩

end Accounted

theorem Step.keeps_board {forced : List Process → ℕ → Prop} (hc : Coherent v)
    (hs : Step (Once S) forced v v') (hlt : k < v.counter)
    (h : ∀ t, v.tenant k = some t → t.board = some i) :
    k < v'.counter ∧ ∀ t, v'.tenant k = some t → t.board = some i := by
  have hamend : ∀ {sid t u}, v.tenant sid = some t → u.board = t.board →
      ∀ w, Function.update v.tenant sid (some u) k = some w → w.board = some i := by
    intro sid t u ht hu w hw
    rcases update_eq_some hw with ⟨rfl, rfl⟩ | ⟨_, hw⟩
    · exact hu.trans (h t ht)
    · exact h w hw
  have hnone : ∀ {sid t u}, v.tenant sid = some t → t.board = none →
      ∀ w, Function.update v.tenant sid (some u) k = some w → w.board = some i := by
    intro sid t u ht hb w hw
    rcases update_eq_some hw with ⟨rfl, _⟩ | ⟨_, hw⟩
    · exact absurd ((h t ht).symm.trans hb) (by simp)
    · exact h w hw
  have hleave : ∀ {sid t} w, (v.leave sid t).tenant k = some w → w.board = some i := by
    intro sid t w hw
    simp only [Tenancy.leave, Function.update_apply] at hw
    by_cases hk : k = sid
    · rw [if_pos hk] at hw
      cases hw
    · rw [if_neg hk] at hw
      exact h w hw
  cases hs with
  | accept =>
    refine ⟨Nat.lt_succ_of_lt hlt, fun w hw => ?_⟩
    rcases update_eq_some hw with ⟨hk, _⟩ | ⟨_, hw⟩
    · exact absurd hk (Nat.ne_of_lt hlt)
    · exact h w hw
  | rename ht => exact ⟨hlt, hamend ht rfl⟩
  | wait ht _ hb => exact ⟨hlt, hnone ht hb⟩
  | grant ht _ hb => exact ⟨hlt, hnone ht hb⟩
  | close ht _ _ hb => exact ⟨hlt, hamend ht hb.symm⟩
  | leave => exact ⟨hlt, hleave⟩
  | @handOver sid j _ t u _ _ _ pre post ht hm hq hj =>
    refine ⟨hlt, fun w hw => ?_⟩
    rcases update_eq_some hw with ⟨rfl, _⟩ | ⟨_, hw⟩
    · have hb := (hc.leave ht fun hst => (hm.command hst).1).board_of_queue hq hj
      exact absurd ((hleave u hj).symm.trans hb) (by simp)
    · exact hleave (t := t) w hw
  | exits => exact ⟨hlt, h⟩
  | reapUnwatched => exact ⟨hlt, h⟩
  | reap ht => exact ⟨hlt, hamend ht rfl⟩

end Tenancy

namespace Daemon

variable {env : Env} {sys : Sys} {d d' : Daemon} {e : Event} {es : List Event} {sid k i : ℕ}
  {s t : Session}

theorem gone_modifySession {f : Session → Session} (hg : (d.modifySession sid f).session k = none)
    (hf : ∀ s, (f s).id = s.id) : d.session k = none := by
  rw [session_modifySession d sid k f hf] at hg
  by_cases hk : k = sid
  · simpa [hk] using hg
  · simpa [hk] using hg

theorem grant_eq_none {b : BoardSpec} {argv : List Bytes} {pid : Pid} {now : ℤ} :
    (d.grant sid i s b argv pid now).session k = none ↔ d.session k = none := by
  rw [grant_session]
  by_cases hk : k = sid <;> simp [hk]

theorem leaves_gone (hl : Leaves env sys d sid d') (hg : d'.session k = none)
    (hs : d.session k = some s) : k = sid := by
  by_contra hk
  have hdep : (d.departed sid).session k = some s := by
    rw [departed_session, if_neg hk, hs]
  cases hl with
  | idle =>
    rw [exitIfIdle_eq_silent] at hg
    exact absurd (hg.symm.trans hdep) (by simp)
  | handOver =>
    rw [exitIfIdle_eq_silent] at hg
    have hn := grant_eq_none.1 hg
    exact absurd (hn.symm.trans hdep) (by simp)

theorem closes_gone (hc : Closes env sys d sid t d') (hg : d'.session k = none)
    (hs : d.session k = some s) : k = sid ∧ Leaves env sys d sid d' ∧
      (t.status = .hasBoard → t.childWatcher = none ∧
        ∃ i b, t.board = some i ∧ d.spec i = some b ∧ b.closeCommand = []) := by
  cases hc with
  | kill => exact absurd (hg.symm.trans hs) (by simp)
  | startClosing =>
    rw [startClosing_session] at hg
    by_cases hk : k = sid
    · rw [if_pos hk, ← hk, hs] at hg
      cases hg
    · rw [if_neg hk, hs] at hg
      cases hg
  | leave hm hl => exact ⟨leaves_gone hl hg hs, hl, hm⟩

theorem connects_gone {noWait : Bool} (hc : Connects env sys d sid t noWait d')
    (hg : d'.session k = none) (hs : d.session k = some s) : k = sid := by
  have henq : ∀ as, ((d.enqueue sid).act as).session k = none → False := by
    intro as hn
    rw [session_act, enqueue_session] at hn
    by_cases hk : k = sid
    · rw [if_pos hk, ← hk, hs] at hn
      cases hn
    · rw [if_neg hk, hs] at hn
      cases hn
  cases hc with
  | grant => exact absurd ((grant_eq_none.1 hg).symm.trans hs) (by simp)
  | @wait as => exact (henq as hg).elim
  | @turnAway as d' _ _ hl =>
    obtain ⟨u, hu⟩ := Option.ne_none_iff_exists'.1 (henq as)
    exact leaves_gone hl hg hu

def CloseDone (d : Daemon) (s : Session) : Prop :=
  s.status = .hasBoard → s.childWatcher = none ∧
    ∃ i b, s.board = some i ∧ d.spec i = some b ∧ b.closeCommand = []

/-- How the session `s` with number `k` ends: its client hangs up, or its child
is reaped. `d₁` is the state in which `Daemon::close_session` is called. -/
inductive Departs (env : Env) (d : Daemon) (e : Event) (k : ℕ) (s : Session) (d' : Daemon) : Prop
  | hangUp {sys : Sys} {d₁ : Daemon} {s₁ : Session} :
      e.hangUp? = some k → d₁.view = d.view → d₁.session k = some s₁ → CloseDone d₁ s₁ →
      forkFresh sys d₁.processes = true → Leaves env sys d₁ k d' → Departs env d e k s d'
  | reap {sys : Sys} {d₁ : Daemon} {s₁ : Session} {c : ChildWatcher} {z : Process} :
      s.childWatcher = some c → z ∈ d.processes → z.pid = c.pid → z.state = .zombie →
      d₁.view = (d.view.move c.pid .zombie .reaped).unwatch k s.tenant →
      d₁.session k = some s₁ → CloseDone d₁ s₁ → forkFresh sys d₁.processes = true →
      Leaves env sys d₁ k d' → Departs env d e k s d'

theorem departs_of_next (h : Orderly es d) (ho : AtMostOneSetup (es ++ [e])) (hn : d.Next env e d')
    (hs : d.session k = some s) (hb : s.board ≠ none) (hg : d'.session k = none) :
    Departs env d e k s d' := by
  -- a session that sends a setup message has no board yet
  have hset : ∀ {sid t}, e.IsSetupFor sid → d.session sid = some t → k ≠ sid := by
    intro sid t he ht hk
    subst hk
    rw [hs, Option.some.injEq] at ht
    subst ht
    exact hb ((h.settled.coherent.board_none k _ (view_tenant hs)).2 (Or.inl (h.created ho he hs)))
  have hne : ¬d.session k = none := by simp [hs]
  cases callback_of_next hn with
  | accept =>
    rw [onClientConnecting, session_addSession, hs, Option.some_or] at hg
    cases hg
  | @hangUp sid recv sys as t _ hr ht _ hf hcl =>
    obtain ⟨u, hu⟩ := Option.ne_none_iff_exists'.1 (fun hn =>
      hne (gone_modifySession (d := d.act as) (f := Session.hungUp) hn fun _ => rfl))
    obtain ⟨rfl, hl, hm⟩ := closes_gone hcl hg hu
    have hsh := session_hangUp_self as ht
    exact .hangUp (if_pos hr) (view_hangUp as ht) hsh hm hf hl
  | ignore => exact absurd (gone_modifySession hg fun _ => rfl) hne
  | noFds _ ht _ hrt hcl h₂ =>
    obtain ⟨c, _, _, rfl⟩ := noFds_kills (settled_receive h.settled ht) hrt hcl h₂
    exact absurd (gone_modifySession (d := d.act _) hg fun _ => rfl) hne
  | @connect sid pkt sys r t _ hreq ht hf hcmd hcon =>
    have hk := hset (isSetupFor_of_request hreq) ht
    refine absurd (connects_gone hcon hg (s := s) ?_) hk
    rw [session_introduce, if_neg hk, hs]
  | @listSessions sid pkt sys r as t _ hreq ht hf _ hcl =>
    have hk := hset (isSetupFor_of_request hreq) ht
    refine absurd (closes_gone hcl hg (s := s) ?_).1 hk
    rw [session_act, session_introduce, if_neg hk, hs]
  | @otherCommand sid pkt sys r t hreq ht =>
    have hk := hset (isSetupFor_of_request hreq) ht
    rw [session_introduce, if_neg hk] at hg
    exact absurd hg hne
  | processExits => exact absurd hg hne
  | reapUnwatched => exact absurd hg hne
  | @reap pid sys t t' c _ hz hf ht hc hpid ht' hcl =>
    subst hpid
    have htt := h.settled.session_of_mem ht
    rw [htt, Option.some.injEq] at ht'
    subst ht'
    obtain ⟨u, hu⟩ : ∃ u, (Session.stopChildWatcher (d.moveProcess c.pid .zombie .reaped)
        t.id).session k = some u := Option.ne_none_iff_exists'.1 (fun hn =>
      hne (gone_modifySession (d := d.moveProcess c.pid .zombie .reaped) hn fun _ => rfl))
    obtain ⟨rfl, hl, hm⟩ := closes_gone hcl hg hu
    rw [htt, Option.some.injEq] at hs
    subst hs
    simp only [hasProcess, List.any_eq_true, decide_eq_true_eq] at hz
    obtain ⟨z, hzm, hzp, hzs⟩ := hz
    exact .reap hc hzm hzp hzs
      (view_stopChildWatcher (d := d.moveProcess c.pid .zombie .reaped) htt)
      (session_stop_moveProcess htt) hm hf hl
  | unrouted => exact absurd hg hne
  | attach => exact absurd (gone_modifySession hg fun _ => rfl) hne
  | proxied => exact absurd (gone_modifySession hg fun _ => rfl) hne
  | signal => exact absurd hg hne

theorem keeps_board_path {S : ℕ → Prop} {forced : List Process → ℕ → Prop} {v v' : Tenancy}
    (hc : v.Coherent) (hp : Relation.ReflTransGen (Tenancy.Step (Tenancy.Once S) forced) v v')
    {t : Tenant} (ht : v.tenant k = some t) (hb : t.board = some i) :
    ∀ u, v'.tenant k = some u → u.board = some i := by
  have hstart : k < v.counter ∧ ∀ u, v.tenant k = some u → u.board = some i := by
    refine ⟨hc.tenant_lt k t ht, fun u hu => ?_⟩
    rw [ht, Option.some.injEq] at hu
    exact hu ▸ hb
  exact (invariant_path (P := fun v => k < v.counter ∧ ∀ u, v.tenant k = some u → u.board = some i)
    hc hstart (fun _ _ hu hk hs => hs.keeps_board hu hk.1 hk.2) hp).2

theorem gone_of_released (h : Orderly es d) (ho : AtMostOneSetup (es ++ [e]))
    (hn : d.Next env e d') (hown : d.owner i = some k) (hrel : d'.owner i ≠ some k) :
    d'.session k = none := by
  obtain ⟨t, ht, hb⟩ := (h.settled.coherent.owner_iff i k).1 hown
  have hkeep := keeps_board_path h.settled.coherent
    (h.path ho hn (fun _ _ => True) fun _ _ _ _ _ => trivial) ht hb
  cases hs : d'.session k with
  | none => rfl
  | some u =>
    refine absurd ?_ hrel
    exact ((h.step ho hn).settled.coherent.owner_iff i k).2
      ⟨u.tenant, view_tenant hs, hkeep _ (view_tenant hs)⟩

/-- No client hangs up while the close command of its session runs. -/
def Patient (d : Daemon) (e : Event) : Prop :=
  ∀ k ∈ e.hangUp?, ∀ s ∈ d.session k, s.status = .closingBoard → Tenancy.Stopped d.processes k

instance (d : Daemon) (e : Event) : Decidable (d.Patient e) :=
  inferInstanceAs (Decidable (∀ k ∈ e.hangUp?, ∀ s ∈ d.session k, _ → _))

def PatientNext (env : Env) (d : Daemon) (e : Event) (d' : Daemon) : Prop :=
  d.Next env e d' ∧ d.Patient e

theorem accounted_path {setup : ℕ → Tenant → Prop} {v v' : Tenancy} (hc : v.Coherent)
    (h : v.Accounted) (hp : Relation.ReflTransGen (Tenancy.Step setup Tenancy.Stopped) v v') :
    v'.Accounted :=
  invariant_path (P := Tenancy.Accounted) hc h (fun _ _ hu ha hs => ha.step hu hs) hp

theorem accounted_run {bs : List BoardSpec} {fs : List ProxyFactory} {sd : Bool}
    (h : Run (PatientNext env) (initial bs fs sd) es d) (ho : AtMostOneSetup es) :
    d.view.Accounted := by
  refine h.history (fun es d => AtMostOneSetup es → d.view.Accounted) ?_ ?_ ho
  · exact fun _ p hp => (by cases hp)
  · intro es d e d' hr ih hn ho
    have hor := orderly_run (hr.mono fun _ _ _ hn => hn.1) ho.of_append
    exact accounted_path hor.settled.coherent (ih ho.of_append)
      (hor.path ho hn.1 Tenancy.Stopped fun k s he hs hst => hn.2 k he s hs hst)

theorem stopped_of_departs (h : Settled d) (hs : d.session k = some s) (hp : d.Patient e)
    (hd : Departs env d e k s d') : Tenancy.Stopped d.processes k := by
  cases hd with
  | @hangUp sys d₁ s₁ he hv hs₁ hm _ _ =>
    have ht : s₁.tenant = s.tenant := by
      have h₁ := view_tenant hs₁
      rw [hv, view_tenant hs, Option.some.injEq] at h₁
      exact h₁.symm
    have hproc : d₁.processes = d.processes := congrArg Tenancy.processes hv
    have hstop := (hv ▸ h.coherent : d₁.view.Coherent).stopped_of_mayLeave (view_tenant hs₁)
      ⟨hm, fun hst => Or.inr ?_⟩
    · exact hproc ▸ hstop
    · have hst' : s.status = .closingBoard := (congrArg Tenant.status ht).symm.trans hst
      exact hv ▸ hp k he s hs hst'
  | @reap sys d₁ s₁ c z hc hz hzp hzs =>
    intro p hpm hps hr
    have hnr : p.state ≠ .reaped := by
      rw [hr]
      decide
    have hw := (h.coherent.live p hpm hnr s.tenant (hps ▸ view_tenant hs)).2.2
    have hpid : p.pid = z.pid := by
      rw [show s.tenant.watch = some c from hc, Option.some.injEq] at hw
      exact (congrArg ChildWatcher.pid hw).symm.trans hzp.symm
    have hpz := h.coherent.pids p hpm z hz hnr (by rw [hzs]; decide) hpid
    rw [hpz, hzs] at hr
    cases hr

theorem closed_of_departs (h : Settled d) (hs : d.session k = some s) (hb : s.board = some i)
    (hd : Departs env d e k s d') {b : BoardSpec} (hbs : d.spec i = some b)
    (hcc : b.closeCommand ≠ []) :
    ∃ p ∈ d.processes, p.kind = .closeCommand ∧ p.session = k ∧ p.board = i := by
  -- the status and the board are the same in `d` and in the state of the call
  have hsame : ∃ d₁ s₁, CloseDone d₁ s₁ ∧ s₁.status = s.status ∧ s₁.board = s.board ∧
      d₁.view.spec = d.view.spec := by
    cases hd with
    | @hangUp sys d₁ s₁ _ hv hs₁ hm =>
      have ht := view_tenant hs₁
      rw [hv, view_tenant hs, Option.some.injEq] at ht
      exact ⟨d₁, s₁, hm, (congrArg Tenant.status ht).symm, (congrArg Tenant.board ht).symm,
        congrArg Tenancy.spec hv⟩
    | @reap sys d₁ s₁ c z _ _ _ _ hv hs₁ hm =>
      have ht := view_tenant hs₁
      rw [hv, Tenancy.unwatch_self, Option.some.injEq] at ht
      have hspec : d₁.view.spec = d.view.spec := by
        rw [hv]
        rfl
      exact ⟨d₁, s₁, hm, (congrArg Tenant.status ht).symm, (congrArg Tenant.board ht).symm, hspec⟩
  obtain ⟨d₁, s₁, hm, hst, hbd, hspec⟩ := hsame
  have hclosing : s.status = .closingBoard := by
    cases hss : s.status with
    | created =>
      have hn := (h.coherent.board_none k s.tenant (view_tenant hs)).2 (Or.inl hss)
      exact absurd (hb.symm.trans hn) (by simp)
    | awaitingBoard =>
      have hn := (h.coherent.board_none k s.tenant (view_tenant hs)).2 (Or.inr hss)
      exact absurd (hb.symm.trans hn) (by simp)
    | hasBoard =>
      obtain ⟨_, j, c, hj, hc, hce⟩ := hm (hst.trans hss)
      rw [hbd, hb, Option.some.injEq] at hj
      subst hj
      have hcs : d₁.view.spec i = some c := hc
      rw [hspec] at hcs
      rw [show d.view.spec i = some b from hbs, Option.some.injEq] at hcs
      exact absurd (hcs ▸ hce) hcc
    | closingBoard => rfl
  exact (h.coherent.started k s.tenant i (view_tenant hs) hb).2 hclosing

/-- While no client hangs up during a close command, a board is given back only
after both commands have ended, and a process runs only on its owner's board. -/
theorem patient_run_tenure {bs : List BoardSpec} {fs : List ProxyFactory} {sd : Bool}
    (h : Run (PatientNext env) (initial bs fs sd) es d) (hn : PatientNext env d e d')
    (ho : AtMostOneSetup (es ++ [e])) :
    (∀ i k, d.owner i = some k → d'.owner i ≠ some k →
      (∃ p ∈ d.processes, p.kind = .command ∧ p.session = k ∧ p.board = i) ∧
      (∀ b, d.spec i = some b → b.closeCommand ≠ [] →
        ∃ p ∈ d.processes, p.kind = .closeCommand ∧ p.session = k ∧ p.board = i) ∧
      ∀ p ∈ d.processes, p.session = k → p.state ≠ .running) ∧
    (∀ i k, d'.owner i = some k → ∀ p ∈ d'.processes, p.board = i → p.session ≠ k →
      p.state ≠ .running) := by
  have hor := orderly_run (h.mono fun _ _ _ hn => hn.1) ho.of_append
  have hc := hor.settled.coherent
  refine ⟨?_, ?_⟩
  · intro i k hown hrel
    obtain ⟨t, ht, hb⟩ := (hc.owner_iff i k).1 hown
    obtain ⟨s, hs, rfl⟩ := exists_of_view_tenant ht
    have hgone := gone_of_released hor ho hn.1 hown hrel
    have hbs : s.board ≠ none := by
      rw [show s.board = some i from hb]
      exact Option.some_ne_none i
    have hd := departs_of_next hor ho hn.1 hs hbs hgone
    refine ⟨(hc.started k s.tenant i ht hb).1, ?_, stopped_of_departs hor.settled hs hn.2 hd⟩
    exact fun b hbs hcc => closed_of_departs hor.settled hs hb hd hbs hcc
  · intro i k hown p hp hpb hpk hr
    have hsnoc := Run.snoc h hn
    have hc' := (hor.step ho hn.1).settled.coherent
    have how := Tenancy.Accounted.owner_eq hc' (accounted_run hsnoc ho) hp hr
    rw [hpb, show d'.view.owner i = some k from hown, Option.some.injEq] at how
    exact hpk how.symm

/-- The command ends, the close command starts and ends, and the next user gets the board. -/
theorem patient_run_tenure_two_clients : ∃ d d',
    Run (PatientNext Sample.env) (initial [Sample.board (ascii "off") []] [] false)
      [Sample.accept, Sample.connect 0 7 100, Sample.accept, Sample.connect 1 8 101,
        Sample.eof 0 101, .processExits 100, .childReaped 100 (Sample.sys 101),
        .processExits 101] d ∧
    PatientNext Sample.env d (.childReaped 101 (Sample.sys 102)) d' ∧
    (d.owner 0, d'.owner 0) = (some 0, some 1) ∧
    ∀ p ∈ d.processes, p.session = 0 → p.state ≠ .running := by
  obtain ⟨d, hr, hd⟩ : ∃ d, Run (PatientNext Sample.env)
      (initial [Sample.board (ascii "off") []] [] false)
      [Sample.accept, Sample.connect 0 7 100, Sample.accept, Sample.connect 1 8 101,
        Sample.eof 0 101, .processExits 100, .childReaped 100 (Sample.sys 101),
        .processExits 101] d ∧
      (d.owner 0, (d.next Sample.env (.childReaped 101 (Sample.sys 102))).map (·.owner 0),
        decide (d.Patient (.childReaped 101 (Sample.sys 102)))) = (some 0, some (some 1), true) :=
    exists_guarded_run (fun d : Daemon => (d.owner 0,
      (d.next Sample.env (.childReaped 101 (Sample.sys 102))).map (·.owner 0),
      decide (d.Patient (.childReaped 101 (Sample.sys 102))))) (by decide +kernel)
  simp only [Prod.mk.injEq, Option.map_eq_some_iff, decide_eq_true_eq] at hd
  obtain ⟨h0, ⟨d', hd', h1⟩, hp⟩ := hd
  refine ⟨d, d', hr, ⟨hd', hp⟩, by rw [h0, h1], ?_⟩
  exact ((patient_run_tenure hr ⟨hd', hp⟩ (by decide +kernel)).1 0 0 h0 (by simp [h1])).2.2

/-- The client hangs up while the close command runs, and the board is free. -/
theorem hang_up_frees_board_during_close : ∃ d,
    Run (Next Sample.env) (initial [Sample.board (ascii "off") []] [] false)
      [Sample.accept, Sample.connect 0 7 100, .processExits 100, .childReaped 100 (Sample.sys 101),
        Sample.eof 0 102] d ∧
    (d.owner 0, d.processes.map fun p => (p.kind, p.board, p.state)) =
      (none, [(.command, 0, .reaped), (.closeCommand, 0, .running)]) :=
  exists_run (fun d : Daemon => (d.owner 0, d.processes.map fun p => (p.kind, p.board, p.state)))
    (by decide +kernel)

end Daemon
end BoardProxy
