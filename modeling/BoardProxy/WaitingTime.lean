import BoardProxy.ClientService
import BoardProxy.Drain
import BoardProxy.WaitQueue

/-!
# How long a user waits

While a user waits, the boards that this user could have are given only to those in front,
one place in the queue for each of them. Newcomers do not count, whatever they do. And if
the user stays while all others leave and the commands end, the user is served.
-/

namespace BoardProxy

namespace Tenancy

variable {v v' : Tenancy} {S T : ℕ → Prop} {forced : List Process → ℕ → Prop} {a : ℕ}

def starts (v : Tenancy) (name : Bytes) : ℕ :=
  v.processes.countP fun p =>
    decide (p.kind = .command) && (v.spec p.board).any fun b => decide (b.Eligible name)

theorem starts_move (v : Tenancy) (name : Bytes) (pid : Pid) (x y : ProcessState) :
    (v.move pid x y).starts name = v.starts name := by
  simp only [starts, move, List.countP_map]
  congr 1
  funext p
  obtain ⟨_, hk, _, hb⟩ := Process.moved_fields pid x y p
  rw [Function.comp_apply, hk, hb]

theorem starts_start (v : Tenancy) (name : Bytes) (sid i : ℕ) (t : Tenant) (kind : ProcessKind)
    (pid : Pid) (argv : List Bytes) (stdio : Option (ℤ × ℤ × ℤ)) :
    (v.start sid i t kind pid argv stdio).starts name = v.starts name ∨
      kind = .command ∧ (∃ b, v.spec i = some b ∧ b.Eligible name) ∧
        (v.start sid i t kind pid argv stdio).starts name = v.starts name + 1 := by
  simp only [starts, start, List.countP_append, List.countP_singleton]
  split_ifs with h
  · simp only [Bool.and_eq_true, decide_eq_true_eq, Option.any_eq_true] at h
    exact .inr ⟨h.1, h.2, rfl⟩
  · exact .inl rfl

theorem Step.starts {setup : ℕ → Tenant → Prop} (name : Bytes) (hc : Coherent v)
    (hs : Step setup forced v v') :
    v'.starts name = v.starts name ∨
      ∃ i k, (∃ b, v.spec i = some b ∧ b.Eligible name) ∧ v'.owner i = some k ∧
        v.owner i ≠ some k ∧ v'.starts name = v.starts name + 1 := by
  cases hs with
  | accept => exact .inl rfl
  | rename => exact .inl rfl
  | wait => exact .inl rfl
  | @grant sid i t pid argv stdio _ _ _ _ hf =>
    refine (v.starts_start name sid i t .command pid argv stdio).imp_right fun ⟨_, hm, hst⟩ => ?_
    refine ⟨i, sid, hm, Function.update_self .., ?_, hst⟩
    rw [hf.1]
    exact (Option.some_ne_none _).symm
  | @close sid i t pid argv =>
    refine (v.starts_start name sid i t .closeCommand pid argv none).imp_right fun ⟨hk, _⟩ => ?_
    cases hk
  | leave => exact .inl rfl
  | @handOver sid k i t u pid argv stdio pre post ht hm hq hk =>
    refine (((v.leave sid t).dequeue k).starts_start name k i u .command pid argv stdio).imp_right
      fun ⟨_, hmay, hst⟩ => ?_
    refine ⟨i, k, hmay, Function.update_self .., ?_, hst⟩
    have hkq : k ∈ (v.leave sid t).queue := hq ▸ List.mem_append_right _ List.mem_cons_self
    obtain ⟨w, hw, hst⟩ := hc.queued k (List.mem_of_mem_filter hkq)
    exact hc.not_owned hw ((hc.board_none k w hw).2 (.inr hst)) i
  | exits => exact .inl (starts_move ..)
  | reapUnwatched => exact .inl (starts_move ..)
  | @reap _ _ c => exact .inl (starts_move v name c.pid .zombie .reaped)

theorem idxOf_ticket (f : ℕ → Option Tenant) (q : List ℕ) (a : ℕ) :
    (q.map (ticket f)).idxOf (ticket f a) = q.idxOf a := by
  induction q with
  | nil => rfl
  | cons b q ih =>
    by_cases hb : b = a
    · rw [List.map_cons, List.idxOf_cons_eq _ (by rw [hb]), List.idxOf_cons_eq _ hb]
    · have ht : ticket f b ≠ ticket f a := fun he => hb (congrArg Prod.fst he)
      rw [List.map_cons, List.idxOf_cons_ne _ ht, List.idxOf_cons_ne _ hb, ih]

theorem Step.bypass (hc : Coherent v) (hl : Lined S v.tenant v.queue)
    (hw : Pool.WorkConserving (May v.spec) v.pool) (hs : Step (Once T) forced v v') (ha : ¬T a)
    (hin : a ∈ v'.queue) :
    v'.starts (ticket v.tenant a).2 + v'.queue.idxOf a ≤
      v.starts (ticket v.tenant a).2 + v.queue.idxOf a := by
  obtain ⟨hq, htick⟩ := hs.queue_back hc ha hin
  obtain ⟨got, hstep, hgot⟩ := pool_step hc hl hw hs
  have hline : ticket v.tenant a ∈ v.pool.line := List.mem_map_of_mem hq
  have hline' : ticket v.tenant a ∈ v'.pool.line := htick ▸ List.mem_map_of_mem hin
  have hnodup : v.pool.line.Nodup := by
    refine List.Nodup.map_on (fun x _ y _ he => ?_) hl.nodup
    exact congrArg Prod.fst he
  have hplace : v.pool.line.idxOf (ticket v.tenant a) = v.queue.idxOf a := idxOf_ticket ..
  have hplace' : v'.pool.line.idxOf (ticket v.tenant a) = v'.queue.idxOf a := by
    rw [← htick]
    exact idxOf_ticket ..
  rcases hs.starts (ticket v.tenant a).2 hc with hst | ⟨i, k, hm, ho, hne, hst⟩
  · have hle := Pool.place_le hnodup hline hline' hstep
    omega
  · obtain ⟨n, rfl⟩ := (hgot i k ho).resolve_left hne
    have hlt := Pool.place_lt hnodup hline hline' hw hstep hm
    omega

theorem bypass_path (hc : Coherent v) (hT : ∀ k, T k → S k) (hl : Lined S v.tenant v.queue)
    (hw : Pool.WorkConserving (May v.spec) v.pool)
    (hp : Relation.ReflTransGen (Step (Once T) forced) v v') (ha : ¬T a) (hin : a ∈ v'.queue) :
    v'.starts (ticket v.tenant a).2 + v'.queue.idxOf a ≤
      v.starts (ticket v.tenant a).2 + v.queue.idxOf a := by
  induction hp with
  | refl => exact Nat.le_refl _
  | @tail w x hp hs ih =>
    have hcw := Daemon.coherent_path hc hp
    obtain ⟨hspec, hww⟩ := workConserving_path hc hT hl hw hp
    obtain ⟨haw, _⟩ := hs.queue_back hcw ha hin
    rw [← hspec] at hww
    have hle := hs.bypass hcw (Daemon.lined_path hc hT hl hp) hww ha hin
    rw [(queue_back_path hc hp ha haw).2] at hle
    exact hle.trans (ih haw)

end Tenancy

namespace Daemon

open Session (Passes Changes)

variable {env : Env} {d d' : Daemon} {e : Event} {es es' : List Event} {k : ℕ} {s s' : Session}
  {bs : List BoardSpec} {fs : List ProxyFactory} {sd : Bool}

def starts (d : Daemon) (name : Bytes) : ℕ :=
  d.processes.countP fun p =>
    decide (p.kind = .command) && (d.spec p.board).any fun b => decide (b.Eligible name)

theorem bypass_of_next (h : Run (Next env) (initial bs fs sd) es d) (hn : d.Next env e d')
    (ho : AtMostOneSetup (es ++ [e])) (hk : k ∈ setUps es) (hs' : d'.session k = some s')
    (hin : k ∈ d'.waitQueue) :
    k ∈ d.waitQueue ∧ ∃ s, d.session k = some s ∧ s.getUsername = s'.getUsername ∧
      d'.starts s.getUsername + d'.waitQueue.idxOf k ≤
        d.starts s.getUsername + d.waitQueue.idxOf k := by
  have hor := orderly_run h ho.of_append
  have hT : ¬e.IsSetupFor k := fun he => ho.notMem he hk
  have hpath := hor.anyPath ho hn
  obtain ⟨hin₀, htick⟩ := Tenancy.queue_back_path hor.settled.coherent hpath hT hin
  obtain ⟨t, ht, _⟩ := hor.settled.coherent.queued k hin₀
  obtain ⟨s, hs, rfl⟩ := exists_of_view_tenant ht
  have hle := Tenancy.bypass_path hor.settled.coherent isSetupFor_subset hor.lined_append
    (workConserving_run h ho.of_append) hpath hT hin
  rw [Tenancy.ticket_of_tenant ht, Tenancy.ticket_of_tenant (view_tenant hs')] at htick
  rw [Tenancy.ticket_of_tenant ht] at hle
  exact ⟨hin₀, s, hs, (Prod.mk.inj htick).2.symm, hle⟩

/-- As long as a user waits, no more commands are started on the boards that this user could
have than there are users in front, whoever else comes in the meantime. -/
theorem bounded_bypass (h : Run (Next env) (initial bs fs sd) es d) (h' : Run (Next env) d es' d')
    (ho : AtMostOneSetup (es ++ es')) (hs : d.session k = some s) (hk : k ∈ d.waitQueue)
    (hk' : k ∈ d'.waitQueue) :
    d'.starts s.getUsername + d'.waitQueue.idxOf k ≤
      d.starts s.getUsername + d.waitQueue.idxOf k := by
  have hset : k ∈ setUps es := (queue_sublist_run h ho.of_append).subset hk
  refine (h'.history (fun es' d' => AtMostOneSetup (es ++ es') → k ∈ d'.waitQueue →
    (∃ s', d'.session k = some s' ∧ s'.getUsername = s.getUsername) ∧
    d'.starts s.getUsername + d'.waitQueue.idxOf k ≤
      d.starts s.getUsername + d.waitQueue.idxOf k) ?_ ?_ ho hk').2
  · exact fun _ _ => ⟨⟨s, hs, rfl⟩, Nat.le_refl _⟩
  · intro es' t e u hr ih hn ho hu
    rw [← List.append_assoc] at ho
    obtain ⟨s', hs', _⟩ := waiting_unserved ((h.append hr).snoc hn) ho hu
    have hset' : k ∈ setUps (es ++ es') := by
      rw [setUps_append]
      exact List.mem_append_left _ hset
    obtain ⟨ht, s₁, hs₁, hname, hle⟩ := bypass_of_next (h.append hr) hn ho hset' hs' hu
    obtain ⟨⟨s₂, hs₂, hname₂⟩, hle₂⟩ := ih ho.of_append ht
    rw [hs₁, Option.some.injEq] at hs₂
    subst hs₂
    rw [hname₂] at hname hle
    exact ⟨⟨s', hs', hname.symm⟩, hle.trans hle₂⟩

theorem bounded_bypass_third_client : ∃ d d' s,
    (Run (Next Sample.env) (initial [Sample.board [] []] [] false)
      [Sample.accept, Sample.connect 0 7 100, Sample.accept, Sample.connect 1 8 101, Sample.accept,
        Sample.connect 2 9 102, .processExits 100] d ∧
      d.Next Sample.env (.childReaped 100 (Sample.sys 101)) d' ∧ d.waitQueue = [1, 2] ∧
      d'.waitQueue = [2] ∧ d.session 2 = some s) ∧
    d'.starts s.getUsername + d'.waitQueue.idxOf 2 ≤
      d.starts s.getUsername + d.waitQueue.idxOf 2 := by
  obtain ⟨d, d', ⟨hr, hn⟩, hd, hd'⟩ : ∃ d d',
      (Run (Next Sample.env) (initial [Sample.board [] []] [] false)
        [Sample.accept, Sample.connect 0 7 100, Sample.accept, Sample.connect 1 8 101,
          Sample.accept, Sample.connect 2 9 102, .processExits 100] d ∧
        d.Next Sample.env (.childReaped 100 (Sample.sys 101)) d') ∧ d.waitQueue = [1, 2] ∧
      d'.waitQueue = [2] :=
    exists_run_step Daemon.waitQueue Daemon.waitQueue (by decide +kernel)
  obtain ⟨s, hs, _⟩ := waiting_unserved hr (by decide +kernel) (k := 2) (by simp [hd])
  exact ⟨d, d', s, ⟨hr, hn, hd, hd', hs⟩, bounded_bypass hr (.snoc .nil hn) (by decide +kernel) hs
    (by simp [hd]) (by simp [hd'])⟩

/-- A callback for a client other than `k` that has gone, or for a child that has ended. -/
def DrainBut (env : Env) (k : ℕ) (d : Daemon) (e : Event) (d' : Daemon) : Prop :=
  Drain env d e d' ∧ e.hangUp? ≠ some k

def Cared (k : ℕ) (name : Bytes) (d : Daemon) : Prop :=
  (∃ s, d.session k = some s ∧ s.status ≠ .created ∧
      (s.status = .awaitingBoard → s.getUsername = name)) ∨
    k < d.counter ∧ d.session k = none ∧ d.view.Served k

theorem status_of_drain (h : Settled d) (hn : Drain env d e d') (hs : d.session k = some s)
    (hs' : d'.session k = some s') (hst : s.status ≠ .created) :
    s'.status ≠ .created ∧ (s'.status = .awaitingBoard → s.status = .awaitingBoard) := by
  rcases session_of_callback h (callback_of_next hn.2) hs' with ⟨hnone, _⟩ | ⟨t, ht, hch⟩
  · rw [hs] at hnone
    cases hnone
  · rw [hs, Option.some.injEq] at ht
    subst ht
    cases hch with
    | kept _ he => exact ⟨he ▸ hst, fun hw => he ▸ hw⟩
    | setUp hreq =>
      have hnone := (of_request hreq).1
      rw [Event.setup_of_drains hn.1] at hnone
      cases hnone
    | served _ _ he => exact ⟨by rw [he]; decide, fun hw => (by rw [he] at hw; cases hw)⟩
    | closing _ _ he => exact ⟨by rw [he]; decide, fun hw => (by rw [he] at hw; cases hw)⟩
    | attached _ _ he =>
      subst he
      exact ⟨hst, id⟩
    | proxied _ _ he =>
      subst he
      exact ⟨hst, id⟩

theorem Cared.step {name : Bytes} (hr : Run (Next env) (initial bs fs sd) es d)
    (ho : AtMostOneSetup (es ++ [e])) (hset : k ∈ setUps es) (h : Cared k name d)
    (hn : DrainBut env k d e d') : Cared k name d' := by
  have hor := orderly_run hr ho.of_append
  have hor' := orderly_run (hr.snoc hn.1.2) ho
  rcases h with ⟨s, hs, hst, hname⟩ | ⟨hlt, hg, hserved⟩
  · have hlt := hor.settled.coherent.tenant_lt k s.tenant (view_tenant hs)
    cases hs' : d'.session k with
    | none =>
      refine .inr ⟨hlt.trans_le (counter_le_of_next hn.1.2), hs', ?_⟩
      refine served_of_end hor ho hn.1.2 hs hs' hn.2 fun hsetup => ?_
      exact ho.notMem hsetup hset
    | some s' =>
      obtain ⟨hst', hwait⟩ := status_of_drain hor.settled hn.1 hs hs' hst
      refine .inl ⟨s', hs', hst', fun hw => ?_⟩
      have hin : k ∈ d'.waitQueue := hor'.lined.waiting k s'.tenant (view_tenant hs') hw
      obtain ⟨_, t, ht, hsame, _⟩ := bypass_of_next hr hn.1.2 ho hset hs' hin
      rw [hs, Option.some.injEq] at ht
      subst ht
      exact hsame.symm.trans (hname (hwait hw))
  · refine .inr ⟨hlt.trans_le (counter_le_of_next hn.1.2), gone_of_next hn.1.2 hlt hg, ?_⟩
    exact served_of_next hor ho hn.1.2 (gone_iff.2 ⟨hlt, hg⟩) hserved

theorem Cared.served {name : Bytes} (h : Cared k name d) (hd : Reached env bs fs sd d)
    (hsplit : d.Splits env) (hb : ∃ i b, d.spec i = some b ∧ b.Eligible name)
    (hstuck : ∀ e d', ¬DrainBut env k d e d') : d.session k = none ∧ d.view.Served k := by
  rcases h with ⟨s, hs, hst, hname⟩ | ⟨_, hg, hserved⟩
  · have hall := hd.reaped hsplit fun e d' he hdr => hstuck e d' ⟨hdr, by simp [he]⟩
    have hothers : ∀ j ≠ k, d.session j = none := fun j hj =>
      hd.gone hsplit hall fun e d' he hdr => hstuck e d' ⟨hdr, by simpa [he] using hj⟩
    obtain ⟨es, hr, ho⟩ := hd
    have hor := orderly_run hr ho
    have hwatch : s.childWatcher = none := by
      by_contra hc
      obtain ⟨c, hc⟩ := Option.ne_none_iff_exists'.1 hc
      obtain ⟨p, hp, hst, _⟩ := hor.settled.coherent.watched k s.tenant c (view_tenant hs) hc
      exact hst (hall p hp)
    exfalso
    cases hstatus : s.status with
    | created => exact hst hstatus
    | hasBoard => exact hor.settled.attended k s.tenant (by simp) (view_tenant hs) hstatus hwatch
    | closingBoard => exact (listens_run hr ho k s hs).closing hstatus hwatch
    | awaitingBoard =>
      obtain ⟨i, b, hbi, hel⟩ := hb
      have hin : k ∈ d.waitQueue := hor.lined.waiting k s.tenant (view_tenant hs) hstatus
      obtain ⟨t, ht, hno⟩ := waiting_unserved hr ho hin
      rw [hs, Option.some.injEq] at ht
      subst ht
      refine hno i b hbi ?_ (hname hstatus ▸ hel)
      cases hown : d.owner i with
      | none => rfl
      | some j =>
        obtain ⟨t, ht, hti⟩ := (hor.settled.coherent.owner_iff i j).1 hown
        obtain ⟨u, hu, rfl⟩ := exists_of_view_tenant ht
        by_cases hj : j = k
        · subst hj
          rw [hs, Option.some.injEq] at hu
          subst hu
          have hnone := (hor.settled.coherent.board_none j s.tenant ht).2 (.inr hstatus)
          rw [hnone] at hti
          cases hti
        · rw [hothers j hj] at hu
          cases hu
  · exact ⟨hg, hserved⟩

def Awaited (env : Env) (bs : List BoardSpec) (fs : List ProxyFactory) (sd : Bool) (k : ℕ)
    (name : Bytes) (d : Daemon) : Prop :=
  ∃ es, Run (Next env) (initial bs fs sd) es d ∧ AtMostOneSetup es ∧ k ∈ setUps es ∧ Cared k name d

theorem Awaited.step {name : Bytes} (h : Awaited env bs fs sd k name d)
    (hn : DrainBut env k d e d') : Awaited env bs fs sd k name d' ∧ d'.effort < d.effort := by
  obtain ⟨es, hr, ho, hset, hc⟩ := h
  refine ⟨⟨es ++ [e], hr.snoc hn.1.2, ho.of_drains hn.1.1, ?_, ?_⟩, ?_⟩
  · rw [setUps_append]
    exact List.mem_append_left _ hset
  · exact hc.step hr (ho.of_drains hn.1.1) hset hn
  · exact effort_lt_of_next (orderly_run hr ho).settled hn.1.2 hn.1.1

theorem Awaited.served {name : Bytes} (h : Awaited env bs fs sd k name d)
    (hsplit : ∀ b ∈ bs, env.splitUnix b.command ≠ none ∧ env.splitUnix b.closeCommand ≠ none)
    (hb : ∃ b ∈ bs, b.Eligible name) (hstuck : ∀ e d', ¬DrainBut env k d e d') :
    d.session k = none ∧ d.view.Served k := by
  obtain ⟨es, hr, ho, _, hc⟩ := h
  have hd : Reached env bs fs sd d := ⟨es, hr, ho⟩
  obtain ⟨b, hb, hel⟩ := hb
  obtain ⟨i, hi⟩ := List.mem_iff_getElem?.1 hb
  refine hc.served hd (hd.splits hsplit) ⟨i, b, ?_, hel⟩ hstuck
  rw [spec_run hr ho]
  simp [spec, initial, hi]

/-- A user who waits for a board that exists, and who stays, is served when the others leave
and the commands end, whatever the order, and after a bounded number of callbacks. -/
theorem waiting_user_is_served (h : Run (Next env) (initial bs fs sd) es d)
    (ho : AtMostOneSetup es) (hs : d.session k = some s) (hk : k ∈ d.waitQueue)
    (hb : ∃ b ∈ bs, b.Eligible s.getUsername)
    (hsplit : ∀ b ∈ bs, env.splitUnix b.command ≠ none ∧ env.splitUnix b.closeCommand ≠ none) :
    (∃ es' d', Run (DrainBut env k) d es' d' ∧ d'.session k = none ∧ d'.view.Served k) ∧
      ∀ es' d', Run (DrainBut env k) d es' d' → es'.length ≤ d.effort ∧
        ((∀ e d'', ¬DrainBut env k d' e d'') → d'.session k = none ∧ d'.view.Served k) := by
  have hst : s.status ≠ .created := by
    obtain ⟨t, ht, hst⟩ := (orderly_run h ho).settled.coherent.queued k hk
    rw [view_tenant hs, Option.some.injEq] at ht
    subst ht
    rw [show s.status = .awaitingBoard from hst]
    decide
  have hd : Awaited env bs fs sd k s.getUsername d :=
    ⟨es, h, ho, (queue_sublist_run h ho).subset hk, .inl ⟨s, hs, hst, fun _ => rfl⟩⟩
  have hstep : ∀ t e u, Awaited env bs fs sd k s.getUsername t → DrainBut env k t e u →
      Awaited env bs fs sd k s.getUsername u ∧ u.effort < t.effort := fun _ _ _ => Awaited.step
  have hend : ∀ {es' d'}, Run (DrainBut env k) d es' d' →
      (∀ e d'', ¬DrainBut env k d' e d'') → d'.session k = none ∧ d'.view.Served k :=
    fun hr => (hr.invariant _ hd fun t e u ht hu => (hstep t e u ht hu).1).served hsplit hb
  refine ⟨?_, fun es' d' hr => ⟨?_, hend hr⟩⟩
  · obtain ⟨es', d', hr, hstuck⟩ := Run.exists_stuck hstep hd
    exact ⟨es', d', hr, hend hr hstuck⟩
  · exact (Nat.le_add_right _ _).trans (Run.length_add_le hstep hd hr)

theorem waiting_user_is_served_second : ∃ d s,
    (Run (Next Sample.env) (initial [Sample.board (ascii "off") []] [] false)
      [Sample.accept, Sample.connect 0 7 100, Sample.accept, Sample.connect 1 8 101] d ∧
      d.waitQueue = [1] ∧ d.session 1 = some s) ∧
    ∃ es' d', Run (DrainBut Sample.env 1) d es' d' ∧ d'.session 1 = none ∧ d'.view.Served 1 := by
  obtain ⟨d, hr, hq⟩ : ∃ d, Run (Next Sample.env) (initial [Sample.board (ascii "off") []] [] false)
      [Sample.accept, Sample.connect 0 7 100, Sample.accept, Sample.connect 1 8 101] d ∧
      d.waitQueue = [1] := exists_run Daemon.waitQueue (by decide +kernel)
  have ho : AtMostOneSetup [Sample.accept, Sample.connect 0 7 100, Sample.accept,
      Sample.connect 1 8 101] := by decide +kernel
  obtain ⟨s, hs, _⟩ := waiting_unserved hr ho (k := 1) (by simp [hq])
  exact ⟨d, s, ⟨hr, hq, hs⟩, (waiting_user_is_served hr ho hs (by simp [hq])
    ⟨_, List.mem_singleton_self _, .inl rfl⟩ (by simp [Sample.env])).1⟩

end Daemon
end BoardProxy
