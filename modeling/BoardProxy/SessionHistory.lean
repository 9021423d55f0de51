import BoardProxy.Tenure

/-!
# What a callback does to one session

Every session after a callback is new, or it is a session from before the
callback that went through one of six changes. The name and the parent process
of a session therefore come from its setup message, and its proxies from the
connections that were accepted for it.
-/

namespace BoardProxy
namespace Session

structure Alike (s s' : Session) : Prop where
  ppid : s'.ppid = s.ppid
  username : s'.username = s.username
  proxies : s'.proxies = s.proxies

theorem Alike.trans {s t u : Session} (h : s.Alike t) (h' : t.Alike u) : s.Alike u :=
  ⟨h'.ppid.trans h.ppid, h'.username.trans h.username, h'.proxies.trans h.proxies⟩

inductive Passes (queue : List ℕ) (s : Session) : Session → Prop
  | same : Passes queue s s
  | granted {i : ℕ} {pid : Pid} {now : ℤ} : s.id ∈ queue → Passes queue s (s.granted i pid now)
  | closing {pid : Pid} : s.status = .hasBoard → Passes queue s (s.closing pid)

inductive Changes (env : Env) (d : Daemon) (e : Event) (s s' : Session) : Prop
  | kept : s.Alike s' → s'.status = s.status → s'.board = s.board → Changes env d e s s'
  | setUp {pkt : Packet} {r : Proto.Request} : d.request? e = some (s.id, pkt, r) →
      s'.ppid = r.ppid → s'.username = r.username → s'.proxies = s.proxies →
      Changes env d e s s'
  | served : s.Alike s' → s.status = .awaitingBoard → s'.status = .hasBoard → Changes env d e s s'
  | closing : s.Alike s' → s.status = .hasBoard → s'.status = .closingBoard →
      s'.board = s.board → Changes env d e s s'
  | attached {factory : ProxyFactory} {io : ConnectIo} {conn : ProxyConn} :
      s.status = .hasBoard → factory.create env io (d.boardIp s) = .ok conn →
      s' = s.withProxies (· ++ [⟨s.proxyCnt, s.ppid, conn⟩]) 1 → Changes env d e s s'
  | proxied {pid : ℕ} {p : Proxy} {conn : ProxyConn} :
      KeyedList.lookup Proxy.id pid s.proxies = some p →
      p.conn.callback env (d.boardIp s) e = .returned conn →
      s' = s.withProxies (Daemon.setProxy pid conn) 0 → Changes env d e s s'

end Session

namespace Daemon

open Session (Alike Passes Changes)

variable {env : Env} {sys : Sys} {d d' d₁ : Daemon} {e : Event} {sid k : ℕ} {s s' t : Session}

theorem leaves_passes (hs : d.session sid = some s) (hl : Leaves env sys d sid d')
    (hk : d'.session k = some s') :
    k ≠ sid ∧ ∃ s, d.session k = some s ∧ Passes d.waitQueue s s' := by
  have hne : k ≠ sid := by
    intro he
    rw [he, leaves_session_self hl] at hk
    cases hk
  refine ⟨hne, ?_⟩
  cases hl with
  | idle =>
    rw [exitIfIdle_eq_silent] at hk
    have hs : d.session k = some s' := by
      have hdep : (d.departed sid).session k = some s' := hk
      rwa [departed_session, if_neg hne] at hdep
    exact ⟨s', hs, .same⟩
  | @handOver v i t b argv pid hf ht =>
    rw [exitIfIdle_eq_silent] at hk
    change (((d.departed sid).dequeue v).grant v i t b argv pid sys.now).session k = some s' at hk
    rw [grant_session, dequeue_session, dequeue_session] at hk
    by_cases hkv : k = v
    · subst hkv
      rw [if_pos rfl, ht, Option.map_some, Option.some.injEq] at hk
      rw [departed_session, if_neg hne] at ht
      obtain ⟨pre, post, _, hq, _⟩ := findWaiting_some hf
      have hmem : k ∈ (d.departed sid).waitQueue := by
        rw [hq]
        exact List.mem_append_right _ List.mem_cons_self
      rw [(departed_fields hs).1] at hmem
      obtain rfl := id_of_session d k ht
      exact ⟨t, ht, hk ▸ .granted (List.mem_of_mem_filter hmem)⟩
    · rw [if_neg hkv, departed_session, if_neg hne] at hk
      exact ⟨s', hk, .same⟩

theorem closes_passes (hs : d.session sid = some s) (hc : Closes env sys d sid s d')
    (hk : d'.session k = some s') : ∃ t, d.session k = some t ∧ Passes d.waitQueue t s' := by
  cases hc with
  | kill => exact ⟨s', hk, .same⟩
  | startClosing hst =>
    rw [startClosing_session] at hk
    by_cases he : k = sid
    · rw [if_pos he, hs, Option.map_some, Option.some.injEq] at hk
      exact ⟨s, he ▸ hs, hk ▸ .closing hst⟩
    · rw [if_neg he] at hk
      exact ⟨s', hk, .same⟩
  | leave _ hl => exact (leaves_passes hs hl hk).2

theorem connects_passes {noWait : Bool} (hs : d.session sid = some s)
    (hc : Connects env sys d sid s noWait d') (hk : d'.session k = some s') :
    (k = sid ∧ s.Alike s') ∨
      k ≠ sid ∧ ∃ t, d.session k = some t ∧ Passes d.waitQueue t s' := by
  have henq : ∀ {u}, (d.enqueue sid).session k = some u →
      (k = sid ∧ s.Alike u) ∨ k ≠ sid ∧ d.session k = some u := by
    intro u hu
    rw [enqueue_session] at hu
    by_cases he : k = sid
    · rw [if_pos he, hs, Option.map_some, Option.some.injEq] at hu
      exact Or.inl ⟨he, hu ▸ ⟨rfl, rfl, rfl⟩⟩
    · rw [if_neg he] at hu
      exact Or.inr ⟨he, hu⟩
  cases hc with
  | grant =>
    rw [grant_session] at hk
    by_cases he : k = sid
    · rw [if_pos he, hs, Option.map_some, Option.some.injEq] at hk
      exact Or.inl ⟨he, hk ▸ ⟨rfl, rfl, rfl⟩⟩
    · rw [if_neg he] at hk
      exact Or.inr ⟨he, s', hk, .same⟩
  | wait =>
    rcases henq hk with h | ⟨he, hu⟩
    · exact Or.inl h
    · exact Or.inr ⟨he, s', hu, .same⟩
  | @turnAway as d' _ _ hl =>
    obtain ⟨he, t, ht, hp⟩ :=
      leaves_passes (d := (d.enqueue sid).act as) (enqueue_session_self hs) hl hk
    rcases henq ht with ⟨h, _⟩ | ⟨_, ht⟩
    · exact absurd h he
    · refine Or.inr ⟨he, t, ht, ?_⟩
      cases hp with
      | same => exact .same
      | granted hq =>
        refine .granted ?_
        rcases List.mem_append.1 hq with hq | hq
        · exact hq
        · exact absurd ((id_of_session d k ht).symm.trans (List.mem_singleton.1 hq)) he
      | closing hst => exact .closing hst

theorem changes_of_passes (h : d.view.Coherent) (hs : d.session k = some s) (ha : s.Alike t)
    (hst : t.status = s.status) (hb : t.board = s.board) (hid : t.id = s.id)
    (hp : Passes d.waitQueue t s') : Changes env d e s s' := by
  cases hp with
  | same => exact .kept ha hst hb
  | granted hq =>
    obtain ⟨u, hu, hwait⟩ := h.queued s.id (hid ▸ hq)
    rw [id_of_session d k hs, view_tenant hs, Option.some.injEq] at hu
    subst hu
    exact .served (ha.trans ⟨rfl, rfl, rfl⟩) hwait rfl
  | closing hh => exact .closing (ha.trans ⟨rfl, rfl, rfl⟩) (hst ▸ hh) rfl hb

theorem changes_of_connect {pkt : Packet} {r : Proto.Request} {noWait : Bool}
    (h : d.view.Coherent) (hreq : d.request? e = some (sid, pkt, r)) (hs : d.session sid = some s)
    (hc : Connects env sys (d.introduce sid pkt r) sid
      ((s.received (pkt.data.take Proto.bufferSize)).introduced pkt r) noWait d')
    (hk : d'.session k = some s') : ∃ t, d.session k = some t ∧ Changes env d e t s' := by
  rcases connects_passes (session_introduce_self pkt r hs) hc hk with ⟨rfl, ha⟩ | ⟨hne, t, ht, hp⟩
  · obtain rfl := id_of_session d k hs
    exact ⟨s, hs, .setUp hreq ha.ppid ha.username ha.proxies⟩
  · rw [session_introduce, if_neg hne] at ht
    exact ⟨t, ht, changes_of_passes h ht ⟨rfl, rfl, rfl⟩ rfl rfl rfl hp⟩

theorem changes_of_listSessions {pkt : Packet} {r : Proto.Request} {as : List Action}
    (h : d.view.Coherent) (hreq : d.request? e = some (sid, pkt, r)) (hs : d.session sid = some s)
    (hc : Closes env sys ((d.introduce sid pkt r).act as) sid
      ((s.received (pkt.data.take Proto.bufferSize)).introduced pkt r) d')
    (hk : d'.session k = some s') : ∃ t, d.session k = some t ∧ Changes env d e t s' := by
  have hsi : ((d.introduce sid pkt r).act as).session sid = _ := session_introduce_self pkt r hs
  obtain ⟨t, ht, hp⟩ := closes_passes hsi hc hk
  by_cases hne : k = sid
  · subst hne
    rw [hsi, Option.some.injEq] at ht
    subst ht
    obtain rfl := id_of_session d k hs
    refine ⟨s, hs, ?_⟩
    cases hp with
    | same => exact .setUp hreq rfl rfl rfl
    | granted => exact .setUp hreq rfl rfl rfl
    | closing => exact .setUp hreq rfl rfl rfl
  · rw [session_act, session_introduce, if_neg hne] at ht
    exact ⟨t, ht, changes_of_passes h ht ⟨rfl, rfl, rfl⟩ rfl rfl rfl hp⟩

theorem session_of_quiet {f : Session → Session}
    (hk : (d.modifySession sid f).session k = some s')
    (hf : ∀ s, (f s).id = s.id ∧ s.Alike (f s) ∧ (f s).status = s.status ∧ (f s).board = s.board) :
    ∃ s, d.session k = some s ∧ s.Alike s' ∧ s'.status = s.status ∧ s'.board = s.board ∧
      s'.id = s.id := by
  rw [session_modifySession _ _ _ f fun s => (hf s).1] at hk
  by_cases he : k = sid
  · subst he
    rw [if_pos rfl] at hk
    obtain ⟨s, hs, rfl⟩ := Option.map_eq_some_iff.1 hk
    obtain ⟨hid, ha, hst, hb⟩ := hf s
    exact ⟨s, hs, ha, hst, hb, hid⟩
  · rw [if_neg he] at hk
    exact ⟨s', hk, ⟨rfl, rfl, rfl⟩, rfl, rfl, rfl⟩

theorem session_of_callback (h : Settled d) (hc : Callback env d e d')
    (hk : d'.session k = some s') :
    (d.session k = none ∧ s'.status = .created ∧ s'.proxies = []) ∨
      ∃ s, d.session k = some s ∧ Changes env d e s s' := by
  cases hc with
  | accept =>
    rw [onClientConnecting, session_addSession] at hk
    cases hs : d.session k with
    | some s =>
      rw [hs, Option.some_or, Option.some.injEq] at hk
      exact Or.inr ⟨s, rfl, hk ▸ .kept ⟨rfl, rfl, rfl⟩ rfl rfl⟩
    | none =>
      rw [hs, Option.none_or] at hk
      by_cases he : d.counter = k
      · rw [if_pos he, Option.some.injEq] at hk
        subst hk
        exact Or.inl ⟨rfl, rfl, rfl⟩
      · rw [if_neg he] at hk
        cases hk
  | @hangUp sid recv sys as s d' hr hs _ _ hcl =>
    have hsh := session_hangUp_self as hs
    obtain ⟨t, ht, hp⟩ := closes_passes hsh hcl hk
    obtain ⟨u, hu, ha, hst, hb, hid⟩ := session_of_quiet (d := d.act as) ht
      fun _ => ⟨rfl, ⟨rfl, rfl, rfl⟩, rfl, rfl⟩
    exact Or.inr ⟨u, hu, changes_of_passes h.coherent hu ha hst hb hid hp⟩
  | @ignore sid pkt sys s hset hs =>
    obtain ⟨u, hu, ha, hst, hb, _⟩ := session_of_quiet (d := d.act _) hk
      fun _ => ⟨rfl, ⟨rfl, rfl, rfl⟩, rfl, rfl⟩
    exact Or.inr ⟨u, hu, .kept ha hst hb⟩
  | @noFds sid pkt sys s t d₁ d' _ hs _ ht hcl h₂ =>
    obtain ⟨c, _, _, rfl⟩ := noFds_kills (settled_receive h hs) ht hcl h₂
    obtain ⟨u, hu, ha, hst, hb, _⟩ := session_of_quiet (d := d.act _) hk
      fun _ => ⟨rfl, ⟨rfl, rfl, rfl⟩, rfl, rfl⟩
    exact Or.inr ⟨u, hu, .kept ha hst hb⟩
  | connect hreq hs _ _ hcon => exact Or.inr (changes_of_connect h.coherent hreq hs hcon hk)
  | listSessions hreq hs _ _ hcl => exact Or.inr (changes_of_listSessions h.coherent hreq hs hcl hk)
  | @otherCommand sid pkt sys r s hreq hs =>
    rw [session_introduce] at hk
    by_cases he : k = sid
    · subst he
      rw [if_pos rfl, hs, Option.map_some, Option.some.injEq] at hk
      subst hk
      obtain rfl := id_of_session d k hs
      exact Or.inr ⟨s, hs, .setUp hreq rfl rfl rfl⟩
    · rw [if_neg he] at hk
      exact Or.inr ⟨s', hk, .kept ⟨rfl, rfl, rfl⟩ rfl rfl⟩
  | processExits => exact Or.inr ⟨s', hk, .kept ⟨rfl, rfl, rfl⟩ rfl rfl⟩
  | reapUnwatched => exact Or.inr ⟨s', hk, .kept ⟨rfl, rfl, rfl⟩ rfl rfl⟩
  | @reap pid sys s t c d' _ _ hs hc _ ht hcl =>
    obtain ⟨u, hu, hp⟩ := closes_passes (session_stop_moveProcess ht) hcl hk
    obtain ⟨w, hw, ha, hst, hb, hid⟩ := session_of_quiet
      (d := d.moveProcess pid .zombie .reaped) hu fun _ => ⟨rfl, ⟨rfl, rfl, rfl⟩, rfl, rfl⟩
    exact Or.inr ⟨w, hw, changes_of_passes h.coherent hw ha hst hb hid hp⟩
  | unrouted => exact Or.inr ⟨s', hk, .kept ⟨rfl, rfl, rfl⟩ rfl rfl⟩
  | @attach listener peer io factory s t conn _ hf ht hst hcr =>
    rw [findSessionByPpid] at hf
    have hpp : s.ppid = peer := by simpa using List.find?_some hf
    have hss : d.session s.id = some s :=
      KeyedList.lookup_of_mem h.coherent.ids_nodup (List.mem_of_find?_eq_some hf)
    rw [hss, Option.some.injEq] at ht
    subst ht hpp
    rw [Session.addProxy, session_modifySession] at hk
    · by_cases he : k = s.id
      · rw [if_pos he, hss, Option.map_some, Option.some.injEq] at hk
        exact Or.inr ⟨s, he ▸ hss, .attached hst hcr hk.symm⟩
      · rw [if_neg he] at hk
        exact Or.inr ⟨s', hk, .kept ⟨rfl, rfl, rfl⟩ rfl rfl⟩
    · exact fun _ => rfl
  | @proxied e sid pid s p conn _ hs hp hr =>
    rw [session_modifySession d sid k (Session.withProxies _ 0) fun _ => rfl] at hk
    by_cases he : k = sid
    · rw [if_pos he, hs, Option.map_some, Option.some.injEq] at hk
      exact Or.inr ⟨s, he ▸ hs, .proxied hp hr hk.symm⟩
    · rw [if_neg he] at hk
      exact Or.inr ⟨s', hk, .kept ⟨rfl, rfl, rfl⟩ rfl rfl⟩
  | signal => exact Or.inr ⟨s', hk, .kept ⟨rfl, rfl, rfl⟩ rfl rfl⟩

end Daemon

def setupPackets (es : List Event) : List (ℕ × Packet) := es.filterMap Event.setup?

theorem setUps_eq_map (es : List Event) : setUps es = (setupPackets es).map Prod.fst := by
  rw [setUps, setupPackets, List.map_filterMap]

theorem AtMostOneSetup.packet_unique {es : List Event} (h : AtMostOneSetup es) {k : ℕ}
    {p q : Packet} (hp : (k, p) ∈ setupPackets es) (hq : (k, q) ∈ setupPackets es) : p = q := by
  rw [AtMostOneSetup, setUps_eq_map] at h
  have heq := List.inj_on_of_nodup_map h hp hq rfl
  exact (Prod.mk.inj heq).2

namespace Daemon

variable {env : Env} {d d' : Daemon} {e : Event} {es : List Event} {k sid : ℕ} {s : Session}
  {bs : List BoardSpec} {fs : List ProxyFactory} {sd : Bool}

def Introduced (es : List Event) (d : Daemon) : Prop :=
  ∀ k s, d.session k = some s → s.status ≠ .created → ∃ pkt r, (k, pkt) ∈ setupPackets es ∧
    (∃ m : Memory, Proto.readSetup (m.store (pkt.data.take Proto.bufferSize)) = some r) ∧
    s.ppid = r.ppid ∧ s.username = r.username

theorem Introduced.step (h : Introduced es d) (hs : Settled d) (hc : Callback env d e d') :
    Introduced (es ++ [e]) d' := by
  intro k s' hk hst
  have hold : ∀ {s}, d.session k = some s → s.status ≠ .created → s'.ppid = s.ppid →
      s'.username = s.username → ∃ pkt r, (k, pkt) ∈ setupPackets (es ++ [e]) ∧
        (∃ m : Memory, Proto.readSetup (m.store (pkt.data.take Proto.bufferSize)) = some r) ∧
        s'.ppid = r.ppid ∧ s'.username = r.username := by
    intro s hs hne hp hu
    obtain ⟨pkt, r, hmem, hr, hpp, huu⟩ := h k s hs hne
    rw [setupPackets, List.filterMap_append]
    exact ⟨pkt, r, List.mem_append_left _ hmem, hr, hp.trans hpp, hu.trans huu⟩
  rcases session_of_callback hs hc hk with ⟨_, hnew, _⟩ | ⟨s, hss, hch⟩
  · exact absurd hnew hst
  · cases hch with
    | kept ha hs₁ => exact hold hss (hs₁ ▸ hst) ha.ppid ha.username
    | @setUp pkt r hreq hp hu =>
      obtain ⟨hset, _, u, _, hr⟩ := of_request hreq
      obtain rfl := id_of_session d k hss
      refine ⟨pkt, r, ?_, ⟨u.buffer, hr⟩, hp, hu⟩
      rw [setupPackets, List.filterMap_append]
      exact List.mem_append_right _ (by simp [hset])
    | served ha hs₁ => exact hold hss (by rw [hs₁]; decide) ha.ppid ha.username
    | closing ha hs₁ => exact hold hss (by rw [hs₁]; decide) ha.ppid ha.username
    | attached hs₁ _ he =>
      subst he
      exact hold hss hst rfl rfl
    | proxied _ _ he =>
      subst he
      exact hold hss hst rfl rfl

theorem introduced_run (h : Run (Next env) (initial bs fs sd) es d) (ho : AtMostOneSetup es) :
    Introduced es d := by
  refine h.history (fun es d => AtMostOneSetup es → Introduced es d) ?_ ?_ ho
  · exact fun _ k s hs => (by cases hs)
  · intro es d e d' hr ih hn ho
    exact (ih ho.of_append).step (orderly_run hr ho.of_append).settled (callback_of_next hn)

end Daemon
end BoardProxy
