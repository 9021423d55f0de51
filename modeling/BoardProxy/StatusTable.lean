import BoardProxy.Dialogue

/-!
# The status table

`print_status` goes through the sessions. The table shows every board that is in use, once
and with its user, and everybody who waits, because these are the sessions that have been
set up.
-/

namespace BoardProxy

def Action.table? : Action → Option (ℕ × ℤ × List StatusLine)
  | .printStatus k fd lines => some (k, fd, lines)
  | _ => none

namespace Daemon

variable {env : Env} {d d' d₁ : Daemon} {e : Event} {es : List Event} {sid k i : ℕ} {s : Session}
  {bs : List BoardSpec} {fs : List ProxyFactory} {sd : Bool} {pkt : Packet} {r : Proto.Request}

def tables (d : Daemon) : List (ℕ × ℤ × List StatusLine) := d.trace.filterMap Action.table?

def busyLine (d : Daemon) (i : ℕ) : Option StatusLine :=
  (d.owner i).bind fun k => (d.session k).bind fun s => (d.spec i).map fun b =>
    ⟨s.getUsername, b.id, b.ipAddress, s.boardSince⟩

def busyLines (d : Daemon) : List StatusLine := (List.range d.boards.length).filterMap d.busyLine

def waitingLine (s : Session) : StatusLine := ⟨s.getUsername, [], ascii "waiting", s.sessionSince⟩

def waitingLines (d : Daemon) : List StatusLine :=
  d.waitQueue.filterMap fun k => (d.session k).map waitingLine

def owners (d : Daemon) : List ℕ := (List.range d.boards.length).filterMap d.owner

theorem mem_owners : k ∈ d.owners ↔ ∃ i, d.owner i = some k := by
  rw [owners, List.mem_filterMap]
  constructor
  · rintro ⟨i, _, hi⟩
    exact ⟨i, hi⟩
  · rintro ⟨i, hi⟩
    obtain ⟨b, hb, _⟩ := Option.bind_eq_some_iff.1 hi
    exact ⟨i, List.mem_range.2 (List.getElem?_eq_some_iff.1 hb).1, hi⟩

theorem nodup_modifySession {f : Session → Session} (hid : ∀ s, (f s).id = s.id)
    (h : (d.sessions.map Session.id).Nodup) :
    ((d.modifySession sid f).sessions.map Session.id).Nodup := by
  rwa [modifySession_sessions, KeyedList.keys_modify _ _ hid]

namespace Orderly

theorem session_of_owner (h : Orderly es d) (hi : d.owner i = some k) :
    ∃ s, d.session k = some s ∧ s.board = some i := by
  obtain ⟨t, ht, hb⟩ := (h.settled.coherent.owner_iff i k).1 hi
  obtain ⟨s, hs, rfl⟩ := exists_of_view_tenant ht
  exact ⟨s, hs, hb⟩

theorem session_of_queue (h : Orderly es d) (hk : k ∈ d.waitQueue) :
    ∃ s, d.session k = some s ∧ s.status = .awaitingBoard ∧ s.board = none := by
  obtain ⟨t, ht, hst⟩ := h.settled.coherent.queued k hk
  obtain ⟨s, hs, rfl⟩ := exists_of_view_tenant ht
  exact ⟨s, hs, hst, (h.settled.coherent.board_none k _ ht).2 (.inr hst)⟩

theorem nodup_listed (h : Orderly es d) : (d.owners ++ d.waitQueue).Nodup := by
  refine List.nodup_append.2 ⟨?_, h.lined.nodup, ?_⟩
  · refine List.nodup_range.filterMap fun i j k hi hj => ?_
    obtain ⟨s, hs, hsi⟩ := h.session_of_owner hi
    obtain ⟨s', hs', hsj⟩ := h.session_of_owner hj
    rw [hs, Option.some.injEq] at hs'
    subst hs'
    exact Option.some.inj (hsi.symm.trans hsj)
  · rintro k hk j hj rfl
    obtain ⟨i, hi⟩ := mem_owners.1 hk
    obtain ⟨s, hs, hsi⟩ := h.session_of_owner hi
    obtain ⟨s', hs', _, hnone⟩ := h.session_of_queue hj
    rw [hs, Option.some.injEq] at hs'
    subst hs'
    rw [hsi] at hnone
    cases hnone

theorem mem_listed (h : Orderly es d) :
    k ∈ d.owners ++ d.waitQueue ↔ ∃ s, d.session k = some s ∧ s.status ≠ .created := by
  rw [List.mem_append]
  constructor
  · rintro (hk | hk)
    · obtain ⟨i, hi⟩ := mem_owners.1 hk
      obtain ⟨s, hs, hsi⟩ := h.session_of_owner hi
      refine ⟨s, hs, fun hst => ?_⟩
      have hnone := (h.settled.coherent.board_none k _ (view_tenant hs)).2 (.inl hst)
      exact absurd (hsi.symm.trans hnone) (Option.some_ne_none i)
    · obtain ⟨s, hs, hst, _⟩ := h.session_of_queue hk
      exact ⟨s, hs, fun hc => absurd (hst.symm.trans hc) (by decide)⟩
  · rintro ⟨s, hs, hst⟩
    have ht := view_tenant hs
    cases hb : s.board with
    | some i => exact .inl (mem_owners.2 ⟨i, (h.settled.coherent.owner_iff i k).2 ⟨_, ht, hb⟩⟩)
    | none =>
      rcases (h.settled.coherent.board_none k _ ht).1 hb with hc | hw
      · exact absurd hc hst
      · exact .inr (h.lined.waiting k _ ht hw)

theorem lines_listed (h : Orderly es d) :
    (d.owners ++ d.waitQueue).filterMap (fun k => (d.session k).map (Session.getStatusLine d)) =
      d.busyLines ++ d.waitingLines := by
  rw [List.filterMap_append, owners, List.filterMap_filterMap]
  congr 1
  · refine List.filterMap_congr fun i _ => ?_
    cases hi : d.owner i with
    | none => rw [busyLine, hi, Option.bind_none, Option.bind_none]
    | some k =>
      obtain ⟨s, hs, hsi⟩ := h.session_of_owner hi
      obtain ⟨b, hb, _⟩ := Option.bind_eq_some_iff.1 hi
      have hspec : d.spec i = some b.toBoardSpec := by rw [spec, hb, Option.map_some]
      simp [busyLine, hi, hs, hspec, Session.getStatusLine, hsi]
  · refine List.filterMap_congr fun k hk => ?_
    obtain ⟨s, hs, _, hnone⟩ := h.session_of_queue hk
    simp [hs, waitingLine, Session.getStatusLine, hnone]

theorem statusLines_perm {t : Session} (h : Orderly es d) (hs : d.session sid = some s)
    (hst : s.status = .created) (hids : (d₁.sessions.map Session.id).Nodup)
    (hspec : d₁.spec = d.spec) (hother : ∀ k, k ≠ sid → d₁.session k = d.session k)
    (ht : d₁.session sid = some t) : d₁.statusLines.Perm (d.busyLines ++ d.waitingLines ++
      if t.status = .created then [] else [Session.getStatusLine d₁ t]) := by
  have hline : Session.getStatusLine d₁ = Session.getStatusLine d := by
    funext u
    rw [Session.getStatusLine, Session.getStatusLine, hspec]
  have hnot : sid ∉ d.owners ++ d.waitQueue := by
    rw [h.mem_listed]
    rintro ⟨u, hu, hne⟩
    rw [hs, Option.some.injEq] at hu
    exact hne (hu ▸ hst)
  have hne : ∀ k ∈ d.owners ++ d.waitQueue, k ≠ sid := fun k hk hks => hnot (hks ▸ hk)
  have hlines : (d.owners ++ d.waitQueue).filterMap
      (fun k => (d₁.session k).map (Session.getStatusLine d₁)) = d.busyLines ++ d.waitingLines := by
    rw [← h.lines_listed, hline]
    exact List.filterMap_congr fun k hk => by rw [hother k (hne k hk)]
  have hmem : ∀ k, k ≠ sid → (k ∈ d.owners ++ d.waitQueue ↔
      ∃ a, d₁.session k = some a ∧ decide (a.status ≠ .created) = true) := by
    intro k hk
    simp only [decide_eq_true_eq]
    rw [h.mem_listed, hother k hk]
  by_cases hct : t.status = .created
  · rw [if_pos hct, List.append_nil, ← hlines]
    refine KeyedList.map_filter_perm _ hids h.nodup_listed fun k => ?_
    by_cases hk : k = sid
    · subst hk
      refine ⟨fun hin => absurd hin hnot, ?_⟩
      rintro ⟨a, ha, hne⟩
      rw [show d₁.session k = some a from ha, Option.some.injEq] at ht
      exact absurd (ht ▸ hct) (of_decide_eq_true hne)
    · exact hmem k hk
  · have hone : [sid].filterMap (fun k => (d₁.session k).map (Session.getStatusLine d₁)) =
        [Session.getStatusLine d₁ t] := by simp [ht]
    rw [if_neg hct, ← hlines, ← hone, ← List.filterMap_append]
    refine KeyedList.map_filter_perm _ hids ?_ fun k => ?_
    · refine List.nodup_append.2 ⟨h.nodup_listed, List.nodup_singleton sid, ?_⟩
      intro a ha b hb
      rw [List.mem_singleton.1 hb]
      exact hne a ha
    · rw [List.mem_append, List.mem_singleton]
      by_cases hk : k = sid
      · subst hk
        exact ⟨fun _ => ⟨t, ht, decide_eq_true hct⟩, fun _ => .inr rfl⟩
      · rw [or_iff_left hk]
        exact hmem k hk

theorem ids_introduce (h : Orderly es d) (sid : ℕ) (pkt : Packet) (r : Proto.Request) :
    ((d.introduce sid pkt r).sessions.map Session.id).Nodup := by
  have hrecv : ((d.receive sid pkt).sessions.map Session.id).Nodup :=
    nodup_modifySession (fun _ => rfl) h.settled.coherent.ids_nodup
  exact nodup_modifySession (fun _ => rfl) hrecv

theorem statusLines_introduce (pkt : Packet) (r : Proto.Request) (h : Orderly es d)
    (hs : d.session sid = some s) (hst : s.status = .created) :
    (d.introduce sid pkt r).statusLines.Perm (d.busyLines ++ d.waitingLines) := by
  have hself : (d.introduce sid pkt r).session sid = some (asked s pkt r) :=
    session_introduce_self pkt r hs
  have hother : ∀ k, k ≠ sid → (d.introduce sid pkt r).session k = d.session k := by
    intro k hk
    rw [session_introduce, if_neg hk]
  have hperm := h.statusLines_perm hs hst (h.ids_introduce sid pkt r) rfl hother hself
  rwa [if_pos (show (asked s pkt r).status = .created from hst), List.append_nil] at hperm

theorem statusLines_enqueue (h : Orderly es d) (hs : d.session sid = some s)
    (hst : s.status = .created) : ((d.introduce sid pkt r).enqueue sid).statusLines.Perm
      (d.busyLines ++ d.waitingLines ++ [waitingLine (asked s pkt r)]) := by
  have hself : ((d.introduce sid pkt r).enqueue sid).session sid =
      some { asked s pkt r with status := .awaitingBoard } :=
    enqueue_session_self (session_introduce_self pkt r hs)
  have hother : ∀ k, k ≠ sid → ((d.introduce sid pkt r).enqueue sid).session k = d.session k := by
    intro k hk
    rw [enqueue_session, if_neg hk, session_introduce, if_neg hk]
  have hids : (((d.introduce sid pkt r).enqueue sid).sessions.map Session.id).Nodup :=
    nodup_modifySession (f := fun s => { s with status := .awaitingBoard }) (fun _ => rfl)
      (h.ids_introduce sid pkt r)
  have hnone : (asked s pkt r).board = none :=
    (h.settled.coherent.board_none sid _ (view_tenant hs)).2 (.inl hst)
  have hline : Session.getStatusLine ((d.introduce sid pkt r).enqueue sid)
      { asked s pkt r with status := .awaitingBoard } = waitingLine (asked s pkt r) := by
    simp only [Session.getStatusLine, hnone, Option.bind_none]
    rfl
  have hperm := h.statusLines_perm hs hst hids rfl hother hself
  rwa [if_neg fun hc => (by cases hc), hline] at hperm

end Orderly

theorem tables_act (d : Daemon) (as : List Action) :
    (d.act as).tables = d.tables ++ as.filterMap Action.table? := List.filterMap_append

theorem tables_departed (hs : d.session sid = some s) : (d.departed sid).tables = d.tables := by
  rw [tables, departed_trace hs, List.filterMap_append]
  exact List.append_nil _

theorem tables_introduce (sid : ℕ) (pkt : Packet) (r : Proto.Request) :
    (d.introduce sid pkt r).tables = d.tables := by
  simp [tables, introduce, receive, Action.table?]

theorem tables_grant (d : Daemon) (sid i : ℕ) (s : Session) (b : BoardSpec) (argv : List Bytes)
    (pid : Pid) (now : ℤ) : (d.grant sid i s b argv pid now).tables = d.tables := by
  simp [tables, grant, Action.table?]

theorem tables_shuts (h : Shuts d d₁) : d₁.tables = d.tables := by
  cases h with
  | same => rfl
  | kill =>
    rw [tables_act]
    exact List.append_nil _
  | startClosing => simp [tables, startClosing]
  | depart hs => exact tables_departed hs

/-- What the callback for `e` prints of the state `d`. -/
inductive Prints (e : Event) (d d' : Daemon) : Prop
  | none : (∀ k pkt r, d.request? e = some (k, pkt, r) → r.cmd ≠ Proto.listSessions) →
      d'.tables = d.tables → Prints e d d'
  | list {k : ℕ} {pkt : Packet} {r : Proto.Request} {lines : List StatusLine} :
      d.request? e = some (k, pkt, r) → r.cmd = Proto.listSessions →
      d'.tables = d.tables ++ [(k, pkt.fd 1, lines)] →
      lines.Perm (d.busyLines ++ d.waitingLines) → Prints e d d'
  | noBoard {k : ℕ} {pkt : Packet} {r : Proto.Request} {s : Session} {lines : List StatusLine} :
      d.request? e = some (k, pkt, r) → r.cmd = Proto.connect → d.session k = some s →
      d'.tables = d.tables ++ [(k, pkt.fd 2, lines)] →
      lines.Perm (d.busyLines ++ d.waitingLines ++ [waitingLine (asked s pkt r)]) → Prints e d d'

theorem Prints.congr (h : Prints e d d₁) (ht : d'.tables = d₁.tables) : Prints e d d' := by
  cases h with
  | none hreq h => exact .none hreq (ht.trans h)
  | list hreq hcmd h hperm => exact .list hreq hcmd (ht.trans h) hperm
  | noBoard hreq hcmd hs h hperm => exact .noBoard hreq hcmd hs (ht.trans h) hperm

theorem prints_ask (ho : Orderly es d) (hreq : d.request? e = some (sid, pkt, r))
    (hs : d.session sid = some s) (hst : s.status = .created) (hcmd : r.cmd = Proto.connect)
    (noWait : Bool) : Prints e d (((d.introduce sid pkt r).enqueue sid).act
      (((d.introduce sid pkt r).enqueue sid).waitNotice sid (asked s pkt r).fdErr noWait)) := by
  refine .noBoard hreq hcmd hs ?_ (ho.statusLines_enqueue hs hst)
  rw [tables_act]
  exact congrArg (· ++ _) (tables_introduce sid pkt r)

theorem prints_none (he : e.setup? = none) (ht : d'.tables = d.tables) : Prints e d d' := by
  refine .none (fun k pkt r hreq => ?_) ht
  rw [(of_request hreq).1] at he
  cases he

theorem prints_opens (ho : Orderly es d) (h : Opens e d d₁) : Prints e d d₁ := by
  cases h with
  | receive _ hset =>
    refine prints_none hset ?_
    simp [tables, receive, Action.table?]
  | @hangUp sid recv sys he hr =>
    subst he
    cases recv with
    | error _ =>
      refine prints_none rfl ?_
      simp [tables, recvFds]
    | ok pkt =>
      refine prints_none (setup_eq_none_of_recvEnds hr) ?_
      simp [tables, recvFds, Action.table?]
  | wait hreq hs hst hcmd => exact prints_ask ho hreq hs hst hcmd false
  | @turnAway sid pkt r s hreq hs hst hcmd =>
    have hself := enqueue_session_self (session_introduce_self pkt r hs)
    exact (prints_ask ho hreq hs hst hcmd true).congr (tables_departed hself)
  | @list sid pkt r s hreq hs hst _ hcmd =>
    have hprint : Prints e d ((d.introduce sid pkt r).act
        ((d.introduce sid pkt r).statusNotice sid (asked s pkt r).fdOut)) := by
      refine .list hreq hcmd ?_ (ho.statusLines_introduce pkt r hs hst)
      rw [tables_act, tables_introduce]
      rfl
    exact hprint.congr (tables_departed (session_introduce_self pkt r hs))
  | other hreq _ _ _ hne =>
    refine .none (fun k pkt r hreq' => ?_) (tables_introduce ..)
    rw [hreq] at hreq'
    cases hreq'
    exact hne
  | accept hset => exact prints_none hset rfl
  | move hset => exact prints_none hset rfl
  | reap hset => exact prints_none hset rfl
  | adjust hset => exact prints_none hset rfl
  | flag hset => exact prints_none hset rfl

/-- A callback prints one table at most, and it does so whenever a client asks for it. The
table lists every board that is in use, once and with its user, everybody who waits, and the
user who asks for a board and gets none. -/
theorem status_table (h : Run (Next env) (initial bs fs sd) es d)
    (hone : AtMostOneSetup (es ++ [e])) (hn : d.Next env e d') : Prints e d d' := by
  have ho := orderly_run h hone.of_append
  cases course_of_next ho hone hn with
  | quiet hop hsh =>
    have ht := tables_shuts hsh
    exact (prints_opens ho hop).congr ht
  | serve hreq _ _ hcmd =>
    refine .none (fun k pkt r hreq' => ?_) ((tables_grant ..).trans (tables_introduce ..))
    rw [hreq] at hreq'
    cases hreq'
    rw [hcmd]
    decide
  | handOver hop hsh =>
    have ht := tables_shuts hsh
    exact (prints_opens ho hop).congr ((tables_grant ..).trans ht)

/-- The third client asks for the table while the second one waits for the board of the
first one. -/
theorem status_table_third_client : ∃ d d',
    (Run (Next Sample.env) (initial [Sample.board [] []] [] false)
      [Sample.accept, Sample.connect 0 7 100, Sample.accept, Sample.connect 1 8 101,
        Sample.accept] d ∧
      d.Next Sample.env (Sample.setup 2 1 9 [] false 102) d' ∧
      d.busyLines ++ d.waitingLines =
        [⟨ascii "joe", ascii "rpi", ascii "10.0.0.1", 0⟩, ⟨ascii "joe", [], ascii "waiting", 0⟩]) ∧
    Prints (Sample.setup 2 1 9 [] false 102) d d' := by
  obtain ⟨d, d', ⟨hr, hn⟩, hl, _⟩ : ∃ d d', (Run (Next Sample.env)
      (initial [Sample.board [] []] [] false)
      [Sample.accept, Sample.connect 0 7 100, Sample.accept, Sample.connect 1 8 101,
        Sample.accept] d ∧ d.Next Sample.env (Sample.setup 2 1 9 [] false 102) d') ∧
      d.busyLines ++ d.waitingLines =
        [⟨ascii "joe", ascii "rpi", ascii "10.0.0.1", 0⟩, ⟨ascii "joe", [], ascii "waiting", 0⟩] ∧
      d'.tables.length = 2 :=
    exists_run_step (fun d : Daemon => d.busyLines ++ d.waitingLines)
      (fun d : Daemon => d.tables.length) (by decide +kernel)
  exact ⟨d, d', ⟨hr, hn, hl⟩, status_table hr (by decide +kernel) hn⟩

end Daemon
end BoardProxy
