import BoardProxy.CallbackCases

/-!
# What holds in every run

Nothing is assumed of the clients here: they may send setup messages as often as they
like, and of any form. Numbers of sessions are unique, whoever waits in the queue
exists, and a session with a board has a command that runs, except while the callback
at the end of this command is at work. That session is then the hole.
-/

namespace BoardProxy
namespace Daemon

variable {env : Env} {sys : Sys} {d d' : Daemon} {e : Event} {sid k i : ℕ} {s : Session}
  {hole hole' : Option ℕ}

structure Sound (hole : Option ℕ) (d : Daemon) : Prop where
  ids : (d.sessions.map Session.id).Nodup
  fresh : ∀ k s, d.session k = some s → k < d.counter
  queued : ∀ k ∈ d.waitQueue, d.session k ≠ none
  board : ∀ k s, d.session k = some s → s.status = .hasBoard →
    ∃ i b, s.board = some i ∧ d.spec i = some b
  child : ∀ k s, d.session k = some s → s.status = .hasBoard → some k ≠ hole →
    s.childWatcher ≠ none

namespace Sound

theorem weaken (h : Sound none d) (hole : Option ℕ) : Sound hole d :=
  ⟨h.ids, h.fresh, h.queued, h.board,
    fun k s hs hst _ => h.child k s hs hst (Option.some_ne_none k)⟩

theorem session_of_mem (h : Sound hole d) (hs : s ∈ d.sessions) : d.session s.id = some s :=
  KeyedList.lookup_of_mem h.ids hs

theorem session_counter (h : Sound hole d) : d.session d.counter = none := by
  by_contra hne
  obtain ⟨s, hs⟩ := Option.ne_none_iff_exists'.1 hne
  exact absurd (h.fresh _ s hs) (Nat.lt_irrefl _)

theorem of_sessions (h : Sound hole d) (hs : d'.sessions = d.sessions)
    (hc : d'.counter = d.counter) (hq : d'.waitQueue ⊆ d.waitQueue)
    (hsp : ∀ i, d'.spec i = d.spec i) : Sound hole d' := by
  have hk : ∀ k, d'.session k = d.session k := fun k => by rw [Daemon.session, hs]; rfl
  refine ⟨?_, ?_, ?_, ?_, ?_⟩
  · rw [hs]
    exact h.ids
  · intro k s hs'
    rw [hc]
    exact h.fresh k s (hk k ▸ hs')
  · intro k hmem
    rw [hk]
    exact h.queued k (hq hmem)
  · intro k s hs' hst
    obtain ⟨i, b, hi, hb⟩ := h.board k s (hk k ▸ hs') hst
    exact ⟨i, b, hi, (hsp i).trans hb⟩
  · intro k s hs'
    exact h.child k s (hk k ▸ hs')

theorem of_map (h : Sound hole d) (sid : ℕ) (f : Session → Session)
    (hids : d'.sessions.map Session.id = d.sessions.map Session.id)
    (hd : ∀ k, d'.session k = if k = sid then (d.session sid).map f else d.session k)
    (hc : d'.counter = d.counter) (hq : d'.waitQueue ⊆ d.waitQueue)
    (hsp : ∀ i, d'.spec i = d.spec i) (hhole : ∀ k, k ≠ sid → some k ≠ hole' → some k ≠ hole)
    (hf : ∀ s, d.session sid = some s → (f s).status = .hasBoard →
      (∃ i b, (f s).board = some i ∧ d.spec i = some b) ∧
        (some sid ≠ hole' → (f s).childWatcher ≠ none)) : Sound hole' d' := by
  have hcase : ∀ k s', d'.session k = some s' →
      (k ≠ sid ∧ d.session k = some s') ∨ k = sid ∧ ∃ s, d.session sid = some s ∧ s' = f s := by
    intro k s' hs'
    rw [hd] at hs'
    by_cases hk : k = sid
    · rw [if_pos hk] at hs'
      obtain ⟨s, hs, rfl⟩ := Option.map_eq_some_iff.1 hs'
      exact Or.inr ⟨hk, s, hs, rfl⟩
    · rw [if_neg hk] at hs'
      exact Or.inl ⟨hk, hs'⟩
  refine ⟨?_, ?_, ?_, ?_, ?_⟩
  · rw [hids]
    exact h.ids
  · intro k s' hs'
    rw [hc]
    rcases hcase k s' hs' with ⟨_, hs⟩ | ⟨rfl, s, hs, _⟩
    · exact h.fresh k s' hs
    · exact h.fresh k s hs
  · intro k hmem hn
    have hex := h.queued k (hq hmem)
    rw [hd] at hn
    by_cases hk : k = sid
    · rw [if_pos hk, Option.map_eq_none_iff] at hn
      exact hex (hk ▸ hn)
    · rw [if_neg hk] at hn
      exact hex hn
  · intro k s' hs' hst
    rcases hcase k s' hs' with ⟨_, hs⟩ | ⟨rfl, s, hs, rfl⟩
    · obtain ⟨i, b, hi, hb⟩ := h.board k s' hs hst
      exact ⟨i, b, hi, (hsp i).trans hb⟩
    · obtain ⟨i, b, hi, hb⟩ := (hf s hs hst).1
      exact ⟨i, b, hi, (hsp i).trans hb⟩
  · intro k s' hs' hst hne
    rcases hcase k s' hs' with ⟨hk, hs⟩ | ⟨rfl, s, hs, rfl⟩
    · exact h.child k s' hs hst (hhole k hk hne)
    · exact (hf s hs hst).2 hne

theorem quiet {f : Session → Session} (h : Sound hole d) (hid : ∀ s, (f s).id = s.id)
    (hf : ∀ s, (f s).status = s.status ∧ (f s).board = s.board ∧
      (f s).childWatcher = s.childWatcher) : Sound hole (d.modifySession sid f) := by
  refine h.of_map sid f ?_ (fun k => session_modifySession d sid k f hid) rfl
    (List.Subset.refl _) (fun _ => rfl) (fun _ _ hne => hne) fun s hs hst => ?_
  · exact KeyedList.keys_modify sid f hid d.sessions
  · obtain ⟨h₁, h₂, h₃⟩ := hf s
    rw [h₁] at hst
    rw [h₂, h₃]
    exact ⟨h.board sid s hs hst, h.child sid s hs hst⟩

theorem departed (h : Sound (some sid) d) (hs : d.session sid = some s) :
    Sound none (d.departed sid) := by
  obtain ⟨hq, _, hc, hss⟩ := departed_fields hs
  have hcase : ∀ k s', (d.departed sid).session k = some s' → k ≠ sid ∧ d.session k = some s' := by
    intro k s' hs'
    rw [departed_session] at hs'
    split_ifs at hs' with hk
    exact ⟨hk, hs'⟩
  refine ⟨?_, ?_, ?_, ?_, ?_⟩
  · rw [hss, KeyedList.keys_remove]
    exact h.ids.filter _
  · intro k s' hs'
    rw [hc]
    exact h.fresh k s' (hcase k s' hs').2
  · intro k hmem
    rw [hq, List.mem_filter, decide_eq_true_eq] at hmem
    rw [departed_session, if_neg hmem.2]
    exact h.queued k hmem.1
  · intro k s' hs' hst
    obtain ⟨i, b, hi, hb⟩ := h.board k s' (hcase k s' hs').2 hst
    exact ⟨i, b, hi, departed_spec.trans hb⟩
  · intro k s' hs' hst _
    obtain ⟨hk, hs'⟩ := hcase k s' hs'
    exact h.child k s' hs' hst fun he => hk (Option.some.inj he)

theorem grant {b : BoardSpec} {argv : List Bytes} {pid : Pid} {now : ℤ} (h : Sound none d)
    (hb : d.spec i = some b) : Sound none (d.grant sid i s b argv pid now) := by
  have hq : (d.grant sid i s b argv pid now).waitQueue = d.waitQueue := (grant_fields ..).1
  refine h.of_map sid (Session.granted i pid now) (grant_keys ..) (fun _ => grant_session ..)
    (grant_fields ..).2.2 ?_ (fun _ => grant_spec ..) (fun _ _ hne => hne) fun s hs _ => ?_
  · rw [hq]
    exact List.Subset.refl _
  · exact ⟨⟨i, b, rfl, hb⟩, fun _ => Option.some_ne_none _⟩

theorem exitIfIdle (h : Sound hole d) : Sound hole d.exitIfIdle := by
  rw [exitIfIdle_eq_silent]
  exact h.of_sessions rfl rfl (List.Subset.refl _) fun _ => rfl

theorem act (h : Sound hole d) (as : List Action) : Sound hole (d.act as) :=
  h.of_sessions rfl rfl (List.Subset.refl _) fun _ => rfl

theorem dequeue (h : Sound hole d) (v : ℕ) : Sound hole (d.dequeue v) :=
  h.of_sessions rfl rfl (List.filter_subset_self _) fun _ => rfl

theorem leaves (h : Sound (some sid) d) (hs : d.session sid = some s)
    (hl : Leaves env sys d sid d') : Sound none d' := by
  have hdep := h.departed hs
  cases hl with
  | idle _ => exact hdep.exitIfIdle
  | @handOver v i t b argv pid _ _ hb _ _ =>
    refine (grant (hdep.dequeue v) ?_).exitIfIdle
    rw [dequeue_spec, departed_spec]
    exact hb

theorem closes (h : Sound (some sid) d) (hs : d.session sid = some s)
    (hc : Closes env sys d sid s d') : Sound none d' := by
  cases hc with
  | @kill c _ hch =>
    refine act (⟨h.ids, h.fresh, h.queued, h.board, fun k t ht hst _ => ?_⟩ : Sound none d) _
    by_cases hk : k = sid
    · subst hk
      rw [hs, Option.some.injEq] at ht
      rw [← ht, hch]
      exact Option.some_ne_none c
    · exact h.child k t ht hst fun he => hk (Option.some.inj he)
  | @startClosing i b argv pid _ _ _ _ _ _ =>
    have hb : (d.startClosing sid i argv pid).boards = d.boards := (startClosing_fields ..).1
    have hq : (d.startClosing sid i argv pid).waitQueue = d.waitQueue :=
      (startClosing_fields ..).2.1
    refine h.of_map sid (Session.closing pid) (startClosing_keys ..)
      (fun _ => startClosing_session ..) (startClosing_fields ..).2.2.2 ?_ ?_ ?_ ?_
    · rw [hq]
      exact List.Subset.refl _
    · intro j
      rw [spec, hb]
      rfl
    · exact fun k hk _ he => hk (Option.some.inj he)
    · exact fun _ _ hst => by cases hst
  | leave _ hl => exact h.leaves hs hl

theorem enqueue (h : Sound none d) (hs : d.session sid = some s) : Sound none (d.enqueue sid) := by
  have hk : Sound none (d.setAwaiting sid) := by
    refine h.of_map sid (fun s => { s with status := .awaitingBoard }) ?_
      (fun k => session_modifySession d sid k _ fun _ => rfl) rfl (List.Subset.refl _)
      (fun _ => rfl) (fun _ _ hne => hne) fun _ _ hst => by cases hst
    apply KeyedList.keys_modify
    exact fun _ => rfl
  refine ⟨hk.ids, hk.fresh, fun k hmem => ?_, hk.board, hk.child⟩
  rcases List.mem_append.1 hmem with hmem | hmem
  · exact hk.queued k hmem
  · rw [List.mem_singleton.1 hmem, enqueue_session_self hs]
    exact Option.some_ne_none _

theorem connects {noWait : Bool} (h : Sound none d) (hs : d.session sid = some s)
    (hc : Connects env sys d sid s noWait d') : Sound none d' := by
  cases hc with
  | grant _ hb => exact h.grant hb
  | wait => exact (h.enqueue hs).act _
  | @turnAway as d' _ _ hl =>
    exact (((h.enqueue hs).act as).weaken (some sid)).leaves (enqueue_session_self hs) hl

theorem receive (h : Sound hole d) (sid : ℕ) (pkt : Packet) : Sound hole (d.receive sid pkt) :=
  (h.act _).quiet (fun _ => rfl) fun _ => ⟨rfl, rfl, rfl⟩

theorem introduce (h : Sound hole d) (sid : ℕ) (pkt : Packet) (r : Proto.Request) :
    Sound hole (d.introduce sid pkt r) :=
  (h.receive sid pkt).quiet (fun _ => rfl) fun _ => ⟨rfl, rfl, rfl⟩

theorem stop (h : Sound none d) (sid : ℕ) : Sound (some sid) (Session.stopChildWatcher d sid) := by
  refine h.of_map sid (fun s => { s with childWatcher := none }) ?_
    (fun k => session_stopChildWatcher) rfl (List.Subset.refl _) (fun _ => rfl)
    (fun k _ _ => Option.some_ne_none k) fun s hs hst => ?_
  · apply KeyedList.keys_modify
    exact fun _ => rfl
  · exact ⟨h.board sid s hs hst, fun hne => absurd rfl hne⟩

theorem accept {cred : Bytes} {ppid : Pid} {buffer : Memory} {now : ℤ} (h : Sound none d) :
    Sound none (d.onClientConnecting cred ppid buffer now) := by
  have hcase : ∀ k s', (d.onClientConnecting cred ppid buffer now).session k = some s' →
      d.session k = some s' ∨ k = d.counter ∧ s'.status = .created := by
    intro k s' hs'
    rw [onClientConnecting, session_addSession] at hs'
    cases hs : d.session k with
    | some s => exact Or.inl (by rwa [hs, Option.some_or] at hs')
    | none =>
      rw [hs, Option.none_or] at hs'
      split_ifs at hs' with hk
      exact Or.inr ⟨hk.symm, by rw [← Option.some.inj hs']⟩
  refine ⟨?_, ?_, ?_, ?_, ?_⟩
  · rw [onClientConnecting, addSession_sessions, List.map_append, List.nodup_append]
    refine ⟨h.ids, List.nodup_singleton _, ?_⟩
    rintro a ha b hb rfl
    obtain ⟨s, hs, rfl⟩ := List.mem_map.1 ha
    have hlt := h.fresh _ _ (h.session_of_mem hs)
    exact absurd (List.mem_singleton.1 hb) (Nat.ne_of_lt hlt)
  · intro k s' hs'
    rcases hcase k s' hs' with hs | ⟨rfl, _⟩
    · exact Nat.lt_succ_of_lt (h.fresh k s' hs)
    · exact Nat.lt_succ_self _
  · intro k hmem
    obtain ⟨s, hs⟩ := Option.ne_none_iff_exists'.1 (h.queued k hmem)
    rw [onClientConnecting, session_addSession, hs, Option.some_or]
    exact Option.some_ne_none s
  · intro k s' hs' hst
    rcases hcase k s' hs' with hs | ⟨_, hcr⟩
    · exact h.board k s' hs hst
    · rw [hst] at hcr
      cases hcr
  · intro k s' hs' hst hne
    rcases hcase k s' hs' with hs | ⟨_, hcr⟩
    · exact h.child k s' hs hst hne
    · rw [hst] at hcr
      cases hcr

theorem callback (h : Sound none d) (hc : Callback env d e d') : Sound none d' := by
  cases hc with
  | accept => exact h.accept
  | @hangUp sid recv sys as s d' _ hs _ _ hcl =>
    have hh : Sound none ((d.act as).modifySession sid Session.hungUp) :=
      (h.act as).quiet (fun _ => rfl) fun _ => ⟨rfl, rfl, rfl⟩
    exact (hh.weaken _).closes (session_hangUp_self as hs) hcl
  | ignore => exact h.receive ..
  | noFds _ _ _ ht hcl h₂ =>
    obtain ⟨u, hu, hcl'⟩ := closes_of_closeSession h₂
    exact (((h.receive ..).weaken _).closes ht hcl).weaken _ |>.closes hu hcl'
  | connect _ hs _ _ hcon => exact (h.introduce ..).connects (session_introduce_self _ _ hs) hcon
  | @listSessions sid pkt sys r as s d' _ hs _ _ hcl =>
    exact (((h.introduce sid pkt r).act as).weaken _).closes (session_introduce_self pkt r hs) hcl
  | otherCommand => exact h.introduce ..
  | processExits => exact h.of_sessions rfl rfl (List.Subset.refl _) fun _ => rfl
  | reapUnwatched => exact h.of_sessions rfl rfl (List.Subset.refl _) fun _ => rfl
  | @reap pid sys s t c d' _ _ _ _ _ ht hcl =>
    have hm : Sound none (d.moveProcess pid .zombie .reaped) :=
      h.of_sessions rfl rfl (List.Subset.refl _) fun _ => rfl
    exact (hm.stop s.id).closes (session_stop_moveProcess ht) hcl
  | unrouted => exact h
  | attach => exact h.quiet (fun _ => rfl) fun _ => ⟨rfl, rfl, rfl⟩
  | proxied => exact h.quiet (fun _ => rfl) fun _ => ⟨rfl, rfl, rfl⟩
  | signal => exact h.of_sessions rfl rfl (List.Subset.refl _) fun _ => rfl

end Sound

section Runs

variable {bs : List BoardSpec} {fs : List ProxyFactory} {sd : Bool}

theorem sound_initial : Sound none (initial bs fs sd) :=
  ⟨List.nodup_nil, fun _ _ hs => (by cases hs), fun _ hk => (by cases hk),
    fun _ _ hs => (by cases hs), fun _ _ hs => (by cases hs)⟩

theorem sound_run {es : List Event} (h : Run (Next env) (initial bs fs sd) es d) : Sound none d :=
  h.invariant (Sound none) sound_initial fun _ _ _ hs hn => hs.callback (callback_of_next hn)

end Runs
end Daemon
end BoardProxy
