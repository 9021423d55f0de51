import BoardProxy.CallbackParts
import BoardProxy.ClientSessions
import BoardProxy.Drain

/-!
# What a user is told

The daemon writes to the terminal of a user when it answers the setup message and when it
hands over a board. All that a user has been told fits the request of the client and what
has become of it, and names the board on which the command of this user was started.
-/

namespace BoardProxy

def Action.isTo (k : ℕ) : Action → Bool
  | .dprintf sid _ _ | .printStatus sid _ _ => decide (sid = k)
  | _ => false

inductive Reply
  | silent
  | table (lines : List StatusLine)
  | noBoard (lines : List StatusLine)
  | waiting (lines : List StatusLine)
  | connecting (lines : Option (List StatusLine)) (board : Bytes)

namespace Reply

def noBoardNotice (k : ℕ) (fd : ℤ) (lines : List StatusLine) (noWait : Bool) : List Action :=
  [.printStatus k fd lines, .dprintf k fd (ascii "No board currently available." ++
    (if noWait then [] else ascii " Waiting...") ++ [10])]

def boardNotice (k : ℕ) (fd : ℤ) (board : Bytes) : List Action :=
  [.dprintf k fd (ascii "Connecting to board " ++ cStr board ++ [10])]

def actions (k : ℕ) (pkt : Packet) : Reply → List Action
  | silent => []
  | table lines => [.printStatus k (pkt.fd 1) lines]
  | noBoard lines => noBoardNotice k (pkt.fd 2) lines true
  | waiting lines => noBoardNotice k (pkt.fd 2) lines false
  | connecting lines board =>
    lines.elim [] (noBoardNotice k (pkt.fd 2) · false) ++ boardNotice k (pkt.fd 2) board

/-- The request `r` was answered in this way. The session has this status and writes to this
descriptor, or it is gone, and its commands were started on these boards. -/
def Fits (spec : ℕ → Option BoardSpec) (pkt : Packet) (r : Proto.Request)
    (seat : Option (Status × ℤ)) (commands : List ℕ) : Reply → Prop
  | silent => r.cmd ≠ Proto.connect ∧ r.cmd ≠ Proto.listSessions ∧ (∀ x ∈ seat, x.1 = .created) ∧
      commands = []
  | table _ => r.cmd = Proto.listSessions ∧ seat = none ∧ commands = []
  | noBoard _ => r.cmd = Proto.connect ∧ r.noWait = true ∧ seat = none ∧ commands = []
  | waiting _ => r.cmd = Proto.connect ∧ r.noWait = false ∧
      (∀ x ∈ seat, x = (.awaitingBoard, pkt.fd 2)) ∧ commands = []
  | connecting lines board => r.cmd = Proto.connect ∧ (lines ≠ none → r.noWait = false) ∧
      (∀ x ∈ seat, x.1 = .hasBoard ∨ x.1 = .closingBoard) ∧
      ∃ i b, commands = [i] ∧ spec i = some b ∧ b.id = board

variable {spec : ℕ → Option BoardSpec} {pkt : Packet} {r : Proto.Request}
  {seat : Option (Status × ℤ)} {commands : List ℕ} {a : Reply}

theorem Fits.gone (h : a.Fits spec pkt r seat commands) : a.Fits spec pkt r none commands := by
  cases a with
  | silent => exact ⟨h.1, h.2.1, fun _ hx => (by cases hx), h.2.2.2⟩
  | table lines => exact ⟨h.1, rfl, h.2.2⟩
  | noBoard lines => exact ⟨h.1, h.2.1, rfl, h.2.2.2⟩
  | waiting lines => exact ⟨h.1, h.2.1, fun _ hx => (by cases hx), h.2.2.2⟩
  | connecting lines board => exact ⟨h.1, h.2.1, fun _ hx => (by cases hx), h.2.2.2⟩

theorem Fits.closing {fd : ℤ} (h : a.Fits spec pkt r (some (.hasBoard, fd)) commands) :
    a.Fits spec pkt r (some (.closingBoard, fd)) commands := by
  cases a with
  | silent => cases h.2.2.1 _ rfl
  | table lines => cases h.2.1
  | noBoard lines => cases h.2.2.1
  | waiting lines => cases h.2.2.1 _ rfl
  | connecting lines board =>
    refine ⟨h.1, h.2.1, fun x hx => ?_, h.2.2.2⟩
    cases hx
    exact .inr rfl

theorem Fits.handOver {fd : ℤ} {k i : ℕ} {b : BoardSpec}
    (h : a.Fits spec pkt r (some (.awaitingBoard, fd)) commands) (hb : spec i = some b) :
    ∃ a', actions k pkt a' = actions k pkt a ++ boardNotice k fd b.id ∧
      a'.Fits spec pkt r (some (.hasBoard, -1)) (commands ++ [i]) := by
  cases a with
  | silent => cases h.2.2.1 _ rfl
  | table lines => cases h.2.1
  | noBoard lines => cases h.2.2.1
  | waiting lines =>
    obtain ⟨hcmd, hno, hseat, rfl⟩ := h
    obtain rfl : fd = pkt.fd 2 := (Prod.mk.inj (hseat _ rfl)).2
    refine ⟨connecting (some lines) b.id, rfl, hcmd, fun _ => hno, fun x hx => ?_,
      i, b, rfl, hb, rfl⟩
    cases hx
    exact .inl rfl
  | connecting lines board => exact (h.2.2.1 _ rfl).elim (fun h => by cases h) fun h => by cases h

end Reply

def Conversation (spec : ℕ → Option BoardSpec) (es : List Event) (k : ℕ) (told : List Action)
    (commands : List ℕ) (seat : Option (Status × ℤ)) : Prop :=
  (k ∉ setUps es ∧ told = [] ∧ commands = [] ∧ ∀ x ∈ seat, x.1 = .created) ∨
    ∃ pkt r m a, (k, pkt) ∈ setupPackets es ∧
      Proto.readSetup (Memory.store m (pkt.data.take Proto.bufferSize)) = some r ∧
      told = Reply.actions k pkt a ∧ a.Fits spec pkt r seat commands

namespace Conversation

variable {spec : ℕ → Option BoardSpec} {es : List Event} {e : Event} {k i : ℕ} {told : List Action}
  {commands : List ℕ} {seat : Option (Status × ℤ)} {pkt : Packet} {r : Proto.Request} {fd : ℤ}

theorem log (h : Conversation spec es k told commands seat) (he : ¬e.IsSetupFor k) :
    Conversation spec (es ++ [e]) k told commands seat := by
  rcases h with ⟨hk, h⟩ | ⟨pkt, r, m, a, hmem, h⟩
  · refine .inl ⟨?_, h⟩
    rw [setUps_append, List.mem_append, not_or]
    exact ⟨hk, fun hin => he (mem_setUps_singleton.1 hin)⟩
  · refine .inr ⟨pkt, r, m, a, ?_, h⟩
    rw [setupPackets, List.filterMap_append]
    exact List.mem_append_left _ hmem

theorem gone (h : Conversation spec es k told commands seat) :
    Conversation spec es k told commands none := by
  rcases h with ⟨hk, ht, hc, _⟩ | ⟨pkt, r, m, a, hmem, hr, ht, hfit⟩
  · exact .inl ⟨hk, ht, hc, fun x hx => (by cases hx)⟩
  · exact .inr ⟨pkt, r, m, a, hmem, hr, ht, hfit.gone⟩

theorem closing (h : Conversation spec es k told commands (some (.hasBoard, fd))) :
    Conversation spec es k told commands (some (.closingBoard, fd)) := by
  rcases h with ⟨_, _, _, hst⟩ | ⟨pkt, r, m, a, hmem, hr, ht, hfit⟩
  · cases hst _ rfl
  · exact .inr ⟨pkt, r, m, a, hmem, hr, ht, hfit.closing⟩

theorem handOver {b : BoardSpec}
    (h : Conversation spec es k told commands (some (.awaitingBoard, fd)))
    (hb : spec i = some b) : Conversation spec es k (told ++ Reply.boardNotice k fd b.id)
      (commands ++ [i]) (some (.hasBoard, -1)) := by
  rcases h with ⟨_, _, _, hst⟩ | ⟨pkt, r, m, a, hmem, hr, rfl, hfit⟩
  · cases hst _ rfl
  · obtain ⟨a', ha, hfit'⟩ := hfit.handOver hb
    exact .inr ⟨pkt, r, m, a', hmem, hr, ha.symm, hfit'⟩

theorem unasked (h : Conversation spec es k told commands seat) (hk : k ∉ setUps es) :
    told = [] ∧ commands = [] := by
  rcases h with ⟨_, ht, hc, _⟩ | ⟨pkt, _, _, _, hmem, _⟩
  · exact ⟨ht, hc⟩
  · rw [setUps_eq_map] at hk
    exact absurd (List.mem_map_of_mem hmem) hk

theorem answered {m : Memory} {a : Reply} (he : e.setup? = some (k, pkt))
    (hr : Proto.readSetup (m.store (pkt.data.take Proto.bufferSize)) = some r)
    (ht : told = a.actions k pkt) (hfit : a.Fits spec pkt r seat commands) :
    Conversation spec (es ++ [e]) k told commands seat := by
  refine .inr ⟨pkt, r, m, a, ?_, hr, ht, hfit⟩
  rw [setupPackets, List.filterMap_append]
  exact List.mem_append_right _ (by simp [he])

end Conversation

namespace Daemon

variable {env : Env} {d d' d₁ : Daemon} {e : Event} {es : List Event} {sid k i : ℕ} {s : Session}
  {bs : List BoardSpec} {fs : List ProxyFactory} {sd : Bool} {spec : ℕ → Option BoardSpec}

def told (d : Daemon) (k : ℕ) : List Action := d.trace.filter (Action.isTo k)

def commands (d : Daemon) (k : ℕ) : List ℕ :=
  (d.processes.filter fun p => decide (p.session = k ∧ p.kind = .command)).map Process.board

def seat (d : Daemon) (k : ℕ) : Option (Status × ℤ) :=
  (d.session k).map fun s => (s.status, s.fdErr)

def standing (d : Daemon) (k : ℕ) : List Action × List ℕ × Option (Status × ℤ) :=
  (d.told k, d.commands k, d.seat k)

theorem told_act (d : Daemon) (as : List Action) :
    (d.act as).told k = d.told k ++ as.filter (Action.isTo k) := List.filter_append ..

theorem standing_act {as : List Action} (has : as.filter (Action.isTo k) = []) :
    (d.act as).standing k = d.standing k := by
  rw [standing, told_act, has, List.append_nil]
  rfl

theorem standing_modifySession (sid : ℕ) {f : Session → Session} (hid : ∀ s, (f s).id = s.id)
    (hst : ∀ s, (f s).status = s.status) (hfd : ∀ s, (f s).fdErr = s.fdErr) :
    (d.modifySession sid f).standing k = d.standing k := by
  have hseat : (d.modifySession sid f).seat k = d.seat k := by
    rw [seat, session_modifySession d sid k f hid, seat]
    by_cases hk : k = sid
    · subst hk
      rw [if_pos rfl, Option.map_map]
      exact Option.map_congr fun s _ => Prod.ext (hst s) (hfd s)
    · rw [if_neg hk]
  rw [standing, hseat]
  rfl

theorem commands_moveProcess (pid : Pid) (x y : ProcessState) :
    (d.moveProcess pid x y).commands k = d.commands k := by
  simp only [commands, moveProcess, setProcesses, List.filter_map, List.map_map]
  congr 1
  · funext p
    simp only [Function.comp_apply]
    split_ifs <;> rfl
  · congr 1
    funext p
    simp only [Function.comp_apply]
    split_ifs <;> rfl

theorem standing_departed (hs : d.session sid = some s) : (d.departed sid).standing k =
    if k = sid then (d.told k, d.commands k, none) else d.standing k := by
  rw [standing, told, departed_trace hs, commands, (departed_fields hs).2.1, seat, departed_session,
    List.filter_append]
  by_cases hk : k = sid <;> simp [hk, standing, told, commands, seat, Action.isTo]

theorem standing_receive (sid : ℕ) (pkt : Packet) :
    (d.receive sid pkt).standing k = d.standing k := by
  rw [receive, standing_modifySession, standing_act rfl] <;> exact fun _ => rfl

theorem standing_hangUp {recv : Except Errno Packet} (sid : ℕ) :
    ((d.act (recvFds sid recv)).modifySession sid Session.hungUp).standing k = d.standing k := by
  have has : (recvFds sid recv).filter (Action.isTo k) = [] := by
    cases recv <;> rfl
  rw [standing_modifySession, standing_act has] <;> exact fun _ => rfl

theorem standing_moveProcess (pid : Pid) (x y : ProcessState) :
    (d.moveProcess pid x y).standing k = d.standing k := by
  rw [standing, commands_moveProcess]
  rfl

theorem standing_stopChildWatcher (sid : ℕ) :
    (Session.stopChildWatcher d sid).standing k = d.standing k := by
  rw [Session.stopChildWatcher, standing_modifySession] <;> exact fun _ => rfl

theorem standing_grant (hs : d.session sid = some s) (b : BoardSpec) (argv : List Bytes) (pid : Pid)
    (now : ℤ) : (d.grant sid i s b argv pid now).standing k =
      if k = sid then (d.told k ++ Reply.boardNotice k s.fdErr b.id, d.commands k ++ [i],
        some (.hasBoard, -1)) else d.standing k := by
  have hproc : (d.grant sid i s b argv pid now).processes = _ := (grant_fields b argv pid now).2.1
  by_cases hk : k = sid
  · subst hk
    rw [if_pos rfl, standing, commands, hproc, seat, grant_session, if_pos rfl, hs]
    simp [grant, told, commands, Action.isTo, Reply.boardNotice, Session.granted]
  · rw [if_neg hk, standing, commands, hproc, seat, grant_session, if_neg hk]
    simp [grant, standing, told, commands, seat, Action.isTo, Ne.symm hk]

theorem standing_introduce (pkt : Packet) (r : Proto.Request) (hs : d.session sid = some s) :
    (d.introduce sid pkt r).standing k =
      (d.told k, d.commands k, if k = sid then some (s.status, pkt.fd 2) else d.seat k) := by
  have htold : (d.introduce sid pkt r).told k = d.told k := by
    simp [introduce, receive, told, Action.isTo]
  have hseat : (d.introduce sid pkt r).seat k =
      if k = sid then some (s.status, pkt.fd 2) else d.seat k := by
    rw [seat, session_introduce]
    by_cases hk : k = sid
    · rw [if_pos hk, if_pos hk, hs]
      rfl
    · rw [if_neg hk, if_neg hk]
      rfl
  rw [standing, htold, hseat]
  rfl

theorem standing_enqueue (hs : d.session sid = some s) : (d.enqueue sid).standing k =
    (d.told k, d.commands k, if k = sid then some (.awaitingBoard, s.fdErr) else d.seat k) := by
  have hseat : (d.enqueue sid).seat k =
      if k = sid then some (.awaitingBoard, s.fdErr) else d.seat k := by
    rw [seat, enqueue_session]
    by_cases hk : k = sid
    · rw [if_pos hk, if_pos hk, hs]
      rfl
    · rw [if_neg hk, if_neg hk]
      rfl
  rw [standing, hseat]
  rfl

theorem standing_startClosing (sid i : ℕ) (argv : List Bytes) (pid : Pid) :
    (d.startClosing sid i argv pid).standing k = (d.told k, d.commands k,
      if k = sid then (d.seat k).map fun x => (.closingBoard, x.2) else d.seat k) := by
  have hcmd : (d.startClosing sid i argv pid).commands k = d.commands k := by
    rw [commands, (startClosing_fields argv pid).2.2.1]
    simp [commands]
  have hseat : (d.startClosing sid i argv pid).seat k =
      if k = sid then (d.seat k).map fun x => (.closingBoard, x.2) else d.seat k := by
    rw [seat, startClosing_session]
    by_cases hk : k = sid
    · subst hk
      rw [if_pos rfl, if_pos rfl, seat, Option.map_map, Option.map_map]
      rfl
    · rw [if_neg hk, if_neg hk]
      rfl
  rw [standing, hcmd, hseat]
  rfl

def Conversed (spec : ℕ → Option BoardSpec) (es : List Event) (d : Daemon) (k : ℕ) : Prop :=
  Conversation spec es k (d.told k) (d.commands k) (d.seat k)

namespace Conversed

theorem congr (h : Conversed spec es d k) (hst : d'.standing k = d.standing k) :
    Conversed spec es d' k := by
  simp only [standing, Prod.mk.injEq] at hst
  rwa [Conversed, hst.1, hst.2.1, hst.2.2]

theorem other (h : Conversed spec es d k) (he : ¬e.IsSetupFor k)
    (hst : d'.standing k = d.standing k) : Conversed spec (es ++ [e]) d' k :=
  Conversed.congr (d := d) (Conversation.log h he) hst

theorem answer {pkt : Packet} {r : Proto.Request} {cs : List ℕ} {seat : Option (Status × ℤ)}
    (h : Conversed spec es d k) (hone : AtMostOneSetup (es ++ [e]))
    (hreq : d.request? e = some (sid, pkt, r)) (a : Reply)
    (hst : d'.standing k = if k = sid then (d.told k ++ a.actions k pkt, d.commands k ++ cs, seat)
      else d.standing k)
    (hfit : a.Fits spec pkt r seat cs) : Conversed spec (es ++ [e]) d' k := by
  have hset := isSetupFor_of_request hreq
  by_cases hk : k = sid
  · subst hk
    obtain ⟨hpkt, _, t, _, hread⟩ := of_request hreq
    obtain ⟨ht, hc⟩ := Conversation.unasked h (hone.notMem hset)
    rw [if_pos rfl, ht, hc] at hst
    simp only [standing, Prod.mk.injEq, List.nil_append] at hst
    rw [Conversed, hst.1, hst.2.1, hst.2.2]
    exact .answered hpkt hread rfl hfit
  · rw [if_neg hk] at hst
    exact h.other (fun he => hk (Option.some.inj (he.symm.trans hset))) hst

theorem dismiss {pkt : Packet} {r : Proto.Request} {t : Session} {seat : Option (Status × ℤ)}
    (h : Conversed spec es d k) (hone : AtMostOneSetup (es ++ [e]))
    (hreq : d.request? e = some (sid, pkt, r)) (a : Reply) (ht : d₁.session sid = some t)
    (hst : d₁.standing k = if k = sid then (d.told k ++ a.actions k pkt, d.commands k, seat)
      else d.standing k)
    (hfit : a.Fits spec pkt r none []) : Conversed spec (es ++ [e]) (d₁.departed sid) k := by
  refine h.answer hone hreq a ?_ hfit
  rw [standing_departed ht]
  by_cases hk : k = sid
  · rw [if_pos hk] at hst
    simp only [standing, Prod.mk.injEq] at hst
    rw [if_pos hk, if_pos hk, hst.1, hst.2.1, List.append_nil]
  · rw [if_neg hk] at hst
    rw [if_neg hk, if_neg hk, hst]

theorem accept (h : Conversed spec es d k) (he : ¬e.IsSetupFor k)
    (hnew : d.session d.counter = none) (hlt : ∀ k ∈ setUps es, k < d.counter) (cred : Bytes)
    (ppid : Pid) (buffer : Memory) (now : ℤ) :
    Conversed spec (es ++ [e]) (d.onClientConnecting cred ppid buffer now) k := by
  have hseat : (d.onClientConnecting cred ppid buffer now).seat k =
      if k = d.counter then some (.created, -1) else d.seat k := by
    rw [seat, seat, onClientConnecting, session_addSession]
    by_cases hk : k = d.counter
    · subst hk
      simp [hnew]
    · simp [hk, Ne.symm hk]
  by_cases hk : k = d.counter
  · subst hk
    rw [if_pos rfl] at hseat
    have hnot : d.counter ∉ setUps es := fun hin => Nat.lt_irrefl _ (hlt _ hin)
    obtain ⟨ht, hc⟩ := Conversation.unasked h hnot
    refine Conversation.log (.inl ⟨hnot, ht, hc, fun x hx => ?_⟩) he
    rw [hseat] at hx
    cases hx
    rfl
  · rw [if_neg hk] at hseat
    refine h.other he ?_
    rw [standing, hseat]
    rfl

end Conversed

theorem standing_act_of_eq {as : List Action} (has : as.filter (Action.isTo k) = as) :
    (d.act as).standing k = (d.told k ++ as, d.commands k, d.seat k) := by
  rw [standing, told_act, has]
  rfl

theorem standing_ask (pkt : Packet) (r : Proto.Request) (noWait : Bool)
    (hs : d.session sid = some s) : ∃ lines,
      (((d.introduce sid pkt r).enqueue sid).act (((d.introduce sid pkt r).enqueue sid).waitNotice
        sid (asked s pkt r).fdErr noWait)).standing k =
      if k = sid then (d.told k ++ Reply.noBoardNotice k (pkt.fd 2) lines noWait, d.commands k,
        some (.awaitingBoard, pkt.fd 2))
      else d.standing k := by
  refine ⟨((d.introduce sid pkt r).enqueue sid).statusLines, ?_⟩
  have hi := standing_introduce (k := k) pkt r hs
  have hq := standing_enqueue (k := k) (session_introduce_self pkt r hs)
  simp only [standing, Prod.mk.injEq] at hi
  rw [hi.1, hi.2.1, hi.2.2] at hq
  by_cases hk : k = sid
  · subst hk
    simp only [standing, Prod.mk.injEq, if_pos] at hq
    rw [if_pos rfl, standing_act_of_eq (by simp [waitNotice, statusNotice, Action.isTo]), hq.1,
      hq.2.1, hq.2.2]
    rfl
  · rw [if_neg hk, if_neg hk] at hq
    rw [if_neg hk, standing_act (by simp [waitNotice, statusNotice, Action.isTo, Ne.symm hk]), hq]
    rfl

theorem standing_list {pkt : Packet} {r : Proto.Request} (hs : d.session sid = some s) :
    ((d.introduce sid pkt r).act
      ((d.introduce sid pkt r).statusNotice sid (asked s pkt r).fdOut)).standing k =
    if k = sid then (d.told k ++ [.printStatus k (pkt.fd 1) (d.introduce sid pkt r).statusLines],
      d.commands k, some (s.status, pkt.fd 2))
    else d.standing k := by
  have hi := standing_introduce (k := k) pkt r hs
  by_cases hk : k = sid
  · subst hk
    simp only [standing, Prod.mk.injEq, if_pos] at hi
    rw [if_pos rfl, standing_act_of_eq (by simp [statusNotice, Action.isTo]), hi.1, hi.2.1, hi.2.2]
    rfl
  · rw [if_neg hk] at hi
    rw [if_neg hk, standing_act (by simp [statusNotice, Action.isTo, Ne.symm hk]), hi]
    rfl

namespace Conversed

theorem opens (h : Conversed spec es d k) (hone : AtMostOneSetup (es ++ [e]))
    (hlt : ∀ k ∈ setUps es, k < d.counter) (hop : Opens e d d₁) :
    Conversed spec (es ++ [e]) d₁ k := by
  have hno : e.setup? = none → ¬e.IsSetupFor k := by
    intro hset hfor
    rw [Event.IsSetupFor, hset] at hfor
    cases hfor
  cases hop with
  | accept hset hnew => exact h.accept (hno hset) hnew hlt _ _ _ _
  | receive _ hset => exact h.other (hno hset) (standing_receive _ _)
  | @hangUp sid recv sys he hr =>
    subst he
    have hset : (Event.clientData sid recv sys).setup? = none := by
      cases recv with
      | error _ => rfl
      | ok pkt => exact setup_eq_none_of_recvEnds hr
    exact h.other (hno hset) (standing_hangUp sid)
  | @wait sid pkt r s hreq hs _ hcmd hnw =>
    obtain ⟨lines, hst⟩ := standing_ask (k := k) pkt r false hs
    rw [← List.append_nil (d.commands k)] at hst
    exact h.answer hone hreq (.waiting lines) hst ⟨hcmd, hnw, fun x hx => (by cases hx; rfl), rfl⟩
  | @turnAway sid pkt r s hreq hs _ hcmd hnw =>
    obtain ⟨lines, hst⟩ := standing_ask (k := k) pkt r true hs
    have hself := enqueue_session_self (session_introduce_self pkt r hs)
    exact h.dismiss hone hreq (.noBoard lines) hself hst ⟨hcmd, hnw, rfl, rfl⟩
  | @list sid pkt r s hreq hs _ _ hcmd =>
    have hself := session_introduce_self pkt r hs
    exact h.dismiss hone hreq (.table _) hself (standing_list hs) ⟨hcmd, rfl, rfl⟩
  | @other sid pkt r s hreq hs hst hne hne' =>
    have hi : (d.introduce sid pkt r).standing k = if k = sid then
        (d.told k ++ Reply.silent.actions k pkt, d.commands k ++ [], some (s.status, pkt.fd 2))
        else d.standing k := by
      rw [standing_introduce pkt r hs, List.append_nil, Reply.actions, List.append_nil]
      split_ifs <;> rfl
    exact h.answer hone hreq .silent hi ⟨hne, hne', fun x hx => (by cases hx; exact hst), rfl⟩
  | move hset => exact h.other (hno hset) (standing_moveProcess _ _ _)
  | reap hset =>
    exact h.other (hno hset) ((standing_stopChildWatcher _).trans (standing_moveProcess _ _ _))
  | adjust hset hf =>
    refine h.other (hno hset) (standing_modifySession _ (fun s => ?_) (fun s => ?_) fun s => ?_)
    · exact congrArg (fun x => x.1) (hf s)
    · exact congrArg (fun x => x.2.1) (hf s)
    · exact congrArg (fun x => x.2.2.2.2.2) (hf s)
  | flag hset => exact h.other (hno hset) rfl

theorem shuts (h : Conversed spec es d k) (hsh : Shuts d d₁) : Conversed spec es d₁ k := by
  cases hsh with
  | same => exact h
  | kill => exact h.congr (standing_act rfl)
  | @startClosing sid i s argv pid hs hst =>
    have hcl := standing_startClosing (d := d) (k := k) sid i argv pid
    by_cases hk : k = sid
    · subst hk
      have hseat : d.seat k = some (.hasBoard, s.fdErr) := by
        rw [seat, hs, Option.map_some, hst]
      rw [Conversed, hseat] at h
      rw [if_pos rfl, hseat] at hcl
      simp only [standing, Prod.mk.injEq, Option.map_some] at hcl
      rw [Conversed, hcl.1, hcl.2.1, hcl.2.2]
      exact Conversation.closing h
    · rw [if_neg hk] at hcl
      exact h.congr hcl
  | @depart sid s hs =>
    have hdep := standing_departed (k := k) hs
    by_cases hk : k = sid
    · rw [if_pos hk] at hdep
      simp only [standing, Prod.mk.injEq] at hdep
      rw [Conversed, hdep.1, hdep.2.1, hdep.2.2]
      exact Conversation.gone h
    · rw [if_neg hk] at hdep
      exact h.congr hdep

theorem serve {pkt : Packet} {r : Proto.Request} {b : BoardSpec} (h : Conversed spec es d k)
    (hone : AtMostOneSetup (es ++ [e])) (hreq : d.request? e = some (sid, pkt, r))
    (hs : d.session sid = some s) (hcmd : r.cmd = Proto.connect) (hb : spec i = some b)
    (argv : List Bytes) (pid : Pid) (now : ℤ) : Conversed spec (es ++ [e])
      ((d.introduce sid pkt r).grant sid i (asked s pkt r) b argv pid now) k := by
  have hfit : (Reply.connecting none b.id).Fits spec pkt r (some (.hasBoard, -1)) [i] :=
    ⟨hcmd, fun hn => absurd rfl hn, fun x hx => (by cases hx; exact .inl rfl), i, b, rfl, hb, rfl⟩
  refine h.answer hone hreq _ ?_ hfit
  have hi := standing_introduce (k := k) pkt r hs
  have hself : (d.introduce sid pkt r).session sid = some (asked s pkt r) :=
    session_introduce_self pkt r hs
  rw [standing_grant hself]
  by_cases hk : k = sid
  · simp only [standing, Prod.mk.injEq] at hi
    rw [if_pos hk, if_pos hk, hi.1, hi.2.1]
    rfl
  · rw [if_neg hk] at hi
    rw [if_neg hk, if_neg hk, hi]
    rfl

theorem handOver {b : BoardSpec} {x : Bool} (h : Conversed spec es d k)
    (hs : d.session sid = some s) (hst : s.status = .awaitingBoard) (hb : spec i = some b)
    (argv : List Bytes) (pid : Pid) (now : ℤ) : Conversed spec es
      { (d.dequeue sid).grant sid i s b argv pid now with breakLoop := x } k := by
  have hgr := standing_grant (d := d.dequeue sid) (k := k) (i := i) hs b argv pid now
  by_cases hk : k = sid
  · subst hk
    have hseat : d.seat k = some (.awaitingBoard, s.fdErr) := by
      rw [seat, hs, Option.map_some, hst]
    rw [Conversed, hseat] at h
    rw [if_pos rfl] at hgr
    simp only [standing, Prod.mk.injEq] at hgr
    change Conversation spec es k (((d.dequeue k).grant k i s b argv pid now).told k)
      (((d.dequeue k).grant k i s b argv pid now).commands k)
      (((d.dequeue k).grant k i s b argv pid now).seat k)
    rw [hgr.1, hgr.2.1, hgr.2.2]
    exact Conversation.handOver h hb
  · rw [if_neg hk] at hgr
    exact h.congr hgr

theorem step (h : Conversed spec es d k) (ho : Orderly es d) (hone : AtMostOneSetup (es ++ [e]))
    (hlt : ∀ k ∈ setUps es, k < d.counter) (hd : d.spec = spec) (hd' : d'.spec = spec)
    (hn : d.Next env e d') : Conversed spec (es ++ [e]) d' k := by
  cases course_of_next ho hone hn with
  | quiet hop hsh => exact ((h.opens hone hlt hop).shuts hsh).congr rfl
  | serve hreq hs _ hcmd hb => exact h.serve hone hreq hs hcmd (hd ▸ hb) _ _ _
  | @handOver d₁ d₂ v i t b argv pid now x hop hsh _ hs hst hb =>
    have hspec : spec i = some b := by
      rw [← hd', ← hb]
      exact grant_spec (s := t) b argv pid now
    exact ((h.opens hone hlt hop).shuts hsh).handOver hs hst hspec _ _ _

end Conversed

end Daemon

namespace Installation

variable {env : Env} {w : Installation} {ms : List Move} {c k : ℕ} {p : Peer}
  {bs : List BoardSpec} {fs : List ProxyFactory} {sd : Bool}

end Installation
end BoardProxy
