import BoardProxy.Tenure
import Mathlib.Order.Bounds.Basic

/-!
# Which board a session gets

A session gets the first free board that is reserved for its user, and if there
is none, the first free board that is open to everybody. This holds in every run
and at both places that hand out boards. That nobody waits beside a board which
it could have is another matter: the scan of the queue serves one session only.
-/

namespace BoardProxy

theorem findIdx?_eq_some_iff_isLeast {α : Type*} {l : List α} {p : α → Bool} {i : ℕ} :
    l.findIdx? p = some i ↔ IsLeast {j | ∃ a, l[j]? = some a ∧ p a = true} i := by
  rw [List.findIdx?_eq_some_iff_getElem]
  constructor
  · rintro ⟨hi, hp, hmin⟩
    refine ⟨⟨l[i], List.getElem?_eq_getElem hi, hp⟩, ?_⟩
    rintro j ⟨a, ha, hpa⟩
    by_contra hji
    obtain ⟨hj, rfl⟩ := List.getElem?_eq_some_iff.1 ha
    exact hmin j (Nat.lt_of_not_le hji) hpa
  · rintro ⟨⟨a, ha, hp⟩, hmin⟩
    obtain ⟨hi, rfl⟩ := List.getElem?_eq_some_iff.1 ha
    refine ⟨hi, hp, fun j hji hpj => ?_⟩
    have hj := Nat.lt_trans hji hi
    exact absurd (hmin ⟨l[j], List.getElem?_eq_getElem hj, hpj⟩) (Nat.not_le.2 hji)

theorem findIdx?_eq_none_iff_empty {α : Type*} {l : List α} {p : α → Bool} :
    l.findIdx? p = none ↔ {j : ℕ | ∃ a, l[j]? = some a ∧ p a = true} = ∅ := by
  rw [List.findIdx?_eq_none_iff, Set.eq_empty_iff_forall_notMem]
  constructor
  · rintro h j ⟨a, ha, hp⟩
    exact absurd (hp.symm.trans (h a (List.mem_of_getElem? ha))) (by decide)
  · intro h a ha
    obtain ⟨j, hj⟩ := List.mem_iff_getElem?.1 ha
    exact Bool.eq_false_iff.2 fun hp => h j ⟨a, hj, hp⟩

section Rule

variable {spec : ℕ → Option BoardSpec} {A : Set ℕ} {name : Bytes} {i : ℕ}

def reservedBoards (spec : ℕ → Option BoardSpec) (A : Set ℕ) (name : Bytes) : Set ℕ :=
  {i | i ∈ A ∧ ∃ b, spec i = some b ∧ b.reservedFor ≠ [] ∧ b.reservedFor = name}

def openBoards (spec : ℕ → Option BoardSpec) (A : Set ℕ) : Set ℕ :=
  {i | i ∈ A ∧ ∃ b, spec i = some b ∧ b.reservedFor = []}

def Selected (spec : ℕ → Option BoardSpec) (A : Set ℕ) (name : Bytes) (i : ℕ) : Prop :=
  IsLeast (reservedBoards spec A name) i ∨
    reservedBoards spec A name = ∅ ∧ IsLeast (openBoards spec A) i

theorem Selected.eligible (h : Selected spec A name i) :
    i ∈ A ∧ ∃ b, spec i = some b ∧ b.Eligible name := by
  rcases h with ⟨⟨hi, b, hb, _, hr⟩, _⟩ | ⟨_, ⟨hi, b, hb, hr⟩, _⟩
  · exact ⟨hi, b, hb, Or.inr hr⟩
  · exact ⟨hi, b, hb, Or.inl hr⟩

end Rule

namespace Daemon

variable {env : Env} {sys : Sys} {d d' m : Daemon} {e : Event} {es : List Event} {sid k i : ℕ}
  {s : Session} {name : Bytes} {bs : List BoardSpec} {fs : List ProxyFactory} {sd : Bool}

def free (d : Daemon) : Set ℕ := {i | d.owner i = none}

theorem reservedBoards_eq : reservedBoards d.spec d.free name = {j | ∃ b, d.boards[j]? = some b ∧
    (b.isAvailable && decide (b.reservedFor ≠ []) && decide (b.reservedFor = name)) = true} := by
  ext j
  cases hb : d.boards[j]? <;>
    simp [reservedBoards, free, spec, owner, hb, Board.isAvailable, and_assoc]

theorem openBoards_eq : openBoards d.spec d.free = {j | ∃ b, d.boards[j]? = some b ∧
    (b.isAvailable && decide (b.reservedFor = [])) = true} := by
  ext j
  cases hb : d.boards[j]? <;> simp [openBoards, free, spec, owner, hb, Board.isAvailable]

theorem findAvailableBoard_eq_or : d.findAvailableBoard name =
    (d.boards.findIdx? fun b =>
      b.isAvailable && decide (b.reservedFor ≠ []) && decide (b.reservedFor = name)).or
        (d.boards.findIdx? fun b => b.isAvailable && decide (b.reservedFor = [])) := by
  unfold findAvailableBoard
  split
  · rename_i j hj
    rw [hj, Option.some_or]
  · rename_i hn
    rw [hn, Option.none_or]

theorem findAvailableBoard_eq_some_iff :
    d.findAvailableBoard name = some i ↔ Selected d.spec d.free name i := by
  rw [findAvailableBoard_eq_or, Option.or_eq_some_iff, findIdx?_eq_some_iff_isLeast,
    findIdx?_eq_some_iff_isLeast, findIdx?_eq_none_iff_empty, ← reservedBoards_eq, ← openBoards_eq]
  rfl

theorem findAvailableBoard_eq_none_iff : d.findAvailableBoard name = none ↔
    reservedBoards d.spec d.free name = ∅ ∧ openBoards d.spec d.free = ∅ := by
  rw [findAvailableBoard_eq_or, Option.or_eq_none_iff, findIdx?_eq_none_iff_empty,
    findIdx?_eq_none_iff_empty, ← reservedBoards_eq, ← openBoards_eq]

/-- The boards that are free when the callback from `d` to `d'` looks for one: those
that were free before, and the board of a session that it destroyed. -/
def vacant (d d' : Daemon) : Set ℕ :=
  {j | d.owner j = none ∨
    ∃ sid, (d.session sid).bind Session.board = some j ∧ d'.session sid = none}

def Picks (d d' : Daemon) : Prop :=
  ∀ i k, d'.owner i = some k → d.owner i ≠ some k →
    ∃ s, d'.session k = some s ∧ Selected d.spec (d.vacant d') s.getUsername i

structure SameBoards (m d : Daemon) : Prop where
  boards : m.boards = d.boards
  held : ∀ k, (m.session k).bind Session.board = (d.session k).bind Session.board

namespace SameBoards

theorem modifySession (d : Daemon) (sid : ℕ) {f : Session → Session} (hid : ∀ s, (f s).id = s.id)
    (hf : ∀ s, (f s).board = s.board) : SameBoards (d.modifySession sid f) d := by
  refine ⟨rfl, fun k => ?_⟩
  rw [session_modifySession d sid k f hid]
  by_cases hk : k = sid
  · rw [if_pos hk, hk]
    cases d.session sid with
    | none => rfl
    | some s => exact hf s
  · rw [if_neg hk]

theorem trans {n : Daemon} (h : SameBoards n m) (h' : SameBoards m d) : SameBoards n d :=
  ⟨h.boards.trans h'.boards, fun k => (h.held k).trans (h'.held k)⟩

theorem owner_eq (h : SameBoards m d) : m.owner = d.owner := by
  funext i
  rw [owner, owner, h.boards]

theorem spec_eq (h : SameBoards m d) : m.spec = d.spec := by
  funext i
  rw [spec, spec, h.boards]

theorem startClosing (argv : List Bytes) (pid : Pid) :
    SameBoards (d.startClosing sid i argv pid) d := by
  refine ⟨(startClosing_fields argv pid).1, fun k => ?_⟩
  rw [startClosing_session]
  by_cases hk : k = sid
  · rw [if_pos hk, hk]
    cases d.session sid <;> rfl
  · rw [if_neg hk]

theorem act (d : Daemon) (as : List Action) : SameBoards (d.act as) d := ⟨rfl, fun _ => rfl⟩

theorem receive (d : Daemon) (sid : ℕ) (pkt : Packet) : SameBoards (d.receive sid pkt) d :=
  (modifySession _ sid (f := Session.received (pkt.data.take Proto.bufferSize)) (fun _ => rfl)
    fun _ => rfl).trans (act d _)

theorem introduce (d : Daemon) (sid : ℕ) (pkt : Packet) (r : Proto.Request) :
    SameBoards (d.introduce sid pkt r) d :=
  (modifySession _ sid (f := Session.introduced pkt r) (fun _ => rfl) fun _ => rfl).trans
    (receive d sid pkt)

theorem enqueue (d : Daemon) (sid : ℕ) : SameBoards (d.enqueue sid) d :=
  ⟨rfl, (modifySession d sid (f := fun s => { s with status := .awaitingBoard }) (fun _ => rfl)
    fun _ => rfl).held⟩

theorem stop (d : Daemon) (pid : Pid) (sid : ℕ) :
    SameBoards (Session.stopChildWatcher (d.moveProcess pid .zombie .reaped) sid) d :=
  ⟨rfl, (modifySession d sid (f := fun s => { s with childWatcher := none }) (fun _ => rfl)
    fun _ => rfl).held⟩

end SameBoards

namespace Picks

theorem of_owner (h : d'.owner = d.owner) : Picks d d' := by
  intro i k hi hn
  rw [h] at hi
  exact absurd hi hn

theorem of_same (h : Picks m d') (hm : SameBoards m d) : Picks d d' := by
  intro i k hi hn
  have hv : m.vacant d' = d.vacant d' := by
    simp only [vacant, hm.owner_eq, hm.held]
  rw [← hm.owner_eq] at hn
  rw [← hm.spec_eq, ← hv]
  exact h i k hi hn

theorem leaves (hs : d.session sid = some s) (hl : Leaves env sys d sid d') : Picks d d' := by
  have hgone := leaves_session_self hl
  have hkept : ∀ j k, (d.departed sid).owner j = some k → d.owner j = some k := by
    intro j k hj
    rw [departed_owner hs] at hj
    split_ifs at hj
    exact hj
  have hfree : (d.departed sid).free = d.vacant d' := by
    ext j
    change (d.departed sid).owner j = none ↔ d.owner j = none ∨
      ∃ k, (d.session k).bind Session.board = some j ∧ d'.session k = none
    rw [departed_owner hs]
    by_cases hj : s.board = some j
    · rw [if_pos hj]
      refine iff_of_true rfl (Or.inr ⟨sid, ?_, hgone⟩)
      rw [hs]
      exact hj
    · rw [if_neg hj]
      refine ⟨Or.inl, ?_⟩
      rintro (hn | ⟨k, hk, hkg⟩)
      · exact hn
      · obtain ⟨t, ht, htj⟩ := Option.bind_eq_some_iff.1 hk
        rw [leaves_gone hl hkg ht, hs, Option.some.injEq] at ht
        exact absurd (ht ▸ htj) hj
  rw [Picks, ← hfree]
  cases hl with
  | idle =>
    intro i k hi hn
    rw [exitIfIdle_eq_silent] at hi
    exact absurd (hkept i k hi) hn
  | @handOver v j t b argv pid hf ht hb =>
    obtain ⟨_, _, u, _, hu, hav, _⟩ := findWaiting_some hf
    rw [ht, Option.some.injEq] at hu
    subst hu
    have hspec : (d.departed sid).spec = d.spec := funext fun _ => departed_spec
    intro i k hi hn
    rw [exitIfIdle_eq_silent] at hi ⊢
    change (((d.departed sid).dequeue v).grant v j t b argv pid sys.now).owner i = some k at hi
    rw [grant_owner (lt_departed_boards hb)] at hi
    by_cases hij : i = j
    · rw [if_pos hij, Option.some.injEq] at hi
      subst hi hij
      refine ⟨t.granted i pid sys.now, ?_, ?_⟩
      · change (((d.departed sid).dequeue v).grant v i t b argv pid sys.now).session v = _
        rw [grant_session, if_pos rfl, dequeue_session, ht, Option.map_some]
      · rw [← hspec]
        exact findAvailableBoard_eq_some_iff.1 hav
    · rw [if_neg hij] at hi
      exact absurd (hkept i k hi) hn

theorem closes (hs : d.session sid = some s) (hc : Closes env sys d sid s d') : Picks d d' := by
  cases hc with
  | kill => exact of_owner rfl
  | startClosing => exact of_owner (SameBoards.startClosing _ _).owner_eq
  | leave _ hl => exact leaves hs hl

theorem closes_same (hc : Closes env sys d sid s m) (h : m.session sid ≠ none) :
    SameBoards m d := by
  cases hc with
  | kill => exact .act d _
  | startClosing => exact .startClosing _ _
  | leave _ hl => exact absurd (leaves_session_self hl) h

theorem connects {noWait : Bool} (hs : d.session sid = some s)
    (hc : Connects env sys d sid s noWait d') : Picks d d' := by
  cases hc with
  | @grant j b argv pid hav hb =>
    have hv : d.vacant (d.grant sid j s b argv pid sys.now) = d.free := by
      ext i
      refine ⟨?_, Or.inl⟩
      rintro (hn | ⟨k, hk, hkg⟩)
      · exact hn
      · rw [grant_eq_none.1 hkg] at hk
        cases hk
    intro i k hi hn
    rw [grant_owner (lt_of_spec d j hb)] at hi
    by_cases hij : i = j
    · rw [if_pos hij, Option.some.injEq] at hi
      subst hi hij
      refine ⟨s.granted i pid sys.now, ?_, ?_⟩
      · rw [grant_session, if_pos rfl, hs, Option.map_some]
      · rw [hv]
        exact findAvailableBoard_eq_some_iff.1 hav
    · rw [if_neg hij] at hi
      exact absurd hi hn
  | wait => exact of_owner rfl
  | @turnAway as _ _ _ hl =>
    exact (leaves (d := (d.enqueue sid).act as) (enqueue_session_self hs) hl).of_same
      (.trans (.act _ as) (.enqueue d sid))

theorem callback (hc : Callback env d e d') : Picks d d' := by
  cases hc with
  | accept => exact of_owner rfl
  | @hangUp sid recv sys as s d' _ hs _ _ hcl =>
    exact (closes (session_hangUp_self as hs) hcl).of_same
      (.trans (.modifySession _ sid (fun _ => rfl) fun _ => rfl) (.act d as))
  | ignore => exact of_owner rfl
  | @noFds sid pkt sys s t m d' _ hs _ ht hcl h₂ =>
    obtain ⟨u, hu, hcl'⟩ := closes_of_closeSession h₂
    have hm : SameBoards m (d.receive sid pkt) := closes_same hcl (by simp [hu])
    exact (closes hu hcl').of_same (hm.trans (.receive d sid pkt))
  | connect _ hs _ _ hcon =>
    exact (connects (session_introduce_self _ _ hs) hcon).of_same (.introduce d ..)
  | @listSessions sid pkt sys r as s d' _ hs _ _ hcl =>
    exact (closes (d := (d.introduce sid pkt r).act as) (session_introduce_self pkt r hs)
      hcl).of_same (.trans (.act _ as) (.introduce d sid pkt r))
  | otherCommand => exact of_owner rfl
  | processExits => exact of_owner rfl
  | reapUnwatched => exact of_owner rfl
  | @reap pid sys s t c d' _ _ _ _ _ ht hcl =>
    exact (closes (session_stop_moveProcess ht) hcl).of_same (.stop d pid s.id)
  | unrouted => exact of_owner rfl
  | attach => exact of_owner rfl
  | proxied => exact of_owner rfl
  | signal => exact of_owner rfl

end Picks

theorem connect_served {pkt : Packet} {r : Proto.Request} (hs : d.session sid = some s)
    (hreq : d.request? e = some (sid, pkt, r)) (hcmd : r.cmd = Proto.connect)
    (hn : d.Next env e d') :
    (∃ i, d.owner i = none ∧ d'.owner i = some sid) ∨
      reservedBoards d.spec d.free (r.name s.usernameCred) = ∅ ∧ openBoards d.spec d.free = ∅ := by
  obtain ⟨he, hfds, t, ht, hr⟩ := of_request hreq
  rw [hs, Option.some.injEq] at ht
  subst ht
  have hstep := (next_iff.1 hn).2
  obtain ⟨sys, rfl⟩ := Event.eq_of_setup he
  have hcon : Session.onConnect env sys (d.introduce sid pkt r) sid r.noWait = .returned d' := by
    have h : Session.onDataFromClient env sys d sid (.ok pkt) = _ :=
      onDataFromClient_request hs he hfds hr
    rw [if_pos hcmd] at h
    exact h.symm.trans hstep
  obtain ⟨u, hu, hcase⟩ := connects_of_onConnect hcon
  rw [session_introduce_self pkt r hs, Option.some.injEq] at hu
  subst hu
  have hnone : (d.introduce sid pkt r).findAvailableBoard (r.name s.usernameCred) = none →
      reservedBoards d.spec d.free (r.name s.usernameCred) = ∅ ∧ openBoards d.spec d.free = ∅ :=
    findAvailableBoard_eq_none_iff.1
  cases hcase with
  | @grant i b argv pid hav hb =>
    refine Or.inl ⟨i, (findAvailableBoard_some hav).1, ?_⟩
    rw [grant_owner (lt_of_spec _ i hb), if_pos rfl]
  | wait hno => exact Or.inr (hnone hno)
  | turnAway hno => exact Or.inr (hnone hno)

def NoneMissed (d : Daemon) : Prop :=
  ∀ k ∈ d.waitQueue, ∃ s, d.session k = some s ∧ d.findAvailableBoard s.getUsername = none

namespace NoneMissed

theorem of_same (h : NoneMissed d) (hq : d'.waitQueue ⊆ d.waitQueue) (hb : d'.boards = d.boards)
    (hs : ∀ k ∈ d.waitQueue, ∀ s, d.session k = some s →
      ∃ t, d'.session k = some t ∧ t.getUsername = s.getUsername) : NoneMissed d' := by
  intro k hk
  obtain ⟨s, hsk, hf⟩ := h k (hq hk)
  obtain ⟨t, ht, hn⟩ := hs k (hq hk) s hsk
  refine ⟨t, ht, ?_⟩
  rw [hn, findAvailableBoard, hb]
  exact hf

theorem modifySession (h : NoneMissed d) {f : Session → Session} (hid : ∀ s, (f s).id = s.id)
    (hf : sid ∈ d.waitQueue → ∀ s, (f s).getUsername = s.getUsername) :
    NoneMissed (d.modifySession sid f) := by
  refine h.of_same (List.Subset.refl _) rfl fun k hk s hs => ?_
  rw [session_modifySession d sid k f hid]
  by_cases hks : k = sid
  · subst hks
    rw [if_pos rfl, hs]
    exact ⟨f s, rfl, hf hk s⟩
  · rw [if_neg hks]
    exact ⟨s, hs, rfl⟩

theorem act (h : NoneMissed d) (as : List Action) : NoneMissed (d.act as) := h

theorem startClosing (h : NoneMissed d) (argv : List Bytes) (pid : Pid) :
    NoneMissed (d.startClosing sid i argv pid) := by
  have h₁ : NoneMissed (d.modifySession sid fun s => { s with status := .closingBoard }) :=
    h.modifySession (fun _ => rfl) fun _ _ => rfl
  have h₂ : NoneMissed
      ((d.modifySession sid fun s => { s with status := .closingBoard }).setProcesses
      (d.processes ++ [⟨pid, .closeCommand, sid, i, argv, none, .running⟩])) := h₁
  exact h₂.modifySession (fun _ => rfl) fun _ _ => rfl

theorem grant (h : ∀ k ∈ d.waitQueue, ∃ t, d.session k = some t ∧ ∀ j c, d.spec j = some c →
      d.owner j = none → c.Eligible t.getUsername → j = i)
    (hi : i < d.boards.length) (b : BoardSpec) (argv : List Bytes) (pid : Pid) (now : ℤ) :
    NoneMissed (d.grant sid i s b argv pid now) := by
  intro k hk
  rw [(grant_fields b argv pid now).1] at hk
  obtain ⟨t, ht, hfree⟩ := h k hk
  have hname : ∃ u, (d.grant sid i s b argv pid now).session k = some u ∧
      u.getUsername = t.getUsername := by
    rw [grant_session]
    by_cases hks : k = sid
    · rw [if_pos hks, ← hks, ht]
      exact ⟨t.granted i pid now, rfl, rfl⟩
    · rw [if_neg hks]
      exact ⟨t, ht, rfl⟩
  obtain ⟨u, hu, hn⟩ := hname
  refine ⟨u, hu, ?_⟩
  rw [hn, findAvailableBoard_none]
  intro j c hc ho he
  rw [grant_spec] at hc
  rw [grant_owner hi] at ho
  split_ifs at ho with hj
  exact hj (hfree j c hc ho he)

theorem departed_board (h : NoneMissed d) (hs : d.session sid = some s)
    (hk : k ∈ (d.departed sid).waitQueue) :
    ∃ t, (d.departed sid).session k = some t ∧ ∀ j c, (d.departed sid).spec j = some c →
      (d.departed sid).owner j = none → c.Eligible t.getUsername → s.board = some j := by
  rw [(departed_fields hs).1, List.mem_filter, decide_eq_true_iff] at hk
  obtain ⟨t, ht, hf⟩ := h k hk.1
  refine ⟨t, ?_, fun j c hc ho he => ?_⟩
  · rw [departed_session, if_neg hk.2, ht]
  · rw [departed_spec] at hc
    rw [departed_owner hs] at ho
    by_contra hj
    rw [if_neg hj] at ho
    exact findAvailableBoard_none.1 hf j c hc ho he

theorem leaves (h : NoneMissed d) (hs : d.session sid = some s) (hl : Leaves env sys d sid d') :
    NoneMissed d' := by
  cases hl with
  | idle hf =>
    have hdep : NoneMissed (d.departed sid) := findWaiting_none.1 hf
    rw [exitIfIdle_eq_silent]
    exact hdep
  | @handOver v i t b argv pid hf ht hb =>
    obtain ⟨pre, post, u, hq, hu, hav, _⟩ := findWaiting_some hf
    have hv : v ∈ (d.departed sid).waitQueue := by
      rw [hq]
      exact List.mem_append_right _ List.mem_cons_self
    obtain ⟨w, hw, hfirst⟩ := h.departed_board hs hv
    rw [hu, Option.some.injEq] at hw
    subst hw
    obtain ⟨ho, c, hc, he⟩ := findAvailableBoard_some hav
    have hi : s.board = some i := hfirst i c hc ho he
    have hgrant : NoneMissed (((d.departed sid).dequeue v).grant v i t b argv pid sys.now) := by
      refine grant (fun k hk => ?_) (lt_departed_boards hb) b argv pid sys.now
      obtain ⟨x, hx, hfree⟩ := h.departed_board hs (List.mem_of_mem_filter hk)
      refine ⟨x, hx, fun j c hc ho he => ?_⟩
      have hj := hfree j c hc ho he
      rw [hi, Option.some.injEq] at hj
      exact hj.symm
    rw [exitIfIdle_eq_silent]
    exact hgrant

theorem closes (h : NoneMissed d) (hs : d.session sid = some s) (hc : Closes env sys d sid s d') :
    NoneMissed d' := by
  cases hc with
  | kill => exact h.act _
  | startClosing => exact h.startClosing _ _
  | leave _ hl => exact h.leaves hs hl

theorem enqueue (h : NoneMissed d) (hs : d.session sid = some s)
    (hf : d.findAvailableBoard s.getUsername = none) : NoneMissed (d.enqueue sid) := by
  have hm : NoneMissed (d.modifySession sid fun s => { s with status := .awaitingBoard }) :=
    h.modifySession (fun _ => rfl) fun _ _ => rfl
  intro k hk
  rcases List.mem_append.1 hk with hk | hk
  · exact hm k hk
  · rw [List.mem_singleton.1 hk]
    exact ⟨_, enqueue_session_self hs, hf⟩

theorem connects {noWait : Bool} (h : NoneMissed d) (hs : d.session sid = some s)
    (hc : Connects env sys d sid s noWait d') : NoneMissed d' := by
  cases hc with
  | @grant i b argv pid _ hb =>
    refine grant (fun k hk => ?_) (lt_of_spec d i hb) b argv pid sys.now
    obtain ⟨t, ht, hf⟩ := h k hk
    exact ⟨t, ht, fun j c hc ho he => absurd he (findAvailableBoard_none.1 hf j c hc ho)⟩
  | wait hf => exact (h.enqueue hs hf).act _
  | @turnAway as _ hf _ hl =>
    exact leaves (d := (d.enqueue sid).act as) (h.enqueue hs hf) (enqueue_session_self hs) hl

theorem receive (h : NoneMissed d) (sid : ℕ) (pkt : Packet) : NoneMissed (d.receive sid pkt) :=
  (h.act _).modifySession (f := Session.received _) (fun _ => rfl) fun _ _ => rfl

theorem introduce (h : NoneMissed d) {pkt : Packet} (r : Proto.Request) (hq : sid ∉ d.waitQueue) :
    NoneMissed (d.introduce sid pkt r) :=
  (h.receive sid pkt).modifySession (fun _ => rfl) fun hmem => absurd hmem hq

end NoneMissed

/-- No request is handled for a session that is in the wait queue. -/
def Steady (d : Daemon) (e : Event) : Prop := ∀ x ∈ d.request? e, x.1 ∉ d.waitQueue

instance (d : Daemon) (e : Event) : Decidable (d.Steady e) :=
  inferInstanceAs (Decidable (∀ x ∈ d.request? e, _))

theorem NoneMissed.callback (h : NoneMissed d) (hst : d.Steady e)
    (hc : Callback env d e d') : NoneMissed d' := by
  cases hc with
  | accept =>
    refine h.of_same (List.Subset.refl _) rfl fun k _ s hs => ⟨s, ?_, rfl⟩
    rw [onClientConnecting, session_addSession, hs, Option.some_or]
  | @hangUp sid recv sys as s d' _ hs _ _ hcl =>
    have hh : NoneMissed ((d.act as).modifySession sid Session.hungUp) :=
      (h.act as).modifySession (fun _ => rfl) fun _ _ => rfl
    exact hh.closes (session_hangUp_self as hs) hcl
  | ignore => exact h.receive _ _
  | noFds _ _ _ ht hcl h₂ =>
    obtain ⟨u, hu, hcl'⟩ := closes_of_closeSession h₂
    exact ((h.receive _ _).closes ht hcl).closes hu hcl'
  | @connect sid pkt sys r s d' hreq hs _ _ hcon =>
    exact (h.introduce r (hst _ hreq)).connects (session_introduce_self _ _ hs) hcon
  | @listSessions sid pkt sys r as s d' hreq hs _ _ hcl =>
    exact ((h.introduce r (hst _ hreq)).act as).closes (session_introduce_self pkt r hs) hcl
  | otherCommand hreq => exact h.introduce _ (hst _ hreq)
  | processExits => exact h
  | reapUnwatched => exact h
  | @reap pid sys s t c d' _ _ _ _ _ ht hcl =>
    have hm : NoneMissed (d.moveProcess pid .zombie .reaped) := h
    have hstop : NoneMissed (Session.stopChildWatcher (d.moveProcess pid .zombie .reaped) s.id) :=
      hm.modifySession (fun _ => rfl) fun _ _ => rfl
    exact hstop.closes (session_stop_moveProcess ht) hcl
  | unrouted => exact h
  | attach => exact h.modifySession (fun _ => rfl) fun _ _ => rfl
  | proxied => exact h.modifySession (fun _ => rfl) fun _ _ => rfl
  | signal => exact h

def SteadyNext (env : Env) (d : Daemon) (e : Event) (d' : Daemon) : Prop :=
  d.Next env e d' ∧ d.Steady e

theorem noneMissed_run (h : Run (SteadyNext env) (initial bs fs sd) es d) : NoneMissed d :=
  h.invariant NoneMissed (fun _ hk => (by cases hk))
    fun _ _ _ hm hn => hm.callback hn.2 (callback_of_next hn.1)

/-- In every state a board that is handed out is the choice for its new owner, and a
request stays unserved only if there is no board for its user. In a steady run this
is also true of everybody in the wait queue. -/
theorem board_selection (env : Env) (bs : List BoardSpec) (fs : List ProxyFactory) (sd : Bool) :
    (∀ (d : Daemon) (e : Event) (d' : Daemon), d.Next env e d' →
      (∀ i k, d'.owner i = some k → d.owner i ≠ some k → ∃ s b, d'.session k = some s ∧
        d.spec i = some b ∧ b.Eligible s.getUsername ∧
        Selected d.spec (d.vacant d') s.getUsername i) ∧
      ∀ sid pkt r s, d.request? e = some (sid, pkt, r) → r.cmd = Proto.connect →
        d.session sid = some s → (∃ i, d.owner i = none ∧ d'.owner i = some sid) ∨
          reservedBoards d.spec d.free (r.name s.usernameCred) = ∅ ∧
            openBoards d.spec d.free = ∅) ∧
    ∀ (es : List Event) (d : Daemon), Run (SteadyNext env) (initial bs fs sd) es d →
      ∀ k ∈ d.waitQueue, ∃ s, d.session k = some s ∧
        reservedBoards d.spec d.free s.getUsername = ∅ ∧ openBoards d.spec d.free = ∅ := by
  refine ⟨fun d e d' hn => ⟨fun i k hi hk => ?_, ?_⟩, fun es d h k hk => ?_⟩
  · obtain ⟨s, hs, hsel⟩ := Picks.callback (callback_of_next hn) i k hi hk
    obtain ⟨_, b, hb, he⟩ := hsel.eligible
    exact ⟨s, b, hs, hb, he, hsel⟩
  · exact fun sid pkt r s hreq hcmd hs => connect_served hs hreq hcmd hn
  · obtain ⟨s, hs, hf⟩ := noneMissed_run h k hk
    exact ⟨s, hs, findAvailableBoard_eq_none_iff.1 hf⟩

theorem board_selection_three_clients : ∃ d,
    (Run (SteadyNext Sample.env)
      (initial [Sample.board [] [], Sample.board [] (ascii "ann")] [] false)
      [Sample.accept, Sample.setup 0 0 7 (ascii "ann") false 100, Sample.accept,
        Sample.connect 1 8 101, Sample.accept, Sample.connect 2 9 102] d ∧
      (d.owner 0, d.owner 1, d.waitQueue) = (some 1, some 0, [2])) ∧
    ∀ k ∈ d.waitQueue, ∃ s, d.session k = some s ∧
      reservedBoards d.spec d.free s.getUsername = ∅ ∧ openBoards d.spec d.free = ∅ :=
  Exists.imp (fun d hr => ⟨hr, (board_selection Sample.env _ _ _).2 _ d hr.1⟩)
    (exists_guarded_run (fun d : Daemon => (d.owner 0, d.owner 1, d.waitQueue)) (by decide +kernel))

/-- A waiting session takes the name of the user for whom a free board is reserved.
The next scan of the queue serves the session before it and stops. -/
theorem renamed_session_is_passed_over : ∃ d,
    (Run (Next Sample.env) (initial [Sample.board [] [], Sample.board [] (ascii "ann")] [] false)
      [Sample.accept, Sample.accept, Sample.accept, Sample.connect 0 7 100, Sample.connect 1 8 101,
        Sample.connect 2 9 101, Sample.setup 2 2 9 (ascii "ann") false 101, .processExits 100,
        .childReaped 100 (Sample.sys 101)] d ∧
      (d.owner 0, d.waitQueue, (d.session 2).map fun s => d.findAvailableBoard s.getUsername) =
        (some 1, [2], some (some 1))) ∧
    ∃ s, d.session 2 = some s ∧ Selected d.spec d.free s.getUsername 1 := by
  refine Exists.imp (fun d hr => ⟨hr, ?_⟩) (exists_run (fun d : Daemon => (d.owner 0, d.waitQueue,
    (d.session 2).map fun s => d.findAvailableBoard s.getUsername)) (by decide +kernel))
  obtain ⟨_, hrest⟩ := Prod.mk.inj hr.2
  obtain ⟨s, hs, hf⟩ := Option.map_eq_some_iff.1 (Prod.mk.inj hrest).2
  exact ⟨s, hs, findAvailableBoard_eq_some_iff.1 hf⟩

end Daemon
end BoardProxy
