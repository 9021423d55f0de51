import BoardProxy.Installation

/-!
# The stages of a client

A client is outside until it is accepted, and stays there if it is refused or killed
before. It has then announced itself, waits for a board, holds one, has one closed, and
is gone. The edges between the stages are those of the state machine in `on_setup_msg`,
`assign_board` and `close_session`.
-/

namespace BoardProxy

inductive Stage
  | outside
  | announced
  | waiting
  | holding (board : Option ℕ)
  | closing (board : Option ℕ)
  | gone
deriving DecidableEq

namespace Stage

def board : Stage → Option ℕ
  | .holding b | .closing b => b
  | _ => none

inductive Edge : Stage → Stage → Prop
  | accept : Edge .outside .announced
  | turnAway : Edge .announced .gone
  | wait : Edge .announced .waiting
  | serve {i : ℕ} : Edge .announced (.holding (some i))
  | giveUp : Edge .waiting .gone
  | handOver {i : ℕ} : Edge .waiting (.holding (some i))
  | close {i : ℕ} : Edge (.holding (some i)) (.closing (some i))
  | free {b : Option ℕ} : Edge (.holding b) .gone
  | closed {b : Option ℕ} : Edge (.closing b) .gone

abbrev Leads : Stage → Stage → Prop := Relation.ReflTransGen Edge

def ofTenant (known : Bool) : Option Tenant → Stage
  | none => if known then .gone else .outside
  | some t =>
    match t.status with
    | .created => .announced
    | .awaitingBoard => .waiting
    | .hasBoard => .holding t.board
    | .closingBoard => .closing t.board

theorem ofTenant_gone (b : Bool) (t : Tenant) : Edge (ofTenant b (some t)) .gone := by
  cases hst : t.status <;> simp only [ofTenant, hst]
  · exact .turnAway
  · exact .giveUp
  · exact .free
  · exact .closed

end Stage

namespace Tenancy

variable {v v' : Tenancy} {S : ℕ → Prop} {forced : List Process → ℕ → Prop} {sid k i : ℕ}
  {t u : Tenant}

def stage (v : Tenancy) (k : ℕ) : Stage := .ofTenant (decide (k < v.counter)) (v.tenant k)

theorem stage_congr (ht : v'.tenant k = v.tenant k) (hc : v'.counter = v.counter) :
    v'.stage k = v.stage k := by
  rw [stage, stage, ht, hc]

theorem leads_update (v' : Tenancy) (hv : v'.tenant = Function.update v.tenant sid (some u))
    (hc : v'.counter = v.counter) (ht : v.tenant sid = some t)
    (h : ∀ b, (Stage.ofTenant b (some t)).Leads (.ofTenant b (some u))) (k : ℕ) :
    (v.stage k).Leads (v'.stage k) := by
  by_cases hk : k = sid
  · subst hk
    rw [stage, stage, hv, Function.update_self, hc, ht]
    exact h _
  · rw [stage_congr (by rw [hv, Function.update_of_ne hk]) hc]

theorem leads_leave (hc : v.Coherent) (ht : v.tenant sid = some t) (k : ℕ) :
    (v.stage k).Leads ((v.leave sid t).stage k) := by
  by_cases hk : k = sid
  · subst hk
    have hlt : decide (k < (v.leave k t).counter) = true := decide_eq_true (hc.tenant_lt k t ht)
    have hgone : (v.leave k t).stage k = .gone := by
      simp only [stage, leave, Function.update_self]
      exact if_pos hlt
    rw [hgone, stage, ht]
    exact .single (Stage.ofTenant_gone _ t)
  · have hsame : (v.leave sid t).stage k = v.stage k :=
      stage_congr (Function.update_of_ne hk ..) rfl
    rw [hsame]

theorem leads_step (hc : v.Coherent) (hs : Step (Once S) forced v v') (k : ℕ) :
    (v.stage k).Leads (v'.stage k) := by
  cases hs with
  | @accept name =>
    by_cases hk : k = v.counter
    · subst hk
      have hn : v.tenant v.counter = none := by
        by_contra hne
        obtain ⟨t, ht⟩ := Option.ne_none_iff_exists'.1 hne
        exact absurd (hc.tenant_lt _ t ht) (Nat.lt_irrefl _)
      have hout : v.stage v.counter = .outside := by
        rw [stage, hn]
        exact if_neg (by simp)
      have hnew : (v.accept name).stage v.counter = .announced := by
        simp only [stage, accept, Function.update_self]
        rfl
      rw [hout, hnew]
      exact .single .accept
    · have hlt : decide (k < v.counter + 1) = decide (k < v.counter) := by
        rw [decide_eq_decide, Nat.lt_succ_iff_lt_or_eq, or_iff_left hk]
      have hsame : (v.accept name).stage k = v.stage k := by
        simp only [stage, accept, Function.update_of_ne hk]
        exact congrArg (Stage.ofTenant · (v.tenant k)) hlt
      rw [hsame]
  | @rename sid t name ht =>
    exact leads_update (v.rename sid t name) rfl rfl ht (fun _ => .refl) k
  | @wait sid t ht hset =>
    refine leads_update (v.wait sid t) rfl rfl ht (fun b => ?_) k
    simp only [Stage.ofTenant, hset.1]
    exact .single .wait
  | @grant sid i t pid argv stdio ht hset =>
    refine leads_update (v.start sid i t .command pid argv stdio) rfl rfl ht (fun b => ?_) k
    simp only [Stage.ofTenant, hset.1]
    exact .single .serve
  | @close sid i t pid argv ht hst _ hb =>
    refine leads_update (v.start sid i t .closeCommand pid argv none) rfl rfl ht (fun b => ?_) k
    simp only [Stage.ofTenant, hst, hb]
    exact .single .close
  | leave ht => exact leads_leave hc ht k
  | @handOver sid j i t u pid argv stdio pre post ht hm hq hj =>
    have hl := hc.leave ht fun hst => (hm.command hst).1
    refine (leads_leave hc ht k).trans (leads_update
      (((v.leave sid t).dequeue j).start j i u .command pid argv stdio) rfl rfl hj (fun b => ?_) k)
    have hmem : j ∈ (v.leave sid t).queue := by
      rw [hq]
      exact List.mem_append_right _ List.mem_cons_self
    obtain ⟨w, hw, hst⟩ := hl.queued j hmem
    rw [hj, Option.some.injEq] at hw
    subst hw
    simp only [Stage.ofTenant, hst]
    exact .single .handOver
  | exits => exact .refl
  | reapUnwatched => exact .refl
  | @reap sid t c z ht =>
    exact leads_update ((v.move c.pid .zombie .reaped).unwatch sid t) rfl rfl ht (fun _ => .refl) k

end Tenancy

namespace Installation

variable {env : Env} {w w' : Installation} {m : Move} {ms ms' : List Move} {c k sid : ℕ} {p : Peer}
  {bs : List BoardSpec} {fs : List ProxyFactory} {sd : Bool}

def session (w : Installation) (c : ℕ) : Option ℕ := (w.peers c).bind Peer.session

def stage (w : Installation) (c : ℕ) : Stage :=
  match w.session c with
  | none => .outside
  | some sid => w.daemon.view.stage sid

theorem session_eq_some : w.session c = some sid ↔ ∃ p, w.peers c = some p ∧ p.session = some sid :=
  Option.bind_eq_some_iff

theorem session_update (p : Peer) : (w.setPeer c p).session k =
    if k = c then p.session else w.session k := by
  simp only [session, setPeer, Function.update_apply]
  by_cases hk : k = c
  · rw [if_pos hk, if_pos hk, Option.bind_some]
  · rw [if_neg hk, if_neg hk]

theorem session_setPeer {q : Peer} (hw : w'.peers = (w.setPeer c q).peers)
    (hp : w.peers c = some p) (hq : q.session = p.session) : w'.session k = w.session k := by
  have he : w'.session k = (w.setPeer c q).session k := by rw [session, hw, session]
  rw [he, session_update]
  by_cases hk : k = c
  · rw [if_pos hk, hq, hk, session, hp, Option.bind_some]
  · rw [if_neg hk]

theorem session_of_step (hp : w.Paired) (hs : Step env w m w') (k : ℕ) :
    w'.session k = w.session k ∨ w.session k = none ∧
      w'.session k = some w.daemon.counter ∧ w'.daemon.session w.daemon.counter ≠ none := by
  cases hs with
  | @launch c args hc =>
    refine Or.inl ((session_update _).trans ?_)
    by_cases hk : k = c
    · rw [if_pos hk, hk, session, hc, Option.bind_none]
    · rw [if_neg hk]
  | connected hp => exact Or.inl (session_setPeer rfl hp rfl)
  | refused hp => exact Or.inl (session_setPeer rfl hp rfl)
  | sent hp => exact Or.inl (session_setPeer rfl hp rfl)
  | unsent hp => exact Or.inl (session_setPeer rfl hp rfl)
  | read hp => exact Or.inl (session_setPeer rfl hp rfl)
  | died hp => exact Or.inl (session_setPeer rfl hp rfl)
  | @accepted c rest p cred ppid buffer now d' _ hb hpc hn =>
    have hu := session_update (w := w) (c := c) (k := k) { p with session := some w.daemon.counter }
    by_cases hk : k = c
    · subst hk
      rw [if_pos rfl] at hu
      obtain ⟨q, hq, hqs, _⟩ := hp.backlog k (hb ▸ List.mem_cons_self)
      have hnone : w.session k = none := by rw [session, hq, Option.bind_some, hqs]
      refine Or.inr ⟨hnone, hu, ?_⟩
      cases Daemon.callback_of_next hn with
      | accept =>
        rw [Daemon.onClientConnecting, Daemon.session_addSession, if_pos rfl]
        cases w.daemon.session w.daemon.counter <;> exact Option.some_ne_none _
      | proxied he => cases he
    · rw [if_neg hk] at hu
      exact Or.inl hu
  | received _ hp => exact Or.inl (session_setPeer rfl hp rfl)
  | stopped => exact Or.inl rfl
  | other => exact Or.inl rfl

end Installation
end BoardProxy
