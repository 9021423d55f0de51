import BoardProxy.CommandSwitch

/-!
# What the client gets of the target's datagrams

A datagram is written to the client in two calls, its length and its payload, and the
result of the first call is not looked at. The frames stay aligned as long as each
datagram is accepted as a whole or its payload is refused, which closes the
connection.
-/

namespace BoardProxy

def WrTargetIo.datagram (io : WrTargetIo) : List Bytes :=
  (io.read.toOption.map fun bytes => bytes.take WrProxy.targetBufferSize).toList

/-- The client's socket takes both writes of this datagram, or it refuses the payload. -/
def WrTargetIo.Whole (io : WrTargetIo) : Prop :=
  ∀ x ∈ io.datagram, (∃ e, io.writeData = .error e) ∨
    ∃ n m, io.writeLen = .ok n ∧ 4 ≤ n ∧ io.writeData = .ok m ∧ x.length ≤ m

namespace WrCall

def datagrams : WrCall → List Bytes
  | .client _ => []
  | .target io => io.datagram

def Whole : WrCall → Prop
  | .client _ => True
  | .target io => io.Whole

end WrCall

namespace WrProxy

variable {env : Env} {ip : Option Bytes} {c : WrCall} {cs : List WrCall} {p q t : WrProxy}

def targetStream (cs : List WrCall) : Bytes := (cs.flatMap WrCall.datagrams).flatMap frame

theorem targetStream_append : targetStream (cs ++ [c]) =
    targetStream cs ++ c.datagrams.flatMap frame := by
  simp [targetStream]

structure Aligned (p : WrProxy) (cs : List WrCall) (q : WrProxy) : Prop where
  bytes : ∃ x, q.toClient = p.toClient ++ x ∧ x <+: targetStream cs
  complete : q.closed = false → q.toClient = p.toClient ++ targetStream cs

theorem toClient_forwardFrame {io : WrClientIo} : (p.forwardFrame io).toClient = p.toClient := by
  unfold forwardFrame
  split
  · dsimp only
    split_ifs
    · rfl
    · split <;> rfl
  · rfl

theorem toClient_onClientData {io : WrClientIo} (hst : p.state = .data)
    (h : p.onClientData env io ip = .returned q) : q.toClient = p.toClient := by
  unfold onClientData at h
  split at h
  · rw [← Outcome.returned.inj h]
    rfl
  · dsimp only at h
    split_ifs at h
    · rw [← Outcome.returned.inj h]
      rfl
    · rw [hst] at h
      rw [← Outcome.returned.inj h]
      exact toClient_forwardFrame

theorem wrote_prefix (p : WrProxy) (data : Bytes) (r : Except Errno ℕ) :
    ∃ y, (p.wrote data r).toClient = p.toClient ++ y ∧ y <+: data := by
  cases r with
  | error e => exact ⟨[], (List.append_nil _).symm, List.nil_prefix⟩
  | ok n => exact ⟨data.take n, rfl, List.take_prefix n data⟩

theorem onTargetData_whole {io : WrTargetIo} (hw : io.Whole)
    (h : p.onTargetData io = .returned q) :
    (∃ y, q.toClient = p.toClient ++ y ∧ y <+: io.datagram.flatMap frame ∧ q.closed = true) ∨
      q.toClient = p.toClient ++ io.datagram.flatMap frame := by
  cases hr : io.read with
  | error e =>
    simp only [onTargetData, hr, Outcome.returned.injEq] at h
    subst h
    exact Or.inl ⟨[], (List.append_nil _).symm, List.nil_prefix, rfl⟩
  | ok bytes =>
    have hdg : io.datagram = [bytes.take targetBufferSize] := by
      simp [WrTargetIo.datagram, hr, Except.toOption]
    have hx := hw _ (hdg ▸ List.mem_singleton_self _)
    rw [hdg, List.flatMap_singleton]
    simp only [onTargetData, hr] at h
    generalize bytes.take targetBufferSize = x at hx h ⊢
    split_ifs at h
    · rw [← Outcome.returned.inj h]
      exact Or.inl ⟨[], (List.append_nil _).symm, List.nil_prefix, rfl⟩
    · obtain ⟨p₁, hl, h⟩ := Outcome.bind_eq_returned.1 h
      obtain ⟨_, rfl⟩ := writeClient_returned.1 hl
      rcases hx with ⟨e, he⟩ | ⟨n, m, hn, hn4, hm, hmx⟩
      · simp only [he] at h
        split_ifs at h
        obtain ⟨y, hy, hpre⟩ := wrote_prefix p (be32 x.length) io.writeLen
        rw [← Outcome.returned.inj h]
        exact Or.inl ⟨y, hy, hpre.trans (List.prefix_append _ _), rfl⟩
      · have hlen : (be32 x.length).take n = be32 x.length := List.take_of_length_le hn4
        simp only [hn, hm, Outcome.returned.injEq] at h
        subst h
        refine Or.inr ?_
        simp only [wrote, hlen, List.take_of_length_le hmx, frame, List.append_assoc]

theorem Aligned.step (h : Aligned p cs t) (hst : t.state = .data) (hc : Calls env ip t c q)
    (hw : c.Whole) : Aligned p (cs ++ [c]) q := by
  have hall := h.complete hc.opened
  have hcall : (∃ y, q.toClient = t.toClient ++ y ∧ y <+: c.datagrams.flatMap frame ∧
      q.closed = true) ∨ q.toClient = t.toClient ++ c.datagrams.flatMap frame := by
    cases c with
    | client io =>
      exact Or.inr ((toClient_onClientData hst hc.result).trans (List.append_nil _).symm)
    | target io => exact onTargetData_whole hw hc.result
  rw [hall, List.append_assoc] at hcall
  rcases hcall with ⟨y, hy, hpre, hcl⟩ | hq
  · refine ⟨⟨targetStream cs ++ y, ?_, ?_⟩, fun hop => ?_⟩
    · rw [hy, List.append_assoc]
    · rw [targetStream_append]
      exact (List.prefix_append_right_inj _).2 hpre
    · rw [hcl] at hop
      cases hop
  · rw [← targetStream_append] at hq
    exact ⟨⟨_, hq, List.prefix_refl _⟩, fun _ => hq⟩

/-- A connection that forwards data, with any reads and writes in between: if the
client's socket takes every datagram as a whole or refuses its payload, then it has
never got anything but a prefix of the frames. -/
theorem whole_run_aligned (hst : p.state = .data)
    (h : Run (fun p c q => Calls env ip p c q ∧ c.Whole) p cs q) : Aligned p cs q := by
  refine h.history (Aligned p) ⟨⟨[], (List.append_nil _).symm, List.nil_prefix⟩, fun _ => ?_⟩ ?_
  · exact (List.append_nil _).symm
  · intro cs t c u hr ht hc
    exact ht.step (data_run hst (hr.mono fun _ _ _ hc => hc.1)) hc.1 hc.2

/-- The payload of the second datagram is refused. -/
theorem whole_run_aligned_refused :
    let cs : List WrCall := [.datagram [1], .target ⟨.ok [2, 3], .ok 4, .error 11⟩]
    ∃ q, Run (fun p c q => Calls Sample.env none p c q ∧ c.Whole) (switched ⟨17185, 0⟩) cs q ∧
      q.closed = true ∧ Aligned (switched ⟨17185, 0⟩) cs q := by
  have hrun : Run (fun p c q => Calls Sample.env none p c q ∧ c.Whole) (switched ⟨17185, 0⟩)
      ([] ++ [.datagram [1]] ++ [.target ⟨.ok [2, 3], .ok 4, .error 11⟩])
      ⟨.data, [], some ⟨17185, 0⟩, [], [111, 107, 0, 0, 0, 0, 1, 1, 0, 0, 0, 2], true⟩ := by
    refine .snoc (t := ⟨.data, [], some ⟨17185, 0⟩, [], [111, 107, 0, 0, 0, 0, 1, 1], false⟩)
      (.snoc .nil ⟨⟨rfl, by decide, rfl⟩, ?_⟩) ⟨⟨rfl, by decide, rfl⟩, ?_⟩
    · intro x hx
      rw [List.mem_singleton.1 hx]
      exact Or.inr ⟨4, 1, rfl, by decide, rfl, by decide⟩
    · exact fun _ _ => Or.inl ⟨11, rfl⟩
  exact ⟨_, hrun, rfl, whole_run_aligned rfl hrun⟩

/-- The write of the length fails on a full buffer and the payload is taken: the client
gets a payload without its length, and the connection stays open. -/
theorem refused_length_shifts_frames : ∃ q,
    Run (Calls Sample.env (some (ascii "10.0.0.1"))) new
      [.chunk (ascii "connect type=udpsock;port=17185;mode=packet\n"),
        .target ⟨.ok [7], .error 11, .ok 1⟩] q ∧
    q.toClient = ascii "ok\x00" ++ [7] ∧ q.closed = false ∧
    ¬[7] <+: targetStream [.target ⟨.ok [7], .error 11, .ok 1⟩] := by
  refine ⟨{ switched ⟨17185, 0x0100000a⟩ with toClient := [111, 107, 0, 7] }, ?_, rfl, rfl,
    by decide⟩
  refine .snoc (t := switched ⟨17185, 0x0100000a⟩) (.snoc .nil ?_) ⟨rfl, by decide, rfl⟩
  exact ⟨rfl, by decide, Outcome.toOption_eq_some.1 (by decide +kernel)⟩

end WrProxy
end BoardProxy
