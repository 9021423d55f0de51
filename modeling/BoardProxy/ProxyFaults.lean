import BoardProxy.TcpProxy

/-!
# The faults of a proxy connection

Why a callback of a proxy connection does not return: a message of a WindRiver connection
repeats a text of the client as a format string, or what is written has no reader. The
constructor of a relay fails with its system calls or with the address of the board.
-/

namespace BoardProxy

namespace Outcome

variable {α β : Type*} {P Q : Fault → Prop} {o : Outcome α}

def Throws (P : Fault → Prop) (o : Outcome α) : Prop := ∀ f, o.fault? = some f → P f

@[simp] theorem throws_returned (a : α) : (returned a).Throws P := fun _ h => (by cases h)

@[simp] theorem throws_threw {f : Fault} {a : α} : (threw f a).Throws P ↔ P f := by
  simp [Throws, fault?]

theorem Throws.mono (h : o.Throws P) (hPQ : ∀ f, P f → Q f) : o.Throws Q :=
  fun f hf => hPQ f (h f hf)

theorem Throws.bind {k : α → Outcome α} (h : o.Throws P)
    (hk : ∀ a, o = .returned a → (k a).Throws P) : (o.bind k).Throws P := by
  cases o with
  | returned a => exact hk a rfl
  | threw f a => exact h

theorem Throws.map {g : α → β} (h : o.Throws P) : (o.map g).Throws P := by
  cases o with
  | returned a => exact throws_returned _
  | threw f a => exact h

end Outcome

open Outcome (throws_returned throws_threw)

/-! The messages of a relay have as many fields as arguments. -/

theorem format_two_fields {l : Bytes} (hl : NoBrace l) (a b : Bytes) :
    format (openBrace :: closeBrace :: (l ++ [openBrace, closeBrace])) [a, b] =
      some (a ++ (l ++ b)) := by
  rw [format_field, format_plain_field hl, Option.map_some]

theorem SocketProxy.throws_fail {α : Type*} {close : α → α} {p : α} {fmt msg : Bytes}
    {args : List Bytes} {P : Fault → Prop} (h : format fmt args = some msg) :
    (SocketProxy.fail close p fmt args).Throws P := by
  rw [SocketProxy.fail, h]
  exact throws_returned _

namespace TcpProxy

variable {env : Env} {p : TcpProxy} {P : Fault → Prop}

theorem throws_onTargetConnected {io : ConnectIo} : (p.onTargetConnected env io).Throws P := by
  have hplain : NoBrace (ascii "connect failure: ") := by decide
  unfold onTargetConnected
  split
  · exact SocketProxy.throws_fail (format_plain (by decide) _)
  · split_ifs
    · exact SocketProxy.throws_fail (format_plain_field hplain _ _)
    · exact throws_returned _

theorem throws_onData {io : RelayIo} {dir : Direction} : (p.onData env io dir).Throws
    fun f => f = .brokenPipe ∧ isBrokenPipe io.send = true := by
  have hread : NoBrace (ascii " read error: ") := by decide
  have hsend : NoBrace (ascii " send error: ") := by decide
  unfold onData
  split
  · exact SocketProxy.throws_fail (format_two_fields hread _ _)
  · dsimp only
    split_ifs
    · exact throws_returned _
    · split
      · rename_i e he
        split_ifs with hp
        · exact throws_threw.2 ⟨rfl, by rw [he, hp]; rfl⟩
        · exact SocketProxy.throws_fail (format_two_fields hsend _ _)
      · exact throws_returned _

theorem new_error {io : ConnectIo} {ip : Bytes} {port : ℕ} {f : Fault}
    (h : new env io ip port = .error f) : f = .runtimeError ∧ env.inetAton (cStr ip) = none ∨
      ∃ e, f = .systemError e ∧ (io.socket = .error e ∨ io.connect = .error e) := by
  unfold new at h
  split at h
  · rename_i ha
    exact Or.inl ⟨(Except.error.inj h).symm, ha⟩
  · split at h
    · rename_i e he
      exact Or.inr ⟨e, (Except.error.inj h).symm, Or.inl he⟩
    · dsimp only at h
      split at h
      · rename_i e he
        split_ifs at h
        exact Or.inr ⟨e, (Except.error.inj h).symm, Or.inr he⟩
      · split at h
        · rename_i g q hq
          have hno : (Outcome.threw g q).Throws fun _ => False := hq ▸ throws_onTargetConnected
          exact (throws_threw.1 hno).elim
        · cases h

end TcpProxy

namespace WrProxy

variable {env : Env} {io : WrClientIo} {ip : Option Bytes} {p : WrProxy} {fmt : Bytes}
  {args : List Bytes}

def ReplyFault (io : WrClientIo) (f : Fault) : Prop :=
  f = .formatError ∨
    f = .brokenPipe ∧ (isBrokenPipe io.writeOk = true ∨ isBrokenPipe io.writeReply = true)

theorem throws_writeClient {data : Bytes} {res : Except Errno ℕ} :
    (p.writeClient data res).Throws fun f => f = .brokenPipe ∧ isBrokenPipe res = true := by
  unfold writeClient
  split_ifs with he
  · exact throws_threw.2 ⟨rfl, he⟩
  · exact throws_returned _

theorem throws_fail : (p.fail io fmt args).Throws (ReplyFault io) := by
  unfold fail
  split
  · exact throws_threw.2 (Or.inl rfl)
  · split
    · exact throws_threw.2 (Or.inl rfl)
    · refine Outcome.Throws.bind ?_ fun q _ => ?_
      · exact throws_writeClient.mono fun f hf => Or.inr ⟨hf.1, Or.inr hf.2⟩
      · unfold SocketProxy.fail
        split
        · exact throws_threw.2 (Or.inl rfl)
        · exact throws_returned _

theorem throws_handleConnect {cmd : InputStream} :
    (p.handleConnect env io ip cmd).Throws (ReplyFault io) := by
  unfold handleConnect
  split
  · exact throws_fail
  · split
    · split
      · exact throws_fail
      · split
        · exact throws_fail
        · split
          · exact throws_fail
          · split
            · exact throws_fail
            · dsimp only
              split
              · rename_i e he
                split_ifs with hp
                · exact throws_threw.2 (Or.inr ⟨rfl, Or.inl (by rw [he, hp]; rfl)⟩)
                · exact throws_fail
              · exact throws_returned _
    · exact throws_fail

theorem throws_onClientData : (p.onClientData env io ip).Throws (ReplyFault io) := by
  unfold onClientData
  split
  · exact throws_returned _
  · dsimp only
    split_ifs
    · exact throws_returned _
    · split
      · unfold parseCommand
        split_ifs
        · exact throws_returned _
        · dsimp only
          split_ifs
          · exact throws_handleConnect
          · split
            · exact throws_threw.2 (Or.inl rfl)
            · exact throws_fail
      · exact throws_returned _

theorem throws_onTargetData {io : WrTargetIo} : (p.onTargetData io).Throws fun f =>
    f = .brokenPipe ∧ (isBrokenPipe io.writeLen = true ∨ isBrokenPipe io.writeData = true) := by
  unfold onTargetData
  split
  · exact throws_returned _
  · dsimp only
    split_ifs
    · exact throws_returned _
    · refine Outcome.Throws.bind ?_ fun q _ => ?_
      · exact throws_writeClient.mono fun f hf => ⟨hf.1, Or.inl hf.2⟩
      · split
        · rename_i e he
          split_ifs with hp
          · exact throws_threw.2 ⟨rfl, Or.inr (by rw [he, hp]; rfl)⟩
          · exact throws_returned _
        · exact throws_returned _

end WrProxy

end BoardProxy
