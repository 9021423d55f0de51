import BoardProxy.FormatText

/-!
# What the daemon takes from the kernel and from libraries

`Env` holds the pure library functions whose code is not part of the
repository. Results of system calls are inputs of each callback. A callback
either returns or is left by an exception, by undefined behaviour or by
`SIGPIPE`, and `Outcome` keeps the state reached in each case. An exception that
leaves a callback ends the daemon in `main`. The daemon does not change what
`SIGPIPE` does, so that a write to a pipe or a stream socket without a reader
kills it. A run continues only after `returned`.
-/

namespace BoardProxy

abbrev Errno := ℕ
abbrev InAddr := UInt32

structure Env where
  -- `boost::program_options::split_unix`, `none` where it throws
  splitUnix : Bytes → Option (List Bytes)
  inetAton : Bytes → Option InAddr
  strerror : Errno → Bytes
  strerror_plain : ∀ e, NoBrace (strerror e)

/-- `EPIPE` on Linux: the call has raised `SIGPIPE`. -/
def brokenPipe : Errno := 32

def isBrokenPipe {α : Type*} : Except Errno α → Bool
  | .error e => decide (e = brokenPipe)
  | .ok _ => false

inductive Fault
  | systemError (errno : Errno)
  | runtimeError
  | formatError
  | commandSyntax
  | useAfterFree
  | nullDereference
  | overread
  | brokenPipe
deriving DecidableEq

inductive Outcome (α : Type*)
  | returned (a : α)
  | threw (f : Fault) (a : α)

namespace Outcome

variable {α β : Type*}

def bind : Outcome α → (α → Outcome α) → Outcome α
  | .returned a, k => k a
  | .threw f a, _ => .threw f a

def map (g : α → β) : Outcome α → Outcome β
  | .returned a => .returned (g a)
  | .threw f a => .threw f (g a)

def state : Outcome α → α
  | .returned a => a
  | .threw _ a => a

def toOption : Outcome α → Option α
  | .returned a => some a
  | .threw _ _ => none

def fault? : Outcome α → Option Fault
  | .returned _ => none
  | .threw f _ => some f

def Returns (o : Outcome α) : Prop := ∃ a, o = .returned a

@[simp] theorem returns_returned (a : α) : (returned a).Returns := ⟨a, rfl⟩

@[simp] theorem not_returns_threw (f : Fault) (a : α) : ¬(threw f a).Returns :=
  fun ⟨_, h⟩ => by cases h

@[simp] theorem returned_bind (a : α) (k : α → Outcome α) : (returned a).bind k = k a := rfl

theorem toOption_eq_some {o : Outcome α} {a : α} : o.toOption = some a ↔ o = .returned a := by
  cases o <;> simp [toOption]

theorem bind_eq_returned {o : Outcome α} {k : α → Outcome α} {b : α} :
    o.bind k = .returned b ↔ ∃ a, o = .returned a ∧ k a = .returned b := by
  cases o <;> simp [bind]

theorem map_eq_returned {o : Outcome α} {g : α → β} {b : β} :
    o.map g = .returned b ↔ ∃ a, o = .returned a ∧ g a = b := by
  cases o <;> simp [map]

end Outcome
end BoardProxy
