import BoardProxy.ClientProcess
import BoardProxy.Config

/-!
# The command line

`argp` hands the options to `parse_opt` in their order, then the arguments, and at last
`ARGP_KEY_END`. Options and arguments overwrite each other in one record, and `main` decides
by this record alone what the process becomes. What is decided depends on which options are
there and on the last value of each, and the order of different options does not matter.
-/

namespace BoardProxy

inductive OptKey
  | config (arg : Bytes)
  | daemon
  | listSessions
  | name (arg : Bytes)
  | sockDir (arg : Bytes)
  | allowSetAuthorizedKeys
  | noWait
deriving DecidableEq

structure CommandLine where
  options : List OptKey
  arguments : List Bytes

structure Opt where
  config : Bytes
  daemon : Bool
  name : Bytes
  sockDir : Bytes
  listSessions : Bool
  allowSetAuthorizedKeys : Bool
  noWait : Bool
deriving DecidableEq

namespace Opt

def initial : Opt := ⟨[], false, [], [], false, false, false⟩

def parseOpt (opt : Opt) : OptKey → Opt
  | .config arg => { opt with config := arg }
  | .daemon => { opt with daemon := true }
  | .listSessions => { opt with listSessions := true }
  | .name arg => { opt with name := arg }
  | .sockDir arg => { opt with sockDir := arg }
  | .allowSetAuthorizedKeys => { opt with allowSetAuthorizedKeys := true }
  | .noWait => { opt with noWait := true }

def parseArg (opt : Opt) (argNum : ℕ) (arg : Bytes) : Option Opt :=
  if argNum = 0 then some { opt with sockDir := arg } else none

def parseArgs : Opt → ℕ → List Bytes → Option Opt
  | opt, _, [] => some opt
  | opt, argNum, arg :: rest =>
    (opt.parseArg argNum arg).bind fun opt => parseArgs opt (argNum + 1) rest

/-- `parse_opt` for `ARGP_KEY_END`. `argp_error` ends the process, and the result
`ARGP_ERR_UNKNOWN` of this case is ignored by `argp`. -/
def parseEnd (opt : Opt) : Option Bytes :=
  if opt.daemon ∧ opt.name ≠ [] then some (ascii "--name is not allowed with --daemon")
  else if opt.daemon ∧ opt.listSessions then
    some (ascii "--list-sessions is not allowed with --daemon")
  else if opt.allowSetAuthorizedKeys ∧ opt.daemon then
    some (ascii "--allow_set_authorized_keys is not allowed with --daemon")
  else if opt.daemon ∧ opt.noWait then some (ascii "--no-wait is not allowed with --daemon")
  else none

end Opt

def CommandLine.parse (c : CommandLine) : Except Bytes Opt :=
  match (c.options.foldl Opt.parseOpt .initial).parseArgs 0 c.arguments with
  | none => .error (ascii "Too many arguments")
  | some opt =>
    match opt.parseEnd with
    | some message => .error message
    | none => .ok opt

/-- How the shell of `system` has ended. Signals are counted from one. -/
inductive WaitStatus
  | exited (code : UInt8)
  | signaled (signal : Fin 127) (core : Bool)
deriving DecidableEq

def WaitStatus.value : WaitStatus → ℕ
  | .exited code => code.toNat * 256
  | .signaled signal core => signal + 1 + if core then 128 else 0

structure MainIo where
  sshOriginalCommand : Option Bytes
  system : Option WaitStatus
  lib : ConfigLib
  parsed : Bytes → Except ParseError Toml.Table

/-- What a process becomes. A `LoadError` that is no exception is undefined behaviour. -/
inductive Started
  | usage (message : Bytes)
  | exit (code : ℕ) (message : Bytes)
  | undefined
  | daemon (sockDir : Bytes) (boards : List BoardSpec) (proxyFactories : List ProxyFactory)
  | client (sockDir : Bytes) (command : ClientCommand) (username : Bytes) (noWait : Bool)
deriving DecidableEq

/-- The kernel keeps the lowest eight bits of what `main` returns. -/
def handleSshCommand (io : MainIo) (command : Bytes) : Started :=
  if command = ascii "set-authorized-keys" then
    match io.system with
    | none => .exit 1 (ascii "set-keys")
    | some ret => .exit (ret.value % 256) []
  else .exit 1 (ascii "Unsupported command: " ++ cStr command)

/-- The `try` block of `main`. -/
def Opt.run (io : MainIo) (opt : Opt) : Started :=
  match Config.load io.lib opt.config (io.parsed opt.config) with
  | .error (.runtimeError what) => .exit 1 what
  | .error _ => .undefined
  | .ok cfg =>
    let sockDir := if opt.sockDir ≠ [] then opt.sockDir else cfg.sockDir
    if sockDir = [] then
      .exit 1
        (ascii "sock_dir not specified. Specify it either on command line or in the config file.")
    else if opt.daemon then .daemon sockDir cfg.boards cfg.proxyFactories
    else .client sockDir (if opt.listSessions then .listSessions else .connect) opt.name opt.noWait

def main (io : MainIo) (c : CommandLine) : Started :=
  match c.parse with
  | .error message => .usage message
  | .ok opt =>
    match opt.allowSetAuthorizedKeys, io.sshOriginalCommand with
    | true, some command => handleSshCommand io command
    | _, _ => opt.run io

namespace OptKey

def config? : OptKey → Option Bytes
  | .config arg => some arg
  | _ => none

def name? : OptKey → Option Bytes
  | .name arg => some arg
  | _ => none

def sockDir? : OptKey → Option Bytes
  | .sockDir arg => some arg
  | _ => none

end OptKey

namespace CommandLine

variable {io : MainIo} {c : CommandLine} {opt : Opt}

def last (f : OptKey → Option Bytes) (ks : List OptKey) : Bytes :=
  (ks.filterMap f).getLast?.getD []

theorem last_concat (f : OptKey → Option Bytes) (ks : List OptKey) (k : OptKey) :
    last f (ks ++ [k]) = (f k).getD (last f ks) := by
  rw [last, List.filterMap_append]
  cases hk : f k with
  | none => simp [hk, last]
  | some arg => simp [hk]

def username (c : CommandLine) : Bytes := last OptKey.name? c.options

def configFile (c : CommandLine) : Bytes := last OptKey.config? c.options

def sockDir (c : CommandLine) : Bytes := c.arguments.head?.getD (last OptKey.sockDir? c.options)

def declared (c : CommandLine) : Opt where
  config := c.configFile
  daemon := decide (.daemon ∈ c.options)
  name := c.username
  sockDir := c.sockDir
  listSessions := decide (.listSessions ∈ c.options)
  allowSetAuthorizedKeys := decide (.allowSetAuthorizedKeys ∈ c.options)
  noWait := decide (.noWait ∈ c.options)

structure Proper (c : CommandLine) : Prop where
  arguments : c.arguments.length ≤ 1
  daemon : .daemon ∈ c.options → c.username = [] ∧ .listSessions ∉ c.options ∧
    .allowSetAuthorizedKeys ∉ c.options ∧ .noWait ∉ c.options

theorem foldl_parseOpt (ks : List OptKey) :
    ks.foldl Opt.parseOpt .initial = declared ⟨ks, []⟩ := by
  induction ks using List.reverseRecOn with
  | nil => rfl
  | append_singleton ks k ih =>
    rw [List.foldl_append, ih]
    cases k <;>
      simp [Opt.parseOpt, declared, configFile, username, sockDir, last_concat, OptKey.config?,
        OptKey.name?, OptKey.sockDir?]

theorem parseArgs_eq (opt : Opt) (args : List Bytes) : opt.parseArgs 0 args =
    if args.length ≤ 1 then some { opt with sockDir := args.head?.getD opt.sockDir } else none := by
  match args with
  | [] => rfl
  | [arg] => rfl
  | _ :: _ :: _ => simp [Opt.parseArgs, Opt.parseArg]

theorem parseEnd_eq_none_iff : opt.parseEnd = none ↔ (opt.daemon = true → opt.name = [] ∧
    opt.listSessions = false ∧ opt.allowSetAuthorizedKeys = false ∧ opt.noWait = false) := by
  cases hd : opt.daemon with
  | false => simp [Opt.parseEnd, hd]
  | true =>
    by_cases hn : opt.name = []
    · cases hl : opt.listSessions <;> cases ha : opt.allowSetAuthorizedKeys <;>
        cases hw : opt.noWait <;> simp [Opt.parseEnd, hd, hn, hl, ha, hw]
    · simp [Opt.parseEnd, hd, hn]

theorem parse_eq_ok_iff : c.parse = .ok opt ↔ c.Proper ∧ opt = c.declared := by
  have hargs : (c.options.foldl Opt.parseOpt .initial).parseArgs 0 c.arguments =
      if c.arguments.length ≤ 1 then some c.declared else none := by
    rw [foldl_parseOpt, parseArgs_eq]
    rfl
  have hend : c.declared.parseEnd = none ↔ (.daemon ∈ c.options → c.username = [] ∧
      .listSessions ∉ c.options ∧ .allowSetAuthorizedKeys ∉ c.options ∧ .noWait ∉ c.options) := by
    rw [parseEnd_eq_none_iff]
    simp [declared]
  rw [parse, hargs]
  by_cases hlen : c.arguments.length ≤ 1
  · rw [if_pos hlen]
    dsimp only
    cases he : c.declared.parseEnd with
    | none =>
      have hp : c.Proper := ⟨hlen, hend.1 he⟩
      simp [hp, eq_comm]
    | some message =>
      have hp : ¬c.Proper := by
        intro hp
        rw [hend.2 hp.daemon] at he
        cases he
      simp [hp]
  · have hp : ¬c.Proper := fun hp => hlen hp.arguments
    simp [if_neg hlen, hp]

def directory (c : CommandLine) (cfg : Config) : Bytes :=
  if c.sockDir = [] then cfg.sockDir else c.sockDir

def loads (io : MainIo) (c : CommandLine) (cfg : Config) : Prop :=
  Config.load io.lib c.configFile (io.parsed c.configFile) = .ok cfg

def sshCommand (io : MainIo) (c : CommandLine) : Option Bytes :=
  if .allowSetAuthorizedKeys ∈ c.options then io.sshOriginalCommand else none

theorem main_of_proper (hp : c.Proper) : main io c =
    match c.sshCommand io with
    | some command => handleSshCommand io command
    | none => c.declared.run io := by
  have hparse : c.parse = .ok c.declared := parse_eq_ok_iff.2 ⟨hp, rfl⟩
  rw [main, hparse]
  by_cases ha : .allowSetAuthorizedKeys ∈ c.options
  · cases hs : io.sshOriginalCommand <;> simp [sshCommand, declared, ha, hs]
  · simp [sshCommand, declared, ha]

theorem main_of_not_proper (io : MainIo) (hp : ¬c.Proper) :
    ∃ message, main io c = .usage message := by
  cases hparse : c.parse with
  | error message => exact ⟨message, by rw [main, hparse]⟩
  | ok opt => exact absurd (parse_eq_ok_iff.1 hparse).1 hp

theorem run_of_error {err : LoadError}
    (h : Config.load io.lib c.configFile (io.parsed c.configFile) = .error err) :
    c.declared.run io = .undefined ∨ ∃ what, c.declared.run io = .exit 1 what := by
  rw [Opt.run, show c.declared.config = c.configFile from rfl, h]
  cases err with
  | runtimeError what => exact .inr ⟨what, rfl⟩
  | nullDereference => exact .inl rfl
  | emptyOptional => exact .inl rfl

theorem run_of_loads {cfg : Config} (h : c.loads io cfg) : c.declared.run io =
    if c.directory cfg = [] then .exit 1
      (ascii "sock_dir not specified. Specify it either on command line or in the config file.")
    else if .daemon ∈ c.options then .daemon (c.directory cfg) cfg.boards cfg.proxyFactories
    else .client (c.directory cfg)
      (if .listSessions ∈ c.options then .listSessions else .connect) c.username
      (decide (.noWait ∈ c.options)) := by
  have hdir : (if c.declared.sockDir ≠ [] then c.declared.sockDir else cfg.sockDir) =
      c.directory cfg := ite_not ..
  rw [Opt.run, show c.declared.config = c.configFile from rfl, h]
  simp only [hdir]
  simp [declared]

theorem run_cases (io : MainIo) (c : CommandLine) :
    (∃ cfg, c.loads io cfg ∧ c.directory cfg ≠ []) ∨ c.declared.run io = .undefined ∨
      ∃ what, c.declared.run io = .exit 1 what := by
  cases h : Config.load io.lib c.configFile (io.parsed c.configFile) with
  | error err => exact .inr (run_of_error h)
  | ok cfg =>
    by_cases hdir : c.directory cfg = []
    · have hrun := run_of_loads h
      rw [if_pos hdir] at hrun
      exact .inr (.inr ⟨_, hrun⟩)
    · exact .inl ⟨cfg, h, hdir⟩

theorem run_eq_daemon_iff {dir : Bytes} {bs : List BoardSpec} {fs : List ProxyFactory} :
    c.declared.run io = .daemon dir bs fs ↔ .daemon ∈ c.options ∧ dir ≠ [] ∧
      ∃ cfg, c.loads io cfg ∧ c.directory cfg = dir ∧ cfg.boards = bs ∧
        cfg.proxyFactories = fs := by
  constructor
  · intro h
    rcases run_cases io c with ⟨cfg, hl, hdir⟩ | hu | ⟨what, hu⟩
    · rw [run_of_loads hl, if_neg hdir] at h
      split_ifs at h with hd
      cases h
      exact ⟨hd, hdir, cfg, hl, rfl, rfl, rfl⟩
    · rw [hu] at h
      cases h
    · rw [hu] at h
      cases h
  · rintro ⟨hd, hdir, cfg, hl, rfl, rfl, rfl⟩
    rw [run_of_loads hl, if_neg hdir, if_pos hd]

theorem run_eq_client_iff {dir name : Bytes} {command : ClientCommand} {noWait : Bool} :
    c.declared.run io = .client dir command name noWait ↔ .daemon ∉ c.options ∧ dir ≠ [] ∧
      (∃ cfg, c.loads io cfg ∧ c.directory cfg = dir) ∧
      (command = .listSessions ↔ .listSessions ∈ c.options) ∧ name = c.username ∧
      (noWait = true ↔ .noWait ∈ c.options) := by
  constructor
  · intro h
    rcases run_cases io c with ⟨cfg, hl, hdir⟩ | hu | ⟨what, hu⟩
    · rw [run_of_loads hl, if_neg hdir] at h
      split_ifs at h with hd hls
      · cases h
        exact ⟨hd, hdir, ⟨cfg, hl, rfl⟩, ⟨fun _ => hls, fun _ => rfl⟩, rfl, decide_eq_true_iff⟩
      · cases h
        refine ⟨hd, hdir, ⟨cfg, hl, rfl⟩, ⟨fun hc => (by cases hc), fun hc => absurd hc hls⟩, rfl,
          decide_eq_true_iff⟩
    · rw [hu] at h
      cases h
    · rw [hu] at h
      cases h
  · rintro ⟨hd, hdir, ⟨cfg, hl, rfl⟩, hcmd, rfl, hnw⟩
    have hnw' : decide (.noWait ∈ c.options) = noWait := by
      rw [Bool.eq_iff_iff, decide_eq_true_iff, hnw]
    have hcmd' : (if .listSessions ∈ c.options then ClientCommand.listSessions else .connect) =
        command := by
      cases command with
      | connect => exact if_neg fun hls => (by cases hcmd.2 hls)
      | listSessions => exact if_pos (hcmd.1 rfl)
    rw [run_of_loads hl, if_neg hdir, if_neg hd, hcmd', hnw']

theorem run_ne_success (io : MainIo) (c : CommandLine) (message : Bytes) :
    c.declared.run io ≠ .exit 0 [] ∧ c.declared.run io ≠ .usage message := by
  rcases run_cases io c with ⟨cfg, hl, hdir⟩ | hu | ⟨what, hu⟩
  · rw [run_of_loads hl, if_neg hdir]
    split_ifs <;> simp
  · simp [hu]
  · simp [hu]

theorem handleSshCommand_exits (io : MainIo) (command : Bytes) :
    ∃ code message, handleSshCommand io command = .exit code message := by
  unfold handleSshCommand
  split_ifs
  · cases io.system with
    | none => exact ⟨_, _, rfl⟩
    | some ret => exact ⟨_, _, rfl⟩
  · exact ⟨_, _, rfl⟩

theorem handleSshCommand_eq_success_iff {command : Bytes} :
    handleSshCommand io command = .exit 0 [] ↔
      command = ascii "set-authorized-keys" ∧ ∃ code, io.system = some (.exited code) := by
  unfold handleSshCommand
  split_ifs with hc
  · cases io.system with
    | none => simp
    | some ret =>
      cases ret with
      | exited code => simp [WaitStatus.value, hc]
      | signaled signal core =>
        have hne : (WaitStatus.signaled signal core).value % 256 ≠ 0 := by
          have hlt := signal.isLt
          rw [WaitStatus.value]
          split_ifs <;> omega
        simp [hne]
  · simp [hc]

/-- What a process becomes depends on which options are given and on the last value of each.
A daemon never has an option of a client. An SSH user who may write keys gets nothing else
once a command was given, and the success of it does not depend on the code of the shell. -/
theorem main_becomes (io : MainIo) (c : CommandLine) :
    ((∃ message, main io c = .usage message) ↔ ¬c.Proper) ∧
    (main io c = .exit 0 [] ↔ c.Proper ∧ c.sshCommand io = some (ascii "set-authorized-keys") ∧
      ∃ code, io.system = some (.exited code)) ∧
    (∀ dir bs fs, main io c = .daemon dir bs fs ↔ c.Proper ∧ .daemon ∈ c.options ∧ dir ≠ [] ∧
      ∃ cfg, c.loads io cfg ∧ c.directory cfg = dir ∧ cfg.boards = bs ∧ cfg.proxyFactories = fs) ∧
    ∀ dir command name noWait, main io c = .client dir command name noWait ↔
      c.Proper ∧ c.sshCommand io = none ∧ .daemon ∉ c.options ∧ dir ≠ [] ∧
      (∃ cfg, c.loads io cfg ∧ c.directory cfg = dir) ∧
      (command = .listSessions ↔ .listSessions ∈ c.options) ∧ name = c.username ∧
      (noWait = true ↔ .noWait ∈ c.options) := by
  by_cases hp : c.Proper
  · cases hs : c.sshCommand io with
    | some command =>
      have hm : main io c = handleSshCommand io command := by rw [main_of_proper hp, hs]
      obtain ⟨code, message, he⟩ := handleSshCommand_exits io command
      have hd : .daemon ∉ c.options := by
        intro hd
        rw [sshCommand, if_neg (hp.daemon hd).2.2.1] at hs
        cases hs
      rw [hm, handleSshCommand_eq_success_iff, Option.some.injEq]
      simp [he, hp, hd]
    | none =>
      have hm : main io c = c.declared.run io := by rw [main_of_proper hp, hs]
      rw [hm]
      refine ⟨?_, ?_, fun dir bs fs => ?_, fun dir command name noWait => ?_⟩
      · simp [fun message => (run_ne_success io c message).2, hp]
      · simp [(run_ne_success io c []).1]
      · simp [run_eq_daemon_iff, hp]
      · simp [run_eq_client_iff, hp]
  · obtain ⟨message, hm⟩ := main_of_not_proper io hp
    simp [hm, hp]

end CommandLine

end BoardProxy
