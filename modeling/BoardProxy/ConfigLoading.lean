import BoardProxy.Config
import BoardProxy.FirstError

/-!
# Which configurations are loaded

The loader goes through the boards and then through the sockets, and stops at the
first entry that it does not accept. It is the kind of this entry that decides
whether the user sees an error message.
-/

namespace BoardProxy

open FirstError
open Toml (Table)

variable {lib : ConfigLib} {filename id key templ ct cct : Bytes} {t cfg : Table} {b : BoardSpec}
  {e : LoadError} {entry : Bytes × Toml}

namespace LoadError

def Undefined : LoadError → Prop
  | runtimeError _ => False
  | nullDereference | emptyOptional => True

theorem not_undefined_iff : ¬e.Undefined ↔ ∃ what, e = .runtimeError what := by
  cases e <;> simp [Undefined]

end LoadError

def Toml.Table.Explicit (t : Table) (key : Bytes) : Prop := ∃ s, t.string? key = some s

def templateArgs (t : Table) : List (Bytes × Bytes) :=
  t.entries.map fun entry => (cStr entry.1, cStr (entry.2.string?.getD []))

/-- The template can be used: all values of the board are strings, and it expands. -/
def Expands (lib : ConfigLib) (templ : Bytes) (t : Table) : Prop :=
  (∀ entry ∈ t.entries, ∃ s, entry.2.string? = some s) ∧
    ∃ s, lib.vformat templ (templateArgs t) = .ok s

def ValidField (lib : ConfigLib) (key templ : Bytes) (t : Table) : Prop :=
  t.Explicit key ∨ t.find key = none ∧ Expands lib templ t

structure ValidBoard (lib : ConfigLib) (ct cct : Bytes) (t : Table) : Prop where
  ipAddress : t.Explicit (ascii "ip_address")
  command : ValidField lib (ascii "command") ct t
  closeCommand : ValidField lib (ascii "close_command") cct t

theorem templateArg_ok_iff : (∃ a, templateArg entry = .ok a) ↔ ∃ s, entry.2.string? = some s := by
  cases h : entry.2.string? <;> simp [templateArg, h]

theorem templateArg_error (h : templateArg entry = .error e) : ¬e.Undefined := by
  cases hs : entry.2.string? with
  | none =>
    simp only [templateArg, hs, Except.error.injEq] at h
    rw [← h]
    exact not_false
  | some s =>
    simp only [templateArg, hs] at h
    cases h

theorem mapM_templateArg (h : ∀ entry ∈ t.entries, ∃ s, entry.2.string? = some s) :
    t.entries.mapM templateArg = .ok (templateArgs t) := by
  refine mapM_eq_ok_map fun entry hmem => ?_
  obtain ⟨s, hs⟩ := h entry hmem
  simp [templateArg, hs]

theorem getBoardField_of_none (h : t.find key = none) :
    getBoardField lib key templ t =
      (t.entries.mapM templateArg >>= fun args =>
        match lib.vformat templ args with
        | .error what => .error (.runtimeError what)
        | .ok s => .ok s) := by
  rw [getBoardField, h]
  cases t.entries.mapM templateArg <;> rfl

theorem getBoardField_ok_iff :
    (∃ s, getBoardField lib key templ t = .ok s) ↔ ValidField lib key templ t := by
  cases hf : t.find key with
  | none =>
    have hno : ¬t.Explicit key := by
      rintro ⟨s, hs⟩
      rw [Table.string?, hf] at hs
      cases hs
    rw [getBoardField_of_none hf, ValidField, or_iff_right hno, and_iff_right hf]
    constructor
    · rintro ⟨s, hs⟩
      obtain ⟨args, hargs, hs⟩ := bind_eq_ok_iff.1 hs
      have hall : ∀ entry ∈ t.entries, ∃ s, entry.2.string? = some s := fun entry hmem =>
        templateArg_ok_iff.1 (exists_mapM_eq_ok_iff.1 ⟨args, hargs⟩ entry hmem)
      refine ⟨hall, ?_⟩
      rw [mapM_templateArg hall, Except.ok.injEq] at hargs
      subst hargs
      cases hv : lib.vformat templ (templateArgs t) with
      | error what =>
        simp only [hv] at hs
        cases hs
      | ok s => exact ⟨s, rfl⟩
    · rintro ⟨hall, s, hs⟩
      refine ⟨s, bind_eq_ok_iff.2 ⟨templateArgs t, mapM_templateArg hall, ?_⟩⟩
      simp only [hs]
  | some node =>
    have hex : t.Explicit key ↔ ∃ s, node.string? = some s := by
      simp [Table.Explicit, Table.string?, hf]
    simp only [ValidField, hf, hex, reduceCtorEq, false_and, or_false]
    cases hs : node.string? <;> simp [getBoardField, hf, hs]

theorem getBoardField_error (h : getBoardField lib key templ t = .error e) : ¬e.Undefined := by
  cases hf : t.find key with
  | none =>
    rw [getBoardField_of_none hf, bind_eq_error_iff] at h
    rcases h with h | ⟨args, _, h⟩
    · obtain ⟨_, entry, _, _, _, hentry⟩ := mapM_eq_error_iff.1 h
      exact templateArg_error hentry
    · cases hv : lib.vformat templ args with
      | error what =>
        simp only [hv, Except.error.injEq] at h
        rw [← h]
        exact not_false
      | ok s =>
        simp only [hv] at h
        cases h
  | some node =>
    cases hs : node.string? with
    | none =>
      simp only [getBoardField, hf, hs, Except.error.injEq] at h
      rw [← h]
      exact not_false
    | some s =>
      simp only [getBoardField, hf, hs] at h
      cases h

theorem createBoard_ok_iff : createBoard lib id ct cct t = .ok b ↔
    ∃ ip command close, t.string? (ascii "ip_address") = some ip ∧
      getBoardField lib (ascii "command") ct t = .ok command ∧
      getBoardField lib (ascii "close_command") cct t = .ok close ∧
      b = ⟨id, command, ip, close, t.valueOr (ascii "reserved_for")⟩ := by
  cases hip : t.string? (ascii "ip_address") with
  | none => simp [createBoard, hip]
  | some ip =>
    simp only [createBoard, hip, bind_eq_ok_iff, pure, Except.pure, Except.ok.injEq]
    constructor
    · rintro ⟨command, hcommand, close, hclose, rfl⟩
      exact ⟨ip, command, close, rfl, hcommand, hclose, rfl⟩
    · rintro ⟨_, command, close, hip, hcommand, hclose, rfl⟩
      rw [Option.some.injEq] at hip
      subst hip
      exact ⟨command, hcommand, close, hclose, rfl⟩

theorem exists_createBoard_iff : (∃ b, createBoard lib id ct cct t = .ok b) ↔
    ValidBoard lib ct cct t := by
  simp only [createBoard_ok_iff]
  constructor
  · rintro ⟨b, ip, command, close, hip, hcommand, hclose, _⟩
    exact ⟨⟨ip, hip⟩, getBoardField_ok_iff.1 ⟨command, hcommand⟩,
      getBoardField_ok_iff.1 ⟨close, hclose⟩⟩
  · rintro ⟨⟨ip, hip⟩, hcommand, hclose⟩
    obtain ⟨command, hcommand⟩ := getBoardField_ok_iff.2 hcommand
    obtain ⟨close, hclose⟩ := getBoardField_ok_iff.2 hclose
    exact ⟨_, ip, command, close, hip, hcommand, hclose, rfl⟩

theorem createBoard_error (h : createBoard lib id ct cct t = .error e) : ¬e.Undefined := by
  cases hip : t.string? (ascii "ip_address") with
  | none =>
    simp only [createBoard, hip, Except.error.injEq] at h
    rw [← h]
    exact not_false
  | some ip =>
    simp only [createBoard, hip, bind_eq_error_iff] at h
    rcases h with h | ⟨command, _, h | ⟨close, _, h⟩⟩
    · exact getBoardField_error h
    · exact getBoardField_error h
    · cases h

def ValidBoardEntry (lib : ConfigLib) (ct cct : Bytes) (entry : Bytes × Toml) : Prop :=
  ∃ t, entry.2.asTable = some t ∧ ValidBoard lib ct cct t

theorem parseBoard_ok_iff : parseBoard lib ct cct entry = .ok b ↔
    ∃ t, entry.2.asTable = some t ∧ createBoard lib entry.1 ct cct t = .ok b := by
  cases h : entry.2.asTable <;> simp [parseBoard, h]

theorem exists_parseBoard_iff (entry : Bytes × Toml) :
    (∃ b, parseBoard lib ct cct entry = .ok b) ↔ ValidBoardEntry lib ct cct entry := by
  cases h : entry.2.asTable with
  | none => simp [parseBoard, ValidBoardEntry, h]
  | some t => simp [parseBoard, ValidBoardEntry, h, exists_createBoard_iff]

theorem parseBoard_undefined_iff :
    (∃ e, parseBoard lib ct cct entry = .error e ∧ e.Undefined) ↔ entry.2.asTable = none := by
  cases h : entry.2.asTable with
  | none => simp [parseBoard, h, LoadError.Undefined]
  | some t =>
    simp only [parseBoard, h, reduceCtorEq, iff_false, not_exists, not_and]
    exact fun e he => createBoard_error he

namespace Toml

def number : Toml → Option ℤ
  | integer n => some n
  | floating whole => whole
  | _ => none

end Toml

def GivenPort (t : Table) (n : ℕ) : Prop :=
  n ≤ 65535 ∧ (t.find (ascii "port")).bind Toml.number = some (n : ℤ)

def ReadPort (lib : ConfigLib) (t : Table) (n : ℕ) : Prop :=
  (t.find (ascii "port")).bind (Toml.uint16? lib) = some n

theorem nodeIntegerCast_eq_some_iff {m : ℤ} {n : ℕ} :
    Toml.nodeIntegerCast m = some n ↔ n ≤ 65535 ∧ m = n := by
  rw [Toml.nodeIntegerCast]
  split_ifs with h
  · rw [Option.some.injEq]
    omega
  · simp only [false_iff]
    omega

theorem readPort_iff {n : ℕ} : ReadPort lib t n ↔
    GivenPort t n ∨
      ∃ flag, t.find (ascii "port") = some (.boolean flag) ∧ lib.flag flag = some n := by
  rw [ReadPort, GivenPort]
  cases hp : t.find (ascii "port") with
  | none => simp
  | some node =>
    rw [Option.bind_some, Option.bind_some]
    cases node with
    | integer m => simp [Toml.uint16?, Toml.number, nodeIntegerCast_eq_some_iff]
    | floating whole =>
      cases whole with
      | none => simp [Toml.uint16?, Toml.number]
      | some m => simp [Toml.uint16?, Toml.number, nodeIntegerCast_eq_some_iff]
    | boolean flag => simp [Toml.uint16?, Toml.number]
    | _ => simp [Toml.uint16?, Toml.number]

/-- The factory is the one that the entry of `sockets` describes, where `port` says which
number the entry gives. -/
def DescribesBy (port : Table → ℕ → Prop) (entry : Bytes × Toml) (factory : ProxyFactory) : Prop :=
  ∃ t, entry.2.asTable = some t ∧
    (t.string? (ascii "type") = some (ascii "wrproxy") ∧ factory = .wr entry.1 ∨
      t.string? (ascii "type") = some (ascii "tcp") ∧ ∃ n, port t n ∧ factory = .tcp entry.1 n)

def Describes : Bytes × Toml → ProxyFactory → Prop := DescribesBy GivenPort

def Accepts (lib : ConfigLib) : Bytes × Toml → ProxyFactory → Prop := DescribesBy (ReadPort lib)

theorem parseSocket_ok_iff {factory : ProxyFactory} :
    parseSocket lib filename entry = .ok factory ↔ Accepts lib entry factory := by
  have hne : ascii "wrproxy" ≠ ascii "tcp" := by decide +kernel
  cases h : entry.2.asTable with
  | none => simp [parseSocket, Accepts, DescribesBy, h]
  | some t =>
    simp only [parseSocket, Accepts, DescribesBy, h, Option.some.injEq, exists_eq_left']
    cases htype : t.string? (ascii "type") with
    | none => simp
    | some type =>
      simp only [Option.some.injEq]
      by_cases htcp : type = ascii "tcp"
      · simp only [htcp, ↓reduceIte, hne.symm, false_and, true_and, false_or, ReadPort]
        cases (t.find (ascii "port")).bind (Toml.uint16? lib) <;> simp [eq_comm]
      · simp only [htcp, ↓reduceIte, false_and, or_false]
        by_cases hwr : type = ascii "wrproxy"
        · simp [hwr, eq_comm]
        · simp [hwr]

theorem Describes.accepts {factory : ProxyFactory} (h : Describes entry factory) :
    Accepts lib entry factory := by
  obtain ⟨t, ht, hwr | ⟨htcp, n, hn, hf⟩⟩ := h
  · exact ⟨t, ht, Or.inl hwr⟩
  · exact ⟨t, ht, Or.inr ⟨htcp, n, readPort_iff.2 (Or.inl hn), hf⟩⟩

theorem Accepts.unique {factory factory' : ProxyFactory} (h : Accepts lib entry factory)
    (h' : Accepts lib entry factory') : factory = factory' := by
  have hp : parseSocket lib [] entry = .ok factory := parseSocket_ok_iff.2 h
  have hp' : parseSocket lib [] entry = .ok factory' := parseSocket_ok_iff.2 h'
  rw [hp, Except.ok.injEq] at hp'
  exact hp'

theorem parseSocket_undefined_iff :
    (∃ e, parseSocket lib filename entry = .error e ∧ e.Undefined) ↔
      ¬∃ t, entry.2.asTable = some t ∧
        (t.string? (ascii "type") = some (ascii "tcp") → ∃ n, ReadPort lib t n) := by
  cases h : entry.2.asTable with
  | none => simp [parseSocket, h, LoadError.Undefined]
  | some t =>
    simp only [parseSocket, h, Option.some.injEq, exists_eq_left']
    cases htype : t.string? (ascii "type") with
    | none => simp [LoadError.Undefined]
    | some type =>
      simp only [Option.some.injEq]
      by_cases htcp : type = ascii "tcp"
      · simp only [htcp, ↓reduceIte, true_implies, ReadPort]
        cases (t.find (ascii "port")).bind (Toml.uint16? lib) <;> simp [LoadError.Undefined]
      · simp only [htcp, ↓reduceIte, false_implies, not_true_eq_false, iff_false, not_exists,
          not_and]
        intro e he
        split_ifs at he
        rw [Except.error.injEq] at he
        rw [← he]
        exact not_false

namespace Toml.Table

def commandTemplate (cfg : Table) : Bytes := (cfg.string? (ascii "command_template")).getD []

def closeCommandTemplate (cfg : Table) : Bytes :=
  (cfg.string? (ascii "close_command_template")).getD []

def boardEntries (cfg : Table) : Option (List (Bytes × Toml)) :=
  ((cfg.find (ascii "boards")).bind Toml.asTable).map Table.entries

def socketEntries (cfg : Table) : List (Bytes × Toml) :=
  (((cfg.find (ascii "sockets")).bind Toml.asTable).map Table.entries).getD []

end Toml.Table

def ValidBoardIn (lib : ConfigLib) (cfg : Table) : Bytes × Toml → Prop :=
  ValidBoardEntry lib cfg.commandTemplate cfg.closeCommandTemplate

theorem parseBoards_eq {l : List (Bytes × Toml)} (h : cfg.boardEntries = some l) :
    parseBoards lib filename cfg =
      l.mapM (parseBoard lib cfg.commandTemplate cfg.closeCommandTemplate) := by
  obtain ⟨boards, hboards, rfl⟩ := Option.map_eq_some_iff.1 h
  rw [parseBoards, hboards]
  rfl

theorem parseBoards_of_none (h : cfg.boardEntries = none) :
    ∃ what, parseBoards lib filename cfg = .error (.runtimeError what) := by
  rw [parseBoards, Option.map_eq_none_iff.1 h]
  exact ⟨_, rfl⟩

theorem parseBoards_ok {bs : List BoardSpec} (h : parseBoards lib filename cfg = .ok bs) :
    ∃ l, cfg.boardEntries = some l ∧ (∀ entry ∈ l, ValidBoardIn lib cfg entry) ∧
      List.Forall₂ (fun entry b => parseBoard lib cfg.commandTemplate cfg.closeCommandTemplate
        entry = .ok b) l bs := by
  cases hl : cfg.boardEntries with
  | none =>
    obtain ⟨what, hwhat⟩ : ∃ what, parseBoards lib filename cfg = .error (.runtimeError what) :=
      parseBoards_of_none hl
    rw [h] at hwhat
    cases hwhat
  | some l =>
    rw [parseBoards_eq hl] at h
    refine ⟨l, rfl, fun entry hmem => ?_, mapM_eq_ok_iff.1 h⟩
    exact (exists_parseBoard_iff entry).1 (exists_mapM_eq_ok_iff.1 ⟨bs, h⟩ entry hmem)

theorem parseSockets_ok {fs : List ProxyFactory} (h : parseSockets lib filename cfg = .ok fs) :
    List.Forall₂ (Accepts lib) cfg.socketEntries fs := by
  rw [parseSockets] at h
  cases hf : cfg.find (ascii "sockets") with
  | none =>
    simp only [hf, Except.ok.injEq] at h
    subst h
    rw [Table.socketEntries, hf]
    exact .nil
  | some node =>
    cases ht : node.asTable with
    | none =>
      simp only [hf, ht] at h
      cases h
    | some sockets =>
      simp only [hf, ht, mapM_eq_ok_iff, parseSocket_ok_iff] at h
      simpa [Table.socketEntries, hf, ht] using h

def Loaded (cfg : Table) (c : Config) : Prop :=
  (∃ l, cfg.boardEntries = some l ∧ c.boards.map BoardSpec.id = l.map Prod.fst) ∧
    List.Forall₂ Describes cfg.socketEntries c.proxyFactories

def ValidBoards (lib : ConfigLib) (cfg : Table) : Prop :=
  ∃ l, cfg.boardEntries = some l ∧ ∀ entry ∈ l, ValidBoardIn lib cfg entry

def ValidSockets (lib : ConfigLib) (cfg : Table) : Prop :=
  ∀ entry ∈ cfg.socketEntries, ∃ factory, Accepts lib entry factory

/-- Every entry that the loader gets to can be read: it is a table, and a TCP socket
has a port. -/
structure Readable (lib : ConfigLib) (cfg : Table) : Prop where
  boards : ∀ l entry, cfg.boardEntries = some l → Reached (ValidBoardIn lib cfg) l entry →
    ∃ t, entry.2.asTable = some t
  sockets : ∀ entry, ValidBoards lib cfg →
    Reached (fun x => ∃ factory, Accepts lib x factory) cfg.socketEntries entry →
    ∃ t, entry.2.asTable = some t ∧
      (t.string? (ascii "type") = some (ascii "tcp") → ∃ n, ReadPort lib t n)

def Numbered (cfg : Table) : Prop :=
  ∀ entry ∈ cfg.socketEntries, ∀ t, entry.2.asTable = some t →
    t.string? (ascii "type") = some (ascii "tcp") → ∃ n, GivenPort t n

theorem load_ok_iff (hf : filename ≠ []) {c : Config} :
    Config.load lib filename (.ok cfg) = .ok c ↔
      parseBoards lib filename cfg = .ok c.boards ∧
        parseSockets lib filename cfg = .ok c.proxyFactories ∧
        c.sockDir = (cfg.string? (ascii "sock_dir")).getD [] := by
  simp only [Config.load, hf, ↓reduceIte, bind_eq_ok_iff, pure, Except.pure, Except.ok.injEq]
  constructor
  · rintro ⟨boards, hboards, factories, hfactories, rfl⟩
    exact ⟨hboards, hfactories, rfl⟩
  · rintro ⟨hboards, hfactories, hdir⟩
    refine ⟨_, hboards, _, hfactories, ?_⟩
    rw [← hdir]

theorem parseBoard_id (h : parseBoard lib ct cct entry = .ok b) : b.id = entry.1 := by
  obtain ⟨t, _, ht⟩ := parseBoard_ok_iff.1 h
  obtain ⟨_, _, _, _, _, _, rfl⟩ := createBoard_ok_iff.1 ht
  rfl

theorem forall_of_forall₂ {fs : List ProxyFactory} {l : List (Bytes × Toml)}
    {P : Bytes × Toml → ProxyFactory → Prop} (h : List.Forall₂ P l fs) :
    ∀ entry ∈ l, ∃ factory, P entry factory := by
  intro entry hmem
  obtain ⟨n, hn, rfl⟩ := List.getElem_of_mem hmem
  exact ⟨_, (List.forall₂_iff_get.1 h).2 n hn ((List.forall₂_iff_get.1 h).1 ▸ hn)⟩

theorem describes_of_accepts {factory : ProxyFactory} (h : Accepts lib entry factory)
    (hport : ∀ t, entry.2.asTable = some t → t.string? (ascii "type") = some (ascii "tcp") →
      ∃ n, GivenPort t n) : Describes entry factory := by
  have hdesc : ∃ factory, Describes entry factory := by
    obtain ⟨t, ht, hwr | ⟨htcp, _⟩⟩ := h
    · exact ⟨factory, t, ht, Or.inl hwr⟩
    · obtain ⟨n, hn⟩ := hport t ht htcp
      exact ⟨_, t, ht, Or.inr ⟨htcp, n, hn, rfl⟩⟩
  obtain ⟨factory', h'⟩ := hdesc
  exact h.unique h'.accepts ▸ h'

theorem loaded_iff (hf : filename ≠ []) {c : Config}
    (h : Config.load lib filename (.ok cfg) = .ok c) : Loaded cfg c ↔ Numbered cfg := by
  obtain ⟨hboards, hsockets, _⟩ := (load_ok_iff hf).1 h
  obtain ⟨l, hl, _, hall⟩ := parseBoards_ok hboards
  have hacc := parseSockets_ok hsockets
  have hids : c.boards.map BoardSpec.id = l.map Prod.fst := by
    rw [← List.forall₂_eq_eq_eq, List.forall₂_map_left_iff, List.forall₂_map_right_iff]
    exact hall.flip.imp fun _ _ h => parseBoard_id h
  constructor
  · rintro ⟨_, hdesc⟩ entry hmem t ht htcp
    obtain ⟨_, t', ht', ⟨hwr, _⟩ | ⟨_, n, hn, _⟩⟩ := forall_of_forall₂ hdesc entry hmem
    · rw [ht, Option.some.injEq] at ht'
      subst ht'
      rw [htcp, Option.some.injEq] at hwr
      exact absurd hwr (by decide +kernel)
    · rw [ht, Option.some.injEq] at ht'
      exact ⟨n, ht' ▸ hn⟩
  · intro hports
    refine ⟨⟨l, hl, hids⟩, List.forall₂_iff_get.2 ⟨hacc.length_eq, fun n hn hn' => ?_⟩⟩
    exact describes_of_accepts ((List.forall₂_iff_get.1 hacc).2 n hn hn')
      (hports _ (List.get_mem ..))

theorem parseBoards_undefined_iff :
    (∃ e, parseBoards lib filename cfg = .error e ∧ e.Undefined) ↔
      ∃ l, cfg.boardEntries = some l ∧ ∃ entry, Reached (ValidBoardIn lib cfg) l entry ∧
        entry.2.asTable = none := by
  cases hl : cfg.boardEntries with
  | none =>
    obtain ⟨what, hwhat⟩ : ∃ what, parseBoards lib filename cfg = .error (.runtimeError what) :=
      parseBoards_of_none hl
    simp [hwhat, LoadError.Undefined]
  | some l =>
    rw [parseBoards_eq hl, exists_mapM_error_iff exists_parseBoard_iff]
    simp only [parseBoard_undefined_iff, Option.some.injEq, exists_eq_left']
    rfl

theorem exists_parseBoards_iff : (∃ bs, parseBoards lib filename cfg = .ok bs) ↔
    ValidBoards lib cfg := by
  constructor
  · rintro ⟨bs, h⟩
    obtain ⟨l, hl, hall, _⟩ := parseBoards_ok h
    exact ⟨l, hl, hall⟩
  · rintro ⟨l, hl, hall⟩
    rw [parseBoards_eq hl, exists_mapM_eq_ok_iff]
    exact fun entry hmem => (exists_parseBoard_iff entry).2 (hall entry hmem)

theorem parseSockets_undefined_iff :
    (∃ e, parseSockets lib filename cfg = .error e ∧ e.Undefined) ↔
      ∃ entry, Reached (fun x => ∃ factory, Accepts lib x factory) cfg.socketEntries entry ∧
        ¬∃ t, entry.2.asTable = some t ∧
          (t.string? (ascii "type") = some (ascii "tcp") → ∃ n, ReadPort lib t n) := by
  have hnil : ∀ entry, ¬Reached (fun x => ∃ factory, Accepts lib x factory) [] entry := by
    rintro entry ⟨pre, post, hsplit, _⟩
    simp at hsplit
  rw [parseSockets, Table.socketEntries]
  cases hf : cfg.find (ascii "sockets") with
  | none => simp [hnil]
  | some node =>
    cases ht : node.asTable with
    | none => simp [ht, hnil, LoadError.Undefined]
    | some sockets =>
      have hok : ∀ entry, (∃ factory, parseSocket lib filename entry = .ok factory) ↔
          ∃ factory, Accepts lib entry factory := fun entry => by
        simp only [parseSocket_ok_iff]
      simp only [ht, Option.bind_some, Option.map_some, Option.getD_some,
        exists_mapM_error_iff hok, parseSocket_undefined_iff]

theorem load_undefined_iff (hf : filename ≠ []) :
    (∃ e, Config.load lib filename (.ok cfg) = .error e ∧ e.Undefined) ↔
      (∃ e, parseBoards lib filename cfg = .error e ∧ e.Undefined) ∨
        (∃ bs, parseBoards lib filename cfg = .ok bs) ∧
          ∃ e, parseSockets lib filename cfg = .error e ∧ e.Undefined := by
  simp only [Config.load, hf, ↓reduceIte, bind_eq_error_iff, pure, Except.pure, reduceCtorEq,
    and_false, exists_false, or_false]
  constructor
  · rintro ⟨e, he | ⟨bs, hbs, he⟩, hu⟩
    · exact Or.inl ⟨e, he, hu⟩
    · exact Or.inr ⟨⟨bs, hbs⟩, e, he, hu⟩
  · rintro (⟨e, he, hu⟩ | ⟨⟨bs, hbs⟩, e, he, hu⟩)
    · exact ⟨e, Or.inl he, hu⟩
    · exact ⟨e, Or.inr ⟨bs, hbs, he⟩, hu⟩

theorem not_load_undefined_iff (hf : filename ≠ []) :
    (¬∃ e, Config.load lib filename (.ok cfg) = .error e ∧ e.Undefined) ↔ Readable lib cfg := by
  rw [load_undefined_iff hf, parseBoards_undefined_iff, exists_parseBoards_iff,
    parseSockets_undefined_iff]
  constructor
  · intro h
    refine ⟨fun l entry hl hr => ?_, fun entry hvalid hr => ?_⟩
    · by_contra hn
      exact h (Or.inl ⟨l, hl, entry, hr,
        Option.eq_none_iff_forall_ne_some.2 fun t ht => hn ⟨t, ht⟩⟩)
    · by_contra hn
      exact h (Or.inr ⟨hvalid, entry, hr, hn⟩)
  · rintro h (⟨l, hl, entry, hr, hn⟩ | ⟨hvalid, entry, hr, hn⟩)
    · obtain ⟨t, ht⟩ := h.boards l entry hl hr
      rw [hn] at ht
      cases ht
    · exact hn (h.sockets entry hvalid hr)

theorem valid_of_load (hf : filename ≠ []) {c : Config}
    (h : Config.load lib filename (.ok cfg) = .ok c) :
    ValidBoards lib cfg ∧ ValidSockets lib cfg := by
  obtain ⟨hboards, hsockets, _⟩ := (load_ok_iff hf).1 h
  exact ⟨exists_parseBoards_iff.1 ⟨_, hboards⟩, forall_of_forall₂ (parseSockets_ok hsockets)⟩

theorem exists_load (hf : filename ≠ []) (hb : ValidBoards lib cfg) (hs : ValidSockets lib cfg)
    (hne : cfg.socketEntries ≠ []) : ∃ c, Config.load lib filename (.ok cfg) = .ok c := by
  have hboards : ∃ bs, parseBoards lib filename cfg = .ok bs := exists_parseBoards_iff.2 hb
  have hsockets : ∃ fs, parseSockets lib filename cfg = .ok fs := by
    rw [ValidSockets] at hs
    rw [parseSockets]
    cases hfind : cfg.find (ascii "sockets") with
    | none => exact ⟨[], rfl⟩
    | some node =>
      cases ht : node.asTable with
      | none => simp [Table.socketEntries, hfind, ht] at hne
      | some sockets =>
        simp only [Table.socketEntries, hfind, ht, Option.bind_some, Option.map_some,
          Option.getD_some] at hs
        simp only [ht, exists_mapM_eq_ok_iff, parseSocket_ok_iff]
        exact hs
  obtain ⟨bs, hbs⟩ := hboards
  obtain ⟨fs, hfs⟩ := hsockets
  exact ⟨⟨_, bs, fs⟩, (load_ok_iff hf).2 ⟨hbs, hfs, rfl⟩⟩

/-- A document is loaded as it stands or refused with a message, exactly if every entry that
the loader gets to can be read, and no boolean is taken for a port if all are accepted. -/
theorem load_faithful_iff (hf : filename ≠ []) :
    ((∃ what, Config.load lib filename (.ok cfg) = .error (.runtimeError what)) ∨
      ∃ c, Config.load lib filename (.ok cfg) = .ok c ∧ Loaded cfg c) ↔
    Readable lib cfg ∧ (ValidBoards lib cfg → ValidSockets lib cfg → Numbered cfg) := by
  have hread : _ ↔ Readable lib cfg := not_load_undefined_iff hf
  rw [← hread]
  cases hload : Config.load lib filename (.ok cfg) with
  | error e =>
    have hnumbered : ValidBoards lib cfg → ValidSockets lib cfg → Numbered cfg := by
      intro hb hs entry hmem
      obtain ⟨c, hc⟩ := exists_load hf hb hs (List.ne_nil_of_mem hmem)
      rw [hload] at hc
      cases hc
    rw [and_iff_left hnumbered]
    simp only [Except.error.injEq, reduceCtorEq, false_and, exists_false, or_false,
      exists_eq_left', LoadError.not_undefined_iff]
  | ok c =>
    obtain ⟨hb, hs⟩ := valid_of_load hf hload
    simp only [reduceCtorEq, exists_false, false_or, Except.ok.injEq, exists_eq_left', false_and,
      not_false_eq_true, true_and, loaded_iff hf hload]
    exact ⟨fun h _ _ => h, fun h => h hb hs⟩

namespace Sample

def text (s : String) : Toml := .string (ascii s)

/-- As in the header, `true` is read as 1. -/
def configLib : ConfigLib := ⟨fun flag => some flag.toNat, fun templ _ => .ok templ⟩

def config (boards sockets : List (Bytes × Toml)) : Table :=
  ⟨[(ascii "boards", .table boards), (ascii "sockets", .table sockets)]⟩

def tcpSocket (port : List (Bytes × Toml)) : Toml :=
  .table ((ascii "type", text "tcp") :: port)

def reservedBoard (reservedFor : Toml) : Toml :=
  .table [(ascii "close_command", text "off"), (ascii "command", text "minicom"),
    (ascii "ip_address", text "10.0.0.1"), (ascii "reserved_for", reservedFor)]

end Sample

theorem load_faithful_www :
    let cfg := Sample.config [(ascii "rpi", Sample.reservedBoard (Sample.text "joe"))]
      [(ascii "www", Sample.tcpSocket [(ascii "port", .integer 80)])]
    Config.load Sample.configLib (ascii "bp.toml") (.ok cfg) = .ok ⟨[],
      [⟨ascii "rpi", ascii "minicom", ascii "10.0.0.1", ascii "off", ascii "joe"⟩],
      [.tcp (ascii "www") 80]⟩ ∧
    Readable Sample.configLib cfg := by
  intro cfg
  have hf : ascii "bp.toml" ≠ [] := by decide +kernel
  have hload : Config.load Sample.configLib (ascii "bp.toml") (.ok cfg) = .ok ⟨[],
      [⟨ascii "rpi", ascii "minicom", ascii "10.0.0.1", ascii "off", ascii "joe"⟩],
      [.tcp (ascii "www") 80]⟩ := by decide +kernel
  have hnum : Numbered cfg := by
    intro entry hmem t ht _
    obtain rfl := List.mem_singleton.1 hmem
    obtain rfl := Option.some.inj ht
    exact ⟨80, by decide, rfl⟩
  exact ⟨hload,
    ((load_faithful_iff hf).1 (Or.inr ⟨_, hload, (loaded_iff hf hload).2 hnum⟩)).1⟩

/-- A TCP socket without a port, a board that is no table, and a boolean for a port. -/
theorem broken_entries_are_read :
    Config.load Sample.configLib (ascii "bp.toml")
      (.ok (Sample.config [] [(ascii "www", Sample.tcpSocket [])])) = .error .emptyOptional ∧
    Config.load Sample.configLib (ascii "bp.toml")
      (.ok (Sample.config [(ascii "rpi", .integer 1)] [])) = .error .nullDereference ∧
    Config.load Sample.configLib (ascii "bp.toml")
      (.ok (Sample.config [] [(ascii "www", Sample.tcpSocket [(ascii "port", .boolean true)])])) =
        .ok ⟨[], [], [.tcp (ascii "www") 1]⟩ := by
  refine ⟨?_, ?_, ?_⟩
  · decide +kernel
  · decide +kernel
  · decide +kernel

/-- The board `b` is made from the table `t` when a configuration is accepted. -/
def Makes (lib : ConfigLib) (ct cct : Bytes) (t : Table) (b : BoardSpec) : Prop :=
  ∃ (filename : Bytes) (cfg : Table) (c : Config) (l : List (Bytes × Toml)) (n : ℕ)
      (entry : Bytes × Toml),
    filename ≠ [] ∧ cfg.commandTemplate = ct ∧ cfg.closeCommandTemplate = cct ∧
    cfg.boardEntries = some l ∧ l[n]? = some entry ∧ entry.2.asTable = some t ∧
    Config.load lib filename (.ok cfg) = .ok c ∧ c.boards[n]? = some b

theorem Makes.createBoard (h : Makes lib ct cct t b) :
    ∃ id, createBoard lib id ct cct t = .ok b := by
  obtain ⟨filename, cfg, c, l, n, entry, hf, rfl, rfl, hl, hn, ht, hload, hb⟩ := h
  obtain ⟨l', hl', _, hall⟩ := parseBoards_ok ((load_ok_iff hf).1 hload).1
  rw [hl, Option.some.injEq] at hl'
  subst hl'
  obtain ⟨hln, rfl⟩ := List.getElem?_eq_some_iff.1 hn
  obtain ⟨hcn, rfl⟩ := List.getElem?_eq_some_iff.1 hb
  obtain ⟨t', ht', hb⟩ := parseBoard_ok_iff.1 ((List.forall₂_iff_get.1 hall).2 n hln hcn)
  rw [List.get_eq_getElem, ht, Option.some.injEq] at ht'
  subst ht'
  exact ⟨_, hb⟩

def onlyBoard (id ct cct : Bytes) (t : Table) : Table :=
  ⟨[(ascii "boards", .table [(id, .table t.entries)]), (ascii "command_template", .string ct),
    (ascii "close_command_template", .string cct)]⟩

theorem find_onlyBoard :
    (onlyBoard id ct cct t).find (ascii "boards") =
      some (.table [(id, .table t.entries)]) ∧
    (onlyBoard id ct cct t).find (ascii "command_template") = some (.string ct) ∧
    (onlyBoard id ct cct t).find (ascii "close_command_template") = some (.string cct) ∧
    (onlyBoard id ct cct t).find (ascii "sockets") = none := by
  have hbc : ascii "boards" ≠ ascii "command_template" := by decide +kernel
  have hbk : ascii "boards" ≠ ascii "close_command_template" := by decide +kernel
  have hbs : ascii "boards" ≠ ascii "sockets" := by decide +kernel
  have hck : ascii "command_template" ≠ ascii "close_command_template" := by decide +kernel
  have hcs : ascii "command_template" ≠ ascii "sockets" := by decide +kernel
  have hks : ascii "close_command_template" ≠ ascii "sockets" := by decide +kernel
  have hnil : ∀ key : Bytes, KeyedList.lookup Prod.fst key ([] : List (Bytes × Toml)) = none :=
    fun _ => rfl
  simp only [Table.find, onlyBoard, KeyedList.lookup_cons, hbc, hbk, hbs, hck, hcs, hks, hnil,
    ↓reduceIte, Option.map_some, Option.map_none, and_self]

theorem makes_of_createBoard (h : createBoard lib id ct cct t = .ok b) : Makes lib ct cct t b := by
  obtain ⟨hboards, hct, hcct, hsockets⟩ := @find_onlyBoard id ct cct t
  have hl : (onlyBoard id ct cct t).boardEntries = some [(id, .table t.entries)] := by
    rw [Table.boardEntries, hboards]
    rfl
  have hct' : (onlyBoard id ct cct t).commandTemplate = ct := by
    rw [Table.commandTemplate, Table.string?, hct]
    rfl
  have hcct' : (onlyBoard id ct cct t).closeCommandTemplate = cct := by
    rw [Table.closeCommandTemplate, Table.string?, hcct]
    rfl
  have hb : parseBoards lib [0] (onlyBoard id ct cct t) = .ok [b] := by
    rw [parseBoards_eq hl, hct', hcct', mapM_eq_ok_iff]
    exact .cons (parseBoard_ok_iff.2 ⟨t, rfl, h⟩) .nil
  have hs : parseSockets lib [0] (onlyBoard id ct cct t) = .ok [] := by
    rw [parseSockets, hsockets]
  have hload : Config.load lib [0] (.ok (onlyBoard id ct cct t)) =
      .ok ⟨((onlyBoard id ct cct t).string? (ascii "sock_dir")).getD [], [b], []⟩ :=
    (load_ok_iff (by simp)).2 ⟨hb, hs, rfl⟩
  exact ⟨[0], onlyBoard id ct cct t, _, _, 0, _, by simp, hct', hcct', hl, rfl, rfl, hload, rfl⟩

theorem exists_makes_iff : (∃ b, Makes lib ct cct t b) ↔ ValidBoard lib ct cct t := by
  constructor
  · rintro ⟨b, h⟩
    obtain ⟨id, hid⟩ := h.createBoard
    exact exists_createBoard_iff.1 ⟨b, hid⟩
  · intro h
    obtain ⟨b, hb⟩ : ∃ b, createBoard lib [] ct cct t = .ok b := exists_createBoard_iff.2 h
    exact ⟨b, makes_of_createBoard hb⟩

theorem Makes.reservedFor_eq (h : Makes lib ct cct t b) :
    b.reservedFor = t.valueOr (ascii "reserved_for") := by
  obtain ⟨id, hid⟩ := h.createBoard
  obtain ⟨_, _, _, _, _, _, rfl⟩ := createBoard_ok_iff.1 hid
  rfl

theorem validBoard_iff_explicit {node : Toml} (hnode : t.find key = some node)
    (hs : node.string? = none) : ValidBoard lib ct cct t ↔
      t.Explicit (ascii "ip_address") ∧ t.Explicit (ascii "command") ∧
        t.Explicit (ascii "close_command") := by
  have hno : ∀ templ, ¬Expands lib templ t := by
    rintro templ ⟨hall, _⟩
    obtain ⟨entry, hentry, rfl⟩ := Option.map_eq_some_iff.1 hnode
    obtain ⟨s, hs'⟩ := hall entry (KeyedList.mem_of_lookup hentry)
    rw [hs] at hs'
    cases hs'
  constructor
  · rintro ⟨hip, hc | ⟨_, hc⟩, hk | ⟨_, hk⟩⟩
    · exact ⟨hip, hc, hk⟩
    · exact absurd hk (hno _)
    · exact absurd hc (hno _)
    · exact absurd hc (hno _)
  · rintro ⟨hip, hc, hk⟩
    exact ⟨hip, Or.inl hc, Or.inl hk⟩

/-- A reservation survives unless it is cut at a zero byte, or it is no string and
nothing in the table needs a template. -/
theorem reservation_kept_iff :
    (∀ b, Makes lib ct cct t b → ∀ node, t.find (ascii "reserved_for") = some node →
      node.string? = some b.reservedFor) ↔
    ∀ node, t.find (ascii "reserved_for") = some node →
      (∀ s, node.string? = some s → (0 : UInt8) ∈ s → ¬ValidBoard lib ct cct t) ∧
      (node.string? = none → ¬(t.Explicit (ascii "ip_address") ∧ t.Explicit (ascii "command") ∧
        t.Explicit (ascii "close_command"))) := by
  constructor
  · refine fun h node hnode => ⟨fun s hs hzero hvalid => ?_, fun hs hexplicit => ?_⟩
    · obtain ⟨b, hb⟩ := exists_makes_iff.2 hvalid
      have hkept := h b hb node hnode
      have hcut : b.reservedFor = cStr s := by
        rw [hb.reservedFor_eq, Table.valueOr, Table.string?, hnode, Option.bind_some, hs]
        rfl
      rw [hs, hcut, Option.some.injEq] at hkept
      exact zero_notMem_cStr s (hkept ▸ hzero)
    · obtain ⟨b, hb⟩ := exists_makes_iff.2 ((validBoard_iff_explicit hnode hs).2 hexplicit)
      have hkept := h b hb node hnode
      rw [hs] at hkept
      cases hkept
  · intro h b hb node hnode
    obtain ⟨hstring, hother⟩ := h node hnode
    have hvalid := exists_makes_iff.1 ⟨b, hb⟩
    cases hs : node.string? with
    | none => exact absurd ((validBoard_iff_explicit hnode hs).1 hvalid) (hother hs)
    | some s =>
      have hzero : (0 : UInt8) ∉ s := fun hz => hstring s hs hz hvalid
      rw [hb.reservedFor_eq, Table.valueOr, Table.string?, hnode, Option.bind_some, hs,
        Option.map_some, Option.getD_some, cStr_of_nulFree hzero]

/-- A number in `reserved_for` is not noticed when both commands are explicit, and the
board is open to everybody. -/
theorem number_drops_reservation :
    Config.load Sample.configLib (ascii "bp.toml") (.ok (Sample.config
      [(ascii "rpi", Sample.reservedBoard (.integer 42))] [])) =
    .ok ⟨[], [⟨ascii "rpi", ascii "minicom", ascii "10.0.0.1", ascii "off", []⟩], []⟩ := by
  decide +kernel

end BoardProxy
