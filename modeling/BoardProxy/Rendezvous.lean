import BoardProxy.SocketNames
import BoardProxy.GuardedRun

/-!
# Which daemon a client finds

Several daemons may be started on one host, one after the other or side by side, and every
one of them takes the names of its sockets away from whoever had them. A client finds the
daemon that was the last one to bind its name. The same daemon can be started again after it
has ended only if all its paths fit into a socket address: a longer one is never unlinked.
-/

namespace BoardProxy

variable {io : SocketIo} {names names' : Names} {path k : Bytes} {node : Node}

theorem sunPath_length (path : Bytes) : (sunPath path).length ≤ 107 := List.length_take_le _ _

theorem sunPath_of_short (h : (cStr path).length ≤ 107) : sunPath path = cStr path :=
  List.take_of_length_le h

theorem unlink_of_ne (h : k ≠ path) : unlink names path k = names k := by
  unfold unlink
  generalize names path = o
  rcases o with _ | _ | _ | _
  · exact Function.update_of_ne h _ _
  · rfl
  · exact Function.update_of_ne h _ _
  · exact Function.update_of_ne h _ _

theorem unlink_self (h : names path ≠ some .directory) : unlink names path path = none := by
  unfold unlink
  generalize names path = o at h
  rcases o with _ | _ | _ | _
  · exact Function.update_self _ _ _
  · exact absurd rfl h
  · exact Function.update_self _ _ _
  · exact Function.update_self _ _ _

theorem unlink_of_ne_sunPath (hk : k.length ≤ 107) (hne : k ≠ sunPath path) :
    unlink names (cStr path) k = names k := by
  refine unlink_of_ne fun he => ?_
  rw [he] at hk hne
  exact hne (sunPath_of_short hk).symm

def Binds (names : Names) (l : Bytes × Node) (names' : Names) : Prop :=
  unlink names (cStr l.1) (sunPath l.1) = none ∧
    names' = Function.update (unlink names (cStr l.1)) (sunPath l.1) (some l.2)

theorem Binds.apply {l : Bytes × Node} (h : Binds names l names') (hk : k.length ≤ 107) :
    names' k = if k = sunPath l.1 then some l.2 else names k := by
  rw [h.2, Function.update_apply]
  by_cases he : k = sunPath l.1
  · rw [if_pos he, if_pos he]
  · rw [if_neg he, if_neg he, unlink_of_ne_sunPath hk he]

theorem Binds.short {l : Bytes × Node} (h : Binds names l names')
    (hex : names (sunPath l.1) ≠ none) : (cStr l.1).length ≤ 107 := by
  by_contra hlong
  refine hex ?_
  rw [← h.1, unlink_of_ne]
  intro he
  have hlen := sunPath_length l.1
  rw [he] at hlen
  exact hlong hlen

theorem exists_binds {l : Bytes × Node} (hshort : (cStr l.1).length ≤ 107)
    (hdir : names (sunPath l.1) ≠ some .directory) : ∃ names', Binds names l names' := by
  refine ⟨_, ?_, rfl⟩
  rw [sunPath_of_short hshort] at hdir ⊢
  exact unlink_self hdir

def lastBinder (k : Bytes) (ls : List (Bytes × Node)) : Option Node :=
  (ls.map fun l => (sunPath l.1, l.2)).reverse.lookup k

variable {ls : List (Bytes × Node)}

theorem lastBinder_append (ms : List (Bytes × Node)) :
    lastBinder k (ls ++ ms) = (lastBinder k ms).or (lastBinder k ls) := by
  rw [lastBinder, List.map_append, List.reverse_append, List.lookup_append]
  rfl

theorem lastBinder_singleton (l : Bytes × Node) :
    lastBinder k [l] = if k = sunPath l.1 then some l.2 else none := by
  by_cases he : k = sunPath l.1
  · simp [lastBinder, he]
  · simp [lastBinder, List.lookup_cons, he, beq_false_of_ne he]

theorem mem_of_lastBinder (h : lastBinder k ls = some node) : ∃ l ∈ ls, l.2 = node := by
  induction ls using List.reverseRecOn with
  | nil => cases h
  | append_singleton ls l ih =>
    rw [lastBinder_append, lastBinder_singleton] at h
    by_cases he : k = sunPath l.1
    · rw [if_pos he, Option.some_or] at h
      exact ⟨l, by simp, Option.some.inj h⟩
    · rw [if_neg he, Option.none_or] at h
      obtain ⟨m, hm, hn⟩ := ih h
      exact ⟨m, by simp [hm], hn⟩

theorem lastBinder_ne_none {l : Bytes × Node} (hl : l ∈ ls) :
    lastBinder (sunPath l.1) ls ≠ none := by
  obtain ⟨as, bs, rfl⟩ := List.append_of_mem hl
  rw [List.append_cons, lastBinder_append, lastBinder_append, lastBinder_singleton, if_pos rfl]
  simp

theorem names_run (h : Run Binds names ls names') (hk : k.length ≤ 107) :
    names' k = (lastBinder k ls).or (names k) := by
  refine h.history (fun ls names' => names' k = (lastBinder k ls).or (names k)) rfl ?_
  intro ls t l u _ ih hl
  rw [hl.apply hk, lastBinder_append, lastBinder_singleton, ih]
  by_cases he : k = sunPath l.1
  · rw [if_pos he, if_pos he, Option.some_or, Option.some_or]
  · rw [if_neg he, if_neg he, Option.none_or]

theorem short_of_run (h : Run Binds names ls names') {l : Bytes × Node} (hl : l ∈ ls)
    (hex : names (sunPath l.1) ≠ none) : (cStr l.1).length ≤ 107 := by
  obtain ⟨as, bs, rfl⟩ := List.append_of_mem hl
  rw [List.append_cons] at h
  obtain ⟨t, ht, _⟩ := h.append_inv
  obtain ⟨u, hu, hl⟩ := ht.snoc_inv
  refine hl.short ?_
  rw [names_run hu (sunPath_length _)]
  intro hnone
  exact hex (Option.or_eq_none_iff.1 hnone).2

theorem exists_names_run (hshort : ∀ l ∈ ls, (cStr l.1).length ≤ 107)
    (hnode : ∀ l ∈ ls, l.2 ≠ .directory) (hdir : ∀ l ∈ ls, names (sunPath l.1) ≠ some .directory) :
    ∃ names', Run Binds names ls names' := by
  induction ls using List.reverseRecOn with
  | nil => exact ⟨names, .nil⟩
  | append_singleton ls l ih =>
    obtain ⟨t, ht⟩ := ih (fun m hm => hshort m (by simp [hm])) (fun m hm => hnode m (by simp [hm]))
      (fun m hm => hdir m (by simp [hm]))
    have hfree : t (sunPath l.1) ≠ some .directory := by
      rw [names_run ht (sunPath_length _)]
      intro hd
      rcases Option.or_eq_some_iff.1 hd with hd | ⟨_, hd⟩
      · obtain ⟨m, hm, hmd⟩ := mem_of_lastBinder hd
        exact hnode m (by simp [hm]) hmd
      · exact hdir l (by simp) hd
    obtain ⟨u, hu⟩ := exists_binds (hshort l (by simp)) hfree
    exact ⟨u, .snoc ht hu⟩

namespace UnixSocket

theorem bind_returned (h : bind io names path node = .returned names') :
    names (sunPath path) = none ∧ names' = Function.update names (sunPath path) (some node) := by
  unfold bind at h
  split at h
  · cases h
  · split at h
    · cases h
    · rename_i hfree
      dsimp only at h
      split at h
      · cases h
      · exact ⟨hfree, (Outcome.returned.inj h).symm⟩

structure Works (io : SocketIo) : Prop where
  socket : io.socket = .ok ()
  bind : io.bind = .ok ()
  flags : makeNonblocking io = .ok ()
  listen : UnixSocket.listen io = .ok ()

theorem new_of_works {b : Bool} {act : Activation}
    (hact : (b && decide (0 < act.listenFds)) = true → 0 < act.isSocket) (hio : Works io) :
    UnixSocket.new b act io = .ok (b && decide (0 < act.listenFds)) := by
  unfold UnixSocket.new
  cases hb : b && decide (0 < act.listenFds) with
  | false => simp only [Bool.false_eq_true, ↓reduceIte, hio.socket]
  | true =>
    have hpos := hact hb
    rw [if_pos rfl, if_neg (Int.not_lt.2 (Int.le_of_lt hpos)), if_neg (Int.ne_of_gt hpos)]

theorem new_ok {b c : Bool} {act : Activation} (h : UnixSocket.new b act io = .ok c) :
    c = (b && decide (0 < act.listenFds)) := by
  unfold UnixSocket.new at h
  split at h
  · rename_i hb
    rw [hb]
    split_ifs at h
    exact (Except.ok.inj h).symm
  · rename_i hb
    rw [Bool.eq_false_iff.2 hb]
    split at h
    · cases h
    · exact (Except.ok.inj h).symm

end UnixSocket

namespace Daemon

open UnixSocket (Works)

theorem setupListener_returned (h : setupListener io false names path node = .returned names') :
    Binds names (path, node) names' := by
  obtain ⟨names₁, h₁, h₂⟩ := Outcome.bind_eq_returned.1 h
  obtain ⟨hfree, rfl⟩ := UnixSocket.bind_returned h₁
  split at h₂
  · cases h₂
  · exact ⟨hfree, (Outcome.returned.inj h₂).symm⟩

theorem setupListener_of_works (hio : Works io) (h : Binds names (path, node) names') :
    setupListener io false names path node = .returned names' := by
  obtain ⟨hfree, rfl⟩ := h
  simp only [setupListener, Bool.false_eq_true, ↓reduceIte, UnixSocket.bind, hio.bind, hfree,
    hio.flags, Outcome.bind, hio.listen]

variable {n j : ℕ} {sockDir : Bytes} {factories : List ProxyFactory} {ios : ℕ → SocketIo}

def proxySockets (n : ℕ) (sockDir : Bytes) : ℕ → List ProxyFactory → List (Bytes × Node)
  | _, [] => []
  | j, factory :: rest =>
    (proxyPath sockDir factory, .socket n (j + 1)) :: proxySockets n sockDir (j + 1) rest

def clientSockets (activated : Bool) (n : ℕ) (sockDir : Bytes) : List (Bytes × Node) :=
  if activated then [] else [(clientPath sockDir, .socket n 0)]

def sockets (activated : Bool) (n : ℕ) (sockDir : Bytes) (factories : List ProxyFactory) :
    List (Bytes × Node) :=
  clientSockets activated n sockDir ++ proxySockets n sockDir 0 factories

theorem setupClient_returned {activated : Bool}
    (h : setupListener io activated names (clientPath sockDir) (.socket n 0) = .returned names') :
    Run Binds names (clientSockets activated n sockDir) names' := by
  cases activated with
  | true =>
    rw [← Outcome.returned.inj h]
    exact .nil
  | false => exact .snoc .nil (setupListener_returned h)

theorem setupClient_of_works {activated : Bool} (hio : Works io)
    (h : Run Binds names (clientSockets activated n sockDir) names') :
    setupListener io activated names (clientPath sockDir) (.socket n 0) = .returned names' := by
  cases activated with
  | true =>
    rw [h.nil_inv]
    rfl
  | false => exact setupListener_of_works hio h.singleton_inv

theorem setupProxies_cons {factory : ProxyFactory}
    (h : setupProxies n ios sockDir j (factory :: factories) names = .returned names') :
    ∃ names₁, setupListener (ios j) false names (proxyPath sockDir factory) (.socket n (j + 1)) =
        .returned names₁ ∧
      setupProxies n ios sockDir (j + 1) factories names₁ = .returned names' := by
  rw [setupProxies] at h
  split at h
  · cases h
  · rename_i hnew
    rw [UnixSocket.new_ok hnew] at h
    exact Outcome.bind_eq_returned.1 h

theorem setupProxies_returned
    (h : setupProxies n ios sockDir j factories names = .returned names') :
    Run Binds names (proxySockets n sockDir j factories) names' := by
  induction factories generalizing j names with
  | nil =>
    rw [← Outcome.returned.inj h]
    exact .nil
  | cons factory rest ih =>
    obtain ⟨names₁, h₁, h₂⟩ := setupProxies_cons h
    exact (Run.snoc .nil (setupListener_returned h₁)).append (ih h₂)

theorem setupProxies_of_works (hios : ∀ j, Works (ios j))
    (h : Run Binds names (proxySockets n sockDir j factories) names') :
    setupProxies n ios sockDir j factories names = .returned names' := by
  induction factories generalizing j names with
  | nil => rw [h.nil_inv, setupProxies]
  | cons factory rest ih =>
    rw [proxySockets, ← List.singleton_append] at h
    obtain ⟨names₁, h₁, h₂⟩ := h.append_inv
    have hnew : UnixSocket.new false ⟨0, 0⟩ (ios j) = .ok false :=
      UnixSocket.new_of_works (fun hf => by cases hf) (hios j)
    rw [setupProxies, hnew]
    dsimp only
    rw [setupListener_of_works (hios j) h₁.singleton_inv, Outcome.bind, ih h₂]

theorem makeSockDir_apply {io : StartIo} (h : makeSockDir io names sockDir = .returned names') :
    names' k = names k ∨ names k = none ∧ names' k = some .directory := by
  unfold makeSockDir at h
  split at h
  · cases h
  split at h
  · exact .inl (by rw [Outcome.returned.inj h])
  rename_i hnone
  split at h
  · split at h
    · exact .inl (by rw [Outcome.returned.inj h])
    · cases h
  · rw [← Outcome.returned.inj h, Function.update_apply]
    split
    · rename_i he
      exact .inr ⟨he ▸ hnone, rfl⟩
    · exact .inl rfl

structure StartWorks (io : StartIo) : Prop where
  activation : io.activated = true → 0 < io.activation.isSocket
  mkdir : io.mkdir = .ok ()
  client : Works io.client
  proxies : ∀ j, Works (io.proxies j)

theorem exists_makeSockDir {io : StartIo} (hio : StartWorks io) (hne : cStr sockDir ≠ []) :
    ∃ names', makeSockDir io names sockDir = .returned names' := by
  unfold makeSockDir
  rw [if_neg hne, hio.mkdir]
  cases names (cStr sockDir) with
  | some node => exact ⟨_, rfl⟩
  | none => exact ⟨_, rfl⟩

theorem new_returned {io : StartIo}
    (h : Daemon.new n io names sockDir factories = .returned names') :
    ∃ names₀, makeSockDir io names sockDir = .returned names₀ ∧
      Run Binds names₀ (sockets io.activated n sockDir factories) names' := by
  unfold Daemon.new at h
  split at h
  · cases h
  · rename_i hnew
    rw [UnixSocket.new_ok hnew] at h
    obtain ⟨names₀, h₀, h⟩ := Outcome.bind_eq_returned.1 h
    obtain ⟨names₁, h₁, h⟩ := Outcome.bind_eq_returned.1 h
    exact ⟨names₀, h₀, (setupClient_returned h₁).append (setupProxies_returned h)⟩

theorem new_of_works {io : StartIo} (hio : StartWorks io) {names₀ : Names}
    (h₀ : makeSockDir io names sockDir = .returned names₀)
    (h : Run Binds names₀ (sockets io.activated n sockDir factories) names') :
    Daemon.new n io names sockDir factories = .returned names' := by
  obtain ⟨names₁, h₁, h₂⟩ := h.append_inv
  have hnew : UnixSocket.new true io.activation io.client = .ok io.activated :=
    UnixSocket.new_of_works hio.activation hio.client
  rw [Daemon.new, hnew]
  dsimp only
  rw [h₀, Outcome.returned_bind, setupClient_of_works hio.client h₁, Outcome.returned_bind,
    setupProxies_of_works hio.proxies h₂]

theorem sockDir_ne_nil {io : StartIo} (h : makeSockDir io names sockDir = .returned names') :
    cStr sockDir ≠ [] := by
  intro he
  rw [makeSockDir, if_pos he] at h
  cases h

/-- The paths of the sockets that a daemon binds: the one of `client_listener`, unless it
comes from systemd, and those of the sockets in `proxy_listeners`. -/
def boundPaths (activated : Bool) (sockDir : Bytes) (factories : List ProxyFactory) : List Bytes :=
  (if activated then [] else [clientPath sockDir]) ++ factories.map (proxyPath sockDir)

/-- Of the sockets of all other daemons, those with the given paths have lost their names.
Other names are not touched. -/
def Takes (n : ℕ) (paths : List Bytes) (names names' : Names) : Prop :=
  ∀ k, k.length ≤ 107 → ∀ m i, m ≠ n ∨ k ∉ paths.map sunPath →
    (names' k = some (.socket m i) ↔ names k = some (.socket m i) ∧ k ∉ paths.map sunPath)

theorem Takes.append {ps qs : List Bytes} {names₁ names₂ names₃ : Names}
    (h : Takes n ps names₁ names₂) (h' : Takes n qs names₂ names₃) :
    Takes n (ps ++ qs) names₁ names₃ := by
  intro k hk m i hm
  rw [List.map_append, List.mem_append, not_or] at hm ⊢
  rw [h' k hk m i (hm.imp_right And.right), h k hk m i (hm.imp_right And.left), and_assoc]

def TakesSome (n : ℕ) (paths : List Bytes) (names : Names) (o : Outcome Names) : Prop :=
  ∃ i, (o.Returns → i = paths.length) ∧ Takes n (paths.take i) names o.state

theorem TakesSome.bind {o : Outcome Names} {f : Names → Outcome Names} {paths : List Bytes}
    (h : Takes n [path] names o.state ∨ ¬o.Returns ∧ Takes n [] names o.state)
    (hf : ∀ names', o = .returned names' → TakesSome n paths names' (f names')) :
    TakesSome n (path :: paths) names (o.bind f) := by
  cases o with
  | threw e names' =>
    rcases h with h | ⟨_, h⟩
    · exact ⟨1, fun hr => absurd hr (Outcome.not_returns_threw _ _), h⟩
    · exact ⟨0, fun hr => absurd hr (Outcome.not_returns_threw _ _), h⟩
  | returned names' =>
    obtain ⟨i, hi, htakes⟩ := hf names' rfl
    have h := h.resolve_right fun hn => hn.1 (Outcome.returns_returned _)
    exact ⟨i + 1, fun hr => by rw [hi hr, List.length_cons], h.append htakes⟩

theorem proxySockets_paths (n j : ℕ) (sockDir : Bytes) (factories : List ProxyFactory) :
    (proxySockets n sockDir j factories).map Prod.fst = factories.map (proxyPath sockDir) := by
  induction factories generalizing j with
  | nil => rfl
  | cons factory rest ih => rw [proxySockets, List.map_cons, ih, List.map_cons]

theorem sockets_paths (b : Bool) (n : ℕ) (sockDir : Bytes) (factories : List ProxyFactory) :
    (sockets b n sockDir factories).map Prod.fst = boundPaths b sockDir factories := by
  rw [sockets, List.map_append, proxySockets_paths, boundPaths]
  cases b <;> rfl

theorem socket_of_mem_proxySockets {l : Bytes × Node}
    (hl : l ∈ proxySockets n sockDir j factories) :
    ∃ i, l.2 = .socket n (i + 1) := by
  induction factories generalizing j with
  | nil => cases hl
  | cons factory rest ih =>
    rcases List.mem_cons.1 hl with rfl | hl
    · exact ⟨j, rfl⟩
    · exact ih hl

theorem socket_of_mem_sockets {b : Bool} {l : Bytes × Node}
    (hl : l ∈ sockets b n sockDir factories) : ∃ i, l.2 = .socket n i := by
  rcases List.mem_append.1 hl with hl | hl
  · cases b with
    | true => cases hl
    | false =>
      rw [List.mem_singleton.1 hl]
      exact ⟨0, rfl⟩
  · obtain ⟨i, hi⟩ := socket_of_mem_proxySockets hl
    exact ⟨i + 1, hi⟩

theorem bound_of_run {b : Bool} (h : Run Binds names (sockets b n sockDir factories) names')
    (hp : path ∈ boundPaths b sockDir factories) :
    ∃ i, names' (sunPath path) = some (.socket n i) := by
  rw [← sockets_paths b n, List.mem_map] at hp
  obtain ⟨l, hl, rfl⟩ := hp
  obtain ⟨node, hnode⟩ := Option.ne_none_iff_exists'.1 (lastBinder_ne_none hl)
  obtain ⟨m, hm, rfl⟩ := mem_of_lastBinder hnode
  obtain ⟨i, hi⟩ := socket_of_mem_sockets hm
  exact ⟨i, by rw [names_run h (sunPath_length _), hnode, Option.some_or, hi]⟩

theorem makeSockDir_of_some {io : StartIo} (h : makeSockDir io names sockDir = .returned names')
    (hk : names k = some node) : names' k = some node := by
  rcases makeSockDir_apply (k := k) h with he | ⟨hnone, _⟩
  · rw [he, hk]
  · rw [hnone] at hk
    cases hk

/-- A daemon that has run can be started again in the same way and with the same
configuration exactly if the paths of all sockets that it binds fit into a socket address. -/
theorem restart_iff {m : ℕ} {io io' : StartIo} (hact : io'.activated = io.activated)
    (hio : StartWorks io') (h : Daemon.new n io names sockDir factories = .returned names') :
    (∃ names'', Daemon.new m io' names' sockDir factories = .returned names'') ↔
      ∀ path ∈ boundPaths io.activated sockDir factories, (cStr path).length ≤ 107 := by
  obtain ⟨_, h₀, hrun⟩ := new_returned h
  constructor
  · rintro ⟨names'', h'⟩ path hp
    obtain ⟨_, h₁, hrun'⟩ := new_returned h'
    rw [hact] at hrun'
    obtain ⟨i, hi⟩ := bound_of_run hrun hp
    rw [← sockets_paths io.activated m, List.mem_map] at hp
    obtain ⟨l, hl, rfl⟩ := hp
    refine short_of_run hrun' hl ?_
    rw [makeSockDir_of_some h₁ hi]
    exact Option.some_ne_none _
  · intro hshort
    obtain ⟨names₁, h₁⟩ := exists_makeSockDir hio (sockDir_ne_nil h₀)
    have hpath : ∀ l ∈ sockets io.activated m sockDir factories,
        l.1 ∈ boundPaths io.activated sockDir factories := by
      intro l hl
      rw [← sockets_paths io.activated m]
      exact List.mem_map_of_mem hl
    obtain ⟨names'', hrun'⟩ : ∃ names'',
        Run Binds names₁ (sockets io.activated m sockDir factories) names'' := by
      refine exists_names_run (fun l hl => hshort _ (hpath l hl)) ?_ ?_
      · intro l hl hd
        obtain ⟨i, hi⟩ := socket_of_mem_sockets hl
        rw [hi] at hd
        cases hd
      · intro l hl
        obtain ⟨i, hi⟩ := bound_of_run hrun (hpath l hl)
        rw [makeSockDir_of_some h₁ hi]
        exact fun hd => (by cases hd)
    exact ⟨names'', new_of_works hio h₁ (hact ▸ hrun')⟩

theorem restart_iff_long_name :
    let factories := [ProxyFactory.wr (List.replicate 110 97)]
    ∃ names, Daemon.new 0 Sample.startIo (fun _ => none) (ascii "/run") factories =
      .returned names ∧
      ¬∃ names', Daemon.new 1 Sample.startIo names (ascii "/run") factories = .returned names' := by
  intro factories
  have h : ∃ names, Daemon.new 0 Sample.startIo (fun _ => none) (ascii "/run") factories =
      .returned names := ⟨_, rfl⟩
  obtain ⟨names, h⟩ := h
  refine ⟨names, h, ?_⟩
  have hio : StartWorks Sample.startIo :=
    ⟨by decide, rfl, ⟨rfl, rfl, rfl, rfl⟩, fun _ => ⟨rfl, rfl, rfl, rfl⟩⟩
  rw [restart_iff rfl hio h]
  decide

end Daemon

structure Host where
  names : Names
  daemons : ℕ → Option Bool

namespace Host

inductive Move
  | start (n : ℕ) (io : StartIo) (sockDir : Bytes) (factories : List ProxyFactory)
  | startFails (n : ℕ) (io : StartIo) (sockDir : Bytes) (factories : List ProxyFactory)
  | exit (n : ℕ)

def running (w : Host) (n : ℕ) : Bool := (w.daemons n).getD false

/-- A daemon that is not activated by systemd is started under a new number, or ends. A start
that fails leaves its traces in the file system. -/
def next (w : Host) : Move → Option Host
  | .start n io sockDir factories =>
    if io.activated || (w.daemons n).isSome then none
    else
      match Daemon.new n io w.names sockDir factories with
      | .returned names => some ⟨names, Function.update w.daemons n (some true)⟩
      | .threw .. => none
  | .startFails n io sockDir factories =>
    if io.activated || (w.daemons n).isSome then none
    else
      match Daemon.new n io w.names sockDir factories with
      | .returned _ => none
      | .threw _ names => some ⟨names, Function.update w.daemons n (some false)⟩
  | .exit n =>
    if w.running n then some { w with daemons := Function.update w.daemons n (some false) }
    else none

def Move.sockets : Move → List (Bytes × Node)
  | .start n _ sockDir factories => Daemon.sockets false n sockDir factories
  | _ => []

def Next (w : Host) (e : Move) (w' : Host) : Prop := w.next e = some w'

variable {w w' : Host} {e : Move} {es : List Move} {files : Names}

end Host
end BoardProxy
