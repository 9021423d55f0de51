import BoardProxy.ByteString

/-!
# The setup message between client and daemon

`Setup` is the object that `proto::setup`'s constructor builds and `bytes` its
memory image on x86-64 Linux: a header of two words, the command, the parent
pid, the 32-byte user name, the flag and three bytes of padding. The daemon
overlays its receive buffer with the same structure; `readSetup` is what it
reads there. The user name is read as a C string and may run on behind its
field, up to the end of the buffer.
-/

namespace BoardProxy

/-- `pid_t`. Process ids are only stored, passed on and compared. -/
abbrev Pid := UInt32

namespace Proto

def msgTypeSetup : ℕ := 0

/-- `setup::command`: other values of the enumeration can still arrive. -/
def connect : ℕ := 0
def listSessions : ℕ := 1

def headerSize : ℕ := 8
def setupSize : ℕ := 52
def usernameSize : ℕ := 32

structure Setup where
  cmd : UInt32
  ppid : Pid
  username : Bytes
  username_length : username.length = usernameSize
  noWait : Bool

/-- The constructor. The field starts zeroed, so its last byte stays zero. -/
def Setup.new (cmd : UInt32) (ppid : Pid) (user : Bytes) (noWait : Bool) : Setup where
  cmd := cmd
  ppid := ppid
  username := strncpy user (usernameSize - 1) ++ [0]
  username_length := by simp [usernameSize]
  noWait := noWait

/-- The image of the object; the contents of the padding are unspecified. -/
def Setup.bytes (s : Setup) (pad : UInt8 × UInt8 × UInt8) : Bytes :=
  le32 msgTypeSetup ++ (le32 setupSize ++ (le32 s.cmd.toNat ++ (le32 s.ppid.toNat ++
    (s.username ++ [if s.noWait then 1 else 0, pad.1, pad.2.1, pad.2.2]))))

structure Request where
  cmd : ℕ
  ppid : Pid
  username : Bytes
  noWait : Bool
deriving DecidableEq

def bufferSize : ℕ := 65536

def usernameOffset : ℕ := 16

def readSetup (m : Memory) : Option Request :=
  (m.cString (bufferSize - usernameOffset) usernameOffset).map fun username =>
    { cmd := m.word 8
      ppid := UInt32.ofNat (m.word 12)
      username := username
      noWait := decide (m 48 ≠ 0) }

@[simp] theorem Setup.bytes_length (s : Setup) (pad : UInt8 × UInt8 × UInt8) :
    (s.bytes pad).length = setupSize := by
  simp [Setup.bytes, s.username_length, usernameSize, setupSize]

theorem bytes_msgType (m : Memory) (s : Setup) (pad : UInt8 × UInt8 × UInt8) :
    (m.store (s.bytes pad)).word 0 = msgTypeSetup :=
  Memory.word_le32 m [] _ (by decide)

theorem bytes_cmd (m : Memory) (s : Setup) (pad : UInt8 × UInt8 × UInt8) :
    (m.store (s.bytes pad)).word 8 = s.cmd.toNat := by
  have h := Memory.word_le32 m (le32 msgTypeSetup ++ le32 setupSize)
    (le32 s.ppid.toNat ++ (s.username ++ [if s.noWait then 1 else 0, pad.1, pad.2.1, pad.2.2]))
    s.cmd.toNat_lt
  simpa only [Setup.bytes, List.append_assoc, List.length_append, le32_length,
    Nat.reduceAdd]
    using h

theorem bytes_ppid (m : Memory) (s : Setup) (pad : UInt8 × UInt8 × UInt8) :
    UInt32.ofNat ((m.store (s.bytes pad)).word 12) = s.ppid := by
  have h := Memory.word_le32 m (le32 msgTypeSetup ++ (le32 setupSize ++ le32 s.cmd.toNat))
    (s.username ++ [if s.noWait then 1 else 0, pad.1, pad.2.1, pad.2.2]) s.ppid.toNat_lt
  have hw : (m.store (s.bytes pad)).word 12 = s.ppid.toNat := by
    simpa only [Setup.bytes, List.append_assoc, List.length_append, le32_length, Nat.reduceAdd]
      using h
  rw [hw, UInt32.ofNat_toNat]

theorem bytes_noWait (m : Memory) (s : Setup) (pad : UInt8 × UInt8 × UInt8) :
    decide ((m.store (s.bytes pad)) 48 ≠ 0) = s.noWait := by
  have h := Memory.store_append_right m
    (le32 msgTypeSetup ++ (le32 setupSize ++
      (le32 s.cmd.toNat ++ (le32 s.ppid.toNat ++ s.username))))
    [if s.noWait then 1 else 0, pad.1, pad.2.1, pad.2.2] 0
  simp only [List.length_append, le32_length, s.username_length, usernameSize, Nat.reduceAdd,
    List.append_assoc, List.getD_cons_zero] at h
  rw [Setup.bytes, h]
  cases s.noWait <;> decide

theorem bytes_username (m : Memory) (cmd : UInt32) (ppid : Pid) (user : Bytes) (noWait : Bool)
    (pad : UInt8 × UInt8 × UInt8) :
    (m.store ((Setup.new cmd ppid user noWait).bytes pad)).cString (bufferSize - usernameOffset)
      usernameOffset = some ((cStr user).take 31) := by
  have hz : (0 : UInt8) ∉ (cStr user).take 31 :=
    fun h => zero_notMem_cStr user (List.mem_of_mem_take h)
  have hlen : ((cStr user).take 31).length < bufferSize - usernameOffset := by
    simp only [List.length_take, bufferSize, usernameOffset]
    omega
  -- the zeros of the padding and the last byte of the field put a terminator behind the copy
  obtain ⟨post, hpost⟩ : ∃ post, List.replicate (31 - ((cStr user).take 31).length) (0 : UInt8) ++
      ([0] ++ [if noWait then 1 else 0, pad.1, pad.2.1, pad.2.2]) = 0 :: post := by
    cases 31 - ((cStr user).take 31).length with
    | zero => exact ⟨_, rfl⟩
    | succ k => exact ⟨_, rfl⟩
  have h := Memory.cString_store m
    (le32 msgTypeSetup ++ (le32 setupSize ++ (le32 cmd.toNat ++ le32 ppid.toNat)))
    ((cStr user).take 31) post hz hlen
  have hb : (Setup.new cmd ppid user noWait).bytes pad =
      (le32 msgTypeSetup ++ (le32 setupSize ++ (le32 cmd.toNat ++ le32 ppid.toNat))) ++
        ((cStr user).take 31 ++ 0 :: post) := by
    rw [← hpost]
    simp only [Setup.bytes, Setup.new, strncpy, usernameSize, Nat.reduceSub, List.append_assoc]
  rw [hb]
  exact h

theorem readSetup_bytes (m : Memory) (cmd : UInt32) (ppid : Pid) (user : Bytes) (noWait : Bool)
    (pad : UInt8 × UInt8 × UInt8) :
    readSetup (m.store ((Setup.new cmd ppid user noWait).bytes pad)) =
      some ⟨cmd.toNat, ppid, (cStr user).take 31, noWait⟩ := by
  rw [readSetup, bytes_username, bytes_cmd, bytes_ppid, bytes_noWait]
  rfl

end Proto

/-- What one `recvmsg` on the session's socket delivers: the bytes of the
packet, the descriptors passed with it, and the stack contents that the control
buffer holds where the kernel wrote no descriptor. -/
structure Packet where
  data : Bytes
  fds : List ℤ
  stale : ℕ → ℤ

/-- `Client::send_setup`, as it arrives: the three standard descriptors of the
client get new numbers in the daemon. -/
def Client.sendSetup (cmd : UInt32) (ppid : Pid) (username : Bytes) (noWait : Bool)
    (pad : UInt8 × UInt8 × UInt8) (fdIn fdOut fdErr : ℤ) (stale : ℕ → ℤ) : Packet where
  data := (Proto.Setup.new cmd ppid username noWait).bytes pad
  fds := [fdIn, fdOut, fdErr]
  stale := stale

namespace Packet

def Complete (pkt : Packet) : Prop := Proto.setupSize ≤ pkt.data.length

instance (pkt : Packet) : Decidable pkt.Complete := inferInstanceAs (Decidable (_ ≤ _))

def ppid (pkt : Packet) : Pid := UInt32.ofNat (Memory.word (fun i => pkt.data.getD i 0) 12)

theorem ppid_of_readSetup {pkt : Packet} {m : Memory} {r : Proto.Request} (hc : pkt.Complete)
    (h : Proto.readSetup (m.store (pkt.data.take Proto.bufferSize)) = some r) :
    r.ppid = pkt.ppid := by
  obtain ⟨_, _, rfl⟩ := Option.map_eq_some_iff.1 h
  have hlen : 12 + 4 ≤ (pkt.data.take Proto.bufferSize).length := by
    simp only [Complete, Proto.setupSize] at hc
    simp only [List.length_take, Proto.bufferSize]
    omega
  have hg : ∀ i < 16, (pkt.data.take Proto.bufferSize).getD i 0 = pkt.data.getD i 0 := by
    intro i hi
    have hb : i < Proto.bufferSize := Nat.lt_trans hi (by decide)
    simp [List.getD_eq_getElem?_getD, hb]
  rw [Memory.word_store m hlen, ppid]
  simp only [Memory.word, hg 12 (by decide), hg (12 + 1) (by decide), hg (12 + 2) (by decide),
    hg (12 + 3) (by decide)]

end Packet

namespace Client

variable (cmd : UInt32) (ppid : Pid) (username : Bytes) (noWait : Bool)
  (pad : UInt8 × UInt8 × UInt8) (fdIn fdOut fdErr : ℤ) (stale : ℕ → ℤ)

theorem take_sendSetup :
    (sendSetup cmd ppid username noWait pad fdIn fdOut fdErr stale).data.take Proto.bufferSize =
      (Proto.Setup.new cmd ppid username noWait).bytes pad := by
  apply List.take_of_length_le
  rw [sendSetup, Proto.Setup.bytes_length]
  decide

theorem readSetup_sendSetup (m : Memory) :
    Proto.readSetup (m.store ((sendSetup cmd ppid username noWait pad fdIn fdOut fdErr
      stale).data.take Proto.bufferSize)) =
      some ⟨cmd.toNat, ppid, (cStr username).take 31, noWait⟩ := by
  rw [take_sendSetup, Proto.readSetup_bytes]

end Client
end BoardProxy
