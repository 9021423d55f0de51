import Mathlib.Data.List.TakeWhile

/-!
# Byte strings, 32-bit words and C strings in memory

A string is its list of bytes. A memory region is a function from offsets to
bytes, so that storing a packet leaves the bytes behind it as they were.
`cString` reads up to the terminating zero and fails when the region ends
before one is found.
-/

namespace BoardProxy

abbrev Bytes := List UInt8

def ascii (s : String) : Bytes := s.toList.map fun c => UInt8.ofNat c.toNat

def word32 (a b c d : UInt8) : ℕ := a.toNat + 256 * b.toNat + 65536 * c.toNat + 16777216 * d.toNat

def le32 (n : ℕ) : Bytes :=
  [UInt8.ofNat n, UInt8.ofNat (n / 256), UInt8.ofNat (n / 65536), UInt8.ofNat (n / 16777216)]

def be32 (n : ℕ) : Bytes :=
  [UInt8.ofNat (n / 16777216), UInt8.ofNat (n / 65536), UInt8.ofNat (n / 256), UInt8.ofNat n]

@[simp] theorem be32_length (n : ℕ) : (be32 n).length = 4 := rfl
@[simp] theorem le32_length (n : ℕ) : (le32 n).length = 4 := rfl

theorem word32_digits {n : ℕ} (h : n < 4294967296) :
    word32 (UInt8.ofNat n) (UInt8.ofNat (n / 256)) (UInt8.ofNat (n / 65536))
      (UInt8.ofNat (n / 16777216)) = n := by
  simp only [word32, UInt8.toNat_ofNat']
  omega

theorem word32_lt (a b c d : UInt8) : word32 a b c d < 4294967296 := by
  have ha := a.toNat_lt
  have hb := b.toNat_lt
  have hc := c.toNat_lt
  have hd := d.toNat_lt
  simp only [word32]
  omega

theorem be32_word32 (a b c d : UInt8) : be32 (word32 d c b a) = [a, b, c, d] := by
  have ha := a.toNat_lt
  have hb := b.toNat_lt
  have hc := c.toNat_lt
  have hd := d.toNat_lt
  simp only [be32, word32, List.cons.injEq, and_true, ← UInt8.toNat_inj, UInt8.toNat_ofNat']
  omega

def cStr (s : Bytes) : Bytes := s.takeWhile fun b => decide (b ≠ 0)

theorem cStr_of_nulFree {s : Bytes} (h : (0 : UInt8) ∉ s) : cStr s = s := by
  rw [cStr, List.takeWhile_eq_self_iff]
  intro b hb
  exact decide_eq_true fun h0 => h (h0 ▸ hb)

theorem zero_notMem_cStr (s : Bytes) : (0 : UInt8) ∉ cStr s := by
  intro h
  simpa using List.mem_takeWhile_imp h

/-- `strncpy` into a field of `n` bytes: the copy is cut at `n` bytes and padded
with zeros. -/
def strncpy (src : Bytes) (n : ℕ) : Bytes :=
  (cStr src).take n ++ List.replicate (n - ((cStr src).take n).length) 0

@[simp] theorem strncpy_length (src : Bytes) (n : ℕ) : (strncpy src n).length = n := by
  simp only [strncpy, List.length_append, List.length_take, List.length_replicate]
  omega

abbrev Memory := ℕ → UInt8

namespace Memory

def store (m : Memory) (data : Bytes) : Memory := fun i => data.getD i (m i)

def word (m : Memory) (off : ℕ) : ℕ :=
  word32 (m off) (m (off + 1)) (m (off + 2)) (m (off + 3))

/-- The C string at `off`, looking at no more than the given number of bytes. -/
def cString (m : Memory) : ℕ → ℕ → Option Bytes
  | 0, _ => none
  | n + 1, off => if m off = 0 then some [] else (cString m n (off + 1)).map (m off :: ·)

theorem store_append_right (m : Memory) (pre data : Bytes) (i : ℕ) :
    store m (pre ++ data) (pre.length + i) = data.getD i (m (pre.length + i)) := by
  simp only [store, List.getD_eq_getElem?_getD]
  rw [List.getElem?_append_right (Nat.le_add_right _ _), Nat.add_sub_cancel_left]

theorem word_store (m : Memory) {data : Bytes} {off : ℕ} (h : off + 4 ≤ data.length) :
    word (store m data) off = word (fun i => data.getD i 0) off := by
  have hg : ∀ i, off ≤ i → i < off + 4 → data.getD i (m i) = data.getD i 0 := by
    intro i _ hi
    have hlt : i < data.length := Nat.lt_of_lt_of_le hi h
    simp [List.getD_eq_getElem?_getD, List.getElem?_eq_getElem hlt]
  simp only [word, store, hg off (by omega) (by omega), hg (off + 1) (by omega) (by omega),
    hg (off + 2) (by omega) (by omega), hg (off + 3) (by omega) (by omega)]

theorem word_le32 (m : Memory) (pre post : Bytes) {n : ℕ} (h : n < 4294967296) :
    word (store m (pre ++ (le32 n ++ post))) pre.length = n := by
  have h0 := store_append_right m pre (le32 n ++ post) 0
  have h1 := store_append_right m pre (le32 n ++ post) 1
  have h2 := store_append_right m pre (le32 n ++ post) 2
  have h3 := store_append_right m pre (le32 n ++ post) 3
  simp only [Nat.add_zero, le32, List.cons_append, List.getD_cons_zero, List.getD_cons_succ]
    at h0 h1 h2 h3
  simp only [word, le32, List.cons_append, h0, h1, h2, h3]
  exact word32_digits h

theorem cString_store (m : Memory) (pre s post : Bytes) (hs : (0 : UInt8) ∉ s) {n : ℕ}
    (hn : s.length < n) :
    cString (store m (pre ++ (s ++ 0 :: post))) n pre.length = some s := by
  induction s generalizing pre n with
  | nil =>
    obtain ⟨k, rfl⟩ := Nat.exists_eq_succ_of_ne_zero (Nat.ne_of_gt hn)
    have h0 := store_append_right m pre (0 :: post) 0
    simp only [Nat.add_zero, List.getD_cons_zero] at h0
    simp [cString, h0]
  | cons b s ih =>
    obtain ⟨k, rfl⟩ := Nat.exists_eq_succ_of_ne_zero (Nat.ne_of_gt (Nat.zero_lt_of_lt hn))
    have hb : b ≠ 0 := fun h => hs (h ▸ List.mem_cons_self)
    have h0 := store_append_right m pre (b :: s ++ 0 :: post) 0
    simp only [Nat.add_zero, List.cons_append, List.getD_cons_zero] at h0
    have hrest := ih (pre ++ [b]) (fun h => hs (List.mem_cons_of_mem _ h))
      (n := k) (by simpa using hn)
    rw [List.append_assoc, List.length_append] at hrest
    simp only [cString, List.cons_append, h0, hb, ↓reduceIte]
    exact congrArg (Option.map (b :: ·)) hrest

theorem store_of_lt (m : Memory) {data : Bytes} {i : ℕ} (h : i < data.length) :
    store m data i = data.getD i 0 := by
  simp [store, List.getD_eq_getElem?_getD, List.getElem?_eq_getElem h]

theorem store_of_le (m : Memory) {data : Bytes} {i : ℕ} (h : data.length ≤ i) :
    store m data i = m i := by
  simp [store, List.getD_eq_getElem?_getD, List.getElem?_eq_none h]

section CString

variable {m m' : Memory} {n off k : ℕ} {s : Bytes}

theorem cString_congr (h0 : m (off + k) = 0) (hk : k < n)
    (h : ∀ i ≤ k, m (off + i) = m' (off + i)) :
    ∃ s, cString m n off = some s ∧ cString m' n off = some s ∧ s.length ≤ k := by
  induction k generalizing off n with
  | zero =>
    obtain ⟨n, rfl⟩ := Nat.exists_eq_succ_of_ne_zero (Nat.ne_of_gt hk)
    have h0' : m' off = 0 := (h 0 (Nat.le_refl 0)).symm.trans h0
    exact ⟨[], if_pos h0, if_pos h0', Nat.le_refl 0⟩
  | succ k ih =>
    obtain ⟨n, rfl⟩ := Nat.exists_eq_succ_of_ne_zero (Nat.ne_of_gt (Nat.zero_lt_of_lt hk))
    have hhead : m off = m' off := h 0 (Nat.zero_le _)
    by_cases hz : m off = 0
    · exact ⟨[], if_pos hz, if_pos (hhead ▸ hz), Nat.zero_le _⟩
    · have hshift : ∀ i, off + (i + 1) = off + 1 + i := fun i => by omega
      obtain ⟨s, hs, hs', hlen⟩ := ih (n := n) (hshift k ▸ h0) (by omega)
        fun i hi => hshift i ▸ h (i + 1) (by omega)
      refine ⟨m off :: s, ?_, ?_, Nat.succ_le_succ hlen⟩
      · rw [cString, if_neg hz, hs, Option.map_some]
      · rw [cString, if_neg (hhead ▸ hz), hs', Option.map_some, hhead]

theorem cString_terminator (h : cString m n off = some s) : m (off + s.length) = 0 := by
  induction n generalizing off s with
  | zero => cases h
  | succ n ih =>
    rw [cString] at h
    split_ifs at h with hz
    · rw [← Option.some.inj h]
      exact hz
    · obtain ⟨t, ht, rfl⟩ := Option.map_eq_some_iff.1 h
      have hrest := ih ht
      rwa [List.length_cons, Nat.add_comm t.length 1, ← Nat.add_assoc]

end CString

end Memory
end BoardProxy
