import BoardProxy.ByteString

/-!
# Items cut out of a stream that arrives in pieces

A `Splitter` takes the first complete item off a stream, and what it finds does not
change when more of the stream arrives. `items` are all complete items at the front
of a stream and `pending` is the incomplete rest. Both can be computed piece by
piece. Frames with a 32-bit big-endian length are an instance.
-/

namespace BoardProxy

structure Splitter (α β : Type*) where
  split : List α → Option (β × List α)
  shrinks : ∀ {s b r}, split s = some (b, r) → r.length < s.length
  append : ∀ {s b r} t, split s = some (b, r) → split (s ++ t) = some (b, r ++ t)

namespace Splitter

variable {α β : Type*} (S : Splitter α β)

def cut : ℕ → List α → List β × List α
  | 0, s => ([], s)
  | n + 1, s =>
    match S.split s with
    | none => ([], s)
    | some (b, r) => (b :: (cut n r).1, (cut n r).2)

def items (s : List α) : List β := (S.cut s.length s).1

def pending (s : List α) : List α := (S.cut s.length s).2

variable {S} {s t r : List α} {b : β} {n : ℕ}

theorem cut_succ (h : s.length ≤ n) : S.cut (n + 1) s = S.cut n s := by
  induction n generalizing s with
  | zero =>
    cases hs : S.split s with
    | none => simp only [cut, hs]
    | some x => exact absurd (S.shrinks hs) (by omega)
  | succ n ih =>
    cases hs : S.split s with
    | none => simp only [cut, hs]
    | some x =>
      obtain ⟨b, r⟩ := x
      have hr := S.shrinks hs
      have hle : r.length ≤ n := by omega
      rw [cut, hs, cut, hs]
      simp only [ih hle]

theorem cut_eq (h : s.length ≤ n) : S.cut n s = (S.items s, S.pending s) := by
  induction h with
  | refl => rfl
  | step h ih => rw [cut_succ h, ih]

theorem cut_of_none (h : S.split s = none) (n : ℕ) : S.cut n s = ([], s) := by
  cases n with
  | zero => rfl
  | succ n => simp only [cut, h]

theorem items_of_none (h : S.split s = none) : S.items s = [] := by
  rw [items, cut_of_none h]

theorem pending_of_none (h : S.split s = none) : S.pending s = s := by
  rw [pending, cut_of_none h]

theorem cut_of_some (h : S.split s = some (b, r)) :
    S.cut s.length s = (b :: S.items r, S.pending r) := by
  have hr := S.shrinks h
  obtain ⟨n, hn⟩ : ∃ n, s.length = n + 1 := ⟨s.length - 1, by omega⟩
  have hle : r.length ≤ n := by omega
  rw [hn, cut, h]
  simp only [cut_eq hle]

theorem items_of_some (h : S.split s = some (b, r)) : S.items s = b :: S.items r := by
  rw [items, cut_of_some h]

theorem pending_of_some (h : S.split s = some (b, r)) : S.pending s = S.pending r := by
  rw [pending, cut_of_some h]

theorem induct {P : List α → Prop} (hnone : ∀ s, S.split s = none → P s)
    (hsome : ∀ s b r, S.split s = some (b, r) → P r → P s) (s : List α) : P s := by
  induction hn : s.length using Nat.strong_induction_on generalizing s with
  | h n ih =>
    cases hs : S.split s with
    | none => exact hnone s hs
    | some x =>
      obtain ⟨b, r⟩ := x
      exact hsome s b r hs (ih r.length (hn ▸ S.shrinks hs) r rfl)

theorem items_eq_nil : S.items s = [] ↔ S.split s = none := by
  cases hs : S.split s with
  | none => simp [items_of_none hs]
  | some x =>
    obtain ⟨b, r⟩ := x
    simp [items_of_some hs]

theorem items_append (s t : List α) :
    S.items (s ++ t) = S.items s ++ S.items (S.pending s ++ t) := by
  induction s using S.induct with
  | hnone s h => rw [items_of_none h, pending_of_none h, List.nil_append]
  | hsome s b r h ih =>
    rw [items_of_some (S.append t h), ih, items_of_some h, pending_of_some h, List.cons_append]

theorem pending_append (s t : List α) : S.pending (s ++ t) = S.pending (S.pending s ++ t) := by
  induction s using S.induct with
  | hnone s h => rw [pending_of_none h]
  | hsome s b r h ih => rw [pending_of_some (S.append t h), ih, pending_of_some h]

/-- The items that lie completely within the first `n` elements of their encoding. -/
def arrived (enc : β → List α) : List β → ℕ → List β
  | [], _ => []
  | b :: bs, n => if (enc b).length ≤ n then b :: arrived enc bs (n - (enc b).length) else []

section Encoded

variable {enc : β → List α} {bs : List β}

theorem prefix_append_cases {u v : List α} (h : s <+: u ++ v) :
    (s.length < u.length ∧ s <+: u) ∨ ∃ w, s = u ++ w ∧ w <+: v := by
  rcases Nat.lt_or_ge s.length u.length with hlt | hge
  · exact Or.inl
      ⟨hlt, List.prefix_of_prefix_length_le h (List.prefix_append u v) (Nat.le_of_lt hlt)⟩
  · obtain ⟨w, rfl⟩ := List.prefix_of_prefix_length_le (List.prefix_append u v) h hge
    exact Or.inr ⟨w, rfl, (List.prefix_append_right_inj u).1 h⟩

theorem split_of_prefix_lt (hb : ∀ t, S.split (enc b ++ t) = some (b, t)) (h : s <+: enc b)
    (hlt : s.length < (enc b).length) : S.split s = none := by
  obtain ⟨t, ht⟩ := h
  cases hs : S.split s with
  | none => rfl
  | some x =>
    obtain ⟨c, r⟩ := x
    have hall := S.append t hs
    have hone := hb []
    rw [ht] at hall
    rw [List.append_nil, hall, Option.some.injEq, Prod.mk.injEq] at hone
    have hnil : t = [] := (List.append_eq_nil_iff.1 hone.2).2
    rw [hnil, List.append_nil] at ht
    rw [ht] at hlt
    exact absurd hlt (Nat.lt_irrefl _)

theorem items_of_prefix (hdec : ∀ b ∈ bs, ∀ t, S.split (enc b ++ t) = some (b, t))
    (h : s <+: bs.flatMap enc) : S.items s = arrived enc bs s.length := by
  induction bs generalizing s with
  | nil =>
    rw [List.prefix_nil.1 h]
    exact items_of_none (by_contra fun hn => by
      obtain ⟨⟨b, r⟩, hs⟩ := Option.ne_none_iff_exists'.1 hn
      exact absurd (S.shrinks hs) (Nat.not_lt_zero _))
  | cons b bs ih =>
    have hb := hdec b List.mem_cons_self
    rcases prefix_append_cases h with ⟨hlt, hpre⟩ | ⟨w, rfl, hw⟩
    · rw [items_of_none (split_of_prefix_lt hb hpre hlt), arrived, if_neg (Nat.not_le.2 hlt)]
    · rw [items_of_some (hb w), ih (fun c hc => hdec c (List.mem_cons_of_mem _ hc)) hw, arrived,
        List.length_append, if_pos (Nat.le_add_right _ _), Nat.add_sub_cancel_left]

theorem items_flatMap_append (hdec : ∀ b ∈ bs, ∀ t, S.split (enc b ++ t) = some (b, t))
    (t : List α) : S.items (bs.flatMap enc ++ t) = bs ++ S.items t := by
  induction bs with
  | nil => rfl
  | cons b bs ih =>
    rw [List.flatMap_cons, List.append_assoc, items_of_some (hdec b List.mem_cons_self _),
      ih fun c hc => hdec c (List.mem_cons_of_mem _ hc), List.cons_append]

theorem pending_lt {m : ℕ} (hm : 0 < m) (hlen : ∀ b ∈ bs, (enc b).length ≤ m)
    (hdec : ∀ b ∈ bs, ∀ t, S.split (enc b ++ t) = some (b, t)) (h : s <+: bs.flatMap enc) :
    (S.pending s).length < m := by
  induction bs generalizing s with
  | nil =>
    rw [List.prefix_nil.1 h]
    exact hm
  | cons b bs ih =>
    have hb := hdec b List.mem_cons_self
    rcases prefix_append_cases h with ⟨hlt, hpre⟩ | ⟨w, rfl, hw⟩
    · rw [pending_of_none (split_of_prefix_lt hb hpre hlt)]
      exact Nat.lt_of_lt_of_le hlt (hlen b List.mem_cons_self)
    · rw [pending_of_some (hb w)]
      exact ih (fun c hc => hlen c (List.mem_cons_of_mem _ hc))
        (fun c hc => hdec c (List.mem_cons_of_mem _ hc)) hw

end Encoded
end Splitter

def frame (payload : Bytes) : Bytes := be32 payload.length ++ payload

namespace Frame

@[simp] theorem length_frame (x : Bytes) : (frame x).length = x.length + 4 := by
  simp [frame, Nat.add_comm]

def split : Bytes → Option (Bytes × Bytes)
  | a :: b :: c :: d :: body =>
    if body.length < word32 d c b a then none
    else some (body.take (word32 d c b a), body.drop (word32 d c b a))
  | _ => none

theorem split_frame {x : Bytes} (h : x.length < 4294967296) (rest : Bytes) :
    split (frame x ++ rest) = some (x, rest) := by
  simp only [frame, be32, List.cons_append, List.nil_append, split, word32_digits h]
  rw [if_neg (by simp), List.take_left, List.drop_left]

theorem split_eq_some {s x rest : Bytes} :
    split s = some (x, rest) ↔ x.length < 4294967296 ∧ s = frame x ++ rest := by
  constructor
  · intro h
    match s, h with
    | a :: b :: c :: d :: body, h =>
      simp only [split] at h
      split_ifs at h with hlt
      obtain ⟨rfl, rfl⟩ := Prod.mk.inj (Option.some.inj h)
      have hlen : (body.take (word32 d c b a)).length = word32 d c b a :=
        List.length_take_of_le (Nat.not_lt.1 hlt)
      refine ⟨hlen.trans_lt (word32_lt d c b a), ?_⟩
      rw [frame, hlen, be32_word32, List.append_assoc, List.take_append_drop]
      rfl
  · rintro ⟨hx, rfl⟩
    exact split_frame hx rest

theorem split_eq_none {s : Bytes} :
    split s = none ↔ ∀ x rest, x.length < 4294967296 → s ≠ frame x ++ rest := by
  constructor
  · intro h x rest hx hs
    rw [split_eq_some.2 ⟨hx, hs⟩] at h
    cases h
  · intro h
    cases hs : split s with
    | none => rfl
    | some y =>
      obtain ⟨x, rest⟩ := y
      obtain ⟨hx, hs⟩ := split_eq_some.1 hs
      exact absurd hs (h x rest hx)

def splitter : Splitter UInt8 Bytes where
  split := split
  shrinks h := by
    obtain ⟨_, rfl⟩ := split_eq_some.1 h
    simp
  append t h := by
    obtain ⟨hx, rfl⟩ := split_eq_some.1 h
    exact split_eq_some.2 ⟨hx, List.append_assoc _ _ _⟩

end Frame
end BoardProxy
