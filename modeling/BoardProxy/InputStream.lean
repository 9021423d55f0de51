import BoardProxy.ByteString

/-!
# String streams and number conversion of the C++ library

A string stream is its unread text with the end-of-file and failure bits.
`getline` consumes the delimiter, sets the end-of-file bit when the text ends
before one, and the failure bit when it consumes nothing. `stoi` skips white
space, accepts a sign, ignores trailing text, and fails without digits or
outside the range of a 32-bit `int`.
-/

namespace BoardProxy

structure InputStream where
  rest : Bytes
  eof : Bool
  fail : Bool
deriving DecidableEq

namespace InputStream

def ofText (s : Bytes) : InputStream := ⟨s, false, false⟩

def getline (s : InputStream) (delim : UInt8) : Bytes × InputStream :=
  if s.eof || s.fail then ([], { s with fail := true })
  else
    let line := s.rest.takeWhile fun b => decide (b ≠ delim)
    match s.rest.dropWhile fun b => decide (b ≠ delim) with
    | [] => (line, ⟨[], true, line.isEmpty⟩)
    | _ :: rest => (line, ⟨rest, false, false⟩)

def skipLoop (c : UInt8) : Bytes → InputStream
  | [] => ⟨[], true, false⟩ -- `peek` meets the end of the text
  | b :: rest => if b = c then skipLoop c rest else ⟨b :: rest, false, false⟩

/-- `while (s.peek() == c) s.ignore(1)`. -/
def skip (s : InputStream) (c : UInt8) : InputStream :=
  if s.eof || s.fail then { s with fail := true } else skipLoop c s.rest

theorem getline_ofText (s : Bytes) (delim : UInt8) (h : delim ∉ s) :
    (ofText s).getline delim = (s, ⟨[], true, s.isEmpty⟩) := by
  have ht : s.takeWhile (fun b => decide (b ≠ delim)) = s := by
    rw [List.takeWhile_eq_self_iff]
    intro b hb
    exact decide_eq_true fun he => h (he ▸ hb)
  have hd : s.dropWhile (fun b => decide (b ≠ delim)) = [] := by
    rw [List.dropWhile_eq_nil_iff]
    intro b hb
    exact decide_eq_true fun he => h (he ▸ hb)
  simp only [getline, ofText, ht, hd, Bool.or_self, Bool.false_eq_true, ↓reduceIte]

theorem getline_ofText_append (s r : Bytes) (delim : UInt8) (h : delim ∉ s) :
    (ofText (s ++ delim :: r)).getline delim = (s, ofText r) := by
  have hs : ∀ b ∈ s, decide (b ≠ delim) = true := fun b hb => decide_eq_true fun he => h (he ▸ hb)
  have ht : (s ++ delim :: r).takeWhile (fun b => decide (b ≠ delim)) = s := by
    rw [List.takeWhile_append_of_pos hs]
    simp
  have hd : (s ++ delim :: r).dropWhile (fun b => decide (b ≠ delim)) = delim :: r := by
    rw [List.dropWhile_append_of_pos hs]
    simp
  simp only [getline, ofText, ht, hd, Bool.or_self, Bool.false_eq_true, ↓reduceIte]

theorem skipLoop_eq (c : UInt8) (s : Bytes) :
    skipLoop c s = ⟨s.dropWhile fun b => decide (b = c),
      (s.dropWhile fun b => decide (b = c)).isEmpty, false⟩ := by
  induction s with
  | nil => rfl
  | cons b s ih =>
    by_cases hb : b = c
    · simpa [skipLoop, hb] using ih
    · simp [skipLoop, hb]

end InputStream

def isSpace (b : UInt8) : Bool := b = 32 || (9 ≤ b && b ≤ 13)

def isDigit (b : UInt8) : Bool := 48 ≤ b && b ≤ 57

def decimalValue (ds : Bytes) : ℕ := ds.foldl (fun n d => 10 * n + (d.toNat - 48)) 0

def splitSign : Bytes → Bool × Bytes
  | [] => (false, [])
  | b :: s => if b = 45 then (true, s) else if b = 43 then (false, s) else (false, b :: s)

def stoi (s : Bytes) : Option ℤ :=
  let t := splitSign (s.dropWhile isSpace)
  let digits := t.2.takeWhile isDigit
  let v : ℤ := if t.1 then -(decimalValue digits : ℤ) else decimalValue digits
  if digits = [] then none
  else if -2147483648 ≤ v ∧ v ≤ 2147483647 then some v else none

end BoardProxy
