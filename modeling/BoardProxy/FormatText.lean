import BoardProxy.ByteString
import Mathlib.Tactic.Tauto

/-!
# Replacement-field formatting

`format` replaces the fields of a format string: two
equal braces stand for one, an empty field takes the next argument, and every
other brace is an error. Indexed fields and format specifiers are left out; a
format string with such a field and no arguments is an error as well, which is
the only case in which the text of a format string is not fixed.
-/

namespace BoardProxy

def openBrace : UInt8 := 0x7b
def closeBrace : UInt8 := 0x7d

def format : Bytes → List Bytes → Option Bytes
  | [], _ => some []
  | [c], _ => if c = openBrace ∨ c = closeBrace then none else some [c]
  | c :: d :: rest, args =>
    if c = openBrace then
      if d = openBrace then (format rest args).map (openBrace :: ·)
      else if d = closeBrace then
        match args with
        | [] => none
        | a :: as => (format rest as).map (a ++ ·)
      else none
    else if c = closeBrace then
      if d = closeBrace then (format rest args).map (closeBrace :: ·) else none
    else (format (d :: rest) args).map (c :: ·)

def NoBrace (s : Bytes) : Prop := openBrace ∉ s ∧ closeBrace ∉ s

instance (s : Bytes) : Decidable (NoBrace s) := inferInstanceAs (Decidable (_ ∧ _))

/-- Every brace of the text belongs to a pair of two equal adjacent braces, the
pairs being formed from left to right. -/
def bracesPaired : Bytes → Bool
  | [] => true
  | [c] => c ≠ openBrace ∧ c ≠ closeBrace
  | c :: d :: rest =>
    if c = openBrace ∨ c = closeBrace then d = c ∧ bracesPaired rest else bracesPaired (d :: rest)

theorem noBrace_cons {c : UInt8} {s : Bytes} :
    NoBrace (c :: s) ↔ (c ≠ openBrace ∧ c ≠ closeBrace) ∧ NoBrace s := by
  simp only [NoBrace, List.mem_cons, not_or]
  constructor
  · rintro ⟨⟨ho, hos⟩, hc, hcs⟩
    exact ⟨⟨Ne.symm ho, Ne.symm hc⟩, hos, hcs⟩
  · rintro ⟨⟨ho, hc⟩, hos, hcs⟩
    exact ⟨⟨Ne.symm ho, hos⟩, Ne.symm hc, hcs⟩

theorem noBrace_append {s t : Bytes} : NoBrace (s ++ t) ↔ NoBrace s ∧ NoBrace t := by
  simp only [NoBrace, List.mem_append, not_or]
  tauto

theorem format_cons {c : UInt8} (ho : c ≠ openBrace) (hc : c ≠ closeBrace) (s : Bytes)
    (args : List Bytes) : format (c :: s) args = (format s args).map (c :: ·) := by
  cases s with
  | nil => simp [format, ho, hc]
  | cons d s => simp [format, ho, hc]

theorem format_append {l : Bytes} (hl : NoBrace l) (s : Bytes) (args : List Bytes) :
    format (l ++ s) args = (format s args).map (l ++ ·) := by
  induction l with
  | nil => simp
  | cons c l ih =>
    obtain ⟨⟨ho, hc⟩, hl⟩ := noBrace_cons.1 hl
    rw [List.cons_append, format_cons ho hc, ih hl, Option.map_map]
    rfl

theorem format_field (a s : Bytes) (as : List Bytes) :
    format (openBrace :: closeBrace :: s) (a :: as) = (format s as).map (a ++ ·) := by
  simp [format, openBrace, closeBrace]

theorem format_plain {s : Bytes} (hs : NoBrace s) (args : List Bytes) : format s args = some s := by
  have h := format_append hs [] args
  simpa [format] using h

theorem format_plain_field {l : Bytes} (hl : NoBrace l) (a : Bytes) (as : List Bytes) :
    format (l ++ [openBrace, closeBrace]) (a :: as) = some (l ++ a) := by
  rw [format_append hl, format_field]
  simp [format]

theorem bracesPaired_cons {c : UInt8} (ho : c ≠ openBrace) (hc : c ≠ closeBrace) (s : Bytes) :
    bracesPaired (c :: s) = bracesPaired s := by
  cases s with
  | nil => simp [bracesPaired, ho, hc]
  | cons d s => simp [bracesPaired, ho, hc]

theorem bracesPaired_append {l : Bytes} (hl : NoBrace l) (s : Bytes) :
    bracesPaired (l ++ s) = bracesPaired s := by
  induction l with
  | nil => rfl
  | cons c l ih =>
    obtain ⟨⟨ho, hc⟩, hl⟩ := noBrace_cons.1 hl
    rw [List.cons_append, bracesPaired_cons ho hc, ih hl]

theorem bracesPaired_plain {s : Bytes} (hs : NoBrace s) : bracesPaired s = true := by
  have h := bracesPaired_append hs []
  simpa [bracesPaired] using h

theorem bracesPaired_append_cons {c : UInt8} (ho : c ≠ openBrace) (hc : c ≠ closeBrace)
    (s t : Bytes) : bracesPaired (s ++ c :: t) = (bracesPaired s && bracesPaired t) := by
  induction s using bracesPaired.induct with
  | case1 => simp [bracesPaired, bracesPaired_cons ho hc]
  | case2 b =>
    by_cases hb : b = openBrace ∨ b = closeBrace
    · have hne : c ≠ b := by rcases hb with rfl | rfl <;> assumption
      have hb' : ¬(b ≠ openBrace ∧ b ≠ closeBrace) := by tauto
      simp [bracesPaired, hb, hne, hb']
    · have hb' : b ≠ openBrace ∧ b ≠ closeBrace := by tauto
      simp only [List.cons_append, List.nil_append]
      rw [bracesPaired_cons hb'.1 hb'.2, bracesPaired_cons ho hc]
      simp [bracesPaired, hb']
  | case3 b d s hb ih =>
    simp only [List.cons_append, bracesPaired, hb, ↓reduceIte, ih]
    by_cases hd : d = b <;> simp [hd]
  | case4 b d s hb ih =>
    have hb' : b ≠ openBrace ∧ b ≠ closeBrace := by tauto
    rw [List.cons_append, bracesPaired_cons hb'.1 hb'.2, bracesPaired_cons hb'.1 hb'.2, ih]

theorem format_nil_isSome (s : Bytes) : (format s []).isSome = bracesPaired s := by
  induction s using bracesPaired.induct with
  | case1 => rfl
  | case2 c =>
    by_cases hc : c = openBrace ∨ c = closeBrace
    · have hc' : ¬(c ≠ openBrace ∧ c ≠ closeBrace) := by tauto
      simp [format, bracesPaired, hc, hc']
    · have hc' : c ≠ openBrace ∧ c ≠ closeBrace := by tauto
      simp [format, bracesPaired, hc']
  | case3 c d s hc ih =>
    have hne : closeBrace ≠ openBrace := by decide
    by_cases hd : d = c
    · subst hd
      rcases hc with rfl | rfl
      · simp [format, bracesPaired, ih]
      · simp [format, bracesPaired, ih, hne]
    · rcases hc with rfl | rfl
      · simp [format, bracesPaired, hd]
      · simp [format, bracesPaired, hd, hne]
  | case4 c d s hc ih =>
    have hc' : c ≠ openBrace ∧ c ≠ closeBrace := by tauto
    rw [format_cons hc'.1 hc'.2, bracesPaired_cons hc'.1 hc'.2, ← ih]
    simp

end BoardProxy
