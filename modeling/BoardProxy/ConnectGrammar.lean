import BoardProxy.WrProxy

/-!
# The command line of the WindRiver proxy

A line is a command word, spaces, and parameters that semicolons separate. A
parameter is a known key, an equals sign and a value, and the last value of a
key counts. The stream operations of the proxy read lines of this form: the
first parameter of another form is what the proxy complains about.
-/

namespace BoardProxy
namespace ConnectLine

def word (line : Bytes) : Bytes := line.takeWhile fun b => decide (b ≠ 32)

def arguments (line : Bytes) : Bytes :=
  (line.dropWhile fun b => decide (b ≠ 32)).dropWhile fun b => decide (b = 32)

def parameters (line : Bytes) : List Bytes :=
  if arguments line = [] then [] else (arguments line).splitOn 59

def key (param : Bytes) : Bytes := param.takeWhile fun b => decide (b ≠ 61)

def value (param : Bytes) : Bytes := (param.dropWhile fun b => decide (b ≠ 61)).drop 1

def keys : List Bytes := [ascii "type", ascii "tgt", ascii "port", ascii "mode"]

def Known (param : Bytes) : Prop := (61 : UInt8) ∈ param ∧ key param ∈ keys

instance (param : Bytes) : Decidable (Known param) := inferInstanceAs (Decidable (_ ∧ _))

def lastValue (k : Bytes) (ps : List Bytes) : Bytes :=
  ((ps.filter fun p => decide (key p = k)).getLast?.map value).getD []

def params (ps : List Bytes) : ConnectParams :=
  ⟨lastValue (ascii "type") ps, lastValue (ascii "tgt") ps, lastValue (ascii "port") ps,
    lastValue (ascii "mode") ps⟩

def complaint (param : Bytes) : Bytes :=
  if (61 : UInt8) ∈ param then ascii "Unsupported parameter: \x7b\x7d"
  else ascii "Missing '=' in connect parameter: \x7b\x7d"

/-- The first parameter that is not known is an error, with its complaint. -/
def parsed (ps : List Bytes) : Except (Bytes × Bytes) ConnectParams :=
  match ps.find? fun p => decide ¬Known p with
  | some bad => .error (complaint bad, bad)
  | none => .ok (params ps)

theorem lastValue_append (k : Bytes) (ps : List Bytes) (p : Bytes) :
    lastValue k (ps ++ [p]) = if key p = k then value p else lastValue k ps := by
  by_cases hk : key p = k
  · simp [lastValue, List.filter_append, hk]
  · simp [lastValue, List.filter_append, hk]

theorem parsed_append {ps : List Bytes} (hps : ∀ p ∈ ps, Known p) (p : Bytes) (rest : List Bytes)
    (hp : ¬Known p) : parsed (ps ++ p :: rest) = .error (complaint p, p) := by
  have hf : (ps ++ p :: rest).find? (fun p => decide ¬Known p) = some p := by
    rw [List.find?_append, List.find?_eq_none.2]
    · simp [hp]
    · intro q hq
      simpa using hps q hq
  rw [parsed, hf]

theorem parsed_known {ps : List Bytes} (hps : ∀ p ∈ ps, Known p) : parsed ps = .ok (params ps) := by
  have hf : ps.find? (fun p => decide ¬Known p) = none := by
    rw [List.find?_eq_none]
    intro q hq
    simpa using hps q hq
  rw [parsed, hf]

theorem parsed_eq_ok {ps : List Bytes} {c : ConnectParams} :
    parsed ps = .ok c ↔ (∀ p ∈ ps, Known p) ∧ c = params ps := by
  constructor
  · intro h
    have hknown : ∀ p ∈ ps, Known p := by
      cases hf : ps.find? fun p => decide ¬Known p with
      | some bad =>
        rw [parsed, hf] at h
        cases h
      | none => simpa using List.find?_eq_none.1 hf
    rw [parsed_known hknown] at h
    exact ⟨hknown, (Except.ok.inj h).symm⟩
  · rintro ⟨hknown, rfl⟩
    exact parsed_known hknown

end ConnectLine

namespace WrProxy

open ConnectLine

theorem parseParams_eof (n : ℕ) {cmd : InputStream} (h : cmd.eof = true) (c : ConnectParams) :
    parseParams n cmd c = .ok c := by
  cases n with
  | zero => rfl
  | succ n => simp [parseParams, h]

section Round

variable {n : ℕ} {cmd cmd' : InputStream} {param : Bytes}

theorem parseParams_round (he : cmd.eof = false) (hg : cmd.getline 59 = (param, cmd'))
    (c : ConnectParams) : parseParams (n + 1) cmd c =
      if (61 : UInt8) ∉ param then
        .error (ascii "Missing '=' in connect parameter: \x7b\x7d", param)
      else if key param = ascii "type" then parseParams n cmd' { c with type := value param }
      else if key param = ascii "tgt" then parseParams n cmd' { c with tgt := value param }
      else if key param = ascii "port" then parseParams n cmd' { c with port := value param }
      else if key param = ascii "mode" then parseParams n cmd' { c with mode := value param }
      else .error (ascii "Unsupported parameter: \x7b\x7d", param) := by
  rw [parseParams, he, hg, if_neg Bool.false_ne_true]
  rfl

theorem parseParams_bad (he : cmd.eof = false) (hg : cmd.getline 59 = (param, cmd'))
    (hp : ¬Known param) (c : ConnectParams) :
    parseParams (n + 1) cmd c = .error (complaint param, param) := by
  rw [parseParams_round he hg]
  by_cases heq : (61 : UInt8) ∈ param
  · have hk : key param ∉ keys := fun hk => hp ⟨heq, hk⟩
    simp only [keys, List.mem_cons, List.not_mem_nil, or_false, not_or] at hk
    rw [if_neg (not_not_intro heq), if_neg hk.1, if_neg hk.2.1, if_neg hk.2.2.1, if_neg hk.2.2.2,
      complaint, if_pos heq]
  · rw [if_pos heq, complaint, if_neg heq]

theorem parseParams_known (he : cmd.eof = false) (hg : cmd.getline 59 = (param, cmd'))
    (hp : Known param) (ps : List Bytes) :
    parseParams (n + 1) cmd (params ps) = parseParams n cmd' (params (ps ++ [param])) := by
  obtain ⟨heq, hk⟩ := hp
  have htt : ascii "tgt" ≠ ascii "type" := by decide
  have hpt : ascii "port" ≠ ascii "type" ∧ ascii "port" ≠ ascii "tgt" := by decide
  have hmt : ascii "mode" ≠ ascii "type" ∧ ascii "mode" ≠ ascii "tgt" ∧
      ascii "mode" ≠ ascii "port" := by decide
  rw [parseParams_round he hg, if_neg (not_not_intro heq)]
  simp only [params, lastValue_append]
  simp only [keys, List.mem_cons, List.not_mem_nil, or_false] at hk
  rcases hk with hk | hk | hk | hk
  · simp [hk, htt.symm, hpt.1.symm, hmt.1.symm]
  · simp [hk, htt, hpt.2.symm, hmt.2.1.symm]
  · simp [hk, hpt.1, hpt.2, hmt.2.2.symm]
  · simp [hk, hmt.1, hmt.2.1, hmt.2.2]

end Round

theorem parseParams_ofText (n : ℕ) (s : Bytes) (hn : s.length < n) (ps : List Bytes)
    (hps : ∀ p ∈ ps, Known p) : parseParams n (InputStream.ofText s) (params ps) =
      parsed (ps ++ s.splitOn 59) := by
  induction n generalizing s ps with
  | zero => omega
  | succ n ih =>
    by_cases hs : (59 : UInt8) ∈ s
    · obtain ⟨a, r, rfl, ha⟩ := List.eq_append_cons_of_mem hs
      have hg := InputStream.getline_ofText_append a r 59 ha
      rw [List.splitOn_append_cons_self_of_not_mem ha]
      by_cases hk : Known a
      · have hr : r.length < n := by
          simp only [List.length_append, List.length_cons] at hn
          omega
        have hpa : ∀ p ∈ ps ++ [a], Known p := by
          intro p hp
          rcases List.mem_append.1 hp with hp | hp
          · exact hps p hp
          · exact List.mem_singleton.1 hp ▸ hk
        rw [parseParams_known rfl hg hk, ih r hr (ps ++ [a]) hpa, List.append_assoc]
        rfl
      · rw [parseParams_bad rfl hg hk, parsed_append hps a _ hk]
    · have hg := InputStream.getline_ofText s 59 hs
      rw [List.splitOn_eq_singleton hs]
      by_cases hk : Known s
      · rw [parseParams_known rfl hg hk, parseParams_eof n rfl, parsed_known]
        intro p hp
        rcases List.mem_append.1 hp with hp | hp
        · exact hps p hp
        · exact List.mem_singleton.1 hp ▸ hk
      · rw [parseParams_bad rfl hg hk, parsed_append hps s [] hk]

theorem parse_line (line : Bytes) : ∃ cmd, (InputStream.ofText line).getline 32 = (word line, cmd) ∧
    parseParams ((cmd.skip 32).rest.length + 1) (cmd.skip 32) ⟨[], [], [], []⟩ =
      parsed (parameters line) := by
  by_cases hs : (32 : UInt8) ∈ line
  · obtain ⟨a, r, rfl, ha⟩ := List.eq_append_cons_of_mem hs
    have hna : ∀ b ∈ a, decide (b ≠ 32) = true := fun b hb => decide_eq_true fun he => ha (he ▸ hb)
    have hw : word (a ++ 32 :: r) = a := by
      rw [word, List.takeWhile_append_of_pos hna]
      simp
    have hargs : arguments (a ++ 32 :: r) = r.dropWhile fun b => decide (b = 32) := by
      rw [arguments, List.dropWhile_append_of_pos hna]
      simp
    refine ⟨InputStream.ofText r, by rw [hw, InputStream.getline_ofText_append a r 32 ha], ?_⟩
    rw [parameters, hargs]
    have hskip : (InputStream.ofText r).skip 32 = InputStream.skipLoop 32 r := rfl
    rw [hskip, InputStream.skipLoop_eq]
    by_cases hr : (r.dropWhile fun b => decide (b = 32)) = []
    · rw [hr, if_pos rfl, parseParams_eof _ rfl]
      rfl
    · rw [if_neg hr, List.isEmpty_eq_false_iff.2 hr]
      exact parseParams_ofText _ _ (Nat.lt_succ_self _) [] (fun p hp => by cases hp)
  · have hna : ∀ b ∈ line, decide (b ≠ 32) = true :=
      fun b hb => decide_eq_true fun he => hs (he ▸ hb)
    have hw : word line = line := List.takeWhile_eq_self_iff.2 hna
    have hargs : arguments line = [] := by
      rw [arguments, List.dropWhile_eq_nil_iff.2 hna]
      rfl
    refine ⟨⟨[], true, line.isEmpty⟩, by rw [hw, InputStream.getline_ofText line 32 hs], ?_⟩
    rw [parameters, hargs, if_pos rfl, parseParams_eof]
    · rfl
    · rfl

end WrProxy
end BoardProxy
