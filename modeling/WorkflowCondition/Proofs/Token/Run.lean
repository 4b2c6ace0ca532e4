import WorkflowCondition.Token.Scan

/-!
# Runs of the scan

`Token.Scans position cs tokens rest`: a scan of the text `cs`, which starts at `position` of its
source, finds `tokens` and stands in front of `rest`. Every scan runs until nothing is left or no
token starts (`exists_scans`), and its result is read off that run: `scanFrom_eq_ok_iff` and
`scanFrom_eq_error_iff`.
-/

namespace WorkflowCondition

namespace Token

/-- The scan of `cs` gets to `rest` with `tokens` found on the way. -/
inductive Scans : Nat → List Char → List Token → List Char → Prop
  | refl {position : Nat} {cs : List Char} : Scans position cs [] cs
  | next {position n : Nat} {cs rest : List Char} {kind : Kind} {tokens : List Token}
      (h : next? cs = some (kind, n))
      (hs : Scans (position + utf8Length (cs.take n)) (cs.drop n) tokens rest) :
      Scans position cs (⟨kind, .ofList (cs.take n), position⟩ :: tokens) rest

/-- The texts of tokens, one behind the other. -/
def texts (tokens : List Token) : List Char :=
  tokens.flatMap fun t => t.text.toList

@[simp] theorem texts_nil : texts [] = [] := rfl

@[simp] theorem texts_cons (t : Token) (tokens : List Token) :
    texts (t :: tokens) = t.text.toList ++ texts tokens := rfl

/-- No character is lost. -/
theorem Scans.texts_append {position : Nat} {cs rest : List Char} {tokens : List Token}
    (hs : Scans position cs tokens rest) : texts tokens ++ rest = cs := by
  induction hs with
  | refl => rfl
  | next h hs ih =>
    rw [texts_cons, String.toList_ofList, List.append_assoc]
    exact (congrArg _ ih).trans (List.take_append_drop _ _)

/-- A token in front of what a run is over. -/
theorem Scans.next_append {position : Nat} {w r rest : List Char} {kind : Kind}
    {tokens : List Token} (h : next? (w ++ r) = some (kind, w.length))
    (hs : Scans (position + utf8Length w) r tokens rest) :
    Scans position (w ++ r) (⟨kind, .ofList w, position⟩ :: tokens) rest := by
  have hnext : Scans (position + utf8Length ((w ++ r).take w.length)) ((w ++ r).drop w.length)
      tokens rest := by
    rwa [List.take_left, List.drop_left]
  have hscan := Scans.next h hnext
  rwa [List.take_left] at hscan

/-- A run of tokens in front of others breaks off between them. -/
theorem Scans.of_append {position : Nat} {cs rest : List Char} {tokens more : List Token}
    (hs : Scans position cs (tokens ++ more) rest) :
    ∃ mid, Scans position cs tokens mid ∧
      Scans (position + utf8Length (texts tokens)) mid more rest := by
  induction tokens generalizing position cs with
  | nil => exact ⟨cs, .refl, hs⟩
  | cons t tokens ih =>
    rcases hs with _ | @⟨_, n, _, _, kind, _, h, hs⟩
    obtain ⟨mid, hm, hs'⟩ := ih hs
    refine ⟨mid, .next h hm, ?_⟩
    rwa [texts_cons, String.toList_ofList, utf8Length_append, ← Nat.add_assoc]

/-- A scan runs until nothing is left or no token starts. -/
theorem exists_scans (position : Nat) (cs : List Char) :
    ∃ tokens rest, Scans position cs tokens rest ∧ (rest = [] ∨ next? rest = none) := by
  induction hn : cs.length using Nat.strongRecOn generalizing position cs with
  | ind len ih =>
    cases h : next? cs with
    | none => exact ⟨[], cs, .refl, .inr h⟩
    | some token =>
      obtain ⟨kind, n⟩ := token
      by_cases hc : cs = []
      · exact ⟨[], cs, .refl, .inl hc⟩
      · have hpos := next?_pos h
        have hlen : 0 < cs.length := List.length_pos_iff.mpr hc
        obtain ⟨tokens, rest, hs, hr⟩ := ih (cs.drop n).length
          (by rw [List.length_drop]; omega) (position + utf8Length (cs.take n)) (cs.drop n) rfl
        exact ⟨_, rest, .next h hs, hr⟩

/-! ## The result of a scan -/

theorem next?_nil : next? [] = none := by
  decide

theorem scanFrom_next {position n : Nat} {cs : List Char} {kind : Kind}
    (h : next? cs = some (kind, n)) :
    scanFrom position cs = (scanFrom (position + utf8Length (cs.take n)) (cs.drop n)).map
      (⟨kind, .ofList (cs.take n), position⟩ :: ·) := by
  cases cs with
  | nil => rw [next?_nil] at h; cases h
  | cons c rest =>
    rw [scanFrom]
    split
    · rename_i h'
      rw [h'] at h; cases h
    · rename_i h'
      rw [h'] at h; cases h
      simp only
      split <;> rename_i hr <;> rw [hr] <;> rfl

/-- Where no token starts, the error names the character and the bytes in front of it. -/
theorem scanFrom_stuck {position : Nat} {c : Char} {rest : List Char}
    (h : next? (c :: rest) = none) :
    scanFrom position (c :: rest) = .error (.unexpectedCharacter c position) := by
  rw [scanFrom]
  split
  · rfl
  · rename_i h'
    rw [h] at h'; cases h'

/-- A scan that has come some way goes on with what is left. -/
theorem Scans.scanFrom_eq {position : Nat} {cs rest : List Char} {tokens : List Token}
    (hs : Scans position cs tokens rest) :
    scanFrom position cs =
      (scanFrom (position + utf8Length (texts tokens)) rest).map (tokens ++ ·) := by
  induction hs with
  | @refl position cs =>
    show _ = (scanFrom position cs).map id
    cases scanFrom position cs <;> rfl
  | @next position n cs rest kind tokens h hs ih =>
    rw [scanFrom_next h, ih, texts_cons, String.toList_ofList, utf8Length_append,
      ← Nat.add_assoc]
    cases scanFrom (position + utf8Length (cs.take n) + utf8Length (texts tokens)) rest <;> rfl

/-- A scan succeeds if its run reaches the end of the text. -/
theorem scanFrom_eq_ok_iff {position : Nat} {cs : List Char} {result : List Token} :
    scanFrom position cs = .ok result ↔
      ∃ tokens, Scans position cs tokens [] ∧
        result = tokens ++ [.endOfInput (position + utf8Length cs)] := by
  constructor
  · intro h
    obtain ⟨tokens, rest, hs, hr⟩ := exists_scans position cs
    have heq := hs.scanFrom_eq
    have htexts := hs.texts_append
    rcases rest with _ | ⟨c, rest⟩
    · rw [List.append_nil] at htexts
      rw [h, htexts, scanFrom] at heq
      exact ⟨tokens, hs, Except.ok.inj heq⟩
    · rw [h, scanFrom_stuck (hr.resolve_left (by simp))] at heq
      cases heq
  · rintro ⟨tokens, hs, rfl⟩
    have htexts := hs.texts_append
    rw [List.append_nil] at htexts
    rw [hs.scanFrom_eq, htexts, scanFrom]
    rfl

/-- A scan fails where its run is in front of a character that starts no token. -/
theorem scanFrom_eq_error_iff {position : Nat} {cs : List Char} {e : Error} :
    scanFrom position cs = .error e ↔
      ∃ tokens c rest, Scans position cs tokens (c :: rest) ∧ next? (c :: rest) = none ∧
        e = .unexpectedCharacter c (position + utf8Length (texts tokens)) := by
  constructor
  · intro h
    obtain ⟨tokens, rest, hs, hr⟩ := exists_scans position cs
    have heq := hs.scanFrom_eq
    rcases rest with _ | ⟨c, rest⟩
    · rw [h, scanFrom] at heq
      cases heq
    · have hnone := hr.resolve_left (by simp)
      rw [h, scanFrom_stuck hnone] at heq
      exact ⟨tokens, c, rest, hs, hnone, Except.error.inj heq⟩
  · rintro ⟨tokens, c, rest, hs, hnone, rfl⟩
    rw [hs.scanFrom_eq, scanFrom_stuck hnone]
    rfl

/-- The tokens that are kept of a source are those of a run to its end that are not whitespace. -/
theorem tokenize_eq_ok_iff {source : String} {tokens : List Token} :
    tokenize source = .ok tokens ↔ ∃ found, Scans 0 source.toList found [] ∧
      tokens = found.filter (·.kind != .whitespace) ++ [.endOfInput source.utf8ByteSize] := by
  have hfilter : ∀ found : List Token, ∀ n,
      (found ++ [endOfInput n]).filter (fun t => t.kind != .whitespace) =
        found.filter (·.kind != .whitespace) ++ [endOfInput n] :=
    fun found n => List.filter_append found [endOfInput n]
  rw [tokenize, scan]
  constructor
  · intro h
    cases hscan : scanFrom 0 source.toList with
    | error e => rw [hscan] at h; cases h
    | ok result =>
      rw [hscan] at h
      obtain ⟨found, hs, rfl⟩ := scanFrom_eq_ok_iff.mp hscan
      cases h
      exact ⟨found, hs, by rw [hfilter, Nat.zero_add, utf8Length_toList]⟩
  · rintro ⟨found, hs, rfl⟩
    rw [scanFrom_eq_ok_iff.mpr ⟨found, hs, rfl⟩, Nat.zero_add, utf8Length_toList, ← hfilter]
    rfl

end Token

end WorkflowCondition
