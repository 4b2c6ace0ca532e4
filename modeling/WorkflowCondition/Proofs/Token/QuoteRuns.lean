import Mathlib.Algebra.Ring.Parity
import WorkflowCondition.Proofs.Token.Quotes

/-!
# Runs of quotes

Between the quotes of a string every quote is doubled, so that quotes in a row are even in number
there (`EvenRuns`), and this is all that is asked of the text between them
(`mem_quoted_of_evenRuns`, `evenRuns_of_mem_quoted`). A string therefore ends with the first run of
quotes behind its opening one that is odd in number (`Token.endsAtOddRun_of_next?`), and a quote
opens no string where all runs behind it are even (`Token.evenRuns_of_next?_eq_none`).
-/

namespace WorkflowCondition

open Token

/-- Wherever single quotes stand in a row, they are even in number. -/
def EvenRuns (cs : List Char) : Prop :=
  ∀ before n after, cs = before ++ (List.replicate n '\'' ++ after) →
    before.getLast? ≠ some '\'' → after.head? ≠ some '\'' → Even n

/-- A character that is no quote ends a run, so that those behind it stay what they are. -/
theorem EvenRuns.tail {c : Char} {v : List Char} (h : EvenRuns (c :: v)) (hc : c ≠ '\'') :
    EvenRuns v := by
  rintro before n after rfl hb ha
  refine h (c :: before) n after rfl ?_ ha
  cases before with
  | nil => simpa using hc
  | cons d before => rwa [List.getLast?_cons_cons]

theorem EvenRuns.pair {v : List Char} (h : EvenRuns ('\'' :: '\'' :: v)) : EvenRuns v := by
  rintro before n after rfl hb ha
  cases before with
  | nil => exact (Nat.even_add.mp (h [] (n + 2) after rfl (by simp) ha)).mpr ⟨1, rfl⟩
  | cons d before =>
    refine h ('\'' :: '\'' :: d :: before) n after rfl ?_ ha
    rwa [List.getLast?_cons_cons, List.getLast?_cons_cons]

/-- Even runs are pairs of quotes, by induction along the merging of pairs. -/
theorem mem_quoted_of_evenRuns {cs : List Char} (h : EvenRuns cs) : cs ∈ quoted := by
  fun_induction mergeQuotes cs with
  | case1 rest ih => exact append_mem_quoted (u := ['\'', '\'']) (.inr rfl) (ih h.pair)
  | case2 c rest hpair ih =>
    by_cases hc : c = '\''
    · subst hc
      have hodd : Even 1 := by
        refine h [] 1 rest rfl (by simp) fun hq => ?_
        obtain ⟨r, rfl⟩ := List.head?_eq_some_iff.mp hq
        exact hpair r rfl rfl
      exact absurd hodd (by decide)
    · exact append_mem_quoted (u := [c]) (.inl ⟨c, decide_eq_true hc, rfl⟩) (ih (h.tail hc))
  | case3 => exact Language.nil_mem_kstar _

/-- A run of quotes starts behind an even number of quotes, since behind an odd number comes another
one, and ends likewise. -/
theorem evenRuns_of_mem_quoted {cs : List Char} (h : cs ∈ quoted) : EvenRuns cs := by
  rintro before n after rfl hb ha
  obtain ⟨heven, hodd⟩ := quote_of_mem_quoted h
  have hbefore : Even (before.count '\'') := by
    by_contra hcount
    rcases List.eq_nil_or_concat' before with rfl | ⟨init, d, rfl⟩
    · exact hcount ⟨0, rfl⟩
    · have hd : d ≠ '\'' := by simpa using hb
      rw [List.count_append, List.count_singleton, if_neg (by simpa using hd)] at hcount
      exact hd (hodd init d (List.replicate n '\'' ++ after) (by simp) hcount)
  by_contra hn
  have hrun : ¬ Even ((before ++ List.replicate n '\'').count '\'') := by
    rw [List.count_append, List.count_replicate_self, Nat.even_add]
    exact fun hiff => hn (hiff.mp hbefore)
  cases after with
  | nil => exact hrun (by simpa using heven)
  | cons d after =>
    exact ha (congrArg some (hodd (before ++ List.replicate n '\'') d after (by simp) hrun))

/-- The quotes at the end of a text, and what is in front of them. -/
theorem exists_trailing_quotes (cs : List Char) :
    ∃ body k, cs = body ++ List.replicate k '\'' ∧ body.getLast? ≠ some '\'' := by
  induction cs using List.reverseRecOn with
  | nil => exact ⟨[], 0, rfl, by simp⟩
  | append_singleton cs c ih =>
    by_cases hc : c = '\''
    · obtain ⟨body, k, rfl, hbody⟩ := ih
      refine ⟨body, k + 1, ?_, hbody⟩
      rw [List.replicate_succ', hc, List.append_assoc]
    · exact ⟨cs ++ [c], 0, (List.append_nil _).symm, by simpa using hc⟩

/-- The quotes at the end of a text are one run. -/
theorem EvenRuns.of_append_quotes {body : List Char} {k : Nat}
    (h : EvenRuns (body ++ List.replicate k '\'')) (hbody : body.getLast? ≠ some '\'') :
    EvenRuns body ∧ Even k := by
  refine ⟨?_, h body k [] (by simp) hbody (by simp)⟩
  rintro before n after rfl hb ha
  cases after with
  | nil =>
    cases n with
    | zero => exact Even.zero
    | succ n =>
      refine absurd ?_ hbody
      rw [List.append_nil, List.replicate_succ', ← List.append_assoc, List.getLast?_concat]
  | cons d after =>
    exact h before n (d :: after ++ List.replicate k '\'') (by simp) hb ha

namespace Token

/-- The text opens with a quote and ends with the first run of quotes behind it that is odd in
number; `rest` is what follows the text. -/
def EndsAtOddRun (text rest : List Char) : Prop :=
  ∃ body n, text = '\'' :: (body ++ List.replicate n '\'') ∧ Odd n ∧ EvenRuns body ∧
    body.getLast? ≠ some '\'' ∧ rest.head? ≠ some '\''

/-- What closes a string is not followed by a quote. -/
theorem head?_drop_of_closingLength? {cs : List Char} {n : Nat} (h : closingLength? cs = some n) :
    (cs.drop n).head? ≠ some '\'' := by
  fun_induction closingLength? cs generalizing n with
  | case1 => cases h
  | case2 rest ih =>
    obtain ⟨m, hm, rfl⟩ := Option.map_eq_some_iff.mp h
    exact ih hm
  | case3 rest hpair =>
    cases h
    intro hq
    obtain ⟨r, hr⟩ := List.head?_eq_some_iff.mp hq
    exact hpair r rfl hr
  | case4 c rest _ _ ih =>
    obtain ⟨m, hm, rfl⟩ := Option.map_eq_some_iff.mp h
    exact ih hm

/-- Inside a string the runs are even, and with the quote that closes it the last one is odd. -/
theorem endsAtOddRun_of_mem {w r : List Char} (hw : w ∈ Kind.string.language)
    (hr : r.head? ≠ some '\'') : EndsAtOddRun w r := by
  obtain ⟨_, rfl, v, hv, rfl⟩ := Language.mem_mul.mp hw
  obtain ⟨u, hu, _, rfl, rfl⟩ := Language.mem_mul.mp hv
  obtain ⟨body, k, rfl, hbody⟩ := exists_trailing_quotes u
  obtain ⟨heven, hk⟩ := (evenRuns_of_mem_quoted hu).of_append_quotes hbody
  refine ⟨body, k + 1, ?_, hk.add_one, heven, hbody, hr⟩
  rw [List.replicate_succ', List.append_assoc]
  rfl

/-- A string goes up to the end of the first run of quotes that does not come in pairs. -/
theorem endsAtOddRun_of_next? {cs : List Char} {n : Nat} (h : next? cs = some (.string, n)) :
    EndsAtOddRun (cs.take n) (cs.drop n) := by
  obtain ⟨hk, -⟩ := next?_eq_some_iff.mp h
  refine endsAtOddRun_of_mem (Kind.starts_language hk).2 ?_
  have hs : stringLength? cs = some n := hk
  unfold stringLength? at hs
  split at hs
  case h_1 r =>
    obtain ⟨m, hm, rfl⟩ := Option.map_eq_some_iff.mp hs
    have hrest := head?_drop_of_closingLength? hm
    exact hrest
  case h_2 => cases hs

/-- Where a quote opens no string, the quotes behind it come in pairs. -/
theorem evenRuns_of_next?_eq_none {r : List Char} (h : next? ('\'' :: r) = none) : EvenRuns r := by
  have hs : Kind.string.length? ('\'' :: r) = none := by
    by_contra hne
    obtain ⟨n, hn⟩ := Option.ne_none_iff_exists'.mp hne
    have hsome := next?_isSome .string hn
    rw [h] at hsome
    cases hsome
  exact evenRuns_of_mem_quoted (mem_quoted_of_closingLength? (Option.map_eq_none_iff.mp hs))

end Token

end WorkflowCondition
