import Mathlib.Data.Set.Function
import WorkflowCondition.Evaluation
import WorkflowCondition.Proofs.Expression.Recognition
import WorkflowCondition.Proofs.Token.Cover
import WorkflowCondition.Proofs.Token.StringText

/-!
# String literals

What `quote` writes is one string token, the value of the token is the text that was written, and
all string tokens are written by `quote`. `quote_faithful` puts this together from the source to
the value and back.
-/

namespace WorkflowCondition

open scoped Computability

open Grammar

namespace Token

/-! ## Tokens of quoted texts -/

theorem scan_quote (s : String) :
    scan (quote s) = .ok [⟨.string, quote s, 0⟩, .endOfInput (quote s).utf8ByteSize] := by
  have hnext := next?_quote_append s (r := []) (by simp)
  rw [List.append_nil] at hnext
  have hs : Scans 0 (quote s).toList _ _ := .next hnext .refl
  rw [List.take_length, List.drop_length, String.ofList_toList] at hs
  refine scanFrom_eq_ok_iff.mpr ⟨_, hs, ?_⟩
  rw [Nat.zero_add, utf8Length_toList]
  rfl

theorem tokenize_quote (s : String) :
    tokenize (quote s) = .ok [⟨.string, quote s, 0⟩, .endOfInput (quote s).utf8ByteSize] := by
  rw [tokenize, scan_quote]
  rfl

/-- The texts of the string tokens of all sources. -/
def stringTexts : Set String :=
  {text | ∃ source tokens t, scan source = .ok tokens ∧ t ∈ tokens ∧ t.kind = .string ∧
    t.text = text}

/-- Every string token is the literal of some text. -/
theorem exists_quote_eq_of_mem_stringTexts {text : String} (h : text ∈ stringTexts) :
    ∃ s, quote s = text := by
  obtain ⟨source, result, t, hscan, ht, hk, rfl⟩ := h
  obtain ⟨tokens, hs, rfl⟩ := scanFrom_eq_ok_iff.mp hscan
  rcases List.mem_append.mp ht with ht | ht
  · obtain ⟨before, after, rfl⟩ := List.append_of_mem ht
    obtain ⟨mid, n, h, htext, -, -⟩ := hs.found
    rw [hk] at h
    obtain ⟨s, hs⟩ := mem_string_language_iff.mp (Kind.starts_language (next?_eq_some_iff.mp h).1).2
    refine ⟨s, ?_⟩
    rw [htext, hs, String.ofList_toList]
  · -- The end of input is no string.
    obtain rfl := List.mem_singleton.mp ht
    cases hk

theorem quote_mem_stringTexts (s : String) : quote s ∈ stringTexts :=
  ⟨quote s, _, _, scan_quote s, List.mem_cons_self, rfl, rfl⟩

/-- Different texts have different literals, as the text can be read off. -/
theorem quote_injective : Function.Injective quote :=
  Function.LeftInverse.injective unquote_quote

end Token

/-! ## Values -/

theorem Expression.parse_quote (s : String) :
    Expression.parse (quote s) = .ok ⟨.string (quote s), none⟩ := by
  rw [Expression.parse, Token.tokenize_quote]
  exact Expression.ofTokens_of_derives (.literal (.string rfl) (Nat.zero_le _))

theorem Literal.evaluate_string_quote (c : Context) (s : String) :
    (Literal.string (quote s)).evaluate c = .ok (.string s) := by
  rw [Literal.evaluate, unquote_quote]

/-- Every text has a literal, which is found as one token and has the text as its value; every
string token is the literal of a text, which is its value; so texts and string tokens are in
bijection. -/
theorem quote_faithful :
    (∀ s : String,
      Token.tokenize (quote s) =
        .ok [⟨.string, quote s, 0⟩, .endOfInput (quote s).utf8ByteSize] ∧
      ∀ c : Context, evaluate (quote s) c = .ok (.string s)) ∧
    (∀ (source : String) (tokens : List Token) (t : Token), Token.scan source = .ok tokens →
      t ∈ tokens → t.kind = .string →
      ∃ s, quote s = t.text ∧ ∀ c : Context, (Literal.string t.text).evaluate c = .ok (.string s)) ∧
    Set.BijOn quote Set.univ Token.stringTexts := by
  refine ⟨fun s => ⟨Token.tokenize_quote s, fun c => ?_⟩, fun source tokens t hscan ht hk => ?_,
    fun s _ => Token.quote_mem_stringTexts s, Token.quote_injective.injOn, fun text h => ?_⟩
  · rw [evaluate, Expression.parse_quote]
    simp only [Expression.evaluate, Literal.evaluate_string_quote]
  · obtain ⟨s, hs⟩ :=
      Token.exists_quote_eq_of_mem_stringTexts ⟨source, tokens, t, hscan, ht, hk, rfl⟩
    refine ⟨s, hs, fun c => ?_⟩
    rw [← hs, Literal.evaluate_string_quote]
  · obtain ⟨s, rfl⟩ := Token.exists_quote_eq_of_mem_stringTexts h
    exact ⟨s, Set.mem_univ s, rfl⟩

end WorkflowCondition
