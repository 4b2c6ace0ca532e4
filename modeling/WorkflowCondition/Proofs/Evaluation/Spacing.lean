import WorkflowCondition.Evaluation
import WorkflowCondition.Proofs.Expression.Relocation

/-!
# Blanks between tokens

Blanks separate tokens and have no other meaning. `evaluate_respaced`: a source can be written anew
with any blanks around its tokens, and it keeps its tokens, its expression and its values, and also
its error. That blanks keep the tokens is a matter of the scan alone (`Token.Respaced.tokenize`);
the parser then sees the same tokens at other positions (`Expression.ofTokens_relocate`).
-/

namespace WorkflowCondition

open Grammar Token

/-- Two errors of one kind at the tokens that have one index in two lists. The messages differ in
the position alone. -/
inductive SameFault (tokens tokens' : List Token) : Error → Error → Prop
  | unexpectedToken {i : Nat} {t t' : Token} (expected : Expected) (ht : tokens[i]? = some t)
      (ht' : tokens'[i]? = some t') (hd : t'.describe = t.describe) :
      SameFault tokens tokens' (.unexpectedToken expected t) (.unexpectedToken expected t')
  | unsupported {i : Nat} {t t' : Token} (ht : tokens[i]? = some t) (ht' : tokens'[i]? = some t')
      (hx : t'.text = t.text) : SameFault tokens tokens' (.unsupported t) (.unsupported t')

/-- The error is the same one, at the token with the same number. -/
theorem sameFault_relocate {tokens : List Token} {err : Error} (g : Nat → Nat)
    (hend : ∃ t ∈ tokens, t.kind = .endOfInput) (h : Expression.ofTokens tokens = .error err) :
    SameFault tokens (tokens.map (Token.relocate g)) err (err.relocate g) := by
  obtain ⟨before, t, after, rfl, hfails⟩ := Expression.exists_fails_of_ofTokens hend h
  have ht : (before ++ t :: after)[before.length]? = some t := by simp
  have ht' : ((before ++ t :: after).map (Token.relocate g))[before.length]? =
      some (t.relocate g) := by
    rw [List.getElem?_map, ht]
    rfl
  rcases hfails.found with ⟨expected, rfl⟩ | ⟨rfl, -⟩
  · exact .unexpectedToken expected ht ht' rfl
  · exact .unsupported ht ht' rfl

/-- Spacing does not matter: what is written with the tokens of a source and blanks between them has
the same tokens, and it is the same expression with the same values or has the same error. -/
theorem evaluate_respaced {source source' : String} {content : List Token} {n : Nat}
    (h : tokenize source = .ok (content ++ [.endOfInput n])) (hs : Respaced content source') :
    ∃ content' n', tokenize source' = .ok (content' ++ [.endOfInput n']) ∧
      content'.map entry = content.map entry ∧
      (∀ e, Expression.parse source = .ok e → Expression.parse source' = .ok e ∧
        ∀ c : Context, evaluate source' c = evaluate source c) ∧
      ∀ err, Expression.parse source = .error err → ∃ err', Expression.parse source' = .error err' ∧
        SameFault (content ++ [.endOfInput n]) (content' ++ [.endOfInput n']) err err' := by
  obtain ⟨content', h', hentry⟩ := hs.tokenize (isSpaceable_of_tokenize h)
  have hentries : (content' ++ [endOfInput source'.utf8ByteSize]).map entry =
      (content ++ [endOfInput n]).map entry := by
    rw [List.map_append, hentry, List.map_append]
    rfl
  obtain ⟨g, hg⟩ := exists_relocate hentries (increasing_of_tokenize h)
  have hend : ∃ t ∈ content ++ [endOfInput n], t.kind = .endOfInput :=
    ⟨_, List.mem_append_right _ (List.mem_singleton_self _), rfl⟩
  have hparse : Expression.parse source = Expression.ofTokens (content ++ [endOfInput n]) := by
    rw [Expression.parse, h]
  have hparse' : Expression.parse source' =
      (Expression.parse source).mapError (Error.relocate g) := by
    rw [hparse, ← Expression.ofTokens_relocate g hend, Expression.parse, h', ← hg]
  refine ⟨content', _, h', hentry, fun e he => ?_, fun err herr => ?_⟩
  · have he' : Expression.parse source' = .ok e := by rw [hparse', he]; rfl
    refine ⟨he', fun c => ?_⟩
    rw [evaluate, evaluate, he, he']
  · refine ⟨err.relocate g, by rw [hparse', herr]; rfl, ?_⟩
    rw [hg]
    exact sameFault_relocate g hend (hparse ▸ herr)

/-- An accessor can stand apart from the head of its reference, and a tab is a blank. -/
theorem evaluate_respaced_reference :
    tokenize "env.a=='b'" = .ok ([⟨.root, "env", 0⟩, ⟨.accessor, ".a", 3⟩, ⟨.operator, "==", 5⟩,
        ⟨.string, "'b'", 7⟩] ++ [.endOfInput 10]) ∧
      Respaced [⟨.root, "env", 0⟩, ⟨.accessor, ".a", 3⟩, ⟨.operator, "==", 5⟩,
        ⟨.string, "'b'", 7⟩] " env .a\t==  'b'" ∧
      Expression.parse "env.a=='b'" =
        .ok ⟨.reference "env" [".a"], some (.eq, .string "'b'")⟩ ∧
      ∀ c : Context, evaluate " env .a\t==  'b'" c = evaluate "env.a=='b'" c := by
  have hscan : Scans 0 "env.a=='b'".toList [⟨.root, "env", 0⟩, ⟨.accessor, ".a", 3⟩,
      ⟨.operator, "==", 5⟩, ⟨.string, "'b'", 7⟩] [] :=
    .next (n := 3) (by decide) (.next (n := 2) (by decide) (.next (n := 2) (by decide)
      (.next (n := 3) (by decide) .refl)))
  have h := tokenize_eq_ok_iff.mpr ⟨_, hscan, rfl⟩
  have hs : Respaced [⟨.root, "env", 0⟩, ⟨.accessor, ".a", 3⟩, ⟨.operator, "==", 5⟩,
      ⟨.string, "'b'", 7⟩] " env .a\t==  'b'" :=
    ⟨[' '], _, [], rfl, forall_mem_of_all (by decide), forall_mem_of_all (by decide),
      @Joined.cons _ _ _ [' '] _ (by decide) (forall_mem_of_all (by decide))
        (@Joined.cons _ _ _ ['\t'] _ (by decide) (forall_mem_of_all (by decide))
          (@Joined.cons _ _ _ [' ', ' '] _ (by decide) (forall_mem_of_all (by decide))
            (.single _)))⟩
  have he : Expression.parse "env.a=='b'" =
      .ok ⟨.reference "env" [".a"], some (.eq, .string "'b'")⟩ := by
    rw [Expression.parse, h]
    rfl
  obtain ⟨_, _, -, -, hok, -⟩ := evaluate_respaced h hs
  exact ⟨h, hs, he, (hok _ he).2⟩

end WorkflowCondition
