import WorkflowCondition.Proofs.Expression.Rejection
import WorkflowCondition.Proofs.Token.Separation

/-!
# Positions of tokens

The parser looks at the kinds and the texts of tokens. Where they lie matters for nothing but the
position that an error has: `Expression.ofTokens_relocate`. The grammar has no word about positions,
and so all its relations go over to relocated tokens (`Grammar.Derives.relocate`,
`Grammar.Fails.relocate`).
-/

namespace WorkflowCondition

open Grammar

variable (g : Nat → Nat)

/-- The token at another position. -/
def Token.relocate (t : Token) : Token :=
  { t with position := g t.position }

/-- The error of a parser at another position. -/
def Error.relocate : Error → Error
  | .unexpectedToken expected found => .unexpectedToken expected (found.relocate g)
  | .unsupported found => .unsupported (found.relocate g)
  | e => e

namespace Token

/-- Tokens with the same kinds and texts differ by a relocation, if no two of them lie together. -/
theorem exists_relocate {tokens tokens' : List Token}
    (h : tokens'.map entry = tokens.map entry)
    (hinj : tokens.Pairwise fun s t => s.position < t.position) :
    ∃ g, tokens' = tokens.map (relocate g) := by
  induction tokens generalizing tokens' with
  | nil => exact ⟨id, List.map_eq_nil_iff.mp h⟩
  | cons t tokens ih =>
    obtain ⟨hlt, hpair⟩ := List.pairwise_cons.mp hinj
    obtain ⟨t', tokens', rfl, ht, hrest⟩ := List.map_eq_cons_iff.mp h
    obtain ⟨g, rfl⟩ := ih hrest hpair
    refine ⟨Function.update g t.position t'.position, List.cons_eq_cons.mpr ⟨?_, ?_⟩⟩
    · obtain ⟨hk, hx⟩ := Prod.mk.inj ht
      rw [relocate, Function.update_self, ← hk, ← hx]
    · refine List.map_congr_left fun s hs => ?_
      rw [relocate, relocate, Function.update_of_ne (hlt s hs).ne']

end Token

open Token

namespace Grammar

/-! ## Derivations -/

theorem IsHead.relocate {t : Token} (h : IsHead t) : IsHead (t.relocate g) :=
  h

mutual

/-- No rule of the grammar looks at positions. -/
theorem DerivesLiteral.relocate : ∀ {u : List Token} {a : Literal}, DerivesLiteral u a →
    DerivesLiteral (u.map (Token.relocate g)) a
  | _, _, .null ht => .null (t := Token.relocate g _) ht
  | _, _, .string ht => .string (t := Token.relocate g _) ht
  | _, _, .integer ht hn => .integer (t := Token.relocate g _) ht hn
  | _, _, .float ht hx => .float (t := Token.relocate g _) ht hx
  | _, _, .bool ht hb => .bool (t := Token.relocate g _) ht hb
  | _, _, @DerivesLiteral.call name opening closing u args hn ho hu hc => by
    have hcall : DerivesLiteral (name.relocate g :: opening.relocate g ::
        (u.map (Token.relocate g) ++ [closing.relocate g])) (.call name.text args) :=
      .call hn ho hu.relocate hc
    simpa using hcall
  | _, _, @DerivesLiteral.reference head accessors hh ha => by
    have hacc : ∀ t ∈ accessors.map (Token.relocate g), t.kind = .accessor :=
      List.forall_mem_map.mpr ha
    have hreference := DerivesLiteral.reference (hh.relocate g) hacc
    rw [List.map_map] at hreference
    exact hreference

theorem DerivesArguments.relocate : ∀ {u : List Token} {args : List Literal},
    DerivesArguments u args → DerivesArguments (u.map (Token.relocate g)) args
  | _, _, .none => .none
  | _, _, .some ht hu hv => by
    have hargs := DerivesArguments.some (t := Token.relocate g _) ht hu.relocate hv.relocate
    simpa using hargs

theorem DerivesMore.relocate : ∀ {u : List Token} {args : List Literal}, DerivesMore u args →
    DerivesMore (u.map (Token.relocate g)) args
  | _, _, .none => .none
  | _, _, @DerivesMore.some comma u v arg args hc hu hv => by
    have hmore : DerivesMore (comma.relocate g :: (u.map (Token.relocate g) ++
        v.map (Token.relocate g))) (arg :: args) :=
      .some hc hu.relocate hv.relocate
    simpa using hmore

end

theorem Derives.relocate {u : List Token} {e : Expression} (h : Derives u e) :
    Derives (u.map (Token.relocate g)) e := by
  cases h with
  | literal hu ha => exact .literal (hu.relocate g) ha
  | binary hu ha ht ho hv hb =>
    rw [List.map_append, List.map_cons]
    exact .binary (hu.relocate g) ha ht ho (hv.relocate g) hb

/-! ## Failures -/

theorem Stops.relocate {u : List Token} {a : Literal} {t : Token} (h : Stops u a t) :
    Stops (u.map (Token.relocate g)) a (t.relocate g) := by
  intro head accessors ha
  obtain ⟨hk, hopen⟩ := h head accessors ha
  exact ⟨hk, fun hnil => List.forall_mem_map.mpr (hopen hnil)⟩

theorem Refused.relocate {n : Nat} {t : Token} {called : Bool} {e : Error}
    (h : Refused n t called e) : Refused n (t.relocate g) called (e.relocate g) := by
  cases h with
  | integer ht hn => exact .integer ht hn
  | float ht hx => exact .float ht hx
  | nesting ht hc hn => exact .nesting ht hc hn
  | mark ht hc hh => exact .mark ht hc hh
  | not ht => exact .not ht
  | other ht => exact .other ht

theorem Precedes.relocate {t : Token} {n : Nat} {v : List Token} (h : Precedes t n v) :
    Precedes (t.relocate g) n (v.map (Token.relocate g)) := by
  cases h with
  | first ht => exact .first ht
  | later hv hne hd hc =>
    rw [List.map_append]
    exact .later (hv.relocate g) hne hd hc

theorem headD_map (u : List Token) (t : Token) :
    (u.map (Token.relocate g)).headD (t.relocate g) = (u.headD t).relocate g := by
  cases u <;> rfl

theorem Opens.relocate {t : Token} {k n : Nat} {u : List Token} (h : Opens t k n u) :
    Opens (t.relocate g) k n (u.map (Token.relocate g)) := by
  induction h with
  | here => exact .here
  | @call k n name opening u v hn ho hk hv hu ih =>
    have hplace := hv.relocate g
    rw [← headD_map] at hplace
    have hcall : Opens (t.relocate g) k n (name.relocate g :: opening.relocate g ::
        (v.map (Token.relocate g) ++ u.map (Token.relocate g))) :=
      .call hn ho hk hplace ih
    simpa using hcall

theorem FailsLiteral.relocate {k : Nat} {u : List Token} {t : Token} {called : Bool} {e : Error}
    (h : FailsLiteral k u t called e) :
    FailsLiteral k (u.map (Token.relocate g)) (t.relocate g) called (e.relocate g) := by
  cases h with
  | refused hu h => exact .refused (hu.relocate g) (h.relocate g)
  | unclosed hu hk hw hd hs hcomma hclose =>
    rw [List.map_append]
    exact .unclosed (hu.relocate g) hk (hw.relocate g) hd (hs.relocate g) hcomma hclose

theorem Fails.relocate {u : List Token} {t : Token} {called : Bool} {e : Error}
    (h : Fails u t called e) :
    Fails (u.map (Token.relocate g)) (t.relocate g) called (e.relocate g) := by
  cases h with
  | lhs h => exact .lhs (h.relocate g)
  | operator hu ha ht ho => exact .operator (t := t.relocate g) (hu.relocate g) ha ht ho
  | lhsEnd hu ha hs ht he => exact .lhsEnd (hu.relocate g) ha (hs.relocate g) ht he
  | rhs hu ha ht ho h =>
    rw [List.map_append, List.map_cons]
    exact .rhs (hu.relocate g) ha ht ho (h.relocate g)
  | rhsEnd hu ha ht ho hv hb hs he =>
    rw [List.map_append, List.map_cons]
    exact .rhsEnd (hu.relocate g) ha ht ho (hv.relocate g) hb (hs.relocate g) he

theorem beforeEnd_relocate (tokens : List Token) :
    beforeEnd (tokens.map (Token.relocate g)) = (beforeEnd tokens).map (Token.relocate g) := by
  rw [beforeEnd, List.takeWhile_map]
  rfl

end Grammar

namespace Expression

/-- Relocated tokens stand for the same expression, or have the same error at its new position. -/
theorem ofTokens_relocate {tokens : List Token} (hend : ∃ t ∈ tokens, t.kind = .endOfInput) :
    ofTokens (tokens.map (Token.relocate g)) =
      (ofTokens tokens).mapError (Error.relocate g) := by
  cases h : ofTokens tokens with
  | ok e =>
    have hderives := (derives_of_ofTokens h).relocate g
    rw [← beforeEnd_relocate] at hderives
    exact ofTokens_of_derives hderives
  | error err =>
    obtain ⟨before, t, after, rfl, hfails⟩ := exists_fails_of_ofTokens hend h
    have hsecond : ((after.map (Token.relocate g)).headD Parser.pastEnd).isPunct "(" =
        (after.headD Parser.pastEnd).isPunct "(" := by
      cases after <;> rfl
    rw [List.map_append, List.map_cons]
    refine ofTokens_of_fails ?_
    rw [hsecond]
    exact hfails.relocate g

/-- Tokens that are accepted at other places are accepted at their own. -/
theorem ofTokens_of_relocate {tokens : List Token} {e : Expression}
    (hend : ∃ t ∈ tokens, t.kind = .endOfInput)
    (h : ofTokens (tokens.map (Token.relocate g)) = .ok e) : ofTokens tokens = .ok e := by
  rw [ofTokens_relocate g hend] at h
  cases hx : ofTokens tokens with
  | ok x => rw [hx] at h; exact h
  | error err => rw [hx] at h; cases h

end Expression

end WorkflowCondition
