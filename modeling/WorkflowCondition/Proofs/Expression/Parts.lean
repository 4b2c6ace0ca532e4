import WorkflowCondition.Proofs.Expression.Recognition
import WorkflowCondition.Proofs.Token.Cover
import WorkflowCondition.Proofs.Token.Munch

/-!
# The parts of an expression and their tokens

`Expression.parts` are all literals in an expression, those inside calls among them. The texts that
they hold are texts of tokens, each of its kind (`Grammar.Derives.written`), so that what the scan
says about tokens says something about every parsed expression: `Expression.exists_derives_of_parse`
and `Token.Scans.exists_isMunch` lead from a source to the tokens of its expression.
-/

namespace WorkflowCondition

open Grammar Token

namespace Literal

mutual

/-- The literal and all literals inside it, a call before its arguments. -/
def parts : Literal → List Literal
  | .call name args => .call name args :: partsAll args
  | a => [a]

/-- The parts of the arguments, from left to right. -/
def partsAll : List Literal → List Literal
  | [] => []
  | arg :: args => arg.parts ++ partsAll args

end

end Literal

/-- All literals in an expression, in the order in which they are written. -/
def Expression.parts (e : Expression) : List Literal :=
  match e.rhs with
  | none => e.lhs.parts
  | some (_, rhs) => e.lhs.parts ++ rhs.parts

namespace Grammar

/-- The texts that a literal holds itself are texts of the tokens: of strings, of the names of calls
and of the heads and accessors of references. -/
inductive Written (u : List Token) : Literal → Prop
  | null : Written u .null
  | string {t : Token} (ht : t ∈ u) (hk : t.kind = .string) : Written u (.string t.text)
  | int (n : Int64) : Written u (.int n)
  | float (x : Binary64) : Written u (.float x)
  | bool (b : Bool) : Written u (.bool b)
  | call {t : Token} (ht : t ∈ u) (hk : t.kind = .identifier) (args : List Literal) :
      Written u (.call t.text args)
  | reference {t : Token} {accessors : List Token} (ht : t ∈ u) (hh : IsHead t)
      (ha : ∀ s ∈ accessors, s ∈ u ∧ s.kind = .accessor) :
      Written u (.reference t.text (accessors.map Token.text))

theorem Written.mono {u v : List Token} {a : Literal} (h : Written u a) (hsub : u ⊆ v) :
    Written v a := by
  cases h with
  | null => exact .null
  | string ht hk => exact .string (hsub ht) hk
  | int n => exact .int n
  | float x => exact .float x
  | bool b => exact .bool b
  | call ht hk args => exact .call (hsub ht) hk args
  | reference ht hh ha =>
    exact .reference (hsub ht) hh fun s hs => ⟨hsub (ha s hs).1, (ha s hs).2⟩

mutual

/-- By induction on the derivation: every part is made of tokens in it. -/
theorem DerivesLiteral.written : ∀ {u : List Token} {a : Literal}, DerivesLiteral u a →
    ∀ part ∈ a.parts, Written u part
  | _, _, .null _ => List.forall_mem_singleton.mpr .null
  | _, _, .string ht => List.forall_mem_singleton.mpr (.string List.mem_cons_self ht)
  | _, _, .integer _ _ => List.forall_mem_singleton.mpr (.int _)
  | _, _, .float _ _ => List.forall_mem_singleton.mpr (.float _)
  | _, _, .bool _ _ => List.forall_mem_singleton.mpr (.bool _)
  | _, _, .call hn _ hu _ =>
    List.forall_mem_cons.mpr ⟨.call List.mem_cons_self hn _, fun part hp =>
      (hu.written part hp).mono fun _ ht =>
        List.mem_cons_of_mem _ (List.mem_cons_of_mem _ (List.mem_append_left _ ht))⟩
  | _, _, .reference hh ha =>
    List.forall_mem_singleton.mpr (.reference List.mem_cons_self hh fun s hs =>
      ⟨List.mem_cons_of_mem _ hs, ha s hs⟩)

theorem DerivesArguments.written : ∀ {u : List Token} {args : List Literal},
    DerivesArguments u args → ∀ part ∈ Literal.partsAll args, Written u part
  | _, _, .none => by simp [Literal.partsAll]
  | _, _, .some _ hu hv =>
    List.forall_mem_append.mpr
      ⟨fun part hp => (hu.written part hp).mono (List.subset_append_left _ _),
      fun part hp => (hv.written part hp).mono (List.subset_append_right _ _)⟩

theorem DerivesMore.written : ∀ {u : List Token} {args : List Literal}, DerivesMore u args →
    ∀ part ∈ Literal.partsAll args, Written u part
  | _, _, .none => by simp [Literal.partsAll]
  | _, _, .some _ hu hv =>
    List.forall_mem_append.mpr
      ⟨fun part hp => (hu.written part hp).mono fun _ ht =>
          List.mem_cons_of_mem _ (List.mem_append_left _ ht),
        fun part hp => (hv.written part hp).mono fun _ ht =>
          List.mem_cons_of_mem _ (List.mem_append_right _ ht)⟩

end

theorem Derives.written {u : List Token} {e : Expression} (h : Derives u e) :
    ∀ part ∈ e.parts, Written u part := by
  cases h with
  | literal hu => exact hu.written
  | binary hu _ _ _ hv =>
    refine List.forall_mem_append.mpr ⟨fun part hp => ?_, fun part hp => ?_⟩
    · exact (hu.written part hp).mono (List.subset_append_left _ _)
    · exact (hv.written part hp).mono fun _ ht =>
        List.mem_append_right _ (List.mem_cons_of_mem _ ht)

end Grammar

/-! ## Sources -/

/-- What a scan has found is the longest token in front of something. -/
theorem Token.Scans.exists_isMunch {position : Nat} {cs rest : List Char} {tokens : List Token}
    (hs : Scans position cs tokens rest) :
    ∀ t ∈ tokens, ∃ r, IsMunch t.kind t.text.toList r := by
  intro t ht
  obtain ⟨before, after, rfl⟩ := List.append_of_mem ht
  obtain ⟨mid, n, h, htext, -, -⟩ := hs.found
  exact ⟨_, by rw [htext, String.toList_ofList]; exact isMunch_of_next? h⟩

namespace Expression

/-- The tokens of a source that stands for an expression derive it, its end left out. -/
theorem exists_derives_of_parse {source : String} {e : Expression} (h : parse source = .ok e) :
    ∃ found, Scans 0 source.toList found [] ∧ Derives (found.filter (·.kind != .whitespace)) e := by
  rw [parse] at h
  cases htokens : tokenize source with
  | error err => rw [htokens] at h; cases h
  | ok tokens =>
    rw [htokens] at h
    obtain ⟨found, hs, rfl⟩ := tokenize_eq_ok_iff.mp htokens
    have hderives := derives_of_ofTokens h
    have hend : AtEnd [endOfInput source.utf8ByteSize] := rfl
    rw [beforeEnd_append (fun t ht => (hs.content t (List.mem_filter.mp ht).1).1) hend] at hderives
    exact ⟨found, hs, hderives⟩

end Expression

end WorkflowCondition
