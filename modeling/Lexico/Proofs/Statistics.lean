import Lexico.Analysis
import Lexico.Statistics
import Mathlib.Algebra.GroupWithZero.Nat
import Mathlib.Data.List.Basic

/-!
# What statistics count

The number found for a kind in the one pass is the number of tokens of that kind (`count_ofTokens`),
and the tokens whose kinds have something in common are counted kind by kind (`sum_count_filter`).
All other numbers are sums of such counts, so the numbers of two lists in a row are added up. The
last tokens of two lists in a row are those of the second list, and as many of the first as are
still missing.
-/

namespace Lexico.Statistics

/-! ### Counts -/

/-- The tally is kept as the tokens go by. -/
theorem getD_foldl_insert (tokens : List Token) (counts : Std.HashMap Kind Nat) (k : Kind) :
    (tokens.foldl (fun counts t => counts.insert t.kind (counts.getD t.kind 0 + 1)) counts).getD
      k 0 = counts.getD k 0 + tokens.countP (·.kind = k) := by
  induction tokens generalizing counts with
  | nil => rfl
  | cons t tokens ih =>
    rw [List.foldl_cons, ih, Std.HashMap.getD_insert, List.countP_cons]
    by_cases hk : t.kind = k
    · subst hk
      simp only [beq_self_eq_true, if_true, decide_true]
      omega
    · simp [hk]

/-- **A count** is the number of tokens of the kind. -/
theorem count_ofTokens (tokens : List Token) (k : Kind) :
    (ofTokens tokens).count k = tokens.countP (·.kind = k) := by
  show (tally tokens).getD k 0 = _
  rw [tally, getD_foldl_insert, Std.HashMap.getD_empty, Nat.zero_add]

/-- Tokens of any of the kinds are counted kind by kind. -/
theorem sum_countP {kinds : List Kind} (h : kinds.Nodup) (tokens : List Token) :
    (kinds.map fun k => tokens.countP (·.kind = k)).sum = tokens.countP (·.kind ∈ kinds) := by
  induction kinds with
  | nil => simp
  | cons k kinds ih =>
    obtain ⟨hk, hkinds⟩ := List.nodup_cons.mp h
    rw [List.map_cons, List.sum_cons, ih hkinds,
      List.countP_eq_countP_filter_add tokens (·.kind ∈ k :: kinds) (·.kind = k),
      List.countP_filter, List.countP_filter]
    -- A token of the kind `k` is of none of the other kinds.
    congr 1
    · apply List.countP_congr
      intro t _
      simp +contextual
    · apply List.countP_congr
      intro t _
      have hne : t.kind ∈ kinds → t.kind ≠ k := fun hmem heq => hk (heq ▸ hmem)
      simp +contextual [or_and_right, hne]

/-- Tokens whose kinds have something in common are counted kind by kind. -/
theorem sum_count_filter (p : Kind → Bool) (tokens : List Token) :
    ((Kind.all.filter p).map (ofTokens tokens).count).sum = tokens.countP fun t => p t.kind := by
  rw [funext (count_ofTokens tokens), sum_countP (Kind.nodup_all.filter p)]
  simp [Kind.mem_all]

/-- Every token is counted. -/
theorem sum_count (tokens : List Token) :
    (Kind.all.map (ofTokens tokens).count).sum = tokens.length := by
  have hall := sum_count_filter (fun _ => true) tokens
  rwa [List.filter_true, List.countP_true] at hall

/-! ### The last tokens -/

theorem recent_ofTokens (tokens : List Token) :
    (ofTokens tokens).recent = tokens.drop (tokens.length - recentCount) := rfl

theorem length_recent (tokens : List Token) :
    (ofTokens tokens).recent.length = min recentCount tokens.length := by
  rw [recent_ofTokens, List.length_drop]
  omega

/-- What is no longer among the last tokens does not come back. -/
theorem recent_append (a b : List Token) :
    (ofTokens (a ++ b)).recent = (ofTokens ((ofTokens a).recent ++ b)).recent := by
  have hlen := length_recent a
  rw [recent_ofTokens (a ++ b), recent_ofTokens (_ ++ b), List.drop_append, List.drop_append,
    List.length_append, List.length_append]
  congr 1
  · rw [recent_ofTokens, List.drop_drop, ← recent_ofTokens, hlen]
    congr 1
    omega
  · rw [hlen]
    congr 1
    omega

/-! ### Comments left out -/

/-- Without comments, the other kinds are counted as before. -/
theorem count_withoutComments (a : Analysis) (k : Kind) :
    (ofTokens a.withoutComments).count k =
      if k.isComment then 0 else (ofTokens a.tokens).count k := by
  rw [count_ofTokens, count_ofTokens, Analysis.withoutComments, List.countP_filter]
  split
  · next hk =>
    rw [List.countP_eq_zero]
    rintro t _ ht
    simp only [Bool.and_eq_true, decide_eq_true_eq] at ht
    rw [ht.1, hk] at ht
    simp at ht
  · next hk =>
    apply List.countP_congr
    intro t _
    simp +contextual [hk]

/-- Comments are all that is left out. -/
theorem length_withoutComments (a : Analysis) :
    a.withoutComments.length + (ofTokens a.tokens).count .lineComment +
      (ofTokens a.tokens).count .blockComment = a.tokens.length := by
  have hcomments := sum_count_filter Kind.isComment a.tokens
  have hkinds : Kind.all.filter Kind.isComment = [.lineComment, .blockComment] := by decide
  rw [hkinds, List.map_cons, List.map_singleton, List.sum_cons, List.sum_singleton,
    List.countP_eq_length_filter] at hcomments
  have hsplit := List.length_eq_length_filter_add (l := a.tokens) fun t => t.kind.isComment
  rw [Analysis.withoutComments]
  omega

/-! ### All numbers -/

/-- The numbers describe the tokens and agree with each other. -/
structure Describes (s : Statistics) (tokens : List Token) : Prop where
  count_eq : ∀ k, s.count k = tokens.countP (·.kind = k)
  total_eq : s.total = tokens.length
  sum_count : (Kind.all.map s.count).sum = s.total
  reservedWords_eq : s.reservedWords = s.count .reservedWord
  identifiers_eq : s.identifiers = s.count .identifier
  numbers_eq : s.numbers = s.count .integerLiteral + s.count .decimalLiteral
  operators_eq : s.operators = ((Kind.all.filter Kind.isOperator).map s.count).sum
  recent_isSuffix : s.recent <:+ tokens
  length_recent : s.recent.length = min 5 tokens.length

/-- Every number of `s` is the sum of those of `s₁` and `s₂`. -/
structure IsSum (s s₁ s₂ : Statistics) : Prop where
  count_eq : ∀ k, s.count k = s₁.count k + s₂.count k
  total_eq : s.total = s₁.total + s₂.total
  reservedWords_eq : s.reservedWords = s₁.reservedWords + s₂.reservedWords
  identifiers_eq : s.identifiers = s₁.identifiers + s₂.identifiers
  numbers_eq : s.numbers = s₁.numbers + s₂.numbers
  operators_eq : s.operators = s₁.operators + s₂.operators

theorem describes_ofTokens (tokens : List Token) : (ofTokens tokens).Describes tokens where
  count_eq := count_ofTokens tokens
  total_eq := rfl
  sum_count := sum_count tokens
  reservedWords_eq := rfl
  identifiers_eq := rfl
  numbers_eq := rfl
  operators_eq := (sum_count_filter Kind.isOperator tokens).symm
  recent_isSuffix := List.drop_suffix _ _
  length_recent := length_recent tokens

theorem isSum_append (a b : List Token) :
    (ofTokens (a ++ b)).IsSum (ofTokens a) (ofTokens b) := by
  have hcount (k : Kind) :
      (ofTokens (a ++ b)).count k = (ofTokens a).count k + (ofTokens b).count k := by
    rw [count_ofTokens, count_ofTokens, count_ofTokens, List.countP_append]
  refine ⟨hcount, List.length_append, hcount _, hcount _, ?_, List.countP_append⟩
  have hab := describes_ofTokens (a ++ b)
  have ha := describes_ofTokens a
  have hb := describes_ofTokens b
  rw [hab.numbers_eq, ha.numbers_eq, hb.numbers_eq, hcount, hcount]
  omega

/-- **Statistics agree** with the tokens and with each other. Those of two lists in a row are added
up, and the last tokens are found from the last tokens of the first list; leaving out the comments
changes nothing but the numbers of comments and the total. -/
theorem ofTokens_agree :
    (∀ tokens, (ofTokens tokens).Describes tokens) ∧
    (∀ a b, (ofTokens (a ++ b)).IsSum (ofTokens a) (ofTokens b) ∧
      (ofTokens (a ++ b)).recent = (ofTokens ((ofTokens a).recent ++ b)).recent) ∧
    ∀ a : Analysis,
      (∀ k, (ofTokens a.withoutComments).count k =
        if k = .lineComment ∨ k = .blockComment then 0 else (ofTokens a.tokens).count k) ∧
      (ofTokens a.withoutComments).total + (ofTokens a.tokens).count .lineComment +
        (ofTokens a.tokens).count .blockComment = (ofTokens a.tokens).total := by
  refine ⟨describes_ofTokens, ?_, ?_⟩
  · intro a b
    exact ⟨isSum_append a b, recent_append a b⟩
  · intro a
    refine ⟨?_, length_withoutComments a⟩
    intro k
    rw [count_withoutComments]
    cases k <;> rfl

end Lexico.Statistics
