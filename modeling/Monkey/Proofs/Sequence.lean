import Monkey.Eval.Program
import Monkey.Proofs.Juncture
import Monkey.Proofs.Recognition
import Monkey.Proofs.Rendering

/-!
# Programs that follow each other

A semicolon ends the statement before it, whatever follows. So the texts of two
programs with a semicolon between them are the text of a program, whose
statements are those of the first and then those of the second
(`Program.parse_semicolon`). What could go wrong is that a string of the first
text does not end before the semicolon; but then the text is not that of a
program, since no program has such a token (`Body.all_isLegal`).

Evaluating statements one after the other goes through the first ones and, if
these are done, goes on with the others from there (`evalStmts_append`).
-/

namespace Monkey

open Token (Kind)

/-! ## Tokens that no program has -/

/-- **Whether the token is one of the language**, as all are but those that only
note that the text is none. -/
def Token.Kind.isLegal : Kind → Bool
  | .illegal _ | .unclosedString => false
  | _ => true

theorem UnaryOp.isLegal_kind (op : UnaryOp) : op.kind.isLegal := by
  cases op <;> rfl

theorem BinaryOp.isLegal_kind (op : BinaryOp) : op.kind.isLegal := by
  cases op <;> rfl

theorem Listed.all_isLegal_named {ts : List Kind} {names : List String}
    (h : Listed Named ts names) : ts.all Kind.isLegal := by
  induction h with
  | nil => rfl
  | last h =>
    cases h
    rfl
  | more h _ ih =>
    cases h
    exact ih

mutual

/-- **All tokens of an expression are of the language.** -/
theorem Expr.Derives.all_isLegal {l : Layer} {ts : List Kind} {e : Expr}
    (h : Expr.Derives l ts e) : ts.all Kind.isLegal := by
  match h with
  | .loosen h => exact h.all_isLegal
  | .binary hop hleft hright =>
    obtain rfl := Layer.kind_of_mem_operators hop
    simp [hleft.all_isLegal, BinaryOp.isLegal_kind, hright.all_isLegal]
  | .unary h => simp [UnaryOp.isLegal_kind, h.all_isLegal]
  | .call hcallee hargs =>
    simp [hcallee.all_isLegal, Expr.all_isLegal_of_listed hargs, Kind.isLegal]
  | .index hcollection hposition =>
    simp [hcollection.all_isLegal, hposition.all_isLegal, Kind.isLegal]
  | .ident | .int _ | .str | .true | .false => rfl
  | .group h => simp [h.all_isLegal, Kind.isLegal]
  | .array h => simp [Expr.all_isLegal_of_listed h, Kind.isLegal]
  | .hash h => simp [Expr.all_isLegal_of_pairs h, Kind.isLegal]
  | .cond hcondition hconsequence =>
    simp [hcondition.all_isLegal, hconsequence.all_isLegal, Kind.isLegal]
  | .condElse hcondition hconsequence halternative =>
    simp [hcondition.all_isLegal, hconsequence.all_isLegal,
      halternative.all_isLegal, Kind.isLegal]
  | .fn hparams hbody =>
    simp [hparams.all_isLegal_named, hbody.all_isLegal, Kind.isLegal]

theorem Expr.all_isLegal_of_listed {ts : List Kind} {es : List Expr}
    (h : Listed (Expr.Derives .equality) ts es) : ts.all Kind.isLegal := by
  match h with
  | .nil => rfl
  | .last h => exact h.all_isLegal
  | .more h hrest =>
    simp [h.all_isLegal, Expr.all_isLegal_of_listed hrest, Kind.isLegal]

theorem Expr.all_isLegal_of_pairs {ts : List Kind} {ps : List (Expr × Expr)}
    (h : Listed (Paired (Expr.Derives .equality)) ts ps) :
    ts.all Kind.isLegal := by
  match h with
  | .nil => rfl
  | .last (.pair hkey hvalue) =>
    simp [hkey.all_isLegal, hvalue.all_isLegal, Kind.isLegal]
  | .more (.pair hkey hvalue) hrest =>
    simp [hkey.all_isLegal, hvalue.all_isLegal,
      Expr.all_isLegal_of_pairs hrest, Kind.isLegal]

theorem Stmt.Derives.all_isLegal {ts : List Kind} {s : Stmt}
    (h : Stmt.Derives ts s) : ts.all Kind.isLegal := by
  match h with
  | .bind h | .ret h => simp [h.all_isLegal, Kind.isLegal]
  | .expr h => exact h.all_isLegal

/-- **All tokens of a body are of the language.** -/
theorem Body.all_isLegal {ts : List Kind} {ss : Block} (h : Body ts ss) :
    ts.all Kind.isLegal := by
  match h with
  | .nil => rfl
  | .semicolon h => simp [h.all_isLegal, Kind.isLegal]
  | .cons hs _ h => simp [hs.all_isLegal, h.all_isLegal]

end

/-! ## Two programs with a semicolon between them -/

theorem Apart.append_semicolon {ts : List Kind} (h : Apart ts)
    (us : List Kind) : Apart (ts ++ .semicolon :: us) := by
  cases ts with
  | nil =>
    rintro k ⟨⟩
    decide
  | cons t ts => exact h

/-- **Two bodies with a semicolon between them** are a body. -/
theorem Body.append_semicolon {ts us : List Kind} {ss rs : Block}
    (h : Body ts ss) (h' : Body us rs) :
    Body (ts ++ .semicolon :: us) (ss ++ rs) := by
  match h with
  | .nil => exact .semicolon h'
  | .semicolon h => exact .semicolon (h.append_semicolon h')
  | .cons hs hapart h =>
    rw [List.append_assoc]
    exact .cons hs (hapart.append_semicolon us) (h.append_semicolon h')

/-- No string of a program is without an end. -/
theorem Program.kind_ne_unclosedString {source : String} {program : Program}
    (h : Program.parse source = .ok program) :
    ∀ t ∈ Token.scan source, t.kind ≠ .unclosedString := by
  intro t ht hkind
  have hlegal := List.all_eq_true.1
    (Program.ofTokens_eq_ok_iff.1 h).all_isLegal t.kind
    (List.mem_map_of_mem ht)
  rw [hkind] at hlegal
  cases hlegal

/-- **Two programs with a semicolon between them** are a program. -/
theorem Program.parse_semicolon {a b : String} {p q : Program}
    (ha : Program.parse a = .ok p) (hb : Program.parse b = .ok q) :
    Program.parse (a ++ ";" ++ b) = .ok ⟨p.statements ++ q.statements⟩ := by
  have hkinds : (Token.scan (a ++ ";" ++ b)).map Token.kind
      = (Token.scan a).map Token.kind
        ++ .semicolon :: (Token.scan b).map Token.kind := by
    rw [Token.scan_semicolon (Program.kind_ne_unclosedString ha),
      List.map_append, List.map_cons, List.map_map]
    rfl
  have hp : Body ((Token.scan a).map Token.kind) p.statements :=
    Program.ofTokens_eq_ok_iff.1 ha
  have hq : Body ((Token.scan b).map Token.kind) q.statements :=
    Program.ofTokens_eq_ok_iff.1 hb
  refine Program.ofTokens_eq_ok_iff.2 ?_
  rw [hkinds]
  exact hp.append_semicolon hq

/-- A line break before a program means nothing. -/
theorem Program.parse_newline {source : String} {program : Program}
    (h : Program.parse source = .ok program) :
    Program.parse ("\n" ++ source) = .ok program := by
  have hkinds : (Token.scan ("\n" ++ source)).map Token.kind
      = (Token.scan source).map Token.kind := by
    have hblank : Text.isBlank '\n' := rfl
    rw [Token.scan, String.toList_append]
    exact Text.kinds_blank hblank source.toList
  refine Program.ofTokens_eq_ok_iff.2 ?_
  rw [hkinds]
  exact Program.ofTokens_eq_ok_iff.1 h

/-- The source without text is the program without statements. -/
theorem Program.parse_empty : Program.parse "" = .ok ⟨[]⟩ := by
  have hscan : Token.scan "" = [] := by
    rw [Token.scan, String.toList_empty, Token.scanFrom]
  refine Program.ofTokens_eq_ok_iff.2 ?_
  rw [hscan]
  exact .nil

/-! ## Evaluating one after the other -/

section

variable (call : Closure → List Value → Operation Value) (scope : ScopeId)

/-- **Statements are evaluated one after the other.** -/
theorem evalStmts_append (last : Value) (ss rs : List Stmt) :
    evalStmts call scope last (ss ++ rs)
      = evalStmts call scope last ss >>= fun v => evalStmts call scope v rs := by
  induction ss generalizing last with
  | nil =>
    rw [evalStmts]
    rfl
  | cons s ss ih =>
    rw [List.cons_append, evalStmts, evalStmts, bind_assoc]
    simp only [ih]

/-- Expressions are evaluated one after the other. -/
theorem evalExprs_append (es fs : List Expr) :
    evalExprs call scope (es ++ fs) = evalExprs call scope es >>= fun vs =>
      evalExprs call scope fs >>= fun us => pure (vs ++ us) := by
  induction es with
  | nil =>
    rw [evalExprs]
    exact (bind_pure _).symm
  | cons e es ih =>
    rw [List.cons_append, evalExprs, evalExprs, ih]
    simp only [bind_assoc]
    rfl

/-- Pairs are evaluated one after the other, into the same table. -/
theorem evalPairs_append (entries : Table HashKey (Value × Value))
    (ps qs : List (Expr × Expr)) :
    evalPairs call scope entries (ps ++ qs)
      = evalPairs call scope entries ps >>= fun t =>
        evalPairs call scope t qs := by
  induction ps generalizing entries with
  | nil =>
    rw [evalPairs]
    rfl
  | cons p ps ih =>
    obtain ⟨key, value⟩ := p
    rw [List.cons_append, evalPairs, evalPairs]
    simp only [bind_assoc, ih]

/-- What has been the result before matters only if no statement follows. -/
theorem evalStmts_last {ss : List Stmt} (h : ss ≠ []) (last last' : Value) :
    evalStmts call scope last ss = evalStmts call scope last' ss := by
  cases ss with
  | nil => exact absurd rfl h
  | cons s ss => rw [evalStmts, evalStmts]

end

end Monkey
