import Monkey.Program

/-!
# Equality of programs

Whether two programs are the same tree is decidable. The test descends both
trees side by side; since expressions and statements contain each other, there
is one test for each and one for each kind of list between them, and each is
shown to hold exactly of equal arguments.
-/

namespace Monkey

mutual

/-- Whether two expressions are the same tree. -/
def Expr.same : Expr → Expr → Bool
  | .ident a, .ident b => a == b
  | .int a, .int b => a == b
  | .str a, .str b => a == b
  | .bool a, .bool b => a == b
  | .array as, .array bs => sameExprs as bs
  | .hash as, .hash bs => samePairs as bs
  | .unary op a, .unary op' b => op == op' && a.same b
  | .binary op a c, .binary op' b d => op == op' && a.same b && c.same d
  | .cond a s none, .cond b t none => a.same b && sameBlock s t
  | .cond a s (some s'), .cond b t (some t') =>
    a.same b && sameBlock s t && sameBlock s' t'
  | .fn ps s, .fn qs t => ps == qs && sameBlock s t
  | .call a as, .call b bs => a.same b && sameExprs as bs
  | .index a c, .index b d => a.same b && c.same d
  | _, _ => false
termination_by structural a => a

/-- Whether two lists of expressions are the same. -/
def sameExprs : List Expr → List Expr → Bool
  | [], [] => true
  | a :: as, b :: bs => a.same b && sameExprs as bs
  | _, _ => false
termination_by structural as => as

/-- Whether two lists of key and value pairs are the same. -/
def samePairs : List (Expr × Expr) → List (Expr × Expr) → Bool
  | [], [] => true
  | (k, v) :: as, (k', v') :: bs => k.same k' && v.same v' && samePairs as bs
  | _, _ => false
termination_by structural as => as

/-- Whether two blocks are the same. -/
def sameBlock : List Stmt → List Stmt → Bool
  | [], [] => true
  | s :: ss, t :: ts => s.same t && sameBlock ss ts
  | _, _ => false
termination_by structural ss => ss

/-- Whether two statements are the same tree. -/
def Stmt.same : Stmt → Stmt → Bool
  | .bind n a, .bind m b => n == m && a.same b
  | .ret a, .ret b => a.same b
  | .expr a, .expr b => a.same b
  | _, _ => false
termination_by structural s => s

end

mutual

theorem Expr.same_iff : ∀ a b : Expr, a.same b = true ↔ a = b
  | .ident _, b => by cases b <;> simp [Expr.same]
  | .int _, b => by cases b <;> simp [Expr.same]
  | .str _, b => by cases b <;> simp [Expr.same]
  | .bool _, b => by cases b <;> simp [Expr.same]
  | .array as, b => by cases b <;> simp [Expr.same, sameExprs_iff as]
  | .hash as, b => by cases b <;> simp [Expr.same, samePairs_iff as]
  | .unary _ a, b => by cases b <;> simp [Expr.same, a.same_iff]
  | .binary _ a c, b => by
    cases b <;> simp [Expr.same, a.same_iff, c.same_iff, and_assoc]
  | .cond a s none, b => by
    cases b
    case cond alternative =>
      cases alternative <;> simp [Expr.same, a.same_iff, sameBlock_iff s]
    all_goals simp [Expr.same]
  | .cond a s (some s'), b => by
    cases b
    case cond alternative =>
      cases alternative <;>
        simp [Expr.same, a.same_iff, sameBlock_iff s, sameBlock_iff s',
          and_assoc]
    all_goals simp [Expr.same]
  | .fn _ s, b => by cases b <;> simp [Expr.same, sameBlock_iff s]
  | .call a as, b => by
    cases b <;> simp [Expr.same, a.same_iff, sameExprs_iff as]
  | .index a c, b => by
    cases b <;> simp [Expr.same, a.same_iff, c.same_iff]
termination_by structural a => a

theorem sameExprs_iff : ∀ as bs : List Expr, sameExprs as bs = true ↔ as = bs
  | [], bs => by cases bs <;> simp [sameExprs]
  | a :: as, bs => by
    cases bs <;> simp [sameExprs, a.same_iff, sameExprs_iff as]
termination_by structural as => as

theorem samePairs_iff :
    ∀ as bs : List (Expr × Expr), samePairs as bs = true ↔ as = bs
  | [], bs => by cases bs <;> simp [samePairs]
  | (k, v) :: as, bs => by
    cases bs <;> simp [samePairs, k.same_iff, v.same_iff, samePairs_iff as,
      Prod.ext_iff]
termination_by structural as => as

theorem sameBlock_iff : ∀ ss ts : List Stmt, sameBlock ss ts = true ↔ ss = ts
  | [], ts => by cases ts <;> simp [sameBlock]
  | s :: ss, ts => by
    cases ts <;> simp [sameBlock, s.same_iff, sameBlock_iff ss]
termination_by structural ss => ss

theorem Stmt.same_iff : ∀ s t : Stmt, s.same t = true ↔ s = t
  | .bind _ a, t => by cases t <;> simp [Stmt.same, a.same_iff]
  | .ret a, t => by cases t <;> simp [Stmt.same, a.same_iff]
  | .expr a, t => by cases t <;> simp [Stmt.same, a.same_iff]
termination_by structural s => s

end

instance : DecidableEq Expr := fun a b => decidable_of_iff _ (a.same_iff b)

instance : DecidableEq Stmt := fun s t => decidable_of_iff _ (s.same_iff t)

deriving instance DecidableEq for Program

end Monkey
