import Mathlib.Data.List.Forall2
import Monkey.Program.Render
import Monkey.Proofs.Grammar
import Monkey.Proofs.Spelling

/-!
# The tokens of a rendered program

Which tokens the text of a program consists of. `Expr.kinds` and its companions
give the kinds of these tokens, by recursion on the tree, as the renderer gives
the text; and `Expr.writes` says that scanning the text gives the kinds.

A text is not scanned piece by piece: a word goes on into what follows it. So
the pieces of a rendered program come in two sorts. After most of them anything
may follow (`WritesAll`); after a word or a number only what cannot stand in a
word (`Writes`). The renderer puts a bracket, a blank or a semicolon behind
every word, which is what the proof has to see.
-/

namespace Monkey

open Token (Kind)

/-! ## The kinds of a text -/

/-- The kinds of the tokens of a text. -/
def Text.kinds (cs : List Char) : List Kind :=
  (Token.scanFrom 0 cs).map Token.kind

/-- Kinds do not depend on where a text begins. -/
theorem Text.map_kind_scanFrom (pos : Nat) (cs : List Char) :
    (Token.scanFrom pos cs).map Token.kind = Text.kinds cs := by
  unfold Text.kinds
  generalize 0 = pos'
  fun_induction Token.scanFrom pos cs generalizing pos' with
  | case1 pos => rw [Token.scanFrom]
  | case2 pos c cs hc ih =>
    rw [Token.scanFrom_blank hc]
    exact ih _
  | case3 pos c cs hc lexeme stop ih =>
    rw [Token.scanFrom_first hc rfl]
    exact congrArg (lexeme.kind :: ·) (ih _)

theorem Text.kinds_nil : Text.kinds [] = [] := by
  unfold Text.kinds
  rw [Token.scanFrom]
  rfl

theorem Text.kinds_blank {c : Char} (hc : Text.isBlank c) (cs : List Char) :
    Text.kinds (c :: cs) = Text.kinds cs := by
  unfold Text.kinds
  rw [Token.scanFrom_blank hc, Text.map_kind_scanFrom]
  rfl

/-- A token at the front of a text is its first. -/
theorem Text.kinds_append {kind : Kind} {text rest : List Char}
    (hspell : kind.SpelledAs text) (hends : kind.EndsBefore rest) :
    Text.kinds (text ++ rest) = kind :: Text.kinds rest := by
  unfold Text.kinds
  rw [Token.scanFrom_append hspell hends, List.map_cons,
    Text.map_kind_scanFrom]
  rfl

/-! ## Texts written in tokens -/

/-- **The text is written in the tokens**, before anything that cannot go on
with a word. -/
def Writes (text : String) (ks : List Kind) : Prop :=
  ∀ rest : List Char, (∀ c ∈ rest.head?, ¬ Text.isNameChar c) →
    Text.kinds (text.toList ++ rest) = ks ++ Text.kinds rest

/-- **The text is written in the tokens**, before anything. -/
def WritesAll (text : String) (ks : List Kind) : Prop :=
  ∀ rest : List Char,
    Text.kinds (text.toList ++ rest) = ks ++ Text.kinds rest

theorem WritesAll.writes {text : String} {ks : List Kind}
    (h : WritesAll text ks) : Writes text ks :=
  fun rest _ => h rest

theorem WritesAll.of_eq {text : String} {ks ls : List Kind}
    (h : WritesAll text ks) (hks : ks = ls) : WritesAll text ls :=
  hks ▸ h

theorem WritesAll.of_text {a b : String} {ks : List Kind} (h : WritesAll a ks)
    (hab : a = b) : WritesAll b ks :=
  hab ▸ h

theorem WritesAll.append {a b : String} {ks ls : List Kind}
    (ha : WritesAll a ks) (hb : WritesAll b ls) :
    WritesAll (a ++ b) (ks ++ ls) := by
  intro rest
  rw [String.toList_append, List.append_assoc, ha, hb, List.append_assoc]

theorem WritesAll.append_writes {a b : String} {ks ls : List Kind}
    (ha : WritesAll a ks) (hb : Writes b ls) : Writes (a ++ b) (ks ++ ls) := by
  intro rest hrest
  rw [String.toList_append, List.append_assoc, ha, hb rest hrest,
    List.append_assoc]

/-- A word is closed by a text that does not go on with it. -/
theorem Writes.append {a b : String} {ks ls : List Kind} (ha : Writes a ks)
    (hb : WritesAll b ls) (hhead : ∃ c ∈ b.toList.head?, ¬ Text.isNameChar c) :
    WritesAll (a ++ b) (ks ++ ls) := by
  intro rest
  rw [String.toList_append, List.append_assoc, ha, hb, List.append_assoc]
  obtain ⟨c, hc, hname⟩ := hhead
  intro d hd
  rw [List.head?_append, hc] at hd
  obtain rfl : c = d := Option.some.inj hd
  exact hname

theorem writesAll_empty : WritesAll "" [] := by
  intro rest
  rfl

/-- A blank is written in no token. -/
theorem writesAll_space : WritesAll " " [] := by
  intro rest
  exact Text.kinds_blank (c := ' ') (by decide) rest

theorem writesAll_newline : WritesAll "\n" [] := by
  intro rest
  exact Text.kinds_blank (c := '\n') (by decide) rest

/-- A token that ends whatever follows it. -/
theorem writesAll_fixed {text : String} (kind : Kind)
    (hfixed : kind.isFixed) (htext : kind.spelling = text)
    (hends : ∀ rest, kind.EndsBefore rest) : WritesAll text [kind] := by
  intro rest
  exact Text.kinds_append
    (Kind.spelledAs_of_isFixed hfixed (congrArg String.toList htext))
    (hends rest)

theorem writes_keyword (kind : Kind) (hfixed : kind.isFixed)
    (hword : kind.isWord) : Writes kind.spelling [kind] := by
  intro rest hrest
  exact Text.kinds_append (Kind.spelledAs_of_isFixed hfixed rfl)
    ((Kind.endsBefore_iff_of_isWord hword).2 hrest)

theorem writesAll_assign : WritesAll " = " [.assign] := by
  intro rest
  have hspell : Kind.assign.SpelledAs ['='] :=
    Kind.spelledAs_of_isFixed rfl (by decide)
  have hassign : Text.kinds ('=' :: ' ' :: rest)
      = .assign :: Text.kinds (' ' :: rest) :=
    Text.kinds_append hspell (by simp [Kind.EndsBefore])
  show Text.kinds (' ' :: '=' :: ' ' :: rest) = .assign :: Text.kinds rest
  rw [Text.kinds_blank (by decide), hassign, Text.kinds_blank (by decide)]

/-- The kinds that separate and enclose. -/
def Token.Kind.isDelimiter : Kind → Bool
  | comma | colon | semicolon | leftParen | rightParen | leftBrace
  | rightBrace | leftBracket | rightBracket => true
  | _ => false

theorem writesAll_delimiter (kind : Kind) (h : kind.isDelimiter) :
    WritesAll kind.label [kind] := by
  match kind, h with
  | .comma, _ | .colon, _ | .semicolon, _ | .leftParen, _ | .rightParen, _
  | .leftBrace, _ | .rightBrace, _ | .leftBracket, _ | .rightBracket, _ =>
    exact writesAll_fixed _ rfl rfl (by rintro _ ⟨⟩)

/-- A delimiter closes a word. -/
theorem Writes.append_delimiter {text : String} {ks : List Kind}
    (h : Writes text ks) (kind : Kind) (hkind : kind.isDelimiter) :
    WritesAll (text ++ kind.label) (ks ++ [kind]) := by
  refine h.append (writesAll_delimiter kind hkind) ?_
  match kind, hkind with
  | .comma, _ | .colon, _ | .semicolon, _ | .leftParen, _ | .rightParen, _
  | .leftBrace, _ | .rightBrace, _ | .leftBracket, _ | .rightBracket, _ =>
    exact ⟨_, rfl, by decide⟩

/-- A blank closes a word. -/
theorem Writes.append_space {text : String} {ks : List Kind}
    (h : Writes text ks) : WritesAll (text ++ " ") ks := by
  have hspace := h.append writesAll_space ⟨' ', by decide, by decide⟩
  rwa [List.append_nil] at hspace

/-- What stands between two delimiters. -/
theorem Writes.enclosed {text : String} {ks : List Kind} (h : Writes text ks)
    (left right : Kind) (hleft : left.isDelimiter)
    (hright : right.isDelimiter) :
    WritesAll (left.label ++ text ++ right.label)
      (left :: (ks ++ [right])) :=
  ((writesAll_delimiter left hleft).append_writes h).append_delimiter right
    hright

/-! ## The kinds of a tree -/

/-- Token lists with a comma between each two. -/
def commas : List (List Kind) → List Kind
  | [] => []
  | [ts] => ts
  | ts :: us :: rest => ts ++ .comma :: commas (us :: rest)

mutual

/-- **The kinds of the tokens that an expression is written in.** -/
def Expr.kinds : Expr → List Kind
  | .ident name => [.ident name]
  | .int value => [.int (Integer.render value)]
  | .str text => [.str text]
  | .bool value => [if value then .kwTrue else .kwFalse]
  | .array elements =>
    .leftBracket :: (commas (kindsExprs elements) ++ [.rightBracket])
  | .hash pairs => .leftBrace :: (commas (kindsPairs pairs) ++ [.rightBrace])
  | .unary op operand =>
    .leftParen :: op.kind :: (operand.kinds ++ [.rightParen])
  | .binary op left right =>
    .leftParen :: (left.kinds ++ op.kind :: (right.kinds ++ [.rightParen]))
  | .cond condition consequence none =>
    .kwIf :: (condition.kinds
      ++ .leftBrace :: (kindsStmts consequence ++ [.rightBrace]))
  | .cond condition consequence (some alternative) =>
    .kwIf :: (condition.kinds
      ++ .leftBrace :: (kindsStmts consequence ++ .rightBrace :: .kwElse
        :: .leftBrace :: (kindsStmts alternative ++ [.rightBrace])))
  | .fn params body =>
    .kwFn :: .leftParen :: (commas (params.map fun p => [.ident p])
      ++ .rightParen :: .leftBrace :: (kindsStmts body ++ [.rightBrace]))
  | .call callee args =>
    callee.kinds ++ .leftParen :: (commas (kindsExprs args) ++ [.rightParen])
  | .index collection position =>
    .leftParen :: (collection.kinds
      ++ .leftBracket :: (position.kinds ++ [.rightBracket, .rightParen]))

/-- The kinds of each of a list of expressions. -/
def kindsExprs : List Expr → List (List Kind)
  | [] => []
  | e :: es => e.kinds :: kindsExprs es

/-- The kinds of each of a list of pairs. -/
def kindsPairs : List (Expr × Expr) → List (List Kind)
  | [] => []
  | (key, value) :: pairs =>
    (key.kinds ++ .colon :: value.kinds) :: kindsPairs pairs

/-- The kinds of a list of statements. -/
def kindsStmts : List Stmt → List Kind
  | [] => []
  | s :: ss => s.kinds ++ kindsStmts ss

/-- **The kinds of the tokens that a statement is written in.** -/
def Stmt.kinds : Stmt → List Kind
  | .bind name value =>
    .kwLet :: .ident name :: .assign :: (value.kinds ++ [.semicolon])
  | .ret value => .kwReturn :: (value.kinds ++ [.semicolon])
  | .expr value => value.kinds

end

/-- A kind that has a spelling. -/
def Token.Kind.IsSpelled (kind : Kind) : Prop :=
  ∃ text, kind.SpelledAs text

theorem Token.Kind.isSpelled_of_isFixed {kind : Kind} (h : kind.isFixed) :
    kind.IsSpelled :=
  ⟨_, Kind.spelledAs_of_isFixed h rfl⟩

/-- **Token lists that can be written**: all of their tokens have a
spelling. -/
def Writable (ks : List Kind) : Prop :=
  ∀ k ∈ ks, k.IsSpelled

theorem writable_append {ks ls : List Kind} :
    Writable (ks ++ ls) ↔ Writable ks ∧ Writable ls := by
  unfold Writable
  simp [or_imp, forall_and]

theorem writable_cons {k : Kind} {ks : List Kind} :
    Writable (k :: ks) ↔ k.IsSpelled ∧ Writable ks := by
  unfold Writable
  simp

theorem writable_nil : Writable [] := by
  simp [Writable]

theorem writable_commas_cons {ks : List Kind} {kss : List (List Kind)} :
    Writable (commas (ks :: kss)) ↔ Writable ks ∧ Writable (commas kss) := by
  cases kss with
  | nil => simp [commas, writable_nil]
  | cons ls kss =>
    rw [commas, writable_append, writable_cons,
      and_iff_right (Kind.isSpelled_of_isFixed rfl)]

theorem writes_commas {texts : List String} {kss : List (List Kind)}
    (h : List.Forall₂ Writes texts kss) :
    Writes (", ".intercalate texts) (commas kss) := by
  induction h with
  | nil => exact writesAll_empty.writes
  | @cons text ks texts kss hfirst hrest ih =>
    cases hrest with
    | nil => simpa [commas] using hfirst
    | cons _ _ =>
      have hcomma : WritesAll ", " [.comma] :=
        (writesAll_delimiter .comma rfl).writes.append_space.of_text (by decide)
      have hall := (hfirst.append hcomma
        ⟨',', by decide, by decide⟩).append_writes ih
      simpa [commas, String.intercalate_cons_cons] using hall

/-! ## Scanning a rendered program -/

theorem writes_ident {name : String} (h : (Kind.ident name).IsSpelled) :
    Writes name [.ident name] := by
  obtain ⟨text, rfl, hname⟩ := h
  intro rest hrest
  exact Text.kinds_append ⟨rfl, hname⟩ (fun _ => hrest)

theorem writes_int {digits : String} (h : (Kind.int digits).IsSpelled) :
    Writes digits [.int digits] := by
  obtain ⟨text, rfl, hdigits⟩ := h
  intro rest hrest
  refine Text.kinds_append ⟨rfl, hdigits⟩ ?_
  intro c hc hdigit
  exact hrest c hc (Text.isNameChar_of_isDigit hdigit)

theorem writesAll_str {content : String} (h : (Kind.str content).IsSpelled) :
    WritesAll ("\"" ++ content ++ "\"") [.str content] := by
  obtain ⟨text, rfl, hcontent⟩ := h
  intro rest
  have hspell : (Kind.str content).SpelledAs
      ("\"" ++ content ++ "\"").toList := by
    refine ⟨?_, hcontent⟩
    rw [String.toList_append, String.toList_append]
    rfl
  exact Text.kinds_append hspell (by rintro ⟨⟩)

theorem writesAll_symbol (op : BinaryOp) : WritesAll op.symbol [op.kind] := by
  cases op <;> exact writesAll_fixed _ rfl rfl (by rintro _ ⟨⟩)

/-- An expression is written in at least one token, and the first of them
begins expressions. -/
theorem Expr.kinds_begins (e : Expr) :
    ∃ k ks, e.kinds = k :: ks ∧ k.beginsExpr := by
  match e with
  | .call callee args =>
    obtain ⟨k, ks, hks, hk⟩ := callee.kinds_begins
    exact ⟨k, _, by rw [Expr.kinds, hks]; rfl, hk⟩
  | .bool true | .bool false => exact ⟨_, _, rfl, rfl⟩
  | .ident _ | .int _ | .str _ | .array _ | .hash _ | .unary _ _
  | .binary _ _ _ | .cond _ _ none | .cond _ _ (some _) | .fn _ _
  | .index _ _ => exact ⟨_, _, by rw [Expr.kinds], rfl⟩

/-- The text of an expression does not begin with an equals sign. -/
theorem Writes.head_ne_equals {text : String} {ks : List Kind}
    (h : Writes text ks) (hks : ∃ k ls, ks = k :: ls ∧ k.beginsExpr)
    (rest : List Char) : ∀ c ∈ (text.toList ++ rest).head?, c ≠ '=' := by
  obtain ⟨k, ls, rfl, hk⟩ := hks
  have hkinds := h [] (by simp)
  rw [List.append_nil] at hkinds
  cases htext : text.toList with
  | nil =>
    rw [htext, Text.kinds_nil] at hkinds
    cases hkinds
  | cons d ds =>
    rintro c hc rfl
    obtain rfl : d = '=' := Option.some.inj hc
    -- The first token would be one of the two that an equals sign begins.
    rw [htext] at hkinds
    unfold Text.kinds at hkinds
    rw [Token.scanFrom_first (by decide) rfl] at hkinds
    obtain rfl := (List.cons.inj hkinds).1
    revert hk
    show ¬ (Lexeme.withEquals .assign .equal '=' ds).kind.beginsExpr
    unfold Lexeme.withEquals
    split <;> rintro ⟨⟩

/-- An operator before its operand. -/
theorem Writes.unary {text : String} {ks : List Kind} (h : Writes text ks)
    (hks : ∃ k ls, ks = k :: ls ∧ k.beginsExpr) (op : UnaryOp) :
    Writes (op.symbol ++ text) (op.kind :: ks) := by
  cases op with
  | minus =>
    exact (writesAll_fixed .minus rfl rfl (by rintro _ ⟨⟩)).append_writes h
  | bang =>
    intro rest hrest
    have hspell : Kind.bang.SpelledAs "!".toList :=
      Kind.spelledAs_of_isFixed rfl rfl
    rw [String.toList_append, List.append_assoc]
    show Text.kinds ("!".toList ++ _) = _
    rw [Text.kinds_append hspell (h.head_ne_equals hks rest), h rest hrest]
    rfl

theorem writesAll_inBraces {text : String} {ks : List Kind}
    (h : WritesAll text ks) :
    WritesAll (inBraces text) (.leftBrace :: (ks ++ [.rightBrace])) := by
  have hopen : WritesAll "\x7b " [.leftBrace] :=
    (writesAll_delimiter .leftBrace rfl).writes.append_space.of_text (by decide)
  exact (hopen.append h).append (writesAll_delimiter .rightBrace rfl)

theorem writes_params {params : List String}
    (h : Writable (commas (params.map fun p => [Kind.ident p]))) :
    List.Forall₂ Writes params (params.map fun p => [Kind.ident p]) := by
  induction params with
  | nil => exact .nil
  | cons p params ih =>
    rw [List.map_cons] at h ⊢
    rw [writable_commas_cons, writable_cons] at h
    exact .cons (writes_ident h.1.1) (ih h.2)

mutual

/-- **Scanning the text of an expression** gives the kinds that it is written
in. -/
theorem Expr.writes {e : Expr} (h : Writable e.kinds) :
    Writes e.render e.kinds := by
  match e with
  | .ident name =>
    rw [Expr.kinds, writable_cons] at h
    rw [Expr.render, Expr.kinds]
    exact writes_ident h.1
  | .int value =>
    rw [Expr.kinds, writable_cons] at h
    rw [Expr.render, Expr.kinds]
    exact writes_int h.1
  | .str text =>
    rw [Expr.kinds, writable_cons] at h
    rw [Expr.render, Expr.kinds]
    exact (writesAll_str h.1).writes
  | .bool true => exact writes_keyword .kwTrue rfl rfl
  | .bool false => exact writes_keyword .kwFalse rfl rfl
  | .array elements =>
    rw [Expr.kinds, writable_cons, writable_append] at h
    rw [Expr.render, Expr.kinds]
    exact ((writes_commas (Expr.writes_exprs h.2.1)).enclosed .leftBracket
      .rightBracket rfl rfl).writes
  | .hash pairs =>
    rw [Expr.kinds, writable_cons, writable_append] at h
    rw [Expr.render, Expr.kinds]
    exact ((writes_commas (Expr.writes_pairs h.2.1)).enclosed .leftBrace
      .rightBrace rfl rfl).writes
  | .unary op operand =>
    rw [Expr.kinds, writable_cons, writable_cons, writable_append] at h
    have hassoc : "(" ++ op.symbol ++ operand.render
        = "(" ++ (op.symbol ++ operand.render) := String.append_assoc
    rw [Expr.render, Expr.kinds, hassoc]
    have hoperand := (Expr.writes h.2.2.1).unary operand.kinds_begins op
    exact (hoperand.enclosed .leftParen .rightParen rfl rfl).writes
  | .binary op left right =>
    rw [Expr.kinds, writable_cons, writable_append, writable_cons,
      writable_append] at h
    rw [Expr.render, Expr.kinds]
    have hleft := (writesAll_delimiter .leftParen rfl).append_writes
      (Expr.writes h.2.1)
    have hop := (hleft.append_space.append (writesAll_symbol op)).append
      writesAll_space
    have hright := (hop.append_writes (Expr.writes h.2.2.2.1)).append_delimiter
      .rightParen rfl
    exact (hright.of_eq (by simp)).writes
  | .cond condition consequence none =>
    rw [Expr.kinds, writable_cons, writable_append, writable_cons,
      writable_append] at h
    rw [Expr.render, Expr.kinds]
    have hif : WritesAll "if " [.kwIf] :=
      (writes_keyword .kwIf rfl rfl).append_space.of_text (by decide)
    have hcondition := (hif.append_writes (Expr.writes h.2.1)).append_space
    have hall := hcondition.append
      (writesAll_inBraces (Stmt.writes_stmts h.2.2.2.1))
    exact (hall.of_eq (by simp)).writes
  | .cond condition consequence (some alternative) =>
    rw [Expr.kinds, writable_cons, writable_append, writable_cons,
      writable_append, writable_cons, writable_cons, writable_cons,
      writable_append] at h
    rw [Expr.render, Expr.kinds]
    have hif : WritesAll "if " [.kwIf] :=
      (writes_keyword .kwIf rfl rfl).append_space.of_text (by decide)
    have hcondition := (hif.append_writes (Expr.writes h.2.1)).append_space
    have hconsequence := hcondition.append
      (writesAll_inBraces (Stmt.writes_stmts h.2.2.2.1))
    have helse : WritesAll " else " [.kwElse] :=
      (writesAll_space.append
        (writes_keyword .kwElse rfl rfl).append_space).of_text (by decide)
    have hall := (hconsequence.append helse).append
      (writesAll_inBraces (Stmt.writes_stmts h.2.2.2.2.2.2.2.1))
    exact (hall.of_eq (by simp)).writes
  | .fn params body =>
    rw [Expr.kinds, writable_cons, writable_cons, writable_append,
      writable_cons, writable_cons, writable_append] at h
    rw [Expr.render, Expr.kinds]
    have hfn : WritesAll "fn(" [.kwFn, .leftParen] :=
      ((writes_keyword .kwFn rfl rfl).append_delimiter
        .leftParen rfl).of_text (by decide)
    have hclose : WritesAll ") " [.rightParen] :=
      (writesAll_delimiter .rightParen rfl).writes.append_space.of_text
        (by decide)
    have hparams := (hfn.append_writes (writes_commas
      (writes_params h.2.2.1))).append hclose ⟨')', by decide, by decide⟩
    have hall := hparams.append
      (writesAll_inBraces (Stmt.writes_stmts h.2.2.2.2.2.1))
    exact (hall.of_eq (by simp)).writes
  | .call callee args =>
    rw [Expr.kinds, writable_append, writable_cons, writable_append] at h
    rw [Expr.render, Expr.kinds]
    have hcallee := (Expr.writes h.1).append_delimiter .leftParen rfl
    have hall := (hcallee.append_writes (writes_commas
      (Expr.writes_exprs h.2.2.1))).append_delimiter .rightParen rfl
    exact (hall.of_eq (by simp)).writes
  | .index collection position =>
    rw [Expr.kinds, writable_cons, writable_append, writable_cons,
      writable_append] at h
    rw [Expr.render, Expr.kinds]
    have hcollection := ((writesAll_delimiter .leftParen rfl).append_writes
      (Expr.writes h.2.1)).append_delimiter .leftBracket rfl
    have hclose : WritesAll "])" [.rightBracket, .rightParen] :=
      ((writesAll_delimiter .rightBracket rfl).append
        (writesAll_delimiter .rightParen rfl)).of_text (by decide)
    have hall := (hcollection.append_writes (Expr.writes h.2.2.2.1)).append
      hclose ⟨']', by decide, by decide⟩
    exact (hall.of_eq (by simp)).writes

theorem Expr.writes_exprs {es : List Expr}
    (h : Writable (commas (kindsExprs es))) :
    List.Forall₂ Writes (renderExprs es) (kindsExprs es) := by
  match es with
  | [] => exact .nil
  | e :: es =>
    rw [kindsExprs, renderExprs]
    rw [kindsExprs, writable_commas_cons] at h
    exact .cons (Expr.writes h.1) (Expr.writes_exprs h.2)

theorem Expr.writes_pairs {ps : List (Expr × Expr)}
    (h : Writable (commas (kindsPairs ps))) :
    List.Forall₂ Writes (renderPairs ps) (kindsPairs ps) := by
  match ps with
  | [] => exact .nil
  | (key, value) :: ps =>
    rw [kindsPairs, renderPairs]
    rw [kindsPairs, writable_commas_cons, writable_append, writable_cons] at h
    have hcolon : WritesAll ": " [.colon] :=
      (writesAll_delimiter .colon rfl).writes.append_space.of_text (by decide)
    have hpair := ((Expr.writes h.1.1).append hcolon
      ⟨':', by decide, by decide⟩).append_writes (Expr.writes h.1.2.2)
    rw [List.append_assoc] at hpair
    exact .cons hpair (Expr.writes_pairs h.2)

/-- **Scanning the statements of a block.** -/
theorem Stmt.writes_stmts {ss : List Stmt} (h : Writable (kindsStmts ss)) :
    WritesAll (renderStmts ss) (kindsStmts ss) := by
  match ss with
  | [] => exact writesAll_empty
  | s :: ss =>
    rw [kindsStmts, writable_append] at h
    rw [renderStmts, kindsStmts]
    exact (Stmt.writes h.1).append_space.append (Stmt.writes_stmts h.2)

/-- **Scanning the text of a statement.** -/
theorem Stmt.writes {s : Stmt} (h : Writable s.kinds) :
    Writes s.render s.kinds := by
  match s with
  | .bind name value =>
    rw [Stmt.kinds, writable_cons, writable_cons, writable_cons,
      writable_append] at h
    rw [Stmt.render, Stmt.kinds]
    have hlet : WritesAll "let " [.kwLet] :=
      (writes_keyword .kwLet rfl rfl).append_space.of_text (by decide)
    have hname := (hlet.append_writes (writes_ident h.2.1)).append
      writesAll_assign ⟨' ', by decide, by decide⟩
    have hall := (hname.append_writes (Expr.writes h.2.2.2.1)).append_delimiter
      .semicolon rfl
    exact (hall.of_eq (by simp)).writes
  | .ret value =>
    rw [Stmt.kinds, writable_cons, writable_append] at h
    rw [Stmt.render, Stmt.kinds]
    have hreturn : WritesAll "return " [.kwReturn] :=
      (writes_keyword .kwReturn rfl rfl).append_space.of_text (by decide)
    have hall := (hreturn.append_writes (Expr.writes h.2.1)).append_delimiter
      .semicolon rfl
    exact hall.writes
  | .expr value =>
    rw [Stmt.kinds] at h
    rw [Stmt.render, Stmt.kinds]
    exact Expr.writes h

end

/-- Statements on lines of their own. -/
theorem Stmt.writes_lines {ss : List Stmt} (h : Writable (kindsStmts ss)) :
    Writes ("\n".intercalate (ss.map Stmt.render)) (kindsStmts ss) := by
  induction ss with
  | nil => exact writesAll_empty.writes
  | cons s ss ih =>
    rw [kindsStmts, writable_append] at h
    have hs := Stmt.writes h.1
    cases ss with
    | nil => simpa [kindsStmts] using hs
    | cons s' ss =>
      have hline := hs.append writesAll_newline ⟨'\n', by decide, by decide⟩
      have hall := hline.append_writes (ih h.2)
      rw [List.append_nil] at hall
      rw [kindsStmts, List.map_cons, List.map_cons,
        String.intercalate_cons_cons]
      exact hall

/-- **Scanning the text of a program** gives the kinds of its statements. -/
theorem Program.map_kind_scan_render {program : Program}
    (h : Writable (kindsStmts program.statements)) :
    (Token.scan program.render).map Token.kind
      = kindsStmts program.statements := by
  have hscan := Stmt.writes_lines h [] (by simp)
  rw [List.append_nil, Text.kinds_nil, List.append_nil] at hscan
  exact hscan

end Monkey
