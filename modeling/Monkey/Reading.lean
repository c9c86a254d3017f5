import Monkey.ParseError

/-!
# Reading from a list of tokens

A *cursor* stands before the tokens not yet read and counts the blocks that
have been opened and not closed. A *reading* is what came of reading something
from a cursor: the thing read, or the error that stopped it, and in both cases
the cursor where it stopped. The cursor is kept on failure too, since going on
after a fault starts from there, with the number of blocks left open.

The type `Reading α n` says that at most `n` tokens are ahead when the reading
stops. Reading never puts tokens back, so the bound holds of everything built
here, and it is what lets the grammar recurse on the rest of its input without
a bound on depth given from outside.
-/

namespace Monkey

/-- **A place in a token list.** -/
structure Cursor where
  /-- The tokens ahead. -/
  tokens : List Token
  /-- How many blocks have been opened and not closed. -/
  nesting : Nat
  deriving DecidableEq, Inhabited

namespace Cursor

/-- The number of tokens ahead. -/
def size (c : Cursor) : Nat := c.tokens.length

@[simp] theorem size_mk (ts : List Token) (k : Nat) :
    (mk ts k).size = ts.length := rfl

/-- The cursor at the front of a token list. -/
def start (tokens : List Token) : Cursor := ⟨tokens, 0⟩

/-- Notes that a block is opened. -/
def openBlock (c : Cursor) : Cursor := ⟨c.tokens, c.nesting + 1⟩

/-- Notes that a block is closed. -/
def closeBlock (c : Cursor) : Cursor := ⟨c.tokens, c.nesting - 1⟩

@[simp] theorem size_openBlock (c : Cursor) : c.openBlock.size = c.size := rfl

@[simp] theorem size_closeBlock (c : Cursor) : c.closeBlock.size = c.size := rfl

end Cursor

/-- **What came of reading an `α`**, with at most `n` tokens ahead when the
reading stopped. -/
structure Reading (α : Type) (n : Nat) where
  /-- The thing read, or why it could not be read. -/
  result : Except ParseError α
  /-- Where the reading stopped. -/
  cursor : Cursor
  /-- No token is put back. -/
  size_le : cursor.size ≤ n

namespace Reading

variable {α β : Type} {m n : Nat}

/-- Succeeds without reading a token. -/
def succeed (a : α) (c : Cursor) : Reading α c.size :=
  ⟨.ok a, c, Nat.le_refl _⟩

/-- Fails without reading a token. -/
def fail (e : ParseError) (c : Cursor) : Reading α c.size :=
  ⟨.error e, c, Nat.le_refl _⟩

/-- Succeeds with a value that is there, and fails where there is none. -/
def ofOption (o : Option α) (e : ParseError) (c : Cursor) : Reading α c.size :=
  match o with
  | some a => succeed a c
  | none => fail e c

/-- The same reading under a weaker bound. -/
def weaken (r : Reading α m) (h : m ≤ n) : Reading α n :=
  ⟨r.result, r.cursor, Nat.le_trans r.size_le h⟩

/-- The same reading, seen from before the token that was read first. -/
def after {ts : List Token} {k : Nat} (t : Token)
    (r : Reading α (Cursor.mk ts k).size) :
    Reading α (Cursor.mk (t :: ts) k).size :=
  r.weaken (Nat.le_succ _)

/-- Goes on where a reading stopped, if it succeeded. What comes next is told
that no more tokens are ahead than before. -/
def andThen (r : Reading α n)
    (f : α → (c : Cursor) → c.size ≤ n → Reading β c.size) : Reading β n :=
  match r with
  | ⟨.ok a, c, h⟩ => (f a c h).weaken h
  | ⟨.error e, c, h⟩ => ⟨.error e, c, h⟩

/-- Changes what was read. -/
def map (f : α → β) (r : Reading α n) : Reading β n :=
  ⟨r.result.map f, r.cursor, r.size_le⟩

/-! ## What the operations do to a reading -/

@[simp] theorem result_succeed (a : α) (c : Cursor) :
    (succeed a c).result = .ok a := rfl

@[simp] theorem cursor_succeed (a : α) (c : Cursor) :
    (succeed a c).cursor = c := rfl

@[simp] theorem result_fail (e : ParseError) (c : Cursor) :
    (fail e c : Reading α c.size).result = .error e := rfl

@[simp] theorem cursor_fail (e : ParseError) (c : Cursor) :
    (fail e c : Reading α c.size).cursor = c := rfl

@[simp] theorem result_weaken (r : Reading α m) (h : m ≤ n) :
    (r.weaken h).result = r.result := rfl

@[simp] theorem cursor_weaken (r : Reading α m) (h : m ≤ n) :
    (r.weaken h).cursor = r.cursor := rfl

@[simp] theorem result_after {ts : List Token} {k : Nat} (t : Token)
    (r : Reading α (Cursor.mk ts k).size) : (r.after t).result = r.result := rfl

@[simp] theorem cursor_after {ts : List Token} {k : Nat} (t : Token)
    (r : Reading α (Cursor.mk ts k).size) : (r.after t).cursor = r.cursor := rfl

@[simp] theorem result_map (f : α → β) (r : Reading α n) :
    (r.map f).result = r.result.map f := rfl

@[simp] theorem cursor_map (f : α → β) (r : Reading α n) :
    (r.map f).cursor = r.cursor := rfl

/-- After a success, the reading goes on where it stopped. -/
theorem andThen_of_ok {r : Reading α n} {a : α} (h : r.result = .ok a)
    (f : α → (c : Cursor) → c.size ≤ n → Reading β c.size) :
    r.andThen f = (f a r.cursor r.size_le).weaken r.size_le := by
  obtain ⟨result, cursor, hle⟩ := r
  cases h
  rfl

/-- A failure stops the reading where it arose. -/
theorem andThen_of_error {r : Reading α n} {e : ParseError}
    (h : r.result = .error e)
    (f : α → (c : Cursor) → c.size ≤ n → Reading β c.size) :
    r.andThen f = ⟨.error e, r.cursor, r.size_le⟩ := by
  obtain ⟨result, cursor, hle⟩ := r
  cases h
  rfl

/-! ## Tokens, names and lists -/

/-- Reads a token of the given kind. A token of another kind is read too, and
is the error. -/
def expect (kind : Token.Kind) : (c : Cursor) → Reading Unit c.size
  | ⟨[], k⟩ => fail (.unexpectedEnd (.token kind)) ⟨[], k⟩
  | ⟨t :: ts, k⟩ =>
    if t.kind = kind then (succeed () ⟨ts, k⟩).after t
    else (fail (.unexpectedToken (.token kind) t) ⟨ts, k⟩).after t

/-- The name that the token `t` is, where a name is asked for. -/
def nameOf (t : Token) (c : Cursor) : Reading String c.size :=
  match t.kind with
  | .ident name => succeed name c
  | _ => fail (.unexpectedToken .identifier t) c

/-- Reads a name. -/
def name : (c : Cursor) → Reading String c.size
  | ⟨[], k⟩ => fail (.unexpectedEnd .identifier) ⟨[], k⟩
  | ⟨t :: ts, k⟩ => (nameOf t ⟨ts, k⟩).after t

/-- Reads what stands between two elements of a list: `true` for a comma,
`false` for the token that closes the list. -/
def separator (close : Token.Kind) : (c : Cursor) → Reading Bool c.size
  | ⟨[], k⟩ => fail (.unexpectedEnd (.token close)) ⟨[], k⟩
  | ⟨t :: ts, k⟩ =>
    if t.kind = .comma then (succeed true ⟨ts, k⟩).after t
    else if t.kind = close then (succeed false ⟨ts, k⟩).after t
    else (fail (.unexpectedToken (.token close) t) ⟨ts, k⟩).after t

/-- **Reads a list** of elements with commas between them, up to and including
the token that closes it. A comma may stand before the closing token, and the
list may be empty.

An element is read by `element`, given its first token; it is only ever asked
to read from fewer than `n` tokens. -/
def list (close : Token.Kind)
    (element : Token → (c : Cursor) → c.size < n → Reading α c.size)
    (c : Cursor) (hc : c.size ≤ n) : Reading (List α) c.size :=
  match c, hc with
  | ⟨[], k⟩, _ => fail (.unexpectedEnd (.token close)) ⟨[], k⟩
  | ⟨t :: ts, k⟩, hc =>
    if t.kind = close then (succeed [] ⟨ts, k⟩).after t
    else
      ((element t ⟨ts, k⟩ hc).andThen fun a c h =>
        (separator close c).andThen fun more c' h' =>
          if more then
            (list close element c'
              (Nat.le_trans h' (Nat.le_trans h (Nat.le_of_lt hc)))).map (a :: ·)
          else succeed [a] c').after t
termination_by c.size
decreasing_by
  exact Nat.lt_succ_of_le (Nat.le_trans h' h)

end Reading

end Monkey
